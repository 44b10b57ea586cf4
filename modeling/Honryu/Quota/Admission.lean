import Honryu.Quota.Service

/-!
Reserving while other things happen.

A call of `Reserve` holds the tenant's lock while it reads the ledger, decides and
writes. Other tenants' calls, releases, deletions, runs that start and end, and the
clock do not wait for it. The ledger therefore changes between any two things a call
does, but for its own tenant and cluster nobody else adds to it: what a call has read
stays an upper bound of what is reserved, and that is all it needs.
-/

namespace Honryu.Quota

variable {p : Precision}

/-! ### A call -/

/-- Where a call of `Reserve` stands: what it does next, and what it knows. -/
inductive Stage
  | lock
  | readQuota
  | readWindow (ceiling : ℤ)
  | readTenant (ceiling used : ℤ)
  | readClock (ceiling used : ℤ) (all : List Reservation)
  | scan (ceiling used now : ℤ) (rest overrun : List Reservation)
  | weigh (ceiling used : ℤ) (overrun : List Reservation)
  | reclaim (ceiling used needed freed : ℤ) (rest : List Reservation)
  | settle (ceiling used : ℤ)
  | returned (result : Except ReserveError Reservation)

def Stage.inLock : Stage → Bool
  | .lock | .returned _ => false
  | _ => true

/-- What a call does next, under the lock. What comes of stopping an execution is
not for the call to say. -/
def Stage.next (quota : QuotaRow) (clock : ℤ) (outcome : StopOutcome) (q : Request)
    (w : World p) : Stage → World p × Stage
  | .lock => (w, .lock)
  | .readQuota => (w, .readWindow quota.effective)
  | .readWindow ceiling =>
      let existing := w.ledger.inWindow q.1.tenantId q.1.cluster q.1.startTime q.1.endTime
      (w, .readTenant ceiling (existing.map (·.engineCount)).sum)
  | .readTenant ceiling used =>
      (w, .readClock ceiling used (w.ledger.forTenant q.1.tenantId q.1.cluster))
  | .readClock ceiling used all => (w, .scan ceiling used clock all [])
  | .scan ceiling used now (r :: rest) overrun =>
      (w, .scan ceiling used now rest
        (if r.endTime < now ∧ w.running r.executionId then overrun ++ [r] else overrun))
  | .scan ceiling used _ [] overrun =>
      (w, .weigh ceiling (used + (overrun.map (·.engineCount)).sum) overrun)
  | .weigh ceiling used overrun =>
      if ceiling < used + q.1.engineCount ∧ q.1.startTime ≤ clock then
        (w, .reclaim ceiling used (used + q.1.engineCount - ceiling) 0
          (overrun.insertionSort fun r r' => r.endTime ≤ r'.endTime))
      else (w, .settle ceiling used)
  | .reclaim ceiling used _ freed [] => (w, .settle ceiling (used - freed))
  | .reclaim ceiling used needed freed (r :: rest) =>
      if needed ≤ freed then (w, .settle ceiling (used - freed))
      else
        match outcome with
        | .noStopper => (w, .settle ceiling (used - freed))
        | .failed message => (w, .returned (.error (.stop message)))
        | .stopped released =>
            (w.stop r.executionId released,
              .reclaim ceiling used needed (freed + r.engineCount) rest)
  | .settle ceiling used =>
      let (w, result) := Quota.settle w q ceiling used
      (w, .returned result)
  | .returned result => (w, .returned result)

/-! ### A call alone -/

section Alone

variable (stopper : Stopper p) (quota : QuotaRow) (clock : ℤ) (q : Request)

/-- A call that nothing interferes with, and whose stops are answered by a stopper. -/
def aloneStep (s : World p × Stage) : World p × Stage :=
  let outcome := match s.2 with
    | .reclaim _ _ _ _ (r :: _) => stopper s.1 r.executionId
    | _ => .noStopper
  s.2.next quota clock outcome q s.1

def LeadsTo (s s' : World p × Stage) : Prop := ∃ n, (aloneStep stopper quota clock q)^[n] s = s'

variable {stopper quota clock q}

theorem LeadsTo.refl (s : World p × Stage) : LeadsTo stopper quota clock q s s := ⟨0, rfl⟩

theorem LeadsTo.head {s s' : World p × Stage}
    (h : LeadsTo stopper quota clock q (aloneStep stopper quota clock q s) s') :
    LeadsTo stopper quota clock q s s' := by
  obtain ⟨n, hn⟩ := h
  exact ⟨n + 1, hn⟩

def done (r : World p × Except ReserveError Reservation) : World p × Stage := (r.1, .returned r.2)

theorem leadsTo_settle (w : World p) (ceiling used : ℤ) :
    LeadsTo stopper quota clock q (w, .settle ceiling used)
      (done (Quota.settle w q ceiling used)) :=
  ⟨1, rfl⟩

/-- The loop of `reclaimOverrun`, and what follows it. -/
theorem leadsTo_reclaim (w : World p) (ceiling used needed freed : ℤ) (rest : List Reservation) :
    LeadsTo stopper quota clock q (w, .reclaim ceiling used needed freed rest)
      (done (afterReclaim q ceiling used (reclaim stopper needed w freed rest))) := by
  induction rest generalizing w freed with
  | nil => exact .head (leadsTo_settle w ceiling (used - freed))
  | cons r rest ih =>
      refine .head ?_
      simp only [aloneStep, Stage.next, reclaim]
      by_cases hfreed : needed ≤ freed
      · simp only [if_pos hfreed]
        exact leadsTo_settle w ceiling (used - freed)
      · simp only [if_neg hfreed]
        cases stopper w r.executionId with
        | noStopper => exact leadsTo_settle w ceiling (used - freed)
        | failed message => exact .refl _
        | stopped released => exact ih _ _

theorem leadsTo_scan (w : World p) (ceiling used now : ℤ) (rest overrun : List Reservation)
    {s' : World p × Stage}
    (h : LeadsTo stopper quota clock q
      (w, .scan ceiling used now []
        (overrun ++ rest.filter fun r => r.endTime < now ∧ w.running r.executionId)) s') :
    LeadsTo stopper quota clock q (w, .scan ceiling used now rest overrun) s' := by
  induction rest generalizing overrun with
  | nil => simpa using h
  | cons r rest ih =>
      refine .head (ih _ ?_)
      rw [List.filter_cons] at h
      by_cases hr : r.endTime < now ∧ w.running r.executionId = true
      · simpa [hr] using h
      · simpa [hr] using h

/-- Alone, a call that has the lock returns what `reserveLocked` says. -/
theorem leadsTo_reserveLocked (w : World p) :
    LeadsTo stopper quota clock q (w, .readQuota)
      (done (reserveLocked stopper quota.effective clock clock w q)) := by
  iterate 4 refine .head ?_
  refine leadsTo_scan _ _ _ _ _ _ (.head ?_)
  rw [List.nil_append]
  let used := (usedCapacity w clock q.1.tenantId q.1.cluster q.1.startTime q.1.endTime).1
  let overrun := overrunReservations w clock q.1.tenantId q.1.cluster
  change LeadsTo stopper quota clock q (w, .weigh quota.effective used overrun) _
  refine .head ?_
  simp only [aloneStep, Stage.next, reserveLocked]
  by_cases hover : quota.effective < used + q.1.engineCount ∧ q.1.startTime ≤ clock
  · rw [if_pos hover, if_pos hover]
    exact leadsTo_reclaim w quota.effective used _ 0 _
  · rw [if_neg hover, if_neg hover]
    exact leadsTo_settle w quota.effective used

end Alone

/-! ### Calls side by side -/

structure Call where
  request : Request
  stage : Stage

/-- The ledger and the runs, the clock, who holds the lock of a tenant and cluster,
and the calls of `Reserve` in the order they were made. -/
structure System (p : Precision) where
  world : World p
  clock : ℤ
  holder : ℤ × String → Option ℕ
  calls : List Call

/-- What can happen: a call is made, goes on, or fails for want of the lock or the
store; reservations are released or deleted; runs begin and end; time passes. -/
inductive Event
  | reserve (r : Reservation)
  | advance (i : ℕ) (outcome : StopOutcome)
  | fail (i : ℕ) (message : String)
  | release (executionId : ℤ)
  | delete (id : ℤ)
  | run (executionId : ℤ) (running : Bool)
  | elapse (nanoseconds : ℕ)

namespace System

def new : System p :=
  { world := { ledger := .empty, running := fun _ => false }, clock := 0, holder := fun _ => none
    calls := [] }

/-- A call that holds the lock has gone on. When it returns it lets the lock go. -/
def put (s : System p) (i : ℕ) (c : Call) (r : World p × Stage) : System p :=
  { s with
    world := r.1
    calls := s.calls.set i { c with stage := r.2 }
    holder := if r.2.inLock then s.holder
      else Function.update s.holder c.request.1.key none }

variable (quota : ℤ × String → QuotaRow)

/-- `GET_LOCK`: a call gets the lock if nobody holds it. -/
def acquire (s : System p) (i : ℕ) (c : Call) : System p :=
  if s.holder c.request.1.key = none then
    { s with
      calls := s.calls.set i { c with stage := .readQuota }
      holder := Function.update s.holder c.request.1.key (some i) }
  else s

def advance (s : System p) (i : ℕ) (c : Call) (outcome : StopOutcome) : System p :=
  match c.stage with
  | .lock => s.acquire i c
  | .returned _ => s
  | stage => s.put i c (stage.next (quota c.request.1.key) s.clock outcome c.request s.world)

def fail (s : System p) (i : ℕ) (c : Call) (message : String) : System p :=
  match c.stage with
  | .lock => { s with calls := s.calls.set i { c with stage := .returned (.error (.store message)) } }
  | .returned _ => s
  | _ => s.put i c (s.world, .returned (.error (.store message)))

def step (s : System p) : Event → System p
  | .reserve r =>
      if h : r.Valid then { s with calls := s.calls ++ [{ request := ⟨r, h⟩, stage := .lock }] }
      else s
  | .advance i outcome => (s.calls[i]?).elim s fun c => s.advance quota i c outcome
  | .fail i message => (s.calls[i]?).elim s fun c => s.fail i c message
  | .release executionId =>
      { s with world := { s.world with ledger := s.world.ledger.release executionId } }
  | .delete id =>
      match s.world.ledger.delete id with
      | .error _ => s
      | .ok ledger => { s with world := { s.world with ledger } }
  | .run executionId running =>
      { s with world :=
        { s.world with running := Function.update s.world.running executionId running } }
  | .elapse nanoseconds => { s with clock := s.clock + nanoseconds }

def run (events : List Event) : System p := events.foldl (step quota) new

end System

/-! ### What a call knows -/

def Within (l : Ledger p) (q : Request) (amount : ℤ) : Prop :=
  ∀ t, p.round q.1.startTime ≤ t → t < p.round q.1.endTime → l.load q.1.key t ≤ amount

theorem Within.mono {l l' : Ledger p} {q : Request} {a b : ℤ} (h : Within l q a)
    (hload : ∀ t, l'.load q.1.key t ≤ l.load q.1.key t) (hle : a ≤ b) : Within l' q b :=
  fun t hlo hhi => (hload t).trans ((h t hlo hhi).trans hle)

def Positive (rs : List Reservation) : Prop := ∀ r ∈ rs, 0 < r.engineCount

theorem Positive.sum_nonneg {rs : List Reservation} (h : Positive rs) :
    0 ≤ (rs.map (·.engineCount)).sum :=
  List.sum_nonneg (List.forall_mem_map.mpr fun r hr => (h r hr).le)

/-- What a call has read stays an upper bound of what is reserved in its window, even
after all that may still be reclaimed is taken off. -/
def Stage.Bounded (quota : QuotaRow) (l : Ledger p) (q : Request) : Stage → Prop
  | .lock | .readQuota | .returned _ => True
  | .readWindow ceiling => ceiling = quota.effective
  | .readTenant ceiling used => ceiling = quota.effective ∧ Within l q used
  | .readClock ceiling used all => ceiling = quota.effective ∧ Within l q used ∧ Positive all
  | .scan ceiling used _ rest overrun =>
      ceiling = quota.effective ∧ Within l q used ∧ Positive rest ∧ Positive overrun
  | .weigh ceiling used overrun =>
      ceiling = quota.effective ∧ Within l q (used - (overrun.map (·.engineCount)).sum) ∧
        Positive overrun
  | .reclaim ceiling used _ freed rest =>
      ceiling = quota.effective ∧ Within l q (used - freed - (rest.map (·.engineCount)).sum) ∧
        Positive rest
  | .settle ceiling used => ceiling = quota.effective ∧ Within l q used

section Bounded

variable {quota : QuotaRow} {l l' : Ledger p} {q : Request} {stage : Stage}

theorem Stage.inLock_of_ne (hlock : stage ≠ .lock) (hreturned : ∀ r, stage ≠ .returned r) :
    stage.inLock = true := by
  cases stage with
  | lock => exact absurd rfl hlock
  | returned result => exact absurd rfl (hreturned result)
  | _ => rfl

theorem Stage.bounded_of_not_inLock (h : stage.inLock = false) : stage.Bounded quota l q := by
  cases stage with
  | lock => trivial
  | returned result => trivial
  | _ => cases h

theorem Stage.Bounded.mono (h : stage.Bounded quota l q)
    (hload : ∀ t, l'.load q.1.key t ≤ l.load q.1.key t) : stage.Bounded quota l' q := by
  cases stage with
  | lock => trivial
  | readQuota => trivial
  | returned result => trivial
  | readWindow ceiling => exact h
  | readTenant ceiling used => exact ⟨h.1, h.2.mono hload le_rfl⟩
  | readClock ceiling used all => exact ⟨h.1, h.2.1.mono hload le_rfl, h.2.2⟩
  | scan ceiling used now rest overrun => exact ⟨h.1, h.2.1.mono hload le_rfl, h.2.2⟩
  | weigh ceiling used overrun => exact ⟨h.1, h.2.1.mono hload le_rfl, h.2.2⟩
  | reclaim ceiling used needed freed rest => exact ⟨h.1, h.2.1.mono hload le_rfl, h.2.2⟩
  | settle ceiling used => exact ⟨h.1, h.2.mono hload le_rfl⟩

theorem World.load_stop_le (w : World p) (executionId : ℤ) (released : Bool) (key : ℤ × String)
    (t : ℤ) : (w.stop executionId released).ledger.load key t ≤ w.ledger.load key t := by
  unfold stop
  cases released with
  | false => exact le_rfl
  | true => exact w.ledger.load_keep_le _ key t

/-- What one thing that a call does under the lock can come to: nothing is added to
what is reserved, and the call's bound holds; or it returns, having created its
reservation where there was room for it. -/
inductive Goes (quota : QuotaRow) (q : Request) (w : World p) : World p × Stage → Prop
  | on {w' : World p} {stage : Stage}
      (hload : ∀ key t, w'.ledger.load key t ≤ w.ledger.load key t)
      (hbounded : stage.Bounded quota w'.ledger q) : Goes quota q w (w', stage)
  | created {w' : World p} {stage : Stage}
      (hledger : w'.ledger = w.ledger.create q.1 q.positive) (hreturned : stage.inLock = false)
      (hroom : Within w.ledger q (quota.effective - q.1.engineCount)) : Goes quota q w (w', stage)

variable {w : World p} {ceiling used : ℤ}

theorem Goes.read (h : stage.Bounded quota w.ledger q) : Goes quota q w (w, stage) :=
  .on (fun _ _ => le_rfl) h

theorem goes_scan {now : ℤ} {rest overrun : List Reservation}
    (h : (Stage.scan ceiling used now rest overrun).Bounded quota w.ledger q) (clock : ℤ)
    (outcome : StopOutcome) :
    Goes quota q w
      ((Stage.scan ceiling used now rest overrun).next quota clock outcome q w) := by
  obtain ⟨hceiling, hwithin, hrest, hoverrun⟩ := h
  cases rest with
  | nil =>
      refine .read ⟨hceiling, ?_, hoverrun⟩
      rwa [add_sub_cancel_right]
  | cons r rest =>
      refine .read ⟨hceiling, hwithin, fun x hx => hrest x (List.mem_cons_of_mem _ hx), ?_⟩
      split
      · refine List.forall_mem_append.mpr ⟨hoverrun, ?_⟩
        exact List.forall_mem_singleton.mpr (hrest r List.mem_cons_self)
      · exact hoverrun

theorem goes_weigh {overrun : List Reservation}
    (h : (Stage.weigh ceiling used overrun).Bounded quota w.ledger q) (clock : ℤ)
    (outcome : StopOutcome) :
    Goes quota q w ((Stage.weigh ceiling used overrun).next quota clock outcome q w) := by
  obtain ⟨hceiling, hwithin, hoverrun⟩ := h
  simp only [Stage.next]
  split
  · have hperm := List.perm_insertionSort (fun r r' : Reservation => r.endTime ≤ r'.endTime) overrun
    refine .read ⟨hceiling, ?_, fun r hr => hoverrun r (hperm.subset hr)⟩
    rwa [sub_zero, (hperm.map _).sum_eq]
  · exact .read ⟨hceiling, hwithin.mono (fun _ => le_rfl) (Int.sub_le_self _ hoverrun.sum_nonneg)⟩

/-- What is freed by a stop is taken off what was used, whether or not the stop took
it off the ledger: it was counted as overrunning before, beside what overlaps. -/
theorem goes_reclaim {needed freed : ℤ} {rest : List Reservation}
    (h : (Stage.reclaim ceiling used needed freed rest).Bounded quota w.ledger q) (clock : ℤ)
    (outcome : StopOutcome) :
    Goes quota q w
      ((Stage.reclaim ceiling used needed freed rest).next quota clock outcome q w) := by
  obtain ⟨hceiling, hwithin, hrest⟩ := h
  have hsettle : (Stage.settle ceiling (used - freed)).Bounded quota w.ledger q :=
    ⟨hceiling, hwithin.mono (fun _ => le_rfl) (Int.sub_le_self _ hrest.sum_nonneg)⟩
  cases rest with
  | nil => exact .read hsettle
  | cons r rest =>
      simp only [Stage.next]
      split
      · exact .read hsettle
      · cases outcome with
        | noStopper => exact .read hsettle
        | failed message => exact .read trivial
        | stopped released =>
            have hload := w.load_stop_le r.executionId released
            refine .on hload ⟨hceiling, hwithin.mono (hload _) ?_,
              fun x hx => hrest x (List.mem_cons_of_mem _ hx)⟩
            rw [List.map_cons, List.sum_cons]
            omega

theorem goes_settle (h : (Stage.settle ceiling used).Bounded quota w.ledger q) (clock : ℤ)
    (outcome : StopOutcome) :
    Goes quota q w ((Stage.settle ceiling used).next quota clock outcome q w) := by
  obtain ⟨hceiling, hwithin⟩ := h
  simp only [Stage.next, Quota.settle]
  split
  · exact .read trivial
  case isFalse hfits =>
    refine .created rfl rfl (hwithin.mono (fun _ => le_rfl) ?_)
    omega

theorem goes_next (h : stage.Bounded quota w.ledger q) (clock : ℤ) (outcome : StopOutcome) :
    Goes quota q w (stage.next quota clock outcome q w) := by
  cases stage with
  | lock => exact .read trivial
  | returned result => exact .read trivial
  | readQuota => exact .read rfl
  | readWindow ceiling =>
      exact .read ⟨h, fun t hlo hhi => w.ledger.load_le_sum_inWindow q.1 hlo hhi⟩
  | readTenant ceiling used => exact .read ⟨h.1, h.2, w.ledger.positive_forTenant⟩
  | readClock ceiling used all => exact .read ⟨h.1, h.2.1, h.2.2, fun _ hr => nomatch hr⟩
  | scan ceiling used now rest overrun => exact goes_scan h clock outcome
  | weigh ceiling used overrun => exact goes_weigh h clock outcome
  | reclaim ceiling used needed freed rest => exact goes_reclaim h clock outcome
  | settle ceiling used => exact goes_settle h clock outcome

end Bounded

/-! ### Every interleaving -/

namespace System

/-- No more is reserved than the ceiling; a call past the lock holds it; and what the
calls know is so. -/
structure Sound (quota : ℤ × String → QuotaRow) (s : System p) : Prop where
  within : ∀ key t, s.world.ledger.load key t ≤ (quota key).effective
  holds : ∀ (i : ℕ) (c : Call), s.calls[i]? = some c → c.stage.inLock = true →
    s.holder c.request.1.key = some i
  bounded : ∀ (i : ℕ) (c : Call), s.calls[i]? = some c →
    c.stage.Bounded (quota c.request.1.key) s.world.ledger c.request

variable {quota : ℤ × String → QuotaRow} {s : System p} {i : ℕ} {c : Call}

theorem sound_new : (new : System p).Sound quota where
  within key t := (quota key).effective_nonneg
  holds i c h _ := by simp [new] at h
  bounded i c h := by simp [new] at h

theorem Sound.shrink (h : s.Sound quota) {world : World p} {clock : ℤ}
    (hload : ∀ key t, world.ledger.load key t ≤ s.world.ledger.load key t) :
    ({ s with world, clock } : System p).Sound quota where
  within key t := (hload key t).trans (h.within key t)
  holds := h.holds
  bounded i c hc := (h.bounded i c hc).mono (hload _)

theorem getElem?_set_eq_some {calls : List Call} {j : ℕ} {c' x : Call}
    (h : (calls.set i c')[j]? = some x) : (i = j ∧ x = c') ∨ (i ≠ j ∧ calls[j]? = some x) := by
  rw [List.getElem?_set] at h
  split at h
  case isTrue hij =>
    split at h
    · exact .inl ⟨hij, (Option.some_inj.mp h).symm⟩
    · cases h
  case isFalse hij => exact .inr ⟨hij, h⟩

theorem getElem?_append_singleton {calls : List Call} {j : ℕ} {c' x : Call}
    (h : (calls ++ [c'])[j]? = some x) : calls[j]? = some x ∨ x = c' := by
  rw [List.getElem?_append] at h
  split at h
  · exact .inl h
  · exact .inr (List.mem_singleton.mp (List.mem_of_getElem? h))

theorem Sound.acquire (h : s.Sound quota) (i : ℕ) (c : Call) : (s.acquire i c).Sound quota := by
  unfold System.acquire
  split
  case isFalse => exact h
  case isTrue hfree =>
    refine ⟨h.within, fun j x hx hlock => ?_, fun j x hx => ?_⟩
    · rcases getElem?_set_eq_some hx with ⟨rfl, rfl⟩ | ⟨hij, hx⟩
      · exact Function.update_self ..
      · have hholds := h.holds j x hx hlock
        have hother : x.request.1.key ≠ c.request.1.key := by
          intro hkey
          rw [hkey, hfree] at hholds
          cases hholds
        exact (Function.update_of_ne hother _ _).trans hholds
    · rcases getElem?_set_eq_some hx with ⟨rfl, rfl⟩ | ⟨-, hx⟩
      · trivial
      · exact h.bounded j x hx

theorem Sound.eq_of_key_eq (h : s.Sound quota) (hc : s.calls[i]? = some c)
    (hlock : c.stage.inLock = true) {j : ℕ} {x : Call} (hx : s.calls[j]? = some x)
    (hlock' : x.stage.inLock = true) (hkey : x.request.1.key = c.request.1.key) : i = j := by
  have hi := h.holds i c hc hlock
  rw [← hkey, h.holds j x hx hlock', Option.some_inj] at hi
  exact hi.symm

theorem Sound.holds_put (h : s.Sound quota) (hc : s.calls[i]? = some c)
    (hlock : c.stage.inLock = true) (r : World p × Stage) {j : ℕ} {x : Call}
    (hx : (s.put i c r).calls[j]? = some x) (hlock' : x.stage.inLock = true) :
    (s.put i c r).holder x.request.1.key = some j := by
  rcases getElem?_set_eq_some hx with ⟨rfl, rfl⟩ | ⟨hij, hx⟩
  · rw [put, if_pos hlock']
    exact h.holds i c hc hlock
  · have hholds := h.holds j x hx hlock'
    rw [put]
    split
    · exact hholds
    · have hother : x.request.1.key ≠ c.request.1.key :=
        fun hkey => hij (h.eq_of_key_eq hc hlock hx hlock' hkey)
      exact (Function.update_of_ne hother _ _).trans hholds

/-- A call past the lock does one thing. Where that creates a reservation, nobody
else past the lock has its tenant and cluster. -/
theorem Sound.put (h : s.Sound quota) (hc : s.calls[i]? = some c) (hlock : c.stage.inLock = true)
    {r : World p × Stage} (hgoes : Goes (quota c.request.1.key) c.request s.world r) :
    (s.put i c r).Sound quota := by
  cases hgoes with
  | on hload hbounded =>
      refine ⟨fun key t => (hload key t).trans (h.within key t),
        fun j x hx hlock' => h.holds_put hc hlock _ hx hlock', fun j x hx => ?_⟩
      rcases getElem?_set_eq_some hx with ⟨rfl, rfl⟩ | ⟨-, hx⟩
      · exact hbounded
      · exact (h.bounded j x hx).mono (hload _)
  | created hledger hreturned hroom =>
      refine ⟨fun key t => ?_, fun j x hx hlock' => h.holds_put hc hlock _ hx hlock',
        fun j x hx => ?_⟩
      · rw [System.put, hledger, Ledger.load_create]
        split
        case isTrue hin =>
          obtain ⟨rfl, hlo, hhi⟩ := hin
          have := hroom t hlo hhi
          omega
        case isFalse =>
          rw [add_zero]
          exact h.within key t
      · rcases getElem?_set_eq_some hx with ⟨rfl, rfl⟩ | ⟨hij, hx⟩
        · exact Stage.bounded_of_not_inLock hreturned
        · by_cases hlock' : x.stage.inLock = true
          · have hother : ¬c.request.1.key = x.request.1.key :=
              fun hkey => hij (h.eq_of_key_eq hc hlock hx hlock' hkey.symm)
            refine (h.bounded j x hx).mono fun t => ?_
            rw [System.put, hledger, Ledger.load_create, if_neg fun hin => hother hin.1, add_zero]
          · exact Stage.bounded_of_not_inLock (Bool.eq_false_of_not_eq_true hlock')

theorem Sound.advance (h : s.Sound quota) (hc : s.calls[i]? = some c) (outcome : StopOutcome) :
    (s.advance quota i c outcome).Sound quota := by
  unfold System.advance
  split
  case h_1 => exact h.acquire i c
  case h_2 => exact h
  case h_3 hlock hreturned =>
    exact h.put hc (Stage.inLock_of_ne hlock hreturned)
      (goes_next (h.bounded i c hc) s.clock outcome)

theorem Sound.fail (h : s.Sound quota) (hc : s.calls[i]? = some c) (message : String) :
    (s.fail i c message).Sound quota := by
  unfold System.fail
  split
  case h_1 =>
    refine ⟨h.within, fun j x hx hlock => ?_, fun j x hx => ?_⟩
    · rcases getElem?_set_eq_some hx with ⟨rfl, rfl⟩ | ⟨-, hx⟩
      · cases hlock
      · exact h.holds j x hx hlock
    · rcases getElem?_set_eq_some hx with ⟨rfl, rfl⟩ | ⟨-, hx⟩
      · trivial
      · exact h.bounded j x hx
  case h_2 => exact h
  case h_3 hlock hreturned =>
    exact h.put hc (Stage.inLock_of_ne hlock hreturned) (.read trivial)

theorem Sound.step (h : s.Sound quota) (e : Event) : (s.step quota e).Sound quota := by
  cases e with
  | reserve r =>
      simp only [System.step]
      split
      case isFalse => exact h
      case isTrue hvalid =>
        refine ⟨h.within, fun j x hx hlock => ?_, fun j x hx => ?_⟩
        · rcases getElem?_append_singleton hx with hx | rfl
          · exact h.holds j x hx hlock
          · cases hlock
        · rcases getElem?_append_singleton hx with hx | rfl
          · exact h.bounded j x hx
          · trivial
  | advance i outcome =>
      simp only [System.step]
      cases hc : s.calls[i]? with
      | none => exact h
      | some c => exact h.advance hc outcome
  | fail i message =>
      simp only [System.step]
      cases hc : s.calls[i]? with
      | none => exact h
      | some c => exact h.fail hc message
  | release executionId => exact h.shrink fun key t => s.world.ledger.load_keep_le _ key t
  | delete id =>
      simp only [System.step, Ledger.delete]
      split
      · exact h
      case h_2 ledger hdelete =>
        split at hdelete
        · cases hdelete
          exact h.shrink fun key t => s.world.ledger.load_keep_le _ key t
        · cases hdelete
  | run executionId running => exact h.shrink fun _ _ => le_rfl
  | elapse nanoseconds => exact h.shrink fun _ _ => le_rfl

theorem sound_run (quota : ℤ × String → QuotaRow) (events : List Event) :
    (run quota events : System p).Sound quota := by
  induction events using List.reverseRecOn with
  | nil => exact sound_new
  | append_singleton events e ih =>
      rw [run, List.foldl_append]
      exact ih.step e

/-- However calls, releases, deletions, runs and the clock interleave, at no instant
is more reserved of a tenant's engines on a cluster than its ceiling. -/
theorem load_le_ceiling (quota : ℤ × String → QuotaRow) (events : List Event)
    (key : ℤ × String) (t : ℤ) :
    (run quota events : System p).world.ledger.load key t ≤ (quota key).effective :=
  (sound_run quota events).within key t

end System

end Honryu.Quota
