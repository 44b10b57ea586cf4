import Honryu.Digests.Digest
import Honryu.Lib.Walk
import Mathlib.Data.Prod.Lex

/-!
Which replica fires the digest of a project.

A claim reads the schedules, the most overdue ones first, and then tries one after the other:
the stamp of a schedule is moved on only if it still is a period old. Any number of claims are
under way at the same time, and between the read of one and its updates the others go on.
-/

namespace Honryu.Digests

/-! ### Schedules -/

theorem Period.duration_pos (p : Period) : 0 < p.duration := by
  cases p <;> decide

/-- `Schedule` is when the digest of a project is fired. The last stamp is missing if it
never was. -/
structure Schedule where
  projectId : ℤ
  period : Period
  enabled : Bool
  lastFired : Option ℤ
  deriving DecidableEq

namespace Schedule

def due (c : Schedule) (now : ℤ) : Bool :=
  match c.lastFired with
  | none => true
  | some t => ¬now < t + c.period.duration

/-- The oldest stamp that the update asks for. It is null for a candidate that never fired. -/
def cutoff (c : Schedule) (now : ℤ) : Option ℤ := c.lastFired.map fun _ => now - c.period.duration

/-- The stamp is missing, or as old as asked for. No stamp is as old as null. -/
def oldEnough (lastFired cutoff : Option ℤ) : Bool :=
  match lastFired, cutoff with
  | none, _ => true
  | some t, some c => t ≤ c
  | some _, none => false

def matched (projectId : ℤ) (cutoff : Option ℤ) (row : Schedule) : Bool :=
  row.projectId = projectId ∧ row.enabled = true ∧ oldEnough row.lastFired cutoff = true

theorem stamp_of_matched {x row : Schedule} {now : ℤ}
    (h : row.matched x.projectId (x.cutoff now) = true) {t : ℤ} (ht : row.lastFired = some t) :
    t + x.period.duration ≤ now := by
  obtain ⟨-, -, hold⟩ := of_decide_eq_true h
  rw [ht, cutoff] at hold
  cases hx : x.lastFired with
  | none => simp [hx, oldEnough] at hold
  | some t' =>
      simp only [hx, oldEnough, Option.map_some, decide_eq_true_eq] at hold
      omega

/-- What the rows are ordered by: those that never fired come first, then the oldest stamp. -/
def sortKey (row : Schedule) : WithBot ℤ ×ₗ ℤ := toLex (row.lastFired, row.projectId)

/-- What comes before a stamp that is there is older, or has none. -/
theorem stamp_le_of_sortKey_le {q d : Schedule} (h : q.sortKey ≤ d.sortKey) {t : ℤ}
    (ht : q.lastFired = some t) : ∃ u, d.lastFired = some u ∧ t ≤ u := by
  have hle : ((t : ℤ) : WithBot ℤ) ≤ d.lastFired := by
    rw [sortKey, sortKey, ht] at h
    rcases Prod.Lex.toLex_le_toLex.mp h with h | h
    · exact le_of_lt h
    · exact le_of_eq h.1
  cases hd : d.lastFired with
  | none =>
      rw [hd] at hle
      exact absurd hle (WithBot.not_coe_le_bot t)
  | some u =>
      rw [hd] at hle
      exact ⟨u, rfl, WithBot.coe_le_coe.mp hle⟩

end Schedule

def candidates (table : List Schedule) : List Schedule :=
  (table.filter (·.enabled)).insertionSort fun a b => a.sortKey ≤ b.sortKey

/-! ### Claims under way -/

/-- A call of `ClaimDueDigestSchedule` that is under way, with the candidates it has left once
it has read them. The calls are numbered as they begin. -/
structure Claiming where
  serial : ℕ
  now : ℤ
  left : Option (List Schedule)
  deriving DecidableEq

structure Returned where
  serial : ℕ
  claimed : Option Schedule
  deriving DecidableEq

structure Claims where
  clock : ℤ
  table : List Schedule
  serial : ℕ
  calls : ℕ → Option Claiming
  returned : List Returned

inductive ClaimEvent
  | elapse (d : ℕ)
  | begins (i : ℕ)
  | read (i : ℕ)
  | update (i : ℕ)
  deriving DecidableEq

namespace Claims

def new (clock : ℤ) (table : List Schedule) : Claims :=
  { clock, table, serial := 0, calls := fun _ => none, returned := [] }

def return_ (s : Claims) (i : ℕ) (c : Claiming) (claimed : Option Schedule) : Claims :=
  { s with
    calls := Function.update s.calls i none
    returned := s.returned ++ [⟨c.serial, claimed⟩] }

/-- The loop goes on with the candidates that are left: those that are not due are skipped, and
if there is no other the call returns. -/
def goOn (s : Claims) (i : ℕ) (c : Claiming) (rows : List Schedule) : Claims :=
  match rows.dropWhile fun x => !x.due c.now with
  | [] => s.return_ i c none
  | x :: rest =>
      { s with calls := Function.update s.calls i (some { c with left := some (x :: rest) }) }

def claims (s : Claims) (c : Claiming) (x : Schedule) : Bool :=
  s.table.countP (Schedule.matched x.projectId (x.cutoff c.now)) = 1

def stamp (s : Claims) (c : Claiming) (x : Schedule) : List Schedule :=
  s.table.map fun row =>
    if row.matched x.projectId (x.cutoff c.now) then { row with lastFired := some c.now } else row

def step (s : Claims) : ClaimEvent → Claims
  | .elapse d => { s with clock := s.clock + d }
  | .begins i =>
      match s.calls i with
      | some _ => s
      | none =>
          { s with
            serial := s.serial + 1
            calls := Function.update s.calls i (some ⟨s.serial, s.clock, none⟩) }
  | .read i =>
      match s.calls i with
      | some ⟨serial, now, none⟩ => s.goOn i ⟨serial, now, none⟩ (candidates s.table)
      | _ => s
  | .update i =>
      match s.calls i with
      | some ⟨serial, now, some (x :: rest)⟩ =>
          let c : Claiming := ⟨serial, now, some (x :: rest)⟩
          if s.claims c x then
            { s with table := s.stamp c x }.return_ i c (some { x with lastFired := some now })
          else s.goOn i c rest
      | _ => s

abbrev run (s : Claims) (events : List ClaimEvent) : Claims := Walk.run step s events

inductive Comes (s : Claims) : ClaimEvent → Claims → Prop
  | stays (e : ClaimEvent) : Comes s e s
  | elapse (d : ℕ) : Comes s (.elapse d) { s with clock := s.clock + d }
  | begins (i : ℕ) (hi : s.calls i = none) :
      Comes s (.begins i)
        { s with
          serial := s.serial + 1
          calls := Function.update s.calls i (some ⟨s.serial, s.clock, none⟩) }
  | read (i : ℕ) (c : Claiming) (hi : s.calls i = some c) (hleft : c.left = none) :
      Comes s (.read i) (s.goOn i c (candidates s.table))
  | misses (i : ℕ) (c : Claiming) (x : Schedule) (rest : List Schedule) (hi : s.calls i = some c)
      (hleft : c.left = some (x :: rest)) (hclaims : s.claims c x = false) :
      Comes s (.update i) (s.goOn i c rest)
  | claims (i : ℕ) (c : Claiming) (x : Schedule) (rest : List Schedule) (hi : s.calls i = some c)
      (hleft : c.left = some (x :: rest)) (hclaims : s.claims c x = true) :
      Comes s (.update i)
        ({ s with table := s.stamp c x }.return_ i c (some { x with lastFired := some c.now }))

theorem comes_step (s : Claims) (e : ClaimEvent) : Comes s e (s.step e) := by
  cases e with
  | elapse d => exact .elapse d
  | begins i =>
      rw [step]
      cases hi : s.calls i with
      | some c => exact .stays _
      | none => exact .begins i hi
  | read i =>
      rw [step]
      split
      · next serial now hi => exact .read i _ hi rfl
      · exact .stays _
  | update i =>
      rw [step]
      split
      · next serial now x rest hi =>
        simp only
        split
        · exact .claims i _ x rest hi rfl ‹_›
        · exact .misses i _ x rest hi rfl (Bool.eq_false_iff.mpr ‹_›)
      · exact .stays _

theorem goOn_cases (s : Claims) (i : ℕ) (c : Claiming) (rows : List Schedule) :
    ((∀ x ∈ rows, x.due c.now = false) ∧ s.goOn i c rows = s.return_ i c none) ∨
      ∃ skipped left, rows = skipped ++ left ∧ left ≠ [] ∧
        (∀ x ∈ skipped, x.due c.now = false) ∧
        s.goOn i c rows =
          { s with calls := Function.update s.calls i (some { c with left := some left }) } := by
  have hsplit := List.takeWhile_append_dropWhile (p := fun x => !x.due c.now) (l := rows)
  have hskipped : ∀ x ∈ rows.takeWhile fun x => !x.due c.now, x.due c.now = false := by
    intro x hx
    simpa using List.mem_takeWhile_imp hx
  rw [goOn]
  cases hdrop : rows.dropWhile fun x => !x.due c.now with
  | nil =>
      refine .inl ⟨?_, rfl⟩
      rw [hdrop, List.append_nil] at hsplit
      rwa [hsplit] at hskipped
  | cons x rest =>
      rw [hdrop] at hsplit
      exact .inr ⟨_, _, hsplit.symm, List.cons_ne_nil _ _, hskipped, rfl⟩

/-! ### Exclusiveness -/

/-- The second claim is stamped a period after the first, if they are of one project. -/
def Apart (a b : Schedule) : Prop :=
  a.projectId = b.projectId → ∀ t ∈ a.lastFired, ∀ t' ∈ b.lastFired, t + a.period.duration ≤ t'

def claimed (s : Claims) : List Schedule := s.returned.filterMap (·.claimed)

def Exclusive (s : Claims) : Prop := s.claimed.Pairwise Apart

structure Stamped (s : Claims) : Prop where
  distinct : (s.table.map (·.projectId)).Nodup
  left : ∀ i c rows, s.calls i = some c → c.left = some rows → ∀ x ∈ rows, ∀ row ∈ s.table,
    row.projectId = x.projectId → row.period = x.period
  claimed : ∀ x ∈ s.claimed, ∀ row ∈ s.table, row.projectId = x.projectId →
    row.period = x.period ∧ ∃ t t', x.lastFired = some t ∧ row.lastFired = some t' ∧ t ≤ t'
  exclusive : s.Exclusive

section Stamp

variable {s : Claims} {i : ℕ} {c : Claiming} {x row : Schedule}

theorem exists_matched (h : s.claims c x = true) :
    ∃ row ∈ s.table, row.matched x.projectId (x.cutoff c.now) = true :=
  List.countP_pos_iff.mp (by rw [of_decide_eq_true h]; exact one_pos)

theorem mem_stamp (h : row ∈ s.stamp c x) :
    row ∈ s.table ∧ row.matched x.projectId (x.cutoff c.now) = false ∨
      ∃ row' ∈ s.table, row'.matched x.projectId (x.cutoff c.now) = true ∧
        row = { row' with lastFired := some c.now } := by
  obtain ⟨row', hrow', rfl⟩ := List.mem_map.mp h
  cases hm : row'.matched x.projectId (x.cutoff c.now) with
  | true => exact .inr ⟨row', hrow', hm, by simp⟩
  | false => exact .inl ⟨by simpa using hrow', by simpa using hm⟩

/-- Every row of the project that is claimed has the new stamp. -/
theorem mem_stamp_of_claims (hdistinct : (s.table.map (·.projectId)).Nodup)
    (hclaims : s.claims c x = true) (h : row ∈ s.stamp c x) (hid : row.projectId = x.projectId) :
    ∃ row' ∈ s.table, row'.matched x.projectId (x.cutoff c.now) = true ∧
      row = { row' with lastFired := some c.now } := by
  obtain ⟨hrow, hm⟩ | hm := mem_stamp h
  · obtain ⟨row', hrow', hm'⟩ := exists_matched hclaims
    have heq := List.inj_on_of_nodup_map hdistinct hrow hrow'
      (hid.trans (of_decide_eq_true hm').1.symm)
    rw [heq, hm'] at hm
    cases hm
  · exact hm

theorem projectId_stamp : (s.stamp c x).map (·.projectId) = s.table.map (·.projectId) := by
  rw [stamp, List.map_map]
  refine List.map_congr_left fun row _ => ?_
  simp only [Function.comp]
  split <;> rfl

/-- A call of the changed table of calls is the changed one, or was there before. -/
theorem update_eq_some {calls : ℕ → Option Claiming} {y : Option Claiming} {j : ℕ} {d : Claiming}
    (h : Function.update calls i y j = some d) : y = some d ∨ calls j = some d := by
  by_cases hj : j = i
  · subst hj
    exact .inl (by simpa using h)
  · exact .inr (by simpa [hj] using h)

@[simp] theorem claimed_return_none : (s.return_ i c none).claimed = s.claimed := by
  simp [claimed, return_]

@[simp] theorem claimed_return_some : (s.return_ i c (some x)).claimed = s.claimed ++ [x] := by
  simp [claimed, return_]

theorem Stamped.goOn {rows : List Schedule} (h : s.Stamped)
    (hrows : ∀ x ∈ rows, ∀ row ∈ s.table, row.projectId = x.projectId → row.period = x.period) :
    (s.goOn i c rows).Stamped := by
  obtain ⟨-, heq⟩ | ⟨skipped, left, rfl, -, -, heq⟩ := s.goOn_cases i c rows
  · rw [heq]
    refine ⟨h.distinct, fun j d rows hd => ?_, fun y hy => h.claimed y (by simpa using hy), ?_⟩
    · obtain hd | hd := update_eq_some hd
      · cases hd
      · exact h.left j d rows hd
    · rw [Exclusive, claimed_return_none]
      exact h.exclusive
  · rw [heq]
    refine ⟨h.distinct, fun j d rows hd hleft => ?_, h.claimed, h.exclusive⟩
    obtain hd | hd := update_eq_some hd
    · cases hd
      cases hleft
      exact fun x hx => hrows x (List.mem_append_right _ hx)
    · exact h.left j d rows hd hleft

theorem mem_candidates {table : List Schedule} :
    x ∈ candidates table ↔ x ∈ table ∧ x.enabled = true := by
  rw [candidates, (List.perm_insertionSort _ _).mem_iff, List.mem_filter]

theorem Stamped.claims {rest : List Schedule} (h : s.Stamped) (hi : s.calls i = some c)
    (hleft : c.left = some (x :: rest)) (hclaims : s.claims c x = true) :
    ({ s with table := s.stamp c x }.return_ i c
      (some { x with lastFired := some c.now })).Stamped := by
  have hperiod := h.left i c _ hi hleft x List.mem_cons_self
  refine ⟨?_, fun j d rows hd hrows y hy row hrow hid => ?_, ?_, ?_⟩
  · change ((s.stamp c x).map (·.projectId)).Nodup
    rw [projectId_stamp]
    exact h.distinct
  · -- the periods are as they were
    have hd' : s.calls j = some d := (update_eq_some hd).resolve_left nofun
    obtain ⟨hrow, -⟩ | ⟨row', hrow', -, rfl⟩ := mem_stamp hrow
    · exact h.left j d rows hd' hrows y hy row hrow hid
    · exact h.left j d rows hd' hrows y hy row' hrow' hid
  · rw [claimed_return_some]
    intro y hy row hrow hid
    rcases List.mem_append.mp hy with hy | hy
    · obtain ⟨hrow, -⟩ | ⟨row', hrow', hm, rfl⟩ := mem_stamp hrow
      · exact h.claimed y hy row hrow hid
      · obtain ⟨hyperiod, t, t', ht, ht', hle⟩ := h.claimed y hy row' hrow' hid
        have hold := Schedule.stamp_of_matched hm ht'
        have hpos := x.period.duration_pos
        exact ⟨hyperiod, t, c.now, ht, rfl, by omega⟩
    · cases List.mem_singleton.mp hy
      obtain ⟨row', hrow', -, rfl⟩ := mem_stamp_of_claims h.distinct hclaims hrow hid
      exact ⟨hperiod row' hrow' hid, c.now, c.now, rfl, rfl, le_rfl⟩
  · rw [Exclusive, claimed_return_some]
    refine List.pairwise_append.mpr ⟨h.exclusive, List.pairwise_singleton _ _, fun y hy z hz => ?_⟩
    cases List.mem_singleton.mp hz
    -- the row that matched has the stamp of the last claim, which is a period old
    intro hid t ht t' ht'
    obtain ⟨row, hrow, hm⟩ := exists_matched hclaims
    have hrowid : row.projectId = x.projectId := (of_decide_eq_true hm).1
    obtain ⟨hyperiod, u, u', hu, hu', hle⟩ := h.claimed y hy row hrow (hrowid.trans hid.symm)
    have hold := Schedule.stamp_of_matched hm hu'
    rw [← hperiod row hrow hrowid, hyperiod] at hold
    cases ht.symm.trans hu
    cases ht'
    omega

theorem Stamped.step (h : s.Stamped) (e : ClaimEvent) : (s.step e).Stamped := by
  have hcomes := comes_step s e
  generalize s.step e = s' at hcomes ⊢
  cases hcomes with
  | stays => exact h
  | elapse d => exact ⟨h.distinct, h.left, h.claimed, h.exclusive⟩
  | begins i hi =>
      refine ⟨h.distinct, fun j d rows hd hleft => ?_, h.claimed, h.exclusive⟩
      obtain hd | hd := update_eq_some hd
      · cases hd
        cases hleft
      · exact h.left j d rows hd hleft
  | read i c hi hleft =>
      refine h.goOn fun x hx row hrow hid => ?_
      rw [List.inj_on_of_nodup_map h.distinct hrow (mem_candidates.mp hx).1 hid]
  | misses i c x rest hi hleft hclaims =>
      exact h.goOn fun y hy => h.left i c _ hi hleft y (List.mem_cons_of_mem x hy)
  | claims i c x rest hi hleft hclaims => exact h.claims hi hleft hclaims

end Stamp

/-! ### Progress -/

/-- A schedule that is due is claimed before as many calls have begun and returned as there
are schedules. -/
def Progresses (s : Claims) (events : List ClaimEvent) : Prop :=
  ∀ d ∈ s.table, d.enabled = true → d.due s.clock = true →
    s.table.length ≤ (s.run events).returned.countP (fun r => s.serial ≤ r.serial) →
      ∃ r ∈ (s.run events).returned.drop s.returned.length,
        r.claimed.map (·.projectId) = some d.projectId

/-- When a call begins, every call that is under way began less than a period before. -/
def Prompt (s : Claims) : ClaimEvent → Prop
  | .begins _ => ∀ i c, s.calls i = some c → ∀ row ∈ s.table, s.clock < c.now + row.period.duration
  | _ => True

structure Close (s : Claims) : Prop where
  now : ∀ i c, s.calls i = some c → c.now ≤ s.clock
  serial : ∀ i c, s.calls i = some c → c.serial < s.serial
  near : ∀ i c j d, s.calls i = some c → s.calls j = some d → ∀ row ∈ s.table,
    d.now < c.now + row.period.duration
  returned : ∀ r ∈ s.returned, r.serial < s.serial

section Frame

variable {s : Claims} {e : ClaimEvent} {i : ℕ} {c : Claiming} {row : Schedule}

theorem calls_goOn {j : ℕ} {rows : List Schedule} (hi : s.calls i = some c)
    {d : Claiming} (h : (s.goOn i c rows).calls j = some d) :
    ∃ d', s.calls j = some d' ∧ d'.now = d.now ∧ d'.serial = d.serial := by
  obtain ⟨-, heq⟩ | ⟨skipped, left, -, -, -, heq⟩ := s.goOn_cases i c rows
  · rw [heq] at h
    exact ⟨d, (update_eq_some h).resolve_left nofun, rfl, rfl⟩
  · rw [heq] at h
    by_cases hj : j = i
    · subst hj
      cases (Function.update_self j _ s.calls).symm.trans h
      exact ⟨c, hi, rfl, rfl⟩
    · exact ⟨d, (Function.update_of_ne hj _ s.calls).symm.trans h, rfl, rfl⟩

theorem returned_goOn (s : Claims) (i : ℕ) (c : Claiming) (rows : List Schedule) :
    (s.goOn i c rows).returned = s.returned ∨
      (s.goOn i c rows).returned = s.returned ++ [⟨c.serial, none⟩] := by
  obtain ⟨-, heq⟩ | ⟨skipped, left, -, -, -, heq⟩ := s.goOn_cases i c rows
  · exact .inr (by rw [heq]; rfl)
  · exact .inl (by rw [heq])

theorem frame_goOn (s : Claims) (i : ℕ) (c : Claiming) (rows : List Schedule) :
    (s.goOn i c rows).table = s.table ∧ (s.goOn i c rows).clock = s.clock ∧
      (s.goOn i c rows).serial = s.serial := by
  rw [goOn]
  split <;> exact ⟨rfl, rfl, rfl⟩

theorem Close.goOn {rows : List Schedule} (h : s.Close) (hi : s.calls i = some c) :
    (s.goOn i c rows).Close := by
  obtain ⟨htable, hclock, hserial⟩ := frame_goOn s i c rows
  refine ⟨fun j d hd => ?_, fun j d hd => ?_, fun j d j' d' hd hd' => ?_, fun r hr => ?_⟩
  · obtain ⟨d₀, hd₀, hnow, -⟩ := calls_goOn hi hd
    rw [hclock, ← hnow]
    exact h.now j d₀ hd₀
  · obtain ⟨d₀, hd₀, -, hser⟩ := calls_goOn hi hd
    rw [hserial, ← hser]
    exact h.serial j d₀ hd₀
  · obtain ⟨d₀, hd₀, hnow, -⟩ := calls_goOn hi hd
    obtain ⟨d₁, hd₁, hnow', -⟩ := calls_goOn hi hd'
    rw [htable, ← hnow, ← hnow']
    exact h.near j d₀ j' d₁ hd₀ hd₁
  · rw [hserial]
    obtain hreturned | hreturned := returned_goOn s i c rows
    · exact h.returned r (hreturned ▸ hr)
    · rw [hreturned] at hr
      rcases List.mem_append.mp hr with hr | hr
      · exact h.returned r hr
      · cases List.mem_singleton.mp hr
        exact h.serial i c hi

theorem Close.step (h : s.Close) (hprompt : s.Prompt e) : (s.step e).Close := by
  have hcomes := comes_step s e
  generalize s.step e = s' at hcomes ⊢
  cases hcomes with
  | stays => exact h
  | elapse d =>
      refine ⟨fun j d hd => ?_, h.serial, h.near, h.returned⟩
      have hnow := h.now j d hd
      exact hnow.trans (le_add_of_nonneg_right (Int.natCast_nonneg _))
  | begins i hi =>
      refine ⟨fun j d hd => ?_, fun j d hd => ?_, fun j d j' d' hd hd' row hrow => ?_,
        fun r hr => ?_⟩
      · obtain hd | hd := update_eq_some hd
        · cases hd
          exact le_rfl
        · exact h.now j d hd
      · obtain hd | hd := update_eq_some hd
        · cases hd
          exact Nat.lt_succ_self _
        · exact (h.serial j d hd).trans (Nat.lt_succ_self _)
      · have hpos := row.period.duration_pos
        obtain hd | hd := update_eq_some hd
        · obtain hd' | hd' := update_eq_some hd'
          · cases hd
            cases hd'
            exact lt_add_of_pos_right _ hpos
          · cases hd
            exact lt_add_of_le_of_pos (h.now j' d' hd') hpos
        · obtain hd' | hd' := update_eq_some hd'
          · cases hd'
            exact hprompt j d hd row hrow
          · exact h.near j d j' d' hd hd' row hrow
      · exact (h.returned r hr).trans (Nat.lt_succ_self _)
  | read i c hi hleft => exact h.goOn hi
  | misses i c x rest hi hleft hclaims => exact h.goOn hi
  | claims i c x rest hi hleft hclaims =>
      have hcalls : ∀ j d, Function.update s.calls i none j = some d → s.calls j = some d :=
        fun j d hd => (update_eq_some hd).resolve_left nofun
      refine ⟨fun j d hd => h.now j d (hcalls j d hd), fun j d hd => h.serial j d (hcalls j d hd),
        fun j d j' d' hd hd' row hrow => ?_, fun r hr => ?_⟩
      · obtain ⟨hrow, -⟩ | ⟨row', hrow', -, rfl⟩ := mem_stamp hrow
        · exact h.near j d j' d' (hcalls j d hd) (hcalls j' d' hd') row hrow
        · exact h.near j d j' d' (hcalls j d hd) (hcalls j' d' hd') row' hrow'
      · rcases List.mem_append.mp hr with hr | hr
        · exact h.returned r hr
        · cases List.mem_singleton.mp hr
          exact h.serial i c hi

end Frame

/-- The projects that were claimed by the calls from the `k`-th on. -/
def taken (s : Claims) (k : ℕ) : List (Option ℤ) :=
  (s.returned.filter fun r => k ≤ r.serial).map fun r => r.claimed.map (·.projectId)

/-- A row that an update of a call at `now` misses, as its stamp is not a period old. -/
def Recent (table : List Schedule) (now projectId : ℤ) : Prop :=
  ∀ row ∈ table, row.projectId = projectId →
    ∃ t, row.lastFired = some t ∧ now < t + row.period.duration

/-- A schedule that has been due since an instant, and has not been claimed by the calls that
began since. Each of these that has returned has claimed another schedule, and no two of them
the same. A call that is under way comes to the schedule, and before it to none that has been
claimed by them, unless it misses it. -/
structure Waiting (d : Schedule) (since : ℤ) (k : ℕ) (s : Claims) : Prop where
  there : d ∈ s.table
  clock : since ≤ s.clock
  later : ∀ i c, s.calls i = some c → k ≤ c.serial → since ≤ c.now
  ahead : ∀ i c rows, s.calls i = some c → k ≤ c.serial → c.left = some rows →
    ∃ ahead behind, rows = ahead ++ d :: behind ∧
      ∀ q ∈ ahead, some q.projectId ∈ s.taken k → Recent s.table c.now q.projectId
  taken : ∀ o ∈ s.taken k, ∃ projectId, o = some projectId ∧ projectId ≠ d.projectId ∧
    projectId ∈ s.table.map (·.projectId) ∧
    ∀ row ∈ s.table, row.projectId = projectId → ∃ t, row.lastFired = some t ∧ since ≤ t
  distinct : (s.taken k).Nodup

section Waiting

variable {s : Claims} {e : ClaimEvent} {i k : ℕ} {c : Claiming} {d x : Schedule} {since : ℤ}

theorem taken_return (claimed : Option Schedule) :
    (s.return_ i c claimed).taken k =
      s.taken k ++ if k ≤ c.serial then [claimed.map (·.projectId)] else [] := by
  simp only [taken, return_, List.filter_append, List.map_append]
  by_cases hk : k ≤ c.serial
  · simp [hk]
  · simp [hk]

/-- A candidate that is due is come to, whatever is skipped before it. -/
theorem goOn_of_due (s : Claims) (i : ℕ) (ahead behind : List Schedule)
    (hdue : d.due c.now = true) :
    ∃ skipped ahead', ahead = skipped ++ ahead' ∧
      s.goOn i c (ahead ++ d :: behind) =
        { s with
          calls := Function.update s.calls i
            (some { c with left := some (ahead' ++ d :: behind) }) } := by
  obtain ⟨hnone, -⟩ | ⟨skipped, left, hrows, -, hskipped, heq⟩ :=
    s.goOn_cases i c (ahead ++ d :: behind)
  · have hd := hnone d (List.mem_append_right _ List.mem_cons_self)
    rw [hdue] at hd
    cases hd
  · have hnot : d ∉ skipped := fun hmem => by
      have hd := hskipped d hmem
      rw [hdue] at hd
      cases hd
    rcases List.append_eq_append_iff.mp hrows with ⟨mid, hmid, hcons⟩ | ⟨mid, hmid, hleft⟩
    · -- nothing but what comes before it is skipped
      cases mid with
      | nil =>
          rw [List.append_nil] at hmid
          refine ⟨skipped, [], by rw [hmid, List.append_nil], ?_⟩
          rw [heq, List.nil_append]
          rw [List.nil_append] at hcons
          rw [hcons]
      | cons y mid =>
          cases (List.cons.inj hcons).1
          exact absurd (hmid ▸ List.mem_append_right _ List.mem_cons_self) hnot
    · exact ⟨skipped, mid, hmid, by rw [heq, hleft]⟩

theorem due_of_le {t t' : ℤ} (h : d.due t = true) (hle : t ≤ t') : d.due t' = true := by
  cases hd : d.lastFired with
  | none => simp [Schedule.due, hd]
  | some u =>
      simp only [Schedule.due, hd, decide_eq_true_eq, not_lt] at h ⊢
      exact h.trans hle

theorem Waiting.goOn {ahead behind : List Schedule} (h : Waiting d since k s)
    (hdue : d.due since = true) (hi : s.calls i = some c) (hk : k ≤ c.serial)
    (hahead : ∀ q ∈ ahead, some q.projectId ∈ s.taken k → Recent s.table c.now q.projectId) :
    Waiting d since k (s.goOn i c (ahead ++ d :: behind)) := by
  obtain ⟨skipped, ahead', rfl, heq⟩ :=
    goOn_of_due s i ahead behind (due_of_le hdue (h.later i c hi hk))
  rw [heq]
  refine ⟨h.there, h.clock, fun j b hb hkb => ?_, fun j b rows hb hkb hleft => ?_, h.taken,
    h.distinct⟩
  · obtain hb | hb := update_eq_some hb
    · cases hb
      exact h.later i c hi hk
    · exact h.later j b hb hkb
  · obtain hb | hb := update_eq_some hb
    · cases hb
      cases hleft
      exact ⟨ahead', behind, rfl, fun q hq => hahead q (List.mem_append_right _ hq)⟩
    · exact h.ahead j b rows hb hkb hleft

theorem Waiting.goOn_of_lt {rows : List Schedule} (h : Waiting d since k s) (hk : c.serial < k) :
    Waiting d since k (s.goOn i c rows) := by
  have hnot : ¬k ≤ c.serial := hk.not_ge
  obtain ⟨-, heq⟩ | ⟨skipped, left, -, -, -, heq⟩ := s.goOn_cases i c rows
  · have htaken : (s.return_ i c none).taken k = s.taken k := by
      rw [taken_return, if_neg hnot, List.append_nil]
    have hcalls : ∀ j b, Function.update s.calls i none j = some b → s.calls j = some b :=
      fun j b hb => (update_eq_some hb).resolve_left nofun
    rw [heq]
    exact
      { there := h.there
        clock := h.clock
        later := fun j b hb => h.later j b (hcalls j b hb)
        ahead := fun j b rows hb => htaken ▸ h.ahead j b rows (hcalls j b hb)
        taken := htaken ▸ h.taken
        distinct := htaken ▸ h.distinct }
  · rw [heq]
    refine ⟨h.there, h.clock, fun j b hb hkb => ?_, fun j b rows hb hkb hleft => ?_, h.taken,
      h.distinct⟩
    · obtain hb | hb := update_eq_some hb
      · cases hb
        exact absurd hkb hnot
      · exact h.later j b hb hkb
    · obtain hb | hb := update_eq_some hb
      · cases hb
        exact absurd hkb hnot
      · exact h.ahead j b rows hb hkb hleft

/-- Where the schedule stands among those that a call reads: what comes before it has not been
claimed since. -/
theorem Waiting.read (h : Waiting d since k s) (hdue : d.due since = true)
    (henabled : d.enabled = true) :
    ∃ ahead behind, candidates s.table = ahead ++ d :: behind ∧
      ∀ q ∈ ahead, some q.projectId ∉ s.taken k := by
  obtain ⟨ahead, behind, hsplit⟩ := List.append_of_mem (mem_candidates.mpr ⟨h.there, henabled⟩)
  refine ⟨ahead, behind, hsplit, fun q hq htaken => ?_⟩
  have hsorted : (candidates s.table).Pairwise fun a b => a.sortKey ≤ b.sortKey :=
    List.pairwise_insertionSort _ _
  rw [hsplit] at hsorted
  have hle : q.sortKey ≤ d.sortKey :=
    (List.pairwise_append.mp hsorted).2.2 q hq d List.mem_cons_self
  have hqmem : q ∈ s.table :=
    (mem_candidates.mp (hsplit ▸ List.mem_append_left _ hq)).1
  obtain ⟨_, ⟨⟩, -, -, hstamp⟩ := h.taken _ htaken
  obtain ⟨t, ht, hsince⟩ := hstamp q hqmem rfl
  obtain ⟨u, hu, hle'⟩ := Schedule.stamp_le_of_sortKey_le hle ht
  simp only [Schedule.due, hu, decide_eq_true_eq, not_lt] at hdue
  have hpos := d.period.duration_pos
  omega

theorem Waiting.claims_self (h : Waiting d since k s) (hstamped : s.Stamped)
    (hdue : d.due c.now = true) (henabled : d.enabled = true) : s.claims c d = true := by
  have hmatched : d.matched d.projectId (d.cutoff c.now) = true := by
    refine decide_eq_true ⟨rfl, henabled, ?_⟩
    cases hd : d.lastFired with
    | none => rfl
    | some t =>
        simp only [Schedule.due, hd, decide_eq_true_eq, not_lt] at hdue
        simp only [Schedule.oldEnough, Schedule.cutoff, hd, Option.map_some, decide_eq_true_eq]
        omega
  have hone : s.table.countP (Schedule.matched d.projectId (d.cutoff c.now)) ≤ 1 := by
    refine le_trans ?_ (List.nodup_iff_count_le_one.mp hstamped.distinct d.projectId)
    rw [List.count, List.countP_map]
    exact List.countP_mono_left fun row _ hm => by simpa using (of_decide_eq_true hm).1
  exact decide_eq_true (le_antisymm hone (List.countP_pos_iff.mpr ⟨d, h.there, hmatched⟩))

theorem Waiting.claims {rest : List Schedule} (h : Waiting d since k s) (hstamped : s.Stamped)
    (hclose : s.Close) (hi : s.calls i = some c) (hleft : c.left = some (x :: rest))
    (hclaims : s.claims c x = true) (hother : x.projectId ≠ d.projectId) :
    Waiting d since k
      ({ s with table := s.stamp c x }.return_ i c (some { x with lastFired := some c.now })) := by
  have hcalls : ∀ j b, Function.update s.calls i none j = some b → s.calls j = some b :=
    fun j b hb => (update_eq_some hb).resolve_left nofun
  have htaken : ({ s with table := s.stamp c x }.return_ i c
      (some { x with lastFired := some c.now })).taken k =
        s.taken k ++ if k ≤ c.serial then [some x.projectId] else [] := taken_return _
  -- a call that began since has not come to a project that was claimed since
  have hmiss : k ≤ c.serial → some x.projectId ∉ s.taken k := by
    intro hk hmem
    obtain ⟨ahead, behind, hrows, hahead⟩ := h.ahead i c _ hi hk hleft
    cases ahead with
    | nil => exact hother (congrArg Schedule.projectId (List.cons.inj hrows).1)
    | cons y ahead =>
        cases (List.cons.inj hrows).1
        obtain ⟨row, hrow, hm⟩ := exists_matched hclaims
        have hid : row.projectId = x.projectId := (of_decide_eq_true hm).1
        obtain ⟨t, ht, hlt⟩ := hahead x List.mem_cons_self hmem row hrow hid
        have hold := Schedule.stamp_of_matched hm ht
        rw [hstamped.left i c _ hi hleft x List.mem_cons_self row hrow hid] at hlt
        omega
  refine ⟨?_, h.clock, fun j b hb => h.later j b (hcalls j b hb),
    fun j b rows hb hkb hleftb => ?_, fun o ho => ?_, ?_⟩
  · refine List.mem_map.mpr ⟨d, h.there, if_neg fun hm => ?_⟩
    exact hother (of_decide_eq_true hm).1.symm
  · obtain ⟨ahead, behind, rfl, hahead⟩ := h.ahead j b rows (hcalls j b hb) hkb hleftb
    refine ⟨ahead, behind, rfl, fun q hq hmem row hrow hid => ?_⟩
    by_cases hx : row.projectId = x.projectId
    · -- the new stamp is that of a call that is under way at the same time
      obtain ⟨row', hrow', -, rfl⟩ := mem_stamp_of_claims hstamped.distinct hclaims hrow hx
      exact ⟨c.now, rfl, hclose.near i c j b hi (hcalls j b hb) row' hrow'⟩
    · obtain ⟨hrow, -⟩ | ⟨row', -, hm, rfl⟩ := mem_stamp hrow
      · refine hahead q hq ?_ row hrow hid
        rw [htaken] at hmem
        rcases List.mem_append.mp hmem with hmem | hmem
        · exact hmem
        · split at hmem
          · exact absurd (hid.trans (Option.some.inj (List.mem_singleton.mp hmem))) hx
          · cases hmem
      · exact absurd (of_decide_eq_true hm).1 hx
  · rw [htaken] at ho
    rcases List.mem_append.mp ho with ho | ho
    · obtain ⟨projectId, rfl, hne, hmem, hstamp⟩ := h.taken o ho
      refine ⟨projectId, rfl, hne, projectId_stamp.symm ▸ hmem, fun row hrow hid => ?_⟩
      obtain ⟨hrow, -⟩ | ⟨row', hrow', hm, rfl⟩ := mem_stamp hrow
      · exact hstamp row hrow hid
      · obtain ⟨t, ht, hsince⟩ := hstamp row' hrow' hid
        have hold := Schedule.stamp_of_matched hm ht
        have hpos := x.period.duration_pos
        exact ⟨c.now, rfl, by omega⟩
    · split at ho
      · next hk =>
        cases List.mem_singleton.mp ho
        obtain ⟨row, hrow, hm⟩ := exists_matched hclaims
        refine ⟨x.projectId, rfl, hother, ?_, fun row hrow hid => ?_⟩
        · refine projectId_stamp.symm ▸ List.mem_map.mpr ⟨row, hrow, (of_decide_eq_true hm).1⟩
        · obtain ⟨row', -, -, rfl⟩ := mem_stamp_of_claims hstamped.distinct hclaims hrow hid
          exact ⟨c.now, rfl, h.later i c hi hk⟩
      · cases ho
  · rw [htaken]
    split
    · next hk =>
      exact h.distinct.append (List.nodup_singleton _) (List.disjoint_singleton.mpr (hmiss hk))
    · rw [List.append_nil]
      exact h.distinct

theorem Waiting.step (h : Waiting d since k s) (hstamped : s.Stamped) (hclose : s.Close)
    (hdue : d.due since = true) (henabled : d.enabled = true) :
    Waiting d since k (s.step e) ∨
      ∃ r, (s.step e).returned = s.returned ++ [r] ∧
        r.claimed.map (·.projectId) = some d.projectId := by
  have hcomes := comes_step s e
  generalize s.step e = s' at hcomes ⊢
  cases hcomes with
  | stays => exact .inl h
  | elapse n =>
      have hclock := h.clock
      exact .inl ⟨h.there, hclock.trans (le_add_of_nonneg_right (Int.natCast_nonneg _)), h.later,
        h.ahead, h.taken, h.distinct⟩
  | begins i hi =>
      refine .inl ⟨h.there, h.clock, fun j b hb hkb => ?_, fun j b rows hb hkb hleft => ?_, h.taken,
        h.distinct⟩
      · obtain hb | hb := update_eq_some hb
        · cases hb
          exact h.clock
        · exact h.later j b hb hkb
      · obtain hb | hb := update_eq_some hb
        · cases hb
          cases hleft
        · exact h.ahead j b rows hb hkb hleft
  | read i c hi hleft =>
      by_cases hkc : k ≤ c.serial
      · obtain ⟨ahead, behind, hsplit, hahead⟩ := h.read hdue henabled
        rw [hsplit]
        exact .inl (h.goOn hdue hi hkc fun q hq hmem => absurd hmem (hahead q hq))
      · exact .inl (h.goOn_of_lt (not_le.mp hkc))
  | misses i c x rest hi hleft hclaims =>
      by_cases hkc : k ≤ c.serial
      · obtain ⟨ahead, behind, hrows, hahead⟩ := h.ahead i c _ hi hkc hleft
        cases ahead with
        | nil =>
            -- it comes to the schedule itself, and does not miss it
            cases (List.cons.inj hrows).1
            have hself := h.claims_self hstamped (due_of_le hdue (h.later i c hi hkc)) henabled
            rw [hclaims] at hself
            cases hself
        | cons y ahead =>
            obtain ⟨rfl, rfl⟩ := List.cons.inj hrows
            exact .inl (h.goOn hdue hi hkc fun q hq => hahead q (List.mem_cons_of_mem _ hq))
      · exact .inl (h.goOn_of_lt (not_le.mp hkc))
  | claims i c x rest hi hleft hclaims =>
      by_cases hother : x.projectId = d.projectId
      · exact .inr ⟨_, rfl, congrArg some hother⟩
      · exact .inl (h.claims hstamped hclose hi hleft hclaims hother)

/-- While a schedule waits, fewer calls have returned than there are schedules. -/
theorem Waiting.countP_lt (h : Waiting d since k s) :
    s.returned.countP (fun r => k ≤ r.serial) < s.table.length := by
  have hlength : s.returned.countP (fun r => k ≤ r.serial) = (s.taken k).length := by
    rw [Claims.taken, List.length_map, List.countP_eq_length_filter]
  have hmem : d.projectId ∈ s.table.map (·.projectId) := List.mem_map_of_mem h.there
  have hsub : s.taken k ⊆ ((s.table.map (·.projectId)).erase d.projectId).map some := by
    intro o ho
    obtain ⟨projectId, rfl, hne, hin, -⟩ := h.taken o ho
    exact List.mem_map_of_mem ((List.mem_erase_of_ne hne).mpr hin)
  have hle := (List.subperm_of_subset h.distinct hsub).length_le
  rw [List.length_map, List.length_erase_of_mem hmem, List.length_map] at hle
  have hpos := List.length_pos_of_mem h.there
  omega

end Waiting

section Run

variable {s base : Claims} {e : ClaimEvent} {d : Schedule}

theorem length_table_step (s : Claims) (e : ClaimEvent) :
    (s.step e).table.length = s.table.length := by
  have hcomes := comes_step s e
  generalize s.step e = s' at hcomes ⊢
  cases hcomes with
  | stays => rfl
  | elapse d => rfl
  | begins i hi => rfl
  | read i c hi hleft => rw [(frame_goOn s i c _).1]
  | misses i c x rest hi hleft hclaims => rw [(frame_goOn s i c _).1]
  | claims i c x rest hi hleft hclaims => exact List.length_map _

theorem prefix_returned_step (s : Claims) (e : ClaimEvent) :
    s.returned <+: (s.step e).returned := by
  have hcomes := comes_step s e
  generalize s.step e = s' at hcomes ⊢
  have hgoOn : ∀ i c rows, s.returned <+: (s.goOn i c rows).returned := by
    intro i c rows
    obtain heq | heq := returned_goOn s i c rows
    · rw [heq]
    · rw [heq]
      exact List.prefix_append _ _
  cases hcomes with
  | stays => exact List.prefix_rfl
  | elapse d => exact List.prefix_rfl
  | begins i hi => exact List.prefix_rfl
  | read i c hi hleft => exact hgoOn i c _
  | misses i c x rest hi hleft hclaims => exact hgoOn i c _
  | claims i c x rest hi hleft hclaims => exact List.prefix_append _ _

structure Followed (base : Claims) (d : Schedule) (s : Claims) : Prop where
  stamped : s.Stamped
  close : s.Close
  size : s.table.length = base.table.length
  kept : base.returned <+: s.returned
  waits : Waiting d base.clock base.serial s ∨
    ∃ r ∈ s.returned.drop base.returned.length, r.claimed.map (·.projectId) = some d.projectId

theorem Followed.step (h : Followed base d s) (hprompt : s.Prompt e)
    (hdue : d.due base.clock = true) (henabled : d.enabled = true) :
    Followed base d (s.step e) := by
  refine ⟨h.stamped.step e, h.close.step hprompt, (length_table_step s e).trans h.size,
    h.kept.trans (prefix_returned_step s e), ?_⟩
  obtain hwaits | ⟨r, hr, hclaimed⟩ := h.waits
  · obtain hwaits | ⟨r, hreturned, hclaimed⟩ :=
      hwaits.step (e := e) h.stamped h.close hdue henabled
    · exact .inl hwaits
    · refine .inr ⟨r, ?_, hclaimed⟩
      rw [hreturned, List.drop_append_of_le_length h.kept.length_le]
      exact List.mem_append_right _ (List.mem_singleton_self r)
  · refine .inr ⟨r, ?_, hclaimed⟩
    obtain ⟨more, hmore⟩ := prefix_returned_step s e
    rw [← hmore, List.drop_append_of_le_length h.kept.length_le]
    exact List.mem_append_left _ hr

theorem followed_self (hstamped : s.Stamped) (hclose : s.Close) (hd : d ∈ s.table) :
    Followed s d s := by
  have htaken : s.taken s.serial = [] := by
    rw [taken, List.map_eq_nil_iff, List.filter_eq_nil_iff]
    exact fun r hr => by simpa using hclose.returned r hr
  refine ⟨hstamped, hclose, rfl, List.prefix_rfl, .inl ⟨hd, le_rfl, fun i c hi hk => ?_,
    fun i c rows hi hk => ?_, ?_, ?_⟩⟩
  · exact absurd hk (hclose.serial i c hi).not_ge
  · exact absurd hk (hclose.serial i c hi).not_ge
  · rw [htaken]
    exact nofun
  · rw [htaken]
    exact List.nodup_nil

/-- From a state in which the calls are close, calls that are prompt make progress. -/
theorem progresses_of_close (hstamped : s.Stamped) (hclose : s.Close) {events : List ClaimEvent}
    (hprompt : Walk.Along step Prompt s events) : s.Progresses events := by
  intro d hd henabled hdue hcount
  have hfollowed : Followed s d (s.run events) :=
    Walk.run_induction (fun _ _ h hok => h.step hok hdue henabled)
      (followed_self hstamped hclose hd) hprompt
  obtain hwaits | hclaimed := hfollowed.waits
  · have hlt := hwaits.countP_lt
    rw [hfollowed.size] at hlt
    exact absurd hcount hlt.not_ge
  · exact hclaimed

theorem stamped_new {clock : ℤ} {table : List Schedule}
    (hdistinct : (table.map (·.projectId)).Nodup) : (new clock table).Stamped :=
  ⟨hdistinct, nofun, nofun, List.Pairwise.nil⟩

theorem close_new {clock : ℤ} {table : List Schedule} : (new clock table).Close :=
  ⟨nofun, nofun, nofun, nofun⟩

/-- Claims are exclusive in every run, however long the calls are under way. -/
theorem exclusive_run (clock : ℤ) (table : List Schedule)
    (hdistinct : (table.map (·.projectId)).Nodup) (events : List ClaimEvent) :
    ((new clock table).run events).Exclusive := by
  have h : ((new clock table).run events).Stamped :=
    List.foldlRecOn events _ (stamped_new hdistinct) fun _ hs e _ => hs.step e
  exact h.exclusive

/-- Claims are exclusive, and make progress at every point of a run in which no call is under way
for a period when another one begins. -/
theorem exclusive_and_progresses (clock : ℤ) (table : List Schedule)
    (hdistinct : (table.map (·.projectId)).Nodup) (events : List ClaimEvent)
    (hprompt : Walk.Along step Prompt (new clock table) events) :
    ((new clock table).run events).Exclusive ∧
      ∀ before after, events = before ++ after →
        ((new clock table).run before).Progresses after := by
  have hstep : ∀ (s : Claims) (e : ClaimEvent), s.Stamped ∧ s.Close → s.Prompt e →
      (s.step e).Stamped ∧ (s.step e).Close := fun s e h hok => ⟨h.1.step e, h.2.step hok⟩
  have hrun : ∀ events, Walk.Along step Prompt (new clock table) events →
      ((new clock table).run events).Stamped ∧ ((new clock table).run events).Close :=
    fun events hprompt =>
      Walk.run_induction hstep ⟨stamped_new hdistinct, close_new⟩ hprompt
  refine ⟨(hrun events hprompt).1.exclusive, ?_⟩
  rintro before after rfl
  obtain ⟨hbefore, hafter⟩ := Walk.Along.append.mp hprompt
  obtain ⟨hstamped, hclose⟩ := hrun before hbefore
  exact progresses_of_close hstamped hclose hafter

end Run

def dailyAndWeekly : List Schedule :=
  [{ projectId := 1, period := .daily, enabled := true, lastFired := some 0 },
   { projectId := 2, period := .weekly, enabled := true, lastFired := some 0 }]

def day : ℕ := 24 * 3600 * 10 ^ 9

def inTurn : List ClaimEvent :=
  [.elapse (7 * day), .begins 0, .read 0, .update 0, .begins 0, .read 0, .update 0]

theorem prompt_inTurn : Walk.Along step Prompt (new 0 dailyAndWeekly) inTurn := by
  have hnone : ∀ s : Claims, (∀ i, s.calls i = none) → ∀ i, s.Prompt (.begins i) :=
    fun s h i j c hj => by
      rw [h] at hj
      cases hj
  refine ⟨trivial, hnone _ (fun _ => rfl) 0, trivial, trivial, hnone _ (fun i => ?_) 0, trivial,
    trivial, trivial⟩
  cases i <;> rfl

/-- The second call claims the weekly schedule. -/
theorem exclusive_and_progresses_inTurn :
    ((new 0 dailyAndWeekly).run inTurn).Exclusive ∧
      ((new 0 dailyAndWeekly).run [.elapse (7 * day)]).Progresses (inTurn.drop 1) := by
  obtain ⟨hexclusive, hprogresses⟩ :=
    exclusive_and_progresses 0 dailyAndWeekly (by decide) inTurn prompt_inTurn
  exact ⟨hexclusive, hprogresses _ _ rfl⟩

def overlapping : List ClaimEvent :=
  [.begins 0, .elapse day, .begins 1, .read 0, .read 1, .update 0, .update 1]

theorem exclusive_run_overlapping : ((new 0 dailyAndWeekly).run overlapping).Exclusive :=
  exclusive_run 0 dailyAndWeekly (by decide) overlapping

/-- Both claim the daily schedule, the second one a day after the first, and the weekly one, which
has been due all the time, is not claimed by either. -/
theorem not_progresses_overlapping :
    ¬((new 0 dailyAndWeekly).run [.elapse (7 * day)]).Progresses overlapping := by
  intro h
  have hclaimed := h { projectId := 2, period := .weekly, enabled := true, lastFired := some 0 }
    (by decide +kernel) rfl (by decide +kernel) (by decide +kernel)
  revert hclaimed
  decide +kernel

end Claims

end Honryu.Digests
