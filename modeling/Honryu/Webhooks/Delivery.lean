import Honryu.Lib.Walk
import Honryu.Lib.WorkQueue
import Honryu.Webhooks.Event

/-!
A finished run is announced to the webhooks of its project, by workers behind a bounded queue.

Any number of calls of `RunCompleted` offer their deliveries at the same time. Whatever the receivers
answer, and in whichever order the calls and the workers go on, a delivery that was announced is
still to be offered, waits, is under way, or has ended in one of three ways.
-/

namespace Honryu.Webhooks

open Function
open Report (Report)
open WorkQueue.State (sum_update contents_offer contents_take contents_attempt kept_empty)

structure Webhook where
  id : ℤ
  projectId : ℤ
  url : String
  enabled : Bool
  deriving DecidableEq

structure Delivery (Body : Type) where
  hook : Webhook
  body : Body
  deriving DecidableEq

def deliverAttempts : ℕ := 3

def workerCount : ℕ := 4

/-- How a POST ends. -/
inductive Reply
  | failed (error : String)
  | status (code : ℤ)
  deriving DecidableEq

/-- The capacity of the queue, the names of the status codes, and how an event is written. -/
structure Config (Body : Type) where
  capacity : ℕ := 64
  statusText : ℤ → String
  marshal : RunCompletedEvent → Option Body

variable {Body : Type} {k : ℕ} (cfg : Config Body)

/-- The error of one attempt, if it has one. -/
def Config.attempt : Reply → Option String
  | .failed error => some error
  | .status code =>
      if code < 200 ∨ code > 299 then some ("receiver answered " ++ cfg.statusText code) else none

/-- What `RunCompleted` offers, once it has read the registry and the criteria. -/
def Config.deliveries (rep : Report) (hooks : Except String (List Webhook))
    (crits : Except String (List String)) : List (Delivery Body) :=
  match hooks with
  | .error _ => []
  | .ok hooks => (hooks.filter (·.enabled)).filterMap fun w =>
      (cfg.marshal (buildBody w.projectId rep (crits.toOption.getD []))).map (⟨w, ·⟩)

/-! ### The service -/

/-- The workers, and what each of the calls has yet to offer. -/
structure Service (Body : Type) (k : ℕ) where
  calls : Fin k → List (Delivery Body)
  started : Bool
  pool : WorkQueue.State (Delivery Body) String workerCount
  /-- Whatever the calls have set out to deliver. -/
  announced : List (Delivery Body)

inductive Event (k : ℕ)
  | runCompleted (i : Fin k) (rep : Report) (hooks : Except String (List Webhook))
      (crits : Except String (List String))
  | offer (i : Fin k)
  | take (w : Fin workerCount)
  | post (w : Fin workerCount) (reply : Reply)

namespace Service

def new : Service Body k := ⟨fun _ => [], false, WorkQueue.empty, []⟩

def step (s : Service Body k) : Event k → Service Body k
  | .runCompleted i rep hooks crits =>
      match s.calls i with
      | [] =>
          let offers := cfg.deliveries rep hooks crits
          -- the workers are started by the first call that has someone to tell
          { s with
            calls := update s.calls i offers
            started := s.started || (hooks.toOption.getD []).any (·.enabled)
            announced := s.announced ++ offers }
      | _ :: _ => s
  | .offer i =>
      match s.calls i with
      | [] => s
      | d :: rest =>
          { s with calls := update s.calls i rest, pool := s.pool.offer cfg.capacity d }
  | .take w => if s.started then { s with pool := s.pool.take w } else s
  | .post w reply => { s with pool := s.pool.attempt deliverAttempts w (cfg.attempt reply) }

abbrev run (events : List (Event k)) : Service Body k := Walk.run (step cfg) new events

def pending (s : Service Body k) : Multiset (Delivery Body) := ∑ i, (s.calls i : Multiset _)

/-- What is known of the deliveries at any time. -/
structure Accounted (s : Service Body k) : Prop where
  /-- Each is in one place, as often as it was announced. -/
  contents : (s.announced : Multiset (Delivery Body)) = s.pending + s.pool.contents
  kept : s.pool.Kept cfg.capacity deliverAttempts
  enabled : ∀ d ∈ s.announced, d.hook.enabled = true

variable {cfg} {s : Service Body k}

theorem enabled_deliveries {rep : Report} {hooks : Except String (List Webhook)}
    {crits : Except String (List String)} {d : Delivery Body}
    (h : d ∈ cfg.deliveries rep hooks crits) : d.hook.enabled = true := by
  cases hooks with
  | error => cases h
  | ok hooks =>
      obtain ⟨w, hw, hd⟩ := List.mem_filterMap.mp h
      obtain ⟨body, -, rfl⟩ := Option.map_eq_some_iff.mp hd
      exact (List.mem_filter.mp hw).2

theorem pending_update (s : Service Body k) (i : Fin k) (offers : List (Delivery Body)) :
    ∑ j, (update s.calls i offers j : Multiset (Delivery Body)) + (s.calls i : Multiset _) =
      s.pending + (offers : Multiset _) :=
  sum_update Multiset.ofList s.calls i offers

theorem accounted_new : Accounted cfg (new : Service Body k) := by
  refine ⟨?_, kept_empty _ _, by simp [new]⟩
  simp [new, pending, WorkQueue.State.contents, WorkQueue.empty]

theorem Accounted.step (h : Accounted cfg s) (e : Event k) : Accounted cfg (s.step cfg e) := by
  have hcontents := h.contents
  cases e with
  | runCompleted i rep hooks crits =>
      simp only [Service.step]
      split
      · next hi =>
          have hpending := pending_update s i (cfg.deliveries rep hooks crits)
          rw [hi, Multiset.coe_nil, add_zero] at hpending
          refine ⟨?_, h.kept, fun d hd => ?_⟩
          · simp only [pending, hpending, ← Multiset.coe_add, hcontents]
            abel
          · rcases List.mem_append.mp hd with hd | hd
            · exact h.enabled d hd
            · exact enabled_deliveries hd
      · exact h
  | offer i =>
      simp only [Service.step]
      split
      · exact h
      · next d rest hi =>
          have hpending := pending_update s i rest
          rw [hi, ← Multiset.cons_coe, ← Multiset.singleton_add, ← add_assoc] at hpending
          refine ⟨?_, h.kept.offer d, h.enabled⟩
          rw [hcontents, contents_offer, ← add_right_cancel hpending, pending]
          abel
  | take w =>
      simp only [Service.step]
      split
      · rw [← contents_take s.pool w] at hcontents
        exact ⟨hcontents, h.kept.take (by decide) w, h.enabled⟩
      · exact h
  | post w reply =>
      rw [← contents_attempt deliverAttempts s.pool w (cfg.attempt reply)] at hcontents
      exact ⟨hcontents, h.kept.attempt w _, h.enabled⟩

/-- Nothing that was announced is lost or delivered twice, in any run. Unless more was announced than
the queue can hold, nothing is dropped. -/
theorem accounted_run (cfg : Config Body) (events : List (Event k)) :
    Accounted cfg (run cfg events : Service Body k) ∧
      ((run cfg events : Service Body k).announced.length ≤ cfg.capacity →
        (run cfg events : Service Body k).pool.dropped = []) := by
  have h : Accounted cfg (run cfg events : Service Body k) :=
    List.foldlRecOn events _ accounted_new fun _ hs e _ => hs.step e
  refine ⟨h, fun hroom => ?_⟩
  by_contra hdropped
  have hmore := h.kept.dropped hdropped
  have hcard := congrArg Multiset.card h.contents
  rw [Multiset.coe_card, Multiset.card_add] at hcard
  omega

end Service

/-! ### One delivery -/

/-- What an attempt meets. The context may be cancelled before it, or while it waits for the next. -/
structure Try where
  before : Option String
  reply : Reply
  after : Option String

/-- Logs do not show what may be a token. -/
def redact (raw : String) : String :=
  .ofList (raw.toList.takeWhile fun c => c ≠ '?' && c ≠ '#')

/-- The attempts that are left, the last of which has failed so. -/
def deliverLoop (w : Webhook) (tries : ℕ → Try) (lastErr : String) : ℕ → Except String Unit
  | 0 => .error ("webhook: " ++ toString deliverAttempts ++ " attempts to " ++ redact w.url ++
      " all failed: " ++ lastErr)
  | left + 1 =>
      let t := tries (deliverAttempts - left)
      match t.before, cfg.attempt t.reply, t.after with
      | some cancelled, _, _ => .error cancelled
      | none, none, _ => .ok ()
      | none, some err, none => deliverLoop w tries err left
      | none, some err, some cancelled =>
          if left = 0 then deliverLoop w tries err left else .error cancelled

def deliverOne (w : Webhook) (tries : ℕ → Try) : Except String Unit :=
  deliverLoop cfg w tries "" deliverAttempts

/-- The context of a worker is never cancelled. -/
def background (replies : ℕ → Reply) (attempt : ℕ) : Try := ⟨none, replies attempt, none⟩

/-- A worker that has taken a delivery makes the attempts of `deliverOne` one by one: it is done with
the delivery if that succeeds, and gives it up otherwise. -/
theorem deliverOne_eq_attempts (pool : WorkQueue.State (Delivery Body) String workerCount)
    (w : Fin workerCount) (d : Delivery Body) (replies : ℕ → Reply) :
    let p := [1, 2, 3].foldl
      (fun p i => p.attempt deliverAttempts w (cfg.attempt (replies i)))
      { pool with workers := update pool.workers w (some ⟨d, []⟩) }
    p.workers = update pool.workers w none ∧ p.queue = pool.queue ∧ p.dropped = pool.dropped ∧
      match deliverOne cfg d.hook (background replies) with
      | .ok _ => ∃ job, job.item = d ∧ p.done = job :: pool.done ∧ p.abandoned = pool.abandoned
      | .error _ =>
          ∃ job, job.item = d ∧ p.abandoned = job :: pool.abandoned ∧ p.done = pool.done := by
  -- once it is done with the delivery, what it is answered does not matter any more
  cases h₁ : cfg.attempt (replies 1) <;> cases h₂ : cfg.attempt (replies 2) <;>
    cases h₃ : cfg.attempt (replies 3) <;>
    simp [deliverOne, deliverLoop, background, deliverAttempts, WorkQueue.State.attempt,
      WorkQueue.State.tried, h₁, h₂, h₃]

end Honryu.Webhooks
