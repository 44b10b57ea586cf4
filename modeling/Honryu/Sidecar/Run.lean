import Honryu.Sidecar.Sidecar

/-!
The loop of a sidecar, and what reaches the control plane by the time it ends.

`Run` waits for the stream, then reads and pushes until it learns that the
engine has finished, and ends with one last push, the only one that is marked
final. A push that fails on the way is made up for by the next one. The last
push has no next one: `Run` returns its error, the process exits, and the pod's
script keeps the container from being started again. And as long as there is no
stream, nothing but a cancelled context ends the wait.
-/

namespace Honryu.Sidecar

open Metrics

/-! ### The loop -/

/-- What `os.Open` answers for the stream. -/
inductive Opening
  | opened
  | missing
  | failed

/-- The case `select` takes. -/
inductive Select
  | cancelled
  | done
  | flush
  | poll
  deriving DecidableEq

/-- What one turn of a sidecar meets: while it waits, the answer for the stream
and whether the context ends the wait; in the loop, the bytes `drain` reads, the
case of `select`, the exit-code file, the bytes the last `drain` reads, and
whether a push comes back with a 2xx. -/
structure Turn where
  opening : Opening
  cancelled : Bool
  chunks : List (List UInt8)
  select : Select
  raw : Option String
  rest : List (List UInt8)
  pushed : Bool

/-- What ends `Run` with an error. -/
inductive RunError
  | context
  | openStream
  | push
  deriving DecidableEq

inductive Phase
  | waiting
  | tailing
  | returned (err : Option RunError)
  deriving DecidableEq

/-- A sidecar process. The intervals it has read and the batches that were
acknowledged are recorded beside its state. -/
structure Process where
  phase : Phase
  sidecar : State
  read : List Interval
  acked : List Batch

namespace Process

def new (streamId : String) : Process :=
  { phase := .waiting, sidecar := .new streamId, read := [], acked := [] }

def drain (cfg : Config) (p : Process) (chunks : List (List UInt8)) : Process :=
  let sidecar := Sidecar.drain cfg p.sidecar chunks
  { p with sidecar, read := p.read ++ sidecar.pending.drop p.sidecar.pending.length }

/-- `flush`, and whether it returns without an error. -/
def flush (cfg : Config) (p : Process) (final pushed : Bool) : Process × Bool :=
  match push cfg p.sidecar final with
  | none => (p, true)
  | some batch =>
      if pushed then
        ({ p with sidecar := accepted p.sidecar batch, acked := p.acked ++ [batch] }, true)
      else (p, false)

/-- `return s.flush(ctx, true)`. -/
def leave (cfg : Config) (p : Process) (pushed : Bool) : Process :=
  let (p, ok) := p.flush cfg true pushed
  { p with phase := .returned (if ok then none else some .push) }

/-- One turn of `waitForStream`. -/
def wait (p : Process) (t : Turn) : Process :=
  match t.opening with
  | .opened => { p with phase := .tailing }
  | .failed => { p with phase := .returned (some .openStream) }
  | .missing => if t.cancelled then { p with phase := .returned (some .context) } else p

/-- One turn of the loop. -/
def tail (cfg : Config) (p : Process) (t : Turn) : Process :=
  let p := p.drain cfg t.chunks
  let (sidecar, finished) := checkExitCode cfg p.sidecar t.raw
  match t.select with
  | .cancelled => { p with sidecar }.leave cfg t.pushed
  | .done => ({ p with sidecar }.drain cfg t.rest).leave cfg t.pushed
  -- a failed push is logged, and the next flush retries
  | .flush => (p.flush cfg false t.pushed).1
  | .poll =>
      if finished then ({ p with sidecar }.drain cfg t.rest).leave cfg t.pushed
      else { p with sidecar }

def turn (cfg : Config) (p : Process) (t : Turn) : Process :=
  match p.phase with
  | .waiting => p.wait t
  | .tailing => p.tail cfg t
  | .returned _ => p

end Process

structure World where
  turn : ℕ → Turn
  polls : ∀ n, ∃ m, n ≤ m ∧ (turn m).select = .poll

def process (cfg : Config) (streamId : String) (w : World) : ℕ → Process
  | 0 => .new streamId
  | n + 1 => (process cfg streamId w n).turn cfg (w.turn n)

/-! ### Completion -/

def exitCodeOf (cfg : Config) (raw : Option String) : Option ℤ :=
  if cfg.exitCodePath = "" then none else raw.bind fun raw => Text.atoi (Text.trimSpace raw)

def ExitCodeAppears (cfg : Config) (w : World) (start : ℕ) (code : ℤ) : Prop :=
  ∀ n, exitCodeOf cfg (w.turn n).raw = if n < start then none else some code

/-- Every interval that is ever read is acknowledged at some time, and so is a
final batch with the exit code. -/
def Delivered (cfg : Config) (streamId : String) (w : World) (code : ℤ) : Prop :=
  (∀ n, ∀ iv ∈ (process cfg streamId w n).read,
    ∃ m, ∃ b ∈ (process cfg streamId w m).acked, iv ∈ b.intervals) ∧
  ∃ m, ∃ b ∈ (process cfg streamId w m).acked, b.final = true ∧ b.exitCode = some code

def OpensAt (w : World) (o : ℕ) : Prop :=
  (w.turn o).opening = .opened ∧
    ∀ m < o, (w.turn m).opening = .missing ∧ (w.turn m).cancelled = false

def Leaves (cfg : Config) (t : Turn) : Prop :=
  match t.select with
  | .cancelled | .done => True
  | .flush => False
  | .poll => (exitCodeOf cfg t.raw).isSome

def LeavesAt (cfg : Config) (w : World) (o n : ℕ) : Prop :=
  o < n ∧ Leaves cfg (w.turn n) ∧ ∀ m, o < m → m < n → ¬Leaves cfg (w.turn m)

theorem checkExitCode_eq (cfg : Config) (s : State) (raw : Option String) :
    checkExitCode cfg s raw =
      ({ s with exitCode := (exitCodeOf cfg raw).or s.exitCode }, (exitCodeOf cfg raw).isSome) := by
  unfold checkExitCode exitCodeOf
  split
  · rfl
  · cases raw with
    | none => rfl
    | some raw =>
        cases hcode : Text.atoi (Text.trimSpace raw) <;> simp [hcode]

/-! ### One turn -/

/-- A process that has not made its last push: no batch was final, and what was
read is acknowledged or pending. -/
structure Ongoing (p : Process) : Prop where
  exitCode_eq : p.sidecar.exitCode = none
  not_final : ∀ b ∈ p.acked, b.final = false
  read_eq : p.read = p.acked.flatMap (·.intervals) ++ p.sidecar.pending

/-- A process that has made it. A final batch is acknowledged only if the last
push came through, and then everything is. -/
structure Left (p : Process) (pushed : Bool) (code : Option ℤ) : Prop where
  returned : ∃ err, p.phase = .returned err
  pushed_of_final : ∀ b ∈ p.acked, b.final = true → pushed = true ∧ b.exitCode = code
  all_acked : pushed = true → p.read = p.acked.flatMap (·.intervals) ∧
    ∃ b ∈ p.acked, b.final = true ∧ b.exitCode = code

section Turn

variable {cfg : Config} {p : Process} {t : Turn}

theorem ongoing_new (streamId : String) : Ongoing (.new streamId) :=
  ⟨rfl, by simp [Process.new], rfl⟩

theorem drain_eq (cfg : Config) (p : Process) (chunks : List (List UInt8)) :
    ∃ new : List Interval, (p.drain cfg chunks).read = p.read ++ new ∧
      (p.drain cfg chunks).sidecar.pending = p.sidecar.pending ++ new ∧
      (p.drain cfg chunks).sidecar.exitCode = p.sidecar.exitCode := by
  obtain ⟨new, hnew⟩ := readMore_drain cfg p.sidecar chunks
  refine ⟨new, ?_, hnew.pending_eq, hnew.exitCode_eq⟩
  rw [Process.drain, hnew.pending_eq, List.drop_left]

theorem Ongoing.drain (hp : Ongoing p) (cfg : Config) (chunks : List (List UInt8)) :
    Ongoing (p.drain cfg chunks) := by
  obtain ⟨new, hread, hpending, hcode⟩ := drain_eq cfg p chunks
  refine ⟨hcode.trans hp.exitCode_eq, hp.not_final, ?_⟩
  rw [hread, hpending, hp.read_eq, List.append_assoc]
  rfl

theorem Ongoing.flush (hp : Ongoing p) (pushed : Bool) :
    Ongoing (p.flush cfg false pushed).1 := by
  unfold Process.flush
  cases hpush : push cfg p.sidecar false with
  | none => exact hp
  | some batch =>
      cases pushed with
      | false => exact hp
      | true =>
          obtain ⟨hfinal, hintervals⟩ : batch.final = false ∧
              batch.intervals = p.sidecar.pending := by
            unfold push at hpush
            split at hpush
            · cases hpush
            · cases hpush
              exact ⟨rfl, rfl⟩
          refine ⟨hp.exitCode_eq, ?_, ?_⟩
          · intro b hb
            rcases List.mem_append.mp hb with hb | hb
            · exact hp.not_final b hb
            · rw [List.mem_singleton.mp hb, hfinal]
          · show p.read = (p.acked ++ [batch]).flatMap (·.intervals) ++
              (accepted p.sidecar batch).pending
            simp [hp.read_eq, accepted, hintervals]

/-- The last push takes everything that is pending, and the exit code if there
is one. -/
theorem left_leave {code : Option ℤ} (hcode : p.sidecar.exitCode = code)
    (hfinal : ∀ b ∈ p.acked, b.final = false)
    (hread : p.read = p.acked.flatMap (·.intervals) ++ p.sidecar.pending) (pushed : Bool) :
    Left (p.leave cfg pushed) pushed code := by
  have hpush : ∃ batch, push cfg p.sidecar true = some batch ∧ batch.final = true ∧
      batch.intervals = p.sidecar.pending ∧ batch.exitCode = code := by
    simp [push, hcode]
  obtain ⟨batch, hpush, hbatch, hintervals, hexit⟩ := hpush
  cases pushed with
  | false =>
      simp only [Process.leave, Process.flush, hpush]
      refine ⟨⟨_, rfl⟩, fun b hb h => ?_, nofun⟩
      simp [hfinal b hb] at h
  | true =>
      simp only [Process.leave, Process.flush, hpush]
      refine ⟨⟨_, rfl⟩, fun b hb h => ?_, fun _ => ⟨?_, batch, by simp, hbatch, hexit⟩⟩
      · rcases List.mem_append.mp hb with hb | hb
        · simp [hfinal b hb] at h
        · rw [List.mem_singleton.mp hb]
          exact ⟨rfl, hexit⟩
      · show p.read = (p.acked ++ [batch]).flatMap (·.intervals)
        simp [hread, hintervals]

theorem Ongoing.left_leave (hp : Ongoing p) (cfg : Config) (raw : Option String)
    (chunks : List (List UInt8)) (pushed : Bool) :
    Left (({ p with sidecar := (checkExitCode cfg p.sidecar raw).1 }.drain cfg chunks).leave cfg
      pushed) pushed (exitCodeOf cfg raw) := by
  obtain ⟨new, hread, hpending, hcode⟩ :=
    drain_eq cfg { p with sidecar := (checkExitCode cfg p.sidecar raw).1 } chunks
  refine Sidecar.left_leave ?_ ?_ ?_ pushed
  · rw [hcode, checkExitCode_eq]
    simp [hp.exitCode_eq]
  · exact hp.not_final
  · rw [hread, hpending, checkExitCode_eq]
    show p.read ++ new = _ ++ (p.sidecar.pending ++ new)
    rw [hp.read_eq, List.append_assoc]
    rfl

theorem drain_nil (cfg : Config) (p : Process) : p.drain cfg [] = p := by
  simp [Process.drain, Sidecar.drain]

theorem turn_leaves (hp : Ongoing p) (hphase : p.phase = .tailing) (ht : Leaves cfg t) :
    Left (p.turn cfg t) t.pushed (exitCodeOf cfg t.raw) := by
  have hdrained := hp.drain cfg t.chunks
  simp only [Process.turn, hphase, Process.tail]
  cases hselect : t.select with
  | cancelled =>
      have hleft := hdrained.left_leave cfg t.raw [] t.pushed
      rwa [drain_nil] at hleft
  | done => exact hdrained.left_leave cfg t.raw t.rest t.pushed
  | flush => simp [Leaves, hselect] at ht
  | poll =>
      have hfinished : (checkExitCode cfg (p.drain cfg t.chunks).sidecar t.raw).2 = true := by
        rw [checkExitCode_eq]
        simpa [Leaves, hselect] using ht
      simp only [hfinished, if_true]
      exact hdrained.left_leave cfg t.raw t.rest t.pushed

theorem turn_stays (hp : Ongoing p) (hphase : p.phase = .tailing) (ht : ¬Leaves cfg t) :
    Ongoing (p.turn cfg t) ∧ (p.turn cfg t).phase = .tailing := by
  have hdrained := hp.drain cfg t.chunks
  simp only [Process.turn, hphase, Process.tail]
  cases hselect : t.select with
  | cancelled => simp [Leaves, hselect] at ht
  | done => simp [Leaves, hselect] at ht
  | flush =>
      refine ⟨hdrained.flush t.pushed, ?_⟩
      simp only [Process.flush]
      split
      · exact hphase
      · split <;> exact hphase
  | poll =>
      have hcode : exitCodeOf cfg t.raw = none := by simpa [Leaves, hselect] using ht
      simp only [checkExitCode_eq, hcode, Option.isSome_none, Bool.false_eq_true, if_false,
        Option.none_or]
      exact ⟨hdrained, hphase⟩

theorem read_flush (cfg : Config) (p : Process) (final pushed : Bool) :
    (p.flush cfg final pushed).1.read = p.read := by
  unfold Process.flush
  split
  · rfl
  · split <;> rfl

theorem mem_read_turn (cfg : Config) (t : Turn) {iv : Interval} (hiv : iv ∈ p.read) :
    iv ∈ (p.turn cfg t).read := by
  have hdrain (q : Process) (chunks : List (List UInt8)) (hq : iv ∈ q.read) :
      iv ∈ (q.drain cfg chunks).read := by
    obtain ⟨new, hread, -⟩ := drain_eq cfg q chunks
    rw [hread]
    exact List.mem_append_left new hq
  have hleave (q : Process) (hq : iv ∈ q.read) : iv ∈ (q.leave cfg t.pushed).read := by
    show iv ∈ (q.flush cfg true t.pushed).1.read
    rwa [read_flush]
  unfold Process.turn
  cases p.phase with
  | waiting =>
      simp only [Process.wait]
      split
      · exact hiv
      · exact hiv
      · split <;> exact hiv
  | tailing =>
      have hfirst := hdrain p t.chunks hiv
      simp only [Process.tail]
      cases t.select with
      | cancelled => exact hleave _ hfirst
      | done => exact hleave _ (hdrain _ t.rest hfirst)
      | flush =>
          simp only [read_flush]
          exact hfirst
      | poll =>
          show iv ∈ (if _ then _ else _ : Process).read
          split
          · exact hleave _ (hdrain _ t.rest hfirst)
          · exact hfirst
  | returned err => exact hiv

end Turn

/-! ### Whole runs -/

section Run

variable {cfg : Config} {streamId : String} {w : World} {o n m : ℕ}

theorem waiting_of_missing
    (h : ∀ m < n, (w.turn m).opening = .missing ∧ (w.turn m).cancelled = false) :
    process cfg streamId w n = .new streamId := by
  induction n with
  | zero => rfl
  | succ n ih =>
      obtain ⟨hopening, hcancelled⟩ := h n (by omega)
      rw [process, ih fun m hm => h m (by omega)]
      simp [Process.turn, Process.wait, Process.new, hopening, hcancelled]

/-- Once the stream is open, the loop goes on until a turn leaves it. -/
theorem ongoing_process (streamId : String) (ho : OpensAt w o) (hon : o < n)
    (hstay : ∀ m, o < m → m < n → ¬Leaves cfg (w.turn m)) :
    Ongoing (process cfg streamId w n) ∧ (process cfg streamId w n).phase = .tailing := by
  induction n, hon using Nat.le_induction with
  | base =>
      rw [process, waiting_of_missing ho.2]
      simp only [Process.turn, Process.wait, Process.new, ho.1]
      exact ⟨{ ongoing_new streamId with }, trivial⟩
  | succ n hon ih =>
      obtain ⟨hongoing, hphase⟩ := ih fun m hm hmn => hstay m hm (by omega)
      exact turn_stays hongoing hphase (hstay n (by omega) (by omega))

theorem process_of_returned {err : Option RunError}
    (h : (process cfg streamId w n).phase = .returned err) (hnm : n ≤ m) :
    process cfg streamId w m = process cfg streamId w n := by
  induction m, hnm using Nat.le_induction with
  | base => rfl
  | succ m _ ih =>
      rw [process, ih]
      simp [Process.turn, h]

theorem mem_read_process {iv : Interval} (hiv : iv ∈ (process cfg streamId w n).read)
    (hnm : n ≤ m) : iv ∈ (process cfg streamId w m).read := by
  induction m, hnm using Nat.le_induction with
  | base => exact hiv
  | succ m _ ih => exact mem_read_turn cfg (w.turn m) ih

theorem acked_of_never_opened (h : ¬∃ o, OpensAt w o) (n : ℕ) :
    (process cfg streamId w n).acked = [] := by
  by_cases hmissing : ∀ m < n, (w.turn m).opening = .missing ∧ (w.turn m).cancelled = false
  · rw [waiting_of_missing hmissing]
    rfl
  · -- the first turn that ends the wait does not open the stream, so it ends the process
    classical
    push Not at hmissing
    obtain ⟨hlt, hends⟩ := Nat.find_spec hmissing
    have hbefore : ∀ m < Nat.find hmissing,
        (w.turn m).opening = .missing ∧ (w.turn m).cancelled = false := by
      intro m hm
      have hmin := Nat.find_min hmissing hm
      push Not at hmin
      obtain ⟨hopening, hcancelled⟩ := hmin (hm.trans hlt)
      exact ⟨hopening, by simpa using hcancelled⟩
    have hreturned : ∃ err, (process cfg streamId w (Nat.find hmissing + 1)).phase =
        .returned err ∧ (process cfg streamId w (Nat.find hmissing + 1)).acked = [] := by
      rw [process, waiting_of_missing hbefore]
      simp only [Process.turn, Process.wait, Process.new]
      -- it was cancelled, or opening the file failed for another reason
      cases hopening : (w.turn (Nat.find hmissing)).opening with
      | opened => exact absurd ⟨_, hopening, hbefore⟩ h
      | failed => exact ⟨_, rfl, rfl⟩
      | missing =>
          rw [if_pos (by simpa using hends hopening)]
          exact ⟨_, rfl, rfl⟩
    obtain ⟨err, hphase, hacked⟩ := hreturned
    rw [process_of_returned hphase (by omega), hacked]

theorem exists_leavesAt {start : ℕ} {code : ℤ} (hfile : ExitCodeAppears cfg w start code)
    (o : ℕ) : ∃ n, LeavesAt cfg w o n := by
  classical
  have hleaves : ∃ n, o < n ∧ Leaves cfg (w.turn n) := by
    obtain ⟨n, hn, hpoll⟩ := w.polls (max start (o + 1))
    refine ⟨n, by omega, ?_⟩
    have hcode := hfile n
    rw [if_neg (by omega)] at hcode
    simp [Leaves, hpoll, hcode]
  refine ⟨Nat.find hleaves, (Nat.find_spec hleaves).1, (Nat.find_spec hleaves).2, ?_⟩
  intro m hm hlt hleave
  exact Nat.find_min hleaves hlt ⟨hm, hleave⟩

/-- What is acknowledged in the end depends on the turn that leaves the loop. -/
theorem delivered_iff_of_leavesAt (ho : OpensAt w o) (hn : LeavesAt cfg w o n) (code : ℤ) :
    Delivered cfg streamId w code ↔
      exitCodeOf cfg (w.turn n).raw = some code ∧ (w.turn n).pushed = true := by
  obtain ⟨hongoing, hphase⟩ := ongoing_process streamId ho hn.1 hn.2.2
  have hleft : Left (process cfg streamId w (n + 1)) (w.turn n).pushed
      (exitCodeOf cfg (w.turn n).raw) := turn_leaves hongoing hphase hn.2.1
  obtain ⟨err, hreturned⟩ := hleft.returned
  constructor
  · rintro ⟨-, m, b, hb, hfinal, hcode⟩
    -- a process that is still in the loop has no final batch acknowledged
    have hafter : n + 1 ≤ m := by
      by_contra hlt
      have hnot : ∀ b ∈ (process cfg streamId w m).acked, b.final = false := by
        rcases Nat.lt_or_ge o m with hom | hmo
        · exact (ongoing_process streamId ho hom fun k hk hkm => hn.2.2 k hk (by omega)).1.not_final
        · rw [waiting_of_missing fun k hk => ho.2 k (by omega)]
          exact (ongoing_new streamId).not_final
      simp [hnot b hb] at hfinal
    rw [process_of_returned hreturned hafter] at hb
    obtain ⟨hpushed, hexit⟩ := hleft.pushed_of_final b hb hfinal
    exact ⟨hexit.symm.trans hcode, hpushed⟩
  · rintro ⟨hcode, hpushed⟩
    obtain ⟨hread, b, hb, hfinal, hexit⟩ := hleft.all_acked hpushed
    refine ⟨fun m iv hiv => ⟨n + 1, ?_⟩, n + 1, b, hb, hfinal, hexit.trans hcode⟩
    have hlast : iv ∈ (process cfg streamId w (n + 1)).read := by
      rcases le_total m (n + 1) with hle | hle
      · exact mem_read_process hiv hle
      · rwa [process_of_returned hreturned hle] at hiv
    rw [hread] at hlast
    exact List.mem_flatMap.mp hlast

/-- When the exit code appears, everything is delivered exactly when the stream
is opened and the loop's last turn finds the exit code and its push comes
through. -/
theorem delivered_iff {start : ℕ} {code : ℤ} (hfile : ExitCodeAppears cfg w start code) :
    Delivered cfg streamId w code ↔
      ∃ o, OpensAt w o ∧ ∀ n, LeavesAt cfg w o n → start ≤ n ∧ (w.turn n).pushed = true := by
  have hcode (n : ℕ) : exitCodeOf cfg (w.turn n).raw = some code ↔ start ≤ n := by
    rw [hfile n]
    split
    case isTrue h => simp [h]
    case isFalse h => simpa using h
  constructor
  · intro hdelivered
    by_cases hopens : ∃ o, OpensAt w o
    · obtain ⟨o, ho⟩ := hopens
      refine ⟨o, ho, fun n hn => ?_⟩
      rwa [delivered_iff_of_leavesAt ho hn, hcode] at hdelivered
    · obtain ⟨-, m, b, hb, -⟩ := hdelivered
      simp [acked_of_never_opened hopens] at hb
  · rintro ⟨o, ho, hlast⟩
    obtain ⟨n, hn⟩ := exists_leavesAt hfile o
    rw [delivered_iff_of_leavesAt ho hn, hcode]
    exact hlast n hn

end Run

/-! ### One failed push -/

def quietConfig : Config :=
  { identity := { executionId := 1, scenarioId := 1, runId := 0, shardIndex := 0 }
    labelMap := ∅, exitCodePath := "/honryu/kpi/exit-code", decode := fun _ => none }

def oneFailure (failing : ℕ) : World where
  turn n :=
    { opening := .opened, cancelled := false, chunks := [], select := .poll, raw := some "0\n",
      rest := [], pushed := n ≠ failing }
  polls n := ⟨n, le_rfl, rfl⟩

theorem exitCodeAppears_oneFailure (failing : ℕ) :
    ExitCodeAppears quietConfig (oneFailure failing) 0 0 := by
  intro n
  rw [if_neg (Nat.not_lt_zero n)]
  show exitCodeOf quietConfig (some "0\n") = some 0
  decide

/-- The turn that fails makes no push. -/
theorem delivered_oneFailure : Delivered quietConfig "stream" (oneFailure 0) 0 := by
  refine (delivered_iff (exitCodeAppears_oneFailure 0)).mpr ⟨0, ⟨rfl, nofun⟩, fun n hn => ?_⟩
  have hpos : 0 < n := hn.1
  simp [oneFailure, hpos.ne']

/-- The push that fails is the last one, and the only one that ever fails. -/
theorem not_delivered_lastPush :
    ExitCodeAppears quietConfig (oneFailure 1) 0 0 ∧
      {n | ((oneFailure 1).turn n).pushed = false}.Finite ∧
      ¬Delivered quietConfig "stream" (oneFailure 1) 0 := by
  refine ⟨exitCodeAppears_oneFailure 1, ?_, ?_⟩
  · refine (Set.finite_singleton 1).subset fun n hn => ?_
    simpa [oneFailure] using hn
  · have hopens : OpensAt (oneFailure 1) 0 := ⟨rfl, nofun⟩
    have hleaves : LeavesAt quietConfig (oneFailure 1) 0 1 := by
      refine ⟨Nat.one_pos, ?_, fun m hm hlt => by omega⟩
      show (exitCodeOf quietConfig (some "0\n")).isSome = true
      decide
    rw [delivered_iff_of_leavesAt hopens hleaves]
    simp [oneFailure]

end Honryu.Sidecar
