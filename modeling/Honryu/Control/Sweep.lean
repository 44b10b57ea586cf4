import Honryu.Control.Lifecycle
import Honryu.Lib.Alone

/-!
Whether a pass over the idle executions removes all engines of those it reaps.

Each cluster lists the executions that have engines on it. A pass goes from cluster to cluster, and
looks at an execution where it finds it first. Only there it removes the engines.
-/

namespace Honryu.Control

open Call Lifecycle Quota

variable {p : Precision} (cfg : Config)

/-! ### The clusters -/

abbrev Pods := String → List (ℤ × ℤ)

def Pods.holds (pods : Pods) (cluster : String) (executionId : ℤ) : Prop :=
  executionId ∈ (pods cluster).map (·.1)

instance (pods : Pods) (cluster : String) (executionId : ℤ) :
    Decidable (pods.holds cluster executionId) := inferInstanceAs (Decidable (_ ∈ _))

def Pods.remove (pods : Pods) (cluster : String) (executionId : ℤ) : Pods :=
  Function.update pods cluster ((pods cluster).filter fun d => d.1 ≠ executionId)

def removed (pods : Pods) : Op → Pods
  | .purgeExecution cluster executionId => pods.remove cluster executionId
  | _ => pods

def podServer : Server Answer Failure (Store p × Pods) View where
  perform view o x :=
    (reply cfg { view with deployed := x.2 } x.1 o, (effect cfg x.1 o, removed x.2 o))
  failure := failure

/-! ### Questions that fail -/

namespace Op

/-- The execution that a question is about. -/
def executionId : Op → Option ℤ
  | .getExecution e | .isFrozen e | .loadProfileFor e | .calibrating e | .prepare e | .getProject e
  | .startLaunch e _ _ _ | .finishLaunch e _
  | .executionStatus _ e | .deployScenario _ e _ | .purgeExecution _ e
  | .currentRun e _ | .insertRun e | .insertHistory _ e _ | .endHistory e _ | .deleteRun e _
  | .lastRun e | .markScenarioRunning e _ | .clearScenarioRunning e _
  | .getPendingCorrelationId e | .setPendingCorrelationId e _
  | .touchActivity e | .getLastActivity e
  | .orphanCompletions e | .recordOrphanCompletion e _ | .clearOrphanCompletions e
  | .releaseReservations e => some e
  | .createReservation r => some r.1.executionId
  | _ => none

def cluster : Op → Option String
  | .executionStatus c _ | .deployScenario c _ _ | .purgeExecution c _ | .deployedExecutions c =>
      some c
  | _ => none

end Op

/-- Of the questions that fail none is about an execution, unless it is also about a cluster. -/
def Exempt (hits : Op → Bool) (executionId : ℤ) : Prop :=
  ∀ o : Op, o.executionId = some executionId → o.cluster = none → hits o = false

def View.holding (view : View) (blocked : ℤ → Bool) : View :=
  { view with calibrating := fun e => blocked e || view.calibrating e }

/-- For some executions the questions fail, and for the others they do not. -/
structure Blocks (hits : Op → Bool) (blocked : ℤ → Bool) : Prop where
  now : hits .now = false
  hit : ∀ e, blocked e = true → hits (.getLastActivity e) = true
  exempt : ∀ e, blocked e = false → Exempt hits e

/-- A cluster can be asked for what is deployed there, and to remove what is not blocked. -/
structure Reachable (hits : Op → Bool) (blocked : ℤ → Bool) (cluster : String) : Prop where
  lists : hits (.deployedExecutions cluster) = false
  removes : ∀ e, blocked e = false → hits (.purgeExecution cluster e) = false

/-! ### One execution -/

def reapable (view : View) (ttl : ℤ) (s : Store p) (executionId deployedAt : ℤ) : Bool :=
  ttl ≤ s.clock - (s.lastActivity executionId).getD deployedAt ∧ s.marker executionId = none ∧
    view.calibrating executionId = false

structure TouchedOnly (executionId : ℤ) (s s' : Store p) : Prop where
  clock : s'.clock = s.clock
  marker : s'.marker = s.marker
  lastActivity : ∀ e, e ≠ executionId → s'.lastActivity e = s.lastActivity e

/-- After the last run of an execution has been cleared up. Its reservations may have been
released. -/
structure ClearedUp (released : Bool) (executionId : ℤ) (s s' : Store p) : Prop
    extends TouchedOnly executionId s s' where
  history : s'.history = s.history
  reports : s'.reports = s.reports
  ledger : s'.ledger = if released then s.ledger.release executionId else s.ledger
  untouched : cfg.execution executionId = none →
    s'.lastActivity executionId = s.lastActivity executionId

section One

variable {cfg} {hits : Op → Bool} {view : View} {executionId : ℤ} {s s' : Store p} {pods : Pods}

theorem clearedUp_self : ClearedUp cfg false executionId s s :=
  ⟨⟨rfl, rfl, fun _ _ => rfl⟩, rfl, rfl, rfl, fun _ => rfl⟩

theorem smoothly_clearScenarios_apart (hexempt : Exempt hits executionId)
    (scenarios : List LoadProfile.Entry) (hs : ClearedUp cfg false executionId s s') :
    (clearScenarios executionId scenarios).Smoothly ((podServer cfg).shut hits) (· = view) (s', pods)
      fun r x => r = .ok () ∧ ClearedUp cfg false executionId s x.1 ∧ x.2 = pods := by
  induction scenarios generalizing s' with
  | nil => exact ⟨rfl, hs, rfl⟩
  | cons e rest ih =>
      refine Smoothly.shut_need_bind (hexempt _ rfl rfl) fun view _ => ⟨(), rfl, ih ?_⟩
      exact ⟨⟨hs.clock, hs.marker, hs.lastActivity⟩, hs.history, hs.reports, hs.ledger, hs.untouched⟩

theorem smoothly_teardown_apart (hexempt : Exempt hits executionId) (onBehalf : Option ℤ)
    (hnone : s.marker executionId = none) :
    (teardown cfg executionId onBehalf).Smoothly ((podServer cfg).shut hits) (· = view) (s, pods)
      fun r x => r = .ok () ∧ ClearedUp cfg true executionId s x.1 ∧ x.2 = pods := by
  refine Smoothly.shut_besides_bind (hexempt _ rfl rfl) fun view _ => ?_
  have htouched : ClearedUp cfg false executionId s (effect cfg s (.touchActivity executionId)) := by
    refine ⟨⟨rfl, rfl, fun e he => ?_⟩, rfl, rfl, rfl, fun hnone => ?_⟩
    · simp only [effect]
      split
      · exact Function.update_of_ne he _ _
      · rfl
    · simp only [effect, hnone, Option.isSome_none, Bool.false_eq_true, if_false]
  refine Smoothly.shut_need_bind (hexempt _ rfl rfl) fun view _ => ⟨cfg.profile executionId, rfl, ?_⟩
  refine (smoothly_clearScenarios_apart hexempt _ htouched).bind (fun _ x h => ?_)
    fun e x h => nomatch h.1
  obtain ⟨-, hs, hpods⟩ := h
  refine Smoothly.shut_besides_bind (hexempt _ rfl rfl) fun view _ =>
    Smoothly.shut_besides_bind (hexempt _ rfl rfl) fun view _ => ?_
  have hcurrent : x.1.marker executionId = none := by rw [hs.marker, hnone]
  refine Smoothly.shut_attempt_need_bind (hexempt _ rfl rfl) fun view _ => ?_
  split
  · rename_i runId hfound
    cases hcurrent.symm.trans (Except.ok.inj hfound)
  · refine Smoothly.shut_need_bind (hexempt _ rfl rfl) fun view _ =>
      ⟨none, congrArg Except.ok hcurrent, rfl, ?_, hpods⟩
    exact ⟨⟨hs.clock, hs.marker, hs.lastActivity⟩, hs.history, hs.reports,
      congrArg (Ledger.release · executionId) hs.ledger, hs.untouched⟩

theorem smoothly_teardownAndCapture_apart (hexempt : Exempt hits executionId)
    (hnone : s.marker executionId = none) :
    (teardownAndCapture cfg executionId).Smoothly ((podServer cfg).shut hits) (· = view) (s, pods)
      fun r x => r = .ok () ∧ ClearedUp cfg (s.lastRun executionId).isSome executionId s x.1 ∧
        x.2 = pods := by
  refine Smoothly.shut_need_bind (hexempt _ rfl rfl) fun view _ => ⟨none, congrArg Except.ok hnone, ?_⟩
  refine Smoothly.shut_attempt_need_bind (hexempt _ rfl rfl) fun view _ => ?_
  have hlast : ∀ x : Store p × Pods, x.1 = s →
      ((podServer cfg).perform view (.lastRun executionId) x).1 = found (s.lastRun executionId) :=
    fun x hx => by rw [← hx]; rfl
  rw [hlast _ rfl]
  cases s.lastRun executionId with
  | some last => exact smoothly_teardown_apart hexempt _ hnone
  | none => exact ⟨rfl, clearedUp_self, rfl⟩

/-- `reapIfIdle` reaps an execution that is idle, and removes its engines from one cluster. -/
theorem smoothly_reapIfIdle (hexempt : Exempt hits executionId) {cluster : String}
    (hremoves : hits (.purgeExecution cluster executionId) = false) (deployedAt ttl : ℤ) :
    (reapIfIdle cfg executionId cluster deployedAt s.clock ttl).Smoothly
      ((podServer cfg).shut hits) (· = view) (s, pods) fun r x =>
        r = .ok (reapable view ttl s executionId deployedAt) ∧
          ClearedUp cfg (reapable view ttl s executionId deployedAt &&
            (s.lastRun executionId).isSome) executionId s x.1 ∧
          x.2 = if reapable view ttl s executionId deployedAt then pods.remove cluster executionId
            else pods := by
  refine Smoothly.shut_need_bind (hexempt _ rfl rfl) fun view₁ _ => ⟨s.lastActivity executionId, rfl, ?_⟩
  split
  · rename_i hrecent
    have hdue : reapable view ttl s executionId deployedAt = false := by
      simp [reapable, not_le.mpr hrecent]
    rw [hdue]
    exact ⟨rfl, clearedUp_self, rfl⟩
  · rename_i hlong
    refine Smoothly.shut_need_bind (hexempt _ rfl rfl) fun view₂ _ => ⟨s.marker executionId, rfl, ?_⟩
    cases hmarker : s.marker executionId with
    | some runId =>
        have hdue : reapable view ttl s executionId deployedAt = false := by
          simp [reapable, hmarker]
        rw [hdue]
        exact ⟨rfl, clearedUp_self, rfl⟩
    | none =>
        refine Smoothly.shut_need_bind (hexempt _ rfl rfl) fun view₃ hview =>
          ⟨view₃.calibrating executionId, rfl, ?_⟩
        subst hview
        cases hcalibrating : view₃.calibrating executionId with
        | true =>
            have hdue : reapable view₃ ttl s executionId deployedAt = false := by
              simp [reapable, hcalibrating]
            rw [hdue]
            exact ⟨rfl, clearedUp_self, rfl⟩
        | false =>
            have hdue : reapable view₃ ttl s executionId deployedAt = true := by
              simp [reapable, hcalibrating, hmarker, not_lt.mp hlong]
            refine (smoothly_teardownAndCapture_apart hexempt hmarker).bind (fun _ x h => ?_)
              fun e x h => nomatch h.1
            obtain ⟨-, hs, hpods⟩ := h
            refine Smoothly.shut_need_bind hremoves fun view₄ _ => ⟨(), rfl, ?_⟩
            refine Smoothly.shut_need_bind (hexempt _ rfl rfl) fun view₅ _ => ⟨(), rfl, ?_⟩
            have hthen : x.2 = pods := hpods
            rw [hdue, Bool.true_and]
            refine ⟨rfl, ?_, congrArg (Pods.remove · cluster executionId) hthen⟩
            exact ⟨⟨hs.clock, hs.marker, hs.lastActivity⟩, hs.history, hs.reports, hs.ledger,
              hs.untouched⟩

end One

/-! ### One cluster after the other -/

/-- What is listed, in the order in which a pass comes by it: the cluster, the execution, and since
when it is deployed there. -/
def visits (pods : Pods) (clusters : List String) : List (String × ℤ × ℤ) :=
  clusters.flatMap fun cluster => (pods cluster).map fun d => (cluster, d)

def firstVisit (vs : List (String × ℤ × ℤ)) (executionId : ℤ) : Option (String × ℤ × ℤ) :=
  vs.find? fun v => v.2.1 = executionId

section Sweep

variable (view : View) (ttl : ℤ) (s : Store p) (pods : Pods)

def reapedOn (vs : List (String × ℤ × ℤ)) (executionId : ℤ) : Option String :=
  (firstVisit vs executionId).bind fun v =>
    if reapable view ttl s executionId v.2.2 then some v.1 else none

structure Swept (vs : List (String × ℤ × ℤ)) (acc : Reaping) (x : Store p × Pods) : Prop where
  clock : x.1.clock = s.clock
  marker : x.1.marker = s.marker
  lastActivity : ∀ e, e ∉ acc.seen → x.1.lastActivity e = s.lastActivity e
  seen : ∀ e, e ∈ acc.seen ↔ (firstVisit vs e).isSome
  reaped : ∀ e, e ∈ acc.reaped ↔ (reapedOn view ttl s vs e).isSome
  failure : acc.failure = none
  pods : ∀ cluster, x.2 cluster =
    (pods cluster).filter fun d => reapedOn view ttl s vs d.1 ≠ some cluster

variable {view ttl s pods} {vs : List (String × ℤ × ℤ)} {acc : Reaping} {x : Store p × Pods}
  {cluster : String}

theorem firstVisit_concat (v : String × ℤ × ℤ) (e : ℤ) :
    firstVisit (vs ++ [v]) e = (firstVisit vs e).or (if v.2.1 = e then some v else none) := by
  simp [firstVisit, List.find?_append, List.find?_singleton]

theorem Swept.again (h : Swept view ttl s pods vs acc x) (cluster : String) {d : ℤ × ℤ}
    (hd : d.1 ∈ acc.seen) :
    Swept view ttl s pods (vs ++ [(cluster, d)]) acc x := by
  have hsame : ∀ e, firstVisit (vs ++ [(cluster, d)]) e = firstVisit vs e := by
    intro e
    rw [firstVisit_concat]
    by_cases he : d.1 = e
    · subst he
      obtain ⟨v, hv⟩ := Option.isSome_iff_exists.mp ((h.seen _).mp hd)
      rw [hv, Option.some_or]
    · rw [if_neg he, Option.or_none]
  have hon : ∀ e, reapedOn view ttl s (vs ++ [(cluster, d)]) e = reapedOn view ttl s vs e := by
    intro e
    rw [reapedOn, hsame, reapedOn]
  refine ⟨h.clock, h.marker, h.lastActivity, ?_, ?_, h.failure, ?_⟩
  · simpa only [hsame] using h.seen
  · simpa only [hon] using h.reaped
  · simpa only [hon] using h.pods

/-- What an execution is judged by, when it is found for the first time. -/
theorem Swept.reapable_eq (h : Swept view ttl s pods vs acc x) {e : ℤ} (he : e ∉ acc.seen)
    (deployedAt : ℤ) :
    reapable view ttl x.1 e deployedAt = reapable view ttl s e deployedAt := by
  rw [reapable, reapable, h.clock, h.marker, h.lastActivity e he]

theorem Swept.look (h : Swept view ttl s pods vs acc x) {d : ℤ × ℤ} (hd : d.1 ∉ acc.seen)
    {x' : Store p × Pods} (hs : TouchedOnly d.1 x.1 x'.1)
    (hpods : x'.2 = if reapable view ttl s d.1 d.2 then x.2.remove cluster d.1 else x.2) :
    Swept view ttl s pods (vs ++ [(cluster, d)])
      { acc with
        seen := d.1 :: acc.seen
        reaped := if reapable view ttl s d.1 d.2 then acc.reaped ++ [d.1] else acc.reaped } x' := by
  have hnew : firstVisit vs d.1 = none := by
    rw [← Option.not_isSome_iff_eq_none, ← h.seen]
    exact hd
  have hthis : firstVisit (vs ++ [(cluster, d)]) d.1 = some (cluster, d) := by
    rw [firstVisit_concat, hnew, Option.none_or, if_pos rfl]
  have hsame : ∀ e, e ≠ d.1 → firstVisit (vs ++ [(cluster, d)]) e = firstVisit vs e := by
    intro e he
    rw [firstVisit_concat, if_neg (Ne.symm he), Option.or_none]
  have hon : ∀ e, reapedOn view ttl s (vs ++ [(cluster, d)]) e =
      if e = d.1 then (if reapable view ttl s d.1 d.2 then some cluster else none)
        else reapedOn view ttl s vs e := by
    intro e
    by_cases he : e = d.1
    · rw [if_pos he, he, reapedOn, hthis]
      rfl
    · rw [if_neg he, reapedOn, hsame e he, reapedOn]
  have hnone : reapedOn view ttl s vs d.1 = none := by rw [reapedOn, hnew, Option.bind_none]
  have hbefore : d.1 ∉ acc.reaped := by rw [h.reaped, hnone]; exact nofun
  refine ⟨hs.clock.trans h.clock, hs.marker.trans h.marker, fun e he => ?_, fun e => ?_,
    fun e => ?_,
    h.failure, fun c => ?_⟩
  · obtain ⟨hne, hunseen⟩ := not_or.mp (mt List.mem_cons.mpr he)
    exact (hs.lastActivity e hne).trans (h.lastActivity e hunseen)
  · by_cases he : e = d.1
    · simp [he, hthis]
    · simp [he, hsame e he, h.seen]
  · rw [hon]
    by_cases he : e = d.1
    · cases hdue : reapable view ttl s d.1 d.2 <;> simp [he, hbefore]
    · cases hdue : reapable view ttl s d.1 d.2 <;> simp [he, h.reaped]
  · rw [hpods]
    cases hdue : reapable view ttl s d.1 d.2 with
    | false =>
        rw [if_neg nofun, h.pods]
        refine List.filter_congr fun d' _ => ?_
        rw [hon, hdue]
        by_cases he : d'.1 = d.1 <;> simp [he, hnone]
    | true =>
        rw [if_pos rfl]
        by_cases hc : c = cluster
        · subst hc
          rw [Pods.remove, Function.update_self, h.pods, List.filter_filter]
          refine List.filter_congr fun d' _ => ?_
          rw [hon, hdue]
          by_cases he : d'.1 = d.1 <;> simp [he]
        · rw [Pods.remove, Function.update_of_ne hc, h.pods]
          refine List.filter_congr fun d' _ => ?_
          rw [hon, hdue]
          by_cases he : d'.1 = d.1 <;> simp [he, hnone, Ne.symm hc]

theorem reapable_holding (view : View) (ttl : ℤ) (s : Store p) (blocked : ℤ → Bool)
    (e deployedAt : ℤ) :
    reapable (view.holding blocked) ttl s e deployedAt =
      (!blocked e && reapable view ttl s e deployedAt) := by
  cases hblocked : blocked e <;> simp [reapable, View.holding, hblocked]

variable {hits : Op → Bool} {blocked : ℤ → Bool}

/-- One cluster. What a list has lost since the beginning has been seen. -/
theorem smoothly_reapEach (hblocks : Blocks hits blocked) (hreach : Reachable hits blocked cluster)
    (h : Swept (view.holding blocked) ttl s pods vs { acc with failure := none } x)
    (deployed : List (ℤ × ℤ)) {keep : ℤ × ℤ → Bool}
    (hkeep : ∀ d ∈ deployed, keep d = false → d.1 ∈ acc.seen) :
    (reapEach cfg cluster s.clock ttl (deployed.filter keep) acc).Smoothly
      ((podServer cfg).shut hits) (· = view) x
      fun r x' => ∃ acc', r = .ok acc' ∧
        Swept (view.holding blocked) ttl s pods (vs ++ deployed.map fun d => (cluster, d))
          { acc' with failure := none } x' ∧
        ((∀ e, blocked e = false) → acc'.failure = acc.failure) := by
  induction deployed generalizing vs acc x with
  | nil => exact ⟨acc, rfl, by simpa using h, fun _ => rfl⟩
  | cons d rest ih =>
      obtain ⟨hd, hrest⟩ := List.forall_mem_cons.mp hkeep
      rw [List.map_cons, List.append_cons]
      by_cases hseen : d.1 ∈ acc.seen
      · have hagain := ih (h.again cluster hseen) hrest
        cases hkeeps : keep d with
        | false => rwa [List.filter_cons_of_neg (by rw [hkeeps]; exact nofun)]
        | true =>
            rw [List.filter_cons_of_pos hkeeps]
            unfold reapEach
            rwa [if_pos hseen]
      · have hkeeps : keep d = true := by
          by_contra hno
          exact hseen (hd (Bool.eq_false_iff.mpr hno))
        have hlater : ∀ d' ∈ rest, keep d' = false → d'.1 ∈ d.1 :: acc.seen :=
          fun d' hd' hno => List.mem_cons_of_mem _ (hrest d' hd' hno)
        have hjudged := reapable_holding view ttl s blocked d.1 d.2
        rw [List.filter_cons_of_pos hkeeps]
        unfold reapEach
        rw [if_neg hseen]
        cases hblocked : blocked d.1 with
        | true =>
            -- nothing is learnt about the execution, and the pass goes on
            have hfails : (reapIfIdle cfg d.1 cluster d.2 s.clock ttl).Smoothly
                ((podServer cfg).shut hits) (· = view) x fun r x' =>
                  r = .error .unavailable ∧ x' = x :=
              Smoothly.shut_need_bind_of_hit (hblocks.hit d.1 hblocked) rfl ⟨rfl, rfl⟩
            refine Smoothly.attempt_bind hfails fun r x' hr => ?_
            obtain ⟨rfl, rfl⟩ := hr
            rw [hblocked, Bool.not_true, Bool.false_and] at hjudged
            have hlook : Swept (view.holding blocked) ttl s pods (vs ++ [(cluster, d)])
                { acc with failure := none, seen := d.1 :: acc.seen } x' := by
              have hpods : x'.2 = if reapable (view.holding blocked) ttl s d.1 d.2 then
                  x'.2.remove cluster d.1 else x'.2 := by
                rw [hjudged]
                rfl
              have hlook := h.look hseen ⟨rfl, rfl, fun _ _ => rfl⟩ hpods
              rwa [hjudged] at hlook
            refine (ih hlook hlater).mono fun r x'' h => ?_
            obtain ⟨acc', hok, hswept, -⟩ := h
            exact ⟨acc', hok, hswept, fun hnone => nomatch hblocked.symm.trans (hnone d.1)⟩
        | false =>
            rw [hblocked, Bool.not_false, Bool.true_and] at hjudged
            rw [← h.clock]
            refine Smoothly.attempt_bind (smoothly_reapIfIdle (hblocks.exempt d.1 hblocked)
              (hreach.removes d.1 hblocked) d.2 ttl) fun r x' hr => ?_
            obtain ⟨rfl, hs, hpods⟩ := hr
            have hthen := reapable_holding view ttl x.1 blocked d.1 d.2
            rw [hblocked, Bool.not_false, Bool.true_and] at hthen
            rw [← hthen, h.reapable_eq hseen] at hpods ⊢
            rw [h.clock]
            exact ih (h.look hseen hs.toTouchedOnly hpods) hlater

/-- Those of the clusters that can be reached, and then the rest. -/
theorem smoothly_reapClusters (hblocks : Blocks hits blocked) {clusters rest : List String}
    (hreach : ∀ cluster ∈ clusters, Reachable hits blocked cluster)
    {Q : Except Failure (List ℤ × Option Failure) → Store p × Pods → Prop}
    (h : Swept (view.holding blocked) ttl s pods vs { acc with failure := none } x)
    (hrest : ∀ acc' x', Swept (view.holding blocked) ttl s pods (vs ++ visits pods clusters)
        { acc' with failure := none } x' →
      ((∀ e, blocked e = false) → acc'.failure = acc.failure) →
      (reapClusters cfg s.clock ttl rest acc').Smoothly ((podServer cfg).shut hits) (· = view) x' Q) :
    (reapClusters cfg s.clock ttl (clusters ++ rest) acc).Smoothly ((podServer cfg).shut hits)
      (· = view) x Q := by
  induction clusters generalizing vs acc x with
  | nil => exact hrest acc x (by simpa [visits] using h) fun _ => rfl
  | cons cluster clusters ih =>
      obtain ⟨hthis, hothers⟩ := List.forall_mem_cons.mp hreach
      refine Smoothly.shut_attempt_need_bind hthis.lists fun view' _ => ?_
      have hseen : ∀ d ∈ pods cluster,
          decide (reapedOn (view.holding blocked) ttl s vs d.1 ≠ some cluster) = false →
            d.1 ∈ acc.seen := by
        intro d _ hreaped
        have hsome := h.seen d.1
        cases hfirst : firstVisit vs d.1 with
        | some v => exact hsome.mpr (by rw [hfirst]; rfl)
        | none => simp [reapedOn, hfirst] at hreaped
      have heach := smoothly_reapEach cfg hblocks hthis h (pods cluster) hseen
      rw [← h.pods cluster] at heach
      refine heach.bind (fun acc' x' hacc => ?_) fun e x' hacc => nomatch hacc
      obtain ⟨acc'', hok, hswept, hfailure⟩ := hacc
      cases hok
      refine ih hothers hswept fun acc'' x'' hswept' hfailure' => ?_
      rw [List.append_assoc] at hswept'
      exact hrest acc'' x'' (by rwa [visits, List.flatMap_cons])
        fun hnone => (hfailure' hnone).trans (hfailure hnone)

theorem swept_nil (view : View) (ttl : ℤ) (s : Store p) (pods : Pods) :
    Swept view ttl s pods [] ⟨[], [], none⟩ (s, pods) := by
  refine ⟨rfl, rfl, fun _ _ => rfl, fun e => ?_, fun e => ?_, rfl, fun c => ?_⟩
  · simp [firstVisit]
  · simp [reapedOn, firstVisit]
  · simp [reapedOn, firstVisit]

theorem smoothly_reapIdle (hblocks : Blocks hits blocked) (httl : 0 < ttl) {clusters : List String}
    (hreach : ∀ cluster ∈ clusters, Reachable hits blocked cluster) :
    (reapIdle cfg ttl clusters).Smoothly ((podServer cfg).shut hits) (· = view) (s, pods)
      fun r x => ∃ acc : Reaping, r = .ok (acc.reaped.insertionSort (· ≤ ·), acc.failure) ∧
        Swept (view.holding blocked) ttl s pods (visits pods clusters) { acc with failure := none } x ∧
        ((∀ e, blocked e = false) → acc.failure = none) := by
  unfold reapIdle
  rw [if_neg (not_le.mpr httl)]
  refine Smoothly.shut_need_bind hblocks.now fun view' _ => ⟨s.clock, rfl, ?_⟩
  rw [← List.append_nil clusters]
  refine smoothly_reapClusters cfg hblocks hreach (swept_nil _ ttl s pods)
    fun acc x hswept hfailure => ?_
  rw [List.append_nil]
  exact ⟨acc, rfl, hswept, hfailure⟩

end Sweep

/-! ### What is left -/

section Complete

variable (view : View) (ttl : ℤ) (clusters : List String) (s : Store p) (pods : Pods)

def sweep : Course Op Failure (List ℤ × Option Failure) (Store p × Pods) :=
  (reapIdle cfg ttl clusters).alone (podServer cfg) (fun _ => view) none (s, pods)

/-- None of the clusters that had engines of an execution that is reported as reaped has them
still. -/
def ReapedEverywhere : Prop :=
  ∀ reaped failure, (sweep cfg view ttl clusters s pods).result = some (.ok (reaped, failure)) →
    ∀ e ∈ reaped, ∀ cluster ∈ clusters, pods.holds cluster e →
      ¬(sweep cfg view ttl clusters s pods).state.2.holds cluster e

def OnOneCluster : Prop :=
  0 < ttl → ∀ e v, firstVisit (visits pods clusters) e = some v →
    reapable view ttl s e v.2.2 = true →
    ∀ cluster ∈ clusters, pods.holds cluster e → cluster = v.1

variable {cfg view ttl clusters s pods}

theorem reapedOn_eq_some {vs : List (String × ℤ × ℤ)} {e : ℤ} {cluster : String} :
    reapedOn view ttl s vs e = some cluster ↔
      ∃ v, firstVisit vs e = some v ∧ reapable view ttl s e v.2.2 = true ∧ v.1 = cluster := by
  simp [reapedOn, Option.bind_eq_some_iff]

theorem Swept.holds_iff {vs : List (String × ℤ × ℤ)} {acc : Reaping} {x : Store p × Pods}
    (h : Swept view ttl s pods vs acc x) {cluster : String} {e : ℤ} :
    x.2.holds cluster e ↔ pods.holds cluster e ∧ reapedOn view ttl s vs e ≠ some cluster := by
  simp only [Pods.holds, h.pods, List.mem_map, List.mem_filter, decide_eq_true_eq]
  constructor
  · rintro ⟨d, ⟨hd, hleft⟩, rfl⟩
    exact ⟨⟨d, hd, rfl⟩, hleft⟩
  · rintro ⟨⟨d, hd, rfl⟩, hleft⟩
    exact ⟨d, ⟨hd, hleft⟩, rfl⟩

variable (cfg view ttl clusters s pods)

variable {ttl} in
theorem sweep_of_pos (httl : 0 < ttl) :
    ∃ acc, (sweep cfg view ttl clusters s pods).result =
        some (.ok (acc.reaped.insertionSort (· ≤ ·), acc.failure)) ∧
      Swept view ttl s pods (visits pods clusters) acc
        (sweep cfg view ttl clusters s pods).state := by
  have hblocks : Blocks (fun _ => false) fun _ => false := ⟨rfl, nofun, fun _ _ _ _ _ => rfl⟩
  have hsmooth : (reapIdle cfg ttl clusters).Smoothly ((podServer cfg).shut fun _ => false)
      (· = view) (s, pods) _ :=
    smoothly_reapIdle cfg hblocks httl fun _ _ => ⟨rfl, fun _ _ => rfl⟩
  obtain ⟨r, hr, acc, rfl, hswept, hfailure⟩ := hsmooth.alone (fun _ => view) fun _ => rfl
  have hclean : { acc with failure := none } = acc := by rw [← hfailure fun _ => rfl]
  exact ⟨acc, hr, hclean ▸ hswept⟩

/-- A pass leaves no engines behind of what it reports as reaped, if and only if the executions
that are idle have their engines on one cluster each. -/
theorem reapedEverywhere_iff :
    ReapedEverywhere cfg view ttl clusters s pods ↔ OnOneCluster view ttl clusters s pods := by
  by_cases httl : 0 < ttl
  · obtain ⟨acc, hresult, hswept⟩ := sweep_of_pos cfg view clusters s pods httl
    have hreaped : ∀ e, e ∈ acc.reaped.insertionSort (· ≤ ·) ↔
        (reapedOn view ttl s (visits pods clusters) e).isSome := fun e =>
      (List.mem_insertionSort _).trans (hswept.reaped e)
    constructor
    · intro h _ e v hv hdue cluster hcluster hholds
      have hon : reapedOn view ttl s (visits pods clusters) e = some v.1 :=
        reapedOn_eq_some.mpr ⟨v, hv, hdue, rfl⟩
      have hmem := (hreaped e).mpr (by rw [hon]; rfl)
      have hgone := h _ _ hresult e hmem cluster hcluster hholds
      rw [hswept.holds_iff, hon] at hgone
      by_contra hne
      exact hgone ⟨hholds, fun heq => hne (Option.some_inj.mp heq).symm⟩
    · intro h reaped failure hr e he cluster hcluster hholds hstill
      rw [hresult] at hr
      cases hr
      obtain ⟨c, hc⟩ := Option.isSome_iff_exists.mp ((hreaped e).mp he)
      obtain ⟨v, hv, hdue, rfl⟩ := reapedOn_eq_some.mp hc
      obtain rfl := h httl e v hv hdue cluster hcluster hholds
      exact (hswept.holds_iff.mp hstill).2 hc
  · have hnothing : (sweep cfg view ttl clusters s pods).result = some (.ok ([], none)) := by
      rw [sweep, reapIdle, if_pos (not_lt.mp httl)]
      rfl
    refine iff_of_true (fun reaped failure hr e he => ?_) fun h => absurd h httl
    rw [hnothing] at hr
    cases hr
    cases he

end Complete

def onTwoClusters : Pods
  | "eu" => [(1, -10)]
  | "us" => [(1, -10)]
  | _ => []

/-- It is removed from the first one only. -/
theorem not_reapedEverywhere_onTwoClusters :
    ¬ReapedEverywhere smallConfig (.ready 2) 1 ["eu", "us"] (.new : Store .microseconds)
      onTwoClusters := by
  intro h
  have hresult : ((sweep smallConfig (.ready 2) 1 ["eu", "us"] (.new : Store .microseconds)
      onTwoClusters).result.bind Except.toOption).map (·.1) = some [1] := by decide +kernel
  have hleft : 1 ∈ ((sweep smallConfig (.ready 2) 1 ["eu", "us"] (.new : Store .microseconds)
      onTwoClusters).state.2 "us").map (·.1) := by decide +kernel
  obtain ⟨x, hx, hreaped⟩ := Option.map_eq_some_iff.mp hresult
  obtain ⟨r, hr, hok⟩ := Option.bind_eq_some_iff.mp hx
  cases r with
  | error e => cases hok
  | ok x' =>
      obtain rfl := Option.some_inj.mp hok
      have hmem : (1 : ℤ) ∈ x'.1 := by
        rw [hreaped]
        exact List.mem_singleton_self 1
      exact h x'.1 x'.2 hr 1 hmem "us" (by decide) (by decide) hleft

end Honryu.Control
