import Honryu.Campaigns.Campaign
import Honryu.Lib.Visit
import Honryu.Quota.Reservation
import Honryu.Usage.Launch

/-!
What else was going on while a campaign was active.

A verdict names the other executions of the tenant that had engines reserved or launched during
the window of the campaign. What was reserved is looked up for the default cluster, and what was
launched in a history of launches that lie within the window. What is found of an execution is
merged into one interval.
-/

namespace Honryu.Campaigns

open Quota Usage

/-! ### Merging -/

/-- `OtherLoad` is a reservation or a launch, or several of an execution in one. -/
structure OtherLoad where
  executionId : ℤ
  startTime : ℤ
  endTime : ℤ
  engineCount : ℤ
  deriving DecidableEq

/-- What becomes of the entry of an execution. -/
def OtherLoad.widened (existing ol : OtherLoad) : OtherLoad :=
  { existing with
    startTime := if ol.startTime < existing.startTime then ol.startTime else existing.startTime
    endTime := if existing.endTime < ol.endTime then ol.endTime else existing.endTime
    engineCount :=
      if existing.engineCount < ol.engineCount then ol.engineCount else existing.engineCount }

/-- `merge`. -/
def mergeLoad (byExecution : TallyMap ℤ OtherLoad) (ol : OtherLoad) : TallyMap ℤ OtherLoad :=
  match byExecution[ol.executionId]? with
  | none => byExecution.insert ol.executionId ol
  | some existing => byExecution.insert ol.executionId (existing.widened ol)

def Between (loads : List OtherLoad) (executionId startTime endTime : ℤ) : Prop :=
  (∃ x ∈ loads, x.executionId = executionId ∧ x.startTime ≤ startTime) ∧
    ∃ y ∈ loads, y.executionId = executionId ∧ endTime ≤ y.endTime

/-- For each execution there is one entry, from the first start of its loads to the last end. -/
structure Merged (loads : List OtherLoad) (byExecution : TallyMap ℤ OtherLoad) : Prop where
  key : ∀ (k : ℤ) (ol : OtherLoad), byExecution[k]? = some ol → ol.executionId = k
  covers : ∀ x ∈ loads, ∃ ol, byExecution[x.executionId]? = some ol ∧
    ol.startTime ≤ x.startTime ∧ x.endTime ≤ ol.endTime
  attained : ∀ (k : ℤ) (ol : OtherLoad), byExecution[k]? = some ol → Between loads k ol.startTime ol.endTime

theorem merged_empty : Merged [] ∅ :=
  ⟨by simp, List.forall_mem_nil _, by simp⟩

theorem Between.append {loads : List OtherLoad} {executionId startTime endTime : ℤ}
    (h : Between loads executionId startTime endTime) (more : List OtherLoad) :
    Between (loads ++ more) executionId startTime endTime := by
  obtain ⟨⟨x, hx, hstart⟩, y, hy, hend⟩ := h
  exact ⟨⟨x, List.mem_append_left _ hx, hstart⟩, y, List.mem_append_left _ hy, hend⟩

theorem getElem?_mergeLoad {loads : List OtherLoad} {m : TallyMap ℤ OtherLoad} (h : Merged loads m)
    (ol : OtherLoad) :
    ∃ merged, (∀ k : ℤ, (mergeLoad m ol)[k]? = if ol.executionId = k then some merged else m[k]?) ∧
      merged.executionId = ol.executionId ∧ merged.startTime ≤ ol.startTime ∧
        ol.endTime ≤ merged.endTime ∧
          Between (loads ++ [ol]) ol.executionId merged.startTime merged.endTime ∧
            ∀ existing, m[ol.executionId]? = some existing →
              merged.startTime ≤ existing.startTime ∧ existing.endTime ≤ merged.endTime := by
  have hlast : ol ∈ loads ++ [ol] := List.mem_append_right _ (List.mem_singleton_self ol)
  unfold mergeLoad
  cases hexisting : m[ol.executionId]? with
  | none =>
      exact ⟨ol, fun k => TallyMap.getElem?_insert_eq_ite m _ k _, rfl, le_rfl, le_rfl,
        ⟨⟨ol, hlast, rfl, le_rfl⟩, ol, hlast, rfl, le_rfl⟩, nofun⟩
  | some existing =>
      obtain ⟨⟨x, hx, hxid, hstart⟩, y, hy, hyid, hend⟩ := h.attained _ _ hexisting
      refine ⟨existing.widened ol, fun k => TallyMap.getElem?_insert_eq_ite m _ k _,
        h.key _ existing hexisting, ?_, ?_, ⟨?_, ?_⟩, ?_⟩
      · simp only [OtherLoad.widened]
        split <;> omega
      · simp only [OtherLoad.widened]
        split <;> omega
      · simp only [OtherLoad.widened]
        split
        · exact ⟨ol, hlast, rfl, le_rfl⟩
        · exact ⟨x, List.mem_append_left _ hx, hxid, hstart⟩
      · simp only [OtherLoad.widened]
        split
        · exact ⟨ol, hlast, rfl, le_rfl⟩
        · exact ⟨y, List.mem_append_left _ hy, hyid, hend⟩
      · rintro _ ⟨⟩
        simp only [OtherLoad.widened]
        constructor <;> split <;> omega

theorem Merged.step {loads : List OtherLoad} {m : TallyMap ℤ OtherLoad} (h : Merged loads m)
    (ol : OtherLoad) : Merged (loads ++ [ol]) (mergeLoad m ol) := by
  obtain ⟨merged, hget, hid, hstart, hend, hbetween, hexisting⟩ := getElem?_mergeLoad h ol
  refine ⟨fun k x hx => ?_, fun x hx => ?_, fun k x hx => ?_⟩
  · rw [hget] at hx
    split at hx
    · cases hx
      rwa [hid]
    · exact h.key k x hx
  · rw [hget]
    rcases List.mem_append.mp hx with hx | hx
    · obtain ⟨y, hy, hle, hge⟩ := h.covers x hx
      split
      · rename_i hsame
        obtain ⟨hle', hge'⟩ := hexisting y (hsame ▸ hy)
        exact ⟨merged, rfl, hle'.trans hle, hge.trans hge'⟩
      · exact ⟨y, hy, hle, hge⟩
    · obtain rfl := List.mem_singleton.mp hx
      exact ⟨merged, if_pos rfl, hstart, hend⟩
  · rw [hget] at hx
    split at hx
    · rename_i hsame
      cases hx
      exact hsame ▸ hbetween
    · exact (h.attained k x hx).append _

theorem merged_foldl (loads : List OtherLoad) : Merged loads (loads.foldl mergeLoad ∅) := by
  induction loads using List.reverseRecOn with
  | nil => exact merged_empty
  | append_singleton loads ol ih =>
      rw [List.foldl_append]
      exact ih.step ol

/-! ### What is listed -/

section OtherLoad

variable {p : Precision} (cat : Catalogue) (ledger : Ledger p) (launches : Launches) (c : Campaign)

def Catalogue.tenantOf (cat : Catalogue) (executionId : ℤ) : Option ℤ :=
  ((cat.projectOf executionId).bind cat.project).join

def ofReservation (r : Reservation) : OtherLoad :=
  { executionId := r.executionId, startTime := r.startTime, endTime := r.endTime
    engineCount := r.engineCount }

def ofLaunch (l : Launch) : Option OtherLoad :=
  l.ended.map fun endTime =>
    { executionId := l.executionId, startTime := l.started, endTime, engineCount := l.engines }

/-- What the two loops of `otherLoad` merge. -/
def otherLoads : List OtherLoad :=
  ((ledger.inWindow c.tenantId "" c.window.startTime c.window.endTime).filter fun r =>
      r.executionId ∉ c.services.map (·.executionId)).map ofReservation ++
    ((launches.launchHistory c.window.startTime c.window.endTime).filter fun l =>
      l.executionId ∉ c.services.map (·.executionId) ∧
        cat.tenantOf l.executionId = some c.tenantId).filterMap ofLaunch

/-- `otherLoad`. -/
def otherLoad (v : Visit) : List OtherLoad :=
  (v.values ((otherLoads cat ledger launches c).foldl mergeLoad ∅)).insertionSort
    fun x y => x.executionId ≤ y.executionId

/-! ### What there is -/

structure Occupation where
  executionId : ℤ
  startTime : ℤ
  endTime : Option ℤ

def Overlaps (x : Occupation) : Prop :=
  x.startTime < c.window.endTime ∧ ∀ t ∈ x.endTime, c.window.startTime < t

def reach (x : Occupation) : ℤ := x.endTime.getD c.window.endTime

def occupationOf (l : Launch) : Occupation :=
  { executionId := l.executionId, startTime := l.started, endTime := l.ended }

def reserved (r : Reservation) : Occupation :=
  { executionId := r.executionId, startTime := r.startTime, endTime := some r.endTime }

/-- Another execution of the tenant has this reserved, on some cluster, or launched. -/
inductive Occupied : Occupation → Prop
  | ofReservation {r : Reservation} (hr : r ∈ ledger.rows) (htenant : r.tenantId = c.tenantId)
      (hother : ¬c.Designates r.executionId) : Occupied (reserved r)
  | ofLaunch {l : Launch} (hl : l ∈ launches.history)
      (htenant : cat.tenantOf l.executionId = some c.tenantId)
      (hother : ¬c.Designates l.executionId) : Occupied (occupationOf l)

/-- Exactly the other executions of the tenant that were active in the window are listed, each
once, and with an interval that covers all that there is of it. -/
structure OtherLoadComplete (v : Visit) : Prop where
  listed : ∀ executionId,
    (∃ ol ∈ otherLoad cat ledger launches c v, ol.executionId = executionId) ↔
      ∃ x, Occupied cat ledger launches c x ∧ Overlaps c x ∧ x.executionId = executionId
  once : ((otherLoad cat ledger launches c v).map (·.executionId)).Nodup
  covers : ∀ ol ∈ otherLoad cat ledger launches c v, ∀ x, Occupied cat ledger launches c x →
    Overlaps c x → x.executionId = ol.executionId →
      ol.startTime ≤ x.startTime ∧ reach c x ≤ ol.endTime

def Within (l : Launch) : Prop :=
  c.window.startTime ≤ l.started ∧ ∃ t ∈ l.ended, t ≤ c.window.endTime

/-- What is not looked up makes no difference: a reservation on another cluster, and a launch that
is still going on or does not lie within the window, is covered by what else there is of the
execution. And a launch of no length at the edge of the window is not all there is. -/
structure NothingLeftOut : Prop where
  elsewhere : ∀ r ∈ ledger.rows, r.tenantId = c.tenantId → ¬c.Designates r.executionId →
    Overlaps c (reserved r) → r.cluster ≠ "" →
      Between (otherLoads cat ledger launches c) r.executionId r.startTime r.endTime
  notWithin : ∀ l ∈ launches.history, cat.tenantOf l.executionId = some c.tenantId →
    ¬c.Designates l.executionId → Overlaps c (occupationOf l) → ¬Within c l →
      Between (otherLoads cat ledger launches c) l.executionId l.started (reach c (occupationOf l))
  edge : ∀ l ∈ launches.history, cat.tenantOf l.executionId = some c.tenantId →
    ¬c.Designates l.executionId → Within c l → ¬Overlaps c (occupationOf l) →
      ∃ x, Occupied cat ledger launches c x ∧ Overlaps c x ∧ x.executionId = l.executionId

end OtherLoad

section Complete

variable {p : Precision} {cat : Catalogue} {ledger : Ledger p} {launches : Launches} {c : Campaign}
  {v : Visit}

theorem mem_otherLoads {ol : OtherLoad} :
    ol ∈ otherLoads cat ledger launches c ↔
      (∃ r ∈ ledger.rows, r.tenantId = c.tenantId ∧ r.cluster = "" ∧ Overlaps c (reserved r) ∧
        ¬c.Designates r.executionId ∧ ofReservation r = ol) ∨
      ∃ l ∈ launches.history, Within c l ∧ ¬c.Designates l.executionId ∧
        cat.tenantOf l.executionId = some c.tenantId ∧ ofLaunch l = some ol := by
  simp only [otherLoads, List.mem_append, List.mem_map, List.mem_filter, List.mem_filterMap,
    Ledger.inWindow, Launches.launchHistory, decide_eq_true_eq, Campaign.Designates, Overlaps,
    reserved, Within, Option.any_eq_true, Option.mem_def, Option.some.injEq, forall_eq']
  refine or_congr (exists_congr fun r => ?_) (exists_congr fun l => ?_)
  · tauto
  · tauto

theorem mem_otherLoad {ol : OtherLoad} :
    ol ∈ otherLoad cat ledger launches c v ↔
      ((otherLoads cat ledger launches c).foldl mergeLoad ∅)[ol.executionId]? = some ol := by
  rw [otherLoad, List.mem_insertionSort, Visit.values, List.mem_map]
  constructor
  · rintro ⟨⟨k, x⟩, hmem, rfl⟩
    have hget := Visit.mem_list.mp hmem
    rwa [(merged_foldl _).key k x hget]
  · exact fun h => ⟨(ol.executionId, ol), Visit.mem_list.mpr h, rfl⟩

/-- An execution is listed if there is anything to merge of it. -/
theorem exists_otherLoad {executionId : ℤ} :
    (∃ ol ∈ otherLoad cat ledger launches c v, ol.executionId = executionId) ↔
      ∃ x ∈ otherLoads cat ledger launches c, x.executionId = executionId := by
  constructor
  · rintro ⟨ol, hol, rfl⟩
    obtain ⟨⟨x, hx, hid, -⟩, -⟩ := (merged_foldl _).attained _ _ (mem_otherLoad.mp hol)
    exact ⟨x, hx, hid⟩
  · rintro ⟨x, hx, rfl⟩
    obtain ⟨ol, hget, -⟩ := (merged_foldl _).covers x hx
    have hid := (merged_foldl _).key _ _ hget
    exact ⟨ol, mem_otherLoad.mpr (hid ▸ hget), hid⟩

theorem nodup_otherLoad : ((otherLoad cat ledger launches c v).map (·.executionId)).Nodup := by
  have hkeys := v.nodup_keys ((otherLoads cat ledger launches c).foldl mergeLoad ∅)
  have hsame : (v.values ((otherLoads cat ledger launches c).foldl mergeLoad ∅)).map (·.executionId) =
      v.keys ((otherLoads cat ledger launches c).foldl mergeLoad ∅) := by
    rw [Visit.values, Visit.keys, List.map_map]
    exact List.map_congr_left fun q hq => (merged_foldl _).key q.1 q.2 (Visit.mem_list.mp hq)
  exact (((List.perm_insertionSort _ _).map _).nodup_iff).mpr (hsame ▸ hkeys)

/-- The interval that is listed covers just what lies between the loads that are merged. -/
theorem covers_iff {ol : OtherLoad} (hol : ol ∈ otherLoad cat ledger launches c v)
    {startTime endTime : ℤ} :
    ol.startTime ≤ startTime ∧ endTime ≤ ol.endTime ↔
      Between (otherLoads cat ledger launches c) ol.executionId startTime endTime := by
  have hmerged := merged_foldl (otherLoads cat ledger launches c)
  constructor
  · rintro ⟨hstart, hend⟩
    obtain ⟨⟨x, hx, hxid, hxstart⟩, y, hy, hyid, hyend⟩ := hmerged.attained _ _ (mem_otherLoad.mp hol)
    exact ⟨⟨x, hx, hxid, hxstart.trans hstart⟩, y, hy, hyid, hend.trans hyend⟩
  · rintro ⟨⟨x, hx, hxid, hxstart⟩, y, hy, hyid, hyend⟩
    have hget := mem_otherLoad.mp hol
    obtain ⟨x', hx', hle, -⟩ := hmerged.covers x hx
    obtain ⟨y', hy', -, hge⟩ := hmerged.covers y hy
    rw [hxid, hget, Option.some_inj] at hx'
    rw [hyid, hget, Option.some_inj] at hy'
    subst hx'
    subst hy'
    exact ⟨hle.trans hxstart, hyend.trans hge⟩

theorem between_self {ol : OtherLoad} (h : ol ∈ otherLoads cat ledger launches c) :
    Between (otherLoads cat ledger launches c) ol.executionId ol.startTime ol.endTime :=
  ⟨⟨ol, h, rfl, le_rfl⟩, ol, h, rfl, le_rfl⟩

theorem NothingLeftOut.between (h : NothingLeftOut cat ledger launches c) {x : Occupation}
    (hx : Occupied cat ledger launches c x) (hoverlaps : Overlaps c x) :
    Between (otherLoads cat ledger launches c) x.executionId x.startTime (reach c x) := by
  cases hx with
  | @ofReservation r hr htenant hother =>
      by_cases hcluster : r.cluster = ""
      · have hmem : ofReservation r ∈ otherLoads cat ledger launches c :=
          mem_otherLoads.mpr (.inl ⟨r, hr, htenant, hcluster, hoverlaps, hother, rfl⟩)
        exact between_self hmem
      · exact h.elsewhere r hr htenant hother hoverlaps hcluster
  | @ofLaunch l hl htenant hother =>
      by_cases hwithin : Within c l
      · obtain ⟨t, ht, hle⟩ := hwithin.2
        have hmem : ⟨l.executionId, l.started, t, l.engines⟩ ∈ otherLoads cat ledger launches c :=
          mem_otherLoads.mpr (.inr ⟨l, hl, hwithin, hother, htenant, by rw [ofLaunch, ht, Option.map_some]⟩)
        have hreach : reach c (occupationOf l) = t := by rw [reach, occupationOf, ht, Option.getD_some]
        rw [hreach]
        exact between_self hmem
      · exact h.notWithin l hl htenant hother hoverlaps hwithin

/-- `otherLoad` is complete as long as nothing matters that it does not look up. -/
theorem otherLoadComplete_iff (cat : Catalogue) (ledger : Ledger p) (launches : Launches)
    (c : Campaign) (v : Visit) :
    OtherLoadComplete cat ledger launches c v ↔ NothingLeftOut cat ledger launches c := by
  constructor
  · intro h
    have hbetween : ∀ x, Occupied cat ledger launches c x → Overlaps c x →
        Between (otherLoads cat ledger launches c) x.executionId x.startTime (reach c x) := by
      intro x hx hoverlaps
      obtain ⟨ol, hol, hid⟩ := (h.listed x.executionId).mpr ⟨x, hx, hoverlaps, rfl⟩
      exact hid ▸ (covers_iff hol).mp (h.covers ol hol x hx hoverlaps hid.symm)
    refine ⟨fun r hr htenant hother hoverlaps _ => ?_, fun l hl htenant hother hoverlaps _ => ?_,
      fun l hl htenant hother hwithin _ => ?_⟩
    · exact hbetween _ (.ofReservation hr htenant hother) hoverlaps
    · exact hbetween _ (.ofLaunch hl htenant hother) hoverlaps
    · obtain ⟨t, ht, -⟩ := hwithin.2
      refine (h.listed l.executionId).mp (exists_otherLoad.mpr ⟨⟨l.executionId, l.started, t, l.engines⟩,
        mem_otherLoads.mpr (.inr ⟨l, hl, hwithin, hother, htenant, ?_⟩), rfl⟩)
      rw [ofLaunch, ht, Option.map_some]
  · intro h
    refine ⟨fun e => ?_, nodup_otherLoad, fun ol hol x hx hoverlaps hid => ?_⟩
    · rw [exists_otherLoad]
      constructor
      · rintro ⟨ol, hol, rfl⟩
        rcases mem_otherLoads.mp hol with ⟨r, hr, htenant, -, hoverlaps, hother, rfl⟩ |
          ⟨l, hl, hwithin, hother, htenant, hof⟩
        · exact ⟨reserved r, .ofReservation hr htenant hother, hoverlaps, rfl⟩
        · obtain ⟨t, -, rfl⟩ := Option.map_eq_some_iff.mp hof
          by_cases hoverlaps : Overlaps c (occupationOf l)
          · exact ⟨occupationOf l, .ofLaunch hl htenant hother, hoverlaps, rfl⟩
          · exact h.edge l hl htenant hother hwithin hoverlaps
      · rintro ⟨x, hx, hoverlaps, rfl⟩
        obtain ⟨⟨y, hy, hid, -⟩, -⟩ := h.between hx hoverlaps
        exact ⟨y, hy, hid⟩
    · exact (covers_iff hol).mpr (hid ▸ h.between hx hoverlaps)

def elsewhere : Reservation :=
  { id := 1, tenantId := 1, cluster := "eu", engineCount := 1, startTime := 0, endTime := 10 ^ 9
    executionId := 2 }

def oneDesignated : Campaign :=
  { id := 1, name := "c", tenantId := 1, window := ⟨0, 10 ^ 9⟩, services := [⟨1, 1⟩], abortedAt := none }

def oneTenant : Catalogue := ⟨fun _ => some ⟨1, .normal⟩, fun _ => some (some 1)⟩

theorem not_otherLoadComplete_elsewhere :
    ¬OtherLoadComplete oneTenant (Ledger.empty.create elsewhere (by decide) : Ledger .microseconds)
      Launches.none oneDesignated .sorted := by
  intro h
  have hoccupied : Occupied oneTenant
      (Ledger.empty.create elsewhere (by decide) : Ledger .microseconds) Launches.none oneDesignated
      (reserved elsewhere) :=
    .ofReservation (by decide) rfl (by simp [Campaign.Designates, oneDesignated, elsewhere])
  have hoverlaps : Overlaps oneDesignated (reserved elsewhere) :=
    ⟨by decide, by simp [reserved, elsewhere, oneDesignated]⟩
  obtain ⟨ol, hol, -⟩ := (h.listed 2).mpr ⟨_, hoccupied, hoverlaps, rfl⟩
  have hnone : otherLoad oneTenant
      (Ledger.empty.create elsewhere (by decide) : Ledger .microseconds) Launches.none oneDesignated
      .sorted = [] := by decide +kernel
  rw [hnone] at hol
  cases hol

end Complete

end Honryu.Campaigns
