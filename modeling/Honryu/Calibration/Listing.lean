import Honryu.Calibration.Advance
import Honryu.Lib.Sorter
import Honryu.Lib.Text
import Mathlib.Data.Prod.Lex
import Mathlib.Data.String.Basic

/-!
The order in which the capacity profiles are listed.

Profiles of one scenario are compared by their CPU where both can be read, the larger one first,
and otherwise as texts: by their engines, their memory and then their CPU. One that cannot be read
may so stand between two that their CPU puts the other way round, and there is no order then.
-/

namespace Honryu.Calibration

open Sorting

section Listing

-- `MilliValue` of what `resource.ParseQuantity` reads
variable (milliValue : String → Option ℤ)

def cpuMilliPair (a b : String) : Option (ℤ × ℤ) := do
  return (← milliValue a, ← milliValue b)

def textLess (a b : Key) : Bool :=
  if a.engine ≠ b.engine then a.engine.name < b.engine.name
  else if a.memory ≠ b.memory then a.memory < b.memory
  else a.cpu < b.cpu

/-- The comparison of `sortProfiles`. -/
def profileLess (a b : Key) : Bool :=
  if a.scenarioId ≠ b.scenarioId then a.scenarioId < b.scenarioId
  else
    match cpuMilliPair milliValue a.cpu b.cpu with
    | some (av, bv) => if av ≠ bv then bv < av else textLess a b
    | none => textLess a b

def sortProfiles (s : Sorter CapacityProfile) (profiles : List CapacityProfile) :
    List CapacityProfile :=
  s.sort (fun a b => profileLess milliValue a.key b.key) profiles

/-! ### What the comparison says -/

def Key.text (k : Key) : String ×ₗ String ×ₗ String :=
  toLex (k.engine.name, toLex (k.memory, k.cpu))

theorem textLess_iff (a b : Key) : textLess a b = true ↔ a.text < b.text := by
  have hengine (e e' : Taurus.Executor) : e = e' ↔ e.name = e'.name := by
    cases e; cases e'; simp
  simp only [textLess, Key.text, Prod.Lex.toLex_lt_toLex, hengine, ne_eq]
  split
  · simp_all
  · split <;> simp_all

def Ahead (a b : Key) : Prop := ∃ av ∈ milliValue a.cpu, ∃ bv ∈ milliValue b.cpu, bv < av

/-- A profile whose CPU cannot be read stands, as a text, between two of its scenario that their
CPUs put the other way round. -/
structure Between (p q u : Key) : Prop where
  left : p.scenarioId = u.scenarioId
  right : q.scenarioId = u.scenarioId
  ahead : Ahead milliValue p q
  unread : milliValue u.cpu = none
  text_left : q.text < u.text
  text_right : u.text < p.text

variable {milliValue} {a b c : Key}

theorem profileLess_iff (h : a.scenarioId = b.scenarioId) :
    profileLess milliValue a b = true ↔
      Ahead milliValue a b ∨ ¬Ahead milliValue b a ∧ a.text < b.text := by
  rw [profileLess, if_neg (not_not.mpr h), cpuMilliPair, Ahead, Ahead, ← textLess_iff]
  cases ha : milliValue a.cpu with
  | none => simp
  | some av =>
      cases hb : milliValue b.cpu with
      | none => simp
      | some bv =>
          by_cases hne : av = bv
          · simp [hne]
          · rcases lt_or_gt_of_ne hne with hlt | hlt <;> simp [hne, hlt, hlt.not_gt]

theorem profileLess_of_ne (h : a.scenarioId ≠ b.scenarioId) :
    profileLess milliValue a b = true ↔ a.scenarioId < b.scenarioId := by
  simp [profileLess, h]

theorem scenarioId_le (h : profileLess milliValue a b = true) : a.scenarioId ≤ b.scenarioId := by
  by_cases hne : a.scenarioId = b.scenarioId
  · exact hne.le
  · exact ((profileLess_of_ne hne).mp h).le

/-- A profile that can be read and one that cannot differ in their texts. -/
theorem text_ne (ha : milliValue a.cpu = none) (hb : milliValue b.cpu ≠ none) :
    a.text ≠ b.text := by
  intro htext
  have hcpu : a.cpu = b.cpu := congrArg (fun t => (ofLex (ofLex t).2).2) htext
  exact hb (hcpu ▸ ha)

theorem not_ahead_of_left (ha : milliValue a.cpu = none) : ¬Ahead milliValue a b := by
  rintro ⟨av, hav, -⟩
  cases ha.symm.trans hav

theorem not_ahead_of_right (hb : milliValue b.cpu = none) : ¬Ahead milliValue a b := by
  rintro ⟨-, -, bv, hbv, -⟩
  cases hb.symm.trans hbv

theorem Ahead.left_ne_none (h : Ahead milliValue a b) : milliValue a.cpu ≠ none :=
  fun ha => not_ahead_of_left ha h

theorem Ahead.right_ne_none (h : Ahead milliValue a b) : milliValue b.cpu ≠ none :=
  fun hb => not_ahead_of_right hb h

theorem profileLess_trans (hab : profileLess milliValue a b = true)
    (hbc : profileLess milliValue b c = true) (ha : ¬Between milliValue b c a)
    (hb : ¬Between milliValue c a b) (hc : ¬Between milliValue a b c) :
    profileLess milliValue a c = true := by
  have hle := scenarioId_le hab
  have hle' := scenarioId_le hbc
  by_cases hsac : a.scenarioId = c.scenarioId
  case neg => exact (profileLess_of_ne hsac).mpr (by omega)
  have hsab : a.scenarioId = b.scenarioId := by omega
  have hsbc : b.scenarioId = c.scenarioId := by omega
  rw [profileLess_iff hsab] at hab
  rw [profileLess_iff hsbc] at hbc
  rw [profileLess_iff hsac]
  -- where one of the three cannot be read, it is compared with the others as a text
  by_cases hmb : milliValue b.cpu = none
  · have hab := (hab.resolve_left (not_ahead_of_right hmb)).2
    have hbc := (hbc.resolve_left (not_ahead_of_left hmb)).2
    exact .inr ⟨fun hca => hb ⟨hsbc.symm, hsab, hca, hmb, hab, hbc⟩, hab.trans hbc⟩
  by_cases hma : milliValue a.cpu = none
  · have hab := (hab.resolve_left (not_ahead_of_left hma)).2
    refine .inr ⟨not_ahead_of_right hma, ?_⟩
    rcases hbc with hbc | hbc
    · refine lt_of_le_of_ne (not_lt.mp fun hca => ?_) (text_ne hma hbc.right_ne_none)
      exact ha ⟨hsab.symm, hsac.symm, hbc, hma, hca, hab⟩
    · exact hab.trans hbc.2
  by_cases hmc : milliValue c.cpu = none
  · have hbc := (hbc.resolve_left (not_ahead_of_right hmc)).2
    refine .inr ⟨not_ahead_of_left hmc, ?_⟩
    rcases hab with hab | hab
    · refine lt_of_le_of_ne (not_lt.mp fun hca => ?_) (text_ne hmc hab.left_ne_none).symm
      exact hc ⟨hsac, hsbc, hab, hmc, hbc, hca⟩
    · exact hab.2.trans hbc
  obtain ⟨av, hav⟩ := Option.ne_none_iff_exists'.mp hma
  obtain ⟨bv, hbv⟩ := Option.ne_none_iff_exists'.mp hmb
  obtain ⟨cv, hcv⟩ := Option.ne_none_iff_exists'.mp hmc
  simp only [Ahead, hav, hbv, hcv, Option.mem_def, Option.some.injEq, exists_eq_left', not_lt] at *
  rcases hab with hab | ⟨hab, htab⟩ <;> rcases hbc with hbc | ⟨hbc, htbc⟩
  · exact .inl (by omega)
  · exact .inl (by omega)
  · exact .inl (by omega)
  · exact .inr ⟨by omega, htab.trans htbc⟩

theorem eq_of_not_profileLess (hab : profileLess milliValue a b = false)
    (hba : profileLess milliValue b a = false) : a = b := by
  rw [← Bool.not_eq_true] at hab hba
  by_cases hs : a.scenarioId = b.scenarioId
  · rw [profileLess_iff hs] at hab
    rw [profileLess_iff hs.symm] at hba
    have htext : a.text = b.text := by
      refine le_antisymm (not_lt.mp fun h => ?_) (not_lt.mp fun h => ?_)
      · exact hba (.inr ⟨fun h' => hab (.inl h'), h⟩)
      · exact hab (.inr ⟨fun h' => hba (.inl h'), h⟩)
    obtain ⟨_, ⟨_⟩, _, _⟩ := a
    obtain ⟨_, ⟨_⟩, _, _⟩ := b
    simp_all [Key.text]
  · rw [profileLess_of_ne hs] at hab
    rw [profileLess_of_ne (Ne.symm hs)] at hba
    omega

/-! ### When the listing is the same for every order -/

variable (milliValue) in
/-- The comparison is a strict weak order on the profiles, and they are listed in the same way in
whatever order they come. -/
structure Consistent (s : Sorter CapacityProfile) (profiles : List CapacityProfile) : Prop where
  order : StrictWeak (fun a b => profileLess milliValue a.key b.key) profiles
  listing : ∀ profiles', profiles'.Perm profiles →
    sortProfiles milliValue s profiles' = sortProfiles milliValue s profiles

/-- The listing is consistent if and only if no profile that cannot be read stands between two that
their CPUs put the other way round. -/
theorem consistent_iff (s : Sorter CapacityProfile) {profiles : List CapacityProfile}
    (hkeys : (profiles.map (·.key)).Nodup) :
    Consistent milliValue s profiles ↔
      ∀ p ∈ profiles, ∀ q ∈ profiles, ∀ u ∈ profiles,
        ¬Between milliValue p.key q.key u.key := by
  constructor
  · rintro ⟨horder, -⟩ p hp q hq u hu hbetween
    have hpq : profileLess milliValue p.key q.key = true :=
      (profileLess_iff (hbetween.left.trans hbetween.right.symm)).mpr
        (.inl hbetween.ahead)
    have hqu : profileLess milliValue q.key u.key = true :=
      (profileLess_iff hbetween.right).mpr
        (.inr ⟨not_ahead_of_left hbetween.unread, hbetween.text_left⟩)
    have hup : profileLess milliValue u.key p.key = true :=
      (profileLess_iff hbetween.left.symm).mpr
        (.inr ⟨not_ahead_of_right hbetween.unread, hbetween.text_right⟩)
    cases (horder.asymm hu hp hup).symm.trans (horder.trans p hp q hq u hu hpq hqu)
  · intro hnone
    have htells : ∀ a ∈ profiles, ∀ b ∈ profiles, profileLess milliValue a.key b.key = false →
        profileLess milliValue b.key a.key = false → a = b := fun a ha b hb hab hba =>
      List.inj_on_of_nodup_map hkeys ha hb (eq_of_not_profileLess hab hba)
    have horder : StrictWeak (fun a b => profileLess milliValue a.key b.key) profiles := by
      refine ⟨fun a ha => ?_, fun a ha b hb c hc hab hbc => ?_,
        fun a ha b hb c hc hab hba hbc hcb => ?_⟩
      · rw [← Bool.not_eq_true, profileLess_iff rfl]
        rintro (⟨av, hav, bv, hbv, hlt⟩ | hlt)
        · exact hlt.ne (Option.mem_unique hbv hav)
        · exact lt_irrefl _ hlt.2
      · exact profileLess_trans hab hbc (hnone b hb c hc a ha) (hnone c hc a ha b hb)
          (hnone a ha b hb c hc)
      · obtain rfl := htells a ha b hb hab hba
        exact ⟨hbc, hcb⟩
    exact ⟨horder, fun profiles' hp => s.sort_eq_of_perm horder htells hp⟩

end Listing

/-! ### Three profiles -/

def wholeMilliValue (cpu : String) : Option ℤ :=
  match cpu.toList.reverse with
  | 'm' :: digits => (Text.digits? digits.reverse).map fun n => (n : ℤ)
  | digits => (Text.digits? digits.reverse).map fun n => 1000 * (n : ℤ)

def sampleProfile (engine cpu : String) : CapacityProfile where
  key := ⟨1, ⟨engine⟩, cpu, "512Mi"⟩
  perPodQPS := 100
  saturatedBy := .engine
  scenarioFingerprint := ""
  calibratedAt := 0
  jobId := 1

theorem consistent_readable :
    Consistent wholeMilliValue insertion
      [sampleProfile "locust" "2", sampleProfile "gatling" "500m"] := by
  refine (consistent_iff insertion (by decide)).mpr fun p _ q _ u hu hbetween => ?_
  have hread : ∀ u ∈ [sampleProfile "locust" "2", sampleProfile "gatling" "500m"],
      wholeMilliValue u.key.cpu ≠ none := by decide +kernel
  exact hread u hu hbetween.unread

/-- Two cores come before a half, the half before what cannot be read, and that before two cores. -/
theorem not_consistent_unread :
    let profiles :=
      [sampleProfile "locust" "2", sampleProfile "gatling" "500m", sampleProfile "jmeter" "small"]
    (profiles.map (·.key)).Nodup ∧ ¬Consistent wholeMilliValue insertion profiles ∧
      ¬StrictWeak (fun a b => profileLess wholeMilliValue a.key b.key) profiles ∧
        sortProfiles wholeMilliValue insertion profiles ≠
          sortProfiles wholeMilliValue insertion (profiles.rotate 1) := by
  intro profiles
  have horder : ¬StrictWeak (fun a b => profileLess wholeMilliValue a.key b.key) profiles := by
    intro h
    have hlocust : profiles[0] ∈ profiles := List.getElem_mem _
    have hgatling : profiles[1] ∈ profiles := List.getElem_mem _
    have hjmeter : profiles[2] ∈ profiles := List.getElem_mem _
    have htrans := h.trans _ hlocust _ hgatling _ hjmeter (by decide +kernel) (by decide +kernel)
    cases (h.asymm hjmeter hlocust (by decide +kernel)).symm.trans htrans
  exact ⟨by decide, fun h => horder h.order, horder, by decide +kernel⟩

end Honryu.Calibration
