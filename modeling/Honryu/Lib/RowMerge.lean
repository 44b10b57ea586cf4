import Honryu.Lib.TallyMap

/-!
Merging a batch into the rows of a table.

A column a database cannot add up by itself is merged by the program: the rows
a batch touches are opened with an insert that leaves existing rows alone,
read under lock, merged, and written back with a second insert that updates on
a duplicate key. `RowMerge.run` is that sequence of statements. The database
finds a row by its primary key; the program finds what it read in a map of its
own, by the name the row carries. The two are different functions here,
because they need not tell the same rows apart.
-/

namespace TallyMap

variable {K R D : Type*} [LinearOrder K]

/-! ### Inserting or updating -/

/-- `INSERT ... ON DUPLICATE KEY UPDATE` of one row. -/
def upsert (t : TallyMap K R) (k : K) (ins : R) (upd : R → R) : TallyMap K R :=
  t.insert k ((t[k]?).elim ins upd)

theorem getElem?_upsert (t : TallyMap K R) (k k' : K) (ins : R) (upd : R → R) :
    (t.upsert k ins upd)[k']? =
      if k = k' then some ((t[k]?).elim ins upd) else t[k']? :=
  getElem?_insert_eq_ite t k k' _

/-- `UPDATE ... WHERE key = ?`. -/
def updateRow (t : TallyMap K R) (k : K) (f : R → R) : TallyMap K R :=
  (t[k]?).elim t fun r => t.insert k (f r)

theorem updateRow_insert (t : TallyMap K R) (k : K) (r : R) (f : R → R) :
    updateRow (t.insert k r) k f = t.insert k (f r) := by
  have hrow : (t.insert k r)[k]? = some r := by rw [getElem?_insert_eq_ite, if_pos rfl]
  rw [updateRow, hrow]
  refine ext_getElem? fun k' => ?_
  simp only [Option.elim_some, getElem?_insert_eq_ite]
  split <;> rfl

def upsertAll (key : D → K) (ins : D → R) (upd : D → R → R) (t : TallyMap K R)
    (ds : List D) : TallyMap K R :=
  ds.foldl (fun t d => t.upsert (key d) (ins d) (upd d)) t

variable {key : D → K} {ins : D → R} {upd : D → R → R}

@[simp] theorem upsertAll_nil (t : TallyMap K R) : upsertAll key ins upd t [] = t := rfl

@[simp] theorem upsertAll_cons (t : TallyMap K R) (d : D) (ds : List D) :
    upsertAll key ins upd t (d :: ds) =
      upsertAll key ins upd (t.upsert (key d) (ins d) (upd d)) ds := rfl

theorem getElem?_upsertAll (t : TallyMap K R) (ds : List D) (k : K) :
    (upsertAll key ins upd t ds)[k]? =
      (ds.filter fun d => key d = k).foldl (fun o d => some (o.elim (ins d) (upd d))) t[k]? := by
  induction ds generalizing t with
  | nil => rfl
  | cons d ds ih =>
      rw [upsertAll_cons, ih, getElem?_upsert]
      by_cases h : key d = k
      · rw [if_pos h, List.filter_cons_of_pos (by simpa using h), List.foldl_cons, ← h]
      · rw [if_neg h, List.filter_cons_of_neg (by simpa using h)]

theorem getElem?_upsertAll_of_notMem (t : TallyMap K R) {ds : List D} {k : K}
    (h : k ∉ ds.map key) : (upsertAll key ins upd t ds)[k]? = t[k]? := by
  have hnone : (ds.filter fun d => key d = k) = [] := by
    simpa [List.filter_eq_nil_iff] using h
  rw [getElem?_upsertAll, hnone, List.foldl_nil]

theorem getElem?_upsertAll_of_mem (t : TallyMap K R) {ds : List D} {d : D}
    (hkeys : (ds.map key).Nodup) (hd : d ∈ ds) :
    (upsertAll key ins upd t ds)[key d]? = some ((t[key d]?).elim (ins d) (upd d)) := by
  induction ds generalizing t with
  | nil => simp at hd
  | cons e ds ih =>
      rw [List.map_cons, List.nodup_cons] at hkeys
      rw [upsertAll_cons]
      rcases List.mem_cons.mp hd with rfl | hd
      · rw [getElem?_upsertAll_of_notMem _ hkeys.1, getElem?_upsert, if_pos rfl]
      · have hne : key e ≠ key d := fun h => hkeys.1 (h ▸ List.mem_map_of_mem hd)
        rw [ih _ hkeys.2 hd, getElem?_upsert, if_neg hne]

theorem forall_upsertAll {P : K → R → Prop} {t : TallyMap K R} (ds : List D)
    (ht : ∀ k r, t[k]? = some r → P k r) (hins : ∀ d, P (key d) (ins d))
    (hupd : ∀ d r, P (key d) r → P (key d) (upd d r)) :
    ∀ k r, (upsertAll key ins upd t ds)[k]? = some r → P k r := by
  induction ds generalizing t with
  | nil => exact ht
  | cons d ds ih =>
      refine ih fun k r hr => ?_
      rw [getElem?_upsert] at hr
      split at hr
      case isTrue h =>
        subst h
        rw [Option.some_inj] at hr
        subst hr
        cases hrow : t[key d]? with
        | none => exact hins d
        | some r => exact hupd d r (ht _ _ hrow)
      case isFalse => exact ht k r hr

theorem mapValues_eq_add_sum {V : Type*} [AddCommMonoid V] {t t' : TallyMap K R} {ds : List D}
    (hkeys : (ds.map key).Nodup) (view : R → V) (delta : D → V)
    (hout : ∀ k, k ∉ ds.map key → t'[k]? = t[k]?)
    (hin : ∀ d ∈ ds, (t'[key d]?).map view = (t[key d]?).map view + some (delta d)) :
    t'.mapValues view =
      t.mapValues view + (ds.map fun d => single (key d) (delta d)).sum := by
  have hsum : (ds.map fun d => single (key d) (delta d)).sum =
      ((ds.map fun d => (key d, delta d)).map fun p => single p.1 p.2).sum := by
    rw [List.map_map]
    rfl
  have hnodup : ((ds.map fun d => (key d, delta d)).map Prod.fst).Nodup := by
    rw [List.map_map]
    exact hkeys
  refine ext_getElem? fun k => ?_
  rw [hsum, getElem?_add, getElem?_sum_single, getElem?_mapValues, getElem?_mapValues]
  by_cases hk : k ∈ ds.map key
  · obtain ⟨d, hd, rfl⟩ := List.mem_map.mp hk
    rw [hin d hd, total_eq_some hnodup (List.mem_map.mpr ⟨d, hd, rfl⟩)]
  · rw [hout k hk, total_eq_none, Option.add_none]
    intro v hv
    obtain ⟨d, hd, heq⟩ := List.mem_map.mp hv
    exact hk (List.mem_map.mpr ⟨d, hd, (Prod.ext_iff.mp heq).1⟩)

theorem mapValues_upsertAll {V : Type*} [AddCommMonoid V] (t : TallyMap K R) {ds : List D}
    (hkeys : (ds.map key).Nodup) (view : R → V) (delta : D → V)
    (hins : ∀ d ∈ ds, view (ins d) = delta d)
    (hupd : ∀ d ∈ ds, ∀ r, view (upd d r) = view r + delta d) :
    (upsertAll key ins upd t ds).mapValues view =
      t.mapValues view + (ds.map fun d => single (key d) (delta d)).sum := by
  refine mapValues_eq_add_sum hkeys view delta (fun k hk => ?_) fun d hd => ?_
  · exact getElem?_upsertAll_of_notMem t hk
  · rw [getElem?_upsertAll_of_mem t hkeys hd]
    cases t[key d]? with
    | none => simp [hins d hd]
    | some r => simp [hupd d hd]

/-! ### Reading the rows of a list of keys -/

/-- `SELECT ... WHERE key IN (...)`, in key order. -/
def selectIn (t : TallyMap K R) (ks : List K) : List (K × R) :=
  t.toList.filter fun p => p.1 ∈ ks

theorem mem_selectIn {t : TallyMap K R} {ks : List K} {k : K} {r : R} :
    (k, r) ∈ t.selectIn ks ↔ t[k]? = some r ∧ k ∈ ks := by
  simp [selectIn]

end TallyMap

/-! ### Opening, reading, merging and writing back -/

/-- How a batch of `D` is merged into rows `R`. -/
structure RowMerge (K N R D : Type*) where
  /-- the primary key a row is found under -/
  key : D → K
  /-- the name the program looks up what it read under -/
  name : D → N
  /-- the name a row that was read is kept under -/
  rowName : K → R → N
  /-- the row the opening insert writes -/
  blank : D → R
  /-- the row the writing insert writes, from the row that was read -/
  fresh : Option R → D → R
  /-- what the writing insert does to an existing row -/
  update : Option R → D → R → R

namespace RowMerge

variable {K N R D V : Type*} [LinearOrder K] [LinearOrder N]

def opened (M : RowMerge K N R D) (t : TallyMap K R) (ds : List D) : TallyMap K R :=
  TallyMap.upsertAll M.key M.blank (fun _ => id) t ds

def stored (M : RowMerge K N R D) (t : TallyMap K R) (ds : List D) : TallyMap N R :=
  (t.selectIn (ds.map M.key)).foldl (fun m p => m.insert (M.rowName p.1 p.2) p.2) ∅

def write (M : RowMerge K N R D) (t : TallyMap K R) (ds : List D) : TallyMap K R :=
  let stored := M.stored t ds
  TallyMap.upsertAll M.key (fun d => M.fresh stored[M.name d]? d)
    (fun d => M.update stored[M.name d]? d) t ds

def writeFrom (M : RowMerge K N R D) (stored : TallyMap N R) (t : TallyMap K R) (ds : List D) :
    TallyMap K R :=
  TallyMap.upsertAll M.key (fun d => M.fresh stored[M.name d]? d)
    (fun d => M.update stored[M.name d]? d) t ds

def run (M : RowMerge K N R D) (t : TallyMap K R) (ds : List D) : TallyMap K R :=
  M.write (M.opened t ds) ds

@[simp] theorem run_nil (M : RowMerge K N R D) (t : TallyMap K R) : M.run t [] = t := rfl

theorem getElem?_write_of_notMem (M : RowMerge K N R D) (t : TallyMap K R) {ds : List D} {k : K}
    (h : k ∉ ds.map M.key) : (M.write t ds)[k]? = t[k]? :=
  TallyMap.getElem?_upsertAll_of_notMem t h

theorem getElem?_run_of_notMem (M : RowMerge K N R D) (t : TallyMap K R) {ds : List D} {k : K}
    (h : k ∉ ds.map M.key) : (M.run t ds)[k]? = t[k]? := by
  rw [run, getElem?_write_of_notMem _ _ h, opened, TallyMap.getElem?_upsertAll_of_notMem _ h]

omit [LinearOrder N] in
theorem forall_opened (M : RowMerge K N R D) {P : K → R → Prop} {t : TallyMap K R} (ds : List D)
    (ht : ∀ k r, t[k]? = some r → P k r) (hblank : ∀ d, P (M.key d) (M.blank d)) :
    ∀ k r, (M.opened t ds)[k]? = some r → P k r :=
  TallyMap.forall_upsertAll ds ht hblank fun _ _ h => h

theorem forall_writeFrom (M : RowMerge K N R D) {P : K → R → Prop} {t : TallyMap K R}
    (stored : TallyMap N R) (ds : List D) (ht : ∀ k r, t[k]? = some r → P k r)
    (hfresh : ∀ o d, P (M.key d) (M.fresh o d))
    (hupdate : ∀ o d r, P (M.key d) r → P (M.key d) (M.update o d r)) :
    ∀ k r, (M.writeFrom stored t ds)[k]? = some r → P k r :=
  TallyMap.forall_upsertAll ds ht (fun d => hfresh _ d) fun d r h => hupdate _ d r h

theorem forall_run (M : RowMerge K N R D) {P : K → R → Prop} {t : TallyMap K R} (ds : List D)
    (ht : ∀ k r, t[k]? = some r → P k r) (hblank : ∀ d, P (M.key d) (M.blank d))
    (hfresh : ∀ o d, P (M.key d) (M.fresh o d))
    (hupdate : ∀ o d r, P (M.key d) r → P (M.key d) (M.update o d r)) :
    ∀ k r, (M.run t ds)[k]? = some r → P k r :=
  M.forall_writeFrom _ ds (M.forall_opened ds ht hblank) hfresh hupdate

/-- What the program finds under a name, if a row's name determines its key:
the row of that key, provided it carries that name. -/
theorem getElem?_stored_eq (M : RowMerge K N R D) {t : TallyMap K R} {ds : List D}
    (keyOf : N → K) (ht : ∀ k r, t[k]? = some r → keyOf (M.rowName k r) = k) {n : N}
    (hn : keyOf n ∈ ds.map M.key) :
    (M.stored t ds)[n]? = (t[keyOf n]?).filter fun r => M.rowName (keyOf n) r = n := by
  have hfold : M.stored t ds =
      TallyMap.upsertAll (fun p => M.rowName p.1 p.2) Prod.snd (fun p _ => p.2) ∅
        (t.selectIn (ds.map M.key)) := by
    refine List.foldl_ext _ _ _ fun m p _ => ?_
    rw [TallyMap.upsert]
    cases m[M.rowName p.1 p.2]? <;> rfl
  have hkey : ∀ p ∈ t.selectIn (ds.map M.key), keyOf (M.rowName p.1 p.2) = p.1 :=
    fun p hp => ht p.1 p.2 (TallyMap.mem_selectIn.mp hp).1
  have hnodup : ((t.selectIn (ds.map M.key)).map fun p => M.rowName p.1 p.2).Nodup := by
    have hkeys : (t.selectIn (ds.map M.key)).map (keyOf ∘ fun p => M.rowName p.1 p.2) =
        (t.selectIn (ds.map M.key)).map Prod.fst := List.map_congr_left hkey
    refine List.Nodup.of_map keyOf ?_
    rw [List.map_map, hkeys]
    exact t.nodup_toList.sublist (List.filter_sublist.map _)
  rw [hfold]
  -- at most one row that was read carries the name: the one under its key
  by_cases hrow : ∃ r, t[keyOf n]? = some r ∧ M.rowName (keyOf n) r = n
  · obtain ⟨r, hr, hname⟩ := hrow
    have hmem := TallyMap.mem_selectIn.mpr ⟨hr, hn⟩
    have hget : (TallyMap.upsertAll (fun p => M.rowName p.1 p.2) Prod.snd (fun p _ => p.2)
        (∅ : TallyMap N R) (t.selectIn (ds.map M.key)))[M.rowName (keyOf n) r]? = _ :=
      TallyMap.getElem?_upsertAll_of_mem ∅ hnodup hmem
    rw [hname] at hget
    rw [hget, hr, Option.filter_some]
    cases (∅ : TallyMap N R)[n]? <;> simp [hname]
  · rw [TallyMap.getElem?_upsertAll_of_notMem]
    · cases hr : t[keyOf n]? with
      | none => simp
      | some r =>
          have hname : M.rowName (keyOf n) r ≠ n := fun h => hrow ⟨r, hr, h⟩
          simp [Option.filter_some, hname]
    · intro hmem
      obtain ⟨p, hp, rfl⟩ := List.mem_map.mp hmem
      rw [hkey p hp] at hrow
      exact hrow ⟨p.2, (TallyMap.mem_selectIn.mp hp).1, rfl⟩

/-! ### When the program and the database tell the same rows apart -/

section Exact

variable {M : RowMerge K K R D} {t : TallyMap K R} {ds : List D}

def Named (M : RowMerge K K R D) (t : TallyMap K R) : Prop :=
  ∀ k r, t[k]? = some r → M.rowName k r = k

/-- The program names a row by its primary key. -/
structure Exact (M : RowMerge K K R D) : Prop where
  name_eq : ∀ d, M.name d = M.key d
  rowName_blank : ∀ d, M.rowName (M.key d) (M.blank d) = M.key d

theorem getElem?_opened (t : TallyMap K R) {d : D} (hkeys : (ds.map M.key).Nodup)
    (hd : d ∈ ds) : (M.opened t ds)[M.key d]? = some ((t[M.key d]?).getD (M.blank d)) := by
  rw [opened, TallyMap.getElem?_upsertAll_of_mem t hkeys hd]
  cases t[M.key d]? <;> rfl

theorem named_opened (hM : M.Exact) (ht : M.Named t) : M.Named (M.opened t ds) :=
  TallyMap.forall_upsertAll (P := fun k r => M.rowName k r = k) ds ht hM.rowName_blank
    fun _ _ h => h

theorem getElem?_stored (ht : M.Named t) {k : K} {r : R} (hr : t[k]? = some r)
    (hk : k ∈ ds.map M.key) : (M.stored t ds)[k]? = some r := by
  rw [getElem?_stored_eq M id ht hk, id, hr, Option.filter_some]
  simp [ht k r hr]

theorem getElem?_write_of_mem (hM : M.Exact) (ht : M.Named t) (hkeys : (ds.map M.key).Nodup)
    {d : D} (hd : d ∈ ds) {r : R} (hr : t[M.key d]? = some r) :
    (M.write t ds)[M.key d]? = some (M.update (some r) d r) := by
  have hread := getElem?_stored ht hr (List.mem_map_of_mem hd)
  rw [write, TallyMap.getElem?_upsertAll_of_mem t hkeys hd, hr, hM.name_eq, hread,
    Option.elim_some]

theorem getElem?_run_of_mem (hM : M.Exact) (ht : M.Named t) (hkeys : (ds.map M.key).Nodup)
    {d : D} (hd : d ∈ ds) :
    (M.run t ds)[M.key d]? =
      some (M.update (some ((t[M.key d]?).getD (M.blank d))) d
        ((t[M.key d]?).getD (M.blank d))) :=
  getElem?_write_of_mem hM (named_opened hM ht) hkeys hd (getElem?_opened t hkeys hd)

/-- If merging a row adds to what is seen of it, writing the rows back adds to
what is seen of the table. -/
theorem mapValues_write [AddCommMonoid V] (hM : M.Exact) (ht : M.Named t)
    (hkeys : (ds.map M.key).Nodup) (view : R → V) (delta : D → V)
    (hrow : ∀ d ∈ ds, ∃ r, t[M.key d]? = some r ∧
      view (M.update (some r) d r) = view r + delta d) :
    (M.write t ds).mapValues view =
      t.mapValues view + (ds.map fun d => TallyMap.single (M.key d) (delta d)).sum := by
  refine TallyMap.mapValues_eq_add_sum hkeys view delta (fun k hk => ?_) fun d hd => ?_
  · exact getElem?_write_of_notMem M t hk
  · obtain ⟨r, hr, hadd⟩ := hrow d hd
    rw [getElem?_write_of_mem hM ht hkeys hd hr, hr, Option.map_some, Option.map_some, hadd,
      Option.some_add_some]

/-- The same of the whole merge, a blank row showing nothing. -/
theorem mapValues_run [AddCommMonoid V] (hM : M.Exact) (ht : M.Named t)
    (hkeys : (ds.map M.key).Nodup) (view : R → V) (delta : D → V)
    (hblank : ∀ d ∈ ds, view (M.blank d) = 0)
    (hadd : ∀ d ∈ ds, ∀ r, r = M.blank d ∨ t[M.key d]? = some r →
      view (M.update (some r) d r) = view r + delta d) :
    (M.run t ds).mapValues view =
      t.mapValues view + (ds.map fun d => TallyMap.single (M.key d) (delta d)).sum := by
  refine TallyMap.mapValues_eq_add_sum hkeys view delta (fun k hk => ?_) fun d hd => ?_
  · exact getElem?_run_of_notMem M t hk
  · rw [getElem?_run_of_mem hM ht hkeys hd]
    cases hrow : t[M.key d]? with
    | none => simp [hadd d hd _ (.inl rfl), hblank d hd]
    | some r => simp [hadd d hd _ (.inr hrow)]

end Exact

end RowMerge
