import Honryu.Compile.Compile
import Honryu.Lib.Text

/-!
What the requests of a compiled scenario send, and what they are called.

The headers of the execution replace those of the scenario, name by name as they are written. A
request's own headers are left alone, and so is a header of the scenario whose name differs in the
case of a letter. The label of a request is made from its URL, of which only letters and digits are
left, and does not depend on its method.
-/

namespace Honryu.Compile

section Compiled

variable {runes : Runes} {si : ScenarioInput} {headers : TallyMap String String}
  {ts : Taurus.Scenario}

theorem compileScenario_portable (hkind : si.scenario.kind = .portable)
    (h : compileScenario runes si headers = .ok ts) :
    ts.headers = headers.toList.foldl (fun m h => m.insert h.1 h.2) si.headers ∧
      ts.requests = si.requests.zipIdx.map fun (r, i) =>
        if r.label = "" then { r with label := runes.requestLabel si.scenario r i } else r := by
  rw [compileScenario, if_neg (by rw [hkind]; nofun), Checked.guard_eq_ok] at h
  cases h.2
  exact ⟨rfl, rfl⟩

/-! ### Headers -/

/-- Of entries with different keys that are put into a map, all are there, over what was there
before. -/
theorem getElem?_foldl_insert {l : List (String × String)} (hl : (l.map Prod.fst).Nodup)
    (m : TallyMap String String) (name value : String) :
    (l.foldl (fun m h => m.insert h.1 h.2) m)[name]? = some value ↔
      (name, value) ∈ l ∨ (∀ v, (name, v) ∉ l) ∧ m[name]? = some value := by
  induction l generalizing m with
  | nil => simp
  | cons x l ih =>
      rw [List.map_cons, List.nodup_cons] at hl
      rw [List.foldl_cons, ih hl.2, TallyMap.getElem?_insert_eq_ite]
      by_cases hx : x.1 = name
      · have hnone : ∀ v, (name, v) ∉ l := fun v hv => hl.1 (hx ▸ List.mem_map_of_mem hv)
        rw [if_pos hx, ← hx] at *
        simp [hnone, Prod.ext_iff, eq_comm]
      · have hother : ∀ v, (name, v) ≠ x := fun v hv => hx (congrArg Prod.fst hv).symm
        simp [hx, hother]

/-- The headers of the execution lie over those of the scenario. -/
theorem header_compileScenario (hkind : si.scenario.kind = .portable)
    (h : compileScenario runes si headers = .ok ts) (name value : String) :
    ts.headers[name]? = some value ↔
      headers[name]? = some value ∨ headers[name]? = none ∧ si.headers[name]? = some value := by
  rw [(compileScenario_portable hkind h).1, getElem?_foldl_insert headers.nodup_toList,
    TallyMap.mem_toList_iff]
  simp only [TallyMap.mem_toList_iff, ← Option.eq_none_iff_forall_ne_some]

theorem headers_requests (hkind : si.scenario.kind = .portable)
    (h : compileScenario runes si headers = .ok ts) :
    ts.requests.map (·.headers) = si.requests.map (·.headers) := by
  have hsame : ∀ x : Taurus.Request × ℕ,
      (if x.1.label = "" then { x.1 with label := runes.requestLabel si.scenario x.1 x.2 }
        else x.1).headers = x.1.headers := by
    intro x
    split <;> rfl
  rw [(compileScenario_portable hkind h).2, List.map_map]
  calc si.requests.zipIdx.map _ = si.requests.zipIdx.map fun x => x.1.headers :=
        List.map_congr_left fun x _ => hsame x
    _ = (si.requests.zipIdx.map Prod.fst).map (·.headers) := by rw [List.map_map]; rfl
    _ = si.requests.map (·.headers) := by rw [List.zipIdx_map_fst]

end Compiled

/-- A request of a scenario sends a header: one of its own, or one of the scenario that it does not
override. -/
def Sends (ts : Taurus.Scenario) (own : TallyMap String String) (name value : String) : Prop :=
  own[name]? = some value ∨ own[name]? = none ∧ ts.headers[name]? = some value

def SameName (a b : String) : Prop := Text.toLower a = Text.toLower b

def Agrees (telemetry : TallyMap String String) (name value : String) : Prop :=
  (∃ t v, telemetry[t]? = some v ∧ SameName t name) →
    ∃ t, telemetry[t]? = some value ∧ SameName t name

def TelemetryWins (ts : Taurus.Scenario) (telemetry : TallyMap String String) : Prop :=
  ∀ r ∈ ts.requests, ∀ name value, Sends ts r.headers name value → Agrees telemetry name value

/-- Telemetry wins if and only if the fragment does not contradict it: no header of a request does,
and no header of the scenario that is neither replaced nor overridden. -/
theorem telemetryWins_iff {runes : Runes} {si : ScenarioInput} {telemetry : TallyMap String String}
    {ts : Taurus.Scenario} (hkind : si.scenario.kind = .portable)
    (h : compileScenario runes si telemetry = .ok ts) :
    TelemetryWins ts telemetry ↔
      ∀ r ∈ si.requests,
        (∀ name value, r.headers[name]? = some value → Agrees telemetry name value) ∧
          ∀ name value, si.headers[name]? = some value → telemetry[name]? = none →
            r.headers[name]? = none → Agrees telemetry name value := by
  have hrequests : TelemetryWins ts telemetry ↔ ∀ own ∈ si.requests.map (·.headers),
      ∀ name value, Sends ts own name value → Agrees telemetry name value := by
    rw [← headers_requests hkind h, List.forall_mem_map]
    rfl
  rw [hrequests, List.forall_mem_map]
  refine forall₂_congr fun r _ => ?_
  simp only [Sends, header_compileScenario hkind h]
  constructor
  · intro hsends
    exact ⟨fun name value hown => hsends name value (.inl hown),
      fun name value hvalue hreplaced hown => hsends name value (.inr ⟨hown, .inr ⟨hreplaced, hvalue⟩⟩)⟩
  · rintro ⟨hrequest, hscenario⟩ name value (hown | ⟨hown, htelemetry | ⟨hreplaced, hvalue⟩⟩)
    · exact hrequest name value hown
    · exact fun _ => ⟨name, htelemetry, rfl⟩
    · exact hscenario name value hvalue hreplaced hown

/-! ### Labels -/

section Labels

variable {runes : Runes} {si : ScenarioInput} {headers : TallyMap String String}
  {ts : Taurus.Scenario}

theorem label_compileScenario (hkind : si.scenario.kind = .portable)
    (h : compileScenario runes si headers = .ok ts) {i : ℕ} {r : Taurus.Request}
    (hr : si.requests[i]? = some r) (hlabel : r.label = "") :
    (ts.requests[i]?).map (·.label) = some (runes.requestLabel si.scenario r i) := by
  rw [(compileScenario_portable hkind h).2, List.getElem?_map, List.getElem?_zipIdx, hr]
  simp [hlabel]

theorem requestLabel_eq (s : Scenario) (r : Taurus.Request) (i : ℕ) :
    runes.requestLabel s r i =
      runes.slug s.name ++ "-" ++ if runes.slug r.url = "" then toString i else runes.slug r.url := by
  simp only [Runes.requestLabel, ite_not, ne_eq]
  split <;> rfl

/-- Two requests have the same label if their URLs come to the same text, or if one's comes to
nothing and the other's to its position. -/
theorem requestLabel_eq_iff (s : Scenario) (r r' : Taurus.Request) {i j : ℕ} (hij : i ≠ j) :
    runes.requestLabel s r i = runes.requestLabel s r' j ↔
      (runes.slug r.url ≠ "" ∧ runes.slug r.url = runes.slug r'.url) ∨
        (runes.slug r.url = "" ∧ runes.slug r'.url = toString i) ∨
        runes.slug r'.url = "" ∧ runes.slug r.url = toString j := by
  have hne : ∀ n : ℕ, "" ≠ toString n := fun n h => Nat.repr_ne_empty h.symm
  have hposition : toString i ≠ toString j := fun h => hij (Nat.repr_inj.mp h)
  rw [requestLabel_eq, requestLabel_eq, String.append_right_inj]
  by_cases hr : runes.slug r.url = "" <;> by_cases hr' : runes.slug r'.url = ""
  · rw [if_pos hr, if_pos hr', hr, hr']
    refine iff_of_false hposition ?_
    rintro (⟨h, -⟩ | ⟨-, h⟩ | ⟨-, h⟩)
    · exact h rfl
    · exact hne i h
    · exact hne j h
  · rw [if_pos hr, if_neg hr']
    refine ⟨fun h => .inr (.inl ⟨hr, h.symm⟩), ?_⟩
    rintro (⟨h, -⟩ | ⟨-, h⟩ | ⟨h, -⟩)
    · exact absurd hr h
    · exact h.symm
    · exact absurd h hr'
  · rw [if_neg hr, if_pos hr']
    refine ⟨fun h => .inr (.inr ⟨hr', h⟩), ?_⟩
    rintro (⟨-, h⟩ | ⟨h, -⟩ | ⟨-, h⟩)
    · exact absurd (h.trans hr') hr
    · exact absurd h hr
    · exact h
  · rw [if_neg hr, if_neg hr']
    refine ⟨fun h => .inl ⟨hr, h⟩, ?_⟩
    rintro (⟨-, h⟩ | ⟨h, -⟩ | ⟨h, -⟩)
    · exact h
    · exact absurd h hr
    · exact absurd h hr'

variable (si ts) in
/-- Requests without a label of their own that differ in method or URL get different labels. -/
def LabelsTellApart : Prop :=
  ∀ (i j : ℕ) (r r' : Taurus.Request), si.requests[i]? = some r → si.requests[j]? = some r' →
    r.label = "" → r'.label = "" → r.method ≠ r'.method ∨ r.url ≠ r'.url →
      (ts.requests[i]?).map (·.label) ≠ (ts.requests[j]?).map (·.label)

/-- They do if and only if no two of them have URLs of the same letters and digits, and the URL of
none comes to the position of one whose URL has no letter and no digit. -/
theorem labelsTellApart_iff (hkind : si.scenario.kind = .portable)
    (h : compileScenario runes si headers = .ok ts) :
    LabelsTellApart si ts ↔
      ∀ (i j : ℕ) (r r' : Taurus.Request), si.requests[i]? = some r → si.requests[j]? = some r' →
        r.label = "" → r'.label = "" → r.method ≠ r'.method ∨ r.url ≠ r'.url →
          (runes.slug r.url ≠ "" → runes.slug r.url ≠ runes.slug r'.url) ∧
            (runes.slug r.url = "" → runes.slug r'.url ≠ toString i) := by
  have hlabels : ∀ {i j : ℕ} {r r' : Taurus.Request}, si.requests[i]? = some r →
      si.requests[j]? = some r' → r.label = "" → r'.label = "" → (r.method ≠ r'.method ∨ r.url ≠ r'.url) →
        ((ts.requests[i]?).map (·.label) = (ts.requests[j]?).map (·.label) ↔
          (runes.slug r.url ≠ "" ∧ runes.slug r.url = runes.slug r'.url) ∨
            (runes.slug r.url = "" ∧ runes.slug r'.url = toString i) ∨
            runes.slug r'.url = "" ∧ runes.slug r.url = toString j) := by
    intro i j r r' hr hr' hlabel hlabel' hdiffer
    have hij : i ≠ j := by
      rintro rfl
      obtain rfl := Option.some.inj (hr.symm.trans hr')
      simp at hdiffer
    rw [label_compileScenario hkind h hr hlabel, label_compileScenario hkind h hr' hlabel',
      Option.some_inj, requestLabel_eq_iff si.scenario r r' hij]
  constructor
  · intro hapart i j r r' hr hr' hlabel hlabel' hdiffer
    have hne := hapart i j r r' hr hr' hlabel hlabel' hdiffer
    rw [Ne, hlabels hr hr' hlabel hlabel' hdiffer, not_or, not_or] at hne
    exact ⟨fun hsome heq => hne.1 ⟨hsome, heq⟩, fun hnone heq => hne.2.1 ⟨hnone, heq⟩⟩
  · intro hslugs i j r r' hr hr' hlabel hlabel' hdiffer heq
    have hforth := hslugs i j r r' hr hr' hlabel hlabel' hdiffer
    have hback := hslugs j i r' r hr' hr hlabel' hlabel (hdiffer.imp Ne.symm Ne.symm)
    obtain ⟨hsome, hsame⟩ | ⟨hnone, hsame⟩ | ⟨hnone, hsame⟩ :=
      (hlabels hr hr' hlabel hlabel' hdiffer).mp heq
    · exact hforth.1 hsome hsame
    · exact hforth.2 hnone hsame
    · exact hback.2 hnone hsame

end Labels

/-! ### Fragments -/

def asciiRunes : Runes where
  lower := Char.toLower
  isLetter := Char.isAlpha
  isDigit := Char.isDigit

def shop (requests : List Taurus.Request) : ScenarioInput :=
  { scenario := ⟨1, "shop", .portable, ⟨""⟩⟩, scriptPath := "", defaultAddress := "", requests
    headers := ∅, timeout := 0, keepAlive := none, dataPaths := [] }

def shopCompiled (requests : List Taurus.Request) (headers : TallyMap String String) :
    Taurus.Scenario :=
  { script := "", defaultAddress := "", headers, dataSources := [], timeout := 0, keepAlive := none
    requests := requests.zipIdx.map fun (r, i) =>
      if r.label = "" then { r with label := asciiRunes.requestLabel (shop []).scenario r i } else r }

def traceparent : TallyMap String String := .ofList [("traceparent", "00-1")]

def getOrders (headers : TallyMap String String) : Taurus.Request := ⟨"/orders", "", "GET", headers⟩

def tracedShop : ScenarioInput :=
  { shop [getOrders ∅] with headers := .ofList [("traceparent", "mine")] }

theorem telemetryWins_tracedShop :
    TelemetryWins (shopCompiled [getOrders ∅] traceparent) traceparent := by
  have hcompiled : compileScenario asciiRunes tracedShop traceparent =
      .ok (shopCompiled [getOrders ∅] traceparent) := by decide +kernel
  refine (telemetryWins_iff rfl hcompiled).mpr (List.forall_mem_singleton.mpr ⟨?_, ?_⟩)
  · intro name value hown
    simp [getOrders] at hown
  · intro name value hvalue hreplaced
    have hlist : tracedShop.headers.toList = [("traceparent", "mine")] := by decide +kernel
    rw [← TallyMap.mem_toList_iff, hlist, List.mem_singleton] at hvalue
    cases hvalue
    exact absurd hreplaced (by decide +kernel)

def tracedOrders : Taurus.Request := getOrders (.ofList [("Traceparent", "mine")])

theorem not_telemetryWins_tracedOrders :
    compileScenario asciiRunes (shop [tracedOrders]) traceparent =
        .ok (shopCompiled [tracedOrders] traceparent) ∧
      ¬TelemetryWins (shopCompiled [tracedOrders] traceparent) traceparent := by
  refine ⟨by decide +kernel, fun h => ?_⟩
  obtain ⟨t, ht, -⟩ := h { tracedOrders with label := "shop-orders" } (by decide +kernel)
    "Traceparent" "mine" (.inl (by decide +kernel))
    ⟨"traceparent", "00-1", by decide +kernel, by unfold SameName; decide +kernel⟩
  have hlist : traceparent.toList = [("traceparent", "00-1")] := by decide +kernel
  rw [← TallyMap.mem_toList_iff, hlist, List.mem_singleton] at ht
  have hvalue : "mine" = "00-1" := congrArg Prod.snd ht
  exact absurd hvalue (by decide)

def postOrders : Taurus.Request := ⟨"/orders", "", "POST", ∅⟩

def getCart : Taurus.Request := ⟨"/cart", "", "GET", ∅⟩

theorem labelsTellApart_ordersAndCart :
    LabelsTellApart (shop [getOrders ∅, getCart]) (shopCompiled [getOrders ∅, getCart] ∅) := by
  have hcompiled : compileScenario asciiRunes (shop [getOrders ∅, getCart]) ∅ =
      .ok (shopCompiled [getOrders ∅, getCart] ∅) := by decide +kernel
  refine (labelsTellApart_iff rfl hcompiled).mpr fun i j r r' hr hr' _ _ hdiffer => ?_
  have hmem := List.mem_of_getElem? hr
  have hmem' := List.mem_of_getElem? hr'
  simp only [shop, List.mem_cons, List.not_mem_nil, or_false] at hmem hmem'
  obtain rfl | rfl := hmem <;> obtain rfl | rfl := hmem'
  · simp at hdiffer
  · exact ⟨fun _ => by decide +kernel, fun hempty => absurd hempty (by decide +kernel)⟩
  · exact ⟨fun _ => by decide +kernel, fun hempty => absurd hempty (by decide +kernel)⟩
  · simp at hdiffer

/-- Reading the orders and placing one go under one label. -/
theorem not_labelsTellApart_orders :
    compileScenario asciiRunes (shop [getOrders ∅, postOrders]) ∅ =
        .ok (shopCompiled [getOrders ∅, postOrders] ∅) ∧
      ¬LabelsTellApart (shop [getOrders ∅, postOrders])
        (shopCompiled [getOrders ∅, postOrders] ∅) := by
  refine ⟨by decide +kernel, fun h => ?_⟩
  exact h 0 1 (getOrders ∅) postOrders rfl rfl rfl rfl (.inl (by decide)) (by decide +kernel)

end Honryu.Compile
