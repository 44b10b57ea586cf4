import Honryu.Lib.Checked
import Mathlib.Data.List.Infix
import Mathlib.Data.List.Nodup

/-!
The form of the fragment editor, which shows a few fields of a Taurus fragment and writes them back
into its document.

The URL of the first request is shown without the default address and joined to it again. What is
not a string is shown as nothing, and is nothing after it has been written back.

A text is a list of characters here. A document is what the YAML library makes of the text of a
fragment, as far as it is read: in the shapes that Go decodes, and without anchors and tags.
-/

namespace Honryu.Web

/-! ### URLs -/

abbrev Chars := List Char

def http : Chars := "http".toList

def stripSlash (base : Chars) : Chars :=
  if base.getLast? = some '/' then base.dropLast else base

/-- An address and a path, with one slash between them if the path does not bring more. -/
def joinUrl (base path : Chars) : Chars :=
  stripSlash base ++ ((if path.head? = some '/' then [] else ['/']) ++ path)

/-- Where a request goes: a URL that begins with `http` is absolute, and any other one is relative
to the default address. -/
def target (base url : Chars) : Chars :=
  if http <+: url ∨ base = [] then url else joinUrl base url

def shownPath (base url : Chars) : Chars :=
  if base ≠ [] ∧ base <+: url then url.drop base.length else url

def writtenUrl (base path : Chars) : Chars :=
  if base ≠ [] ∧ ¬http <+: path then joinUrl base path else path

/-- The URL that a request has after the form has been applied as it was opened. A path that is
empty is not written. -/
def appliedUrl (base url : Chars) : Chars :=
  if shownPath base url = [] then url else writtenUrl base (shownPath base url)

/-- The URLs that go on to lead to the same target. Of one that begins with the address, what
follows it is empty or parted from it by one slash; another one is empty, absolute, or relative to
an address that is absolute. -/
def Rejoins (base url : Chars) : Prop :=
  if base <+: url then
    ∀ c ∈ (url.drop base.length).head?, ¬http <+: url.drop base.length ∧
      (base.getLast? = some '/' ↔ c ≠ '/')
  else url = [] ∨ http <+: url ∨ http <+: base ∨ base = ['/']

section Urls

variable {base url url' path a c : Chars}

/-- `http` has no slash, so what begins with it does so before the first one. -/
theorem http_prefix_slash : http <+: a ++ '/' :: c ↔ http <+: a := by
  refine ⟨fun h => ?_, fun h => h.trans (List.prefix_append _ _)⟩
  have hslash : a ++ ['/'] <+: a ++ '/' :: c := (List.prefix_append_right_inj a).mpr ⟨c, rfl⟩
  rcases List.prefix_or_prefix_of_prefix h hslash with h | h
  · rcases List.prefix_concat_iff.mp h with h | h
    · exact absurd (h ▸ List.mem_append_right a List.mem_cons_self : '/' ∈ http) (by decide)
    · exact h
  · exact absurd (h.mem (List.mem_append_right a List.mem_cons_self) : '/' ∈ http) (by decide)

theorem stripSlash_append : stripSlash (a ++ ['/']) = a := by
  simp [stripSlash]

theorem stripSlash_of_not (h : base.getLast? ≠ some '/') : stripSlash base = base := if_neg h

theorem http_prefix_stripSlash : http <+: stripSlash base ↔ http <+: base := by
  by_cases hlast : base.getLast? = some '/'
  · obtain ⟨ys, rfl⟩ := List.getLast?_eq_some_iff.mp hlast
    rw [stripSlash_append, http_prefix_slash]
  · rw [stripSlash_of_not hlast]

theorem stripSlash_eq_nil (hbase : base ≠ []) : stripSlash base = [] ↔ base = ['/'] := by
  by_cases hlast : base.getLast? = some '/'
  · obtain ⟨ys, rfl⟩ := List.getLast?_eq_some_iff.mp hlast
    simp [stripSlash_append]
  · rw [stripSlash_of_not hlast]
    exact iff_of_false hbase fun h => hlast (h ▸ rfl)

theorem exists_joinUrl (base path : Chars) :
    ∃ rest, joinUrl base path = stripSlash base ++ '/' :: rest := by
  by_cases hpath : path.head? = some '/'
  · obtain ⟨rest, rfl⟩ := List.head?_eq_some_iff.mp hpath
    exact ⟨rest, rfl⟩
  · exact ⟨path, by simp [joinUrl, hpath]⟩

theorem http_prefix_joinUrl : http <+: joinUrl base path ↔ http <+: base := by
  obtain ⟨rest, hjoin⟩ := exists_joinUrl base path
  rw [hjoin]
  exact http_prefix_slash.trans http_prefix_stripSlash

theorem head?_joinUrl (hbase : base ≠ []) : (joinUrl base path).head? = base.head? := by
  obtain ⟨rest, hjoin⟩ := exists_joinUrl base path
  rw [hjoin]
  by_cases hlast : base.getLast? = some '/'
  · obtain ⟨ys, rfl⟩ := List.getLast?_eq_some_iff.mp hlast
    rw [stripSlash_append]
    cases ys <;> rfl
  · rw [stripSlash_of_not hlast, List.head?_append_of_ne_nil _ hbase]

/-- Joining puts nothing between the address and the path, and takes nothing away, if they bring one
slash together. -/
theorem joinUrl_eq_append_iff {c : Char} :
    joinUrl base (c :: path) = base ++ c :: path ↔ (base.getLast? = some '/' ↔ c ≠ '/') := by
  by_cases hlast : base.getLast? = some '/'
  · obtain ⟨ys, rfl⟩ := List.getLast?_eq_some_iff.mp hlast
    by_cases hc : c = '/' <;> simp [joinUrl, stripSlash_append, hc]
  · by_cases hc : c = '/' <;> simp [joinUrl, stripSlash_of_not hlast, hlast, hc]

theorem stripSlash_eq_nil_of_joinUrl (h : joinUrl base url = url) : stripSlash base = [] := by
  have hlength := congrArg List.length h
  rw [joinUrl, List.length_append, List.length_append] at hlength
  exact List.length_eq_zero_iff.mp (by omega)

theorem length_le_target (base url : Chars) : url.length ≤ (target base url).length := by
  rw [target]
  split
  · exact le_rfl
  · simp only [joinUrl, List.length_append]
    omega

theorem target_ne (hhttp : http <+: url ↔ http <+: url') (hhead : url.head? = url'.head?)
    (hne : url ≠ url') : target base url ≠ target base url' := by
  simp only [target, hhttp]
  split
  · exact hne
  · rw [joinUrl, joinUrl, hhead]
    exact fun h => hne (List.append_cancel_left (List.append_cancel_left h))

theorem target_joinUrl_iff (hbase : base ≠ []) :
    target base (joinUrl base path) = target base (base ++ path) ↔
      joinUrl base path = base ++ path := by
  refine ⟨fun h => by_contra fun hne => ?_, fun h => by rw [h]⟩
  by_cases hsame : http <+: joinUrl base path ↔ http <+: base ++ path
  · refine target_ne hsame ?_ hne h
    rw [head?_joinUrl hbase, List.head?_append_of_ne_nil _ hbase]
  · -- the URL was absolute, and is relative after a slash has been put into it
    rw [http_prefix_joinUrl] at hsame
    have hbase' : ¬http <+: base := fun hb =>
      hsame (iff_of_true hb (hb.trans (List.prefix_append _ _)))
    have hurl : http <+: base ++ path := by_contra fun hurl => hsame (iff_of_false hbase' hurl)
    have hlast : base.getLast? ≠ some '/' := by
      intro hlast
      obtain ⟨ys, rfl⟩ := List.getLast?_eq_some_iff.mp hlast
      rw [List.append_assoc] at hurl
      exact hbase' (http_prefix_slash.mpr (http_prefix_slash.mp hurl))
    rw [target, if_neg (by simp [http_prefix_joinUrl, hbase', hbase]), target,
      if_pos (.inl hurl)] at h
    have hlength := congrArg List.length h
    simp only [joinUrl, stripSlash_of_not hlast, List.length_append] at hlength
    exact hbase (List.length_eq_zero_iff.mp (by omega))

theorem target_appliedUrl_append (hbase : base ≠ []) (path : Chars) :
    target base (appliedUrl base (base ++ path)) = target base (base ++ path) ↔
      ∀ c ∈ path.head?, ¬http <+: path ∧ (base.getLast? = some '/' ↔ c ≠ '/') := by
  have hshown : shownPath base (base ++ path) = path := by simp [shownPath, hbase]
  rw [appliedUrl, hshown]
  cases path with
  | nil => simp
  | cons c path =>
      rw [if_neg (List.cons_ne_nil _ _), writtenUrl]
      by_cases hhttp : http <+: c :: path
      · rw [if_neg (fun h => h.2 hhttp)]
        refine iff_of_false (fun h => ?_) (fun h => (h c rfl).1 hhttp)
        have hlength := length_le_target base (base ++ c :: path)
        rw [← h, target, if_pos (.inl hhttp), List.length_append] at hlength
        exact hbase (List.length_eq_zero_iff.mp (by omega))
      · rw [if_pos ⟨hbase, hhttp⟩, target_joinUrl_iff hbase, joinUrl_eq_append_iff]
        simp [hhttp]

/-- Applying the form as it was opened leaves the target of a URL as it was if and only if the URL
can be joined again. -/
theorem target_appliedUrl_iff (hbase : base ≠ []) :
    target base (appliedUrl base url) = target base url ↔ Rejoins base url := by
  by_cases hpre : base <+: url
  · obtain ⟨path, rfl⟩ := hpre
    rw [target_appliedUrl_append hbase, Rejoins, if_pos (List.prefix_append _ _), List.drop_left]
  · have hshown : shownPath base url = url := by simp [shownPath, hpre]
    rw [Rejoins, if_neg hpre, appliedUrl, hshown]
    by_cases hempty : url = []
    · simp [hempty]
    by_cases hhttp : http <+: url
    · simp [hhttp, writtenUrl]
    have htarget : target base url = joinUrl base url := if_neg (by simp [hhttp, hbase])
    rw [if_neg hempty, writtenUrl, if_pos ⟨hbase, hhttp⟩, htarget, target]
    by_cases habsolute : http <+: base
    · simp [habsolute, http_prefix_joinUrl]
    simp only [http_prefix_joinUrl, habsolute, hbase, or_self, if_false, hempty, hhttp, false_or]
    -- a path that is joined twice has the address twice
    rw [← stripSlash_eq_nil hbase]
    refine ⟨stripSlash_eq_nil_of_joinUrl, fun hstrip => ?_⟩
    obtain ⟨rest, hjoin⟩ := exists_joinUrl base url
    rw [hjoin, hstrip, joinUrl, hstrip]
    rfl

end Urls

/-! ### Documents -/

/-- A scalar, with the text that Go reads it as. One that is no string for JavaScript is a number, a
truth value or nothing at all, and no slash. -/
structure Scalar where
  text : Chars
  isString : Bool
  noSlash : isString = false → text ≠ ['/']

def Scalar.str (text : Chars) : Scalar := ⟨text, true, nofun⟩

structure RequestNode where
  url : Option Scalar
  method : Option Scalar

/-- What is read of a scenario, in the shapes that Go decodes. The headers or the requests may be
absent or null, and so may a single request. -/
structure ScenarioNode where
  defaultAddress : Option Scalar
  headers : Option (List (Scalar × Scalar))
  requests : Option (List (Option RequestNode))

abbrev Fragment := List (String × ScenarioNode)

/-! ### The form -/

structure FragmentFields where
  defaultAddress : Chars
  method : Chars
  path : Chars
  headers : List (Chars × Chars)

def stringOf (node : Option Scalar) : Chars :=
  match node with
  | some s => if s.isString then s.text else []
  | none => []

def ScenarioNode.firstRequest (scenario : ScenarioNode) : Option RequestNode :=
  (scenario.requests.getD []).head?.join

def readHeader (item : Scalar × Scalar) : Option (Chars × Chars) :=
  if item.1.isString then some (item.1.text, stringOf (some item.2)) else none

def readScenario (scenario : ScenarioNode) : FragmentFields where
  defaultAddress := stringOf scenario.defaultAddress
  method := stringOf (scenario.firstRequest.bind (·.method))
  path := shownPath (stringOf scenario.defaultAddress)
    (stringOf (scenario.firstRequest.bind (·.url)))
  headers := (scenario.headers.getD []).filterMap readHeader

/-- A text that cannot be parsed has no document, and only the first scenario is read. -/
def readFields (doc : Option Fragment) : FragmentFields :=
  match doc with
  | some ((_, scenario) :: _) => readScenario scenario
  | _ => ⟨[], [], [], []⟩

/-- One entry more in a `Map`: it is put in the place of the one with its name, if there is one. -/
def putHeader (headers : List (Chars × Chars)) (h : Chars × Chars) : List (Chars × Chars) :=
  if headers.any (·.1 = h.1) then headers.map fun h' => if h'.1 = h.1 then h else h'
  else headers ++ [h]

def patchRequest (fields : FragmentFields) (req : RequestNode) : RequestNode where
  url := if fields.path ≠ [] then
      some (.str (writtenUrl fields.defaultAddress fields.path))
    else req.url
  method := if fields.method ≠ [] then some (.str fields.method) else req.method

def applyRequest (fields : FragmentFields) (requests : Option (List (Option RequestNode))) :
    Option (List (Option RequestNode)) :=
  if fields.method = [] ∧ fields.path = [] then requests
  else
    match requests with
    | some (some req :: reqs) => some (some (patchRequest fields req) :: reqs)
    | some reqs => some reqs
    | none =>
        let method := if fields.method = [] then "GET".toList else fields.method
        let url := if fields.path = [] then ['/'] else fields.path
        some [some ⟨some (.str url), some (.str method)⟩]

def applyScenario (fields : FragmentFields) (scenario : ScenarioNode) : ScenarioNode where
  defaultAddress := some (.str fields.defaultAddress)
  headers := if fields.headers = [] then none
    else some ((fields.headers.foldl putHeader []).map fun h => (.str h.1, .str h.2))
  requests := applyRequest fields scenario.requests

inductive ApplyError
  | invalidYaml
  | noScenarios

def applyFields (doc : Option Fragment) (fields : FragmentFields) : Except ApplyError Fragment :=
  match doc with
  | none => .error .invalidYaml
  | some [] => .error .noScenarios
  | some ((name, scenario) :: rest) => .ok ((name, applyScenario fields scenario) :: rest)

/-! ### What a fragment sends -/

def textOf (node : Option Scalar) : Chars := (node.map Scalar.text).getD []

structure Request where
  url : Chars
  method : Chars

def ScenarioNode.decodeRequests (scenario : ScenarioNode) : List Request :=
  (scenario.requests.getD []).map fun req =>
    ⟨textOf (req.bind (·.url)), textOf (req.bind (·.method))⟩

def ScenarioNode.sent (scenario : ScenarioNode) : List (Chars × Chars) × List (Chars × Chars) :=
  (scenario.decodeRequests.map fun r => (r.method, target (textOf scenario.defaultAddress) r.url),
    (scenario.headers.getD []).map fun h => (h.1.text, h.2.text))

/-- The form can be applied as it was opened, and what the fragment sends is the same. -/
def FormKept (doc : Fragment) : Prop :=
  ∃ doc', applyFields (some doc) (readFields (some doc)) = .ok doc' ∧
    doc'.map (·.2.sent) = doc.map (·.2.sent)

def PlainHeader (item : Scalar × Scalar) : Prop :=
  item.1.isString = true ∧ (item.2.isString = true ∨ item.2.text = [])

def ScenarioNode.firstUrl (scenario : ScenarioNode) : Chars :=
  stringOf (scenario.firstRequest.bind (·.url))

/-- A scenario that the form does not change: the default address and the headers are strings or
nothing, or the URLs do without the address; and the first URL can be joined to it again. -/
structure Plain (scenario : ScenarioNode) : Prop where
  headers : ∀ item ∈ scenario.headers.getD [], PlainHeader item
  address : stringOf scenario.defaultAddress = textOf scenario.defaultAddress ∨
    ∀ r ∈ scenario.decodeRequests, http <+: r.url
  url : stringOf scenario.defaultAddress ≠ [] →
    Rejoins (stringOf scenario.defaultAddress) scenario.firstUrl

/-! ### What applying the form does -/

section Headers

theorem foldl_putHeader {acc headers : List (Chars × Chars)}
    (h : ((acc ++ headers).map Prod.fst).Nodup) : headers.foldl putHeader acc = acc ++ headers := by
  induction headers generalizing acc with
  | nil => simp
  | cons x headers ih =>
      have hnew : acc.any (·.1 = x.1) = false := by
        rw [List.any_eq_false]
        intro y hy heq
        rw [List.map_append, List.nodup_append] at h
        exact h.2.2 y.1 (List.mem_map_of_mem hy) x.1 (by simp) (by simpa using heq)
      rw [List.foldl_cons, putHeader, hnew, if_neg (by decide), ih (by simpa using h)]
      simp

theorem sublist_filterMap_readHeader (items : List (Scalar × Scalar)) :
    ((items.filterMap readHeader).map Prod.fst).Sublist (items.map (·.1.text)) := by
  induction items with
  | nil => simp
  | cons item items ih =>
      by_cases hs : item.1.isString = true
      · simpa [readHeader, hs] using ih
      · simpa [readHeader, hs] using ih.cons item.1.text

/-- Of headers with different names, those that are read are written. -/
theorem headers_applyScenario {scenario : ScenarioNode}
    (h : ((scenario.headers.getD []).map (·.1.text)).Nodup) :
    ((applyScenario (readScenario scenario) scenario).headers.getD []).map
        (fun h => (h.1.text, h.2.text)) = (scenario.headers.getD []).filterMap readHeader := by
  have hread : (readScenario scenario).headers =
      (scenario.headers.getD []).filterMap readHeader := rfl
  have hfold : (readScenario scenario).headers.foldl putHeader [] =
      (readScenario scenario).headers :=
    foldl_putHeader (h.sublist (sublist_filterMap_readHeader _))
  rw [applyScenario, hfold, ← hread]
  split
  case isTrue hnone => simp [hnone]
  case isFalse => simp [Scalar.str, Function.comp_def]

/-- Headers are read as they are decoded if all of them are plain. -/
theorem filterMap_readHeader_eq_iff {items : List (Scalar × Scalar)} :
    items.filterMap readHeader = items.map (fun h => (h.1.text, h.2.text)) ↔
      ∀ item ∈ items, PlainHeader item := by
  induction items with
  | nil => simp
  | cons item items ih =>
      rw [List.forall_mem_cons, ← ih, List.map_cons]
      by_cases hname : item.1.isString = true
      · have hread : readHeader item = some (item.1.text, stringOf (some item.2)) := if_pos hname
        have hvalue : stringOf (some item.2) = item.2.text ↔ PlainHeader item := by
          by_cases hs : item.2.isString = true <;> simp [stringOf, PlainHeader, hname, hs, eq_comm]
        rw [List.filterMap_cons_some hread, List.cons.injEq, Prod.mk.injEq, ← hvalue]
        simp
      · -- a name that is lost makes the list too short
        have hread : readHeader item = none := if_neg hname
        rw [List.filterMap_cons_none hread]
        refine iff_of_false (fun heq => ?_) fun hplain => hname hplain.1.1
        have hle := List.length_filterMap_le readHeader items
        rw [heq, List.length_cons, List.length_map] at hle
        omega

end Headers

section Requests

variable {scenario : ScenarioNode}

theorem stringOf_cases (node : Option Scalar) :
    stringOf node = textOf node ∨ stringOf node = [] ∧ textOf node ≠ ['/'] := by
  cases node with
  | none => exact .inl rfl
  | some s =>
      by_cases hs : s.isString = true
      · exact .inl (if_pos hs)
      · exact .inr ⟨if_neg hs, s.noSlash (Bool.eq_false_iff.mpr hs)⟩

theorem shownPath_nil (base : Chars) : shownPath base [] = [] := by
  simp [shownPath]

/-- The first request after the form has been applied. A URL that is no string is not written. -/
def appliedRequest (base url : Chars) (r : Request) : Request :=
  if url = [] then r else { r with url := appliedUrl base url }

theorem firstUrl_cases (scenario : ScenarioNode) :
    scenario.firstUrl = [] ∨
      ∃ r rs, scenario.decodeRequests = r :: rs ∧ scenario.firstUrl = r.url := by
  obtain ⟨address, headers, _ | (_ | ⟨_ | req, reqs⟩)⟩ := scenario
  · exact .inl rfl
  · exact .inl rfl
  · exact .inl rfl
  · rcases stringOf_cases req.url with h | h
    · exact .inr ⟨_, _, rfl, h⟩
    · exact .inl h.1

theorem decode_patchRequest {fields : FragmentFields} {req : RequestNode}
    (hmethod : fields.method = stringOf req.method)
    (hpath : fields.path = shownPath fields.defaultAddress (stringOf req.url)) :
    (⟨textOf (patchRequest fields req).url, textOf (patchRequest fields req).method⟩ : Request) =
      appliedRequest fields.defaultAddress (stringOf req.url)
        ⟨textOf req.url, textOf req.method⟩ := by
  have hmethod' : textOf (patchRequest fields req).method = textOf req.method := by
    show textOf (if fields.method ≠ [] then _ else _) = _
    rw [hmethod]
    split
    case isTrue hne => exact (stringOf_cases req.method).resolve_right fun h => hne h.1
    case isFalse => rfl
  by_cases hnone : stringOf req.url = []
  · have hurl : (patchRequest fields req).url = req.url := by
      rw [patchRequest, hpath, hnone, shownPath_nil, if_neg (by simp)]
    rw [hurl, hmethod', appliedRequest, if_pos hnone]
  · have hread := (stringOf_cases req.url).resolve_right fun h => hnone h.1
    have hurl : textOf (patchRequest fields req).url =
        appliedUrl fields.defaultAddress (stringOf req.url) := by
      rw [patchRequest, hpath, appliedUrl]
      by_cases hempty : shownPath fields.defaultAddress (stringOf req.url) = []
      · rw [if_neg (not_not.mpr hempty), if_pos hempty, hread]
      · rw [if_pos hempty, if_neg hempty]
        rfl
    rw [hurl, hmethod', appliedRequest, if_neg hnone]

/-- Only the first request can change when the form is applied as it was opened, and of it only the
URL. -/
theorem decodeRequests_applyScenario (scenario : ScenarioNode) :
    (applyScenario (readScenario scenario) scenario).decodeRequests =
      scenario.decodeRequests.modifyHead
        (appliedRequest (stringOf scenario.defaultAddress) scenario.firstUrl) := by
  cases hfirst : scenario.firstRequest with
  | none =>
      have hnothing : (readScenario scenario).method = [] ∧ (readScenario scenario).path = [] := by
        simp [readScenario, hfirst, stringOf, shownPath_nil]
      have hurl : scenario.firstUrl = [] := by simp [ScenarioNode.firstUrl, hfirst, stringOf]
      have hsame : (applyScenario (readScenario scenario) scenario).decodeRequests =
          scenario.decodeRequests := by
        rw [ScenarioNode.decodeRequests, applyScenario, applyRequest.eq_def, if_pos hnothing]
        rfl
      rw [hsame, hurl]
      cases scenario.decodeRequests <;> rfl
  | some req =>
      obtain ⟨address, headers, _ | (_ | ⟨_ | req, reqs⟩)⟩ := scenario <;> cases hfirst
      let fields := readScenario ⟨address, headers, some (some req :: reqs)⟩
      have hwritten : applyRequest fields (some (some req :: reqs)) =
          some (some (patchRequest fields req) :: reqs) := by
        rw [applyRequest.eq_def]
        split
        case isTrue hnothing => simp [patchRequest, hnothing]
        case isFalse => rfl
      rw [ScenarioNode.decodeRequests, applyScenario, hwritten]
      exact congrArg (· :: _) (@decode_patchRequest fields req rfl rfl)

theorem target_eq_self_iff {base url : Chars} (hbase : base ≠ []) (hslash : base ≠ ['/']) :
    target base url = url ↔ http <+: url := by
  by_cases hhttp : http <+: url
  · simp [target, hhttp]
  · rw [target, if_neg (by simp [hhttp, hbase])]
    refine iff_of_false (fun h => hslash ?_) hhttp
    exact (stripSlash_eq_nil hbase).mp (stripSlash_eq_nil_of_joinUrl h)

theorem appliedUrl_nil (url : Chars) : appliedUrl [] url = url := by
  simp [appliedUrl, shownPath, writtenUrl]

/-- Under an address that is read as it is, the form changes no target if and only if the first URL
can be joined again. -/
theorem map_target_modifyHead_iff {requests : List Request} {base url : Chars}
    (hurl : url = [] ∨ ∃ r rs, requests = r :: rs ∧ url = r.url) :
    ((requests.modifyHead (appliedRequest base url)).map fun r => (r.method, target base r.url)) =
        (requests.map fun r => (r.method, target base r.url)) ↔
      (base ≠ [] → Rejoins base url) := by
  by_cases hnone : url = []
  · have hsame : appliedRequest base url = id := by
      funext r
      exact if_pos hnone
    have hrejoins : base ≠ [] → Rejoins base url := by
      intro hbase
      rw [Rejoins, hnone, if_neg (by simpa using hbase)]
      exact .inl rfl
    rw [hsame, List.modifyHead_id]
    exact iff_of_true rfl hrejoins
  · obtain ⟨r, rs, rfl, rfl⟩ := hurl.resolve_left hnone
    have happlied : appliedRequest base r.url r = { r with url := appliedUrl base r.url } :=
      if_neg hnone
    rw [List.modifyHead_cons, List.map_cons, List.map_cons, List.cons.injEq, happlied]
    simp only [and_true, Prod.mk.injEq, true_and]
    by_cases hbase : base = []
    · simp [hbase, appliedUrl_nil]
    · rw [target_appliedUrl_iff hbase]
      exact ⟨fun h _ => h, fun h => h hbase⟩

theorem sent_applyScenario_iff {scenario : ScenarioNode}
    (hnames : ((scenario.headers.getD []).map (·.1.text)).Nodup) :
    (applyScenario (readScenario scenario) scenario).sent = scenario.sent ↔ Plain scenario := by
  have hurl := firstUrl_cases scenario
  have haddress : textOf (applyScenario (readScenario scenario) scenario).defaultAddress =
      stringOf scenario.defaultAddress := rfl
  have hplain : Plain scenario ↔ _ ∧ _ ∧ _ :=
    ⟨fun h => ⟨h.url, h.address, h.headers⟩, fun h => ⟨h.2.2, h.2.1, h.1⟩⟩
  rw [ScenarioNode.sent, ScenarioNode.sent, Prod.mk.injEq, haddress, headers_applyScenario hnames,
    filterMap_readHeader_eq_iff, decodeRequests_applyScenario, hplain,
    ← map_target_modifyHead_iff hurl, ← and_assoc]
  refine and_congr_left' ?_
  by_cases hread : stringOf scenario.defaultAddress = textOf scenario.defaultAddress
  · simp [hread]
  · obtain ⟨hnone, hslash⟩ := (stringOf_cases scenario.defaultAddress).resolve_left hread
    rw [hnone] at hread
    -- nothing is read, so the URLs are written as they are, and do without an address
    have hsame : scenario.decodeRequests.modifyHead (appliedRequest [] scenario.firstUrl) =
        scenario.decodeRequests := by
      rcases hurl with hurl | ⟨r, rs, hcons, hurl⟩
      · rw [hurl]
        cases scenario.decodeRequests <;> rfl
      · rw [hcons, List.modifyHead_cons, appliedRequest, appliedUrl_nil, hurl, ite_self]
    have htarget (url : Chars) :
        target [] url = target (textOf scenario.defaultAddress) url ↔ http <+: url := by
      rw [target, if_pos (.inr rfl), eq_comm]
      exact target_eq_self_iff (Ne.symm hread) hslash
    simp only [hnone, hsame, hread, false_or, true_and, List.map_inj_left, Prod.mk.injEq, htarget]

end Requests

/-- Applying the form as it was opened changes nothing of what a fragment sends if and only if its
first scenario is plain. -/
theorem formKept_iff {name : String} {scenario : ScenarioNode} {rest : Fragment}
    (hnames : ((scenario.headers.getD []).map (·.1.text)).Nodup) :
    FormKept ((name, scenario) :: rest) ↔ Plain scenario := by
  rw [← sent_applyScenario_iff hnames]
  constructor
  · rintro ⟨doc', hdoc', hsent⟩
    cases hdoc'
    exact (List.cons.inj hsent).1
  · intro hsent
    exact ⟨_, rfl, List.cons_eq_cons.mpr ⟨hsent, rfl⟩⟩

/-! ### A shop -/

def shopFragment (url : String) : Fragment :=
  [("shop", {
    defaultAddress := some (.str "http://shop".toList)
    headers := some [(.str "X-Auth".toList, .str "token".toList)]
    requests := some [some ⟨some (.str url.toList), some (.str "GET".toList)⟩] })]

theorem formKept_path : FormKept (shopFragment "http://shop/cart") := by
  refine (formKept_iff (by decide)).mpr ⟨?_, .inl rfl, fun _ => ?_⟩
  · intro item hitem
    obtain rfl := List.mem_singleton.mp hitem
    exact ⟨rfl, .inl rfl⟩
  · show Rejoins "http://shop".toList "http://shop/cart".toList
    simp [Rejoins, http]

/-- A URL with a port begins with the address, and a slash is put before the port. -/
theorem not_formKept_port :
    (shopFragment "http://shop:8080/cart").map (·.2.sent.1) =
        [[("GET".toList, "http://shop:8080/cart".toList)]] ∧
      ¬FormKept (shopFragment "http://shop:8080/cart") := by
  refine ⟨by decide +kernel, ?_⟩
  rintro ⟨doc', hdoc', hsent⟩
  cases hdoc'
  exact absurd (congrArg (List.map Prod.fst) hsent) (by decide +kernel)

end Honryu.Web
