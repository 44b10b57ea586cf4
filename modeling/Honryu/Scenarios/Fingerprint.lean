import Honryu.Lib.Checked
import Mathlib.Data.List.Lex
import Mathlib.Data.List.Sort
import Mathlib.Data.Fin.Basic
import Mathlib.Order.Fin.Basic

/-!
The bytes that the fingerprint of a scenario is a hash of.

A file is written as its name, its length and its content, with colons between. Only the
content is prefixed by its length: where a name ends is known from the colon after it, and a
name may have colons of its own.
-/

namespace Honryu.Scenarios

abbrev Byte := Fin 256

abbrev Bytes := List Byte

def byteOf (c : Char) : Byte := Fin.ofNat 256 c.toNat

def ascii (s : String) : Bytes := s.toList.map byteOf

/-- A number as `%d` prints it. -/
def decimal (n : ℕ) : Bytes := (Nat.toDigits 10 n).map byteOf

def colon : Byte := byteOf ':'

/-! ### Scenarios -/

/-- `validateFilename` accepts the name of a file. -/
def validateFilename (filename : Bytes) : Bool :=
  filename ≠ [] ∧ byteOf '/' ∉ filename ∧ byteOf '\\' ∉ filename ∧ filename ≠ ascii "." ∧
    filename ≠ ascii ".."

/-- `ScenarioFiles`: the names of the files of a scenario. The test file is empty if there
is none. -/
structure ScenarioFiles where
  testFile : Bytes
  data : List Bytes
  deriving DecidableEq

inductive FingerprintError
  | noScenario
  | noObject (name : Bytes)
  deriving DecidableEq

/-- What `ScenarioFingerprint` reads of a scenario. -/
structure Stored where
  files : ScenarioFiles
  /-- the object store, where a file may be missing -/
  download : Bytes → Option Bytes
  requests : Option Bytes

def fileSegment (name content : Bytes) : Bytes :=
  ascii "file:" ++ name ++ colon :: decimal content.length ++ colon :: content

def requestsSegment (requests : Bytes) : Bytes :=
  ascii "requests:" ++ decimal requests.length ++ colon :: requests

def ScenarioFiles.names (files : ScenarioFiles) : List Bytes :=
  ((if files.testFile ≠ [] then [files.testFile] else []) ++ files.data).insertionSort (· ≤ ·)

def Stored.segment (s : Stored) (name : Bytes) : Except FingerprintError Bytes :=
  match s.download name with
  | none => .error (.noObject name)
  | some content => .ok (fileSegment name content)

/-- `ScenarioFingerprint`, up to the hash: the bytes that are written to it. -/
def scenarioFingerprint (scenario : Option Stored) : Except FingerprintError Bytes :=
  match scenario with
  | none => .error .noScenario
  | some s =>
      match s.files.names.mapM s.segment with
      | .error e => .error e
      | .ok segments => .ok (segments.flatten ++ requestsSegment (s.requests.getD []))

/-! ### Contents -/

/-- `Content` is what a scenario consists of: files of distinct names, which are kept in the
order of their names, and the requests. -/
@[ext]
structure Content where
  files : List (Bytes × Bytes)
  sorted : (files.map Prod.fst).Pairwise (· < ·)
  accepted : ∀ f ∈ files, validateFilename f.1 = true
  requests : Bytes

def feedOf (requests : Bytes) (files : List (Bytes × Bytes)) : Bytes :=
  (files.map fun f => fileSegment f.1 f.2).flatten ++ requestsSegment requests

def Content.feed (c : Content) : Bytes := feedOf c.requests c.files

/-- A scenario has a content: its files are those of the content, and each is stored. -/
structure Stored.Has (s : Stored) (c : Content) : Prop where
  names : ((if s.files.testFile ≠ [] then [s.files.testFile] else []) ++ s.files.data).Perm
    (c.files.map Prod.fst)
  download : ∀ f ∈ c.files, s.download f.1 = some f.2
  requests : s.requests.getD [] = c.requests

theorem scenarioFingerprint_eq_feed {s : Stored} {c : Content} (h : s.Has c) :
    scenarioFingerprint (some s) = .ok c.feed := by
  have hnames : s.files.names = c.files.map Prod.fst := by
    rw [ScenarioFiles.names]
    refine List.Perm.eq_of_pairwise' (List.pairwise_insertionSort (· ≤ ·) _)
      (c.sorted.imp le_of_lt) ?_
    exact (List.perm_insertionSort _ _).trans h.names
  have hsegments : s.files.names.mapM s.segment =
      .ok (c.files.map fun f => fileSegment f.1 f.2) := by
    rw [hnames, Checked.mapM_eq_ok, List.forall₂_map_left_iff, List.forall₂_map_right_iff]
    exact List.forall₂_same.mpr fun f hf => by rw [Stored.segment, h.download f hf]
  rw [scenarioFingerprint]
  simp only [hsegments]
  rw [h.requests]
  rfl

/-- The test file is hashed where its name comes among those of the data files. -/
theorem scenarioFingerprint_eq_feed_two :
    scenarioFingerprint (some ⟨⟨ascii "b", [ascii "a"]⟩, some, none⟩) =
      .ok (Content.feed ⟨[(ascii "a", ascii "a"), (ascii "b", ascii "b")], by decide, by decide,
        []⟩) :=
  scenarioFingerprint_eq_feed ⟨by decide, by decide, rfl⟩

/-! ### Reading a content back -/

theorem toNat_byteOf {c : Char} (h : c.toNat < 256) : (byteOf c : ℕ) = c.toNat :=
  Nat.mod_eq_of_lt h

theorem toNat_lt_of_isDigit {c : Char} (h : c.isDigit = true) : c.toNat < 58 := by
  simp only [Char.isDigit, Bool.and_eq_true, decide_eq_true_eq] at h
  exact Nat.lt_succ_of_le h.2

theorem ofNat_byteOf {c : Char} (h : c.isDigit = true) : Char.ofNat (byteOf c) = c := by
  have hlt := toNat_lt_of_isDigit h
  rw [toNat_byteOf (by omega), Char.ofNat_toNat]

theorem ofDigitChars_decimal (n : ℕ) :
    Nat.ofDigitChars 10 ((decimal n).map fun b : Byte => Char.ofNat b) 0 = n := by
  have hchars : (decimal n).map (fun b : Byte => Char.ofNat b) = Nat.toDigits 10 n := by
    rw [decimal, List.map_map]
    refine (List.map_congr_left fun c hc => ?_).trans (List.map_id _)
    exact ofNat_byteOf (Nat.isDigit_of_mem_toDigits (by decide) le_rfl hc)
  rw [hchars, Nat.ofDigitChars_ten_toDigits]

theorem decimal_injective : Function.Injective decimal := by
  intro n m h
  rw [← ofDigitChars_decimal n, h, ofDigitChars_decimal]

theorem colon_notMem_decimal (n : ℕ) : colon ∉ decimal n := by
  intro hmem
  obtain ⟨c, hc, heq⟩ := List.mem_map.mp hmem
  have hdigit := Nat.isDigit_of_mem_toDigits (by decide) le_rfl hc
  have hlt := toNat_lt_of_isDigit hdigit
  have hval := congrArg Fin.val heq
  rw [toNat_byteOf (by omega)] at hval
  exact hlt.ne hval

theorem append_colon_inj {a b x y : Bytes} (ha : colon ∉ a) (hb : colon ∉ b)
    (h : a ++ colon :: x = b ++ colon :: y) : a = b ∧ x = y := by
  induction a generalizing b with
  | nil =>
      cases b with
      | nil => exact ⟨rfl, (List.cons.inj h).2⟩
      | cons c b => exact absurd (List.cons.inj h).1 fun hc => hb (hc ▸ List.mem_cons_self)
  | cons c a ih =>
      cases b with
      | nil => exact absurd (List.cons.inj h).1 fun hc => ha (hc ▸ List.mem_cons_self)
      | cons c' b =>
          obtain ⟨rfl, htail⟩ := List.cons.inj h
          obtain ⟨rfl, hxy⟩ := ih (fun hm => ha (List.mem_cons_of_mem _ hm))
            (fun hm => hb (List.mem_cons_of_mem _ hm)) htail
          exact ⟨rfl, hxy⟩

/-- A text that is prefixed by its length is read back, whatever follows. -/
theorem decimal_append_inj {x y u v : Bytes}
    (h : decimal x.length ++ colon :: (x ++ u) = decimal y.length ++ colon :: (y ++ v)) :
    x = y ∧ u = v := by
  obtain ⟨hlength, htail⟩ :=
    append_colon_inj (colon_notMem_decimal _) (colon_notMem_decimal _) h
  exact List.append_inj htail (decimal_injective hlength)

theorem feedOf_cons (requests : Bytes) (f : Bytes × Bytes) (files : List (Bytes × Bytes)) :
    feedOf requests (f :: files) =
      ascii "file:" ++ (f.1 ++ colon :: (decimal f.2.length ++ colon ::
        (f.2 ++ feedOf requests files))) := by
  simp [feedOf, fileSegment]

theorem feedOf_inj {requests requests' : Bytes} {files files' : List (Bytes × Bytes)}
    (hfiles : ∀ f ∈ files, colon ∉ f.1) (hfiles' : ∀ f ∈ files', colon ∉ f.1)
    (h : feedOf requests files = feedOf requests' files') :
    files = files' ∧ requests = requests' := by
  -- the first byte of a segment tells a file from the requests
  have hfirst : ∀ u v : Bytes, ascii "file:" ++ u ≠ ascii "requests:" ++ v := by
    intro u v heq
    have hhead : byteOf 'f' = byteOf 'r' := Option.some.inj (congrArg List.head? heq)
    exact absurd hhead (by decide)
  induction files generalizing files' with
  | nil =>
      cases files' with
      | nil =>
          have htail : decimal requests.length ++ colon :: (requests ++ []) =
              decimal requests'.length ++ colon :: (requests' ++ []) := by
            simpa [feedOf, requestsSegment] using h
          exact ⟨rfl, (decimal_append_inj htail).1⟩
      | cons f' files' =>
          rw [feedOf_cons] at h
          refine absurd h.symm ?_
          simpa [feedOf, requestsSegment] using hfirst _ _
  | cons f files ih =>
      cases files' with
      | nil =>
          rw [feedOf_cons] at h
          refine absurd h ?_
          simpa [feedOf, requestsSegment] using hfirst _ _
      | cons f' files' =>
          rw [feedOf_cons, feedOf_cons] at h
          obtain ⟨hname, htail⟩ := append_colon_inj (hfiles f List.mem_cons_self)
            (hfiles' f' List.mem_cons_self) (List.append_cancel_left h)
          obtain ⟨hcontent, hrest⟩ := decimal_append_inj htail
          obtain ⟨rfl, hrequests⟩ := ih (fun f hf => hfiles f (List.mem_cons_of_mem _ hf))
            (fun f hf => hfiles' f (List.mem_cons_of_mem _ hf)) hrest
          exact ⟨congrArg (· :: files) (Prod.ext hname hcontent), hrequests⟩

/-! ### Names over some of the bytes -/

def Content.NamesOver (allowed : Byte → Prop) (c : Content) : Prop :=
  ∀ f ∈ c.files, ∀ b ∈ f.1, allowed b

/-- Contents whose names are made of some of the bytes have different fingerprints. -/
def InjectiveOver (allowed : Byte → Prop) : Prop :=
  ∀ c c' : Content, c.NamesOver allowed → c'.NamesOver allowed → c.feed = c'.feed → c = c'

/-- The digit after the `i`-th. -/
def digit (i : Fin 9) : Byte := byteOf (Nat.digitChar (i + 1))

/-- How many bytes are left of as many as two equal digits say, once their number and a
colon are written before them. -/
def padding (i : Fin 9) : ℕ := if i = 0 then 9 else 11 * i + 8

/-- A file that is named by a colon, and whose content reads as the end of another file. -/
def shortNamed (i : Fin 9) : List (Bytes × Bytes) :=
  [([colon], decimal (padding i) ++ colon :: List.replicate (padding i) 0)]

/-- The file that it reads as: its name has the length of the other one in it. -/
def longNamed (i : Fin 9) : List (Bytes × Bytes) :=
  [([colon, colon, digit i, digit i], List.replicate (padding i) 0)]

theorem feedOf_shortNamed (i : Fin 9) : feedOf [] (shortNamed i) = feedOf [] (longNamed i) := by
  revert i
  decide +kernel

theorem accepted_collision (i : Fin 9) :
    (∀ f ∈ shortNamed i, validateFilename f.1 = true) ∧
      ∀ f ∈ longNamed i, validateFilename f.1 = true := by
  revert i
  decide +kernel

def shortContent (i : Fin 9) : Content :=
  { files := shortNamed i, sorted := List.pairwise_singleton _ _
    accepted := (accepted_collision i).1, requests := [] }

def longContent (i : Fin 9) : Content :=
  { files := longNamed i, sorted := List.pairwise_singleton _ _
    accepted := (accepted_collision i).2, requests := [] }

theorem shortContent_ne_longContent (i : Fin 9) : shortContent i ≠ longContent i := by
  intro h
  have hfiles : shortNamed i = longNamed i := congrArg Content.files h
  cases (List.cons.inj (congrArg Prod.fst (List.cons.inj hfiles).1)).2

/-- Over names that are made of given bytes, a digit other than 0 among them, fingerprints
tell contents apart exactly if the colon is not among the bytes. -/
theorem injectiveOver_iff (allowed : Byte → Prop) (i : Fin 9) (hdigit : allowed (digit i)) :
    InjectiveOver allowed ↔ ¬allowed colon := by
  constructor
  · intro hinj hcolon
    refine shortContent_ne_longContent i (hinj _ _ ?_ ?_ (feedOf_shortNamed i))
    · intro f hf b hb
      cases List.mem_singleton.mp hf
      cases List.mem_singleton.mp hb
      exact hcolon
    · intro f hf b hb
      cases List.mem_singleton.mp hf
      simp only [List.mem_cons, List.not_mem_nil, or_false] at hb
      rcases hb with rfl | rfl | rfl | rfl
      · exact hcolon
      · exact hcolon
      · exact hdigit
      · exact hdigit
  · intro hcolon c c' hc hc' heq
    obtain ⟨hfiles, hrequests⟩ := feedOf_inj (fun f hf hm => hcolon (hc f hf colon hm))
      (fun f hf hm => hcolon (hc' f hf colon hm)) heq
    exact Content.ext hfiles hrequests

/-- Names without colons. -/
theorem injectiveOver_noColon : InjectiveOver (· ≠ colon) :=
  (injectiveOver_iff (· ≠ colon) 0 (by decide)).mpr fun h => h rfl

/-- The names that `validateFilename` accepts may have colons: of two scenarios with one
file each, the file `:` that holds `9:` and nine bytes more, and the file `::11` that holds
the nine bytes, the same is hashed. -/
theorem not_injectiveOver_colon : ¬InjectiveOver (fun _ => True) := by
  intro h
  exact shortContent_ne_longContent 0
    (h _ _ (fun _ _ _ _ => trivial) (fun _ _ _ _ => trivial) (feedOf_shortNamed 0))

end Honryu.Scenarios
