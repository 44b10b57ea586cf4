import Mathlib

/-!
The few string operations of the standard library that programs lean on:
trimming white space, lowering letters for a search in plain text, and
reading a number.
-/

namespace Text

def isSpace (c : Char) : Bool :=
  c ∈ ['\t', '\n', '\x0b', '\x0c', '\r', ' ', '\u0085', '\u00a0', '\u1680',
    '\u2028', '\u2029', '\u202f', '\u205f', '\u3000'] ||
  ('\u2000' ≤ c && c ≤ '\u200a')

/-- `strings.TrimSpace`: the text without its leading and trailing white space. -/
def trimSpace (s : String) : String :=
  String.ofList ((s.toList.dropWhile isSpace).rdropWhile isSpace)

/-- Lowering one letter. Of the letters outside ASCII only two lower to a
letter of ASCII; the others cannot take part in a match against plain text and
are left as they are. -/
def lowerRune (c : Char) : Char :=
  if c = '\u0130' then 'i'
  else if c = 'K' then 'k'
  else c.toLower

/-- `strings.ToLower`, as a search for plain text sees it. -/
def toLower (s : String) : String := String.ofList (s.toList.map lowerRune)

/-- `strings.Contains`. -/
def contains (s phrase : String) : Bool := decide (phrase.toList <:+: s.toList)

/-! ### Decimal integers -/

def digits? : List Char → Option ℕ
  | [] => none
  | cs => if cs.all Char.isDigit then
      some (cs.foldl (fun n c => 10 * n + (c.toNat - '0'.toNat)) 0) else none

def splitSign : List Char → ℤ × List Char
  | '-' :: cs => (-1, cs)
  | '+' :: cs => (1, cs)
  | cs => (1, cs)

/-- `strconv.Atoi` on a 64-bit machine: an optional sign, then digits, and a
value that fits. -/
def atoi (s : String) : Option ℤ :=
  let (sign, cs) := splitSign s.toList
  ((digits? cs).map fun n : ℕ => sign * (n : ℤ)).filter fun n => -2 ^ 63 ≤ n && n < 2 ^ 63

/-! ### Texts that are put together -/

section Parts

variable {p : Char → Bool} {w rest : List Char}

/-- What is taken off a text ends where the next part begins. -/
theorem span_append (hw : ∀ c ∈ w, p c = true) (hrest : ∀ c ∈ rest.head?, p c = false) :
    (w ++ rest).span p = (w, rest) := by
  have hstop : rest.takeWhile p = [] ∧ rest.dropWhile p = rest := by
    cases rest with
    | nil => exact ⟨rfl, rfl⟩
    | cons c rest => simp [hrest c rfl]
  rw [List.span_eq_takeWhile_dropWhile, List.takeWhile_append_of_pos hw,
    List.dropWhile_append_of_pos hw, hstop.1, hstop.2, List.append_nil]

theorem forall_head?_append {P : Char → Prop} (hw : ∀ c ∈ w, P c) (hrest : ∀ c ∈ rest.head?, P c) :
    ∀ c ∈ (w ++ rest).head?, P c := by
  cases w with
  | nil => exact hrest
  | cons a w => exact fun c hc => Option.some.inj hc ▸ hw a List.mem_cons_self

/-- What a text begins with is what is dropped of it. -/
theorem exists_append_dropWhile (p : Char → Bool) (cs : List Char) :
    ∃ b, (∀ c ∈ b, p c = true) ∧ cs = b ++ cs.dropWhile p :=
  ⟨cs.takeWhile p, fun _ hc => List.mem_takeWhile_imp hc, (List.takeWhile_append_dropWhile).symm⟩

theorem dropWhile_append (hw : ∀ c ∈ w, p c = true) (hrest : ∀ c ∈ rest.head?, p c = false) :
    (w ++ rest).dropWhile p = rest := by
  have hspan := congrArg Prod.snd (span_append hw hrest)
  rwa [List.span_eq_takeWhile_dropWhile] at hspan

end Parts

/-! ### Plain decimal numbers -/

/-- `strconv.ParseFloat` of a plain number: digits with a point among them or none. A number
with a sign or an exponent is not read. -/
def parseDecimal (cs : List Char) : Option ℚ :=
  match cs.span Char.isDigit with
  | (whole, []) => (digits? whole).map fun n : ℕ => (n : ℚ)
  | (whole, '.' :: part) => (digits? (whole ++ part)).map fun n : ℕ => (n : ℚ) / 10 ^ part.length
  | _ => none

theorem digits?_isSome {cs : List Char} (hne : cs ≠ []) (hcs : ∀ c ∈ cs, c.isDigit = true) :
    (digits? cs).isSome = true := by
  cases cs with
  | nil => exact absurd rfl hne
  | cons c cs =>
      have hall := List.all_eq_true.mpr hcs
      simp only [digits?, hall, if_true, Option.isSome_some]

example : parseDecimal "12.50".toList = some (25 / 2) := by decide +kernel

/-! ### Numbers in full -/

/-- `lower` of `strconv`, which sets the bit that tells small letters. -/
def isLetter (c letter : Char) : Bool := c.toLower = letter

/-- The value of a digit of a decimal or of a hexadecimal number. -/
def digitValue (hex : Bool) (c : Char) : Option ℕ :=
  if c.isDigit then some (c.toNat - '0'.toNat)
  else if hex && 'a' ≤ c.toLower && c.toLower ≤ 'f' then
    some (c.toLower.toNat - 'a'.toNat + 10)
  else none

/-- What `underscoreOK` saw last. -/
inductive Saw
  | digit
  | underscore
  | other
  deriving DecidableEq

/-- The loop of `underscoreOK`: an underscore stands between digits. -/
def underscoresOK (hex : Bool) : Saw → List Char → Bool
  | saw, [] => saw ≠ .underscore
  | saw, c :: cs =>
      if (digitValue hex c).isSome then underscoresOK hex .digit cs
      else if c = '_' then saw = .digit && underscoresOK hex .underscore cs
      else saw ≠ .underscore && underscoresOK hex .other cs

/-- The prefix of a hexadecimal number, which something follows. -/
def takeHex : List Char → Bool × List Char
  | '0' :: x :: c :: cs => if isLetter x 'x' then (true, c :: cs) else (false, '0' :: x :: c :: cs)
  | cs => (false, cs)

/-- The exponent of a number, where there is one. A hexadecimal number has to have one. -/
def takeExponent (hex : Bool) : List Char → Option ℤ
  | [] => if hex then none else some 0
  | e :: cs =>
      if isLetter e (if hex then 'p' else 'e') then
        let (sign, cs) := splitSign cs
        if (cs.head?.any Char.isDigit) && cs.all fun c => c.isDigit || c = '_' then
          (digits? (cs.filter (· ≠ '_'))).map fun n : ℕ => sign * (n : ℤ)
        else none
      else none

/-- `strconv.ParseFloat`, but for infinities and what is not a number: a sign, the digits of a
decimal or hexadecimal number with perhaps a point and with underscores between them, and perhaps
an exponent. A number that no float is near to is read as well. -/
def parseFloat (cs : List Char) : Option ℚ :=
  let (sign, cs) := splitSign cs
  let (hex, cs) := takeHex cs
  let isPart := fun c => (digitValue hex c).isSome || c = '_'
  let (whole, rest) := cs.span isPart
  let (part, rest) := match rest with
    | '.' :: rest => rest.span isPart
    | rest => ([], rest)
  let digits := (whole ++ part).filterMap (digitValue hex)
  match digits, takeExponent hex rest with
  | _ :: _, some exponent =>
      if underscoresOK hex (if hex then .digit else .other) cs then
        let base : ℕ := if hex then 16 else 10
        let mantissa := digits.foldl (fun n d => base * n + d) 0
        let scale := (part.filterMap (digitValue hex)).length
        some (sign * mantissa / base ^ scale * (if hex then 2 else 10) ^ exponent)
      else none
  | _, _ => none

example : parseFloat "9_5e-1".toList = some (19 / 2) := by decide +kernel

example : parseFloat "0x1.8p2".toList = some 6 := by decide +kernel

/-! ### What trimming and reading keep -/

theorem mem_dropWhile_of_not {p : Char → Bool} {c : Char} (hc : p c = false) {l : List Char}
    (h : c ∈ l) : c ∈ l.dropWhile p := by
  induction l with
  | nil => simp at h
  | cons a l ih =>
      by_cases ha : p a = true
      · have hne : c ≠ a := by
          rintro rfl
          simp [hc] at ha
        rw [List.dropWhile_cons_of_pos ha]
        exact ih ((List.mem_cons.mp h).resolve_left hne)
      · rwa [List.dropWhile_cons_of_neg ha]

theorem mem_trimSpace_of_not {c : Char} (hc : isSpace c = false) {s : String}
    (h : c ∈ s.toList) : c ∈ (trimSpace s).toList := by
  rw [trimSpace, String.toList_ofList, List.rdropWhile, List.mem_reverse]
  refine mem_dropWhile_of_not hc (List.mem_reverse.mpr ?_)
  exact mem_dropWhile_of_not hc h

/-- A text is trimmed if it neither begins nor ends with white space. -/
theorem trimSpace_eq_self_iff {s : String} :
    trimSpace s = s ↔
      (∀ c ∈ s.toList.head?, isSpace c = false) ∧ ∀ c ∈ s.toList.getLast?, isSpace c = false := by
  have htrim : trimSpace s = s ↔ (s.toList.dropWhile isSpace).rdropWhile isSpace = s.toList := by
    rw [← String.toList_inj, trimSpace, String.toList_ofList]
  rw [htrim]
  cases hs : s.toList with
  | nil => simp
  | cons c cs =>
      by_cases hc : isSpace c = true
      · have hshort : ((cs.dropWhile isSpace).rdropWhile isSpace).length < (c :: cs).length :=
          ((List.rdropWhile_prefix isSpace _).length_le.trans
            (List.dropWhile_suffix isSpace).length_le).trans_lt (Nat.lt_succ_self _)
        rw [List.dropWhile_cons_of_pos hc]
        refine iff_of_false (fun h => hshort.ne (congrArg List.length h)) fun h => ?_
        exact absurd (h.1 c rfl) (by rw [hc]; exact Bool.true_eq_false_eq_False)
      · rw [List.dropWhile_cons_of_neg hc, List.rdropWhile_eq_self_iff]
        simp [Bool.eq_false_iff.mpr hc, List.getLast?_eq_some_getLast]

theorem trimSpace_trimSpace (s : String) : trimSpace (trimSpace s) = trimSpace s := by
  rw [trimSpace_eq_self_iff, trimSpace, String.toList_ofList]
  constructor
  · intro c hc
    obtain ⟨rest, hrest⟩ := List.rdropWhile_prefix isSpace (s.toList.dropWhile isSpace)
    have hhead : c ∈ (s.toList.dropWhile isSpace).head? := by
      rw [← hrest, List.head?_append, Option.mem_def.mp hc]
      rfl
    exact Bool.eq_false_iff.mpr fun h => by
      have := List.head?_dropWhile_not isSpace s.toList
      simp_all
  · intro c hc
    obtain ⟨hne, rfl⟩ := List.mem_getLast?_eq_getLast hc
    exact Bool.eq_false_iff.mpr (List.rdropWhile_last_not isSpace _ hne)

theorem length_trimSpace_le (s : String) : (trimSpace s).toList.length ≤ s.toList.length := by
  rw [trimSpace, String.toList_ofList]
  exact (List.rdropWhile_prefix isSpace _).length_le.trans (List.dropWhile_suffix isSpace).length_le

theorem digits?_isDigit {cs : List Char} {n : ℕ} (h : digits? cs = some n) {c : Char}
    (hc : c ∈ cs) : c.isDigit = true := by
  cases cs with
  | nil => simp at hc
  | cons a l =>
      simp only [digits?] at h
      split at h
      case isTrue hall => exact List.all_eq_true.mp hall c hc
      case isFalse => cases h

theorem mem_splitSign {c : Char} {cs : List Char} (h : c ∈ cs) :
    c = '-' ∨ c = '+' ∨ c ∈ (splitSign cs).2 := by
  unfold splitSign
  split
  · rcases List.mem_cons.mp h with h | h
    · exact .inl h
    · exact .inr (.inr h)
  · rcases List.mem_cons.mp h with h | h
    · exact .inr (.inl h)
    · exact .inr (.inr h)
  · exact .inr (.inr h)

theorem atoi_chars {s : String} {n : ℤ} (h : atoi s = some n) {c : Char} (hc : c ∈ s.toList) :
    c = '-' ∨ c = '+' ∨ c.isDigit = true := by
  have hmap := Option.eq_some_of_filter_eq_some h
  obtain ⟨m, hm, -⟩ := Option.map_eq_some_iff.mp hmap
  rcases mem_splitSign hc with h | h | h
  · exact .inl h
  · exact .inr (.inl h)
  · exact .inr (.inr (digits?_isDigit hm h))

example : atoi "-0404" = some (-404) := by decide

end Text
