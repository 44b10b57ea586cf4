import Honryu.Lib.Text

/-!
Lengths of time in nanoseconds, and `time.ParseDuration`, which reads one from a text: numbers with
their units, one after the other, the value of each and the value of all within 63 bits.
-/

namespace Durations

def second : ℤ := 1000000000

def minute : ℤ := 60 * second

def hour : ℤ := 60 * minute

/-! ### Reading -/

def limit : ℕ := 2 ^ 63

/-- `leadingInt`: the number that a text begins with, if it is not too large, and the rest. -/
def leadingInt : ℕ → List Char → Option (ℕ × List Char)
  | x, [] => some (x, [])
  | x, c :: cs =>
      if c.isDigit then
        if limit / 10 < x then none
        else
          let x := 10 * x + (c.toNat - '0'.toNat)
          if limit < x then none else leadingInt x cs
      else some (x, c :: cs)

/-- `leadingFraction`: the digits behind a point, the power of ten they are over, and the rest.
Digits for which there is no room are passed over, and so are all that follow them. -/
def leadingFraction (x scale : ℕ) (overflow : Bool) : List Char → ℕ × ℕ × List Char
  | [] => (x, scale, [])
  | c :: cs =>
      if c.isDigit then
        let y := 10 * x + (c.toNat - '0'.toNat)
        if overflow || (limit - 1) / 10 < x || limit < y then leadingFraction x scale true cs
        else leadingFraction y (10 * scale) false cs
      else (x, scale, c :: cs)

/-- The point of a number with what `leadingFraction` says of it, and whether digits are there. -/
def fraction : List Char → ℕ × ℕ × Bool × List Char
  | '.' :: s =>
      let (f, scale, rest) := leadingFraction 0 1 false s
      (f, scale, rest.length ≠ s.length, rest)
  | s => (0, 1, false, s)

/-- `unitMap`. -/
def unit? (name : String) : Option ℕ :=
  if name = "ns" then some 1
  else if name = "us" || name = "µs" || name = "μs" then some 1000
  else if name = "ms" then some 1000000
  else if name = "s" then some second.toNat
  else if name = "m" then some minute.toNat
  else if name = "h" then some hour.toNat
  else none

/-- What a number or the point of one begins with. -/
def isNumeral (c : Char) : Bool := c = '.' || c.isDigit

/-- One number with its unit, and what stands behind it. -/
def term (s : List Char) : Option (ℕ × List Char) := do
  guard (s.head?.any isNumeral)
  let (v, rest) ← leadingInt 0 s
  let pre := rest.length ≠ s.length
  let (f, scale, post, rest) := fraction rest
  guard (pre || post)
  let (name, rest) := rest.span fun c => !isNumeral c
  let unit ← unit? (String.ofList name)
  guard (v ≤ limit / unit)
  let v := v * unit + ⌊(f : ℚ) * (unit / scale)⌋₊
  guard (v ≤ limit)
  return (v, rest)

/-- The loop of `ParseDuration`. Every number is a part of the text, so a round for each character
is enough. -/
def terms : ℕ → ℕ → List Char → Option ℕ
  | _, d, [] => some d
  | 0, _, _ :: _ => none
  | rounds + 1, d, c :: cs => do
      let (v, rest) ← term (c :: cs)
      -- the sum is one of 64 bits
      let d := (d + v) % (2 * limit)
      guard (d ≤ limit)
      terms rounds d rest

/-- `time.ParseDuration`. -/
def parse (s : String) : Option ℤ := do
  let (sign, cs) := Text.splitSign s.toList
  if cs = ['0'] then return 0
  guard (cs ≠ [])
  let d ← terms cs.length 0 cs
  if sign < 0 then return -d
  guard (d < limit)
  return d

example : parse "1h2m3.5s" = some (hour + 2 * minute + 3500000000) := by decide +kernel

example : parse "-.5m" = some (-30 * second) := by decide +kernel

/-! ### A whole number with its unit -/

theorem le_ofDigitChars (cs : List Char) (x : ℕ) : x ≤ Nat.ofDigitChars 10 cs x := by
  induction cs generalizing x with
  | nil => exact le_rfl
  | cons c cs ih =>
      rw [Nat.ofDigitChars_cons]
      exact le_trans (by omega) (ih _)

/-- Digits are read as the number they are, if it is not too large. -/
theorem leadingInt_append {cs rest : List Char} (hcs : ∀ c ∈ cs, c.isDigit = true)
    (hrest : ∀ c ∈ rest.head?, c.isDigit = false) {x : ℕ}
    (hle : Nat.ofDigitChars 10 cs x ≤ limit) :
    leadingInt x (cs ++ rest) = some (Nat.ofDigitChars 10 cs x, rest) := by
  induction cs generalizing x with
  | nil =>
      cases rest with
      | nil => rfl
      | cons c rest => simp [leadingInt, hrest c rfl]
  | cons c cs ih =>
      rw [Nat.ofDigitChars_cons] at hle ⊢
      have hstep := (le_ofDigitChars cs _).trans hle
      have hroom : x ≤ limit / 10 := by omega
      rw [List.cons_append, leadingInt, if_pos (hcs c List.mem_cons_self), if_neg hroom.not_gt,
        if_neg hstep.not_gt]
      exact ih (fun a ha => hcs a (List.mem_cons_of_mem _ ha)) hle

section Whole

variable {n unit : ℕ} {u : Char} (hu : isNumeral u = false)
  (hunit : unit? (String.singleton u) = some unit)

include hu hunit

/-- A whole number is read with the unit that stands behind it. -/
theorem term_repr (hn : n ≤ limit / unit) : term (n.repr.toList ++ [u]) = some (n * unit, []) := by
  rw [Nat.toList_repr]
  have hdigits : ∀ c ∈ Nat.toDigits 10 n, c.isDigit = true :=
    fun c hc => Nat.isDigit_of_mem_toDigits (by decide) le_rfl hc
  have hnumeral : ∀ c : Char, c.isDigit = true → isNumeral c = true := by
    intro c hc
    rw [isNumeral, hc, Bool.or_true]
  obtain ⟨hpoint, hdigit⟩ : u ≠ '.' ∧ u.isDigit = false := by simpa [isNumeral] using hu
  have hprod : n * unit ≤ limit := (Nat.mul_le_mul_right unit hn).trans (Nat.div_mul_le_self _ _)
  have hle : n ≤ limit := hn.trans (Nat.div_le_self _ _)
  have hlead : leadingInt 0 (Nat.toDigits 10 n ++ [u]) = some (n, [u]) := by
    rw [leadingInt_append hdigits (by simpa using hdigit)
      (Nat.ofDigitChars_ten_toDigits.trans_le hle), Nat.ofDigitChars_ten_toDigits]
  have hfraction : fraction [u] = (0, 1, false, [u]) := by
    unfold fraction
    split
    case h_1 heq => exact absurd (List.cons.inj heq).1 hpoint
    case h_2 => rfl
  obtain ⟨c, cs, hcs⟩ := List.exists_cons_of_ne_nil (Nat.toDigits_ne_nil (n := n) (b := 10))
  have hhead : isNumeral c = true := hnumeral c (hdigits c (by rw [hcs]; exact List.mem_cons_self))
  rw [hcs, List.cons_append] at hlead ⊢
  simp [term, hlead, hhead, hfraction, hu, hunit, hn, hprod, List.span_eq_takeWhile_dropWhile]

theorem parse_repr (hpos : 0 < unit) (hn : n * unit < limit) :
    parse (n.repr ++ String.singleton u) = some ((n * unit : ℕ) : ℤ) := by
  have hterm := term_repr hu hunit ((Nat.le_div_iff_mul_le hpos).mpr hn.le)
  obtain ⟨c, cs, hcs⟩ := List.exists_cons_of_ne_nil (Nat.toDigits_ne_nil (n := n) (b := 10))
  have hc : c.isDigit = true :=
    Nat.isDigit_of_mem_toDigits (n := n) (b := 10) (by decide) le_rfl
      (by rw [hcs]; exact List.mem_cons_self)
  rw [Nat.toList_repr, hcs, List.cons_append] at hterm
  have hsign : Text.splitSign (c :: (cs ++ [u])) = (1, c :: (cs ++ [u])) := by
    unfold Text.splitSign
    split
    case h_1 heq => exact absurd ((List.cons.inj heq).1 ▸ hc) (by decide)
    case h_2 heq => exact absurd ((List.cons.inj heq).1 ▸ hc) (by decide)
    case h_3 => rfl
  have hmod : n * unit % (2 * limit) = n * unit := Nat.mod_eq_of_lt (by omega)
  simp [parse, Nat.toList_repr, hcs, hsign, terms, hterm, hmod, hn, hn.le]

end Whole

end Durations
