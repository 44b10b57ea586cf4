import Honryu.Lib.Durations
import Mathlib.Data.Int.Order.Lemmas

/-!
How a duration is written into the configuration of an engine, and how it is read back.

A duration is written in the largest unit of hours, minutes and seconds that it is a multiple of.
One that is no multiple of a second is written as one second if it is shorter, and cut down to
whole seconds otherwise.
-/

namespace Honryu.Taurus

open Durations

/-- `MarshalYAML`. Division and remainder round towards zero. -/
def marshalYAML (td : ℤ) : String :=
  if td = 0 then "0s"
  else if td.tmod hour = 0 then toString (td.tdiv hour) ++ "h"
  else if td.tmod minute = 0 then toString (td.tdiv minute) ++ "m"
  else if td < second then "1s"
  else toString (td.tdiv second) ++ "s"

inductive DurationError
  | notADuration (text : String)
  deriving DecidableEq

/-- `UnmarshalYAML`, of a text. A number alone is one of seconds, and the product one of 64 bits. -/
def unmarshalYAML (s : String) : Except DurationError ℤ :=
  match Durations.parse s with
  | some td => .ok td
  | none =>
      match Text.atoi s with
      | some secs => .ok ((secs * second).bmod (2 ^ 64))
      | none => .error (.notADuration s)

example : unmarshalYAML "45" = .ok (45 * second) := by decide +kernel

/-! ### There and back -/

section Whole

variable {d : ℤ} (h0 : 0 ≤ d) (hd : d < 2 ^ 63)

include h0 hd

/-- What is written in a unit is read as the part of it that is a multiple of the unit. -/
theorem unmarshalYAML_unit {unit : ℤ} {u : Char} (hu : isNumeral u = false)
    (hunit : unit? (String.singleton u) = some unit.toNat) (hpos : 0 < unit) :
    unmarshalYAML (toString (d.tdiv unit) ++ String.singleton u) = .ok (d / unit * unit) := by
  obtain ⟨n, hn⟩ := Int.eq_ofNat_of_zero_le (Int.ediv_nonneg h0 hpos.le)
  have hcast : ((n * unit.toNat : ℕ) : ℤ) = d / unit * unit := by
    rw [Nat.cast_mul, Int.toNat_of_nonneg hpos.le, hn]
  have hlt : n * unit.toNat < limit := by
    have hle : d / unit * unit ≤ d := Int.ediv_mul_le d hpos.ne'
    rw [← hcast] at hle
    rw [limit]
    omega
  rw [Int.tdiv_eq_ediv_of_nonneg h0, hn, unmarshalYAML]
  rw [show toString (n : ℤ) = n.repr from rfl, parse_repr hu hunit (by omega) hlt, ← hn, hcast]

theorem unmarshalYAML_marshalYAML :
    unmarshalYAML (marshalYAML d) =
      .ok (if 0 < d ∧ d < second then second else d / second * second) := by
  have hdvd (unit : ℤ) (hpos : 0 < unit) (hsecond : second ∣ unit) (hne : d ≠ 0)
      (hmod : d.tmod unit = 0) :
      d / unit * unit = if 0 < d ∧ d < second then second else d / second * second := by
    have hunit : unit ∣ d := Int.dvd_of_tmod_eq_zero hmod
    have hlong : second ≤ d :=
      (Int.le_of_dvd hpos hsecond).trans (Int.le_of_dvd (by omega) hunit)
    rw [if_neg (by omega), Int.ediv_mul_cancel hunit, Int.ediv_mul_cancel (hsecond.trans hunit)]
  unfold marshalYAML
  split
  case isTrue hzero =>
    subst hzero
    decide +kernel
  case isFalse hne =>
    split
    case isTrue hhour =>
      rw [← hdvd hour (by decide) (by decide) hne hhour]
      exact unmarshalYAML_unit h0 hd (u := 'h') (by decide) (by decide) (by decide)
    case isFalse =>
      split
      case isTrue hminute =>
        rw [← hdvd minute (by decide) (by decide) hne hminute]
        exact unmarshalYAML_unit h0 hd (u := 'm') (by decide) (by decide) (by decide)
      case isFalse =>
        split
        case isTrue hshort =>
          rw [if_pos ⟨by omega, hshort⟩]
          decide +kernel
        case isFalse hlong =>
          rw [if_neg (fun h => hlong h.2)]
          exact unmarshalYAML_unit h0 hd (u := 's') (by decide) (by decide) (by decide)

end Whole

/-- A duration that is written and read back has not shrunk, has grown by less than a second, and
is the same if it is one of whole seconds. -/
def LengthKept (d : ℤ) : Prop :=
  ∃ d', unmarshalYAML (marshalYAML d) = .ok d' ∧ d ≤ d' ∧ d' < d + second ∧ (second ∣ d → d' = d)

/-- A duration is kept if it is one of whole seconds or shorter than a second, and shrinks
otherwise. -/
theorem lengthKept_iff {d : ℤ} (h0 : 0 ≤ d) (hd : d < 2 ^ 63) :
    LengthKept d ↔ second ∣ d ∨ d < second := by
  have hpos : 0 < second := by decide
  have hround := unmarshalYAML_marshalYAML h0 hd
  constructor
  · rintro ⟨d', hread, hle, -⟩
    rw [hround, Except.ok.injEq] at hread
    by_contra! hpart
    rw [if_neg (by omega)] at hread
    have hfloor := Int.ediv_mul_le d hpos.ne'
    exact hpart.1 (Dvd.intro_left (d / second) (by omega))
  · intro h
    by_cases hwhole : second ∣ d
    · refine ⟨d, ?_, le_rfl, by omega, fun _ => rfl⟩
      have hshort : ¬(0 < d ∧ d < second) := fun h => (Int.le_of_dvd h.1 hwhole).not_gt h.2
      rw [hround, if_neg hshort, Int.ediv_mul_cancel hwhole]
    · have hne : d ≠ 0 := fun h => hwhole (h ▸ dvd_zero second)
      have hshort : 0 < d ∧ d < second := ⟨by omega, h.resolve_left hwhole⟩
      rw [if_pos hshort] at hround
      exact ⟨second, hround, hshort.2.le, by omega, fun h => absurd h hwhole⟩

theorem lengthKept_ninetySeconds : second ∣ 90 * second ∧ LengthKept (90 * second) :=
  ⟨by decide, (lengthKept_iff (by decide) (by decide)).mpr (.inl (by decide))⟩

/-- A second and a half is read back as a second. -/
theorem not_lengthKept_oneAndAHalf :
    unmarshalYAML (marshalYAML 1500000000) = .ok second ∧ ¬LengthKept 1500000000 := by
  have hread : unmarshalYAML (marshalYAML 1500000000) = .ok second := by decide +kernel
  refine ⟨hread, ?_⟩
  rintro ⟨d', hread', hle, -⟩
  rw [hread, Except.ok.injEq] at hread'
  exact absurd hle (by rw [← hread']; decide)

end Honryu.Taurus
