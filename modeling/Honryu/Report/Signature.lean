import Honryu.Lib.Text
import Honryu.Metrics.Interval

/-!
Failure modes: which side a failure belongs to, the signature it is counted
under, and the few wordings that are kept of it.
-/

namespace Honryu.Report

open Metrics

/-! ### Attribution -/

/-- `Side` is who a failure belongs to. -/
inductive Side
  | target
  | engine
  | unknown
  deriving DecidableEq

def Side.text : Side → String
  | .target => "target"
  | .engine => "engine"
  | .unknown => "unknown"

def engineFaults : List String :=
  ["too many open files", "cannot assign requested address", "outofmemoryerror",
    "out of memory", "cannot allocate memory", "taurus internal exception", "tool error",
    "no space left on device"]

def targetFaults : List String :=
  ["connection refused", "connection reset", "connection timed out", "read timed out",
    "i/o timeout", "timeout awaiting", "no route to host", "eofexception", "unexpected eof",
    "remote end closed connection", "connection aborted"]

def isResponseCode (code : String) : Bool :=
  match Text.atoi (Text.trimSpace code) with
  | some n => 100 ≤ n && n ≤ 599
  | none => false

/-- `AttributeError` decides who a failure belongs to. -/
def attributeError (e : ErrorGroup) : Side :=
  if isResponseCode e.responseCode then .target
  else
    let msg := Text.toLower e.message
    if msg = "" then .unknown
    else if engineFaults.any (Text.contains msg) then .engine
    else if targetFaults.any (Text.contains msg) then .target
    else .unknown

/-! ### Signatures -/

/-- `Signature` identifies a failure mode: the request that failed, the status
the target returned, and the side. Only a status or nothing is ever kept as the
code, so the separator of `String` does not occur in it. -/
@[ext] structure Signature where
  label : String
  responseCode : String
  side : Side
  bar_notMem : '|' ∉ responseCode.toList

instance : DecidableEq Signature := fun a b =>
  decidable_of_iff (a.label = b.label ∧ a.responseCode = b.responseCode ∧ a.side = b.side) (by
    rw [Signature.ext_iff])

theorem bar_notMem_of_isResponseCode {code : String} (h : isResponseCode code = true) :
    '|' ∉ code.toList := by
  intro hbar
  unfold isResponseCode at h
  split at h
  case h_1 n hn =>
    have hmem := Text.mem_trimSpace_of_not (c := '|') (by decide) hbar
    rcases Text.atoi_chars hn hmem with h | h | h <;> revert h <;> decide
  case h_2 => cases h

/-- `NewSignature` derives the signature of one engine-reported failure. -/
def newSignature (label : String) (e : ErrorGroup) : Signature :=
  let code := Text.trimSpace e.responseCode
  if h : isResponseCode code = true then
    { label, responseCode := code, side := attributeError e,
      bar_notMem := bar_notMem_of_isResponseCode h }
  else
    { label, responseCode := "", side := attributeError e, bar_notMem := by simp }

def Signature.string (s : Signature) : String :=
  s.side.text ++ "|" ++ s.responseCode ++ "|" ++ s.label

theorem Signature.toList_string (s : Signature) :
    s.string.toList =
      s.side.text.toList ++ '|' :: (s.responseCode.toList ++ '|' :: s.label.toList) := by
  simp [Signature.string]

theorem Side.bar_notMem_text (s : Side) : '|' ∉ s.text.toList := by
  cases s <;> decide

theorem Side.text_injective : Function.Injective Side.text := by
  intro a b h
  cases a <;> cases b <;> first | rfl | (revert h; decide)

theorem append_bar_inj {a a' b b' : List Char} (ha : '|' ∉ a) (ha' : '|' ∉ a')
    (h : a ++ '|' :: b = a' ++ '|' :: b') : a = a' ∧ b = b' := by
  induction a generalizing a' with
  | nil =>
      cases a' with
      | nil => simpa using h
      | cons c a' =>
          simp only [List.nil_append, List.cons_append, List.cons.injEq] at h
          simp [← h.1] at ha'
  | cons c a ih =>
      cases a' with
      | nil =>
          simp only [List.nil_append, List.cons_append, List.cons.injEq] at h
          simp [h.1] at ha
      | cons c' a' =>
          simp only [List.mem_cons, not_or] at ha ha'
          simp only [List.cons_append, List.cons.injEq] at h
          obtain ⟨hrest, hb⟩ := ih ha.2 ha'.2 h.2
          exact ⟨by rw [h.1, hrest], hb⟩

/-- No two signatures read alike: neither the side nor the code can hold the
separator, so the first two of them in the text are the ones `String` wrote. -/
theorem Signature.string_injective : Function.Injective Signature.string := by
  intro s t h
  have htext := congrArg String.toList h
  rw [toList_string, toList_string] at htext
  obtain ⟨hside, hrest⟩ :=
    append_bar_inj s.side.bar_notMem_text t.side.bar_notMem_text htext
  obtain ⟨hcode, hlabel⟩ := append_bar_inj s.bar_notMem t.bar_notMem hrest
  ext1
  · exact String.toList_inj.mp hlabel
  · exact String.toList_inj.mp hcode
  · exact Side.text_injective (String.toList_inj.mp hside)

/-- Signatures are ordered as the source sorts them, by their textual form. -/
instance : LinearOrder Signature := LinearOrder.lift' Signature.string Signature.string_injective

/-! ### Exemplars -/

def maxExemplars : ℕ := 3

def maxExemplarLen : ℕ := 300

/-- `ErrorSignature` is one failure mode across a whole run. -/
structure ErrorSignature where
  signature : Signature
  count : ℤ
  exemplars : List String
  deriving DecidableEq

/-- `addExemplar` keeps a wording if it is new and there is room. -/
def addExemplar (exemplars : List String) (msg : String) : List String :=
  let msg := Text.trimSpace msg
  if msg = "" ∨ maxExemplars ≤ exemplars.length then exemplars
  else
    let msg := if maxExemplarLen < msg.toList.length then
      String.ofList (msg.toList.take maxExemplarLen) else msg
    if msg ∈ exemplars then exemplars else exemplars ++ [msg]

def mergeExemplars (kept incoming : List String) : List String :=
  incoming.foldl addExemplar (kept.foldl addExemplar [])

end Honryu.Report
