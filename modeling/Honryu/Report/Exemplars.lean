import Honryu.Report.Accumulate

/-!
Which wordings of a failure are kept. That depends on the order the messages
arrive in, but how many are kept does not: as long as there is room every new
wording is kept, so it is as many as there are, or as many as there is room for.
-/

namespace Honryu.Report

open Metrics

/-! ### Keeping wordings -/

def wording (msg : String) : String :=
  let msg := Text.trimSpace msg
  if maxExemplarLen < msg.toList.length then String.ofList (msg.toList.take maxExemplarLen)
  else msg

theorem wording_eq_empty_iff (msg : String) : wording msg = "" ↔ Text.trimSpace msg = "" := by
  simp only [wording]
  split
  case isTrue h =>
    have hne : Text.trimSpace msg ≠ "" := by
      intro hempty
      rw [hempty] at h
      simp [maxExemplarLen] at h
    have htake : (Text.trimSpace msg).toList.take maxExemplarLen ≠ [] := by
      rw [Ne, List.take_eq_nil_iff, not_or]
      exact ⟨by simp [maxExemplarLen], fun hnil => hne (String.toList_eq_nil_iff.mp hnil)⟩
    rw [← String.toList_eq_nil_iff, String.toList_ofList]
    exact iff_of_false htake hne
  case isFalse => rfl

theorem addExemplar_eq (exemplars : List String) (msg : String) :
    addExemplar exemplars msg =
      if wording msg = "" ∨ maxExemplars ≤ exemplars.length ∨ wording msg ∈ exemplars then
        exemplars
      else exemplars ++ [wording msg] := by
  show (if Text.trimSpace msg = "" ∨ maxExemplars ≤ exemplars.length then exemplars
    else if wording msg ∈ exemplars then exemplars else exemplars ++ [wording msg]) = _
  simp only [wording_eq_empty_iff, ← or_assoc]
  by_cases hfull : Text.trimSpace msg = "" ∨ maxExemplars ≤ exemplars.length <;>
    by_cases hmem : wording msg ∈ exemplars <;> simp [hfull, hmem]

def wordings (msgs : List String) : Finset String := (msgs.map wording).toFinset.erase ""

theorem mem_wordings {msgs : List String} {x : String} :
    x ∈ wordings msgs ↔ x ≠ "" ∧ ∃ msg ∈ msgs, wording msg = x := by
  simp [wordings]

structure Kept (msgs exemplars : List String) : Prop where
  nodup : exemplars.Nodup
  mem : ∀ x ∈ exemplars, x ∈ wordings msgs
  length_le : exemplars.length ≤ maxExemplars
  all : exemplars.length < maxExemplars → ∀ x ∈ wordings msgs, x ∈ exemplars

theorem Kept.addExemplar {msgs exemplars : List String} (h : Kept msgs exemplars) (msg : String) :
    Kept (msgs ++ [msg]) (addExemplar exemplars msg) := by
  have hsub : ∀ x ∈ exemplars, x ∈ wordings (msgs ++ [msg]) := by
    intro x hx
    obtain ⟨hne, m, hm, rfl⟩ := mem_wordings.mp (h.mem x hx)
    exact mem_wordings.mpr ⟨hne, m, List.mem_append_left _ hm, rfl⟩
  have hnew : ∀ x ∈ wordings (msgs ++ [msg]), x ∈ wordings msgs ∨ x ≠ "" ∧ wording msg = x := by
    intro x hx
    obtain ⟨hne, m, hm, rfl⟩ := mem_wordings.mp hx
    rcases List.mem_append.mp hm with hm | hm
    · exact .inl (mem_wordings.mpr ⟨hne, m, hm, rfl⟩)
    · rw [List.mem_singleton] at hm
      exact .inr ⟨hne, by rw [hm]⟩
  rw [addExemplar_eq]
  split
  case isTrue hskip =>
    refine ⟨h.nodup, hsub, h.length_le, fun hroom x hx => ?_⟩
    rcases hnew x hx with hold | ⟨hne, rfl⟩
    · exact h.all hroom x hold
    -- with room left and something to keep, it was skipped for being there already
    · rcases hskip with hempty | hfull | hmem
      · exact absurd hempty hne
      · exact absurd hroom (not_lt.mpr hfull)
      · exact hmem
  case isFalse hkeep =>
    simp only [not_or, not_le] at hkeep
    obtain ⟨hne, hroom, hmem⟩ := hkeep
    refine ⟨?_, ?_, by simpa using hroom, fun _ x hx => ?_⟩
    · exact List.nodup_append'.mpr ⟨h.nodup, List.nodup_singleton _, by simpa using hmem⟩
    · intro x hx
      rcases List.mem_append.mp hx with hx | hx
      · exact hsub x hx
      · rw [List.mem_singleton.mp hx]
        exact mem_wordings.mpr ⟨hne, msg, by simp, rfl⟩
    · rcases hnew x hx with hold | ⟨-, rfl⟩
      · exact List.mem_append_left _ (h.all hroom x hold)
      · simp

theorem kept_foldl (msgs : List String) : Kept msgs (msgs.foldl addExemplar []) := by
  induction msgs using List.reverseRecOn with
  | nil => exact ⟨List.nodup_nil, by simp, by simp, by simp [wordings]⟩
  | append_singleton msgs msg ih =>
      rw [List.foldl_append, List.foldl_cons, List.foldl_nil]
      exact ih.addExemplar msg

/-- As many wordings are kept as there are, or as there is room for. -/
theorem Kept.length_eq {msgs exemplars : List String} (h : Kept msgs exemplars) :
    exemplars.length = min maxExemplars (wordings msgs).card := by
  have hcard : exemplars.toFinset.card = exemplars.length := List.toFinset_card_of_nodup h.nodup
  have hsub : exemplars.toFinset ⊆ wordings msgs := fun x hx => h.mem x (List.mem_toFinset.mp hx)
  have hle := Finset.card_le_card hsub
  rcases lt_or_eq_of_le h.length_le with hroom | hfull
  · have heq : exemplars.toFinset = wordings msgs :=
      hsub.antisymm fun x hx => List.mem_toFinset.mpr (h.all hroom x hx)
    rw [← heq, hcard, min_eq_right h.length_le]
  · rw [min_eq_left (by omega), hfull]

theorem length_foldl_addExemplar_perm {msgs msgs' : List String} (h : msgs.Perm msgs') :
    (msgs.foldl addExemplar []).length = (msgs'.foldl addExemplar []).length := by
  have hsame : wordings msgs = wordings msgs' := by
    ext x
    simp only [mem_wordings, h.mem_iff]
  rw [(kept_foldl msgs).length_eq, (kept_foldl msgs').length_eq, hsame]

/-! ### Merging what was kept

A message that is longer than the bound is cut after it was trimmed. If it is cut after white space,
the wording that is kept ends in white space, and is trimmed when it is merged.
-/

def CutAtSpace (msg : String) : Prop :=
  maxExemplarLen < (Text.trimSpace msg).toList.length ∧
    ∃ c ∈ ((Text.trimSpace msg).toList.take maxExemplarLen).getLast?, Text.isSpace c = true

theorem length_wording_le (msg : String) : (wording msg).toList.length ≤ maxExemplarLen := by
  simp only [wording]
  split
  · rw [String.toList_ofList]
    exact List.length_take_le _ _
  · exact not_lt.mp ‹_›

theorem wording_of_length_le {msg : String} (h : msg.toList.length ≤ maxExemplarLen) :
    wording msg = Text.trimSpace msg := by
  simp only [wording, if_neg (not_lt.mpr ((Text.length_trimSpace_le msg).trans h))]

theorem wording_fixed_iff (msg : String) :
    wording (wording msg) = wording msg ↔ ¬CutAtSpace msg := by
  have htrimmed := Text.trimSpace_eq_self_iff.mp (Text.trimSpace_trimSpace msg)
  rw [wording_of_length_le (length_wording_le msg), Text.trimSpace_eq_self_iff, CutAtSpace]
  simp only [wording]
  split
  case isTrue hlong =>
    rw [String.toList_ofList, List.head?_take, if_neg (by decide)]
    refine ⟨fun h hcut => ?_, fun hcut => ⟨htrimmed.1, fun c hc => ?_⟩⟩
    · obtain ⟨-, c, hc, hspace⟩ := hcut
      exact absurd hspace (by rw [h.2 c hc]; exact Bool.false_ne_true)
    · exact Bool.eq_false_iff.mpr fun hspace => hcut ⟨hlong, c, hc, hspace⟩
  case isFalse hshort =>
    exact iff_of_true htrimmed fun hcut => hshort hcut.1

def exemplarsOf (msgs : List String) : List String := msgs.foldl addExemplar []

theorem prefix_foldl_addExemplar (kept msgs : List String) :
    kept <+: msgs.foldl addExemplar kept := by
  induction msgs generalizing kept with
  | nil => exact List.prefix_rfl
  | cons msg msgs ih =>
      refine List.IsPrefix.trans ?_ (ih _)
      rw [addExemplar_eq]
      split
      · exact List.prefix_rfl
      · exact List.prefix_append _ _

/-- Once there is no room, or the wording is there, a message makes no difference. -/
theorem addExemplar_of_settled {kept : List String} {msg : String}
    (h : wording msg = "" ∨ maxExemplars ≤ kept.length ∨ wording msg ∈ kept) :
    addExemplar kept msg = kept := by
  rw [addExemplar_eq, if_pos h]

theorem settled_foldl_addExemplar (kept : List String) {msgs : List String} {msg : String}
    (hmsg : msg ∈ msgs) :
    wording msg = "" ∨ maxExemplars ≤ (msgs.foldl addExemplar kept).length ∨
      wording msg ∈ msgs.foldl addExemplar kept := by
  induction msgs generalizing kept with
  | nil => cases hmsg
  | cons first msgs ih =>
      rw [List.foldl_cons]
      obtain rfl | hmsg := List.mem_cons.mp hmsg
      · have hpre := prefix_foldl_addExemplar (addExemplar kept msg) msgs
        by_cases hsettled : wording msg = "" ∨ maxExemplars ≤ kept.length ∨ wording msg ∈ kept
        · rw [addExemplar_of_settled hsettled] at hpre ⊢
          exact hsettled.imp_right (.imp (·.trans hpre.length_le) (hpre.subset ·))
        · rw [addExemplar_eq, if_neg hsettled] at hpre ⊢
          exact .inr (.inr (hpre.subset (List.mem_append_right _ (List.mem_singleton_self _))))
      · exact ih _ hmsg

/-- Adding what was kept of some messages is adding the messages. The induction is from the end: a
message that was not kept is empty, or came too late, and then it does so here too, since every
wording that took its place is here as well. -/
theorem foldl_exemplarsOf {msgs : List String}
    (hfixed : ∀ msg ∈ msgs, wording (wording msg) = wording msg) (kept : List String) :
    (exemplarsOf msgs).foldl addExemplar kept = msgs.foldl addExemplar kept := by
  induction msgs using List.reverseRecOn with
  | nil => rfl
  | append_singleton msgs msg ih =>
      rw [List.forall_mem_append, List.forall_mem_singleton] at hfixed
      have ih := ih hfixed.1
      have hkept := kept_foldl msgs
      rw [exemplarsOf, List.foldl_append, List.foldl_append, List.foldl_cons, List.foldl_nil,
        List.foldl_cons, List.foldl_nil, ← ih, addExemplar_eq]
      change (if _ then exemplarsOf msgs else exemplarsOf msgs ++ [_]).foldl addExemplar kept = _
      have hsettled : ∀ x ∈ exemplarsOf msgs,
          maxExemplars ≤ ((exemplarsOf msgs).foldl addExemplar kept).length ∨
            x ∈ (exemplarsOf msgs).foldl addExemplar kept := by
        intro x hx
        obtain ⟨hne, m, hm, rfl⟩ := mem_wordings.mp (hkept.mem x hx)
        have h := settled_foldl_addExemplar kept hx
        rw [hfixed.1 m hm] at h
        exact h.resolve_left hne
      split
      next hskip =>
        refine (addExemplar_of_settled (hskip.imp_right ?_)).symm
        rintro (hfull | hmem)
        · by_contra hroom
          rw [not_or, not_le] at hroom
          have hall : ∀ x ∈ exemplarsOf msgs, x ∈ (exemplarsOf msgs).foldl addExemplar kept :=
            fun x hx => (hsettled x hx).resolve_left (not_le.mpr hroom.1)
          have hle := (hkept.nodup.subperm hall).length_le
          exact absurd (hfull.trans hle) (not_le.mpr hroom.1)
        · exact hsettled _ hmem
      next hkeep =>
        rw [List.foldl_append, List.foldl_cons, List.foldl_nil, addExemplar_eq, addExemplar_eq,
          hfixed.2]

/-- Merging what was kept of two lists of messages gives what is kept of all of them, within the
bounds. -/
def MergesExactly (a b : List String) : Prop :=
  mergeExemplars (exemplarsOf a) (exemplarsOf b) = exemplarsOf (a ++ b) ∧
    (exemplarsOf (a ++ b)).length ≤ maxExemplars ∧
    ∀ x ∈ exemplarsOf (a ++ b), x.toList.length ≤ maxExemplarLen

/-- A wording that merging leaves as it is was not cut after white space. -/
theorem not_cutAtSpace_of_mergesExactly {msg : String} (h : MergesExactly [msg] []) :
    ¬CutAtSpace msg := by
  intro hcut
  have hne : wording msg ≠ "" := by
    rw [Ne, wording_eq_empty_iff]
    intro hempty
    rw [CutAtSpace, hempty] at hcut
    exact absurd hcut.1 (by decide)
  have hone : exemplarsOf [msg] = [wording msg] := by
    rw [exemplarsOf, List.foldl_cons, List.foldl_nil, addExemplar_eq,
      if_neg (by simp [hne, maxExemplars])]
    rfl
  -- the wording is kept of the message, so it is the wording of something that was kept
  have hmem : wording msg ∈ mergeExemplars (exemplarsOf [msg]) (exemplarsOf []) := by
    rw [h.1, List.append_nil, hone]
    exact List.mem_singleton_self _
  rw [mergeExemplars, ← List.foldl_append, hone] at hmem
  obtain ⟨-, m, hm, hfixed⟩ := mem_wordings.mp ((kept_foldl _).mem _ hmem)
  have hsame : m = wording msg := by simpa [exemplarsOf] using hm
  rw [hsame] at hfixed
  exact (wording_fixed_iff msg).mp hfixed hcut

/-- However messages are divided, their wordings merge exactly, if and only if none of the messages
is cut after white space. -/
theorem mergesExactly_iff (messages : Set String) :
    (∀ a b : List String, (∀ msg ∈ a ++ b, msg ∈ messages) → MergesExactly a b) ↔
      ∀ msg ∈ messages, ¬CutAtSpace msg := by
  constructor
  · intro h msg hmsg
    exact not_cutAtSpace_of_mergesExactly (h [msg] [] (by simpa using hmsg))
  · intro h a b hab
    have hfixed : ∀ msg ∈ a ++ b, wording (wording msg) = wording msg :=
      fun msg hmsg => (wording_fixed_iff msg).mpr (h msg (hab msg hmsg))
    rw [List.forall_mem_append] at hfixed
    have hkept := kept_foldl (a ++ b)
    refine ⟨?_, hkept.length_le, fun x hx => ?_⟩
    · rw [mergeExemplars, foldl_exemplarsOf hfixed.1, foldl_exemplarsOf hfixed.2, exemplarsOf,
        List.foldl_append]
    · obtain ⟨-, msg, -, rfl⟩ := mem_wordings.mp (hkept.mem x hx)
      exact length_wording_le msg

def longWord : String := String.ofList (List.replicate 299 'x' ++ [' ', 'y'])

/-- Merging the wording of the message with nothing changes it. -/
theorem not_mergesExactly_longWord : ¬MergesExactly [longWord] [] := by
  have htext : longWord.toList = List.replicate 299 'x' ++ [' ', 'y'] := String.toList_ofList
  have htrimmed : Text.trimSpace longWord = longWord := by
    rw [Text.trimSpace_eq_self_iff, htext, List.head?_append, List.head?_replicate,
      if_neg (by decide), List.getLast?_append]
    constructor <;> rintro c ⟨⟩ <;> decide
  have hcut : longWord.toList.take maxExemplarLen = List.replicate 299 'x' ++ [' '] := by
    rw [htext, List.take_append, List.take_of_length_le, List.length_replicate]
    · rfl
    · rw [List.length_replicate]
      decide
  intro h
  refine not_cutAtSpace_of_mergesExactly h ?_
  rw [CutAtSpace, htrimmed, hcut, List.getLast?_append, htext, List.length_append,
    List.length_replicate]
  exact ⟨by decide, ' ', rfl, by decide⟩

/-! ### The messages of a signature -/

def failures (iv : Interval) : List (Signature × String) :=
  if iv.label = totalLabel then []
  else iv.errors.map fun e => (newSignature iv.label e, e.message)

def messagesOf (sig : Signature) (ivs : List Interval) : List String :=
  ((ivs.flatMap failures).filter fun p => p.1 = sig).map Prod.snd

theorem messagesOf_perm (sig : Signature) {ivs ivs' : List Interval} (h : ivs.Perm ivs') :
    (messagesOf sig ivs).Perm (messagesOf sig ivs') :=
  ((h.flatMap_right failures).filter _).map _

def exemplarsAt (m : TallyMap Signature ErrorTally) (sig : Signature) : List String :=
  (m[sig]?).elim [] (·.exemplars)

theorem exemplarsAt_addError (label : String) (m : TallyMap Signature ErrorTally)
    (e : ErrorGroup) (sig : Signature) :
    exemplarsAt (Accumulator.addError label m e) sig =
      if newSignature label e = sig then addExemplar (exemplarsAt m sig) e.message
      else exemplarsAt m sig := by
  simp only [exemplarsAt, Accumulator.addError, TallyMap.getElem?_insert_eq_ite]
  split
  case isTrue h =>
    subst h
    cases m[newSignature label e]? with
    | none => simp only [Option.getD_none, Option.elim_some, Option.elim_none]
    | some t => simp only [Option.getD_some, Option.elim_some]
  case isFalse => rfl

theorem exemplarsAt_foldl_addError (label : String) (m : TallyMap Signature ErrorTally)
    (es : List ErrorGroup) (sig : Signature) :
    exemplarsAt (es.foldl (Accumulator.addError label) m) sig =
      (((es.map fun e => (newSignature label e, e.message)).filter fun p => p.1 = sig).map
        Prod.snd).foldl addExemplar (exemplarsAt m sig) := by
  induction es generalizing m with
  | nil => rfl
  | cons e es ih =>
      rw [List.foldl_cons, ih, exemplarsAt_addError]
      by_cases h : newSignature label e = sig <;> simp [h]

theorem exemplarsAt_addAll (a : Accumulator) (ivs : List Interval) (sig : Signature) :
    exemplarsAt (a.addAll ivs).signatures sig =
      (messagesOf sig ivs).foldl addExemplar (exemplarsAt a.signatures sig) := by
  induction ivs generalizing a with
  | nil => rfl
  | cons iv ivs ih =>
      have hadd : exemplarsAt (a.add iv).signatures sig =
          (((failures iv).filter fun p => p.1 = sig).map Prod.snd).foldl addExemplar
            (exemplarsAt a.signatures sig) := by
        simp only [Accumulator.add, failures]
        split
        case isTrue => rfl
        case isFalse => rw [exemplarsAt_foldl_addError]
      rw [messagesOf, List.flatMap_cons, List.filter_append, List.map_append, List.foldl_append,
        ← hadd, Accumulator.addAll, List.foldl_cons, ← Accumulator.addAll, ih, messagesOf]

end Honryu.Report
