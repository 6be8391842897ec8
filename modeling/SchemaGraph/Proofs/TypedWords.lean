import Mathlib.Data.List.TakeWhile
import Mathlib.Order.Bounds.Basic
import SchemaGraph.Catalog.Suggestion
import SchemaGraph.Proofs.LineRanges

/-!
# The word being typed

An offset may lie behind the text, or inside a character of several bytes. What counts is the last
place between two characters that it reaches: the text up to there is the longest front of the text
that takes no more bytes (`prefix_takeBytes_iff`). The word being typed is the longest end of that
front of letters, numeric characters, underscores and dots (`typedAt_iff`).
-/

namespace SchemaGraph

/-- Whether a character may stand in a word with a qualifier: a letter, a numeric character, an
underscore or a dot. -/
def IsTyped (c : Char) : Prop :=
  Text.isLetter c = true ∨ Text.isNumeric c = true ∨ c = '_' ∨ c = '.'

theorem isTypedChar_iff {c : Char} : isTypedChar c = true ↔ IsTyped c := by
  simp [isTypedChar, Text.isWordChar, IsTyped, or_assoc]

/-- The boundaries of characters that are neither behind an offset nor behind the text. -/
def boundariesUpTo (text : String) (offset : Nat) : Set Nat :=
  {p | String.Pos.Raw.IsValid text ⟨p⟩ ∧ p ≤ min offset text.utf8ByteSize}

/-- **A word is the one typed at an offset of a text.** It ends at the last boundary of characters
that the offset reaches, and goes back from there as far as its characters do. -/
structure TypedWord (text : String) (offset : Nat) (before word after : String) : Prop where
  makeUp : text = before ++ word ++ after
  ends : IsGreatest (boundariesUpTo text offset) (before ++ word).utf8ByteSize
  typed : ∀ c ∈ word.toList, IsTyped c
  maximal : ∀ c, before.toList.getLast? = some c → ¬ IsTyped c

/-! ### The text before an offset -/

/-- What is taken within some bytes is the longest front of a text that takes no more. -/
theorem prefix_takeBytes_iff {front cs : List Char} {size : Nat} :
    front <+: takeBytes size cs ↔ front <+: cs ∧ Text.byteLength front ≤ size := by
  induction cs generalizing front size with
  | nil =>
    rw [takeBytes, List.prefix_nil]
    constructor
    · rintro rfl
      exact ⟨rfl, Nat.zero_le _⟩
    · exact And.left
  | cons c cs ih =>
    cases front with
    | nil => simp [Text.byteLength]
    | cons d front =>
      rw [takeBytes, Text.byteLength, List.cons_prefix_cons]
      by_cases hfits : c.utf8Size ≤ size
      · rw [if_pos hfits, List.cons_prefix_cons, ih, and_assoc]
        constructor
        · rintro ⟨rfl, hfront, hsize⟩
          exact ⟨rfl, hfront, by omega⟩
        · rintro ⟨rfl, hfront, hsize⟩
          exact ⟨rfl, hfront, by omega⟩
      · rw [if_neg hfits]
        constructor
        · intro h
          simp at h
        · rintro ⟨⟨rfl, -⟩, hsize⟩
          omega

/-- The boundaries of characters are where the fronts of a text end. -/
theorem isValid_iff_exists_front {text : String} {p : Nat} :
    String.Pos.Raw.IsValid text ⟨p⟩ ↔
      ∃ front, front <+: text.toList ∧ p = Text.byteLength front := by
  rw [String.Pos.Raw.isValid_iff_exists_append]
  constructor
  · rintro ⟨front, back, rfl, hp⟩
    refine ⟨front.toList, ⟨back.toList, (String.toList_append ..).symm⟩, ?_⟩
    rw [← Text.utf8ByteSize_eq_byteLength]
    exact congrArg String.Pos.Raw.byteIdx hp
  · rintro ⟨front, ⟨back, hback⟩, rfl⟩
    refine ⟨String.ofList front, String.ofList back, ?_, ?_⟩
    · rw [← String.ofList_append, hback, String.ofList_toList]
    · rw [Text.byteLength_eq_utf8ByteSize]
      rfl

/-- **A front of a text is what lies before an offset** exactly if it ends at the last boundary that
the offset reaches. -/
theorem takeBytes_eq_iff {text : String} {offset : Nat} {front : List Char}
    (hfront : front <+: text.toList) : takeBytes offset text.toList = front ↔
      IsGreatest (boundariesUpTo text offset) (Text.byteLength front) := by
  have htext := Text.utf8ByteSize_eq_byteLength text
  obtain ⟨htaken, hreached⟩ :=
    prefix_takeBytes_iff.mp (List.prefix_refl (takeBytes offset text.toList))
  have hboundary : Text.byteLength (takeBytes offset text.toList) ∈ boundariesUpTo text offset := by
    refine ⟨isValid_iff_exists_front.mpr ⟨_, htaken, rfl⟩, Nat.le_min.mpr ⟨hreached, ?_⟩⟩
    exact htext ▸ Text.byteLength_le_of_isPrefix htaken
  constructor
  · rintro rfl
    refine ⟨hboundary, fun p hp => ?_⟩
    obtain ⟨other, hother, rfl⟩ := isValid_iff_exists_front.mp hp.1
    refine Text.byteLength_le_of_isPrefix (prefix_takeBytes_iff.mpr ⟨hother, ?_⟩)
    exact Nat.le_trans hp.2 (Nat.min_le_left _ _)
  · rintro ⟨⟨-, hsize⟩, hlast⟩
    have hwithin : front <+: takeBytes offset text.toList :=
      prefix_takeBytes_iff.mpr ⟨hfront, Nat.le_trans hsize (Nat.min_le_left _ _)⟩
    exact (Text.eq_of_prefix_of_byteLength_le hwithin (hlast hboundary)).symm

/-! ### The word -/

/-- The longest end of a text whose characters have a property. -/
theorem reverse_takeWhile_reverse_iff {p : Char → Bool} {head word : List Char} :
    (head.reverse.takeWhile p).reverse = word ↔ ∃ before, before ++ word = head ∧
      (∀ c ∈ word, p c = true) ∧ ∀ c, before.getLast? = some c → p c = false := by
  constructor
  · rintro rfl
    refine ⟨(head.reverse.dropWhile p).reverse, ?_, fun c hc => ?_, fun c hc => ?_⟩
    · rw [← List.reverse_append, List.takeWhile_append_dropWhile, List.reverse_reverse]
    · exact List.mem_takeWhile_imp (List.mem_reverse.mp hc)
    · rw [List.getLast?_reverse] at hc
      have hnot := List.head?_dropWhile_not p head.reverse
      rwa [hc] at hnot
  · rintro ⟨before, rfl, hword, hbefore⟩
    have hend : before.reverse.takeWhile p = [] := by
      rcases List.eq_nil_or_concat' before with rfl | ⟨before, x, rfl⟩
      · rfl
      · simp [hbefore x (by simp)]
    rw [List.reverse_append, List.takeWhile_append_of_pos (by simpa using hword), hend,
      List.append_nil, List.reverse_reverse]

/-- **The word typed at an offset** is the longest one before it: it ends with the last character
that is whole before the offset, consists of letters, numeric characters, underscores and dots, and
no character before it is one of these. -/
theorem typedAt_iff (text : String) (offset : Nat) (word : String) :
    typedAt text offset = word ↔ ∃ before after, TypedWord text offset before word after := by
  have hword : typedAt text offset = word ↔
      ((takeBytes offset text.toList).reverse.takeWhile isTypedChar).reverse = word.toList := by
    rw [typedAt]
    constructor
    · rintro rfl
      exact (String.toList_ofList ..).symm
    · intro h
      rw [h, String.ofList_toList]
  rw [hword, reverse_takeWhile_reverse_iff]
  constructor
  · rintro ⟨before, hhead, htyped, hmaximal⟩
    obtain ⟨after, hafter⟩ : takeBytes offset text.toList <+: text.toList :=
      (prefix_takeBytes_iff.mp (List.prefix_refl _)).1
    rw [← hhead] at hafter
    refine ⟨String.ofList before, String.ofList after, ?_, ?_, fun c hc => ?_, fun c hc => ?_⟩
    · rw [← String.toList_inj]
      simp [← hafter]
    · rw [Text.utf8ByteSize_eq_byteLength, String.toList_append, String.toList_ofList]
      exact (takeBytes_eq_iff ⟨after, hafter⟩).mp hhead.symm
    · exact isTypedChar_iff.mp (htyped c hc)
    · rw [String.toList_ofList] at hc
      rw [← isTypedChar_iff, hmaximal c hc]
      exact Bool.false_ne_true
  · rintro ⟨before, after, h⟩
    refine ⟨before.toList, ?_, fun c hc => isTypedChar_iff.mpr (h.typed c hc), fun c hc => ?_⟩
    · have hfront : before.toList ++ word.toList <+: text.toList :=
        ⟨after.toList, by simp [h.makeUp]⟩
      have hends := h.ends
      rw [Text.utf8ByteSize_eq_byteLength, String.toList_append] at hends
      exact ((takeBytes_eq_iff hfront).mpr hends).symm
    · rw [← Bool.not_eq_true, isTypedChar_iff]
      exact h.maximal c hc

/-- An offset inside a letter of two bytes reaches up to the letter before. -/
example : typedAt "(é.bü" 6 = "é.b" ∧ typedAt "(é.bü" 1 = "" ∧ typedAt "(é.bü" 9 = "é.bü" := by
  decide

end SchemaGraph
