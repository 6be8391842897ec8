import SchemaGraph.Proofs.LineRanges

/-!
# The ranges of lines tile a text

The ranges of the lines of a text stand behind one another, with a gap between each two of them.
What the gaps are made of is told character by character: a byte is in a range exactly if its
character is in the content of a line (`LineParts.covers_iff`), and that is every character but the
newlines and the returns at the ends of lines (`lineRanges_tile`).
-/

namespace SchemaGraph.Text

/-- Whether the byte at an offset is one of a range. -/
def ByteRange.Covers (r : ByteRange) (offset : Nat) : Prop :=
  r.start ≤ offset ∧ offset < r.stop

variable {cs front back before content ending after : List Char} {c : Char}

/-- Of two fronts of a text the one that takes fewer bytes is a front of the other. -/
theorem prefix_of_byteLength_lt (hfront : front <+: cs) (hbefore : before <+: cs)
    (hlength : byteLength front < byteLength before) : front <+: before := by
  rcases List.prefix_or_prefix_of_prefix hfront hbefore with h | h
  · exact h
  · have := byteLength_le_of_isPrefix h
    omega

/-- A range has the bytes of the characters in the content that it marks, and no others. -/
theorem LineParts.covers_iff {line offset : Nat} (h : LineParts cs line before content ending after)
    (hcs : cs = front ++ c :: back) (hfrom : byteLength front ≤ offset)
    (hto : offset < byteLength (front ++ [c])) :
    ByteRange.Covers ⟨byteLength before, byteLength (before ++ content)⟩ offset ↔
      before <+: front ∧ front ++ [c] <+: before ++ content := by
  have hfront : front <+: cs := ⟨c :: back, hcs.symm⟩
  have hthrough : front ++ [c] <+: cs := ⟨back, by simp [hcs]⟩
  have hbefore : before <+: cs := ⟨content ++ ending ++ after, by simp [h.makeUp]⟩
  have hcontent : before ++ content <+: cs := ⟨ending ++ after, by simp [h.makeUp]⟩
  constructor
  · rintro ⟨hstart, hstop⟩
    constructor
    · have hlt : byteLength before < byteLength (front ++ [c]) := Nat.lt_of_le_of_lt hstart hto
      rcases List.prefix_concat_iff.mp (prefix_of_byteLength_lt hbefore hthrough hlt) with heq | hle
      · exact absurd hlt (heq ▸ Nat.lt_irrefl _)
      · exact hle
    · have hlt : byteLength front < byteLength (before ++ content) :=
        Nat.lt_of_le_of_lt hfrom hstop
      rcases List.prefix_or_prefix_of_prefix hthrough hcontent with hle | hle
      · exact hle
      rcases List.prefix_concat_iff.mp hle with heq | hle
      · exact heq ▸ List.prefix_refl _
      · exact absurd hlt (Nat.not_lt.mpr (byteLength_le_of_isPrefix hle))
  · rintro ⟨hstart, hstop⟩
    exact ⟨Nat.le_trans (byteLength_le_of_isPrefix hstart) hfrom,
      Nat.lt_of_lt_of_le hto (byteLength_le_of_isPrefix hstop)⟩

/-- The content of a line has no character that parts lines. -/
theorem LineParts.not_partsLines {line : Nat} (h : LineParts cs line before content ending after)
    (hcs : cs = front ++ c :: back) (hbefore : before <+: front)
    (hcontent : front ++ [c] <+: before ++ content) : ¬ PartsLines c back := by
  obtain ⟨left, rfl⟩ := hbefore
  obtain ⟨right, hright⟩ := hcontent
  have hparts : content = left ++ c :: right := by
    rw [List.append_assoc, List.append_assoc] at hright
    exact (List.append_cancel_left hright).symm
  have hback : back = right ++ ending ++ after := by
    have hmakeUp := h.makeUp
    rw [hcs, hparts] at hmakeUp
    simpa using hmakeUp
  have honLine := h.onLine
  rw [hparts] at honLine
  rintro (rfl | ⟨rfl, hend⟩)
  · simp at honLine
  cases right with
  | cons x right =>
    -- what follows in the content is on the same line
    have hx : x = '\n' := by simpa [hback] using hend
    simp [hx] at honLine
  | nil =>
    rcases h.ending with rfl | ⟨rfl, hlast⟩
    · simp [hback] at hend
    · simp [hparts] at hlast

/-- A content ends before the next line begins. -/
theorem LineParts.byteLength_lt {m n : Nat} {before' content' ending' after' : List Char}
    (h : LineParts cs m before content ending after)
    (h' : LineParts cs n before' content' ending' after') (hlt : m < n) :
    byteLength (before ++ content) < byteLength before' := by
  have hcontent : before ++ content <+: cs := ⟨ending ++ after, by simp [h.makeUp]⟩
  have hbefore' : before' <+: cs := ⟨content' ++ ending' ++ after', by simp [h'.makeUp]⟩
  have hcount : (before ++ content).count '\n' < before'.count '\n' := by
    have hline : content.count '\n' = 0 :=
      List.count_eq_zero.mpr fun hmem => h.onLine (List.mem_append_left ending hmem)
    have hm := h.number
    have hn := h'.number
    rw [List.count_append]
    omega
  by_contra hle
  have hfront := prefix_of_count_lt hcontent hbefore' hcount
  rw [eq_of_prefix_of_byteLength_le hfront (Nat.le_of_not_lt hle)] at hcount
  exact Nat.lt_irrefl _ hcount

/-- **The ranges of lines tile a text.** The lines that have one are those from the first up to the
one behind the last newline. Each range begins at the start of the text or right behind the newline
of the line before, and goes up to the next newline or the end of the text, less one carriage return
if the line ends in one. They stand behind one another, and a byte of a character is in none of them
exactly if the character is a newline or such a return. -/
theorem lineRanges_tile (text : String) :
    (∀ n, (∃ r, lineRange? text n = some r) ↔ 1 ≤ n ∧ n ≤ text.toList.count '\n' + 1) ∧
    (∀ n r, lineRange? text n = some r → ∃ before content ending after,
      LineParts text.toList n before content ending after ∧
        r.start = byteLength before ∧ r.stop = byteLength (before ++ content)) ∧
    (∀ m n r s, lineRange? text m = some r → lineRange? text n = some s →
      r.start ≤ r.stop ∧ (m < n → r.stop < s.start)) ∧
    (∀ front c back, text.toList = front ++ c :: back → ∀ offset, byteLength front ≤ offset →
      offset < byteLength (front ++ [c]) →
        ((∀ n r, lineRange? text n = some r → ¬ r.Covers offset) ↔ PartsLines c back)) := by
  refine ⟨fun n => ⟨?_, lineRange?_of_hasLine⟩, fun n r hr => ?_, fun m n r s hr hs => ?_,
    fun front c back htext offset hfrom hto => ⟨fun hnone => ?_, fun hc n r hr hcovers => ?_⟩⟩
  · rintro ⟨r, hr⟩
    obtain ⟨before, content, ending, after, hparts, -⟩ := exists_lineParts hr
    have hbefore : before <+: text.toList := ⟨content ++ ending ++ after, by simp [hparts.makeUp]⟩
    have hcount := hbefore.count_le '\n'
    have hnumber := hparts.number
    omega
  · obtain ⟨before, content, ending, after, hparts, rfl⟩ := exists_lineParts hr
    exact ⟨before, content, ending, after, hparts, rfl, rfl⟩
  · obtain ⟨before, content, ending, after, hparts, rfl⟩ := exists_lineParts hr
    obtain ⟨before', content', ending', after', hparts', rfl⟩ := exists_lineParts hs
    exact ⟨byteLength_le_of_isPrefix (List.prefix_append _ _), hparts.byteLength_lt hparts'⟩
  · by_contra hc
    have hline : HasLine text (front.count '\n' + 1) := by
      refine ⟨Nat.le_add_left 1 _, ?_⟩
      rw [htext, List.count_append]
      omega
    obtain ⟨r, hr⟩ := lineRange?_of_hasLine hline
    obtain ⟨before, content, ending, after, hparts, rfl⟩ := exists_lineParts hr
    have hin := hparts.prefix_of_not_partsLines htext hc
    exact hnone _ _ hr ((hparts.covers_iff htext hfrom hto).mpr hin)
  · obtain ⟨before, content, ending, after, hparts, rfl⟩ := exists_lineParts hr
    obtain ⟨hbefore, hcontent⟩ := (hparts.covers_iff htext hfrom hto).mp hcovers
    exact hparts.not_partsLines htext hbefore hcontent hc

/-- Of two returns at the end of a line one is left in its range, and a letter takes two bytes. -/
example : lineRanges "é\r\r\n\r\nb\r" = [⟨0, 3⟩, ⟨5, 5⟩, ⟨7, 8⟩] := by
  decide

end SchemaGraph.Text
