import Mathlib.Data.List.Basic
import SchemaGraph.Text.Lines

/-!
# The ranges of lines

The lines of a text with a newline between each two of them are the text (`intercalate_lines`), and
there is no newline in any of them. So a text has a range for each line from its first one to the
one behind its last newline, and that range marks the content of the line (`LineParts`): characters
that stand next to each other in the text, on that line (`ByteRange.InLine`), in bytes of its UTF-8
form (`exists_lineRange?_of_hasLine`).
-/

namespace SchemaGraph.Text

/-- Whether a text has a line, counted from 1: it has one more than it has newlines. -/
def HasLine (text : String) (line : Nat) : Prop :=
  1 ≤ line ∧ line ≤ text.toList.count '\n' + 1

/-! ### Bytes -/

@[simp] theorem byteLength_append (cs ds : List Char) :
    byteLength (cs ++ ds) = byteLength cs + byteLength ds := by
  induction cs with
  | nil => simp [byteLength]
  | cons c cs ih =>
    simp only [List.cons_append, byteLength, ih]
    omega

theorem byteLength_eq_utf8ByteSize (cs : List Char) :
    byteLength cs = (String.ofList cs).utf8ByteSize := by
  induction cs with
  | nil => rfl
  | cons c cs ih =>
    rw [byteLength, ih, String.ofList_cons, String.utf8ByteSize_append,
      String.utf8ByteSize_singleton]

theorem utf8ByteSize_eq_byteLength (s : String) : s.utf8ByteSize = byteLength s.toList := by
  rw [byteLength_eq_utf8ByteSize, String.ofList_toList]

/-- **A range marks characters of one line of a text.** It ends where or after it begins and not
behind the text, both of its ends are between characters, and there is no newline between them; and
the newlines before it are those of the lines before. -/
structure ByteRange.InLine (text : String) (line : Nat) (r : ByteRange) : Prop where
  ordered : r.start ≤ r.stop
  inside : r.stop ≤ text.utf8ByteSize
  start_isValid : String.Pos.Raw.IsValid text ⟨r.start⟩
  stop_isValid : String.Pos.Raw.IsValid text ⟨r.stop⟩
  marks : ∃ before content after : String, text = before ++ content ++ after ∧
    r = ⟨before.utf8ByteSize, (before ++ content).utf8ByteSize⟩ ∧
    '\n' ∉ content.toList ∧ before.toList.count '\n' + 1 = line

/-- It is enough to say which characters a range marks. -/
theorem ByteRange.inLine_of_marks (before content after : String)
    (hcontent : '\n' ∉ content.toList) :
    InLine (before ++ content ++ after) (before.toList.count '\n' + 1)
      ⟨before.utf8ByteSize, (before ++ content).utf8ByteSize⟩ := by
  have hstart : String.Pos.Raw.IsValid (before ++ content ++ after) before.rawEndPos := by
    rw [String.append_assoc]
    exact String.Pos.Raw.isValid_rawEndPos.append_right (content ++ after)
  have hstop : String.Pos.Raw.IsValid (before ++ content ++ after) (before ++ content).rawEndPos :=
    String.Pos.Raw.isValid_rawEndPos.append_right after
  refine ⟨?_, ?_, hstart, hstop, before, content, after, rfl, rfl, hcontent, rfl⟩
  · show before.utf8ByteSize ≤ (before ++ content).utf8ByteSize
    rw [String.utf8ByteSize_append]
    exact Nat.le_add_right _ _
  · show (before ++ content).utf8ByteSize ≤ (before ++ content ++ after).utf8ByteSize
    rw [@String.utf8ByteSize_append (before ++ content) after]
    exact Nat.le_add_right _ _

/-! ### Lines -/

/-- The lines of a text make up the text. -/
theorem intercalate_lines (cs : List Char) : ['\n'].intercalate (lines cs) = cs := by
  induction cs with
  | nil => rfl
  | cons c cs ih =>
    unfold lines
    by_cases hc : c = '\n'
    · rw [if_pos hc, List.intercalate_cons_of_ne_nil (lines_ne_nil cs), ih, hc]
      rfl
    · rw [if_neg hc]
      cases hlines : lines cs with
      | nil => exact absurd hlines (lines_ne_nil cs)
      | cons line others =>
        rw [hlines] at ih
        show ['\n'].intercalate ((c :: line) :: others) = c :: cs
        rw [List.intercalate_cons_cons_left, ih]

theorem newline_not_mem_of_mem_lines {cs line : List Char} (h : line ∈ lines cs) :
    '\n' ∉ line := by
  induction cs generalizing line with
  | nil =>
    rw [List.mem_singleton.mp h]
    exact List.not_mem_nil
  | cons c cs ih =>
    unfold lines at h
    by_cases hc : c = '\n'
    · rw [if_pos hc] at h
      rcases List.mem_cons.mp h with rfl | h
      · exact List.not_mem_nil
      · exact ih h
    · rw [if_neg hc] at h
      cases hlines : lines cs with
      | nil => exact absurd hlines (lines_ne_nil cs)
      | cons first others =>
        rw [hlines] at h ih
        rcases List.mem_cons.mp h with rfl | h
        · rw [List.mem_cons, not_or]
          exact ⟨Ne.symm hc, ih List.mem_cons_self⟩
        · exact ih (List.mem_cons_of_mem first h)

/-- A line is its content, and one return behind it, if the line ends in one. -/
theorem exists_withoutReturn_append (line : List Char) : ∃ ending,
    line = withoutReturn line ++ ending ∧
      (ending = ['\r'] ∨ ending = [] ∧ (withoutReturn line).getLast? ≠ some '\r') := by
  unfold withoutReturn
  by_cases hreturn : line.getLast? = some '\r'
  · rw [if_pos hreturn]
    exact ⟨['\r'], (List.dropLast_append_getLast? '\r' hreturn).symm, .inl rfl⟩
  · rw [if_neg hreturn]
    exact ⟨[], (List.append_nil line).symm, .inr ⟨rfl, hreturn⟩⟩

/-- **A text around one of its lines.** The line goes on from the start of the text or from a
newline up to the next newline or the end of the text, and its content is all of it but one carriage
return, if it ends in one. -/
structure LineParts (cs : List Char) (line : Nat) (before content ending after : List Char) :
    Prop where
  makeUp : cs = before ++ content ++ ending ++ after
  /-- The newlines before a line are those of the lines before. -/
  number : before.count '\n' + 1 = line
  begins : before = [] ∨ before.getLast? = some '\n'
  onLine : '\n' ∉ content ++ ending
  ends : after = [] ∨ after.head? = some '\n'
  ending : ending = ['\r'] ∨ ending = [] ∧ content.getLast? ≠ some '\r'

/-- One more line before a line. -/
theorem LineParts.below {cs before content ending after line : List Char} {n : Nat}
    (h : LineParts cs n before content ending after) (hline : '\n' ∉ line) :
    LineParts (line ++ ['\n'] ++ cs) (n + 1) (line ++ ['\n'] ++ before) content ending after where
  makeUp := by
    rw [h.makeUp]
    simp only [List.append_assoc]
  number := by
    rw [List.count_append, List.count_append, List.count_eq_zero.mpr hline,
      List.count_singleton_self, ← h.number]
    omega
  begins := by
    refine .inr ?_
    rcases h.begins with rfl | hlast
    · rw [List.append_nil, List.getLast?_concat]
    · rw [List.getLast?_append, hlast]
      rfl
  onLine := h.onLine
  ends := h.ends
  ending := h.ending

/-! ### Ranges -/

theorem length_rangesFrom (start : Nat) (ls : List (List Char)) :
    (rangesFrom start ls).length = ls.length := by
  induction ls generalizing start with
  | nil => rfl
  | cons line ls ih => rw [rangesFrom, List.length_cons, List.length_cons, ih]

/-- The range at a position marks the content of the line at that position. -/
theorem exists_lineParts_rangesFrom {ls : List (List Char)} (hls : ∀ line ∈ ls, '\n' ∉ line)
    {start k : Nat} {r : ByteRange} (h : (rangesFrom start ls)[k]? = some r) :
    ∃ before content ending after,
      LineParts (['\n'].intercalate ls) (k + 1) before content ending after ∧
        r = ⟨start + byteLength before, start + byteLength (before ++ content)⟩ := by
  induction ls generalizing start k with
  | nil => cases h
  | cons line ls ih =>
    obtain ⟨hline, hls⟩ := List.forall_mem_cons.mp hls
    cases k with
    | zero =>
      cases h
      obtain ⟨ending, hparts, hending⟩ := exists_withoutReturn_append line
      obtain ⟨after, hafter, hends⟩ : ∃ after, ['\n'].intercalate (line :: ls) = line ++ after ∧
          (after = [] ∨ after.head? = some '\n') := by
        cases ls with
        | nil => exact ⟨[], by simp, .inl rfl⟩
        | cons next ls =>
          exact ⟨_, by rw [List.intercalate_cons_cons, List.append_assoc], .inr rfl⟩
      refine ⟨[], withoutReturn line, ending, after, ⟨?_, rfl, .inl rfl, ?_, hends, hending⟩, rfl⟩
      · rw [hafter, List.nil_append, ← hparts]
      · rwa [← hparts]
    | succ k =>
      have h : (rangesFrom (start + byteLength line + 1) ls)[k]? = some r := h
      obtain ⟨before, content, ending, after, hparts, hr⟩ := ih hls h
      have hne : ls ≠ [] := by
        rintro rfl
        cases h
      have hnewline : byteLength ['\n'] = 1 := rfl
      refine ⟨line ++ ['\n'] ++ before, content, ending, after, ?_, ?_⟩
      · rw [List.intercalate_cons_of_ne_nil hne]
        exact hparts.below hline
      · rw [hr]
        simp only [byteLength_append, hnewline]
        congr 1 <;> omega

/-- A line that is there has a range. -/
theorem lineRange?_of_hasLine {text : String} {line : Nat} (h : HasLine text line) :
    ∃ r, lineRange? text line = some r := by
  obtain ⟨hfirst, hlast⟩ := h
  have hlength : line - 1 < (lineRanges text).length := by
    rw [lineRanges, length_rangesFrom, length_lines]
    omega
  refine ⟨(lineRanges text)[line - 1], ?_⟩
  rw [lineRange?, nthRange?, if_neg (by omega), List.getElem?_eq_getElem hlength]

/-- **The range of a line marks its content.** -/
theorem exists_lineParts {text : String} {line : Nat} {r : ByteRange}
    (h : lineRange? text line = some r) : ∃ before content ending after,
      LineParts text.toList line before content ending after ∧
        r = ⟨byteLength before, byteLength (before ++ content)⟩ := by
  rw [lineRange?, nthRange?] at h
  split_ifs at h with hzero
  obtain ⟨before, content, ending, after, hparts, hr⟩ :=
    exists_lineParts_rangesFrom (fun _ => newline_not_mem_of_mem_lines) h
  rw [intercalate_lines, Nat.sub_add_cancel (Nat.pos_of_ne_zero hzero)] at hparts
  rw [Nat.zero_add, Nat.zero_add] at hr
  exact ⟨before, content, ending, after, hparts, hr⟩

/-- **Every line of a text has a range**, which marks characters of that line. -/
theorem exists_lineRange?_of_hasLine {text : String} {line : Nat} (h : HasLine text line) :
    ∃ r, lineRange? text line = some r ∧ r.InLine text line := by
  obtain ⟨r, hrange⟩ := lineRange?_of_hasLine h
  refine ⟨r, hrange, ?_⟩
  obtain ⟨before, content, ending, after, hparts, rfl⟩ := exists_lineParts hrange
  have htext : text = String.ofList before ++ String.ofList content ++
      String.ofList (ending ++ after) := by
    rw [← String.ofList_append, ← String.ofList_append, ← List.append_assoc, ← hparts.makeUp,
      String.ofList_toList]
  have hcontent : '\n' ∉ content := fun hmem => hparts.onLine (List.mem_append_left ending hmem)
  have hmarks := ByteRange.inLine_of_marks (String.ofList before) (String.ofList content)
    (String.ofList (ending ++ after)) (by rwa [String.toList_ofList])
  rw [← htext, ← String.ofList_append, ← byteLength_eq_utf8ByteSize,
    ← byteLength_eq_utf8ByteSize, String.toList_ofList, hparts.number] at hmarks
  exact hmarks

/-! ### Characters in ranges -/

variable {cs front back before content ending after : List Char} {c : Char}

theorem byteLength_le_of_isPrefix (h : front <+: cs) : byteLength front ≤ byteLength cs := by
  obtain ⟨rest, rfl⟩ := h
  rw [byteLength_append]
  exact Nat.le_add_right _ _

/-- Every character takes a byte. -/
theorem eq_of_prefix_of_byteLength_le (h : front <+: cs) (hle : byteLength cs ≤ byteLength front) :
    front = cs := by
  obtain ⟨_ | ⟨x, rest⟩, rfl⟩ := h
  · exact (List.append_nil front).symm
  · have hx : byteLength (x :: rest) = x.utf8Size + byteLength rest := rfl
    have hpositive := x.utf8Size_pos
    rw [byteLength_append, hx] at hle
    omega

/-- Of two fronts of a text the one with fewer newlines is a front of the other. -/
theorem prefix_of_count_lt (hfront : front <+: cs) (hbefore : before <+: cs)
    (hcount : front.count '\n' < before.count '\n') : front <+: before := by
  rcases List.prefix_or_prefix_of_prefix hfront hbefore with h | h
  · exact h
  · have := h.count_le '\n'
    omega

/-- Of two fronts of a text so is one that ends with a newline, if the other has as many. -/
theorem prefix_of_count_le (hbefore : before <+: cs) (hfront : front <+: cs)
    (hends : before = [] ∨ before.getLast? = some '\n')
    (hcount : before.count '\n' ≤ front.count '\n') : before <+: front := by
  rcases hends with rfl | hlast
  · exact List.nil_prefix
  obtain ⟨before, rfl⟩ := List.getLast?_eq_some_iff.mp hlast
  rw [List.count_append, List.count_singleton_self] at hcount
  rcases List.prefix_or_prefix_of_prefix hbefore hfront with h | h
  · exact h
  rcases List.prefix_concat_iff.mp h with rfl | h
  · exact List.prefix_refl _
  · have := h.count_le '\n'
    omega

/-- Whether a character parts a line from what is behind it: a newline does, and a return at the end
of a line. -/
def PartsLines (c : Char) (back : List Char) : Prop :=
  c = '\n' ∨ c = '\r' ∧ (back = [] ∨ back.head? = some '\n')

/-- The content of the line of a character has that character, if it does not part lines. -/
theorem LineParts.prefix_of_not_partsLines
    (h : LineParts cs (front.count '\n' + 1) before content ending after)
    (hcs : cs = front ++ c :: back) (hc : ¬ PartsLines c back) :
    before <+: front ∧ front ++ [c] <+: before ++ content := by
  obtain ⟨hnewline, hreturn⟩ := not_or.mp hc
  have hnumber : before.count '\n' = front.count '\n' := Nat.succ.inj h.number
  have hfront : front ++ [c] <+: cs := ⟨back, by simp [hcs]⟩
  have hbefore : before <+: cs := ⟨content ++ ending ++ after, by simp [h.makeUp]⟩
  refine ⟨prefix_of_count_le hbefore ((List.prefix_append _ _).trans hfront) h.begins
    (Nat.le_of_eq hnumber), ?_⟩
  have hline : front ++ [c] <+: before ++ content ++ ending := by
    rcases h.ends with rfl | hhead
    · rwa [h.makeUp, List.append_nil] at hfront
    -- with the newline behind the line there is one more than up to the character
    obtain ⟨after, rfl⟩ : ∃ others, after = '\n' :: others :=
      ⟨after.tail, List.eq_cons_of_mem_head? hhead⟩
    have hbehind : before ++ content ++ ending ++ ['\n'] <+: cs := ⟨after, by simp [h.makeUp]⟩
    have hcount :
        (front ++ [c]).count '\n' < (before ++ content ++ ending ++ ['\n']).count '\n' := by
      simp only [List.count_append, List.count_singleton_self, List.count_cons_of_ne hnewline,
        List.count_nil]
      omega
    rcases List.prefix_concat_iff.mp (prefix_of_count_lt hfront hbehind hcount) with heq | hle
    · exact absurd (List.append_inj' heq rfl).2 (by simpa using hnewline)
    · exact hle
  rcases h.ending with rfl | ⟨rfl, -⟩
  · rcases List.prefix_concat_iff.mp hline with heq | hle
    · obtain ⟨-, hc⟩ := List.append_inj' heq rfl
      have hback : after = back := by
        have hmakeUp := h.makeUp
        rw [hcs, List.append_cons, heq] at hmakeUp
        exact (List.append_cancel_left hmakeUp).symm
      exact absurd ⟨List.singleton_inj.mp hc, hback ▸ h.ends⟩ hreturn
    · exact hle
  · rwa [List.append_nil] at hline

/-- A character other than a newline or a return is in the range of its line. -/
theorem exists_lineRange?_around {text : String} (htext : text.toList = front ++ c :: back)
    (hnewline : c ≠ '\n') (hreturn : c ≠ '\r') :
    ∃ r, lineRange? text (1 + front.count '\n') = some r ∧ r.start ≤ byteLength front ∧
      byteLength front < r.stop := by
  have hline : HasLine text (1 + front.count '\n') := by
    refine ⟨Nat.le_add_right 1 _, ?_⟩
    rw [htext, List.count_append]
    omega
  obtain ⟨r, hr⟩ := lineRange?_of_hasLine hline
  refine ⟨r, hr, ?_⟩
  obtain ⟨before, content, ending, after, hparts, rfl⟩ := exists_lineParts hr
  rw [Nat.add_comm] at hparts
  have hc : ¬ PartsLines c back := by simp [PartsLines, hnewline, hreturn]
  obtain ⟨hstart, hstop⟩ := hparts.prefix_of_not_partsLines htext hc
  have hsize : byteLength (front ++ [c]) = byteLength front + c.utf8Size := by
    rw [byteLength_append]
    rfl
  have hlength := byteLength_le_of_isPrefix hstop
  have hpositive := c.utf8Size_pos
  exact ⟨byteLength_le_of_isPrefix hstart, show byteLength front < byteLength _ by omega⟩

end SchemaGraph.Text
