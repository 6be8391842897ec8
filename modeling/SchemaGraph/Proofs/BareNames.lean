import SchemaGraph.Proofs.WrittenTokenLines

/-!
# Scanning bare names

What spells a bare name is scanned to that name (`Scan.reads_bareName`): letters, digits and
underscores, a number that goes on with a letter, or a colour. So a bare name can be written without
quotes, as a piece of its own.
-/

namespace SchemaGraph

open Text

/-! ### Bare names -/

theorem BareName.ne_nil {cs : List Char} (h : BareName cs) : cs ≠ [] := by
  cases h <;> simp

/-- A word is a bare name. -/
theorem BareName.of_word {cs : List Char} (hopens : cs.head?.any opensWord = true)
    (hall : cs.all isWordChar = true) : BareName cs := by
  induction cs using List.reverseRecOn with
  | nil => cases hopens
  | append_singleton cs c ih =>
    obtain ⟨hcs, hc⟩ := Bool.and_eq_true_iff.mp (List.all_append.symm.trans hall)
    rcases cs.eq_nil_or_concat with rfl | ⟨_, _, rfl⟩
    · exact .word hopens
    · exact .more (ih (by simpa using hopens) hcs) (by simpa using hc)

/-! ### Scanning -/

namespace Scan

variable {k : Nat} {older : List Lexeme} {c : Char} {cs : List Char}

theorem step_of_opensWord (h : opensWord c = true) :
    step ⟨k, .gap, older⟩ c = .ok ⟨k, .word [c], older⟩ := by
  rw [step, read, readGap_of_opensWord _ h]
  exact congrArg Except.ok (pass_of_ne (ne_newline h (by decide)) _)

/-- A letter turns a number into a word. -/
theorem step_number_of_opensWord (h : opensWord c = true) (read : List Char) :
    step ⟨k, .number read, older⟩ c = .ok ⟨k, .word (c :: read), older⟩ := by
  have hdigit : ¬ c.isDigit = true := by simp [isDigit_of_opensWord h]
  have hdot : c ≠ '.' := by
    rintro rfl
    revert h
    decide
  simp only [step, Scan.read, if_neg hdigit, if_neg hdot, if_pos h]
  exact congrArg Except.ok (pass_of_ne (ne_newline h (by decide)) _)

/-- A colour goes on as a word. -/
theorem step_hash (h : (isLetter c || isNumeric c) = true) :
    step ⟨k, .hash, older⟩ c = .ok ⟨k, .word [c, '#'], older⟩ := by
  have hnewline : c ≠ '\n' := by
    rintro rfl
    revert h
    decide
  simp only [step, Scan.read, if_pos h]
  exact congrArg Except.ok (pass_of_ne hnewline _)

/-- In the middle of a word is what has spelled a bare name so far. -/
theorem foldlM_bareName (h : BareName cs) :
    cs.foldlM step ⟨k, .gap, older⟩ = .ok ⟨k, .word cs.reverse, older⟩ := by
  induction h with
  | word hc =>
    rw [List.foldlM_cons, step_of_opensWord hc]
    rfl
  | @colour c hc =>
    change [c].foldlM step ⟨k, .hash, older⟩ = _
    rw [List.foldlM_cons, step_hash hc]
    rfl
  | @numbered digits c hdigits hc =>
    cases digits with
    | nil => cases hdigits
    | cons d ds =>
      rw [isNumber, Bool.and_eq_true] at hdigits
      rw [List.cons_append, List.foldlM_cons, step_of_isDigit hdigits.1]
      change (ds ++ [c]).foldlM step _ = _
      rw [List.foldlM_append, foldlM_number hdigits.2]
      change [c].foldlM step _ = _
      rw [List.foldlM_cons, step_number_of_opensWord hc]
      simp
  | @more cs c _ hc ih =>
    rw [List.foldlM_append, ih]
    change [c].foldlM step _ = _
    rw [foldlM_word (by simpa using hc), List.reverse_append]

/-- **A bare name is scanned to itself.** -/
theorem reads_bareName {text : String} (h : BareName text.toList) :
    Reads text.toList (.name text) := by
  rw [Reads, start, foldlM_bareName h]
  change Except.ok (emitWord ⟨1, _, []⟩ _) = _
  rw [emitWord, List.reverse_reverse, String.ofList_toList]
  rfl

end Scan

end SchemaGraph
