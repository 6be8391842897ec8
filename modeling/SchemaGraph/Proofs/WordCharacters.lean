import SchemaGraph.Proofs.Scanning

/-!
# What begins between two tokens

Blanks, digits and what opens a word are apart from each other and from the marks. So between two
tokens a digit begins a number (`Scan.readGap_of_isDigit`), and what opens a word begins a word
(`Scan.readGap_of_opensWord`).
-/

namespace SchemaGraph

open Text

variable {c : Char}

/-! ### Code points -/

theorem isDigit_iff : c.isDigit = true ↔ 48 ≤ c.toNat ∧ c.toNat ≤ 57 := by
  simp [Char.isDigit, UInt32.le_iff_toNat_le, ← Char.toNat_val]

theorem isAlpha_iff : c.isAlpha = true ↔
    (65 ≤ c.toNat ∧ c.toNat ≤ 90) ∨ (97 ≤ c.toNat ∧ c.toNat ≤ 122) := by
  have hupper : c.isUpper = true ↔ 65 ≤ c.toNat ∧ c.toNat ≤ 90 := by
    delta Char.isUpper
    simp [UInt32.le_iff_toNat_le, ← Char.toNat_val]
  have hlower : c.isLower = true ↔ 97 ≤ c.toNat ∧ c.toNat ≤ 122 := by
    delta Char.isLower
    simp [UInt32.le_iff_toNat_le, ← Char.toNat_val]
  exact Bool.or_eq_true_iff.trans (or_congr hupper hlower)

theorem Text.Ranges.covers_iff {ranges : Ranges} :
    ranges.covers c = true ↔ ∃ r ∈ ranges, r.1 ≤ c.toNat ∧ c.toNat ≤ r.2 := by
  induction ranges with
  | nil => simp [covers]
  | cons r ranges ih => simp [covers, ih]

theorem toNat_le_of_isBlank (h : isBlank c = true) (hascii : c.toNat < 128) : c.toNat ≤ 32 := by
  obtain ⟨r, hr, hlow, hhigh⟩ := Ranges.covers_iff.mp h
  have hfirst : ∀ r ∈ blankRanges, r.2 ≤ 32 ∨ 128 ≤ r.1 := by decide
  have hr := hfirst r hr
  omega

/-- Beyond ASCII, blanks and letters are in ranges apart from each other. -/
theorem blankRanges_apart {blank letter : Nat × Nat} (hblank : blank ∈ blankRanges)
    (hletter : letter ∈ letterRanges) : letter.2 < blank.1 ∨ blank.2 < letter.1 := by
  have hall : (blankRanges.all fun blank => letterRanges.all fun letter =>
      Nat.blt letter.2 blank.1 || Nat.blt blank.2 letter.1) = true := by
    decide +kernel
  have happart := List.all_eq_true.mp (List.all_eq_true.mp hall blank hblank) letter hletter
  rwa [Bool.or_eq_true, Nat.blt_eq, Nat.blt_eq] at happart

/-! ### Classes apart from each other -/

theorem isBlank_of_isDigit (h : c.isDigit = true) : isBlank c = false := by
  rw [Bool.eq_false_iff]
  intro hblank
  obtain ⟨hlow, hhigh⟩ := isDigit_iff.mp h
  have hle := toNat_le_of_isBlank hblank (by omega)
  omega

/-- Among the ASCII characters letters and the underscore open a word. -/
theorem opensWord_of_ascii (hascii : c.toNat < 128) :
    opensWord c = (c.isAlpha || c == '_') := by
  rw [opensWord, isLetter_of_ascii hascii]

/-- A blank does not open a word. -/
theorem isBlank_of_opensWord (h : opensWord c = true) : isBlank c = false := by
  rw [Bool.eq_false_iff]
  intro hblank
  by_cases hascii : c.toNat < 128
  · have hle := toNat_le_of_isBlank hblank hascii
    rw [opensWord_of_ascii hascii, Bool.or_eq_true, isAlpha_iff, beq_iff_eq] at h
    obtain halpha | rfl := h
    · omega
    · exact absurd hle (by decide)
  · obtain ⟨blank, hmem, hlow, hhigh⟩ := Ranges.covers_iff.mp hblank
    rw [opensWord, isLetter, if_neg hascii, Bool.or_eq_true, beq_iff_eq] at h
    obtain hletter | rfl := h
    · obtain ⟨letter, hmem', hlow', hhigh'⟩ := Ranges.covers_iff.mp hletter
      have happart := blankRanges_apart hmem hmem'
      omega
    · exact hascii (by decide)

theorem isDigit_of_opensWord (h : opensWord c = true) : c.isDigit = false := by
  rw [Bool.eq_false_iff]
  intro hdigit
  obtain ⟨hlow, hhigh⟩ := isDigit_iff.mp hdigit
  rw [opensWord_of_ascii (by omega), Bool.or_eq_true, isAlpha_iff, beq_iff_eq] at h
  obtain halpha | rfl := h
  · omega
  · cases hdigit

/-- The characters that begin something other than a number or a word. -/
def marks : List Char :=
  ['\x7b', '\x7d', '(', ')', '[', ']', ',', ':', '.', '~', '>', '-', '<', '"', '\x60', '\'', '/',
    '#']

theorem not_mem_marks {p : Char → Bool} (hp : marks.any p = false) (h : p c = true) :
    c ∉ marks := fun hmem =>
  absurd h (List.any_eq_false.mp hp c hmem)

/-! ### Scanning -/

namespace Scan

variable (s : Scan)

/-- What is neither a blank nor a mark begins a number or a word. -/
theorem readGap_of_not_mem_marks (hmarks : c ∉ marks) (hblank : isBlank c = false) :
    s.readGap c = if c.isDigit then .ok (s.into (.number [c]))
      else if opensWord c then .ok (s.into (.word [c]))
      else .error (.unexpectedCharacter c s.line) := by
  simp only [marks, List.mem_cons, List.not_mem_nil, or_false, not_or] at hmarks
  simp [readGap, hblank, Token.ofMark, Quotation.ofMark, hmarks]

theorem readGap_of_isDigit (h : c.isDigit = true) : s.readGap c = .ok (s.into (.number [c])) := by
  rw [readGap_of_not_mem_marks s (not_mem_marks (p := Char.isDigit) rfl h)
    (isBlank_of_isDigit h), if_pos h]

theorem readGap_of_opensWord (h : opensWord c = true) : s.readGap c = .ok (s.into (.word [c])) := by
  rw [readGap_of_not_mem_marks s (not_mem_marks rfl h) (isBlank_of_opensWord h),
    if_neg (by simp [isDigit_of_opensWord h]), if_pos h]

end Scan

end SchemaGraph
