import SchemaGraph.Proofs.LaidOutTables
import SchemaGraph.Proofs.TokenOccurrences

/-!
# Scanning a written line of tokens

Tokens written on one line are found again, in their order and with their texts, whatever characters
these are made of (`scan_writtenLine`). A number is the only token whose text is not written between
marks, and so the only one of which something is asked: that its text is a number. The tokens of a
text meet that (`writable_of_scan`), so that every text that can be scanned can be written anew on
one line.
-/

namespace SchemaGraph

/-- A token that can be written: not the mark of the end, and a number only if its text is one. -/
def Token.Writable : Token → Prop
  | number text => isNumber text.toList = true
  | endOfText => False
  | _ => True

instance (t : Token) : Decidable t.Writable := by
  unfold Token.Writable
  split <;> infer_instance

namespace Scan

variable {k : Nat} {older : List Lexeme} {c : Char}

/-! ### Numbers -/

theorem step_of_isDigit (h : c.isDigit = true) :
    step ⟨k, .gap, older⟩ c = .ok ⟨k, .number [c], older⟩ := by
  rw [step, read, readGap_of_isDigit _ h]
  exact congrArg Except.ok (pass_of_ne (ne_newline h rfl) _)

/-- A number goes on with a digit. -/
theorem step_number (h : c.isDigit = true) (read : List Char) :
    step ⟨k, .number read, older⟩ c = .ok ⟨k, .number (c :: read), older⟩ := by
  simp only [step, Scan.read, if_pos h]
  exact congrArg Except.ok (pass_of_ne (ne_newline h rfl) _)

/-- Behind a dot, a digit makes both a part of the number. -/
theorem step_numberDot (h : c.isDigit = true) (read : List Char) :
    step ⟨k, .numberDot read, older⟩ c = .ok ⟨k, .number (c :: '.' :: read), older⟩ := by
  simp only [step, Scan.read, if_pos h]
  exact congrArg Except.ok (pass_of_ne (ne_newline h rfl) _)

/-- A number goes on as long as digits come, and dots with a digit behind them. -/
theorem foldlM_number {cs : List Char} (h : continuesNumber cs = true) (read : List Char) :
    cs.foldlM step ⟨k, .number read, older⟩ = .ok ⟨k, .number (cs.reverse ++ read), older⟩ := by
  fun_induction continuesNumber cs generalizing read with
  | case1 => rfl
  | case2 d rest ih =>
    rw [Bool.and_eq_true] at h
    change (d :: rest).foldlM step ⟨k, .numberDot read, older⟩ = _
    rw [List.foldlM_cons, step_numberDot h.1]
    change rest.foldlM step _ = _
    rw [ih h.2]
    simp
  | case3 c rest hdot ih =>
    rw [Bool.and_eq_true] at h
    rw [List.foldlM_cons, step_number h.1]
    change rest.foldlM step _ = _
    rw [ih h.2]
    simp

/-- A number is scanned to itself. -/
theorem reads_number {text : String} (h : isNumber text.toList = true) :
    Reads text.toList (.number text) := by
  unfold Reads
  cases htext : text.toList with
  | nil =>
    rw [htext] at h
    cases h
  | cons c cs =>
    rw [htext, isNumber, Bool.and_eq_true] at h
    rw [List.foldlM_cons, start, step_of_isDigit h.1]
    change cs.foldlM step ⟨1, .number [c], []⟩ >>= close = _
    rw [foldlM_number h.2, ← List.reverse_cons, ← htext]
    change Except.ok (emitNumber ⟨1, _, []⟩ _) = _
    rw [emitNumber, List.reverse_reverse, String.ofList_toList]
    rfl

end Scan

/-! ### Lines of tokens -/

namespace Token

/-- The written form of a token that can be written is scanned to that token. -/
theorem Writable.reads {t : Token} (h : t.Writable) : Scan.Reads t.written t := by
  cases t with
  | number text => exact Scan.reads_number h
  | endOfText => exact h.elim
  | _ => exact Scan.reads_written (by simp) (by simp)

/-- What is spelled by characters can be written. -/
theorem SpelledBy.writable {t : Token} {cs : List Char} (h : t.SpelledBy cs) : t.Writable := by
  cases h with
  | mark hmark =>
    have hend := Scan.ofMark_ne_endOfText hmark
    unfold ofMark at hmark
    split at hmark <;> cases hmark <;> trivial
  | number hnumber =>
    rw [Writable, String.toList_ofList]
    exact hnumber
  | @quoted form _ _ _ => cases form <;> trivial
  | less | diamond | bare | tripleQuoted => trivial

end Token

theorem Occurrence.writable_of_mem_lexemesFrom {os : List Occurrence} (h : ∀ o ∈ os, o.Sound)
    {line : Nat} {x : Lexeme} (hx : x ∈ lexemesFrom line os) : x.token.Writable := by
  induction os generalizing line with
  | nil => cases hx
  | cons o os ih =>
    obtain ⟨ho, hos⟩ := List.forall_mem_cons.mp h
    rcases List.mem_cons.mp hx with rfl | hx
    · exact ho.source.writable
    · exact ih hos hx

/-- The tokens of a text can be written, but for the mark of its end. -/
theorem writable_of_scan {text : String} {lexemes : List Lexeme} (h : scan text = .ok lexemes) :
    ∀ x ∈ lexemes.dropLast, x.token.Writable := by
  obtain ⟨os, hos, rfl⟩ := scan_occurrences h
  rw [List.dropLast_concat]
  exact fun x hx => Occurrence.writable_of_mem_lexemesFrom hos.sound hx

/-- **Tokens that are written on a line are read back.** Names, strings and expressions may have any
texts, the empty one and texts made of quotes, backslashes, newlines and the signs of comments among
them; a number has to be one. The scan of the line finds the tokens themselves, and the end of the
text, all on the first line. -/
theorem scan_writtenLine {tokens : List Token} (h : ∀ t ∈ tokens, t.Writable) :
    scan (String.ofList (Token.writtenLine tokens)) =
      .ok ((tokens ++ [Token.endOfText]).map (⟨·, 1⟩)) := by
  have hchars : Token.writtenLine tokens = Piece.lineChars (tokens.map .token) := by
    rw [Piece.lineChars, List.map_map]
    rfl
  have hreadable : ∀ p ∈ tokens.map Piece.token, p.Readable :=
    List.forall_mem_map.mpr fun t ht => (h t ht).reads
  obtain ⟨s, hs, hclose⟩ := Piece.foldlM_lineChars [] _ hreadable 0
  have htext : Scan.ofText (String.ofList (Token.writtenLine tokens)) =
      .ok ⟨1, .gap, ((tokens.map Piece.token).map (Piece.lexeme 1)).reverse ++ []⟩ := by
    rw [Scan.ofText, String.toList_ofList, hchars]
    exact bind_eq_ok_iff.mpr ⟨s, hs, hclose⟩
  rw [Scan.scan_eq, htext]
  simp [Except.map, Scan.tokens, Piece.lexeme, Piece.toToken, Function.comp_def]

/-- Texts made of quotes and signs of comments, and marks that would be one token or a part of a
number without the space between them. -/
theorem scan_writtenLine_tricky :
    let tokens : List Token := [.string "", .string "''", .name "a\"\\\n//", .expression "\x60/*",
      .less, .greater, .number "1.5", .dot, .number "2", .name "é", .diamond]
    (∀ t ∈ tokens, t.Writable) ∧
    Token.writtenLine tokens =
      "'' '\\'\\'' \"a\\\"\\\\\\n//\" \x60\\\x60/*\x60 < > 1.5 . 2 \"é\" <>".toList ∧
    scan (String.ofList (Token.writtenLine tokens)) =
      .ok ((tokens ++ [Token.endOfText]).map (⟨·, 1⟩)) := by
  intro tokens
  have h : ∀ t ∈ tokens, t.Writable := by decide
  exact ⟨h, by decide +kernel, scan_writtenLine h⟩

end SchemaGraph
