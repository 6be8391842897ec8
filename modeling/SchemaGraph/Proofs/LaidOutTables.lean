import SchemaGraph.Document.Layout
import SchemaGraph.Proofs.WordCharacters
import SchemaGraph.Proofs.WrittenDocuments

/-!
# Reading tables that are laid out

A plain identifier is scanned to a name wherever a character follows that belongs to no word
(`Scan.foldlM_plain`). So the lines of a table that is laid out are scanned to the very pieces that
its written form has, on the same lines (`PlainTable.readsLines_table`), and what is known of
reading written documents carries over: tables that are laid out are read as they are
(`PlainTable.parse_layout`).
-/

namespace SchemaGraph

open Text

/-! ### Plain identifiers -/

theorem ascii_of_isPlainChar {c : Char} (h : isPlainChar c = true) : c.toNat < 128 := by
  rw [isPlainChar, opensPlain, Bool.or_eq_true, Bool.or_eq_true, isAlpha_iff, isDigit_iff,
    beq_iff_eq] at h
  obtain (halpha | rfl) | hdigit := h
  · omega
  · decide
  · omega

theorem isPlainChar_of_opensPlain {c : Char} (h : opensPlain c = true) : isPlainChar c = true := by
  rw [isPlainChar, h, Bool.true_or]

/-- What opens a plain identifier opens a word. -/
theorem opensWord_of_opensPlain {c : Char} (h : opensPlain c = true) : opensWord c = true := by
  rwa [opensWord_of_ascii (ascii_of_isPlainChar (isPlainChar_of_opensPlain h))]

theorem isWordChar_of_isPlainChar {c : Char} (h : isPlainChar c = true) : isWordChar c = true := by
  have hascii : c.toNat < 128 := ascii_of_isPlainChar h
  rw [isWordChar, isLetter_of_ascii hascii, isNumeric_of_ascii hascii]
  simpa [isPlainChar, opensPlain, or_right_comm] using h

theorem isBlank_of_isPlainChar {c : Char} (h : isPlainChar c = true) : isBlank c = false := by
  obtain hopens | hdigit := Bool.or_eq_true_iff.mp h
  · exact isBlank_of_opensWord (opensWord_of_opensPlain hopens)
  · exact isBlank_of_isDigit hdigit

/-- A plain identifier opens a bare name, and goes on with characters of one. -/
theorem exists_of_isPlain {name : String} (h : isPlain name = true) :
    ∃ c rest, name.toList = c :: rest ∧ opensPlain c = true ∧ ∀ x ∈ c :: rest,
      isPlainChar x = true := by
  unfold isPlain at h
  cases hname : name.toList with
  | nil =>
    rw [hname] at h
    cases h
  | cons c rest =>
    simp only [hname, Bool.and_eq_true, List.all_eq_true] at h
    exact ⟨c, rest, rfl, h.1, List.forall_mem_cons.mpr ⟨isPlainChar_of_opensPlain h.1, h.2⟩⟩

theorem isPlainChar_of_mem {name : String} (h : isPlain name = true) {c : Char}
    (hc : c ∈ name.toList) : isPlainChar c = true := by
  obtain ⟨_, _, hname, -, hall⟩ := exists_of_isPlain h
  exact hall c (hname ▸ hc)

/-- A character that belongs to no word is not in a plain identifier. -/
theorem not_mem_of_isPlain {name : String} (h : isPlain name = true) {c : Char}
    (hc : isWordChar c = false) : c ∉ name.toList := fun hmem =>
  Bool.false_ne_true (hc.symm.trans (isWordChar_of_isPlainChar (isPlainChar_of_mem h hmem)))

/-! ### Scanning lines -/

namespace Scan

variable {k : Nat} {older : List Lexeme}

/-- A word goes on as long as its characters come. -/
theorem foldlM_word {cs : List Char} (h : ∀ c ∈ cs, isWordChar c = true) (read : List Char) :
    cs.foldlM step ⟨k, .word read, older⟩ = .ok ⟨k, .word (cs.reverse ++ read), older⟩ := by
  induction cs generalizing read with
  | nil => rfl
  | cons c cs ih =>
    obtain ⟨hc, hcs⟩ := List.forall_mem_cons.mp h
    have hnewline : c ≠ '\n' := by
      rintro rfl
      revert hc
      decide
    have hstep : step ⟨k, .word read, older⟩ c = .ok ⟨k, .word (c :: read), older⟩ := by
      simp [step, Scan.read, hc, into, pass, hnewline, Except.map]
    rw [List.foldlM_cons, hstep]
    refine (ih hcs (c :: read)).trans ?_
    rw [List.reverse_cons, List.append_assoc, List.singleton_append]

/-- A plain identifier is scanned to a name once a character comes that belongs to no word. -/
theorem foldlM_plain {name : String} (h : isPlain name = true) {c : Char}
    (hc : isWordChar c = false) (rest : List Char) :
    (name.toList ++ c :: rest).foldlM step ⟨k, .gap, older⟩ =
      (c :: rest).foldlM step ⟨k, .gap, ⟨.name name, k⟩ :: older⟩ := by
  obtain ⟨x, xs, hname, hx, hall⟩ := exists_of_isPlain h
  have hnewline : x ≠ '\n' := by
    rintro rfl
    revert hx
    decide
  have hfirst : step ⟨k, .gap, older⟩ x = .ok ⟨k, .word [x], older⟩ := by
    simp [step, Scan.read, readGap_of_opensWord _ (opensWord_of_opensPlain hx), into, pass,
      hnewline, Except.map]
  have hothers : ∀ y ∈ xs, isWordChar y = true := fun y hy =>
    isWordChar_of_isPlainChar (hall y (List.mem_cons_of_mem x hy))
  have hlast : step ⟨k, .word name.toList.reverse, older⟩ c =
      step ⟨k, .gap, ⟨.name name, k⟩ :: older⟩ c := by
    simp [step, Scan.read, hc, emitWord, emit, emitAt]
  have hword : name.toList.foldlM step ⟨k, .gap, older⟩ =
      .ok ⟨k, .word name.toList.reverse, older⟩ := by
    rw [hname, List.foldlM_cons, hfirst, List.reverse_cons]
    exact foldlM_word hothers [x]
  rw [List.foldlM_append, hword, List.foldlM_cons, ← hlast]
  rfl

/-- A line is scanned to some pieces, wherever it stands. -/
def ReadsLine (line : String) (pieces : List Piece) : Prop :=
  ∀ (k : Nat) (older : List Lexeme) (rest : List Char),
    (line.toList ++ '\n' :: rest).foldlM step ⟨k, .gap, older⟩ =
      rest.foldlM step ⟨k + 1, .gap, (pieces.map (Piece.lexeme k)).reverse ++ older⟩

theorem foldlM_space (rest : List Char) :
    (' ' :: rest).foldlM step ⟨k, .gap, older⟩ = rest.foldlM step ⟨k, .gap, older⟩ := rfl

theorem foldlM_mark {c : Char} {t : Token} (ht : Token.ofMark c = some t)
    (hc : isBlank c = false) (rest : List Char) :
    (c :: rest).foldlM step ⟨k, .gap, older⟩ = rest.foldlM step ⟨k, .gap, ⟨t, k⟩ :: older⟩ := by
  have hnewline : c ≠ '\n' := by
    rintro rfl
    cases ht
  have hstep : step ⟨k, .gap, older⟩ c = .ok ⟨k, .gap, ⟨t, k⟩ :: older⟩ := by
    simp [step, Scan.read, readGap, hc, ht, emit, emitAt, pass, hnewline, Except.map]
  rw [List.foldlM_cons, hstep]
  rfl

theorem foldlM_newline (rest : List Char) :
    ('\n' :: rest).foldlM step ⟨k, .gap, older⟩ = rest.foldlM step ⟨k + 1, .gap, older⟩ := rfl

end Scan

/-! ### Reading tables -/

namespace PlainTable

theorem toList_heading (t : PlainTable) : t.heading.toList = "Table".toList ++ ' ' ::
    (t.qualifier.toList ++ (t.name.text.toList ++ (t.aliasClause.toList ++ [' ', '\x7b']))) := by
  simp [heading]

theorem toList_columnLine (c : PlainName) :
    (columnLine c).toList = ' ' :: ' ' :: (c.text.toList ++ ' ' :: "int".toList) := by
  simp [columnLine]

/-- The name of a table ends where its alias or the brace comes. -/
theorem exists_aliasClause (t : PlainTable) (rest : List Char) :
    ∃ chars, t.aliasClause.toList ++ ' ' :: rest = ' ' :: chars := by
  obtain ⟨schema, name, shorthand, columns⟩ := t
  cases shorthand with
  | none => exact ⟨rest, rfl⟩
  | some s => exact ⟨"as ".toList ++ s.text.toList ++ ' ' :: rest, by simp [aliasClause]⟩

section Scanning

variable {k : Nat} {older : List Lexeme}

/-- The schema and the name of a table are scanned to the pieces of a qualified name. -/
theorem foldlM_qualifier (t : PlainTable) {c : Char} (hc : isWordChar c = false)
    (rest : List Char) :
    (t.qualifier.toList ++ (t.name.text.toList ++ c :: rest)).foldlM Scan.step ⟨k, .gap, older⟩ =
      (c :: rest).foldlM Scan.step ⟨k, .gap,
        ((qualifiedPieces t.table.schema t.table.name).map (Piece.lexeme k)).reverse ++ older⟩ := by
  obtain ⟨schema, name, shorthand, columns⟩ := t
  cases schema with
  | none => exact Scan.foldlM_plain name.plain hc rest
  | some s =>
    have hdot : (s.text ++ ".").toList ++ (name.text.toList ++ c :: rest) =
        s.text.toList ++ '.' :: (name.text.toList ++ c :: rest) := by simp
    refine (congrArg (List.foldlM _ _) hdot).trans ?_
    rw [Scan.foldlM_plain s.plain (by decide), Scan.foldlM_mark rfl (by decide),
      Scan.foldlM_plain name.plain hc]
    rfl

/-- So is an alias with the keyword in front of it. -/
theorem foldlM_aliasClause (t : PlainTable) (rest : List Char) :
    (t.aliasClause.toList ++ ' ' :: rest).foldlM Scan.step ⟨k, .gap, older⟩ =
      (' ' :: rest).foldlM Scan.step ⟨k, .gap,
        (((t.table.shorthand.map fun s => [.keyword "as", .name s]).getD []).map
          (Piece.lexeme k)).reverse ++ older⟩ := by
  obtain ⟨schema, name, shorthand, columns⟩ := t
  cases shorthand with
  | none => rfl
  | some s =>
    have has : (" as " ++ s.text).toList ++ ' ' :: rest =
        ' ' :: ("as".toList ++ ' ' :: (s.text.toList ++ ' ' :: rest)) := by simp
    refine (congrArg (List.foldlM _ _) has).trans ?_
    rw [Scan.foldlM_space, Scan.foldlM_plain (by decide) (by decide), Scan.foldlM_space,
      Scan.foldlM_plain s.plain (by decide)]
    rfl

/-- The pieces of the heading of a table, in front of the brace. -/
def headingPieces (t : PlainTable) : List Piece :=
  .keyword "Table" :: qualifiedPieces t.table.schema t.table.name
    ++ (t.table.shorthand.map fun s => [.keyword "as", .name s]).getD []

theorem readsLine_heading (t : PlainTable) :
    Scan.ReadsLine t.heading (t.headingPieces ++ [.token .openBrace]) := by
  intro k older rest
  have hchars : t.heading.toList ++ '\n' :: rest = "Table".toList ++ ' ' :: (t.qualifier.toList ++
      (t.name.text.toList ++ (t.aliasClause.toList ++ ' ' :: '\x7b' :: '\n' :: rest))) := by
    simp [toList_heading]
  obtain ⟨chars, hclause⟩ := t.exists_aliasClause ('\x7b' :: '\n' :: rest)
  rw [hchars, Scan.foldlM_plain (by decide) (by decide), Scan.foldlM_space, hclause,
    foldlM_qualifier t (by decide), ← hclause, foldlM_aliasClause, Scan.foldlM_space,
    Scan.foldlM_mark rfl (by decide), Scan.foldlM_newline]
  simp only [headingPieces, List.map_append, List.map_cons, List.reverse_append,
    List.reverse_cons, List.append_assoc, List.map_nil, List.reverse_nil, List.nil_append,
    List.cons_append]
  rfl

theorem readsLine_column (c : PlainName) :
    Scan.ReadsLine (columnLine c) [.name c.text, .name "int"] := by
  intro k older rest
  have hchars : (columnLine c).toList ++ '\n' :: rest =
      ' ' :: ' ' :: (c.text.toList ++ ' ' :: ("int".toList ++ '\n' :: rest)) := by
    simp [toList_columnLine]
  rw [hchars, Scan.foldlM_space, Scan.foldlM_space, Scan.foldlM_plain c.plain (by decide),
    Scan.foldlM_space, Scan.foldlM_plain (by decide) (by decide), Scan.foldlM_newline]
  rfl

theorem readsLine_brace : Scan.ReadsLine "\x7d" [.token .closeBrace] :=
  fun _ _ _ => rfl

/-- The lines of a table are scanned to those that it is written with. -/
theorem readsLines_table (t : PlainTable) :
    List.Forall₂ Scan.ReadsLine t.layoutLines t.table.lines := by
  have hcolumns : List.Forall₂ Scan.ReadsLine (t.columns.map columnLine)
      (t.table.items.map TableItem.pieces) := by
    rw [table, List.map_map, List.forall₂_map_left_iff, List.forall₂_map_right_iff,
      List.forall₂_same]
    exact fun c _ => readsLine_column c
  have hlines : t.table.lines = (t.headingPieces ++ [.token .openBrace]) ::
      t.table.items.map TableItem.pieces ++ [[.token .closeBrace]] := by
    simp [Table.lines, blockLines, headingPieces, Index.allLines, noteLine, table]
  rw [hlines]
  exact .cons t.readsLine_heading (List.rel_append hcolumns (.cons readsLine_brace .nil))

end Scanning

/-! ### Reading their text -/

theorem toList_layout (tables : List PlainTable) :
    (layout tables).toList = (tables.flatMap layoutLines).flatMap (·.toList ++ ['\n']) := by
  simp [layout, String.toList_join, List.flatMap_map]

/-- Lines one below the other are scanned each to its pieces. -/
theorem foldlM_readsLines {lines : List String} {pieces : List (List Piece)}
    (h : List.Forall₂ Scan.ReadsLine lines pieces) (k : Nat) (older : List Lexeme) :
    (lines.flatMap (·.toList ++ ['\n'])).foldlM Scan.step ⟨k, .gap, older⟩ =
      .ok ⟨k + pieces.length, .gap, (Piece.lexemesFrom k pieces).reverse ++ older⟩ := by
  induction h generalizing k older with
  | nil => rfl
  | @cons line ps lines pieces hline _ ih =>
    rw [List.flatMap_cons, List.append_assoc, List.singleton_append, hline, ih,
      Piece.lexemesFrom_cons, List.reverse_append, List.append_assoc, List.length_cons,
      Nat.add_right_comm, Nat.add_assoc]

/-- The document of tables that are laid out. -/
def document (tables : List PlainTable) : Document where
  project := none
  tables := tables.map table
  partials := []
  refs := []
  enums := []

theorem lines_document (tables : List PlainTable) :
    (document tables).lines = tables.flatMap fun t => t.table.lines := by
  simp [document, Document.lines, List.flatMap_map]

theorem scan_layout (tables : List PlainTable) : ∃ e, scan (layout tables) =
    .ok (Piece.lexemesFrom 1 (document tables).lines ++ [⟨.endOfText, e⟩]) := by
  have hlines : List.Forall₂ Scan.ReadsLine (tables.flatMap layoutLines)
      (document tables).lines := by
    rw [lines_document]
    induction tables with
    | nil => exact .nil
    | cons t tables ih =>
      rw [List.flatMap_cons, List.flatMap_cons]
      exact List.rel_append t.readsLines_table ih
  have htext : Scan.ofText (layout tables) = .ok ⟨1 + (document tables).lines.length, .gap,
      (Piece.lexemesFrom 1 (document tables).lines).reverse ++ []⟩ := by
    rw [Scan.ofText, toList_layout]
    exact bind_eq_ok_iff.mpr ⟨_, foldlM_readsLines hlines 1 [], rfl⟩
  refine ⟨1 + (document tables).lines.length, ?_⟩
  rw [Scan.scan_eq, htext, Except.map, Scan.tokens, List.append_nil, List.reverse_reverse]

theorem writable_document (tables : List PlainTable) : (document tables).Writable where
  tables := by
    simp only [document, List.forall_mem_map]
    refine fun t _ => ⟨?_, nofun⟩
    simp [Table.columns, table, List.filterMap_map, TableItem.column?, Column.Writable]
  partials := List.forall_mem_nil _
  refs := List.forall_mem_nil _
  enums := List.forall_mem_nil _

/-- **Tables that are laid out are read as they are**, up to the lines on which they stand. -/
theorem parse_layout (tables : List PlainTable) : ∃ d, Document.parse .partials (layout tables) =
    .ok d ∧ d.mapLines (fun _ => 0) = document tables := by
  obtain ⟨e, hscan⟩ := scan_layout tables
  obtain ⟨declared, l, hrounds, hsame⟩ := Reader.rounds_lines
    (Document.readsLines_declarations (writable_document tables)) rfl (k := 1) (m := e) (.inl rfl)
    1 []
  rw [Document.lines_declarations] at hrounds
  refine ⟨_, Document.parse_eq_ok_iff.mpr
    ⟨_, declared, _, hscan, Reader.manyWhile_of_rounds hrounds, rfl⟩, ?_⟩
  have hlines : (document tables).mapLines (fun _ => 0) = document tables := by
    simp [document, Document.mapLines, Table.mapLines, table, TableItem.mapLine, Column.mapLine]
  rw [← Document.ofDeclarations_mapLines, hsame, Document.ofDeclarations_mapLines,
    Document.ofDeclarations_declarations, hlines]

end PlainTable

end SchemaGraph
