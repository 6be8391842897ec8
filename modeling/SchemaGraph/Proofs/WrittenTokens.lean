import SchemaGraph.Document.Quoted
import SchemaGraph.Proofs.Scanning

/-!
# Scanning written lines

What is written is scanned to what was to be written. The written form of a token is scanned to that
token alone (`Scan.Reads`), a space parts it from the next one, and a newline ends its line. Pieces
that are readable one by one are therefore readable on lines one below the other, and each of them
is found on the line on which it was written (`scan_writtenLines`).
-/

namespace SchemaGraph

namespace Scan

variable {s : Scan} {k : Nat} {older : List Lexeme}

/-- Some characters are scanned to a token. -/
def Reads (cs : List Char) (t : Token) : Prop :=
  (cs.foldlM step start >>= close) = .ok ⟨1, .gap, [⟨t, 1⟩]⟩

instance (cs : List Char) (t : Token) : Decidable (Reads cs t) :=
  inferInstanceAs (Decidable (_ = _))

/-! ### Quoted forms -/

/-- The written form of a character is scanned to that character. -/
theorem foldlM_escapedChar (form : Quotation) (c : Char) (begun : Nat) (read : List Char) :
    (form.escapedChar c).foldlM step ⟨k, .quoted form begun read, older⟩ =
      .ok ⟨k, .quoted form begun (c :: read), older⟩ := by
  unfold Quotation.escapedChar
  split_ifs with hnewline hescaped
  · subst hnewline
    cases form <;> rfl
  · rcases hescaped with rfl | rfl <;> cases form <;> rfl
  · obtain ⟨hbackslash, hmark⟩ := not_or.mp hescaped
    simp [step, Scan.read, readQuoted, into, pass, hnewline, hbackslash, hmark, Except.map]

theorem foldlM_escaped (form : Quotation) (cs : List Char) (begun : Nat) (read : List Char) :
    (cs.flatMap form.escapedChar).foldlM step ⟨k, .quoted form begun read, older⟩ =
      .ok ⟨k, .quoted form begun (cs.reverse ++ read), older⟩ := by
  induction cs generalizing read with
  | nil => rfl
  | cons c cs ih =>
    rw [List.flatMap_cons, List.foldlM_append, foldlM_escapedChar]
    change (cs.flatMap form.escapedChar).foldlM step _ = _
    rw [ih, List.reverse_cons, List.append_assoc]
    rfl

/-- The rest of a quoted form, behind its first mark. -/
theorem foldlM_quoted (form : Quotation) (text : String) :
    (text.toList.flatMap form.escapedChar ++ [form.mark]).foldlM step ⟨1, .quoted form 1 [], []⟩ =
      .ok ⟨1, .gap, [⟨form.token text, 1⟩]⟩ := by
  have hlast : ∀ read, step ⟨1, .quoted form 1 read, []⟩ form.mark =
      .ok ⟨1, .gap, [⟨form.token (String.ofList read.reverse), 1⟩]⟩ := by
    intro read
    cases form <;> rfl
  rw [List.foldlM_append, foldlM_escaped]
  change step ⟨1, .quoted form 1 (text.toList.reverse ++ []), []⟩ form.mark >>= _ = _
  rw [hlast, List.append_nil, List.reverse_reverse, String.ofList_toList]
  rfl

/-- A written character does not begin with the mark of the form. -/
theorem exists_escapedChar (form : Quotation) (c : Char) :
    ∃ x xs, form.escapedChar c = x :: xs ∧ x ≠ form.mark := by
  have hbackslash : '\\' ≠ form.mark := by cases form <;> decide
  unfold Quotation.escapedChar
  split_ifs with hnewline hescaped
  · exact ⟨_, _, rfl, hbackslash⟩
  · exact ⟨_, _, rfl, hbackslash⟩
  · exact ⟨c, [], rfl, fun h => hescaped (.inr h)⟩

/-- Behind a single quote that no other one follows, a string goes on as any quoted form does. -/
theorem foldlM_quote {c : Char} (h : c ≠ '\'') (cs : List Char) :
    (c :: cs).foldlM step ⟨1, .quote, []⟩ =
      (c :: cs).foldlM step ⟨1, .quoted .string 1 [], []⟩ := by
  have hstep : step ⟨1, .quote, []⟩ c = step ⟨1, .quoted .string 1 [], []⟩ c := by
    simp only [step, Scan.read, if_neg h]
    rfl
  rw [List.foldlM_cons, List.foldlM_cons, hstep]

/-- Behind the first mark of a string, its rest is read as that of any quoted form. -/
theorem foldlM_string (text : String) :
    (text.toList.flatMap Quotation.string.escapedChar ++ ['\'']).foldlM step ⟨1, .quote, []⟩
      >>= close = .ok ⟨1, .gap, [⟨.string text, 1⟩]⟩ := by
  have hquoted := foldlM_quoted .string text
  cases htext : text.toList with
  | nil =>
    obtain rfl : text = "" := String.toList_eq_nil_iff.mp htext
    rfl
  | cons c cs =>
    -- the first character tells the text from an empty one and from one in triple quotes
    obtain ⟨x, xs, hx, hmark⟩ := exists_escapedChar .string c
    rw [htext, List.flatMap_cons, hx, List.cons_append, List.cons_append] at hquoted
    rw [List.flatMap_cons, hx, List.cons_append, List.cons_append, foldlM_quote hmark]
    exact bind_eq_ok_iff.mpr ⟨_, hquoted, rfl⟩

/-- The written form of a text is scanned to that text. -/
theorem reads_quoted (form : Quotation) (text : String) :
    Reads (form.written text) (form.token text) := by
  unfold Reads Quotation.written
  rw [List.cons_append, List.foldlM_cons]
  cases form with
  | name => exact bind_eq_ok_iff.mpr ⟨_, foldlM_quoted .name text, rfl⟩
  | string => exact foldlM_string text
  | expression => exact bind_eq_ok_iff.mpr ⟨_, foldlM_quoted .expression text, rfl⟩

/-- The written form of a token is scanned to that token. Numbers are another matter, since not
every text is a number. -/
theorem reads_written {t : Token} (hnumber : ∀ text, t ≠ .number text) (hend : t ≠ .endOfText) :
    Reads t.written t := by
  cases t with
  | name text => exact reads_quoted .name text
  | string text => exact reads_quoted .string text
  | expression text => exact reads_quoted .expression text
  | number text => exact absurd rfl (hnumber text)
  | endOfText => exact absurd rfl hend
  | _ => rfl

/-! ### One below the other -/

/-- What is scanned to a token on its own is scanned to that token behind other text. -/
theorem Reads.behind {cs : List Char} {t : Token} (h : Reads cs t) (k : Nat)
    (older : List Lexeme) : ∃ s, cs.foldlM step ⟨k + 1, .gap, older⟩ = .ok s ∧
      s.close = .ok ⟨k + 1, .gap, ⟨t, k + 1⟩ :: older⟩ := by
  obtain ⟨s, hs, hclose⟩ := bind_eq_ok_iff.mp h
  have hstart : (⟨k + 1, .gap, older⟩ : Scan) = start.behind older k := by
    rw [Scan.behind, start, Nat.add_comm]
    rfl
  refine ⟨s.behind older k, ?_, ?_⟩
  · rw [hstart, foldlM_behind, hs]
    rfl
  · rw [close_behind, hclose, Nat.add_comm]
    rfl

/-- A space ends whatever the end of the text would end, other than a comment. -/
theorem step_space_of_close (h : s.close = .ok ⟨k, .gap, older⟩) :
    s.step ' ' = .ok ⟨k, .gap, older⟩ := by
  obtain ⟨line, doing, found⟩ := s
  cases doing with
  | gap | word r | number r | numberDot r | less | twoQuotes =>
    cases h
    rfl
  | lineComment | slash | blockComment | hash | quote | quoted | escape | tripleQuoted => cases h

end Scan

/-! ### Pieces -/

/-- Whether a token is a punctuation mark. -/
def Token.isMark : Token → Bool
  | .name _ | .string _ | .expression _ | .number _ | .endOfText => false
  | _ => true

namespace Piece

variable {s : Scan} {older : List Lexeme}

/-- A piece that is scanned to its token. -/
def Readable (p : Piece) : Prop :=
  Scan.Reads p.written p.toToken

/-- What a piece is scanned to, on a line. -/
def lexeme (line : Nat) (p : Piece) : Lexeme :=
  ⟨p.toToken, line⟩

/-- What lines of pieces are scanned to, from a line on. -/
def lexemesFrom (line : Nat) : List (List Piece) → List Lexeme
  | [] => []
  | pieces :: lines => pieces.map (lexeme line) ++ lexemesFrom (line + 1) lines

theorem lexemesFrom_cons (pieces : List Piece) (lines : List (List Piece)) (line : Nat) :
    lexemesFrom line (pieces :: lines) =
      pieces.map (lexeme line) ++ lexemesFrom (line + 1) lines := rfl

/-- The characters of pieces on one line. -/
def lineChars (pieces : List Piece) : List Char :=
  ((pieces.map written).intersperse [' ']).flatten

theorem foldlM_lineChars (older : List Lexeme) (pieces : List Piece)
    (h : ∀ p ∈ pieces, p.Readable) (k : Nat) :
    ∃ s, (lineChars pieces).foldlM Scan.step ⟨k + 1, .gap, older⟩ = .ok s ∧
      s.close = .ok ⟨k + 1, .gap, (pieces.map (lexeme (k + 1))).reverse ++ older⟩ := by
  induction pieces generalizing older with
  | nil => exact ⟨_, rfl, rfl⟩
  | cons p pieces ih =>
    obtain ⟨s, hs, hclose⟩ := (h p List.mem_cons_self).behind k older
    cases pieces with
    | nil => exact ⟨s, (congrArg (List.foldlM _ _) (List.append_nil _)).trans hs, hclose⟩
    | cons q pieces =>
      obtain ⟨s', hs', hclose'⟩ := ih _ fun p hp => h p (List.mem_cons_of_mem _ hp)
      refine ⟨s', ?_, ?_⟩
      · change (p.written ++ ' ' :: lineChars (q :: pieces)).foldlM Scan.step _ = _
        rw [List.foldlM_append, hs]
        change (' ' :: lineChars (q :: pieces)).foldlM Scan.step s = _
        rw [List.foldlM_cons, Scan.step_space_of_close hclose]
        exact hs'
      · rw [hclose', List.map_cons (l := q :: pieces), List.reverse_cons, List.append_assoc]
        rfl

theorem foldlM_lines (older : List Lexeme) (lines : List (List Piece))
    (h : ∀ pieces ∈ lines, ∀ p ∈ pieces, p.Readable) (k : Nat) :
    ∃ s e, ((lines.map lineChars).intersperse ['\n']).flatten.foldlM Scan.step
      ⟨k + 1, .gap, older⟩ = .ok s ∧
        s.close = .ok ⟨e, .gap, (lexemesFrom (k + 1) lines).reverse ++ older⟩ := by
  induction lines generalizing older k with
  | nil => exact ⟨_, _, rfl, rfl⟩
  | cons pieces lines ih =>
    obtain ⟨s, hs, hclose⟩ := foldlM_lineChars older pieces (h _ List.mem_cons_self) k
    cases lines with
    | nil =>
      refine ⟨s, k + 1, (congrArg (List.foldlM _ _) (List.append_nil _)).trans hs, ?_⟩
      rw [hclose, lexemesFrom_cons, lexemesFrom, List.append_nil]
    | cons next lines =>
      obtain ⟨s', e, hs', hclose'⟩ := ih _ (fun pieces hp => h pieces (List.mem_cons_of_mem _ hp))
        (k + 1)
      refine ⟨s', e, ?_, ?_⟩
      · change (lineChars pieces ++ '\n' :: (((next :: lines).map lineChars).intersperse
          ['\n']).flatten).foldlM Scan.step _ = _
        rw [List.foldlM_append, hs]
        change ('\n' :: _).foldlM Scan.step s = _
        rw [List.foldlM_cons, Scan.step_newline_of_close hclose]
        exact hs'
      · rw [hclose', lexemesFrom_cons pieces, List.reverse_append, List.append_assoc]

/-- Readable pieces on lines one below the other are found each on its line. -/
theorem scan_writtenLines (lines : List (List Piece))
    (h : ∀ pieces ∈ lines, ∀ p ∈ pieces, p.Readable) :
    ∃ e, scan (writtenLines lines) = .ok (lexemesFrom 1 lines ++ [⟨.endOfText, e⟩]) := by
  obtain ⟨s, e, hs, hclose⟩ := foldlM_lines [] lines h 0
  have htext : Scan.ofText (writtenLines lines) =
      .ok ⟨e, .gap, (lexemesFrom 1 lines).reverse ++ []⟩ := by
    rw [Scan.ofText, writtenLines, String.toList_ofList]
    exact bind_eq_ok_iff.mpr ⟨s, hs, hclose⟩
  rw [Scan.scan_eq, htext]
  simp [Except.map, Scan.tokens]

/-! ### Readable pieces -/

theorem readable_mark {t : Token} (h : t.isMark = true) : (token t).Readable := by
  refine Scan.reads_written ?_ ?_
  · rintro text rfl
    cases h
  · rintro rfl
    cases h

@[simp] theorem readable_name (text : String) : (name text).Readable :=
  Scan.reads_quoted .name text

@[simp] theorem readable_string (text : String) : (string text).Readable :=
  Scan.reads_quoted .string text

/-- The keywords that documents are written with. -/
def keywords : List String :=
  ["Project", "TablePartial", "Table", "Ref", "Enum", "as", "indexes", "Note", "database_type",
    "pk", "not", "null", "unique", "increment", "note", "default", "ref", "name", "delete",
    "update"]

theorem readable_keyword {text : String} (h : text ∈ keywords) : (keyword text).Readable := by
  have hall : ∀ text ∈ keywords, Scan.Reads text.toList (.name text) := by decide +kernel
  exact hall text h

/-- Pieces that are all readable. -/
def AllReadable (pieces : List Piece) : Prop :=
  ∀ p ∈ pieces, p.Readable

@[simp] theorem allReadable_nil : AllReadable [] :=
  List.forall_mem_nil _

@[simp] theorem allReadable_cons {p : Piece} {pieces : List Piece} :
    AllReadable (p :: pieces) ↔ p.Readable ∧ AllReadable pieces :=
  List.forall_mem_cons

@[simp] theorem allReadable_append {pieces others : List Piece} :
    AllReadable (pieces ++ others) ↔ AllReadable pieces ∧ AllReadable others :=
  List.forall_mem_append

end Piece

/-! ### Documents are written in readable pieces -/

open Piece

theorem allReadable_commaSeparated {parts : List (List Piece)}
    (h : ∀ part ∈ parts, AllReadable part) : AllReadable (commaSeparated parts) := by
  have hcomma : AllReadable [Piece.token .comma] := by simp (disch := decide) [readable_mark]
  induction parts with
  | nil => exact allReadable_nil
  | cons part parts ih =>
    have hpart := h part List.mem_cons_self
    have hparts := ih fun part hp => h part (List.mem_cons_of_mem _ hp)
    cases parts with
    | nil => exact allReadable_append.mpr ⟨hpart, allReadable_nil⟩
    | cons next parts =>
      exact allReadable_append.mpr ⟨hpart, allReadable_append.mpr ⟨hcomma, hparts⟩⟩

theorem allReadable_names (names : List String) :
    AllReadable (commaSeparated (names.map fun n => [Piece.name n])) :=
  allReadable_commaSeparated (by simp)

theorem allReadable_settingPieces {settings : List (List Piece)}
    (h : ∀ s ∈ settings, AllReadable s) : AllReadable (settingPieces settings) := by
  unfold settingPieces
  split_ifs
  · exact allReadable_nil
  · simp (disch := decide) [readable_mark, allReadable_commaSeparated h]

theorem allReadable_qualifiedPieces (schema : Option String) (name : String) :
    AllReadable (qualifiedPieces schema name) := by
  cases schema <;> simp (disch := decide) [qualifiedPieces, readable_mark]

theorem allReadable_noteSetting (key : String) (hkey : key ∈ keywords) (text : Option String) :
    ∀ s ∈ noteSetting key text, AllReadable s := by
  cases text <;>
    simp (disch := decide) [noteSetting, keyedPieces, readable_keyword hkey, readable_mark]

theorem allReadable_actionSetting (key : String) (hkey : key ∈ keywords) (value : Option String) :
    ∀ s ∈ actionSetting key value, AllReadable s := by
  cases value <;>
    simp (disch := decide) [actionSetting, keyedPieces, readable_keyword hkey, readable_mark]

theorem allReadable_noteLine (text : Option String) :
    ∀ line ∈ noteLine text, AllReadable line := by
  cases text <;> simp (disch := decide) [noteLine, readable_keyword, readable_mark]

theorem allReadable_blockLines {heading : List Piece} {body : List (List Piece)}
    (hheading : AllReadable heading) (hbody : ∀ line ∈ body, AllReadable line) :
    ∀ line ∈ blockLines heading body, AllReadable line := by
  simp (disch := decide) only [blockLines, List.cons_append, List.forall_mem_cons,
    List.forall_mem_append, allReadable_append, allReadable_cons, allReadable_nil, readable_mark,
    List.not_mem_nil, false_imp_iff, implies_true, and_true]
  exact ⟨hheading, hbody⟩

theorem readable_relation (r : Relation) : (Piece.token r.token).Readable :=
  readable_mark (by cases r <;> rfl)

theorem Endpoint.allReadable_pieces (e : Endpoint) : AllReadable e.pieces := by
  unfold Endpoint.pieces
  refine allReadable_append.mpr ⟨allReadable_qualifiedPieces _ _, ?_⟩
  split_ifs
  · exact allReadable_nil
  · simp (disch := decide) [readable_mark, allReadable_names]

theorem ColumnSetting.allReadable_pieces (s : ColumnSetting) : AllReadable s.pieces := by
  cases s <;>
    simp (disch := decide) [ColumnSetting.pieces, keyedPieces, readable_mark, readable_keyword,
      readable_relation, Endpoint.allReadable_pieces]

theorem Column.allReadable_pieces (c : Column) : AllReadable c.pieces := by
  have hsettings : AllReadable (settingPieces (c.settings.map ColumnSetting.pieces)) :=
    allReadable_settingPieces (by simp [ColumnSetting.allReadable_pieces])
  unfold Column.pieces
  cases c.type <;> simp [hsettings]

theorem Index.allReadable_pieces (i : Index) : AllReadable i.pieces := by
  have hsettings : AllReadable (settingPieces
      ((if i.primaryKey then [[.keyword "pk"]] else [])
        ++ (if i.unique then [[.keyword "unique"]] else []) ++ noteSetting "name" i.name)) := by
    refine allReadable_settingPieces ?_
    have hname := allReadable_noteSetting "name" (by decide) i.name
    cases i.primaryKey <;> cases i.unique <;>
      simpa (disch := decide) [readable_keyword] using hname
  refine allReadable_append.mpr ⟨?_, hsettings⟩
  simp (disch := decide) [readable_mark, allReadable_names]

theorem Index.allReadable_allLines (indexes : List Index) :
    ∀ line ∈ Index.allLines indexes, AllReadable line := by
  unfold Index.allLines
  split_ifs
  · simp
  · exact allReadable_blockLines (by simp (disch := decide) [readable_keyword])
      (by simp [Index.allReadable_pieces])

theorem TableItem.allReadable_pieces (item : TableItem) : AllReadable item.pieces := by
  cases item with
  | column c => exact c.allReadable_pieces
  | marker name line => simp (disch := decide) [TableItem.pieces, readable_mark]

theorem Table.allReadable_headedLines (note : Option String) (t : Table) :
    ∀ line ∈ t.headedLines note, AllReadable line := by
  have hnote := allReadable_settingPieces (allReadable_noteSetting "note" (by decide) note)
  refine allReadable_blockLines ?_ ?_
  · cases t.shorthand <;>
      simp (disch := decide) [readable_keyword, allReadable_qualifiedPieces, hnote]
  · simp only [List.forall_mem_append, List.forall_mem_map]
    exact ⟨⟨fun item _ => item.allReadable_pieces, Index.allReadable_allLines _⟩,
      allReadable_noteLine _⟩

theorem Partial.allReadable_lines (p : Partial) : ∀ line ∈ p.lines, AllReadable line := by
  refine allReadable_blockLines (by simp (disch := decide) [readable_keyword]) ?_
  simp only [List.forall_mem_append, List.forall_mem_map]
  exact ⟨⟨fun c _ => c.allReadable_pieces, Index.allReadable_allLines _⟩, allReadable_noteLine _⟩

theorem Ref.allReadable_pieces (r : Ref) : AllReadable r.pieces := by
  have hsettings : AllReadable (settingPieces
      (actionSetting "delete" r.onDelete ++ actionSetting "update" r.onUpdate)) :=
    allReadable_settingPieces (List.forall_mem_append.mpr
      ⟨allReadable_actionSetting "delete" (by decide) _,
        allReadable_actionSetting "update" (by decide) _⟩)
  unfold Ref.pieces
  cases r.name <;> cases r.left <;> cases r.right <;>
    simp (disch := decide) [readable_keyword, readable_mark, readable_relation,
      Endpoint.allReadable_pieces, hsettings]

theorem EnumValue.allReadable_pieces (v : EnumValue) : AllReadable v.pieces := by
  simp [EnumValue.pieces,
    allReadable_settingPieces (allReadable_noteSetting "note" (by decide) v.note)]

theorem Enumeration.allReadable_lines (e : Enumeration) : ∀ line ∈ e.lines, AllReadable line :=
  allReadable_blockLines
    (by simp (disch := decide) [readable_keyword, allReadable_qualifiedPieces])
    (by simp [EnumValue.allReadable_pieces])

theorem Project.allReadable_lines (p : Project) : ∀ line ∈ p.lines, AllReadable line := by
  refine allReadable_blockLines ?_ (List.forall_mem_append.mpr ⟨?_, allReadable_noteLine _⟩)
  · cases p.name <;> simp (disch := decide) [readable_keyword]
  · cases p.databaseType <;> simp (disch := decide) [readable_keyword, readable_mark]

theorem Document.allReadable_headedLines (headings : Table → Option String) (d : Document) :
    ∀ line ∈ d.headedLines headings, AllReadable line := by
  simp only [Document.headedLines, List.forall_mem_append, List.forall_mem_map,
    List.forall_mem_flatMap]
  refine ⟨⟨⟨⟨?_, fun t _ => t.allReadable_headedLines _⟩, fun p _ => p.allReadable_lines⟩,
    fun r _ => r.allReadable_pieces⟩, fun e _ => e.allReadable_lines⟩
  cases d.project with
  | none => simp
  | some p => exact p.allReadable_lines

theorem Document.allReadable_lines (d : Document) : ∀ line ∈ d.lines, AllReadable line := by
  rw [← d.headedLines_none]
  exact d.allReadable_headedLines _

/-- A written document is scanned to the tokens that it was written with. -/
theorem Document.scan_written (d : Document) :
    ∃ e, scan d.written = .ok (lexemesFrom 1 d.lines ++ [⟨.endOfText, e⟩]) :=
  scan_writtenLines d.lines d.allReadable_lines

end SchemaGraph
