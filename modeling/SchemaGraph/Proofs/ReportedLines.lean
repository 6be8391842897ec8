import SchemaGraph.Diagnostic.Balance
import SchemaGraph.Proofs.Expanding
import SchemaGraph.Proofs.LineRanges
import SchemaGraph.Proofs.TraversedReaders

/-!
# The lines that are reported

Line numbers begin with the scan, which is never on a line that the text does not have. Lexemes,
errors of the scan and errors of the readers keep such lines, and so does a document. A compilation
makes up no lines of its own: what it reports is on a line of the document, and so is every column
that it injects.
-/

namespace SchemaGraph

open Text

/-! ### Scans -/

namespace Scan

variable {s : Scan} {c : Char} {e : ScanError} {text : String} {lexemes : List Lexeme}

theorem line_of_readGap_eq_error (h : s.readGap c = .error e) : e.line = s.line := by
  unfold readGap at h
  by_cases hb : isBlank c = true
  · rw [if_pos hb] at h
    cases h
  rw [if_neg hb] at h
  cases hm : Token.ofMark c with
  | some token =>
    simp only [hm] at h
    cases h
  | none =>
    cases hq : Quotation.ofMark c with
    | some form =>
      simp only [hm, hq] at h
      cases h
    | none =>
      simp only [hm, hq] at h
      split_ifs at h
      cases h
      rfl

/-- Whatever is wrong with a character is wrong on the line that the scan is on. -/
theorem line_of_read_eq_error (h : s.read c = .error e) : e.line = s.line := by
  unfold read at h
  cases hd : s.doing with
  | gap =>
    simp only [hd] at h
    exact line_of_readGap_eq_error h
  | slash | hash =>
    simp only [hd] at h
    split_ifs at h
    cases h
    rfl
  | lineComment | blockComment | quote | quoted | escape | tripleQuoted =>
    simp only [hd] at h
    cases h
  | word | number | numberDot | less | twoQuotes =>
    -- the token before the character is recorded on the same line
    simp only [hd] at h
    split_ifs at h
    exact (line_of_readGap_eq_error h).trans rfl

/-- What lacks its end is reported where it began. -/
theorem line_of_close_eq_error (h : s.close = .error e) :
    e.line = s.line ∨ s.doing.start? = some e.line := by
  unfold close at h
  cases hd : s.doing with
  | gap | lineComment | word | number | numberDot | less | twoQuotes =>
    simp only [hd] at h
    cases h
  | slash | hash | quote =>
    simp only [hd] at h
    cases h
    exact .inl rfl
  | blockComment | quoted | escape | tripleQuoted =>
    simp only [hd] at h
    cases h
    exact .inr rfl

/-- The lines up to the one on which a scan is part way through a text are lines of the text. -/
theorem hasLine_of_foldlM {cs rest : List Char} (h : cs.foldlM step start = .ok s)
    (htext : text.toList = cs ++ rest) {l : Nat} (hl : 1 ≤ l ∧ l ≤ s.line) : HasLine text l := by
  have hline : s.line = 1 + cs.count '\n' := line_foldlM h
  refine ⟨hl.1, ?_⟩
  rw [htext, List.count_append]
  omega

/-- What keeps a text from being scanned is on one of its lines. -/
theorem hasLine_of_scan_eq_error (h : scan text = .error e) : HasLine text e.line := by
  have h : ofText text = .error e := by
    rw [scan_eq] at h
    cases hs : ofText text with
    | error e' =>
      rw [hs] at h
      cases h
      rfl
    | ok s =>
      rw [hs] at h
      cases h
  rcases bind_eq_error_iff.mp h with h | ⟨s, hs, h⟩
  · obtain ⟨seen, c, rest, s, htext, hs, h⟩ := exists_append_of_foldlM_eq_error h
    have hread : s.read c = .error e := by
      cases hr : s.read c with
      | error e' =>
        rw [step, hr] at h
        cases h
        rfl
      | ok s' =>
        rw [step, hr] at h
        cases h
    apply hasLine_of_foldlM hs htext
    rw [line_of_read_eq_error hread]
    exact ⟨(placed_foldlM hs).line, Nat.le_refl _⟩
  · apply hasLine_of_foldlM hs (List.append_nil _).symm
    rcases line_of_close_eq_error h with hline | hstart
    · rw [hline]
      exact ⟨(placed_foldlM hs).line, Nat.le_refl _⟩
    · exact (placed_foldlM hs).start _ hstart

/-- The lexemes of a text are on its lines. -/
theorem hasLine_of_mem {x : Lexeme} (h : scan text = .ok lexemes) (hx : x ∈ lexemes) :
    HasLine text x.line := by
  rw [scan_eq] at h
  obtain ⟨s, hs, rfl⟩ := map_eq_ok_iff.mp h
  have hline := line_ofText hs
  rcases List.mem_append.mp hx with hx | hx
  · obtain ⟨-, hfirst, hlast⟩ := (placed_ofText hs).mem_tokens hx
    exact ⟨hfirst, by omega⟩
  · rw [List.mem_singleton.mp hx]
    show HasLine text s.line
    exact ⟨(placed_ofText hs).line, Nat.le_of_eq hline⟩

end Scan

/-! ### Documents -/

namespace Document

variable {dialect : Dialect} {text : String}

/-- What keeps a text from being a document is on one of its lines. -/
theorem hasLine_of_parse_eq_error {e : ParseError} (h : parse dialect text = .error e) :
    HasLine text e.line := by
  rcases about_of_parse_eq_error h with ⟨e', hscan, rfl⟩ | ⟨lexemes, hscan, habout⟩
  · exact Scan.hasLine_of_scan_eq_error hscan
  · obtain ⟨x, hx, hline⟩ := habout.onLine
    rw [← hline]
    exact Scan.hasLine_of_mem hscan hx

/-- The lines that a document keeps are lines of its text. -/
theorem hasLine_of_mem_keptLines {d : Document} {l : Nat} (h : parse dialect text = .ok d)
    (hl : l ∈ d.keptLines) : HasLine text l := by
  obtain ⟨lexemes, hscan, hlines⟩ := onLine_of_parse h
  obtain ⟨x, hx, hline⟩ := hlines l hl
  rw [← hline]
  exact Scan.hasLine_of_mem hscan hx

variable {d : Document} {t : Table} {p : Partial} {item : TableItem} {column : Column} {r : Ref}

theorem line_mem_keptLines_of_table (ht : t ∈ d.tables) : t.line ∈ d.keptLines := by
  rw [keptLines, List.mem_append, List.mem_append]
  exact .inl (.inl (List.mem_flatMap.mpr ⟨t, ht, List.mem_cons_self⟩))

theorem line_mem_keptLines_of_item (ht : t ∈ d.tables) (hitem : item ∈ t.items) :
    item.line ∈ d.keptLines := by
  rw [keptLines, List.mem_append, List.mem_append]
  refine .inl (.inl (List.mem_flatMap.mpr ⟨t, ht, ?_⟩))
  exact List.mem_cons_of_mem _ (List.mem_map_of_mem hitem)

theorem line_mem_keptLines_of_partial (hp : p ∈ d.partials) (hcolumn : column ∈ p.columns) :
    column.line ∈ d.keptLines := by
  rw [keptLines, List.mem_append, List.mem_append]
  exact .inl (.inr (List.mem_flatMap.mpr ⟨p, hp, List.mem_map_of_mem hcolumn⟩))

theorem line_mem_keptLines_of_ref (hr : r ∈ d.refs) : r.line ∈ d.keptLines := by
  rw [keptLines, List.mem_append]
  exact .inr (List.mem_map_of_mem hr)

end Document

/-! ### Compilations -/

theorem mem_of_mem_putColumn {c x : Column} {columns : List Column}
    (h : x ∈ putColumn c columns) : x = c ∨ x ∈ columns := by
  induction columns with
  | nil => exact .inl (List.mem_singleton.mp h)
  | cons d columns ih =>
    unfold putColumn at h
    by_cases hname : d.name = c.name
    · rw [if_pos hname] at h
      exact (List.mem_cons.mp h).imp_right (List.mem_cons_of_mem d)
    · rw [if_neg hname] at h
      rcases List.mem_cons.mp h with rfl | h
      · exact .inr List.mem_cons_self
      · exact (ih h).imp_right (List.mem_cons_of_mem d)

theorem mem_of_mem_foldl_injectColumn {reserved : List String} {x : Column}
    {injected columns : List Column} (h : x ∈ injected.foldl (injectColumn reserved) columns) :
    x ∈ injected ∨ x ∈ columns := by
  induction injected generalizing columns with
  | nil => exact .inr h
  | cons c injected ih =>
    rcases ih h with h | h
    · exact .inl (List.mem_cons_of_mem c h)
    · unfold injectColumn at h
      by_cases hreserved : c.name ∈ reserved
      · rw [if_pos hreserved] at h
        exact .inr h
      · rw [if_neg hreserved] at h
        rcases mem_of_mem_putColumn h with rfl | h
        · exact .inl List.mem_cons_self
        · exact .inr h

/-- A column that an item brings along is the item, or one of a partial. -/
theorem Expansion.mem_of_mem_step {partials : List Partial} {e : Expansion} {item : TableItem}
    {x : Column} (h : x ∈ (e.step partials item).columns) :
    x ∈ e.columns ∨ item = .column x ∨ ∃ p ∈ partials, x ∈ p.columns := by
  cases item with
  | column c =>
    rcases List.mem_append.mp h with h | h
    · exact .inl h
    · rw [List.mem_singleton.mp h]
      exact .inr (.inl rfl)
  | marker name line =>
    cases hp : findPartial? partials name with
    | none =>
      simp only [step, hp] at h
      exact .inl h
    | some p =>
      simp only [step, hp, inject] at h
      have hmem : p ∈ partials := List.mem_reverse.mp (List.mem_of_find?_eq_some hp)
      rcases mem_of_mem_foldl_injectColumn h with h | h
      · exact .inr (.inr ⟨p, hmem, h⟩)
      · exact .inl h

theorem Expansion.mem_of_mem_foldl_step {partials : List Partial} {items : List TableItem}
    {e : Expansion} {x : Column} (h : x ∈ (items.foldl (step partials) e).columns) :
    x ∈ e.columns ∨ .column x ∈ items ∨ ∃ p ∈ partials, x ∈ p.columns := by
  induction items generalizing e with
  | nil => exact .inl h
  | cons item items ih =>
    rcases ih h with h | h | h
    · rcases mem_of_mem_step h with h | rfl | h
      · exact .inl h
      · exact .inr (.inl List.mem_cons_self)
      · exact .inr (.inr h)
    · exact .inr (.inl (List.mem_cons_of_mem item h))
    · exact .inr (.inr h)

/-- A column of an expanded table is one of the table, or one of a partial. -/
theorem Table.mem_of_mem_expansion {partials : List Partial} {t : Table} {x : Column}
    (h : x ∈ (t.expansion partials).columns) :
    .column x ∈ t.items ∨ ∃ p ∈ partials, x ∈ p.columns := by
  rcases Expansion.mem_of_mem_foldl_step h with h | h
  · cases h
  · exact h

/-- The line that an error of a compilation is about, if it is about one. -/
def CompileError.line? : CompileError → Option Nat
  | .compositeArity line _ _ | .aliasConflict _ _ _ line => some line
  | .unknownPartial .. | .duplicateTable _ => none

section Compilations

variable {d : Document} {known : Aliases} {options : CompileOptions}

/-- Every link is on a line of the document. -/
theorem Link.line_mem_keptLines {l : Link}
    (h : l ∈ all known d.refs (d.tables.map (Table.expansion d.partials))) :
    l.line ∈ d.keptLines := by
  rcases List.mem_append.mp h with h | h
  · obtain ⟨r, hr, rfl⟩ := List.mem_map.mp h
    exact Document.line_mem_keptLines_of_ref hr
  · obtain ⟨e, he, h⟩ := List.mem_flatMap.mp h
    obtain ⟨t, ht, rfl⟩ := List.mem_map.mp he
    obtain ⟨column, hcolumn, h⟩ := List.mem_flatMap.mp h
    obtain ⟨r, -, rfl⟩ := List.mem_map.mp h
    show column.line ∈ d.keptLines
    rcases Table.mem_of_mem_expansion hcolumn with hitem | ⟨p, hp, hcolumn⟩
    · exact Document.line_mem_keptLines_of_item ht hitem
    · exact Document.line_mem_keptLines_of_partial hp hcolumn

/-- Every warning is about a line of the document. -/
theorem CompileWarning.line_mem_keptLines {c : Compiled} {w : CompileWarning}
    (h : compile options d = .ok c) (hw : w ∈ c.warnings) : w.line ∈ d.keptLines := by
  obtain ⟨known, tables, outcomes, -, htables, houtcomes, rfl⟩ := compile_eq_ok_iff.mp h
  obtain ⟨rfl, -, -⟩ := expandAll_eq_ok_iff.mp htables
  rcases List.mem_append.mp hw with hw | hw
  · obtain ⟨e, he, hw⟩ := List.mem_flatMap.mp hw
    obtain ⟨t, ht, rfl⟩ := List.mem_map.mp he
    obtain ⟨name, line, hitem, -, rfl⟩ := exists_of_mem_warnings hw
    exact Document.line_mem_keptLines_of_item ht hitem
  · obtain ⟨outcome, houtcome, hw⟩ := List.mem_filterMap.mp hw
    obtain ⟨l, hl, hbecame⟩ := exists_mem_of_forall₂ houtcomes houtcome
    have hline := Link.line_mem_keptLines hl
    rcases Link.outcome_cases hbecame with
      ⟨-, rfl⟩ | ⟨left, right, -, -, ⟨-, rfl⟩ | ⟨-, -, rfl⟩ | ⟨-, -, rfl⟩⟩
    · cases hw
      exact hline
    · cases hw
      exact hline
    · cases hw
      exact hline
    · cases hw

theorem line?_of_expand_eq_error {strict : Bool} {partials : List Partial} {t : Table}
    {e : CompileError} (h : expand strict partials t = .error e) : e.line? = none := by
  obtain ⟨expansion, item, -, h⟩ := exists_of_foldlM_eq_error h
  cases item with
  | column c => cases h
  | marker name line =>
    cases hp : findPartial? partials name with
    | some p =>
      simp only [Expansion.addItem, hp] at h
      cases h
    | none =>
      simp only [Expansion.addItem, hp] at h
      split_ifs at h
      cases h
      rfl

/-- What keeps tables from being expanded is about no line. -/
theorem line?_of_expandFrom_eq_error {strict : Bool} {partials : List Partial}
    {taken : List String} {tables : List Table} {e : CompileError}
    (h : expandFrom strict partials taken tables = .error e) : e.line? = none := by
  induction tables generalizing taken with
  | nil => cases h
  | cons t tables ih =>
    unfold expandFrom at h
    by_cases htaken : t.id ∈ taken
    · rw [if_pos htaken] at h
      cases h
      rfl
    · rw [if_neg htaken] at h
      simp only [bind_eq_error_iff] at h
      rcases h with h | ⟨_, -, h | ⟨_, -, h⟩⟩
      · exact line?_of_expand_eq_error h
      · exact ih h
      · cases h

/-- An alias that clashes is reported on the line of its table. -/
theorem line?_of_addAlias_eq_error {tables : List Table} {t : Table} {own : Nat}
    {e : CompileError} (h : addAlias tables known t own = .error e) : e.line? = some t.line := by
  unfold addAlias at h
  split at h
  · cases h
  · split at h
    · cases h
      rfl
    · split at h
      · cases h
        rfl
      · cases h

/-- A link that pairs unequally many fields is reported on its line. -/
theorem Link.line?_of_outcome_eq_error {declared : List String} {l : Link} {e : CompileError}
    (h : l.outcome declared = .error e) : e.line? = some l.line := by
  unfold outcome at h
  split at h
  · cases h
  · split_ifs at h
    cases h
    rfl

/-- An error of a compilation that is about a line is about one of the document. -/
theorem CompileError.line?_mem_keptLines {e : CompileError} {l : Nat}
    (h : compile options d = .error e) (hl : e.line? = some l) : l ∈ d.keptLines := by
  simp only [compile, bind_eq_error_iff] at h
  rcases h with h | ⟨known, -, h | ⟨tables, htables, h | ⟨_, -, h⟩⟩⟩
  · obtain ⟨known, ⟨t, own⟩, ht, h⟩ := exists_of_foldlM_eq_error h
    rw [line?_of_addAlias_eq_error h] at hl
    cases hl
    exact Document.line_mem_keptLines_of_table (List.fst_mem_of_mem_zipIdx ht)
  · rw [line?_of_expandFrom_eq_error h] at hl
    cases hl
  · obtain ⟨rfl, -, -⟩ := expandAll_eq_ok_iff.mp htables
    obtain ⟨link, hlink, h⟩ := exists_of_mapM_eq_error h
    rw [Link.line?_of_outcome_eq_error h] at hl
    cases hl
    exact Link.line_mem_keptLines hlink
  · cases h

end Compilations

/-! ### Braces -/

namespace BraceCount

variable {b : BraceCount} {c : Char} {cs : List Char} {l : Nat}

theorem line_step (b : BraceCount) (c : Char) : (b.step c).line = b.line + [c].count '\n' := by
  unfold step
  by_cases hnewline : c = '\n'
  · rw [if_pos hnewline, hnewline]
    rfl
  · rw [if_neg hnewline, List.count_cons_of_ne hnewline]
    split_ifs <;> rfl

theorem mem_stray_step (h : l ∈ (b.step c).stray) : l ∈ b.stray ∨ l = b.line := by
  unfold step at h
  split_ifs at h
  · exact .inl h
  · exact .inl h
  · exact (List.mem_cons.mp h).symm
  · exact .inl h
  · exact .inl h

/-- A brace is reported on the line on which it stands. -/
theorem mem_stray_foldl (h : l ∈ (cs.foldl step b).stray) :
    l ∈ b.stray ∨ (b.line ≤ l ∧ l ≤ b.line + cs.count '\n') := by
  induction cs generalizing b with
  | nil => exact .inl h
  | cons c cs ih =>
    have hline := line_step b c
    have hcount : ([c] ++ cs).count '\n' = [c].count '\n' + cs.count '\n' := List.count_append
    rw [List.singleton_append] at hcount
    rcases ih h with h | ⟨hfirst, hlast⟩
    · rcases mem_stray_step h with h | rfl
      · exact .inl h
      · exact .inr ⟨Nat.le_refl _, Nat.le_add_right _ _⟩
    · exact .inr ⟨by omega, by omega⟩

/-- Closing braces that close nothing are reported on lines of the text. -/
theorem hasLine_of_mem_stray {text : String} {l : Nat}
    (h : l ∈ (ofText text).stray) : HasLine text l := by
  rcases mem_stray_foldl h with h | ⟨hfirst, hlast⟩
  · cases h
  · exact ⟨hfirst, by rwa [Nat.add_comm]⟩

end BraceCount

end SchemaGraph
