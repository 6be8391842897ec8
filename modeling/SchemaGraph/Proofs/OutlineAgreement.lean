import SchemaGraph.Proofs.CompletionScope
import SchemaGraph.Proofs.LaidOutTables
import SchemaGraph.Proofs.Outlines
import SchemaGraph.Proofs.Unfolding

/-!
# Where outlines and diagrams agree

Of a table that is laid out, the outline of a text takes the heading for a heading, the brace for
the end of the table, and each other line for a column, unless the column is called like the keyword
of a table: its line is a heading as well, of a table that is called by the column's type. The full
analysis knows better. So the two list the same tables, columns and aliases if no column is called
like the keyword, or if the tables do not make up a diagram, whereupon the full analysis falls back
on the outline; and in no other case (`PlainTable.outline_eq_catalog_iff`).
-/

namespace SchemaGraph

open Text

/-! ### Lines -/

theorem lines_append_newline {line : List Char} (h : '\n' ∉ line) (rest : List Char) :
    lines (line ++ '\n' :: rest) = line :: lines rest := by
  induction line with
  | nil => rfl
  | cons c line ih =>
    obtain ⟨hc, hline⟩ := not_or.mp (mt List.mem_cons.mpr h)
    rw [List.cons_append, lines, if_neg (Ne.symm hc), ih hline]

/-- Lines that are ended by a newline each are the lines of their text, but for an empty one behind
them. -/
theorem lines_flatMap {ls : List String} (h : ∀ l ∈ ls, '\n' ∉ l.toList) :
    lines (ls.flatMap (·.toList ++ ['\n'])) = ls.map String.toList ++ [[]] := by
  induction ls with
  | nil => rfl
  | cons l ls ih =>
    obtain ⟨hl, hls⟩ := List.forall_mem_cons.mp h
    rw [List.flatMap_cons, List.append_assoc, List.singleton_append, lines_append_newline hl,
      ih hls, List.map_cons, List.cons_append]

/-- Between its first and its last character that are not blank nothing is dropped. -/
theorem trim_of_ends {x y : Char} (hx : isBlank x = false) (hy : isBlank y = false)
    (middle : List Char) : trim (x :: (middle ++ [y])) = x :: (middle ++ [y]) := by
  have hstart : (x :: (middle ++ [y])).dropWhile isBlank = x :: (middle ++ [y]) :=
    List.dropWhile_cons_of_neg (by simp [hx])
  have hend : (x :: (middle ++ [y])).reverse.dropWhile isBlank =
      (x :: (middle ++ [y])).reverse := by
    rw [List.reverse_cons, List.reverse_append, List.reverse_singleton, List.singleton_append,
      List.cons_append]
    exact List.dropWhile_cons_of_neg (by simp [hy])
  rw [trim, trimWhile, hstart, hend, List.reverse_reverse]

/-! ### Plain identifiers in an outline -/

section PlainIdentifiers

variable {name keyword : String} {c : Char}

theorem leadingName?_plain (h : isPlain name = true) (hc : isWordChar c = false)
    (rest : List Char) : leadingName? (name.toList ++ c :: rest) = some (name, c :: rest) := by
  have hword : ∀ x ∈ name.toList, isWordChar x = true := fun x hx =>
    isWordChar_of_isPlainChar (isPlainChar_of_mem h hx)
  have htake : (name.toList ++ c :: rest).takeWhile isWordChar = name.toList := by
    rw [List.takeWhile_append_of_pos hword, List.takeWhile_cons_of_neg (by simp [hc]),
      List.append_nil]
  have hdrop : (name.toList ++ c :: rest).dropWhile isWordChar = c :: rest := by
    rw [List.dropWhile_append_of_pos hword, List.dropWhile_cons_of_neg (by simp [hc])]
  obtain ⟨x, xs, hname, hx, -⟩ := exists_of_isPlain h
  have hquote : x ≠ '"' := by
    rintro rfl
    revert hx
    decide
  unfold leadingName?
  split
  · next heq =>
    rw [hname, List.cons_append] at heq
    exact absurd (List.cons.inj heq).1 hquote
  · dsimp only
    rw [htake, hdrop, String.ofList_toList, if_neg (by simp [hname])]

theorem length_of_sameWord {a b : String} (h : sameWord a b = true) :
    a.toList.length = b.toList.length := by
  have hlength := congrArg List.length (beq_iff_eq.mp h)
  rwa [List.length_map, List.length_map] at hlength

/-- What is true of the characters of the first 128 code points is true of every ASCII character. -/
theorem forall_ascii {p : Char → Prop} (h : ∀ n < 128, p (Char.ofNat n)) {c : Char}
    (hc : c.toNat < 128) : p c := by
  rw [← Char.ofNat_toNat c]
  exact h _ hc

/-- In lower case a plain identifier has no blank either. -/
theorem space_not_mem_lower (h : isPlain name = true) : ' ' ∉ name.toList.map Char.toLower := by
  have hall : ∀ n < 128, isPlainChar (Char.ofNat n) = true → (Char.ofNat n).toLower ≠ ' ' := by
    decide +kernel
  rw [List.mem_map]
  rintro ⟨x, hx, hlower⟩
  have hplain := isPlainChar_of_mem h hx
  exact forall_ascii (p := fun c => isPlainChar c = true → c.toLower ≠ ' ') hall
    (ascii_of_isPlainChar hplain) hplain hlower

/-- A plain identifier in front of a blank is taken for a keyword when it is the same word. -/
theorem afterKeyword?_plain (h : isPlain name = true) (hkeyword : isPlain keyword = true)
    (rest : List Char) : afterKeyword? keyword (name.toList ++ ' ' :: rest) =
      if sameWord name keyword then some (trimStart rest) else none := by
  have hother : name.toList.length ≠ keyword.toList.length → sameWord name keyword = false :=
    fun hne => Bool.eq_false_iff.mpr fun hsame => hne (length_of_sameWord hsame)
  unfold afterKeyword?
  dsimp only
  rw [← String.length_toList]
  rcases Nat.lt_trichotomy name.toList.length keyword.toList.length with hlt | heq | hgt
  · -- the blank comes too early for the keyword
    rw [hother (Nat.ne_of_lt hlt), if_neg]
    · rfl
    · intro hsame
      obtain ⟨n, hn⟩ := Nat.exists_eq_succ_of_ne_zero (Nat.sub_ne_zero_of_lt hlt)
      have hchars := beq_iff_eq.mp hsame
      rw [String.toList_ofList, List.take_append, hn, List.take_succ_cons] at hchars
      apply space_not_mem_lower hkeyword
      rw [← hchars, List.map_append, List.map_cons]
      exact List.mem_append_right _ List.mem_cons_self
  · rw [← heq, List.take_left, List.drop_left, String.ofList_toList]
    rfl
  · -- the identifier goes on where the keyword ends
    rw [hother (Nat.ne_of_gt hgt), List.drop_append_of_le_length (Nat.le_of_lt hgt),
      List.drop_eq_getElem_cons hgt, List.cons_append]
    have hblank : isBlank name.toList[keyword.toList.length] = false :=
      isBlank_of_isPlainChar (isPlainChar_of_mem h (List.getElem_mem hgt))
    simp only [hblank, Bool.false_eq_true, if_false, ite_self]

theorem trimStart_plain (h : isPlain name = true) (rest : List Char) :
    trimStart (name.toList ++ rest) = name.toList ++ rest := by
  obtain ⟨x, xs, hname, hx, -⟩ := exists_of_isPlain h
  have hblank : isBlank x = false := isBlank_of_isPlainChar (isPlainChar_of_opensPlain hx)
  rw [hname, List.cons_append]
  exact List.dropWhile_cons_of_neg (by simp [hblank])

end PlainIdentifiers

/-! ### The outline of a table -/

namespace PlainTable

/-- The heading of a table that is laid out. -/
def toHeading (t : PlainTable) : Heading :=
  ⟨t.table.schema, t.table.name, t.table.shorthand⟩

/-- Behind the name of a table its alias is found, if it has one. -/
theorem leadingName?_aliasClause (t : PlainTable) :
    ((afterKeyword? "as" (trimStart (t.aliasClause.toList ++ [' ', '\x7b']))).bind
      leadingName?).map Prod.fst = t.table.shorthand := by
  obtain ⟨schema, name, shorthand, columns⟩ := t
  cases shorthand with
  | none =>
    have hnone : afterKeyword? "as" (trimStart [' ', '\x7b']) = none := by decide
    simp [aliasClause, table, hnone]
  | some s =>
    have hchars : (" as " ++ s.text).toList ++ [' ', '\x7b'] =
        ' ' :: ("as".toList ++ ' ' :: (s.text.toList ++ [' ', '\x7b'])) := by simp
    have hspace : ∀ rest, trimStart (' ' :: ("as".toList ++ rest)) = "as".toList ++ rest :=
      fun _ => rfl
    rw [aliasClause, Option.map_some, Option.getD_some, hchars, hspace,
      afterKeyword?_plain (by decide) (by decide), if_pos (by decide), trimStart_plain s.plain,
      Option.bind_some, leadingName?_plain s.plain (by decide)]
    rfl

theorem heading?_heading (t : PlainTable) : heading? t.heading.toList = some t.toHeading := by
  obtain ⟨chars, hends⟩ := t.exists_aliasClause ['\x7b']
  have hkeyword : ∀ {name : String} (_ : isPlain name = true) rest,
      afterKeyword? "table" ("Table".toList ++ ' ' :: (name.toList ++ rest)) =
        some (name.toList ++ rest) := by
    intro name hname rest
    rw [afterKeyword?_plain (by decide) (by decide), if_pos (by decide), trimStart_plain hname]
  have hclause := t.leadingName?_aliasClause
  rw [hends] at hclause
  rw [toList_heading, hends]
  obtain ⟨schema, name, shorthand, columns⟩ := t
  cases schema with
  | none =>
    change heading? ("Table".toList ++ ' ' :: (name.text.toList ++ ' ' :: chars)) = _
    simp only [heading?, hkeyword name.plain, leadingName?_plain name.plain (c := ' ') (by decide),
      Option.bind_eq_bind, Option.bind_some]
    exact congrArg (fun shorthand => some (Heading.mk none name.text shorthand)) hclause
  | some s =>
    have hdot : (s.text ++ ".").toList ++ (name.text.toList ++ ' ' :: chars) =
        s.text.toList ++ '.' :: (name.text.toList ++ ' ' :: chars) := by simp
    change heading? ("Table".toList ++ ' ' :: ((s.text ++ ".").toList ++ _)) = _
    rw [hdot]
    simp only [heading?, hkeyword s.plain, leadingName?_plain s.plain (c := '.') (by decide),
      leadingName?_plain name.plain (c := ' ') (by decide), Option.bind_eq_bind, Option.bind_some,
      Option.map_some, hclause]
    rfl

/-- The line of a column reads as a heading if the column is called like the keyword. -/
theorem heading?_column_eq_none_iff (c : PlainName) :
    heading? (c.text.toList ++ ' ' :: "int".toList) = none ↔
      sameWord c.text "table" = false := by
  have hkeyword : afterKeyword? "table" (c.text.toList ++ ' ' :: "int".toList) =
      if sameWord c.text "table" then some (trimStart "int".toList) else none :=
    afterKeyword?_plain c.plain (by decide) _
  unfold heading?
  rw [hkeyword]
  cases sameWord c.text "table" with
  | false => exact iff_of_true rfl rfl
  | true => exact iff_of_false (by decide) (by decide)

theorem trim_heading (t : PlainTable) : trim t.heading.toList = t.heading.toList := by
  have hchars : t.heading.toList = 'T' :: (("able".toList ++ ' ' :: (t.qualifier.toList ++
      (t.name.text.toList ++ (t.aliasClause.toList ++ [' '])))) ++ ['\x7b']) := by
    simp [toList_heading]
  rw [hchars]
  exact trim_of_ends (by decide) (by decide) _

theorem trim_columnLine (c : PlainName) :
    trim (columnLine c).toList = c.text.toList ++ ' ' :: "int".toList := by
  have hspace : ∀ cs, trim (' ' :: cs) = trim cs := fun _ => rfl
  obtain ⟨x, xs, hname, hx, -⟩ := exists_of_isPlain c.plain
  have hblank : isBlank x = false := isBlank_of_isPlainChar (isPlainChar_of_opensPlain hx)
  have hchars : c.text.toList ++ ' ' :: "int".toList = x :: ((xs ++ [' ', 'i', 'n']) ++ ['t']) := by
    simp [hname]
  rw [toList_columnLine, hspace, hspace, hchars]
  exact trim_of_ends hblank (by decide) _

/-- Take the next line of a text. -/
def takeLine (o : Outline) (line : String) : Outline :=
  o.addLine (trim line.toList)

theorem takeLine_heading (o : Outline) (t : PlainTable) :
    takeLine o t.heading = ⟨Outline.noteHeading o.catalog t.toHeading, some t.table.id⟩ := by
  rw [takeLine, trim_heading, Outline.addLine, heading?_heading]
  exact o.openTable_eq t.toHeading

theorem takeLine_column {c : PlainName} (h : sameWord c.text "table" = false)
    (catalog : Catalog) (table : String) : takeLine ⟨catalog, some table⟩ (columnLine c) =
      ⟨catalog.addColumn table c.text, some table⟩ := by
  have hbrace : c.text.toList ++ ' ' :: "int".toList ≠ ['\x7d'] := by
    intro heq
    have hlength := congrArg List.length heq
    simp at hlength
  rw [takeLine, trim_columnLine, Outline.addLine, (heading?_column_eq_none_iff c).mpr h]
  dsimp only
  rw [if_neg hbrace, leadingName?_plain c.plain (by decide)]

theorem takeLine_brace (o : Outline) : takeLine o "\x7d" = ⟨o.catalog, none⟩ := rfl

/-- The names of the columns of a table. -/
def columnNames (t : PlainTable) : List String :=
  t.columns.map PlainName.text

/-- A catalog with one more table, and its alias if it has one. -/
def noteTable (c : Catalog) (t : PlainTable) : Catalog :=
  ((t.table.shorthand.map (c.addAlias · t.table.id)).getD c).addTable t.table.id t.columnNames

/-- The lines of columns list the columns behind those that are listed already. -/
theorem foldl_takeLine_columns {columns : List PlainName}
    (h : ∀ c ∈ columns, sameWord c.text "table" = false) (catalog : Catalog) (table : String)
    (names : List String) :
    (columns.map columnLine).foldl takeLine ⟨catalog.addTable table names, some table⟩ =
      ⟨catalog.addTable table (names ++ columns.map PlainName.text), some table⟩ := by
  induction columns generalizing names with
  | nil =>
    rw [List.map_nil, List.map_nil, List.append_nil]
    rfl
  | cons column columns ih =>
    obtain ⟨hcolumn, hothers⟩ := List.forall_mem_cons.mp h
    rw [List.map_cons, List.foldl_cons, takeLine_column hcolumn, Catalog.addColumn_addTable,
      ih hothers, List.map_cons, List.append_assoc, List.singleton_append]

/-- The lines of a table list the table with its columns. -/
theorem foldl_takeLine_table {t : PlainTable}
    (h : ∀ c ∈ t.columns, sameWord c.text "table" = false) (o : Outline) :
    t.layoutLines.foldl takeLine o = ⟨noteTable o.catalog t, none⟩ := by
  rw [layoutLines, List.cons_append, List.foldl_cons, takeLine_heading, List.foldl_append,
    Outline.noteHeading]
  refine (congrArg (fun o => [_].foldl takeLine o) (foldl_takeLine_columns h _ _ [])).trans ?_
  exact takeLine_brace _

/-! ### The outline of a layout -/

theorem newline_not_mem_layoutLines {t : PlainTable} : ∀ l ∈ t.layoutLines, '\n' ∉ l.toList := by
  have hname : ∀ n : PlainName, '\n' ∉ n.text.toList := fun n =>
    not_mem_of_isPlain n.plain (by decide)
  have hqualifier : '\n' ∉ t.qualifier.toList := by
    unfold qualifier
    cases t.schema <;> simp [hname]
  have hclause : '\n' ∉ t.aliasClause.toList := by
    unfold aliasClause
    cases t.shorthand <;> simp [hname]
  simp only [layoutLines, List.cons_append, List.forall_mem_cons, List.forall_mem_append,
    List.forall_mem_map]
  refine ⟨?_, fun c _ => ?_, by decide, nofun⟩
  · simp [toList_heading, hname, hqualifier, hclause]
  · simp [toList_columnLine, hname]

/-- The lines of a layout are those of its tables, but for an empty one behind them. -/
theorem lines_layout (tables : List PlainTable) : lines (layout tables).toList =
    (tables.flatMap layoutLines).map String.toList ++ [[]] := by
  rw [toList_layout]
  exact lines_flatMap (List.forall_mem_flatMap.mpr fun _ _ => newline_not_mem_layoutLines)

/-- The outline of a layout takes one line after the other. -/
theorem ofLines_layout (tables : List PlainTable) :
    Outline.ofLines (lines (layout tables).toList) =
      (tables.flatMap layoutLines).foldl takeLine {} := by
  have hnothing : ∀ o : Outline, o.addLine (trim []) = o := by
    rintro ⟨catalog, _ | table⟩ <;> rfl
  rw [lines_layout, Outline.ofLines, List.foldl_append, List.foldl_map]
  exact hnothing _

/-- The tables of a layout, as a catalog lists them. -/
def listedTables (tables : List PlainTable) : List (String × List String) :=
  tables.map fun t => (t.table.id, t.columnNames)

theorem foldl_noteTable (tables : List PlainTable) (c : Catalog) : tables.foldl noteTable c =
    ⟨c.tables.insertAll (listedTables tables),
      c.aliases.insertAll (declaredAliases (tables.map table))⟩ := by
  induction tables generalizing c with
  | nil => rfl
  | cons t tables ih =>
    have haliases : declaredAliases ((t :: tables).map table) =
        declaredAliases [t.table] ++ declaredAliases (tables.map table) :=
      declaredAliases_append [t.table] _
    rw [List.foldl_cons, ih, noteTable, Catalog.addShorthand_eq, haliases,
      OrderedMap.insertAll_append]
    rfl

/-- **The outline of a layout lists its tables**, if no column is called like the keyword. -/
theorem outline_layout {tables : List PlainTable}
    (h : ∀ t ∈ tables, ∀ c ∈ t.columns, sameWord c.text "table" = false) :
    Catalog.outline (layout tables) =
      (Catalog.listing (listedTables tables)
        (declaredAliases (tables.map table))).resolveAliases := by
  have htables : ∀ o : Outline, ((tables.flatMap layoutLines).foldl takeLine o).catalog =
      tables.foldl noteTable o.catalog := by
    induction tables with
    | nil => exact fun _ => rfl
    | cons t tables ih =>
      obtain ⟨ht, hothers⟩ := List.forall_mem_cons.mp h
      intro o
      rw [List.flatMap_cons, List.foldl_append, foldl_takeLine_table ht, ih hothers,
        List.foldl_cons]
  rw [Catalog.outline_eq, ofLines_layout, htables, foldl_noteTable]
  rfl

/-- What a line of a layout names, where it is no heading, is not called like the keyword. -/
theorem sameWord_of_mem_lines {tables : List PlainTable} {line rest : List Char} {name : String}
    (hline : line ∈ lines (layout tables).toList) (hnone : heading? (trim line) = none)
    (hname : leadingName? (trim line) = some (name, rest)) : sameWord name "table" = false := by
  rw [lines_layout, List.mem_append, List.mem_map] at hline
  rcases hline with ⟨l, hl, rfl⟩ | hnothing
  · obtain ⟨t, -, hl⟩ := List.mem_flatMap.mp hl
    simp only [layoutLines, List.cons_append, List.mem_cons, List.mem_append, List.mem_map,
      List.not_mem_nil, or_false] at hl
    rcases hl with rfl | ⟨c, -, rfl⟩ | rfl
    · rw [trim_heading, heading?_heading] at hnone
      cases hnone
    · rw [trim_columnLine] at hnone hname
      rw [leadingName?_plain c.plain (by decide)] at hname
      cases hname
      exact (heading?_column_eq_none_iff c).mp hnone
    · cases hname
  · cases List.mem_singleton.mp hnothing
    cases hname

/-- No listed column is called like the keyword of a table. -/
def SparesKeyword (c : Catalog) : Prop :=
  ∀ table columns, c.tables.get? table = some columns →
    ∀ column ∈ columns, sameWord column "table" = false

/-- A heading lists no column. -/
theorem SparesKeyword.noteHeading {c : Catalog} (hc : SparesKeyword c) (h : Heading) :
    SparesKeyword (Outline.noteHeading c h) := by
  intro table columns hget column hcolumn
  have htables : ((h.shorthand.map (c.addAlias · h.id)).getD c).tables = c.tables := by
    cases h.shorthand <;> rfl
  rw [Outline.noteHeading, Catalog.addTable, OrderedMap.get?_insert, htables] at hget
  split_ifs at hget
  · cases hget
    cases hcolumn
  · exact hc table columns hget column hcolumn

theorem SparesKeyword.addColumn {c : Catalog} (hc : SparesKeyword c) (opened : String)
    {name : String} (hname : sameWord name "table" = false) :
    SparesKeyword (c.addColumn opened name) := by
  intro table columns hget column hcolumn
  rw [Catalog.addColumn, OrderedMap.get?_modify] at hget
  split_ifs at hget
  · obtain ⟨before, hbefore, rfl⟩ := Option.map_eq_some_iff.mp hget
    rcases List.mem_append.mp hcolumn with hcolumn | hcolumn
    · exact hc table before hbefore column hcolumn
    · cases List.mem_singleton.mp hcolumn
      exact hname
  · exact hc table columns hget column hcolumn

/-- No outline of a layout lists a column that is called like the keyword. -/
theorem sparesKeyword_outline (tables : List PlainTable) :
    SparesKeyword (Catalog.outline (layout tables)) := by
  intro table columns hget
  have hlines : SparesKeyword (Outline.ofLines (lines (layout tables).toList)).catalog :=
    Outline.invariant_ofLines nofun (fun _ h hc => hc.noteHeading h)
      fun _ hline _ opened _ _ hnone hname hc =>
        hc.addColumn opened (sameWord_of_mem_lines hline hnone hname)
  obtain ⟨table', htable'⟩ := Catalog.exists_get?_of_resolveAll hget
  exact hlines table' columns htable'

/-! ### The diagram of a layout -/

/-- Columns stand where columns on other lines stand. -/
theorem exists_columns_of_mapLine {f : Nat → Nat} {items : List TableItem} {cs : List Column}
    (h : items.map (·.mapLine f) = cs.map .column) :
    ∃ cs' : List Column, items = cs'.map .column ∧ cs'.map (·.mapLine f) = cs := by
  induction items generalizing cs with
  | nil =>
    cases cs with
    | nil => exact ⟨[], rfl, rfl⟩
    | cons => cases h
  | cons item items ih =>
    cases cs with
    | nil => cases h
    | cons c cs =>
      obtain ⟨hitem, hitems⟩ := List.cons.inj h
      obtain ⟨cs', rfl, rfl⟩ := ih hitems
      cases item with
      | column c' =>
        cases hitem
        exact ⟨c' :: cs', rfl, rfl⟩
      | marker => cases hitem

/-- A table on other lines than one that is laid out lists the same columns. -/
theorem columnNames_of_mapLines {d : Document} {f : Nat → Nat} {t : Table} {p : PlainTable}
    (h : t.mapLines f = p.table) : d.columnNames t = p.columnNames := by
  have hitems : t.items.map (·.mapLine f) =
      (p.columns.map fun c => (⟨c.text, some "int", [], 0⟩ : Column)).map .column := by
    rw [List.map_map]
    exact congrArg Table.items h
  obtain ⟨cs, hcs, hsame⟩ := exists_columns_of_mapLine hitems
  have hnames := congrArg (List.map Column.name) hsame
  rw [List.map_map, List.map_map] at hnames
  rw [Document.columnNames, Table.expansion, hcs, Expansion.foldl_step_columns]
  exact hnames

/-- A table on other lines than one that is laid out is named without points. -/
theorem pointFree_of_mapLines {f : Nat → Nat} {t : Table} {p : PlainTable}
    (h : t.mapLines f = p.table) : t.PointFree := by
  have hplain : ∀ n : PlainName, '.' ∉ n.text.toList := fun n =>
    not_mem_of_isPlain n.plain (by decide)
  have hschema : t.schema = p.schema.map PlainName.text := congrArg Table.schema h
  have hname : t.name = p.name.text := congrArg Table.name h
  have hshorthand : t.shorthand = p.shorthand.map PlainName.text := congrArg Table.shorthand h
  refine ⟨?_, hname ▸ hplain p.name, ?_⟩
  · rw [hschema]
    rintro _ hs
    obtain ⟨n, -, rfl⟩ := Option.map_eq_some_iff.mp hs
    exact hplain n
  · rw [hshorthand]
    rintro _ ha
    obtain ⟨n, -, rfl⟩ := Option.map_eq_some_iff.mp ha
    exact hplain n

section Parsed

variable {options : CompileOptions} {tables : List PlainTable} {d : Document} {c : Compiled}

/-- The tables that are read from a layout are those of the layout, on other lines. -/
theorem tables_of_parse (hparse : Document.parse .partials (layout tables) = .ok d) :
    List.Forall₂ (fun t p => t.mapLines (fun _ => 0) = p.table) d.tables tables := by
  obtain ⟨d', hparse', hlines⟩ := parse_layout tables
  cases hparse.symm.trans hparse'
  have htables : d.tables.map (·.mapLines fun _ => 0) = tables.map table :=
    congrArg Document.tables hlines
  rwa [← List.forall₂_eq_eq_eq, List.forall₂_map_left_iff, List.forall₂_map_right_iff] at htables

theorem listedTables_of_parse (hparse : Document.parse .partials (layout tables) = .ok d) :
    d.tables.map (fun t => (t.id, d.columnNames t)) = listedTables tables := by
  refine map_eq_map_of_forall₂ (tables_of_parse hparse) fun t p htp => ?_
  have hid : (t.mapLines fun _ => 0).id = p.table.id := congrArg Table.id htp
  exact Prod.ext hid (columnNames_of_mapLines htp)

/-- Where a layout compiles, its catalog lists its tables and their aliases. -/
theorem catalog_layout (hparse : Document.parse .partials (layout tables) = .ok d)
    (hcompile : compile options d = .ok c) :
    (Analysis.full .partials options).catalog (layout tables) =
      (Catalog.listing (listedTables tables)
        (declaredAliases (tables.map table))).resolveAliases := by
  have hcatalog : (Analysis.full .partials options).catalog (layout tables) =
      .ofDiagram c.diagram d.tables := by
    simp only [Analysis.catalog, hparse, hcompile]
  have htables : d.tables.map (·.mapLines fun _ => 0) = tables.map table :=
    map_eq_map_of_forall₂ (tables_of_parse hparse) fun _ _ htp => htp
  have haliases : declaredAliases d.tables = declaredAliases (tables.map table) := by
    rw [← htables, declaredAliases, declaredAliases, List.filterMap_map]
    rfl
  rw [hcatalog, Catalog.ofDiagram_eq, map_listed_of_compile hcompile,
    listedTables_of_parse hparse, haliases]

/-- Each table is listed there under its own name with its own columns. -/
theorem mem_catalog_layout (hparse : Document.parse .partials (layout tables) = .ok d)
    (hcompile : compile options d = .ok c) {t : PlainTable} (ht : t ∈ tables) :
    (t.table.id, t.columnNames) ∈
      ((Analysis.full .partials options).catalog (layout tables)).tables.entries := by
  have hpoints : ∀ t ∈ d.tables, t.PointFree := by
    intro t ht
    obtain ⟨p, -, htp⟩ := exists_mem_of_forall₂ (tables_of_parse hparse).flip ht
    exact pointFree_of_mapLines htp
  have hentries := entries_ofDiagram hcompile hpoints
  rw [listedTables_of_parse hparse] at hentries
  simp only [Analysis.catalog, hparse, hcompile, hentries]
  exact List.mem_append_left _ (List.mem_map.mpr ⟨t, ht, rfl⟩)

end Parsed

/-- **Outlines and diagrams agree** on tables that are laid out exactly if no column is called like
the keyword of a table, or the tables do not make up a diagram. -/
theorem outline_eq_catalog_iff (options : CompileOptions) (tables : List PlainTable) :
    Catalog.outline (layout tables) = (Analysis.full .partials options).catalog (layout tables) ↔
      (∀ t ∈ tables, ∀ c ∈ t.columns, sameWord c.text "table" = false) ∨
        ¬ ∃ d c, Document.parse .partials (layout tables) = .ok d ∧ compile options d = .ok c := by
  by_cases hcompiles : ∃ d c, Document.parse .partials (layout tables) = .ok d ∧
      compile options d = .ok c
  · obtain ⟨d, c, hparse, hcompile⟩ := hcompiles
    have hnot : ¬ ¬ ∃ d c, Document.parse .partials (layout tables) = .ok d ∧
        compile options d = .ok c := not_not.mpr ⟨d, c, hparse, hcompile⟩
    rw [or_iff_left hnot]
    constructor
    · intro heq t ht column hcolumn
      have hmem := mem_catalog_layout hparse hcompile ht
      rw [← heq] at hmem
      have hget := lookup_of_mem (Catalog.outline (layout tables)).tables.distinct hmem
      exact sparesKeyword_outline tables _ _ hget _ (List.mem_map_of_mem hcolumn)
    · intro hspared
      rw [outline_layout hspared, catalog_layout hparse hcompile]
  · refine iff_of_true ?_ (.inr hcompiles)
    obtain ⟨d, hparse, -⟩ := parse_layout tables
    cases hcompile : compile options d with
    | ok c => exact absurd ⟨d, c, hparse, hcompile⟩ hcompiles
    | error e => simp only [Analysis.catalog, hparse, hcompile]

/-- A table with a column that is called like the keyword. -/
def seating : PlainTable where
  schema := none
  name := ⟨"guests", by decide⟩
  shorthand := none
  columns := [⟨"name", by decide⟩, ⟨"Table", by decide⟩, ⟨"seat", by decide⟩]

/-- The outline takes the column for the heading of a table that is called by its type. -/
theorem outline_of_keyword_column :
    (Catalog.outline (layout [seating])).tables.entries =
      [("public.guests", ["name"]), ("public.int", ["seat"])] ∧
    ((Analysis.full .partials {}).catalog (layout [seating])).tables.entries =
      [("public.guests", ["name", "Table", "seat"])] ∧
    Catalog.outline (layout [seating]) ≠
      (Analysis.full .partials {}).catalog (layout [seating]) := by
  decide +kernel

end PlainTable

end SchemaGraph
