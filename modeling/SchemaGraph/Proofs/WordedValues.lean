import SchemaGraph.Document.Worded
import SchemaGraph.Proofs.BareNames
import SchemaGraph.Proofs.QuotedTexts

/-!
# Reading values in words

The value of a setting is put together from the texts of its tokens with nothing between them. So
where a document is written with words for its values, the values that are read are the words one
behind the other, and where two words end and begin is not kept: different words are read as
different values exactly if they differ when they are put together (`Document.parse_worded`).
-/

namespace SchemaGraph

open Piece

variable {words : String → List String}

/-! ### Values -/

section

variable (f : String → String) (g : Nat → Nat)

theorem Column.values_mapValues (c : Column) : (c.mapValues f).values = c.values.map f := by
  have hsetting : ∀ s : ColumnSetting, (s.mapValue f).value? = s.value?.map f := by
    intro s
    cases s <;> rfl
  simp [Column.values, mapValues, List.filterMap_map, List.map_filterMap, hsetting]

theorem TableItem.values_mapValues (item : TableItem) :
    (item.mapValues f).values = item.values.map f := by
  cases item with
  | column c => exact c.values_mapValues f
  | marker => rfl

theorem Ref.values_mapValues (r : Ref) : (r.mapValues f).values = r.values.map f := by
  obtain ⟨_, _, _, _, onDelete, onUpdate, _⟩ := r
  cases onDelete <;> cases onUpdate <;> rfl

/-- The values of a document with other values are those. -/
theorem Document.values_mapValues (d : Document) : (d.mapValues f).values = d.values.map f := by
  simp [values, mapValues, Table.values, Table.mapValues, Partial.values, Partial.mapValues,
    List.flatMap_map, List.map_flatMap, Column.values_mapValues, TableItem.values_mapValues,
    Ref.values_mapValues]

theorem TableItem.values_mapLine (item : TableItem) : (item.mapLine g).values = item.values := by
  cases item <;> rfl

/-- Elsewhere a document has the same values. -/
theorem Document.values_mapLines (d : Document) : (d.mapLines g).values = d.values := by
  have htable : ∀ t : Table, (t.mapLines g).values = t.values := by
    intro t
    simp only [Table.values, Table.mapLines, List.flatMap_map, TableItem.values_mapLine]
  have hpartial : ∀ p : Partial, (p.mapLines g).values = p.values := by
    intro p
    simp only [Partial.values, Partial.mapLines, List.flatMap_map]
    rfl
  have href : ∀ r : Ref, (r.mapLine g).values = r.values := fun _ => rfl
  simp only [values, mapLines, List.flatMap_map, htable, hpartial, href]

end

/-! ### Words -/

namespace AreWords

variable {ws : List String}

/-- Letters, digits and underscores that a number does not open make up words. -/
theorem of_words (hnonempty : ws ≠ []) (hwords : ∀ w ∈ ws,
    w.toList.head?.any Text.opensWord = true ∧ w.toList.all Text.isWordChar = true) :
    AreWords ws :=
  ⟨hnonempty, fun w hw => .of_word (hwords w hw).1 (hwords w hw).2⟩

theorem join_ne_empty (h : AreWords ws) : String.join ws ≠ "" := by
  obtain ⟨w, others, rfl⟩ := List.exists_cons_of_ne_nil h.nonempty
  have hw : w ≠ "" := fun hw =>
    (h.bare w List.mem_cons_self).ne_nil (String.toList_eq_nil_iff.mpr hw)
  rw [String.join_cons, Ne, String.append_eq_empty_iff]
  exact fun hjoin => hw hjoin.1

theorem allReadable (h : AreWords ws) : AllReadable (wordPieces ws) := by
  simp only [wordPieces, AllReadable, List.forall_mem_map]
  exact fun w hw => Scan.reads_bareName (h.bare w hw)

theorem allReadable_keyed (h : AreWords ws) (key : String) (hkey : key ∈ keywords) :
    AllReadable (keyedPieces key (wordPieces ws)) := by
  simp (disch := decide) [keyedPieces, readable_keyword hkey, readable_mark, h.allReadable]

end AreWords

theorem valueTexts_wordPieces (ws : List String) :
    (wordPieces ws).map (fun p => p.toToken.valueText?) = ws.map some := by
  rw [wordPieces, List.map_map]
  rfl

/-- A setting is a default, or is written and stays as it is. -/
theorem ColumnSetting.default_or_same (s : ColumnSetting) : (∃ value, s = .default value) ∨
    ∀ (words : String → List String) (f : String → String),
      s.wordedPieces words = s.pieces ∧ s.mapValue f = s := by
  cases s with
  | default value => exact .inl ⟨value, rfl⟩
  | _ => exact .inr fun _ _ => ⟨rfl, rfl⟩

/-! ### Readable pieces -/

theorem ColumnSetting.allReadable_wordedPieces {s : ColumnSetting}
    (h : ∀ v ∈ s.value?, AreWords (words v)) : AllReadable (s.wordedPieces words) := by
  rcases s.default_or_same with ⟨value, rfl⟩ | hsame
  · exact (h value rfl).allReadable_keyed "default" (by decide)
  · rw [(hsame words id).1]
    exact s.allReadable_pieces

theorem Column.allReadable_wordedPieces {c : Column} (h : ∀ v ∈ c.values, AreWords (words v)) :
    AllReadable (c.wordedPieces words) := by
  have hsettings : AllReadable (settingPieces (c.settings.map (·.wordedPieces words))) := by
    refine allReadable_settingPieces (List.forall_mem_map.mpr fun s hs => ?_)
    exact s.allReadable_wordedPieces fun v hv => h v (List.mem_filterMap.mpr ⟨s, hs, hv⟩)
  unfold Column.wordedPieces
  cases c.type <;> simp [hsettings]

theorem TableItem.allReadable_wordedPieces {item : TableItem}
    (h : ∀ v ∈ item.values, AreWords (words v)) : AllReadable (item.wordedPieces words) := by
  cases item with
  | column c => exact c.allReadable_wordedPieces h
  | marker name line => exact (TableItem.marker name line).allReadable_pieces

theorem Table.allReadable_wordedLines {t : Table} (h : ∀ v ∈ t.values, AreWords (words v)) :
    ∀ line ∈ t.wordedLines words, AllReadable line := by
  refine allReadable_blockLines ?_ ?_
  · cases t.shorthand <;> simp (disch := decide) [readable_keyword, allReadable_qualifiedPieces]
  · simp only [List.forall_mem_append, List.forall_mem_map]
    refine ⟨⟨fun item hitem => item.allReadable_wordedPieces fun v hv => h v ?_,
      Index.allReadable_allLines _⟩, allReadable_noteLine _⟩
    exact List.mem_flatMap.mpr ⟨item, hitem, hv⟩

theorem Partial.allReadable_wordedLines {p : Partial} (h : ∀ v ∈ p.values, AreWords (words v)) :
    ∀ line ∈ p.wordedLines words, AllReadable line := by
  refine allReadable_blockLines (by simp (disch := decide) [readable_keyword]) ?_
  simp only [List.forall_mem_append, List.forall_mem_map]
  refine ⟨⟨fun c hc => c.allReadable_wordedPieces fun v hv => h v ?_,
    Index.allReadable_allLines _⟩, allReadable_noteLine _⟩
  exact List.mem_flatMap.mpr ⟨c, hc, hv⟩

theorem allReadable_wordedAction (key : String) (hkey : key ∈ keywords) {value : Option String}
    (h : ∀ v ∈ value, AreWords (words v)) :
    ∀ pieces ∈ wordedAction words key value, AllReadable pieces := by
  cases value with
  | none => simp [wordedAction]
  | some v => simpa [wordedAction] using (h v rfl).allReadable_keyed key hkey

theorem Ref.allReadable_wordedPieces {r : Ref} (h : ∀ v ∈ r.values, AreWords (words v)) :
    AllReadable (r.wordedPieces words) := by
  obtain ⟨hdelete, hupdate⟩ := List.forall_mem_append.mp h
  have hsettings : AllReadable (settingPieces (wordedAction words "delete" r.onDelete
      ++ wordedAction words "update" r.onUpdate)) :=
    allReadable_settingPieces (List.forall_mem_append.mpr
      ⟨allReadable_wordedAction "delete" (by decide) (by simpa using hdelete),
        allReadable_wordedAction "update" (by decide) (by simpa using hupdate)⟩)
  unfold Ref.wordedPieces
  cases r.name <;> cases r.left <;> cases r.right <;>
    simp (disch := decide) [readable_keyword, readable_mark, readable_relation, hsettings,
      Endpoint.allReadable_pieces]

theorem Document.allReadable_wordedLines {d : Document} (h : ∀ v ∈ d.values, AreWords (words v)) :
    ∀ line ∈ d.wordedLines words, AllReadable line := by
  simp only [values, List.forall_mem_append, List.forall_mem_flatMap] at h
  obtain ⟨⟨htables, hpartials⟩, hrefs⟩ := h
  simp only [wordedLines, List.forall_mem_append, List.forall_mem_map, List.forall_mem_flatMap]
  refine ⟨⟨⟨⟨?_, fun t ht => t.allReadable_wordedLines (htables t ht)⟩,
    fun p hp => p.allReadable_wordedLines (hpartials p hp)⟩,
    fun r hr => r.allReadable_wordedPieces (hrefs r hr)⟩, fun e _ => e.allReadable_lines⟩
  cases d.project with
  | none => simp
  | some p => exact p.allReadable_lines

/-! ### Reading -/

/-- What words for a value are read as: the words one behind the other. -/
def joined (words : String → List String) (value : String) : String :=
  String.join (words value)

namespace Reader

theorem takesSetting_worded {s : ColumnSetting} (hs : s.Writable)
    (h : ∀ v ∈ s.value?, AreWords (words v)) :
    TakesSetting columnSetting (s.wordedPieces words) (some (s.mapValue (joined words))) := by
  rcases s.default_or_same with ⟨value, rfl⟩ | hsame
  · exact ⟨⟨_, _, rfl, nofun⟩, fun k rest hends =>
      takes_defaultSetting (valueTexts_wordPieces _) (h value rfl).join_ne_empty hends⟩
  · obtain ⟨hpieces, hvalue⟩ := hsame words (joined words)
    rw [hpieces, hvalue]
    exact takesSetting_columnSetting hs

theorem forall₂_wordedSettings {c : Column} (hc : c.Writable)
    (h : ∀ v ∈ c.values, AreWords (words v)) :
    List.Forall₂ (TakesSetting columnSetting) (c.settings.map (·.wordedPieces words))
      ((c.mapValues (joined words)).settings.map some) := by
  rw [Column.mapValues, List.map_map, List.forall₂_map_left_iff, List.forall₂_map_right_iff,
    List.forall₂_same]
  exact fun s hs => takesSetting_worded (hc s hs) fun v hv =>
    h v (List.mem_filterMap.mpr ⟨s, hs, hv⟩)

theorem readsItem_wordedColumn {c : Column} (hc : c.Writable)
    (h : ∀ v ∈ c.values, AreWords (words v)) (injects : Bool) :
    ReadsItem injects (c.wordedPieces words) (.column (c.mapValues (joined words))) :=
  readsItem_column c.name c.type (forall₂_wordedSettings hc h) c.line injects

theorem readsItem_worded {item : TableItem} (hitem : ∀ c ∈ item.column?, c.Writable)
    (h : ∀ v ∈ item.values, AreWords (words v)) :
    ReadsItem true (item.wordedPieces words) (item.mapValues (joined words)) := by
  cases item with
  | column c => exact readsItem_wordedColumn (hitem c rfl) h true
  | marker name line => exact readsItem_marker name line

/-- A table with words for its values is read with the words one behind the other. -/
theorem readsLines_wordedTable {t : Table} (ht : ∀ c ∈ t.columns, c.Writable)
    (h : ∀ v ∈ t.values, AreWords (words v)) :
    ReadsLines Token.opensEntry .endOfText (declaration .partials) (·.mapLines fun _ => 0)
      (t.wordedLines words) (.table ((t.mapValues (joined words)).unquoted.headed none)) := by
  have hitems : ∀ item ∈ t.items,
      ReadsItem true (item.wordedPieces words) (item.mapValues (joined words)) := fun item hitem =>
    readsItem_worded (fun c hc => ht c (List.mem_filterMap.mpr ⟨item, hitem, hc⟩))
      fun v hv => h v (List.mem_flatMap.mpr ⟨item, hitem, hv⟩)
  have hread := readsLines_tableOf hitems none
  have hheading : tableHeading t ++ settingPieces (noteSetting "note" none) = tableHeading t :=
    List.append_nil _
  rw [hheading] at hread
  exact hread

theorem readsLines_wordedPartial {p : Partial} (hp : ∀ c ∈ p.columns, c.Writable)
    (h : ∀ v ∈ p.values, AreWords (words v)) :
    ReadsLines Token.opensEntry .endOfText (declaration .partials) (·.mapLines fun _ => 0)
      (p.wordedLines words) (.tablePartial (p.mapValues (joined words)).unquoted) :=
  readsLines_tablePartialOf fun c hc => readsItem_wordedColumn (hp c hc)
    (fun v hv => h v (List.mem_flatMap.mpr ⟨c, hc, hv⟩)) false

/-- An action in words is taken with the words one behind the other. -/
theorem forall₂_wordedAction (key : String) (hkey : Text.lowered key = key) {value : Option String}
    (h : ∀ v ∈ value, AreWords (words v)) :
    List.Forall₂ (TakesSetting setting) (wordedAction words key value)
      ((value.map (joined words)).map fun v => (⟨key, some v⟩ : Setting)).toList := by
  cases value with
  | none => exact .nil
  | some v =>
    have hjoin : String.join (words v) ≠ "" := (h v rfl).join_ne_empty
    exact .cons (takesSetting_keyedValues hkey (valueTexts_wordPieces _) hjoin) .nil

theorem readsLines_wordedRef {r : Ref} (hr : r.Writable) (h : ∀ v ∈ r.values, AreWords (words v)) :
    ReadsLines Token.opensEntry .endOfText (declaration .partials) (·.mapLines fun _ => 0)
      [r.wordedPieces words] (.refs [r.mapValues (joined words)]) := by
  obtain ⟨hdelete, hupdate⟩ := List.forall_mem_append.mp h
  have hread := readsLines_refOf hr.left hr.right (List.rel_append
    (forall₂_wordedAction "delete" rfl (by simpa using hdelete))
    (forall₂_wordedAction "update" rfl (by simpa using hupdate)))
  rw [refOfSettings_actions] at hread
  have hpieces : r.wordedPieces words = .keyword "Ref" :: refPieces r
      (wordedAction words "delete" r.onDelete ++ wordedAction words "update" r.onUpdate) := by
    simp only [Ref.wordedPieces, refPieces, List.append_assoc, List.cons_append, List.nil_append]
  rw [hpieces]
  exact hread

end Reader

/-! ### Documents -/

namespace Declaration

/-- A declaration with other values. -/
def mapValues (f : String → String) : Declaration → Declaration
  | .tablePartial p => .tablePartial (p.mapValues f)
  | .table t => .table (t.mapValues f)
  | .refs rs => .refs (rs.map (·.mapValues f))
  | declared => declared

/-- The lines of a declaration with its values in words. -/
def wordedLines (words : String → List String) : Declaration → List (List Piece)
  | .tablePartial p => p.wordedLines words
  | .table t => t.wordedLines words
  | .refs rs => rs.map (·.wordedPieces words)
  | declared => declared.lines

end Declaration

namespace Document

variable {d : Document} {f : String → String}

theorem map_mapValues_declarations (d : Document) :
    d.declarations.map (Declaration.mapValues f) = (d.mapValues f).declarations := by
  have hproject : (d.project.map Declaration.project).toList.map (Declaration.mapValues f) =
      (d.project.map Declaration.project).toList := by
    cases d.project <;> rfl
  simp only [declarations, List.map_append, List.map_map, hproject]
  simp [mapValues, Declaration.mapValues, Function.comp_def]

theorem lines_worded (d : Document) (words : String → List String) :
    d.declarations.flatMap (Declaration.wordedLines words) = d.wordedLines words := by
  have hproject : (d.project.map Declaration.project).toList.flatMap
      (Declaration.wordedLines words) = (d.project.map Project.lines).getD [] := by
    cases d.project <;> simp [Declaration.wordedLines, Declaration.lines]
  simp only [declarations, wordedLines, List.flatMap_append, List.flatMap_map, hproject]
  simp [Declaration.wordedLines, Declaration.lines, List.map_eq_flatMap]

/-- Other values do not change what is read without quotes. -/
theorem Writable.readBack_mapValues (hd : d.Writable) (f : String → String) :
    (d.mapValues f).readBack (fun _ => none) = d.mapValues f := by
  have hheaded : (d.mapValues f).readBack (fun _ => none) =
      (d.mapValues f).headed fun _ => none := by
    refine readBack_eq_headed_iff.mpr ⟨?_, ?_, hd.enums⟩
    · exact List.forall_mem_map.mpr fun t ht => ⟨(hd.tables t ht).2, by simp⟩
    · exact List.forall_mem_map.mpr fun p hp => (hd.partials p hp).2
  rw [hheaded, headed_none]

theorem PartialFree.mapValues (h : d.PartialFree) (f : String → String) :
    (d.mapValues f).PartialFree := by
  obtain ⟨hpartials, htables⟩ := h
  refine ⟨by rw [Document.mapValues, hpartials, List.map_nil], ?_⟩
  refine List.forall_mem_map.mpr fun t ht => List.forall_mem_map.mpr fun item hitem => ?_
  obtain ⟨c, rfl⟩ := htables t ht item hitem
  exact ⟨_, rfl⟩

/-- Declarations with words for their values are read with the words one behind the other. -/
theorem readsLines_worded (hd : d.Writable) (h : ∀ v ∈ d.values, AreWords (words v)) :
    ∀ declared ∈ d.declarations, Reader.ReadsLines Token.opensEntry .endOfText
      (Reader.declaration .partials) (·.mapLines fun _ => 0) (declared.wordedLines words)
      ((declared.mapValues (joined words)).readBack fun _ => none) := by
  simp only [values, List.forall_mem_append, List.forall_mem_flatMap] at h
  obtain ⟨⟨htables, hpartials⟩, hrefs⟩ := h
  simp only [declarations, List.forall_mem_append, List.forall_mem_map]
  refine ⟨⟨⟨⟨?_, fun t ht => Reader.readsLines_wordedTable (hd.tables t ht).1 (htables t ht)⟩,
    fun p hp => Reader.readsLines_wordedPartial (hd.partials p hp).1 (hpartials p hp)⟩,
    fun r hr => Reader.readsLines_wordedRef (hd.refs r hr) (hrefs r hr)⟩,
    fun e _ => Reader.readsLines_enumeration e⟩
  intro declared hdeclared
  obtain ⟨p, -, rfl⟩ := Option.map_eq_some_iff.mp (Option.mem_toList.mp hdeclared)
  exact Reader.readsLines_project p

/-- A document with words for its values is read with the words one behind the other. -/
theorem exists_parse_worded (hd : d.Writable) (h : ∀ v ∈ d.values, AreWords (words v))
    {dialect : Dialect} (hdialect : dialect = .partials ∨ d.PartialFree) :
    ∃ read, parse dialect (writtenLines (d.wordedLines words)) = .ok read ∧
      read.mapLines (fun _ => 0) = (d.mapValues (joined words)).mapLines fun _ => 0 := by
  have hdeclared : ofDeclarations (d.declarations.map fun declared =>
      (declared.mapValues (joined words)).readBack fun _ => none) =
        d.mapValues (joined words) := by
    rw [← ofDeclarations_declarations (d.mapValues (joined words)), ← hd.readBack_mapValues,
      ← map_readBack_declarations, ← map_mapValues_declarations, List.map_map]
    rfl
  obtain ⟨read, hread, hsame⟩ := exists_parse_writtenLines (readsLines_worded hd h) (by
    rw [lines_worded]
    exact allReadable_wordedLines h)
  rw [lines_worded] at hread
  rw [hdeclared] at hsame
  refine ⟨read, ?_, hsame⟩
  cases dialect with
  | partials => exact hread
  | legacy =>
    have hfree : d.PartialFree := hdialect.resolve_left nofun
    refine parse_legacy_of_partialFree hread ?_
    rw [← partialFree_mapLines, hsame, partialFree_mapLines]
    exact hfree.mapValues _

/-- **What words for values are read as.** A document in which the defaults of columns and the
actions of references are written in bare words is read as that document with the words one behind
the other for its values. So with other words it is read as a document with the same values exactly
if the words for each value, put together, are the same text. -/
theorem parse_worded (hd : d.Writable) {words others : String → List String}
    (hwords : ∀ v ∈ d.values, AreWords (words v)) (hothers : ∀ v ∈ d.values, AreWords (others v))
    {dialect : Dialect} (hdialect : dialect = .partials ∨ d.PartialFree) :
    ∃ read read', parse dialect (writtenLines (d.wordedLines words)) = .ok read ∧
      parse dialect (writtenLines (d.wordedLines others)) = .ok read' ∧
      read.mapLines (fun _ => 0) =
        (d.mapValues fun v => String.join (words v)).mapLines (fun _ => 0) ∧
      read'.mapLines (fun _ => 0) =
        (d.mapValues fun v => String.join (others v)).mapLines (fun _ => 0) ∧
      (read.values = read'.values ↔
        ∀ v ∈ d.values, String.join (words v) = String.join (others v)) := by
  obtain ⟨read, hread, hsame⟩ := exists_parse_worded hd hwords hdialect
  obtain ⟨read', hread', hsame'⟩ := exists_parse_worded hd hothers hdialect
  refine ⟨read, read', hread, hread', hsame, hsame', ?_⟩
  rw [← read.values_mapLines fun _ => 0, ← read'.values_mapLines fun _ => 0, hsame, hsame',
    values_mapLines, values_mapLines, values_mapValues, values_mapValues, List.map_inj_left]
  rfl

/-- A default and both actions of a reference. -/
def guarded : Document where
  project := none
  tables := [⟨none, "a", none, [.column ⟨"x", some "date", [.default "today"], 0⟩], [], none, 0⟩]
  partials := []
  refs := [⟨none, some ⟨none, "a", ["x"]⟩, .manyToOne, some ⟨none, "b", ["y"]⟩, some "clear",
    some "keep", 0⟩]
  enums := []

/-- The values of `guarded` in words. -/
def spoken : String → List String
  | "today" => ["current", "date"]
  | "clear" => ["set", "null"]
  | value => [value]

/-- The same without the blanks. -/
def slurred (value : String) : List String :=
  [String.join (spoken value)]

/-- Without the blanks the words are others, and are read as the same values. -/
theorem parse_worded_guarded :
    (guarded.Writable ∧ guarded.PartialFree ∧
      ∀ v ∈ guarded.values, AreWords (spoken v) ∧ AreWords (slurred v)) ∧
    (∃ read read', parse .legacy (writtenLines (guarded.wordedLines spoken)) = .ok read ∧
      parse .legacy (writtenLines (guarded.wordedLines slurred)) = .ok read' ∧
      read.values = ["currentdate", "setnull", "keep"] ∧ read'.values = read.values) ∧
    spoken "clear" ≠ slurred "clear" := by
  have hd : guarded.Writable := by decide
  have hfree : guarded.PartialFree := ⟨rfl, by simp [guarded]⟩
  have hwords : ∀ v ∈ guarded.values, AreWords (spoken v) ∧ AreWords (slurred v) := by
    have hvalues : guarded.values = ["today", "clear", "keep"] := rfl
    rw [hvalues, List.forall_mem_cons, List.forall_mem_cons, List.forall_mem_singleton]
    refine ⟨?_, ?_, ?_⟩ <;>
      exact ⟨.of_words (by decide) (by decide), .of_words (by decide) (by decide)⟩
  obtain ⟨read, read', hread, hread', hsame, -, hvalues⟩ := parse_worded hd
    (fun v hv => (hwords v hv).1) (fun v hv => (hwords v hv).2) (.inr hfree)
  refine ⟨⟨hd, hfree, hwords⟩, ⟨read, read', hread, hread', ?_, ?_⟩, by decide⟩
  · rw [← read.values_mapLines fun _ => 0, hsame]
    rfl
  · exact (hvalues.mpr fun v _ => by simp [slurred]).symm

/-- `set null` and `setnull` are stored as the same action, and as the same default. -/
theorem words_run_together :
    (AreWords ["set", "null"] ∧ AreWords ["setnull"]) ∧
    parse .partials "Ref: a.x > b.y [delete: set null, update: setnull]" =
      .ok ⟨none, [], [], [⟨none, some ⟨none, "a", ["x"]⟩, .manyToOne, some ⟨none, "b", ["y"]⟩,
        some "setnull", some "setnull", 1⟩], []⟩ ∧
    parse .partials "Table t \x7b\n  a [default: set null]\n  b [default: setnull]\n\x7d" =
      .ok ⟨none, [⟨none, "t", none, [.column ⟨"a", none, [.default "setnull"], 2⟩,
        .column ⟨"b", none, [.default "setnull"], 3⟩], [], none, 1⟩], [], [], []⟩ := by
  refine ⟨⟨?_, ?_⟩, by decide +kernel⟩
  · exact .of_words (by decide) (by decide)
  · exact .of_words (by decide) (by decide)

end Document

end SchemaGraph
