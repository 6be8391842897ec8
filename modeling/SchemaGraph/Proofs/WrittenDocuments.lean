import SchemaGraph.Proofs.Joining
import SchemaGraph.Proofs.WrittenPhrases

/-!
# Written documents

A document is written as entries one below the other, each on lines of its own, and an entry with a
body as a heading, entries of the body one below the other, and a brace. What is written as an entry
is read as that entry, up to its lines and to quotes at the ends of texts among settings, wherever
it stands (`Reader.ReadsLines`), because the next one opens a line of its own. So a body is read as
the entries that it was written with, and a document whose texts keep their quotes
(`Document.readBack_eq_headed_iff`) as the declarations that it is put together from
(`Document.parse_written`).
-/

namespace SchemaGraph

/-! ### Lines -/

theorem Piece.lexemesFrom_append (lines others : List (List Piece)) (k : Nat) :
    lexemesFrom k (lines ++ others) =
      lexemesFrom k lines ++ lexemesFrom (k + lines.length) others := by
  induction lines generalizing k with
  | nil => rfl
  | cons pieces lines ih =>
    rw [List.cons_append, lexemesFrom_cons, lexemesFrom_cons, ih, List.append_assoc,
      List.length_cons, Nat.add_assoc, Nat.add_comm 1]

theorem Piece.lexemesFrom_singleton (pieces : List Piece) (k : Nat) :
    lexemesFrom k [pieces] = pieces.map (lexeme k) :=
  List.append_nil _

/-- Behind its heading, a block has an opening brace, the lines of its body and a closing brace. -/
theorem Piece.lexemesFrom_blockLines (heading : List Piece) (body : List (List Piece)) (k : Nat)
    (rest : List Lexeme) : lexemesFrom k (blockLines heading body) ++ rest =
      heading.map (lexeme k) ++ ⟨.openBrace, k⟩ ::
        (lexemesFrom (k + 1) body ++ ⟨.closeBrace, k + 1 + body.length⟩ :: rest) := by
  rw [blockLines, List.cons_append, lexemesFrom_cons, lexemesFrom_append, lexemesFrom_singleton,
    List.map_append]
  simp only [List.append_assoc]
  rfl

open Piece

/-! ### What can be written -/

/-- The columns and the indexes of a table can be written. -/
def Table.Writable (t : Table) : Prop :=
  (∀ c ∈ t.columns, c.Writable) ∧ ∀ i ∈ t.indexes, i.Writable

instance : DecidablePred Table.Writable :=
  fun _ => instDecidableAnd

/-- The columns and the indexes of a partial can be written. -/
def Partial.Writable (p : Partial) : Prop :=
  (∀ c ∈ p.columns, c.Writable) ∧ ∀ i ∈ p.indexes, i.Writable

instance : DecidablePred Partial.Writable :=
  fun _ => instDecidableAnd

/-- The values of an enumeration can be written. -/
def Enumeration.Writable (e : Enumeration) : Prop :=
  ∀ v ∈ e.values, v.Writable

instance : DecidablePred Enumeration.Writable :=
  fun e => inferInstanceAs (Decidable (∀ v ∈ e.values, v.Writable))

/-- A document that can be written: values and actions are not empty, an endpoint with a schema has
fields, and names of indexes and notes of enumerations keep their quotes. -/
structure Document.Writable (d : Document) : Prop where
  tables : ∀ t ∈ d.tables, t.Writable
  partials : ∀ p ∈ d.partials, p.Writable
  refs : ∀ r ∈ d.refs, r.Writable
  enums : ∀ e ∈ d.enums, e.Writable

instance : DecidablePred Document.Writable := fun d =>
  decidable_of_iff ((∀ t ∈ d.tables, t.Writable) ∧ (∀ p ∈ d.partials, p.Writable) ∧
    (∀ r ∈ d.refs, r.Writable) ∧ ∀ e ∈ d.enums, e.Writable)
    ⟨fun ⟨ht, hp, hr, he⟩ => ⟨ht, hp, hr, he⟩, fun h => ⟨h.tables, h.partials, h.refs, h.enums⟩⟩

/-- A document that can be written, but for quotes at the ends of texts. -/
structure Document.WritableUpToQuotes (d : Document) : Prop where
  tables : ∀ t ∈ d.tables, ∀ c ∈ t.columns, c.Writable
  partials : ∀ p ∈ d.partials, ∀ c ∈ p.columns, c.Writable
  refs : ∀ r ∈ d.refs, r.Writable

instance : DecidablePred Document.WritableUpToQuotes := fun d =>
  decidable_of_iff ((∀ t ∈ d.tables, ∀ c ∈ t.columns, c.Writable) ∧
    (∀ p ∈ d.partials, ∀ c ∈ p.columns, c.Writable) ∧ ∀ r ∈ d.refs, r.Writable)
    ⟨fun ⟨ht, hp, hr⟩ => ⟨ht, hp, hr⟩, fun h => ⟨h.tables, h.partials, h.refs⟩⟩

theorem Document.Writable.upToQuotes {d : Document} (h : d.Writable) : d.WritableUpToQuotes :=
  ⟨fun t ht => (h.tables t ht).1, fun p hp => (h.partials p hp).1, h.refs⟩

/-! ### Quotes at the ends of texts -/

theorem map_eq_self_iff {α : Type} {f : α → α} {as : List α} :
    as.map f = as ↔ ∀ a ∈ as, f a = a := by
  simpa using List.map_inj_left (f := f) (g := id) (l := as)

theorem map_unquoted_eq_self_iff {indexes : List Index} :
    indexes.map Index.unquoted = indexes ↔ ∀ i ∈ indexes, i.Writable := by
  simp only [map_eq_self_iff, Index.unquoted_eq_self_iff]

theorem Partial.unquoted_eq_self_iff {p : Partial} :
    p.unquoted = p ↔ ∀ i ∈ p.indexes, i.Writable := by
  rw [← map_unquoted_eq_self_iff]
  constructor
  · exact congrArg indexes
  · intro h
    rw [unquoted, h]

theorem Enumeration.unquoted_eq_self_iff {e : Enumeration} : e.unquoted = e ↔ e.Writable := by
  have hvalues : e.values.map EnumValue.unquoted = e.values ↔ e.Writable := by
    simp only [map_eq_self_iff, EnumValue.unquoted_eq_self_iff, Writable]
  rw [← hvalues]
  constructor
  · exact congrArg values
  · intro h
    rw [unquoted, h]

/-- The texts among the settings of a table keep their quotes. A note in the heading does not count
if there is one in the body. -/
structure Table.KeepsQuotes (note : Option String) (t : Table) : Prop where
  indexes : ∀ i ∈ t.indexes, i.Writable
  heading : t.note = none → ∀ text ∈ note, SchemaGraph.KeepsQuotes text

theorem Table.unquoted_headed_iff {t : Table} {note : Option String} :
    t.unquoted.headed (note.map unquote) = t.headed note ↔ t.KeepsQuotes note := by
  have hnote : t.note.or (note.map unquote) = t.note.or note ↔
      (t.note = none → ∀ text ∈ note, SchemaGraph.KeepsQuotes text) := by
    rw [← map_unquote_eq_self_iff]
    cases t.note <;> simp
  constructor
  · intro h
    exact ⟨map_unquoted_eq_self_iff.mp (congrArg indexes h), hnote.mp (congrArg Table.note h)⟩
  · rintro ⟨hindexes, hheading⟩
    rw [headed, headed, unquoted, map_unquoted_eq_self_iff.mpr hindexes, hnote.mpr hheading]

/-- The texts among the settings of a document keep their quotes. -/
structure Document.KeepsQuotes (headings : Table → Option String) (d : Document) : Prop where
  tables : ∀ t ∈ d.tables, t.KeepsQuotes (headings t)
  partials : ∀ p ∈ d.partials, ∀ i ∈ p.indexes, i.Writable
  enums : ∀ e ∈ d.enums, e.Writable

/-- A document is read as it is meant exactly if the texts among its settings keep their quotes. -/
theorem Document.readBack_eq_headed_iff {d : Document} {headings : Table → Option String} :
    d.readBack headings = d.headed headings ↔ d.KeepsQuotes headings := by
  have htables : d.tables.map (fun t => t.unquoted.headed ((headings t).map unquote)) =
      d.tables.map (fun t => t.headed (headings t)) ↔
        ∀ t ∈ d.tables, t.KeepsQuotes (headings t) := by
    simp only [List.map_inj_left, Table.unquoted_headed_iff]
  have hpartials : d.partials.map Partial.unquoted = d.partials ↔
      ∀ p ∈ d.partials, ∀ i ∈ p.indexes, i.Writable := by
    simp only [map_eq_self_iff, Partial.unquoted_eq_self_iff]
  have henums : d.enums.map Enumeration.unquoted = d.enums ↔ ∀ e ∈ d.enums, e.Writable := by
    simp only [map_eq_self_iff, Enumeration.unquoted_eq_self_iff]
  constructor
  · intro h
    exact ⟨htables.mp (congrArg Document.tables h), hpartials.mp (congrArg Document.partials h),
      henums.mp (congrArg Document.enums h)⟩
  · rintro ⟨ht, hp, he⟩
    rw [readBack, headed, htables.mpr ht, hpartials.mpr hp, henums.mpr he]

theorem Document.headed_none (d : Document) : d.headed (fun _ => none) = d := by
  have htable : ∀ t : Table, t.headed none = t := fun t => by rw [Table.headed, Option.or_none]
  rw [headed, map_eq_self_iff.mpr fun t _ => htable t]

theorem Document.Writable.readBack_none {d : Document} (h : d.Writable) :
    d.readBack (fun _ => none) = d := by
  refine (readBack_eq_headed_iff.mpr ⟨fun t ht => ?_, fun p hp => (h.partials p hp).2,
    h.enums⟩).trans d.headed_none
  exact ⟨(h.tables t ht).2, by simp⟩

namespace Reader

variable {α : Type} {opens : Token → Bool} {close : Token} {item : Reader α} {erase : α → α}
  {rest : List Lexeme}

/-! ### Entries -/

/-- What is written on some lines is read as `a`, up to what `erase` drops, if something follows
that opens a line of its own. The first line opens such a thing as well, and does not close a
body. -/
structure ReadsLines (opens : Token → Bool) (close : Token) (item : Reader α) (erase : α → α)
    (lines : List (List Piece)) (a : α) : Prop where
  head : ∃ p pieces others, lines = (p :: pieces) :: others ∧ opens p.toToken = true ∧
    p.toToken ≠ close
  reads : ∀ k l rest, Follows opens (k + lines.length) rest → ∃ a' l',
    item ⟨lexemesFrom k lines ++ rest, l⟩ = .ok (a', ⟨rest, l'⟩) ∧ erase a' = erase a

theorem ReadsLines.of_line {p : Piece} {pieces : List Piece} {a : α}
    (hopens : opens p.toToken = true) (hclose : p.toToken ≠ close)
    (h : ∀ k rest, Follows opens (k + 1) rest → ∃ a',
      TakesLine item k (p :: pieces) a' rest ∧ erase a' = erase a) :
    ReadsLines opens close item erase [p :: pieces] a where
  head := ⟨p, pieces, [], rfl, hopens, hclose⟩
  reads k l rest hrest := by
    obtain ⟨a', htakes, ha⟩ := h k rest hrest
    rw [lexemesFrom_singleton]
    exact ⟨a', k, htakes l, ha⟩

section Written

variable {β : Type} {written : β → List (List Piece)} {read : β → α} {bs : List β}

/-- Entries one below the other, or what closes them, open a line of their own. -/
theorem follows_written
    (hbs : ∀ b ∈ bs, ReadsLines opens close item erase (written b) (read b))
    (hopens : opens close = true) {k m : Nat}
    (hm : close = .endOfText ∨ k + (bs.flatMap written).length ≤ m) :
    Follows opens k (lexemesFrom k (bs.flatMap written) ++ ⟨close, m⟩ :: rest) := by
  cases bs with
  | nil => exact ⟨⟨close, m⟩, rest, rfl, hopens, hm⟩
  | cons b bs =>
    obtain ⟨p, pieces, others, hlines, hp, -⟩ := (hbs b List.mem_cons_self).head
    rw [List.flatMap_cons, hlines]
    exact ⟨p.lexeme k, _, rfl, hp, .inr (Nat.le_refl k)⟩

/-- Entries one below the other are read one after the other, each as what it is read as. -/
theorem rounds_written
    (hbs : ∀ b ∈ bs, ReadsLines opens close item erase (written b) (read b))
    (hopens : opens close = true) {k m : Nat}
    (hm : close = .endOfText ∨ k + (bs.flatMap written).length ≤ m) (l : Nat)
    (rest : List Lexeme) : ∃ as l', Rounds (fun c => !c.at? close) item
      ⟨lexemesFrom k (bs.flatMap written) ++ ⟨close, m⟩ :: rest, l⟩ as ⟨⟨close, m⟩ :: rest, l'⟩ ∧
        as.map erase = (bs.map read).map erase := by
  induction bs generalizing k l with
  | nil => exact ⟨[], l, .stop (by simp [Cursor.at?, Cursor.next, lexemesFrom]), rfl⟩
  | cons b bs ih =>
    have hothers : ∀ b ∈ bs, ReadsLines opens close item erase (written b) (read b) :=
      fun b hb => hbs b (List.mem_cons_of_mem _ hb)
    have hm' : close = .endOfText ∨ k + (written b).length + (bs.flatMap written).length ≤ m := by
      rwa [List.flatMap_cons, List.length_append, ← Nat.add_assoc] at hm
    obtain ⟨hhead, hreads⟩ := hbs b List.mem_cons_self
    obtain ⟨a, mid, hitem, ha⟩ := hreads k l _ (follows_written hothers hopens hm')
    obtain ⟨as, l', hrounds, has⟩ := ih hothers hm' mid
    refine ⟨a :: as, l', ?_, by rw [List.map_cons, List.map_cons, List.map_cons, ha, has]⟩
    rw [List.flatMap_cons, lexemesFrom_append, List.append_assoc]
    obtain ⟨p, pieces, others, hlines, _, hp⟩ := hhead
    refine .round ?_ hitem ?_ hrounds
    · rw [hlines]
      simp [Cursor.at?, Cursor.next, lexemesFrom, lexeme, hp]
    · rw [hlines]
      simp only [lexemesFrom_cons, List.length_append, List.length_map, List.length_cons]
      omega

/-- Behind the heading of a block, its entries are read between braces. -/
theorem braced_written
    (hbs : ∀ b ∈ bs, ReadsLines opens .closeBrace item erase (written b) (read b))
    (hopens : opens .closeBrace = true) (heading : List Piece) (k : Nat) (rest : List Lexeme) :
    ∃ body as l', lexemesFrom k (blockLines heading (bs.flatMap written)) ++ rest =
        heading.map (lexeme k) ++ ⟨.openBrace, k⟩ :: body ∧
      braced item ⟨⟨.openBrace, k⟩ :: body, k⟩ = .ok (as, ⟨rest, l'⟩) ∧
        as.map erase = (bs.map read).map erase := by
  obtain ⟨as, l', hrounds, herase⟩ :=
    rounds_written (k := k + 1) hbs hopens (.inr (Nat.le_refl _)) k rest
  refine ⟨_, as, k + 1 + (bs.flatMap written).length, lexemesFrom_blockLines _ _ _ _, ?_, herase⟩
  change (do
    let items ← manyUntil .closeBrace item
    expect .closeBrace (.mark "\x7d")
    return items : Reader (List α)) ⟨lexemesFrom (k + 1) _ ++ _, k⟩ = _
  exact (bind_of_ok (manyWhile_of_rounds hrounds) _).trans rfl

end Written

/-- Entries that are read as they are meant are read one after the other. -/
theorem rounds_lines {written : α → List (List Piece)} {as : List α}
    (has : ∀ a ∈ as, ReadsLines opens close item erase (written a) a) (hopens : opens close = true)
    {k m : Nat} (hm : close = .endOfText ∨ k + (as.flatMap written).length ≤ m) (l : Nat)
    (rest : List Lexeme) : ∃ as' l', Rounds (fun c => !c.at? close) item
      ⟨lexemesFrom k (as.flatMap written) ++ ⟨close, m⟩ :: rest, l⟩ as' ⟨⟨close, m⟩ :: rest, l'⟩ ∧
        as'.map erase = as.map erase := by
  obtain ⟨as', l', hrounds, hsame⟩ := rounds_written has hopens hm l rest
  exact ⟨as', l', hrounds, hsame.trans (by rw [List.map_id'])⟩

/-! ### Indexes and values -/

theorem readsLines_index (i : Index) :
    ReadsLines (fun _ => true) .closeBrace index id [i.pieces] i.unquoted :=
  .of_line rfl nofun fun _ _ hrest => ⟨_, takesLine_index i hrest.continuesLine, rfl⟩

theorem readsLines_enumValue (v : EnumValue) :
    ReadsLines (fun _ => true) .closeBrace enumValue id [v.pieces] v.unquoted :=
  .of_line rfl nofun fun _ _ hrest => ⟨_, takesLine_enumValue v hrest.continuesLine, rfl⟩

end Reader

/-! ### Bodies -/

namespace BodyEntry

/-- The lines of an entry. -/
def lines : BodyEntry → List (List Piece)
  | .column c => [c.pieces]
  | .marker name _ => [[.token .tilde, .name name]]
  | .indexes listed => blockLines [.keyword "indexes"] (listed.map Index.pieces)
  | .note text => [[.keyword "Note", .token .colon, .string text]]

/-- The entry with the names of its indexes without the single quotes at their ends. -/
def unquoted : BodyEntry → BodyEntry
  | .indexes listed => .indexes (listed.map Index.unquoted)
  | entry => entry

/-- An item of a table as an entry. -/
def ofItem : TableItem → BodyEntry
  | .column c => .column c
  | .marker name line => .marker name line

/-- The entries that a body is written with. -/
def ofBody (items : List TableItem) (listed : List Index) (text : Option String) :
    List BodyEntry :=
  items.map ofItem ++ (if listed.isEmpty then [] else [.indexes listed])
    ++ (text.map BodyEntry.note).toList

variable (items : List TableItem) (listed : List Index) (text : Option String)

theorem items_ofBody : BodyEntry.items (ofBody items listed text) = items := by
  have hitems : item? ∘ ofItem = some := by
    funext item
    cases item <;> rfl
  rw [BodyEntry.items, ofBody, List.filterMap_append, List.filterMap_append, List.filterMap_map,
    hitems, List.filterMap_some]
  cases listed <;> cases text <;> simp [item?]

theorem allIndexes_ofBody : allIndexes (ofBody items listed text) = listed := by
  have hitems : (items.map ofItem).flatMap indexList = [] := by
    rw [List.flatMap_map, List.flatMap_eq_nil_iff]
    intro item _
    cases item <;> rfl
  rw [allIndexes, ofBody, List.flatMap_append, List.flatMap_append, hitems]
  cases listed <;> cases text <;> simp [indexList]

theorem lastNote?_ofBody : lastNote? (ofBody items listed text) = text := by
  have hitems : (items.map ofItem).reverse.findSome? note? = none := by
    rw [List.findSome?_eq_none_iff]
    simp only [List.mem_reverse, List.mem_map]
    rintro _ ⟨item, -, rfl⟩
    cases item <;> rfl
  rw [lastNote?, ofBody, List.reverse_append, List.reverse_append, List.findSome?_append,
    List.findSome?_append, hitems]
  cases listed <;> cases text <;> rfl

theorem lines_ofBody : (ofBody items listed text).flatMap lines =
    items.map TableItem.pieces ++ Index.allLines listed ++ noteLine text := by
  have hitems : (items.map ofItem).flatMap lines = items.map TableItem.pieces := by
    induction items with
    | nil => rfl
    | cons item items ih =>
      rw [List.map_cons, List.flatMap_cons, ih]
      cases item <;> rfl
  rw [ofBody, List.flatMap_append, List.flatMap_append, hitems]
  cases listed <;> cases text <;> simp [lines, Index.allLines, noteLine]

theorem map_unquoted_ofBody :
    (ofBody items listed text).map unquoted = ofBody items (listed.map Index.unquoted) text := by
  have hitems : unquoted ∘ ofItem = ofItem := by
    funext item
    cases item <;> rfl
  rw [ofBody, ofBody, List.map_append, List.map_append, List.map_map, hitems]
  cases listed <;> cases text <;> rfl

/-- The items among the entries of a body are those of the body. -/
theorem mem_items_of_mem_ofBody {e : BodyEntry} (he : e ∈ ofBody items listed text)
    {item : TableItem} (hitem : e.item? = some item) : item ∈ items := by
  rw [← items_ofBody items listed text]
  exact List.mem_filterMap.mpr ⟨e, he, hitem⟩

end BodyEntry

namespace Reader

variable {k : Nat} {rest : List Lexeme}

section Columns

variable {parts : List (List Piece)} {settings : List ColumnSetting}

/-- The second token in the line of a column is none of those by which a note or a list of indexes
is told from a column. -/
theorem second_column (text : String) (type : Option String) (parts : List (List Piece))
    (hrest : Follows Token.opensEntry (k + 1) rest) (l : Nat) {t : Token}
    (ht : t.opensEntry = false) (hbracket : t ≠ .openBracket) :
    (⟨(.name text :: (type.map Piece.name).toList ++ settingPieces parts).map (lexeme k) ++ rest,
      l⟩ : Cursor).second ≠ t := by
  obtain _ | type := type
  · obtain _ | ⟨part, parts⟩ := parts
    · obtain ⟨x, xs, rfl, hx, _⟩ := hrest
      change x.token ≠ t
      rintro rfl
      rw [ht] at hx
      cases hx
    · exact hbracket.symm
  · change Token.name type ≠ t
    rintro rfl
    cases ht

theorem takesLine_columnEntry (text : String) (type : Option String)
    (h : List.Forall₂ (TakesSetting columnSetting) parts (settings.map some)) (dialect : Dialect)
    (injects : Bool) (hrest : Follows Token.opensEntry (k + 1) rest) :
    TakesLine (bodyEntry dialect injects) k
      (.name text :: (type.map Piece.name).toList ++ settingPieces parts)
      (.column ⟨text, type, settings, k⟩) rest := by
  intro l
  have hbrace := second_column text type parts hrest l (t := .openBrace) rfl nofun
  have hcolon := second_column text type parts hrest l (t := .colon) rfl nofun
  have hhead : (⟨(.name text :: (type.map Piece.name).toList ++ settingPieces parts).map
      (lexeme k) ++ rest, l⟩ : Cursor).next.token = .name text := rfl
  unfold bodyEntry
  simp only [next_bind, second_bind, ite_apply]
  rw [if_neg (by rw [hhead]; nofun), if_neg (by rw [hhead]; nofun), if_neg fun h => hbrace h.2,
    if_neg fun h => h.2.elim hcolon hbrace]
  exact (bind_of_ok (takesLine_columnOf text type h hrest l) _).trans rfl

end Columns

/-- An entry that is no item of a body is read as it was written, but for quotes at the ends of
names of indexes. -/
theorem readsLines_bodyEntry {injects : Bool} {e : BodyEntry} (he : e.item? = none) :
    ReadsLines Token.opensEntry .closeBrace (bodyEntry .partials injects)
      (·.mapLine fun _ => 0) e.lines e.unquoted := by
  cases e with
  | column c => cases he
  | marker name line => cases he
  | note text =>
    exact .of_line rfl nofun fun k rest _ => ⟨.note text, fun _ => rfl, rfl⟩
  | indexes listed =>
    refine ⟨⟨_, _, _, rfl, rfl, nofun⟩, fun k l rest _ => ?_⟩
    obtain ⟨body, listed', l', hlines, hread, hsame⟩ :=
      braced_written (fun i (_ : i ∈ listed) => readsLines_index i) rfl [.keyword "indexes"] k rest
    rw [List.map_id, List.map_id] at hsame
    subst hsame
    rw [BodyEntry.lines, List.map_eq_flatMap, hlines]
    exact ⟨.indexes _, l', (bind_of_ok hread fun read =>
      pure (BodyEntry.indexes read)).trans rfl, rfl⟩

/-- An item of a table is written on some line and read as an item, up to its line. -/
def ReadsItem (injects : Bool) (pieces : List Piece) (item : TableItem) : Prop :=
  ReadsLines Token.opensEntry .closeBrace (bodyEntry .partials injects) (·.mapLine fun _ => 0)
    [pieces] (.ofItem item)

/-- A body of items, indexes and a note is read as the items that its lines are read as, and as the
indexes and the note that it declares. -/
theorem braced_body {β : Type} {bs : List β} {write : β → List Piece} {read : β → TableItem}
    {injects : Bool} (hitems : ∀ b ∈ bs, ReadsItem injects (write b) (read b))
    (listed : List Index) (text : Option String) (heading : List Piece) (k : Nat)
    (rest : List Lexeme) :
    ∃ body entries l', lexemesFrom k (blockLines heading
        (bs.map write ++ Index.allLines listed ++ noteLine text)) ++ rest =
          heading.map (lexeme k) ++ ⟨.openBrace, k⟩ :: body ∧
      braced (bodyEntry .partials injects) ⟨⟨.openBrace, k⟩ :: body, k⟩ =
        .ok (entries, ⟨rest, l'⟩) ∧
      (BodyEntry.items entries).map (·.mapLine fun _ => 0) =
        (bs.map read).map (·.mapLine fun _ => 0) ∧
      BodyEntry.allIndexes entries = listed.map Index.unquoted ∧
      BodyEntry.lastNote? entries = text := by
  -- each entry with the lines that it is written on
  let written : List (List (List Piece) × BodyEntry) :=
    bs.map (fun b => ([write b], .ofItem (read b)))
      ++ (BodyEntry.ofBody [] listed text).map fun e => (e.lines, e.unquoted)
  have hwritten : ∀ w ∈ written, ReadsLines Token.opensEntry .closeBrace
      (bodyEntry .partials injects) (·.mapLine fun _ => 0) w.1 w.2 := by
    simp only [written, List.forall_mem_append, List.forall_mem_map]
    refine ⟨hitems, fun e he => readsLines_bodyEntry (Option.eq_none_iff_forall_ne_some.mpr ?_)⟩
    intro item hitem
    exact List.not_mem_nil (BodyEntry.mem_items_of_mem_ofBody [] listed text he hitem)
  have hlines : written.flatMap Prod.fst =
      bs.map write ++ Index.allLines listed ++ noteLine text := by
    have hothers := BodyEntry.lines_ofBody [] listed text
    simp only [written, List.flatMap_append, List.flatMap_map, hothers]
    simp [List.map_eq_flatMap]
  have hread : written.map Prod.snd =
      BodyEntry.ofBody (bs.map read) (listed.map Index.unquoted) text := by
    have hothers := BodyEntry.map_unquoted_ofBody [] listed text
    simp only [written, List.map_append, List.map_map, Function.comp_def, hothers]
    simp [BodyEntry.ofBody, Function.comp_def]
  obtain ⟨body, entries, l', hbody, hbraced, hsame⟩ := braced_written hwritten rfl heading k rest
  rw [hlines] at hbody
  rw [hread] at hsame
  refine ⟨body, entries, l', hbody, hbraced, ?_, ?_, ?_⟩
  · rw [← BodyEntry.items_mapLine, hsame, BodyEntry.items_mapLine, BodyEntry.items_ofBody]
  · rw [← BodyEntry.allIndexes_mapLine fun _ => 0, hsame, BodyEntry.allIndexes_mapLine,
      BodyEntry.allIndexes_ofBody]
  · rw [← BodyEntry.lastNote?_mapLine fun _ => 0, hsame, BodyEntry.lastNote?_mapLine,
      BodyEntry.lastNote?_ofBody]

/-- A column is read as an item whatever its settings are written with, if they are taken. -/
theorem readsItem_column (text : String) (type : Option String) {parts : List (List Piece)}
    {settings : List ColumnSetting}
    (h : List.Forall₂ (TakesSetting columnSetting) parts (settings.map some)) (line : Nat)
    (injects : Bool) : ReadsItem injects
      (.name text :: (type.map Piece.name).toList ++ settingPieces parts)
      (.column ⟨text, type, settings, line⟩) :=
  .of_line rfl nofun fun _ _ hrest =>
    ⟨_, takesLine_columnEntry text type h .partials injects hrest, rfl⟩

/-- Only tables inject partials. -/
theorem readsItem_marker (name : String) (line : Nat) :
    ReadsItem true [.token .tilde, .name name] (.marker name line) :=
  .of_line rfl nofun fun k _ _ => ⟨.marker name k, fun _ => rfl, rfl⟩

/-- The items of a table are read as they were written. -/
theorem readsItem_pieces {items : List TableItem} (hitems : ∀ c, .column c ∈ items → c.Writable) :
    ∀ item ∈ items, ReadsItem true item.pieces item := by
  intro item hitem
  cases item with
  | column c =>
    exact readsItem_column c.name c.type (forall₂_columnSettings (hitems c hitem)) c.line true
  | marker name line => exact readsItem_marker name line

/-! ### Declarations -/

/-- The heading of a table, up to its brace. -/
def tableHeading (t : Table) : List Piece :=
  qualifiedPieces t.schema t.name ++ (t.shorthand.map fun s => [.keyword "as", .name s]).getD []

/-- A table with the entries of another body. -/
def tableOfEntries (t : Table) (line : Nat) (entries : List BodyEntry) : Table :=
  { t with
    items := BodyEntry.items entries
    indexes := BodyEntry.allIndexes entries
    note := BodyEntry.lastNote? entries
    line }

/-- A note in a heading is taken, or is absent. -/
theorem takes_headerSettings (note : Option String) (body : List Lexeme) :
    Takes headerSettings k (settingPieces (noteSetting "note" note))
      (note.map fun t => (⟨"note", some ("'" ++ t ++ "'")⟩ : Setting)).toList
      (⟨.openBrace, k⟩ :: body) := by
  have h := forall₂_noteSetting "note" rfl note
  cases note with
  | none => rfl
  | some t => exact .before (.optional rfl (takes_bracketed h)) (.done _)

/-- Behind its heading, a table is read from its body. -/
theorem table_heading (t : Table) (note : Option String) {k l' : Nat} {body rest : List Lexeme}
    {entries : List BodyEntry} (hread : braced (bodyEntry .partials true)
      ⟨⟨.openBrace, k⟩ :: body, k⟩ = .ok (entries, ⟨rest, l'⟩)) :
    table .partials k ⟨(tableHeading t ++ settingPieces (noteSetting "note" note)).map (lexeme k) ++
      ⟨.openBrace, k⟩ :: body, k⟩ =
        .ok ((tableOfEntries t k entries).headed (note.map unquote), ⟨rest, l'⟩) := by
  let behind := (settingPieces (noteSetting "note" note)).map (lexeme k) ++ ⟨.openBrace, k⟩ :: body
  have hopens : ∀ token : Token, token ≠ .openBracket → token ≠ .openBrace →
      (⟨behind, k⟩ : Cursor).next.token ≠ token := by
    intro token hbracket hbrace
    cases note with
    | none => exact hbrace.symm
    | some t => exact hbracket.symm
  have hname : Takes qualifiedName k (qualifiedPieces t.schema t.name) (t.schema, t.name)
      (((t.shorthand.map fun s => [.keyword "as", .name s]).getD []).map (lexeme k) ++ behind) := by
    refine takes_qualifiedName _ _ ?_
    cases t.shorthand with
    | none => exact beq_eq_false_iff_ne.mpr (hopens .dot nofun nofun)
    | some s => rfl
  have hshorthand : Takes (optional (·.next.token.isKeyword "as") (do skip; name)) k
      ((t.shorthand.map fun s => [.keyword "as", .name s]).getD []) t.shorthand behind := by
    cases t.shorthand with
    | none => exact .absent (by cases note <;> rfl)
    | some s => exact .optional rfl (takes_skip_name _ s)
  have hnote : (Setting.lastValue
      (note.map fun t => (⟨"note", some ("'" ++ t ++ "'")⟩ : Setting)).toList "note").map unquote =
        note.map unquote := by
    rw [← map_unquote_quoted note]
    cases note <;> rfl
  rw [tableHeading, List.map_append, List.map_append, List.append_assoc, List.append_assoc, table,
    bind_of_ok hname]
  refine (bind_of_ok hshorthand _).trans ((bind_of_ok (takes_headerSettings note body) _).trans
    ((bind_of_ok hread _).trans ?_))
  rw [hnote]
  rfl

/-- A table is read as what its items are read as, but for quotes at the ends of texts among
settings. -/
theorem readsLines_tableOf {t : Table} {write : TableItem → List Piece}
    {read : TableItem → TableItem}
    (hitems : ∀ item ∈ t.items, ReadsItem true (write item) (read item)) (note : Option String) :
    ReadsLines Token.opensEntry .endOfText (declaration .partials) (·.mapLines fun _ => 0)
      (blockLines (.keyword "Table" :: (tableHeading t ++ settingPieces (noteSetting "note" note)))
        (t.items.map write ++ Index.allLines t.indexes ++ noteLine t.note))
      (.table (({ t with items := t.items.map read } : Table).unquoted.headed
        (note.map unquote))) := by
  refine ⟨⟨_, _, _, rfl, rfl, nofun⟩, fun k l rest _ => ?_⟩
  obtain ⟨body, entries, l', hlines, hread, hread', hindexes, hnote⟩ := braced_body hitems
    t.indexes t.note
    (.keyword "Table" :: (tableHeading t ++ settingPieces (noteSetting "note" note))) k rest
  refine ⟨.table ((tableOfEntries t k entries).headed (note.map unquote)), l', ?_, ?_⟩
  · rw [hlines]
    exact (bind_of_ok (table_heading t note hread) fun t => pure (Declaration.table t)).trans rfl
  · simp only [Declaration.mapLines, Table.mapLines, Table.headed, Table.unquoted, tableOfEntries,
      hread', hindexes, hnote]

/-- A table is read as it was written, but for quotes at the ends of texts among settings. -/
theorem readsLines_table {t : Table} (ht : ∀ c ∈ t.columns, c.Writable) (note : Option String) :
    ReadsLines Token.opensEntry .endOfText (declaration .partials) (·.mapLines fun _ => 0)
      (t.headedLines note) (.table (t.unquoted.headed (note.map unquote))) := by
  have hitems : ∀ item ∈ t.items, ReadsItem true item.pieces (id item) :=
    readsItem_pieces fun c hc => ht c (List.mem_filterMap.mpr ⟨_, hc, rfl⟩)
  have h := readsLines_tableOf hitems note
  rwa [List.map_id] at h

/-- A partial is read as what its columns are read as, but for quotes at the ends of names of
indexes. -/
theorem readsLines_tablePartialOf {p : Partial} {write : Column → List Piece}
    {read : Column → Column}
    (hcolumns : ∀ c ∈ p.columns, ReadsItem false (write c) (.column (read c))) :
    ReadsLines Token.opensEntry .endOfText (declaration .partials) (·.mapLines fun _ => 0)
      (blockLines [.keyword "TablePartial", .name p.name]
        (p.columns.map write ++ Index.allLines p.indexes ++ noteLine p.note))
      (.tablePartial ({ p with columns := p.columns.map read } : Partial).unquoted) := by
  refine ⟨⟨_, _, _, rfl, rfl, nofun⟩, fun k l rest _ => ?_⟩
  obtain ⟨body, entries, l', hlines, hread, hitems, hindexes, hnote⟩ :=
    braced_body hcolumns p.indexes p.note [.keyword "TablePartial", .name p.name] k rest
  let found : Partial := ⟨p.name, (BodyEntry.items entries).filterMap TableItem.column?,
    BodyEntry.allIndexes entries, BodyEntry.lastNote? entries⟩
  have hname : Takes name k [.name p.name] p.name (⟨.openBrace, k⟩ :: body) := takes_name _
  have hsettings : Takes headerSettings k [] [] (⟨.openBrace, k⟩ :: body) := rfl
  have hpartial : tablePartial .partials ⟨⟨.name p.name, k⟩ :: ⟨.openBrace, k⟩ :: body, k⟩ =
      .ok (found, ⟨rest, l'⟩) := by
    rw [tablePartial]
    refine (bind_of_ok hname _).trans ((bind_of_ok hsettings _).trans ?_)
    exact (bind_of_ok hread _).trans rfl
  refine ⟨.tablePartial found, l', ?_, ?_⟩
  · rw [hlines]
    exact (bind_of_ok hpartial fun p => pure (Declaration.tablePartial p)).trans rfl
  · have hsame : (p.columns.map fun c => TableItem.column (read c)).filterMap TableItem.column? =
        p.columns.map read := by
      rw [List.filterMap_map]
      exact congrFun List.filterMap_eq_map p.columns
    simp only [Declaration.mapLines, Partial.mapLines, Partial.unquoted, found]
    rw [← filterMap_column?_mapLine, hitems, filterMap_column?_mapLine, hsame, hindexes, hnote]

theorem readsLines_tablePartial {p : Partial} (hp : ∀ c ∈ p.columns, c.Writable) :
    ReadsLines Token.opensEntry .endOfText (declaration .partials) (·.mapLines fun _ => 0) p.lines
      (.tablePartial p.unquoted) := by
  have hcolumns : ∀ c ∈ p.columns, ReadsItem false c.pieces (.column (id c)) := fun c hc =>
    readsItem_column c.name c.type (forall₂_columnSettings (hp c hc)) c.line false
  have h := readsLines_tablePartialOf hcolumns
  rwa [List.map_id] at h

/-- The line of a reference behind its keyword, with other settings. -/
def refPieces (r : Ref) (parts : List (List Piece)) : List Piece :=
  (r.name.map Piece.name).toList ++ .token .colon ::
    ((r.left.map Endpoint.pieces).getD []
      ++ .token r.relation.token :: (r.right.map Endpoint.pieces).getD [] ++ settingPieces parts)

theorem pieces_ref (r : Ref) : r.pieces = .keyword "Ref" :: refPieces r
    (actionSetting "delete" r.onDelete ++ actionSetting "update" r.onUpdate) := by
  simp only [Ref.pieces, refPieces, List.append_assoc, List.cons_append, List.nil_append]

theorem takes_refDeclaration {r : Ref} (hleft : ∀ e ∈ r.left, e.Writable)
    (hright : ∀ e ∈ r.right, e.Writable) {parts : List (List Piece)} {listed : List Setting}
    (h : List.Forall₂ (TakesSetting setting) parts listed)
    (hrest : Follows Token.opensEntry (k + 1) rest) :
    Takes refDeclaration k (refPieces r parts) [(refOfSettings r listed).mapLine fun _ => k]
      rest := by
  have hbody : Takes (do skip; return [← refBody r.name] : Reader (List Ref)) k (.token .colon :: _)
      [(refOfSettings r listed).mapLine fun _ => k] rest :=
    .cons (takes_skip _) (.before (takes_refBodyOf hleft hright h hrest) (.done _))
  have hname : ∀ others, Takes (optional (·.atName) name) k (r.name.map Piece.name).toList r.name
      (⟨.colon, k⟩ :: others) := by
    intro others
    cases r.name with
    | none => exact .absent rfl
    | some n => exact .optional rfl (takes_name n)
  exact .bind (hname _) hbody

/-- A reference is read with the actions that its settings list. -/
theorem readsLines_refOf {r : Ref} (hleft : ∀ e ∈ r.left, e.Writable)
    (hright : ∀ e ∈ r.right, e.Writable) {parts : List (List Piece)} {listed : List Setting}
    (h : List.Forall₂ (TakesSetting setting) parts listed) :
    ReadsLines Token.opensEntry .endOfText (declaration .partials) (·.mapLines fun _ => 0)
      [.keyword "Ref" :: refPieces r parts] (.refs [refOfSettings r listed]) := by
  refine .of_line rfl nofun fun k rest hrest =>
    ⟨.refs [(refOfSettings r listed).mapLine fun _ => k], fun l => ?_, rfl⟩
  exact (bind_of_ok (takes_refDeclaration hleft hright h hrest) fun rs =>
    pure (Declaration.refs rs)).trans rfl

theorem readsLines_ref {r : Ref} (hr : r.Writable) :
    ReadsLines Token.opensEntry .endOfText (declaration .partials) (·.mapLines fun _ => 0)
      [r.pieces] (.refs [r]) := by
  have h := readsLines_refOf hr.left hr.right (List.rel_append
    (forall₂_actionSetting "delete" rfl hr.onDelete)
    (forall₂_actionSetting "update" rfl hr.onUpdate))
  rwa [← pieces_ref, refOfSettings_actions] at h

theorem readsLines_enumeration (e : Enumeration) :
    ReadsLines Token.opensEntry .endOfText (declaration .partials) (·.mapLines fun _ => 0) e.lines
      (.enumeration e.unquoted) := by
  refine ⟨⟨_, _, _, rfl, rfl, nofun⟩, fun k l rest _ => ?_⟩
  obtain ⟨body, values, l', hlines, hread, hsame⟩ :=
    braced_written (fun v (_ : v ∈ e.values) => readsLines_enumValue v) rfl
      (.keyword "Enum" :: qualifiedPieces e.schema e.name) k rest
  rw [List.map_id, List.map_id] at hsame
  subst hsame
  have hname : Takes qualifiedName k (qualifiedPieces e.schema e.name) (e.schema, e.name)
      (⟨.openBrace, k⟩ :: body) := takes_qualifiedName _ _ rfl
  have henumeration : enumeration ⟨(qualifiedPieces e.schema e.name).map (lexeme k) ++
      ⟨.openBrace, k⟩ :: body, k⟩ = .ok (e.unquoted, ⟨rest, l'⟩) := by
    rw [enumeration, bind_of_ok hname]
    exact (bind_of_ok hread _).trans rfl
  refine ⟨.enumeration e.unquoted, l', ?_, rfl⟩
  rw [Enumeration.lines, List.map_eq_flatMap, hlines]
  exact (bind_of_ok henumeration fun e => pure (Declaration.enumeration e)).trans rfl

/-- The entries that a project is written with. -/
def projectEntries (p : Project) : List ProjectEntry :=
  (p.databaseType.map (ProjectEntry.value "database_type")).toList
    ++ (p.note.map ProjectEntry.note).toList

/-- The lines of an entry of a project. -/
def projectEntryLines : ProjectEntry → List (List Piece)
  | .value key value => [[.keyword key, .token .colon, .string value]]
  | .note text => [[.keyword "Note", .token .colon, .string text]]

theorem readsLines_projectEntry {p : Project} {e : ProjectEntry} (he : e ∈ projectEntries p) :
    ReadsLines (fun _ => true) .closeBrace projectEntry id (projectEntryLines e) e := by
  rcases List.mem_append.mp he with he | he
  · obtain ⟨value, -, rfl⟩ := Option.map_eq_some_iff.mp (Option.mem_toList.mp he)
    exact .of_line rfl nofun fun k rest _ => ⟨_, fun _ => rfl, rfl⟩
  · obtain ⟨text, -, rfl⟩ := Option.map_eq_some_iff.mp (Option.mem_toList.mp he)
    exact .of_line rfl nofun fun k rest _ => ⟨_, fun _ => rfl, rfl⟩

theorem readsLines_project (p : Project) :
    ReadsLines Token.opensEntry .endOfText (declaration .partials) (·.mapLines fun _ => 0) p.lines
      (.project p) := by
  refine ⟨⟨_, _, _, rfl, rfl, nofun⟩, fun k l rest _ => ?_⟩
  obtain ⟨body, entries, l', hlines, hread, hsame⟩ :=
    braced_written (fun e he => readsLines_projectEntry (p := p) he) rfl
      (.keyword "Project" :: (p.name.map Piece.name).toList) k rest
  rw [List.map_id, List.map_id, List.map_id'] at hsame
  subst hsame
  have hbody : (projectEntries p).flatMap projectEntryLines =
      (p.databaseType.map fun t => [.keyword "database_type", .token .colon, .string t]).toList
        ++ noteLine p.note := by
    obtain ⟨name, databaseType, note⟩ := p
    cases databaseType <;> cases note <;> rfl
  have hentries : Project.ofEntries p.name (projectEntries p) = p := by
    obtain ⟨name, databaseType, note⟩ := p
    cases databaseType <;> cases note <;> rfl
  have hname : Takes (optional (·.atName) name) k (p.name.map Piece.name).toList p.name
      (⟨.openBrace, k⟩ :: body) := by
    cases p.name with
    | none => exact .absent rfl
    | some n => exact .optional rfl (takes_name n)
  have hproject : project ⟨(p.name.map Piece.name).toList.map (lexeme k) ++
      ⟨.openBrace, k⟩ :: body, k⟩ = .ok (p, ⟨rest, l'⟩) := by
    rw [project, bind_of_ok hname]
    refine (bind_of_ok hread _).trans ?_
    rw [hentries]
    rfl
  refine ⟨.project p, l', ?_, rfl⟩
  rw [Project.lines, ← hbody, hlines]
  exact (bind_of_ok hproject fun p => pure (Declaration.project p)).trans rfl

end Reader

/-! ### Documents -/

/-- The lines of a declaration. -/
def Declaration.lines : Declaration → List (List Piece)
  | .project p => p.lines
  | .tablePartial p => p.lines
  | .table t => t.lines
  | .refs rs => rs.map Ref.pieces
  | .enumeration e => e.lines

/-- The lines of a declaration, in which tables have notes in their headings. -/
def Declaration.headedLines (headings : Table → Option String) : Declaration → List (List Piece)
  | .table t => t.headedLines (headings t)
  | declared => declared.lines

theorem Declaration.headedLines_none : headedLines (fun _ => none) = lines := by
  funext declared
  cases declared with
  | table t => exact t.headedLines_none
  | project | tablePartial | refs | enumeration => rfl

/-- What a declaration is read as. -/
def Declaration.readBack (headings : Table → Option String) : Declaration → Declaration
  | .tablePartial p => .tablePartial p.unquoted
  | .table t => .table (t.unquoted.headed ((headings t).map unquote))
  | .enumeration e => .enumeration e.unquoted
  | declared => declared

namespace Document

/-- The declarations that a document is written with. -/
def declarations (d : Document) : List Declaration :=
  (d.project.map Declaration.project).toList ++ d.tables.map .table
    ++ d.partials.map .tablePartial ++ d.refs.map (fun r => .refs [r]) ++ d.enums.map .enumeration

variable (d : Document)

theorem lines_headed (headings : Table → Option String) :
    d.declarations.flatMap (Declaration.headedLines headings) = d.headedLines headings := by
  have hproject : (d.project.map Declaration.project).toList.flatMap
      (Declaration.headedLines headings) = (d.project.map Project.lines).getD [] := by
    cases d.project <;> simp [Declaration.headedLines, Declaration.lines]
  simp only [declarations, headedLines, List.flatMap_append, List.flatMap_map, hproject]
  simp [Declaration.headedLines, Declaration.lines, List.map_eq_flatMap]

theorem lines_declarations : d.declarations.flatMap Declaration.lines = d.lines := by
  rw [← d.headedLines_none, ← lines_headed, Declaration.headedLines_none]

/-- Declarations of one kind make up a document that declares them and nothing else. -/
theorem ofDeclarations_map {α : Type} {f : α → Declaration} {g : List α → Document}
    (hnil : ofDeclarations [] = g [])
    (hcons : ∀ a as, (ofDeclarations [f a]).followedBy (g as) = g (a :: as)) (as : List α) :
    ofDeclarations (as.map f) = g as := by
  induction as with
  | nil => exact hnil
  | cons a as ih =>
    rw [List.map_cons, ← hcons, ← ih, ← ofDeclarations_append, List.singleton_append]

theorem ofDeclarations_declarations : ofDeclarations d.declarations = d := by
  have hproject : ofDeclarations (d.project.map Declaration.project).toList =
      ⟨d.project, [], [], [], []⟩ := by
    cases d.project <;> rfl
  have htables : ofDeclarations (d.tables.map .table) = ⟨none, d.tables, [], [], []⟩ :=
    ofDeclarations_map (g := fun ts => ⟨none, ts, [], [], []⟩) rfl (fun _ _ => rfl) _
  have hpartials : ofDeclarations (d.partials.map .tablePartial) =
      ⟨none, [], d.partials, [], []⟩ :=
    ofDeclarations_map (g := fun ps => ⟨none, [], ps, [], []⟩) rfl (fun _ _ => rfl) _
  have hrefs : ofDeclarations (d.refs.map fun r => .refs [r]) = ⟨none, [], [], d.refs, []⟩ :=
    ofDeclarations_map (g := fun rs => ⟨none, [], [], rs, []⟩) rfl (fun _ _ => rfl) _
  have henums : ofDeclarations (d.enums.map .enumeration) = ⟨none, [], [], [], d.enums⟩ :=
    ofDeclarations_map (g := fun es => ⟨none, [], [], [], es⟩) rfl (fun _ _ => rfl) _
  rw [declarations, ofDeclarations_append, ofDeclarations_append, ofDeclarations_append,
    ofDeclarations_append, hproject, htables, hpartials, hrefs, henums]
  simp [followedBy]

/-- Declarations are read as they were written, but for quotes at the ends of texts among
settings. -/
theorem readsLines_headed {d : Document} (hd : d.WritableUpToQuotes)
    (headings : Table → Option String) : ∀ declared ∈ d.declarations,
      Reader.ReadsLines Token.opensEntry .endOfText (Reader.declaration .partials)
        (·.mapLines fun _ => 0) (declared.headedLines headings) (declared.readBack headings) := by
  simp only [declarations, List.forall_mem_append, List.forall_mem_map]
  refine ⟨⟨⟨⟨?_, fun t ht => Reader.readsLines_table (hd.tables t ht) (headings t)⟩,
    fun p hp => Reader.readsLines_tablePartial (hd.partials p hp)⟩,
    fun r hr => Reader.readsLines_ref (hd.refs r hr)⟩,
    fun e _ => Reader.readsLines_enumeration e⟩
  intro declared hdeclared
  obtain ⟨p, -, rfl⟩ := Option.map_eq_some_iff.mp (Option.mem_toList.mp hdeclared)
  exact Reader.readsLines_project p

theorem map_readBack_declarations (headings : Table → Option String) :
    d.declarations.map (Declaration.readBack headings) = (d.readBack headings).declarations := by
  have hproject : (d.project.map Declaration.project).toList.map (Declaration.readBack headings) =
      (d.project.map Declaration.project).toList := by
    cases d.project <;> rfl
  simp only [declarations, List.map_append, List.map_map, hproject]
  simp [readBack, Declaration.readBack, Function.comp_def]

theorem readsLines_declarations {d : Document} (hd : d.Writable) :
    ∀ declared ∈ d.declarations, Reader.ReadsLines Token.opensEntry .endOfText
      (Reader.declaration .partials) (·.mapLines fun _ => 0) declared.lines declared := by
  intro declared hdeclared
  have hread := readsLines_headed hd.upToQuotes (fun _ => none) declared hdeclared
  have hsame : d.declarations.map (Declaration.readBack fun _ => none) = d.declarations := by
    rw [map_readBack_declarations, hd.readBack_none]
  rwa [Declaration.headedLines_none, map_eq_self_iff.mp hsame declared hdeclared] at hread

/-- Declarations that are read from lines of their own make up the document that is read from all of
the lines. -/
theorem exists_parse_writtenLines {declared : List Declaration}
    {lines : Declaration → List (List Piece)} {read : Declaration → Declaration}
    (hreads : ∀ x ∈ declared, Reader.ReadsLines Token.opensEntry .endOfText
      (Reader.declaration .partials) (·.mapLines fun _ => 0) (lines x) (read x))
    (hreadable : ∀ line ∈ declared.flatMap lines, Piece.AllReadable line) :
    ∃ d, parse .partials (writtenLines (declared.flatMap lines)) = .ok d ∧
      d.mapLines (fun _ => 0) = (ofDeclarations (declared.map read)).mapLines fun _ => 0 := by
  obtain ⟨e, hscan⟩ := scan_writtenLines _ hreadable
  obtain ⟨found, l, hrounds, hsame⟩ :=
    Reader.rounds_written hreads rfl (k := 1) (m := e) (.inl rfl) 1 []
  have hread : Reader.declarations .partials
      ⟨lexemesFrom 1 (declared.flatMap lines) ++ [⟨.endOfText, e⟩], 1⟩ = .ok (found, _) :=
    Reader.manyWhile_of_rounds hrounds
  refine ⟨ofDeclarations found, parse_eq_ok_iff.mpr ⟨_, found, _, hscan, hread, rfl⟩, ?_⟩
  rw [← ofDeclarations_mapLines, hsame, ofDeclarations_mapLines]

/-- **Reading inverts writing.** A written document is read as that document, up to the lines on
which its declarations stand. -/
theorem parse_written {d : Document} (hd : d.Writable) :
    (parse .partials d.written).map (·.mapLines fun _ => 0) = .ok (d.mapLines fun _ => 0) := by
  obtain ⟨e, hscan⟩ := d.scan_written
  obtain ⟨declared, l, hrounds, hsame⟩ :=
    Reader.rounds_lines (readsLines_declarations hd) rfl (k := 1) (m := e) (.inl rfl) 1 []
  rw [lines_declarations] at hrounds
  have hread : Reader.declarations .partials ⟨lexemesFrom 1 d.lines ++ [⟨.endOfText, e⟩], 1⟩ =
      .ok (declared, _) := Reader.manyWhile_of_rounds hrounds
  have hdocument : (ofDeclarations declared).mapLines (fun _ => 0) = d.mapLines fun _ => 0 := by
    rw [← ofDeclarations_mapLines, hsame, ofDeclarations_mapLines, ofDeclarations_declarations]
  rw [parse_eq_ok_iff.mpr ⟨_, declared, _, hscan, hread, rfl⟩]
  exact congrArg Except.ok hdocument

/-- A document with names and texts that look like other parts of a document. -/
def disguised : Document where
  project := some ⟨some "Table", some "'a' \\", some "a\nb"⟩
  tables := [
    ⟨some "", "Ref", some "as", [
      .column ⟨"note", some "int[]", [.note "'", .default "not", .notNull], 0⟩,
      .marker "~x" 0,
      .column ⟨"indexes", none, [.ref ⟨.manyToMany, ⟨some "a.b", "\"", ["", "\n"]⟩⟩], 0⟩,
      .column ⟨"", none, [], 0⟩],
      [⟨["a", "\x60b\x60"], true, true, some "a'b"⟩, ⟨[], false, false, none⟩], some "\x7d", 0⟩]
  partials := [⟨"\x7d", [⟨"[pk]", some "", [.primaryKey], 0⟩], [], some ""⟩]
  refs := [
    ⟨some "Ref", none, .oneToMany, none, some "set null", none, 0⟩,
    ⟨none, some ⟨none, "a", []⟩, .manyToOne, some ⟨none, "Table", ["Ref"]⟩, none, some ":", 0⟩]
  enums := [⟨none, "Enum", [⟨"note", some "it's"⟩, ⟨"//", none⟩]⟩]

theorem parse_written_disguised :
    disguised.Writable ∧ (parse .partials disguised.written).map (·.mapLines fun _ => 0) =
      .ok (disguised.mapLines fun _ => 0) := by
  have h : disguised.Writable := by decide +kernel
  exact ⟨h, parse_written h⟩

example :
    written ⟨none, [⟨none, "t", none, [.column ⟨"x", some "int", [.primaryKey, .default "0"], 1⟩],
      [⟨["x"], false, true, none⟩], some "it's", 1⟩], [], [], []⟩ =
    "\n".intercalate ["Table \"t\" \x7b", "\"x\" \"int\" [ pk , default : \"0\" ]", "indexes \x7b",
      "( \"x\" ) [ unique ]", "\x7d", "Note : 'it\\'s'", "\x7d"] := by
  decide +kernel

end Document

end SchemaGraph
