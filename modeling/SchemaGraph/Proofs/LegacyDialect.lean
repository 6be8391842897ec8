import SchemaGraph.Proofs.LocalizedReaders

/-!
# The dialect without partials

A text uses partials where it declares one and where a marker injects one (`partialUses`), and each
use is opened by a token of the text: a keyword or a tilde (`partialUses_opened`). The legacy
dialect reads as the newer one does up to the first such place and stops there (`Curbed`): what it
reads is what the newer dialect reads without a use of partials, and it never finds another fault
than the newer dialect does (`legacy_reads_partial_free`).
-/

namespace SchemaGraph

/-- A place where partials are used. -/
structure PartialUse where
  construct : PartialConstruct
  line : Nat
  deriving DecidableEq, Repr

/-- A use of partials is opened by a keyword or a tilde on its line. -/
structure PartialUse.OpenedBy (use : PartialUse) (x : Lexeme) : Prop where
  token : use.construct = .declaration ∧ x.token.isKeyword "TablePartial" = true ∨
    use.construct = .injection ∧ x.token = .tilde
  line : x.line = use.line

/-- What the legacy dialect says of a use of partials. -/
def PartialUse.error (use : PartialUse) : ParseError :=
  .unsupported use.construct .legacy use.line

/-- The use of partials that an item of a table is. -/
def TableItem.uses : TableItem → List PartialUse
  | .column _ => []
  | .marker _ line => [⟨.injection, line⟩]

/-- The use of partials that an entry is. -/
def BodyEntry.uses : BodyEntry → List PartialUse
  | .marker _ line => [⟨.injection, line⟩]
  | _ => []

/-- The uses of partials in a declaration whose keyword stands on line `line`. -/
def Declaration.uses (line : Nat) : Declaration → List PartialUse
  | .tablePartial _ => [⟨.declaration, line⟩]
  | .table t => t.items.flatMap TableItem.uses
  | _ => []

/-- A declaration with the line of its keyword. -/
structure PlacedDeclaration where
  line : Nat
  declaration : Declaration
  deriving DecidableEq, Repr

/-- The uses of partials in a declaration. -/
def PlacedDeclaration.uses (p : PlacedDeclaration) : List PartialUse :=
  p.declaration.uses p.line

/-- A document that neither declares nor injects a partial. -/
def Document.PartialFree (d : Document) : Prop :=
  d.partials = [] ∧ ∀ t ∈ d.tables, ∀ item ∈ t.items, ∃ c, item = .column c

namespace Reader

/-- Read a declaration and keep the line of its keyword. -/
def placedDeclaration (dialect : Dialect) : Reader PlacedDeclaration := do
  let head ← next
  return ⟨head.line, ← declaration dialect⟩

/-- Read declarations up to the end of the text, with the lines of their keywords. -/
def placedDeclarations (dialect : Dialect) : Reader (List PlacedDeclaration) :=
  manyUntil .endOfText (placedDeclaration dialect)

end Reader

/-- The declarations of a text in the dialect with partials, with the lines of their keywords. -/
def placedDeclarations (text : String) : Except ParseError (List PlacedDeclaration) := do
  let lexemes ← (scan text).mapError .scan
  return (← Reader.placedDeclarations .partials ⟨lexemes, 1⟩).1

/-- The places where a text uses partials, in order. -/
def partialUses (text : String) : List PartialUse :=
  match placedDeclarations text with
  | .ok declared => declared.flatMap PlacedDeclaration.uses
  | .error _ => []

/-! ### Reading up to the first use -/

/-- What is built of something else last is built. -/
theorem Reader.exists_of_bind_pure {α β : Type} {r : Reader α} {f : α → β} {b : β}
    {c stop : Cursor} (h : (do return f (← r) : Reader β) c = .ok (b, stop)) : ∃ a, f a = b := by
  obtain ⟨a, mid, -, h⟩ := Reader.bind_apply_eq_ok_iff.mp h
  cases h
  exact ⟨a, rfl⟩

/-- What the legacy dialect makes of something, next to what the newer one makes of it: the same, if
that uses no partials; it stops at the first use in it; and where the newer one fails, it has
stopped before, or fails for the same reason. -/
inductive Curbed {α : Type} (uses : α → List PartialUse) :
    Except ParseError (α × Cursor) → Except ParseError (α × Cursor) → Prop
  | free {a : α} {c : Cursor} (h : uses a = []) : Curbed uses (.ok (a, c)) (.ok (a, c))
  | stopped {use : PartialUse} {others : List PartialUse} {a : α} {c : Cursor}
      (h : uses a = use :: others) : Curbed uses (.error use.error) (.ok (a, c))
  | stoppedBefore {use : PartialUse} {e : ParseError} : Curbed uses (.error use.error) (.error e)
  | failed {e : ParseError} : Curbed uses (.error e) (.error e)

namespace Curbed

variable {α β : Type} {uses : α → List PartialUse} {usesAfter : β → List PartialUse}
  {r r' : Reader α} {c : Cursor}

/-- Whatever uses no partials is read alike. -/
theorem same {x : Except ParseError (α × Cursor)} (h : ∀ a mid, x = .ok (a, mid) → uses a = []) :
    Curbed uses x x := by
  cases x with
  | error e => exact .failed
  | ok p => exact .free (h p.1 p.2 rfl)

/-- One thing is read after another. -/
theorem bind (rest : α → β → List PartialUse) {f f' : α → Reader β} (h : Curbed uses (r c) (r' c))
    (hrest : ∀ a mid, Curbed (rest a) (f a mid) (f' a mid))
    (huses : ∀ a mid b stop, f' a mid = .ok (b, stop) → usesAfter b = uses a ++ rest a b) :
    Curbed usesAfter ((r >>= f) c) ((r' >>= f') c) := by
  rw [Reader.bind_apply, Reader.bind_apply]
  generalize r c = x at h
  generalize r' c = x' at h
  cases h with
  | failed => exact .failed
  | stoppedBefore => exact .stoppedBefore
  | @free a mid ha =>
    have h := hrest a mid
    have hab := huses a mid
    change Curbed usesAfter (f a mid) (f' a mid)
    generalize f a mid = y at h
    generalize f' a mid = y' at h hab
    cases h with
    | failed => exact .failed
    | stoppedBefore => exact .stoppedBefore
    | free hb => exact .free (by rw [hab _ _ rfl, ha, hb, List.append_nil])
    | stopped hb => exact .stopped (by rw [hab _ _ rfl, ha, hb, List.nil_append])
  | @stopped use others a mid ha =>
    change Curbed usesAfter (.error use.error) (f' a mid)
    have hab := huses a mid
    generalize f' a mid = y' at hab
    cases y' with
    | error e => exact .stoppedBefore
    | ok p => exact .stopped (by rw [hab _ _ rfl, ha, List.cons_append])

/-- Something that is read alike comes first. -/
theorem after {f f' : α → Reader β} (h : ∀ a mid, Curbed usesAfter (f a mid) (f' a mid)) :
    Curbed usesAfter ((r >>= f) c) ((r >>= f') c) := by
  have hfirst : Curbed (fun _ => []) (r c) (r c) := same fun _ _ _ => rfl
  exact bind (fun _ => usesAfter) hfirst h fun _ _ _ _ _ => rfl

/-- What comes last is read alike and uses no partials. -/
theorem before {f : α → Reader β} (h : Curbed uses (r c) (r' c))
    (huses : ∀ a mid b stop, f a mid = .ok (b, stop) → usesAfter b = uses a) :
    Curbed usesAfter ((r >>= f) c) ((r' >>= f) c) := by
  refine bind (fun _ _ => []) h (fun _ _ => same fun _ _ _ => rfl) ?_
  intro a mid b stop hb
  rw [huses a mid b stop hb, List.append_nil]

theorem manyRounds {condition : Cursor → Bool} (h : ∀ c, Curbed uses (r c) (r' c)) (rounds : Nat)
    (c : Cursor) : Curbed (List.flatMap uses) (Reader.manyRounds condition r rounds c)
      (Reader.manyRounds condition r' rounds c) := by
  induction rounds generalizing c with
  | zero => exact .free rfl
  | succ rounds ih =>
    cases hc : condition c with
    | false =>
      rw [Reader.manyRounds_succ_of_false hc, Reader.manyRounds_succ_of_false hc]
      exact .free rfl
    | true =>
      rw [Reader.manyRounds_succ_of_true hc, Reader.manyRounds_succ_of_true hc]
      refine bind (fun _ as => as.tail.flatMap uses) (h c) (fun a mid => ?_) ?_
      · refine before (ih mid) ?_
        rintro as mid' b stop hb
        cases hb
        rfl
      · rintro a mid b stop hb
        obtain ⟨as, rfl⟩ := Reader.exists_of_bind_pure hb
        rfl

/-- Of a list, what the legacy dialect reads ends at the first use in it. -/
theorem manyUntil {close : Token} (h : ∀ c, Curbed uses (r c) (r' c)) (c : Cursor) :
    Curbed (List.flatMap uses) (Reader.manyUntil close r c) (Reader.manyUntil close r' c) :=
  manyRounds h _ c

theorem braced (h : ∀ c, Curbed uses (r c) (r' c)) (c : Cursor) :
    Curbed (List.flatMap uses) (Reader.braced r c) (Reader.braced r' c) := by
  refine after fun _ mid => before (manyUntil h mid) ?_
  intro as mid b stop hb
  obtain ⟨-, rfl⟩ := Reader.exists_of_bind_pure hb
  rfl

end Curbed

/-! ### What opens a use -/

/-- **A reader takes what opens the uses** in what it reads: among the lexemes that it takes are
those that open these uses, in order. -/
def Opens {α : Type} (uses : α → List PartialUse) (c : Cursor) (r : Reader α) : Prop :=
  ∀ a c', r c = .ok (a, c') → ∃ taken, c.Reaches taken c' ∧
    List.SublistForall₂ PartialUse.OpenedBy (uses a) taken

namespace Opens

variable {α β : Type} {uses : α → List PartialUse} {usesAfter : β → List PartialUse}
  {r : Reader α} {f : α → Reader β} {c : Cursor}

/-- Where nothing is used, nothing has to open it. -/
theorem nothing (hr : Localizes c r) (h : ∀ a c', r c = .ok (a, c') → uses a = []) :
    Opens uses c r := by
  intro a c' ha
  obtain ⟨taken, hreach⟩ := hr.ok ha
  rw [h a c' ha]
  exact ⟨taken, hreach, .nil⟩

/-- One thing is read after another. -/
theorem bind (rest : α → β → List PartialUse) (h : Opens uses c r)
    (hrest : ∀ a mid, Opens (rest a) mid (f a))
    (huses : ∀ a mid b stop, f a mid = .ok (b, stop) → usesAfter b = uses a ++ rest a b) :
    Opens usesAfter c (r >>= f) := by
  intro b stop hb
  obtain ⟨a, mid, ha, hb⟩ := Reader.bind_apply_eq_ok_iff.mp hb
  obtain ⟨taken, hreach, hopened⟩ := h a mid ha
  obtain ⟨taken', hreach', hopened'⟩ := hrest a mid b stop hb
  rw [huses a mid b stop hb]
  exact ⟨taken ++ taken', hreach.trans hreach', sublistForall₂_append hopened hopened'⟩

/-- Something in which nothing is used comes first. -/
theorem after (hr : Localizes c r) (h : ∀ a mid, Opens usesAfter mid (f a)) :
    Opens usesAfter c (r >>= f) := by
  have hfirst : Opens (fun _ => []) c r := nothing hr fun _ _ _ => rfl
  exact bind (fun _ => usesAfter) hfirst h fun _ _ _ _ _ => rfl

/-- Something in which nothing more is used comes last. -/
theorem before (h : Opens uses c r) (hf : ∀ a mid, Localizes mid (f a))
    (huses : ∀ a mid b stop, f a mid = .ok (b, stop) → usesAfter b = uses a) :
    Opens usesAfter c (r >>= f) := by
  refine bind (fun _ _ => []) h (fun a mid => nothing (hf a mid) fun _ _ _ => rfl) ?_
  intro a mid b stop hb
  rw [huses a mid b stop hb, List.append_nil]

theorem manyRounds {condition : Cursor → Bool} (h : ∀ c, Opens uses c r) (rounds : Nat)
    (c : Cursor) : Opens (List.flatMap uses) c (Reader.manyRounds condition r rounds) := by
  induction rounds generalizing c with
  | zero => exact nothing (.give []) fun _ _ has => by cases has; rfl
  | succ rounds ih =>
    intro as c' has
    cases hc : condition c with
    | false =>
      rw [Reader.manyRounds_succ_of_false hc] at has
      cases has
      exact ⟨[], .here, .nil⟩
    | true =>
      rw [Reader.manyRounds_succ_of_true hc] at has
      refine bind (fun _ as => as.tail.flatMap uses) (h c) (fun a mid => ?_) ?_ as c' has
      · refine before (ih mid) (fun _ _ => .give _) ?_
        rintro as mid' b stop hb
        cases hb
        rfl
      · rintro a mid b stop hb
        obtain ⟨as, rfl⟩ := Reader.exists_of_bind_pure hb
        rfl

theorem manyUntil {close : Token} (h : ∀ c, Opens uses c r) (c : Cursor) :
    Opens (List.flatMap uses) c (Reader.manyUntil close r) :=
  fun _ _ ha => manyRounds h _ c _ _ ha

theorem braced (h : ∀ c, Opens uses c r) (c : Cursor) :
    Opens (List.flatMap uses) c (Reader.braced r) := by
  refine after (Reader.localizes_expect _ _) fun _ mid => before (manyUntil h mid)
    (fun as stop => (Reader.localizes_expect _ _).bind fun _ _ => .give as) ?_
  intro as mid b stop hb
  obtain ⟨-, rfl⟩ := Reader.exists_of_bind_pure hb
  rfl

/-- The next lexeme opens the only use, if there is one. -/
theorem atMostNext {uses : List PartialUse} {Good : α → Cursor → Prop} {a : α} {c' : Cursor}
    (hr : Traverses (fun _ => True) 1 0 0 Good c r) (ha : r c = .ok (a, c'))
    (h : uses = [] ∨ ∃ use, uses = [use] ∧ use.OpenedBy c.next) :
    ∃ taken, c.Reaches taken c' ∧ List.SublistForall₂ PartialUse.OpenedBy uses taken := by
  obtain ⟨-, taken, hreach, hlength, -⟩ := hr.ok (Cursor.within_anywhere c) ha
  refine ⟨taken, hreach, ?_⟩
  rcases h with rfl | ⟨use, rfl, hopened⟩
  · exact .nil
  · cases hreach with
    | here => cases hlength
    | take _ => exact .cons hopened .nil

end Opens

/-! ### Declarations -/

namespace Reader

variable {α β : Type}

theorem requirePartials_legacy_bind (construct : PartialConstruct) (line : Nat)
    (f : Unit → Reader α) (c : Cursor) :
    (requirePartials .legacy construct line >>= f) c =
      .error (PartialUse.error ⟨construct, line⟩) := rfl

theorem requirePartials_partials_bind (construct : PartialConstruct) (line : Nat)
    (f : Unit → Reader α) (c : Cursor) :
    (requirePartials .partials construct line >>= f) c = f () c := rfl

theorem curbed_bodyEntry (c : Cursor) :
    Curbed BodyEntry.uses (bodyEntry .legacy true c) (bodyEntry .partials true c) := by
  unfold bodyEntry
  simp only [next_bind, second_bind, ite_apply, if_true]
  split_ifs
  · exact .failed
  · -- a marker, which the one dialect refuses and the other one reads on
    rw [requirePartials_legacy_bind, requirePartials_partials_bind, skip_bind]
    cases hread : (do return .marker (← name) c.next.line : Reader BodyEntry) c.moved with
    | error e => exact .stoppedBefore
    | ok p =>
      obtain ⟨entry, stop⟩ := p
      obtain ⟨marked, rfl⟩ := exists_of_bind_pure hread
      exact .stopped rfl
  · refine .after fun _ mid => .same fun entry stop h => ?_
    obtain ⟨indexes, rfl⟩ := exists_of_bind_pure h
    rfl
  · refine .after fun _ mid => .same fun entry stop h => ?_
    obtain ⟨text, rfl⟩ := exists_of_bind_pure h
    rfl
  · refine .same fun entry stop h => ?_
    obtain ⟨read, rfl⟩ := exists_of_bind_pure h
    rfl

theorem uses_items (entries : List BodyEntry) :
    (BodyEntry.items entries).flatMap TableItem.uses = entries.flatMap BodyEntry.uses := by
  induction entries with
  | nil => rfl
  | cons entry entries ih =>
    rw [List.flatMap_cons, ← ih]
    cases entry <;> rfl

theorem curbed_table (line : Nat) (c : Cursor) :
    Curbed (fun t => t.items.flatMap TableItem.uses) (table .legacy line c)
      (table .partials line c) := by
  refine .after fun _ _ => .after fun _ _ => .after fun _ _ =>
    .before (Curbed.braced curbed_bodyEntry _) ?_
  rintro entries mid t stop h
  cases h
  exact uses_items entries

theorem curbed_declaration (c : Cursor) :
    Curbed (Declaration.uses c.next.line) (declaration .legacy c) (declaration .partials c) := by
  unfold declaration
  simp only [next_bind, ite_apply]
  split_ifs
  · refine .after fun _ mid => .same fun declared stop h => ?_
    obtain ⟨p, rfl⟩ := exists_of_bind_pure h
    rfl
  · rw [requirePartials_legacy_bind, requirePartials_partials_bind, skip_bind]
    cases hread : (do return .tablePartial (← tablePartial .partials) : Reader Declaration)
        c.moved with
    | error e => exact .stoppedBefore
    | ok p =>
      obtain ⟨declared, stop⟩ := p
      obtain ⟨group, rfl⟩ := exists_of_bind_pure hread
      exact .stopped rfl
  · refine .after fun _ mid => .before (curbed_table c.next.line mid) ?_
    rintro t mid declared stop h
    cases h
    rfl
  · refine .after fun _ mid => .same fun declared stop h => ?_
    obtain ⟨refs, rfl⟩ := exists_of_bind_pure h
    rfl
  · refine .after fun _ mid => .same fun declared stop h => ?_
    obtain ⟨enumeration, rfl⟩ := exists_of_bind_pure h
    rfl
  · exact .failed

theorem curbed_placedDeclaration (c : Cursor) :
    Curbed PlacedDeclaration.uses (placedDeclaration .legacy c)
      (placedDeclaration .partials c) := by
  unfold placedDeclaration
  rw [next_bind, next_bind]
  refine .before (curbed_declaration c) ?_
  rintro declared mid placed stop h
  cases h
  rfl

theorem curbed_placedDeclarations (c : Cursor) :
    Curbed (List.flatMap PlacedDeclaration.uses) (placedDeclarations .legacy c)
      (placedDeclarations .partials c) :=
  .manyUntil curbed_placedDeclaration c

theorem placedDeclaration_apply (dialect : Dialect) (c : Cursor) :
    placedDeclaration dialect c =
      (declaration dialect c).map fun p => (⟨c.next.line, p.1⟩, p.2) := by
  rw [placedDeclaration, next_bind, bind_apply]
  cases declaration dialect c <;> rfl

/-! ### Uses and lexemes -/

theorem opens_bodyEntry (c : Cursor) : Opens BodyEntry.uses c (bodyEntry .partials true) := by
  intro entry c' hread
  refine Opens.atMostNext (traverses_bodyEntry .partials true) hread ?_
  unfold bodyEntry at hread
  simp only [next_bind, second_bind, ite_apply, skip_bind, if_true] at hread
  split_ifs at hread with hend htilde
  · cases hread
  · rw [requirePartials_partials_bind, skip_bind] at hread
    obtain ⟨marked, rfl⟩ := exists_of_bind_pure hread
    exact .inr ⟨_, rfl, .inr ⟨rfl, htilde⟩, rfl⟩
  · obtain ⟨indexes, rfl⟩ := exists_of_bind_pure hread
    exact .inl rfl
  · obtain ⟨text, rfl⟩ := exists_of_bind_pure hread
    exact .inl rfl
  · obtain ⟨read, rfl⟩ := exists_of_bind_pure hread
    exact .inl rfl

theorem opens_table (line : Nat) (c : Cursor) :
    Opens (fun t => t.items.flatMap TableItem.uses) c (table .partials line) := by
  refine .after localizes_qualifiedName fun (schema, name) _ => ?_
  refine .after (.optional localizes_skip_name) fun shorthand _ => ?_
  refine .after localizes_headerSettings fun settings _ => ?_
  refine .before (Opens.braced opens_bodyEntry _) (fun _ _ => .give _) ?_
  rintro entries mid t stop h
  cases h
  exact uses_items entries

theorem opens_declaration (c : Cursor) :
    Opens (Declaration.uses c.next.line) c (declaration .partials) := by
  intro declared c' hread
  have h := hread
  unfold declaration at h
  simp only [next_bind, ite_apply] at h
  split_ifs at h with hproject hpartial htable href henum
  · rw [skip_bind] at h
    obtain ⟨p, rfl⟩ := exists_of_bind_pure h
    exact Opens.atMostNext (traverses_declaration .partials) hread (.inl rfl)
  · rw [requirePartials_partials_bind, skip_bind] at h
    obtain ⟨group, rfl⟩ := exists_of_bind_pure h
    exact Opens.atMostNext (traverses_declaration .partials) hread
      (.inr ⟨_, rfl, .inl ⟨rfl, hpartial⟩, rfl⟩)
  · -- the uses in a table are opened behind its keyword
    have htaken : Opens (Declaration.uses c.next.line) c (do
        skip
        return .table (← table .partials c.next.line)) := by
      refine .after .skip fun _ mid => .before (opens_table c.next.line mid) (fun _ _ => .give _) ?_
      rintro t mid declared stop h
      cases h
      rfl
    exact htaken declared c' h
  · rw [skip_bind] at h
    obtain ⟨refs, rfl⟩ := exists_of_bind_pure h
    exact Opens.atMostNext (traverses_declaration .partials) hread (.inl rfl)
  · rw [skip_bind] at h
    obtain ⟨enumeration, rfl⟩ := exists_of_bind_pure h
    exact Opens.atMostNext (traverses_declaration .partials) hread (.inl rfl)
  · cases h

theorem opens_placedDeclaration (c : Cursor) :
    Opens PlacedDeclaration.uses c (placedDeclaration .partials) := by
  intro placed c' h
  unfold placedDeclaration at h
  rw [next_bind] at h
  have hplaced : Opens PlacedDeclaration.uses c
      (do return ⟨c.next.line, ← declaration .partials⟩) := by
    refine .before (opens_declaration c) (fun _ _ => .give _) ?_
    rintro declared mid placed stop h
    cases h
    rfl
  exact hplaced placed c' h

/-- The lines of keywords can be forgotten. -/
theorem manyRounds_placedDeclaration (dialect : Dialect) (condition : Cursor → Bool) (rounds : Nat)
    (c : Cursor) : manyRounds condition (declaration dialect) rounds c =
      (manyRounds condition (placedDeclaration dialect) rounds c).map
        fun p => (p.1.map PlacedDeclaration.declaration, p.2) := by
  induction rounds generalizing c with
  | zero => rfl
  | succ rounds ih =>
    cases hc : condition c with
    | false =>
      rw [manyRounds_succ_of_false hc, manyRounds_succ_of_false hc]
      rfl
    | true =>
      rw [manyRounds_succ_of_true hc, manyRounds_succ_of_true hc]
      have hplaced := placedDeclaration_apply dialect c
      cases hd : declaration dialect c with
      | error e =>
        rw [hd] at hplaced
        rw [bind_of_error hd, bind_of_error hplaced]
        rfl
      | ok p =>
        rw [hd] at hplaced
        rw [bind_of_ok hd, bind_of_ok hplaced, bind_apply, bind_apply, ih]
        cases manyRounds condition (placedDeclaration dialect) rounds p.2 <;> rfl

theorem declarations_eq (dialect : Dialect) (c : Cursor) :
    declarations dialect c = (placedDeclarations dialect c).map
      fun p => (p.1.map PlacedDeclaration.declaration, p.2) :=
  manyRounds_placedDeclaration dialect _ _ c

end Reader

/-! ### Documents -/

/-- A declaration without uses of partials declares no partial, and a table without markers. -/
theorem uses_eq_nil_iff {line : Nat} {declared : Declaration} : declared.uses line = [] ↔
    declared.tablePartial? = none ∧
      ∀ t ∈ declared.table?, ∀ item ∈ t.items, ∃ c, item = .column c := by
  cases declared with
  | table t =>
    simp only [Declaration.uses, List.flatMap_eq_nil_iff, Declaration.tablePartial?,
      Declaration.table?, Option.mem_some_iff, forall_eq', true_and]
    refine forall₂_congr fun item _ => ?_
    cases item <;> simp [TableItem.uses]
  | project | tablePartial | refs | enumeration =>
    simp [Declaration.uses, Declaration.tablePartial?, Declaration.table?]

theorem partialFree_iff {declared : List PlacedDeclaration} :
    (Document.ofDeclarations (declared.map PlacedDeclaration.declaration)).PartialFree ↔
      declared.flatMap PlacedDeclaration.uses = [] := by
  simp only [Document.PartialFree, Document.ofDeclarations, List.filterMap_eq_nil_iff,
    List.mem_filterMap, List.flatMap_eq_nil_iff, PlacedDeclaration.uses, uses_eq_nil_iff,
    List.mem_map]
  constructor
  · rintro ⟨hpartials, htables⟩ p hp
    exact ⟨hpartials _ ⟨p, hp, rfl⟩, fun t ht => htables t ⟨p.declaration, ⟨p, hp, rfl⟩, ht⟩⟩
  · intro h
    refine ⟨?_, ?_⟩
    · rintro _ ⟨p, hp, rfl⟩
      exact (h p hp).1
    · rintro t ⟨_, ⟨p, hp, rfl⟩, ht⟩
      exact (h p hp).2 t ht

/-- The lines of keywords can be forgotten, and then a document is left. -/
theorem parse_eq_placed {lexemes : List Lexeme} {text : String} (h : scan text = .ok lexemes)
    (dialect : Dialect) : Document.parse dialect text =
      (Reader.placedDeclarations dialect ⟨lexemes, 1⟩).map
        fun p => .ofDeclarations (p.1.map PlacedDeclaration.declaration) := by
  rw [Document.parse_of_scan h, Reader.declarations_eq]
  cases Reader.placedDeclarations dialect ⟨lexemes, 1⟩ <;> rfl

theorem partialUses_eq {lexemes : List Lexeme} {text : String} (h : scan text = .ok lexemes)
    {declared : List PlacedDeclaration} {c : Cursor}
    (hread : Reader.placedDeclarations .partials ⟨lexemes, 1⟩ = .ok (declared, c)) :
    partialUses text = declared.flatMap PlacedDeclaration.uses := by
  have hplaced : placedDeclarations text = .ok declared := by
    rw [placedDeclarations, h]
    change (Reader.placedDeclarations .partials ⟨lexemes, 1⟩ >>= _ : Except ParseError _) = _
    rw [hread]
    rfl
  rw [partialUses, hplaced]

/-- **Every use of partials is opened by a token of the text**, and the uses are in the order of the
tokens that open them: the keyword that declares a partial, or the tilde that injects one. -/
theorem partialUses_opened {text : String} {lexemes : List Lexeme} (h : scan text = .ok lexemes) :
    List.SublistForall₂ PartialUse.OpenedBy (partialUses text) lexemes := by
  rw [partialUses]
  cases hplaced : placedDeclarations text with
  | error e => exact .nil
  | ok placed =>
    simp only [placedDeclarations, bind_eq_ok_iff, mapError_eq_ok_iff, pure_eq_ok_iff] at hplaced
    obtain ⟨_, hscan, ⟨declared, c⟩, hread, rfl⟩ := hplaced
    obtain rfl := Except.ok.inj (h.symm.trans hscan)
    obtain ⟨taken, hreach, hopened⟩ := Opens.manyUntil Reader.opens_placedDeclaration _ _ _ hread
    have hlexemes : lexemes = taken ++ c.ahead := hreach.ahead_eq
    have hall := sublistForall₂_append hopened (.nil (l := c.ahead))
    rwa [List.append_nil, ← hlexemes] at hall

/-- What the two dialects make of one text. -/
theorem parse_legacy_cases (text : String) :
    (∃ d, Document.parse .partials text = .ok d ∧ d.PartialFree ∧
        Document.parse .legacy text = .ok d) ∨
      (∃ d use others, Document.parse .partials text = .ok d ∧ ¬ d.PartialFree ∧
        partialUses text = use :: others ∧ Document.parse .legacy text = .error use.error) ∨
      ∃ e e', Document.parse .partials text = .error e ∧ Document.parse .legacy text = .error e' ∧
        (e' = e ∨ ∃ use : PartialUse, e' = use.error) := by
  cases hs : scan text with
  | error e =>
    exact .inr (.inr ⟨_, _, Document.parse_of_scan_error hs, Document.parse_of_scan_error hs,
      .inl rfl⟩)
  | ok lexemes =>
    rw [parse_eq_placed hs, parse_eq_placed hs]
    have hcurbed := Reader.curbed_placedDeclarations ⟨lexemes, 1⟩
    have huses := fun declared c => @partialUses_eq _ _ hs declared c
    generalize Reader.placedDeclarations .legacy ⟨lexemes, 1⟩ = x at hcurbed
    generalize Reader.placedDeclarations .partials ⟨lexemes, 1⟩ = x' at hcurbed huses
    cases hcurbed with
    | free h => exact .inl ⟨_, rfl, partialFree_iff.mpr h, rfl⟩
    | @stopped use others declared c h =>
      refine .inr (.inl ⟨_, use, others, rfl, ?_, (huses declared c rfl).trans h, rfl⟩)
      rw [partialFree_iff, h]
      exact List.cons_ne_nil _ _
    | stoppedBefore => exact .inr (.inr ⟨_, _, rfl, rfl, .inr ⟨_, rfl⟩⟩)
    | failed => exact .inr (.inr ⟨_, _, rfl, rfl, .inl rfl⟩)

/-- **The legacy dialect is the newer one without partials.** A text is a document of the legacy
dialect when it is the same document of the newer one, and that document neither declares nor
injects a partial. A text that is none is refused because partials are not supported, or for the
reason for which the newer dialect refuses it. A document of the newer dialect that uses partials is
refused where it first does, at the line of the keyword of the partial or of the marker. -/
theorem legacy_reads_partial_free (text : String) :
    (∀ d, Document.parse .legacy text = .ok d ↔
      Document.parse .partials text = .ok d ∧ d.PartialFree) ∧
    (∀ e, Document.parse .legacy text = .error e →
      (∃ construct line, e = .unsupported construct .legacy line) ∨
        Document.parse .partials text = .error e) ∧
    (∀ d, Document.parse .partials text = .ok d → ¬ d.PartialFree →
      ∃ use, (partialUses text).head? = some use ∧
        Document.parse .legacy text = .error (.unsupported use.construct .legacy use.line)) := by
  rcases parse_legacy_cases text with ⟨d, hfull, hfree, hlegacy⟩ |
    ⟨d, use, others, hfull, hused, huses, hlegacy⟩ | ⟨e, e', hfull, hlegacy, he⟩
  · rw [hfull, hlegacy]
    refine ⟨fun d' => ?_, ?_, ?_⟩
    · constructor
      · rintro ⟨⟩
        exact ⟨rfl, hfree⟩
      · exact fun h => h.1
    · rintro e ⟨⟩
    · rintro d' ⟨⟩ hused
      exact absurd hfree hused
  · rw [hfull, hlegacy, huses]
    refine ⟨fun d' => ?_, ?_, ?_⟩
    · constructor
      · rintro ⟨⟩
      · rintro ⟨⟨⟩, hfree⟩
        exact absurd hfree hused
    · rintro e ⟨⟩
      exact .inl ⟨use.construct, use.line, rfl⟩
    · rintro d' ⟨⟩ -
      exact ⟨use, rfl, rfl⟩
  · rw [hfull, hlegacy]
    refine ⟨fun d' => ?_, ?_, ?_⟩
    · constructor
      · rintro ⟨⟩
      · rintro ⟨⟨⟩, -⟩
    · rintro e₁ ⟨⟩
      rcases he with rfl | ⟨use, rfl⟩
      · exact .inr rfl
      · exact .inl ⟨use.construct, use.line, rfl⟩
    · rintro d' ⟨⟩

/-- A table with a marker, and behind it the partial that the marker injects. -/
def markedText : String :=
  "Table t \x7b\n  ~p\n\x7d\ntablepartial p \x7b\n  a\n\x7d"

/-- The marker comes first, and is what the legacy dialect stops at. -/
theorem legacy_reads_partial_free_marked :
    (∃ d, Document.parse .partials markedText = .ok d ∧ ¬ d.PartialFree) ∧
    partialUses markedText = [⟨.injection, 2⟩, ⟨.declaration, 4⟩] ∧
    Document.parse .legacy markedText = .error (.unsupported .injection .legacy 2) := by
  have heval : (Document.parse .partials markedText).toOption.map (·.partials.length) = some 1 := by
    decide +kernel
  have huses : partialUses markedText = [⟨.injection, 2⟩, ⟨.declaration, 4⟩] := by
    decide +kernel
  obtain ⟨d, hparse, hlength⟩ := exists_ok_of_map_toOption heval
  have hused : ¬ d.PartialFree := by
    rintro ⟨hnone, -⟩
    rw [hnone] at hlength
    cases hlength
  obtain ⟨use, hfirst, hlegacy⟩ := (legacy_reads_partial_free markedText).2.2 d hparse hused
  rw [huses] at hfirst
  cases hfirst
  exact ⟨⟨d, hparse, hused⟩, huses, hlegacy⟩

end SchemaGraph
