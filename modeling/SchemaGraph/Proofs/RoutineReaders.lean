import SchemaGraph.Proofs.Routines

/-!
# The readers do what their routines do

Every reader of the grammar does what the routine of its name does (`Performs`), and a round of any
loop takes at least one token more than there are rounds inside it (`Loop.performs`). A run of
tokens is read by a loop as well: each round takes a token that has an image.
-/

namespace SchemaGraph

namespace Reader

variable {α : Type} {c : Cursor}

/-! ### One token -/

theorem ne_endOfText_of_eq {t : Token} (h : c.next.token = t) (ht : t ≠ .endOfText) :
    c.next.token ≠ .endOfText := by
  rw [h]
  exact ht

theorem ne_endOfText_of_at? {t : Token} (h : c.at? t = true) (ht : t ≠ .endOfText) :
    c.next.token ≠ .endOfText :=
  ne_endOfText_of_eq (eq_of_beq h) ht

theorem ne_endOfText_of_isKeyword {keyword : String} (h : c.next.token.isKeyword keyword = true) :
    c.next.token ≠ .endOfText :=
  (Token.isPlain_iff.mp (Token.isPlain_of_isKeyword h)).2

theorem performs_name : Performs 1 Anything c Routine.name name := by
  refine .next ?_
  cases h : c.next.token with
  | name text => exact .skip (ne_endOfText_of_eq h nofun) (.give trivial)
  | _ => exact .unexpected _

theorem performs_text : Performs 1 Anything c Routine.text text := by
  refine .next ?_
  cases h : c.next.token with
  | name text | string text => exact .skip (ne_endOfText_of_eq h nofun) (.give trivial)
  | _ => exact .unexpected _

theorem performs_relation : Performs 1 Anything c Routine.relation relation := by
  refine .next ?_
  cases h : c.next.token with
  | greater | less | minus | diamond => exact .skip (ne_endOfText_of_eq h nofun) (.give trivial)
  | _ => exact .unexpected _

theorem performs_expect {t : Token} (ht : t ≠ .endOfText) (e : Expectation) :
    Performs 1 Anything c (Routine.expect t e) (expect t e) :=
  .next (.ite (fun h => (Performs.skip_last (ne_endOfText_of_eq h ht)).imp fun _ _ _ => trivial)
    fun _ => .unexpected e)

theorem performs_expectKeyword (keyword : String) :
    Performs 1 Anything c (Routine.expectKeyword keyword) (expectKeyword keyword) :=
  .next (.ite (fun h => (Performs.skip_last (ne_endOfText_of_isKeyword h)).imp fun _ _ _ => trivial)
    fun _ => .unexpected _)

theorem performs_separator : Performs 0 Anything c Routine.separator separator := by
  refine .next (.ite (fun h => ?_) fun _ => .ite (fun _ => .give trivial) fun _ =>
    (Performs.unexpected _).forget)
  exact (Performs.skip_last (ne_endOfText_of_eq h nofun)).anything

/-- A mark that is there, and a name. -/
theorem performs_skip_name (hend : c.next.token ≠ .endOfText) :
    Performs 1 Anything c (do Routine.skip; Routine.name) (do skip; name) :=
  .skip hend performs_name.forget

/-! ### Runs and lists -/

/-- A run of tokens is read round by round. -/
theorem rounds_run {f : Token → Option α} (hf : f .endOfText = none) (e : Expectation)
    (xs : List Lexeme) (l : Nat) : Rounds (fun c => (f c.next.token).isSome) (image f e) ⟨xs, l⟩
      (Cursor.run f xs l).1 (Cursor.run f xs l).2 := by
  induction xs generalizing l with
  | nil =>
    refine .stop ?_
    change (f .endOfText).isSome = false
    rw [hf]
    rfl
  | cons x xs ih =>
    rw [Cursor.run]
    cases hx : f x.token with
    | none => exact .stop (Option.isSome_eq_false_iff.mpr (Option.isNone_iff_eq_none.mpr hx))
    | some a =>
      have himage : image f e ⟨x :: xs, l⟩ = .ok (a, ⟨xs, x.line⟩) := by
        rw [image, next_bind]
        simp only [Cursor.next, List.headD_cons, hx]
        rfl
      exact .round (Option.isSome_iff_exists.mpr ⟨a, hx⟩) himage (Nat.lt_succ_self _) (ih x.line)

theorem run_eq_manyWhile {f : Token → Option α} (hf : f .endOfText = none) (e : Expectation) :
    run f c = manyWhile (fun c => (f c.next.token).isSome) (image f e) c :=
  (manyWhile_of_rounds (rounds_run hf e c.ahead c.lastLine)).symm

/-- A loop over the tokens of a run. -/
theorem performs_run (l : Loop α) {f : Token → Option α} {e : Expectation}
    (hf : f .endOfText = none) (hcondition : l.condition = fun c => (f c.next.token).isSome)
    (hroutine : l.routine = Routine.image f e) (hreader : l.reader = image f e) :
    Performs 0 Anything c (Routine.many l) (run f) := by
  refine .congr (run_eq_manyWhile hf e) ?_
  rw [← hcondition, ← hreader]
  refine (Performs.many l fun c _ => ?_).anything
  rw [hroutine, hreader]
  exact .image hf e

/-- The items of a loop between braces. -/
theorem performs_braced (l : Loop α) (hcondition : l.condition = fun c => !c.at? .closeBrace)
    (hround : ∀ c, Performs 1 Anything c l.routine l.reader) :
    Performs 1 Anything c (Routine.braced l) (braced l.reader) := by
  refine (performs_expect (by decide) _).bind fun _ c₁ _ => ?_
  have hmany := Performs.many (c := c₁) l fun c _ => hround c
  rw [hcondition] at hmany
  refine hmany.bind fun items c₂ _ => ?_
  exact (performs_expect (by decide) _).forget.bind fun _ _ _ => .give trivial

theorem performs_parted {p : Routine α} {r : Reader α} (hr : Performs 1 Anything c p r) :
    Performs 1 Anything c (Routine.parted p) (parted r) :=
  hr.bind fun _ _ _ => performs_separator.bind fun _ _ _ => .give trivial

/-- The settings of a loop between brackets. -/
theorem performs_bracketed (l : Loop α) {p : Routine α} {r : Reader α}
    (hcondition : l.condition = fun c => !c.at? .closeBracket)
    (hroutine : l.routine = Routine.parted p) (hreader : l.reader = parted r)
    (hr : ∀ c, Performs 1 Anything c p r) :
    Performs 1 Anything c (Routine.bracketed l) (bracketed r) := by
  refine (performs_expect (by decide) _).bind fun _ c₁ _ => ?_
  have hmany : Performs 0 _ c₁ (Routine.many l) _ := Performs.many l fun c _ => by
    rw [hroutine, hreader]
    exact performs_parted (hr c)
  rw [hcondition, hreader] at hmany
  refine hmany.bind fun items c₂ _ => ?_
  exact (performs_expect (by decide) _).forget.bind fun _ _ _ => .give trivial

/-! ### Endpoints and types -/

theorem performs_moreFields : Performs 0 Anything c (Routine.many .moreFields) moreFields :=
  (Performs.many .moreFields fun _ h =>
    performs_skip_name (ne_endOfText_of_at? h nofun)).anything

/-- Where the names end, a dot that is next stands before a parenthesis. -/
theorem performs_dottedNames : Performs 0 (fun _ c' => c'.at? .dot = true → c'.second = .openParen)
    c (Routine.many .dottedNames) dottedNames := by
  refine (Performs.many .dottedNames fun c h => ?_).imp fun _ c' hstop hdot => ?_
  · obtain ⟨hdot, -⟩ := Bool.and_eq_true_iff.mp h
    exact performs_skip_name (ne_endOfText_of_at? hdot nofun)
  · simpa [Loop.condition, hdot] using hstop

theorem performs_compositeFields (hdot : c.at? .dot = true) (hparen : c.second = .openParen) :
    Performs 1 Anything c Routine.compositeFields compositeFields := by
  -- what is taken unseen behind the dot is the parenthesis
  have hmoved : c.moved.next.token ≠ .endOfText := by
    rw [← Cursor.second_eq, hparen]
    nofun
  refine .skip (ne_endOfText_of_at? hdot nofun) (.forget (.skip hmoved ?_))
  refine performs_name.forget.bind fun first c₁ _ => ?_
  refine performs_moreFields.bind fun others c₂ _ => ?_
  exact (performs_expect (by decide) _).forget.bind fun _ _ _ => .give trivial

/-- A path that is too long stops an endpoint at its end. -/
theorem performs_ofPath? (path fields : List String) : Performs 0 Anything c
    (match Endpoint.ofPath? path fields with
      | some e => return e
      | none => .look fun c => .stop (.unexpected .dot .shortEndpoint c.lastLine) : Routine _)
    (match Endpoint.ofPath? path fields with
      | some e => return e
      | none => do throw (.unexpected .dot .shortEndpoint (← get).lastLine) : Reader _) := by
  cases Endpoint.ofPath? path fields with
  | some e => exact .give trivial
  | none => exact (Performs.stop (.look .stop) rfl).forget

theorem performs_endpoint : Performs 1 Anything c Routine.endpoint endpoint := by
  refine performs_name.bind fun first c₁ _ => performs_dottedNames.bind fun others c₂ hstop => ?_
  have hcomposite : Performs 0 Anything c₂
      (Routine.optional (·.at? .dot) Routine.compositeFields)
      (optional (·.at? .dot) compositeFields) :=
    .optional fun hdot => (performs_compositeFields hdot (hstop hdot)).forget
  refine hcomposite.bind fun composite c₃ _ => ?_
  cases composite with
  | none => exact performs_ofPath? _ _
  | some fields => exact performs_ofPath? _ _

theorem performs_typeQualifier :
    Performs 0 Anything c Routine.typeQualifier typeQualifier := by
  refine (Performs.optional fun hdot => ?_).bind fun _ _ _ => .give trivial
  refine .forget (.skip (ne_endOfText_of_at? hdot nofun) ?_)
  exact performs_name.forget.bind fun _ _ _ => .give trivial

theorem performs_typeArguments :
    Performs 0 Anything c Routine.typeArguments typeArguments := by
  refine (Performs.optional fun hparen => ?_).bind fun _ _ _ => .give trivial
  refine .forget (.skip (ne_endOfText_of_at? hparen nofun) ?_)
  refine (performs_run .typeArguments rfl rfl rfl rfl).bind fun parts c₁ _ => ?_
  exact (performs_expect (by decide) _).forget.bind fun _ _ _ => .give trivial

theorem performs_typeArray : Performs 0 Anything c Routine.typeArray typeArray := by
  refine (Performs.optional fun hbrackets => ?_).bind fun _ _ _ => .give trivial
  obtain ⟨hopen, hclose⟩ := Bool.and_eq_true_iff.mp hbrackets
  have hmoved : c.moved.next.token ≠ .endOfText := by
    rw [← Cursor.second_eq, eq_of_beq hclose]
    nofun
  exact .forget (.skip (ne_endOfText_of_at? hopen nofun)
    (.forget (.skip hmoved (.give trivial))))

theorem performs_columnType : Performs 1 Anything c Routine.columnType columnType := by
  refine performs_name.bind fun base c₁ _ => performs_typeQualifier.bind fun qualifier c₂ _ => ?_
  refine performs_typeArguments.bind fun arguments c₃ _ => ?_
  exact performs_typeArray.bind fun array c₄ _ => .give trivial

/-! ### Settings -/

theorem performs_settingValue :
    Performs 0 Anything c Routine.settingValue settingValue := by
  refine (performs_run .valueParts rfl rfl rfl rfl).bind fun parts c₁ _ => ?_
  exact .next (.ite (fun _ => .give trivial) fun _ => (Performs.unexpected _).forget)

theorem performs_optionalValue :
    Performs 0 Anything c Routine.optionalValue optionalValue :=
  .optional fun hcolon =>
    (Performs.skip (ne_endOfText_of_at? hcolon nofun) performs_settingValue).forget

theorem performs_setting : Performs 1 Anything c Routine.setting setting := by
  refine performs_name.bind fun first c₁ _ => ?_
  refine (performs_run .keyWords rfl rfl rfl rfl).bind fun others c₂ _ => ?_
  exact performs_optionalValue.bind fun value c₃ _ => .give trivial

theorem performs_settings : Performs 1 Anything c (Routine.bracketed .settings) settings :=
  performs_bracketed .settings rfl rfl rfl fun _ => performs_setting

theorem performs_settingsOnLine :
    Performs 0 Anything c Routine.settingsOnLine settingsOnLine :=
  (Performs.optional fun _ => performs_settings.forget).bind fun _ _ _ => .give trivial

theorem performs_headerSettings :
    Performs 0 Anything c Routine.headerSettings headerSettings :=
  (Performs.optional fun _ => performs_settings.forget).bind fun _ _ _ => .give trivial

/-! ### Columns -/

theorem performs_columnSetting :
    Performs 1 Anything c Routine.columnSetting columnSetting := by
  have flag : ∀ {keyword : String} (s : ColumnSetting), c.next.token.isKeyword keyword = true →
      Performs 1 Anything c (do Routine.skip; return some s) (do skip; return some s) :=
    fun s h => .skip (ne_endOfText_of_isKeyword h) (.give trivial)
  have twoWords : ∀ {keyword : String} (other : String) (s : ColumnSetting),
      c.next.token.isKeyword keyword = true → Performs 1 Anything c
        (do Routine.skip; Routine.expectKeyword other; return some s)
        (do skip; expectKeyword other; return some s) := by
    intro keyword other s h
    refine .skip (ne_endOfText_of_isKeyword h) ?_
    exact (performs_expectKeyword other).forget.bind fun _ _ _ => .give trivial
  have keyed : ∀ {γ : Type} {keyword : String} (p : Routine γ) (value : Reader γ)
      (f : γ → ColumnSetting), c.next.token.isKeyword keyword = true →
      (∀ c, Performs 0 Anything c p value) → Performs 1 Anything c
        (do Routine.skip; Routine.expect .colon (.mark ":"); return some (f (← p)))
        (do skip; expect .colon (.mark ":"); return some (f (← value))) := by
    intro γ keyword p value f h hvalue
    refine .skip (ne_endOfText_of_isKeyword h) ?_
    refine (performs_expect (by decide) _).forget.bind fun _ c₁ _ => ?_
    exact (hvalue c₁).bind fun _ _ _ => .give trivial
  refine .next (.ite (flag _) fun _ => .ite (twoWords _ _) fun _ =>
    .ite (twoWords _ _) fun _ => .ite (flag _) fun _ => .ite (flag _) fun _ =>
    .ite (flag _) fun _ => .ite (fun h => keyed _ _ _ h fun _ => performs_text.forget) fun _ =>
    .ite (fun h => keyed _ _ _ h fun _ => performs_settingValue) fun _ =>
    .ite (fun h => ?_) fun _ => ?_)
  · refine .skip (ne_endOfText_of_isKeyword h) ?_
    refine (performs_expect (by decide) _).forget.bind fun _ c₁ _ => ?_
    refine performs_relation.forget.bind fun relation c₂ _ => ?_
    exact performs_endpoint.forget.bind fun _ _ _ => .give trivial
  · exact performs_name.bind fun _ c₁ _ => performs_optionalValue.bind fun _ _ _ => .give trivial

theorem performs_columnSettings :
    Performs 1 Anything c Routine.columnSettings columnSettings :=
  (performs_bracketed .columnSettings rfl rfl rfl fun _ => performs_columnSetting).bind
    fun _ _ _ => .give trivial

theorem performs_column : Performs 1 Anything c Routine.column column := by
  refine .next (performs_name.bind fun name c₁ _ => ?_)
  refine (Performs.optional fun _ => performs_columnType.forget).bind fun type c₂ _ => ?_
  refine (Performs.optional fun _ => performs_columnSettings.forget).bind fun settings c₃ _ => ?_
  exact .give trivial

/-! ### Indexes and notes -/

theorem performs_indexColumns :
    Performs 1 Anything c Routine.indexColumns indexColumns := by
  refine .next (.ite (fun h => ?_) fun _ => ?_)
  · refine .skip (ne_endOfText_of_eq h nofun) ?_
    refine (performs_run .indexColumns rfl rfl rfl rfl).bind fun parts c₁ _ => ?_
    exact (performs_expect (by decide) _).forget.bind fun _ _ _ => .give trivial
  · cases h : c.next.token with
    | name text | expression text => exact .skip (ne_endOfText_of_eq h nofun) (.give trivial)
    | _ => exact .unexpected _

theorem performs_index : Performs 1 Anything c Routine.index index :=
  performs_indexColumns.bind fun _ _ _ => performs_settingsOnLine.bind fun _ _ _ => .give trivial

theorem performs_noteBody : Performs 1 Anything c Routine.noteBody noteBody := by
  refine .next (.ite (fun h => ?_) fun _ => .ite (fun h => ?_) fun _ => .unexpected _)
  · exact .skip (ne_endOfText_of_eq h nofun) performs_text.forget
  · refine .skip (ne_endOfText_of_eq h nofun) (performs_text.forget.bind fun note c₁ _ => ?_)
    exact (performs_expect (by decide) _).forget.bind fun _ _ _ => .give trivial

/-! ### Tables and partials -/

/-- A construct that the dialect does not know stops both. -/
theorem performs_requirePartials {dialect : Dialect} {construct : PartialConstruct} {line : Nat}
    {p : Unit → Routine α} {r : Unit → Reader α} (hr : Performs 1 Anything c (p ()) (r ())) :
    Performs 1 Anything c (Routine.requirePartials dialect construct line >>= p)
      (requirePartials dialect construct line >>= r) := by
  cases dialect with
  | legacy => exact .stop .stop rfl
  | partials => exact hr

theorem performs_bodyEntry (dialect : Dialect) (injects : Bool) : Performs 1 Anything c
    (Routine.bodyEntry dialect injects) (bodyEntry dialect injects) := by
  refine .next (.second (.ite (fun _ => .unexpected _) fun _ => .ite (fun h => ?_)
    fun _ => .ite (fun h => ?_) fun _ => .ite (fun h => ?_) fun _ => ?_))
  · refine .ite (fun _ => ?_) fun _ => .unexpected _
    refine performs_requirePartials (.skip (ne_endOfText_of_eq h nofun) ?_)
    exact performs_name.forget.bind fun _ _ _ => .give trivial
  · refine .skip (ne_endOfText_of_isKeyword h.1) ?_
    exact (performs_braced .indexes rfl fun _ => performs_index).forget.bind
      fun _ _ _ => .give trivial
  · refine .skip (ne_endOfText_of_isKeyword h.1) ?_
    exact performs_noteBody.forget.bind fun _ _ _ => .give trivial
  · exact performs_column.bind fun _ _ _ => .give trivial

theorem performs_qualifiedName :
    Performs 1 Anything c Routine.qualifiedName qualifiedName := by
  refine performs_name.bind fun first c₁ _ => ?_
  refine (Performs.optional fun hdot => ?_).bind fun second c₂ _ => ?_
  · exact (performs_skip_name (ne_endOfText_of_at? hdot nofun)).forget
  · cases second with
    | none => exact .give trivial
    | some second => exact .give trivial

theorem performs_table (dialect : Dialect) (line : Nat) :
    Performs 1 Anything c (Routine.table dialect line) (table dialect line) := by
  refine performs_qualifiedName.bind fun (schema, name) c₁ _ => ?_
  refine (Performs.optional fun has => ?_).bind fun shorthand c₂ _ => ?_
  · exact (performs_skip_name (ne_endOfText_of_isKeyword has)).forget
  refine performs_headerSettings.bind fun settings c₃ _ => ?_
  exact (performs_braced (.bodyEntries dialect true) rfl fun _ =>
    performs_bodyEntry dialect true).forget.bind fun _ _ _ => .give trivial

theorem performs_tablePartial (dialect : Dialect) :
    Performs 1 Anything c (Routine.tablePartial dialect) (tablePartial dialect) := by
  refine performs_name.bind fun name c₁ _ => performs_headerSettings.bind fun _ c₂ _ => ?_
  exact (performs_braced (.bodyEntries dialect false) rfl fun _ =>
    performs_bodyEntry dialect false).forget.bind fun _ _ _ => .give trivial

/-! ### References, enumerations and projects -/

/-- A reference takes a token even without a left end: its relation. -/
theorem performs_refBody (name : Option String) :
    Performs 1 Anything c (Routine.refBody name) (refBody name) := by
  have hrest : ∀ (left : Option Endpoint) (line : Nat) (c : Cursor), Performs 1 Anything c
      (do
        let relation ← Routine.relation
        let right ← Routine.optional (fun c => c.continuesLine && c.atName) Routine.endpoint
        let settings ← Routine.settingsOnLine
        return {
          name, left, relation, right, line
          onDelete := Setting.lastValue settings "delete"
          onUpdate := Setting.lastValue settings "update" : Ref })
      (do
        let relation ← relation
        let right ← optional (fun c => c.continuesLine && c.atName) endpoint
        let settings ← settingsOnLine
        return {
          name, left, relation, right, line
          onDelete := Setting.lastValue settings "delete"
          onUpdate := Setting.lastValue settings "update" }) := by
    intro left line c
    refine performs_relation.bind fun relation c₁ _ => ?_
    refine (Performs.optional fun _ => performs_endpoint.forget).bind fun right c₂ _ => ?_
    exact performs_settingsOnLine.bind fun settings c₃ _ => .give trivial
  refine .next ?_
  cases h : c.atName with
  | true =>
    exact (Performs.optional_of_true h performs_endpoint).bind fun left c₁ _ =>
      (hrest left _ c₁).forget
  | false => exact .optional_of_false h (hrest none _ c)

theorem performs_listedRef (name : Option String) :
    Performs 1 Anything c (Routine.listedRef name) (listedRef name) :=
  .next (.ite (fun _ => .unexpected _) fun _ => performs_refBody name)

theorem performs_refDeclaration :
    Performs 0 Anything c Routine.refDeclaration refDeclaration := by
  refine (Performs.optional fun _ => performs_name.forget).bind fun name c₁ _ => ?_
  refine .forget (.next (.ite (fun h => ?_) fun _ => .ite (fun _ => ?_) fun _ => .unexpected _))
  · refine .skip (ne_endOfText_of_eq h nofun) ?_
    exact (performs_refBody name).forget.bind fun _ _ _ => .give trivial
  · exact performs_braced (.refs name) rfl fun _ => performs_listedRef name

theorem performs_enumValue : Performs 1 Anything c Routine.enumValue enumValue :=
  performs_name.bind fun _ _ _ => performs_settingsOnLine.bind fun _ _ _ => .give trivial

theorem performs_enumeration :
    Performs 1 Anything c Routine.enumeration enumeration :=
  performs_qualifiedName.bind fun (_, _) _ _ =>
    (performs_braced .enumValues rfl fun _ => performs_enumValue).forget.bind
      fun _ _ _ => .give trivial

theorem performs_projectEntry :
    Performs 1 Anything c Routine.projectEntry projectEntry := by
  refine .next (.ite (fun h => ?_) fun _ => ?_)
  · refine .skip (ne_endOfText_of_isKeyword h) ?_
    exact performs_noteBody.forget.bind fun _ _ _ => .give trivial
  · refine performs_name.bind fun key c₁ _ => ?_
    refine (performs_expect (by decide) _).forget.bind fun _ c₂ _ => ?_
    exact performs_text.forget.bind fun _ _ _ => .give trivial

theorem performs_project : Performs 0 Anything c Routine.project project := by
  refine (Performs.optional fun _ => performs_name.forget).bind fun name c₁ _ => ?_
  exact (performs_braced .projectEntries rfl fun _ => performs_projectEntry).forget.bind
    fun _ _ _ => .give trivial

theorem performs_declaration (dialect : Dialect) :
    Performs 1 Anything c (Routine.declaration dialect) (declaration dialect) := by
  refine .next (.ite (fun h => ?_) fun _ => .ite (fun h => ?_) fun _ => .ite (fun h => ?_)
    fun _ => .ite (fun h => ?_) fun _ => .ite (fun h => ?_) fun _ => .unexpected _)
  · refine .skip (ne_endOfText_of_isKeyword h) ?_
    exact performs_project.bind fun _ _ _ => .give trivial
  · refine performs_requirePartials (.skip (ne_endOfText_of_isKeyword h) ?_)
    exact (performs_tablePartial dialect).forget.bind fun _ _ _ => .give trivial
  · refine .skip (ne_endOfText_of_isKeyword h) ?_
    exact (performs_table dialect _).forget.bind fun _ _ _ => .give trivial
  · refine .skip (ne_endOfText_of_isKeyword h) ?_
    exact performs_refDeclaration.bind fun _ _ _ => .give trivial
  · refine .skip (ne_endOfText_of_isKeyword h) ?_
    exact performs_enumeration.forget.bind fun _ _ _ => .give trivial

end Reader

/-! ### Loops and documents -/

/-- **A round of a loop takes a token**: the round does what its routine does, and takes more tokens
than there are rounds of other loops inside it. -/
theorem Loop.performs {α : Type} {c : Cursor} (l : Loop α) (h : l.condition c = true) :
    Performs 1 Anything c l.routine l.reader := by
  cases l with
  | declarations dialect => exact Reader.performs_declaration dialect
  | projectEntries => exact Reader.performs_projectEntry
  | bodyEntries dialect injects => exact Reader.performs_bodyEntry dialect injects
  | typeArguments => exact .image rfl _
  | columnSettings => exact Reader.performs_parted Reader.performs_columnSetting
  | settings => exact Reader.performs_parted Reader.performs_setting
  | keyWords => exact .image rfl _
  | valueParts => exact .image rfl _
  | indexes => exact Reader.performs_index
  | indexColumns => exact .image rfl _
  | refs name => exact Reader.performs_listedRef name
  | dottedNames =>
    obtain ⟨hdot, -⟩ := Bool.and_eq_true_iff.mp h
    exact Reader.performs_skip_name (Reader.ne_endOfText_of_at? hdot nofun)
  | moreFields => exact Reader.performs_skip_name (Reader.ne_endOfText_of_at? h nofun)
  | enumValues => exact Reader.performs_enumValue

theorem Reader.performs_document {c : Cursor} (dialect : Dialect) :
    Performs 0 Anything c (Routine.document dialect) (document dialect) := by
  refine Performs.bind (Performs.many (.declarations dialect) fun _ _ => ?_)
    fun _ _ _ => .give trivial
  exact performs_declaration dialect

end SchemaGraph
