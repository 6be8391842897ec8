import SchemaGraph.Document.Lines
import SchemaGraph.Proofs.Scanning
import SchemaGraph.Proofs.Traversal

/-!
# The readers go through lexemes

Every reader of the grammar goes through lexemes (`Traverses`): whatever it opens it closes, and
the lines that its results keep are lines of lexemes. So the braces of a document nest from its
first token to the mark of its end, and whatever keeps a text from being a document is about one of
its tokens.
-/

namespace SchemaGraph

namespace Reader

variable {α : Type} {On : Lexeme → Prop} {i j : Nat} {c : Cursor}

/-! ### One lexeme -/

theorem isPlain_of_eq {t : Token} (h : c.next.token = t) (ht : t.isPlain = true) :
    c.next.token.isPlain = true := by
  rw [h]
  exact ht

theorem isPlain_of_at? {t : Token} (h : c.at? t = true) (ht : t.isPlain = true) :
    c.next.token.isPlain = true :=
  isPlain_of_eq (eq_of_beq h) ht

theorem traverses_skip (hplain : c.next.token.isPlain = true) :
    Traverses On 1 i i (fun _ c' => OnLine On c'.lastLine) c skip := by
  obtain ⟨hbrace, hend⟩ := Token.isPlain_iff.mp hplain
  exact .skip_last hend (.single hbrace)

theorem traverses_name : Traverses On 1 i i (fun _ c' => OnLine On c'.lastLine) c name := by
  refine .next fun _ => ?_
  split
  · next text h => exact (traverses_skip (isPlain_of_eq h rfl)).bind fun _ _ hline => .give hline
  · exact .unexpected _

theorem traverses_text : Traverses On 1 i i Anything c text := by
  refine .next fun _ => ?_
  split
  · next text h => exact .skip (isPlain_of_eq h rfl) (.give trivial)
  · next text h => exact .skip (isPlain_of_eq h rfl) (.give trivial)
  · exact .unexpected _

theorem isPlain_of_relation? {t : Token} {r : Relation} (h : t.relation? = some r) :
    t.isPlain = true := by
  cases t with
  | greater | less | minus | diamond => rfl
  | _ => cases h

theorem traverses_relation : Traverses On 1 i i Anything c relation := by
  refine .next fun _ => ?_
  split
  · next r h => exact .skip (isPlain_of_relation? h) (.give trivial)
  · exact .unexpected _

theorem traverses_expect {t : Token} (hend : t ≠ .endOfText) (hnests : Nests i [t] j)
    (e : Expectation) : Traverses On 1 i j Anything c (expect t e) := by
  refine .next fun _ => .ite (fun h => ?_) fun _ => .unexpected e
  rw [← h] at hend hnests
  exact (Traverses.skip_last hend hnests).imp fun _ _ _ => trivial

theorem traverses_expect_plain {t : Token} (ht : t.isPlain = true) (e : Expectation) :
    Traverses On 1 i i Anything c (expect t e) := by
  obtain ⟨hbrace, hend⟩ := Token.isPlain_iff.mp ht
  exact traverses_expect hend (.single hbrace) e

theorem traverses_expectKeyword (keyword : String) :
    Traverses On 1 i i Anything c (expectKeyword keyword) := by
  refine .next fun _ => .ite (fun h => ?_) fun _ => .unexpected _
  exact (traverses_skip (Token.isPlain_of_isKeyword h)).imp fun _ _ _ => trivial

theorem traverses_separator : Traverses On 0 i i Anything c separator := by
  refine .next fun _ => .ite (fun h => ?_) fun _ => .ite (fun _ => .give trivial) fun _ =>
    .unexpected _
  exact (traverses_skip (isPlain_of_eq h rfl)).anything

/-- A mark that is there, and a name. -/
theorem traverses_skip_name (hplain : c.next.token.isPlain = true) :
    Traverses On 1 i i Anything c (do skip; name) :=
  .skip hplain traverses_name.anything

/-! ### Lists -/

variable {P : α → Prop} {item : Reader α}

/-- What is opened before the items is closed behind them. -/
theorem traverses_braced (hitem : ∀ c, Traverses On 1 (i + 1) (i + 1) (fun a _ => P a) c item) :
    Traverses On 1 i i (fun as _ => ∀ a ∈ as, P a) c (braced item) := by
  have hopen : Nests i [.openBrace] (i + 1) := .opened .done
  have hclose : Nests (i + 1) [.closeBrace] i := .closed .done
  refine (traverses_expect (by decide) hopen _).bind fun _ c₁ _ => ?_
  refine (Traverses.manyWhile fun c₂ _ => hitem c₂).bind fun as c₂ has => ?_
  exact (traverses_expect (by decide) hclose _).forget.bind fun _ _ _ => .give has.1

theorem traverses_bracketed (hitem : ∀ c, Traverses On 1 i i (fun a _ => P a) c item) :
    Traverses On 1 i i (fun as _ => ∀ a ∈ as, P a) c (bracketed item) := by
  refine (traverses_expect_plain rfl _).bind fun _ c₁ _ => ?_
  refine (Traverses.manyWhile (P := P) fun c₂ _ => ?_).bind fun as c₂ has => ?_
  · exact (hitem c₂).bind fun a c₃ ha => traverses_separator.bind fun _ _ _ => .give ha
  · exact (traverses_expect_plain rfl _).forget.bind fun _ _ _ => .give has.1

/-! ### Endpoints and types -/

theorem traverses_moreFields : Traverses On 0 i i Anything c moreFields := by
  refine (Traverses.manyWhile (P := fun _ => True) fun c₁ h => ?_).anything
  exact traverses_skip_name (isPlain_of_at? h rfl)

/-- Where the names end, a dot that is next stands before a parenthesis. -/
theorem traverses_dottedNames : Traverses On 0 i i
    (fun _ c' => c'.at? .dot = true → c'.second = .openParen) c dottedNames := by
  refine (Traverses.manyWhile (P := fun _ => True) fun c₁ h => ?_).imp fun _ c' h hdot => ?_
  · rw [Bool.and_eq_true] at h
    exact traverses_skip_name (isPlain_of_at? h.1 rfl)
  · by_contra hparen
    have hnil : c'.ahead = [] := h.2 (by simp [hdot, hparen])
    have hend := Cursor.token_next_of_nil hnil
    rw [eq_of_beq hdot] at hend
    cases hend

theorem traverses_compositeFields (hdot : c.at? .dot = true) (hparen : c.second = .openParen) :
    Traverses On 0 i i Anything c compositeFields := by
  -- what is taken unseen behind the dot is the parenthesis
  have hmoved : c.moved.next.token.isPlain = true := by
    rw [← Cursor.second_eq, hparen]
    rfl
  refine .forget (.skip (isPlain_of_at? hdot rfl) (.forget (.skip hmoved ?_)))
  refine traverses_name.forget.bind fun first c₁ _ => ?_
  refine traverses_moreFields.bind fun others c₂ _ => ?_
  exact (traverses_expect_plain rfl _).forget.bind fun _ _ _ => .give trivial

theorem traverses_endpoint : Traverses On 1 i i Anything c endpoint := by
  refine traverses_name.bind fun first c₁ h₁ => ?_
  refine traverses_dottedNames.bind_of_onLine h₁ fun others c₂ hstop h₂ => ?_
  have hcomposite : Traverses On 0 i i Anything c₂ (optional (·.at? .dot) compositeFields) :=
    .optional_anything fun hdot => traverses_compositeFields hdot (hstop hdot)
  refine hcomposite.bind_of_onLine h₂ fun composite c₃ _ h₃ => ?_
  -- a path that is too long is reported on the line of what was taken last
  split
  split
  · exact .give trivial
  · obtain ⟨x, hx, hline⟩ := h₃
    refine .of_error (fun _ => .shortEndpoint hx) ?_
    rw [hline]
    rfl

theorem traverses_typeQualifier : Traverses On 0 i i Anything c typeQualifier := by
  refine (Traverses.optional_anything fun hdot => ?_).bind fun _ _ _ => .give trivial
  refine .forget (.skip (isPlain_of_at? hdot rfl) ?_)
  exact traverses_name.forget.bind fun _ _ _ => .give trivial

theorem traverses_typeArguments : Traverses On 0 i i Anything c typeArguments := by
  refine (Traverses.optional_anything fun hparen => ?_).bind fun _ _ _ => .give trivial
  refine .forget (.skip (isPlain_of_at? hparen rfl) ?_)
  refine (Traverses.run rfl rfl).bind fun parts c₁ _ => ?_
  exact (traverses_expect_plain rfl _).forget.bind fun _ _ _ => .give trivial

theorem traverses_typeArray : Traverses On 0 i i Anything c typeArray := by
  refine (Traverses.optional_anything fun hbrackets => ?_).bind
    fun _ _ _ => .give trivial
  obtain ⟨hopen, hclose⟩ := Bool.and_eq_true_iff.mp hbrackets
  have hmoved : c.moved.next.token.isPlain = true := by
    rw [← Cursor.second_eq, eq_of_beq hclose]
    rfl
  exact .forget (.skip (isPlain_of_at? hopen rfl) (.forget (.skip hmoved (.give trivial))))

theorem traverses_columnType : Traverses On 1 i i Anything c columnType := by
  refine traverses_name.bind fun base c₁ _ => traverses_typeQualifier.bind fun qualifier c₂ _ => ?_
  refine traverses_typeArguments.bind fun arguments c₃ _ => ?_
  exact traverses_typeArray.bind fun array c₄ _ => .give trivial

/-! ### Settings -/

theorem traverses_settingValue : Traverses On 0 i i Anything c settingValue := by
  refine (Traverses.run rfl rfl).bind fun parts c₁ _ => ?_
  exact .next fun _ => .ite (fun _ => .give trivial) fun _ => .unexpected _

theorem traverses_optionalValue : Traverses On 0 i i Anything c optionalValue := by
  refine .optional_anything fun hcolon => ?_
  exact .forget (.skip (isPlain_of_at? hcolon rfl) traverses_settingValue)

theorem traverses_setting : Traverses On 1 i i Anything c setting := by
  refine traverses_name.bind fun first c₁ _ => ?_
  refine (Traverses.run rfl rfl).bind fun others c₂ _ => ?_
  exact traverses_optionalValue.bind fun value c₃ _ => .give trivial

theorem traverses_settings : Traverses On 1 i i Anything c settings :=
  (traverses_bracketed fun _ => traverses_setting).imp fun _ _ _ => trivial

theorem traverses_settingsOnLine : Traverses On 0 i i Anything c settingsOnLine :=
  (Traverses.optional fun _ => traverses_settings.forget).bind fun _ _ _ => .give trivial

theorem traverses_headerSettings : Traverses On 0 i i Anything c headerSettings :=
  (Traverses.optional fun _ => traverses_settings.forget).bind fun _ _ _ => .give trivial

/-! ### Columns -/

theorem traverses_columnSetting : Traverses On 1 i i Anything c columnSetting := by
  have flag : ∀ {keyword : String} (s : ColumnSetting), c.next.token.isKeyword keyword = true →
      Traverses On 1 i i Anything c (do skip; return some s) :=
    fun s h => .skip (Token.isPlain_of_isKeyword h) (.give trivial)
  have twoWords : ∀ {keyword : String} (other : String) (s : ColumnSetting),
      c.next.token.isKeyword keyword = true →
      Traverses On 1 i i Anything c (do skip; expectKeyword other; return some s) := by
    intro keyword other s h
    refine .skip (Token.isPlain_of_isKeyword h) ?_
    exact (traverses_expectKeyword other).forget.bind fun _ _ _ => .give trivial
  have keyed : ∀ {γ : Type} {keyword : String} (value : Reader γ) (f : γ → ColumnSetting),
      c.next.token.isKeyword keyword = true → (∀ c, Traverses On 0 i i Anything c value) →
      Traverses On 1 i i Anything c
        (do skip; expect .colon (.mark ":"); return some (f (← value))) := by
    intro γ keyword value f h hvalue
    refine .skip (Token.isPlain_of_isKeyword h) ?_
    refine (traverses_expect_plain rfl _).forget.bind fun _ c₁ _ => ?_
    exact (hvalue c₁).bind fun _ _ _ => .give trivial
  refine .next fun _ => .ite (flag _) fun _ => .ite (twoWords _ _) fun _ =>
    .ite (twoWords _ _) fun _ => .ite (flag _) fun _ => .ite (flag _) fun _ =>
    .ite (flag _) fun _ => .ite (fun h => keyed _ _ h fun _ => traverses_text.forget) fun _ =>
    .ite (fun h => keyed _ _ h fun _ => traverses_settingValue) fun _ =>
    .ite (fun h => ?_) fun _ => ?_
  · refine .skip (Token.isPlain_of_isKeyword h) ?_
    refine (traverses_expect_plain rfl _).forget.bind fun _ c₁ _ => ?_
    refine traverses_relation.forget.bind fun relation c₂ _ => ?_
    exact traverses_endpoint.forget.bind fun _ _ _ => .give trivial
  · exact traverses_name.bind fun _ c₁ _ => traverses_optionalValue.bind fun _ _ _ => .give trivial

theorem traverses_columnSettings : Traverses On 1 i i Anything c columnSettings :=
  (traverses_bracketed fun _ => traverses_columnSetting).bind fun _ _ _ => .give trivial

/-- A column stands on the line of its name. -/
theorem traverses_column : Traverses On 1 i i (fun a _ => OnLine On a.line) c column := by
  refine .next fun hnext => traverses_name.bind fun name c₁ _ => ?_
  refine (Traverses.optional fun _ => traverses_columnType.forget).bind fun type c₂ _ => ?_
  refine (Traverses.optional fun _ => traverses_columnSettings.forget).bind fun settings c₃ _ => ?_
  exact .give ⟨c.next, hnext, rfl⟩

/-! ### Indexes and notes -/

theorem isPlain_of_indexColumn? {t : Token} {column : String} (h : t.indexColumn? = some column) :
    t.isPlain = true := by
  cases t with
  | name | expression => rfl
  | _ => cases h

theorem traverses_indexColumns : Traverses On 1 i i Anything c indexColumns := by
  refine .next fun _ => .ite (fun h => ?_) fun _ => ?_
  · refine .skip (isPlain_of_eq h rfl) ((Traverses.run rfl rfl).bind fun parts c₁ _ => ?_)
    exact (traverses_expect_plain rfl _).forget.bind fun _ _ _ => .give trivial
  · split
    · next column h => exact .skip (isPlain_of_indexColumn? h) (.give trivial)
    · exact .unexpected _

theorem traverses_index : Traverses On 1 i i Anything c index :=
  traverses_indexColumns.bind fun _ _ _ => traverses_settingsOnLine.bind fun _ _ _ => .give trivial

theorem traverses_noteBody : Traverses On 1 i i Anything c noteBody := by
  refine .next fun _ => .ite (fun h => ?_) fun _ => .ite (fun h => ?_) fun _ => .unexpected _
  · exact .skip (isPlain_of_eq h rfl) traverses_text.forget
  · have hopen : Nests i [c.next.token] (i + 1) := by
      rw [h]
      exact .opened .done
    have hclose : Nests (i + 1) [.closeBrace] i := .closed .done
    refine .skip_token (by simp [h]) hopen (traverses_text.forget.bind fun note c₁ _ => ?_)
    exact (traverses_expect (by decide) hclose _).forget.bind fun _ _ _ => .give trivial

/-! ### Tables and partials -/

/-- A construct that the dialect may not know is opened by the lexeme on the line in question. -/
theorem traverses_requirePartials {dialect : Dialect} {construct : PartialConstruct} {m : Nat}
    {Good : α → Cursor → Prop} {x : Lexeme} {f : Unit → Reader α} (hx : On x)
    (hopens : construct.opensWith x.token = true) (hf : Traverses On m i j Good c (f ())) :
    Traverses On m i j Good c (requirePartials dialect construct x.line >>= f) := by
  cases dialect with
  | legacy => exact .of_error (fun _ => .unsupported hx hopens) rfl
  | partials => exact hf

/-- The line that an entry keeps is the one of a lexeme in question. -/
def EntryOnLine (On : Lexeme → Prop) (entry : BodyEntry) : Prop :=
  ∀ item ∈ entry.item?, OnLine On item.line

theorem traverses_bodyEntry (dialect : Dialect) (injects : Bool) :
    Traverses On 1 i i (fun entry _ => EntryOnLine On entry) c (bodyEntry dialect injects) := by
  refine .next fun hnext => .second (.ite (fun _ => .unexpected _) fun _ => .ite (fun h => ?_)
    fun _ => .ite (fun h => ?_) fun _ => .ite (fun h => ?_) fun _ => ?_)
  · refine .ite (fun _ => ?_) fun _ => .unexpected _
    have hopens : PartialConstruct.injection.opensWith c.next.token = true := by
      rw [h]
      rfl
    refine traverses_requirePartials hnext hopens (.skip (isPlain_of_eq h rfl) ?_)
    exact traverses_name.forget.bind fun name c₁ _ =>
      .give fun item hitem => by cases hitem; exact ⟨c.next, hnext, rfl⟩
  · refine .skip (Token.isPlain_of_isKeyword h.1) ?_
    exact (traverses_braced fun _ => traverses_index).forget.bind fun _ _ _ => .give nofun
  · refine .skip (Token.isPlain_of_isKeyword h.1) ?_
    exact traverses_noteBody.forget.bind fun _ _ _ => .give nofun
  · exact traverses_column.bind fun column c₁ hline =>
      .give fun item hitem => by cases hitem; exact hline

theorem onLine_of_mem_items {entries : List BodyEntry} (h : ∀ e ∈ entries, EntryOnLine On e)
    {item : TableItem} (hitem : item ∈ BodyEntry.items entries) : OnLine On item.line := by
  obtain ⟨entry, hentry, hitem⟩ := List.mem_filterMap.mp hitem
  exact h entry hentry item hitem

theorem traverses_qualifiedName : Traverses On 1 i i Anything c qualifiedName := by
  refine traverses_name.bind fun first c₁ _ => ?_
  refine (Traverses.optional_anything fun hdot => ?_).bind fun second c₂ _ => ?_
  · exact (traverses_skip_name (isPlain_of_at? hdot rfl)).forget
  · cases second with
    | none => exact .give trivial
    | some second => exact .give trivial

theorem traverses_table (dialect : Dialect) {line : Nat} (hline : OnLine On line) :
    Traverses On 1 i i (fun t _ => ∀ l ∈ t.keptLines, OnLine On l) c (table dialect line) := by
  refine traverses_qualifiedName.bind fun (schema, name) c₁ _ => ?_
  refine (Traverses.optional_anything fun has => ?_).bind fun shorthand c₂ _ => ?_
  · exact (traverses_skip_name (Token.isPlain_of_isKeyword has)).forget
  refine traverses_headerSettings.bind fun settings c₃ _ => ?_
  refine (traverses_braced fun _ => traverses_bodyEntry dialect true).forget.bind
    fun entries c₄ hentries => .give fun l hl => ?_
  rcases List.mem_cons.mp hl with rfl | hl
  · exact hline
  · obtain ⟨item, hitem, rfl⟩ := List.mem_map.mp hl
    exact onLine_of_mem_items hentries hitem

theorem traverses_tablePartial (dialect : Dialect) :
    Traverses On 1 i i (fun p _ => ∀ l ∈ p.keptLines, OnLine On l) c (tablePartial dialect) := by
  refine traverses_name.bind fun name c₁ _ => traverses_headerSettings.bind fun _ c₂ _ => ?_
  refine (traverses_braced fun _ => traverses_bodyEntry dialect false).forget.bind
    fun entries c₃ hentries => .give fun l hl => ?_
  obtain ⟨column, hcolumn, rfl⟩ := List.mem_map.mp hl
  obtain ⟨item, hitem, hcolumn⟩ := List.mem_filterMap.mp hcolumn
  cases item with
  | column c =>
    cases hcolumn
    exact onLine_of_mem_items hentries hitem
  | marker name line => cases hcolumn

/-! ### References, enumerations and projects -/

/-- A reference stands on the line of its first lexeme. -/
theorem traverses_refBody (name : Option String) :
    Traverses On 1 i i (fun r _ => OnLine On r.line) c (refBody name) := by
  refine .next fun hnext => ?_
  refine (Traverses.optional fun _ => traverses_endpoint.forget).bind_before fun left c₁ _ => ?_
  refine traverses_relation.bind fun relation c₂ _ => ?_
  refine (Traverses.optional fun _ => traverses_endpoint.forget).bind fun right c₃ _ => ?_
  exact traverses_settingsOnLine.bind fun settings c₄ _ => .give ⟨c.next, hnext, rfl⟩

theorem traverses_listedRef (name : Option String) :
    Traverses On 1 i i (fun r _ => OnLine On r.line) c (listedRef name) :=
  .next fun _ => .ite (fun _ => .unexpected _) fun _ => traverses_refBody name

theorem traverses_refDeclaration :
    Traverses On 0 i i (fun rs _ => ∀ r ∈ rs, OnLine On r.line) c refDeclaration := by
  refine (Traverses.optional_anything fun _ => traverses_name.anything).bind fun name c₁ _ => ?_
  refine .next fun _ => .ite (fun h => ?_) fun _ => .ite (fun _ => ?_) fun _ => .unexpected _
  · refine .forget (.skip (isPlain_of_eq h rfl) ?_)
    refine (traverses_refBody name).forget.bind fun r c₂ hr => .give ?_
    simpa using hr
  · exact (traverses_braced fun _ => traverses_listedRef name).forget

theorem traverses_enumValue : Traverses On 1 i i Anything c enumValue :=
  traverses_name.bind fun _ _ _ => traverses_settingsOnLine.bind fun _ _ _ => .give trivial

theorem traverses_enumeration : Traverses On 1 i i Anything c enumeration := by
  refine traverses_qualifiedName.bind fun (schema, name) c₁ _ => ?_
  exact (traverses_braced fun _ => traverses_enumValue).forget.bind fun _ _ _ => .give trivial

theorem traverses_projectEntry : Traverses On 1 i i Anything c projectEntry := by
  refine .next fun _ => .ite (fun h => ?_) fun _ => ?_
  · refine .skip (Token.isPlain_of_isKeyword h) ?_
    exact traverses_noteBody.forget.bind fun _ _ _ => .give trivial
  · refine traverses_name.bind fun key c₁ _ => ?_
    refine (traverses_expect_plain rfl _).forget.bind fun _ c₂ _ => ?_
    exact traverses_text.forget.bind fun _ _ _ => .give trivial

theorem traverses_project : Traverses On 0 i i Anything c project := by
  refine (Traverses.optional_anything fun _ => traverses_name.anything).bind fun name c₁ _ => ?_
  exact (traverses_braced fun _ => traverses_projectEntry).forget.bind fun _ _ _ => .give trivial

end Reader

/-! ### Declarations -/

/-- The lines that a declaration keeps. -/
def Declaration.keptLines : Declaration → List Nat
  | .table t => t.keptLines
  | .tablePartial p => p.keptLines
  | .refs rs => rs.map Ref.line
  | .project _ | .enumeration _ => []

/-- The lines of a document are those of its declarations. -/
theorem Document.exists_mem_of_mem_keptLines {declared : List Declaration} {l : Nat}
    (h : l ∈ (ofDeclarations declared).keptLines) : ∃ d ∈ declared, l ∈ d.keptLines := by
  simp only [keptLines, ofDeclarations, List.mem_append, List.mem_flatMap, List.mem_filterMap,
    List.mem_map] at h
  rcases h with (⟨t, ⟨d, hd, ht⟩, hl⟩ | ⟨p, ⟨d, hd, hp⟩, hl⟩) | ⟨r, ⟨d, hd, hr⟩, rfl⟩
  · cases d with
    | table t' =>
      cases ht
      exact ⟨_, hd, hl⟩
    | _ => cases ht
  · cases d with
    | tablePartial p' =>
      cases hp
      exact ⟨_, hd, hl⟩
    | _ => cases hp
  · cases d with
    | refs rs => exact ⟨_, hd, List.mem_map_of_mem hr⟩
    | _ => cases hr

namespace Reader

variable {On : Lexeme → Prop} {i : Nat} {c : Cursor}

theorem traverses_declaration (dialect : Dialect) :
    Traverses On 1 i i (fun d _ => ∀ l ∈ d.keptLines, OnLine On l) c (declaration dialect) := by
  refine .next fun hnext => .ite (fun h => ?_) fun _ => .ite (fun h => ?_) fun _ =>
    .ite (fun h => ?_) fun _ => .ite (fun h => ?_) fun _ => .ite (fun h => ?_) fun _ =>
    .unexpected _
  · refine .skip (Token.isPlain_of_isKeyword h) ?_
    exact traverses_project.bind fun _ _ _ => .give nofun
  · refine traverses_requirePartials hnext h (.skip (Token.isPlain_of_isKeyword h) ?_)
    exact (traverses_tablePartial dialect).forget.bind fun p _ hp => .give hp
  · refine .skip (Token.isPlain_of_isKeyword h) ?_
    exact (traverses_table dialect ⟨c.next, hnext, rfl⟩).forget.bind fun t _ ht => .give ht
  · refine .skip (Token.isPlain_of_isKeyword h) ?_
    refine traverses_refDeclaration.bind fun rs _ hrs => .give fun l hl => ?_
    obtain ⟨r, hr, rfl⟩ := List.mem_map.mp hl
    exact hrs r hr
  · refine .skip (Token.isPlain_of_isKeyword h) ?_
    exact traverses_enumeration.forget.bind fun _ _ _ => .give nofun

/-- The declarations of a text are read up to a mark of the end. -/
theorem traverses_declarations (dialect : Dialect) : Traverses On 0 i i
    (fun declared c' => (∀ d ∈ declared, ∀ l ∈ d.keptLines, OnLine On l) ∧
      c'.next.token = .endOfText) c (declarations dialect) := by
  refine (Traverses.manyWhile fun _ _ => traverses_declaration dialect).imp
    fun declared c' h => ⟨h.1, ?_⟩
  by_contra hmore
  have hnil : c'.ahead = [] := h.2 (by simpa [Cursor.at?] using hmore)
  exact hmore (Cursor.token_next_of_nil hnil)

end Reader

/-! ### Texts -/

namespace Document

variable {dialect : Dialect} {text : String} {lexemes : List Lexeme}

/-- From its first lexeme on, all that is ahead in a text is its lexemes. -/
theorem within_lexemes (h : scan text = .ok lexemes) :
    Cursor.Within (· ∈ lexemes) ⟨lexemes, 1⟩ := by
  rw [Scan.scan_eq] at h
  obtain ⟨s, -, rfl⟩ := map_eq_ok_iff.mp h
  apply Cursor.within_append
  · intro x hx
    exact List.mem_append_left _ hx
  · simp

/-- What keeps a text from being a document is in its characters, or about one of its lexemes. -/
theorem about_of_parse_eq_error {e : ParseError} (h : parse dialect text = .error e) :
    (∃ e', scan text = .error e' ∧ e = .scan e') ∨
      ∃ lexemes, scan text = .ok lexemes ∧ e.About (· ∈ lexemes) := by
  cases hscan : scan text with
  | error e' =>
    rw [parse_of_scan_error hscan] at h
    cases h
    exact .inl ⟨e', rfl, rfl⟩
  | ok lexemes =>
    rw [parse_of_scan hscan] at h
    refine .inr ⟨lexemes, rfl, ?_⟩
    cases hread : Reader.declarations dialect ⟨lexemes, 1⟩ with
    | error e' =>
      rw [hread] at h
      cases h
      exact (Reader.traverses_declarations (i := 0) dialect).error (within_lexemes hscan) hread
    | ok p =>
      rw [hread] at h
      cases h

/-- Every line that a document keeps is the line of one of its lexemes. -/
theorem onLine_of_parse {d : Document} (h : parse dialect text = .ok d) :
    ∃ lexemes, scan text = .ok lexemes ∧ ∀ l ∈ d.keptLines, OnLine (· ∈ lexemes) l := by
  obtain ⟨lexemes, declared, stop, hscan, hread, rfl⟩ := parse_eq_ok_iff.mp h
  obtain ⟨⟨hlines, -⟩, -⟩ :=
    (Reader.traverses_declarations (i := 0) dialect).ok (within_lexemes hscan) hread
  refine ⟨lexemes, hscan, fun l hl => ?_⟩
  obtain ⟨declaration, hdeclaration, hl⟩ := exists_mem_of_mem_keptLines hl
  exact hlines declaration hdeclaration l hl

/-- There is nothing behind a mark of the end. -/
theorem eq_nil_of_scan {taken rest : List Lexeme} {x : Lexeme}
    (h : scan text = .ok (taken ++ x :: rest)) (hx : x.token = .endOfText) : rest = [] := by
  rw [Scan.scan_eq] at h
  obtain ⟨s, hs, hlexemes⟩ := map_eq_ok_iff.mp h
  by_contra hrest
  have hmem : x ∈ s.tokens := by
    have hfront : s.tokens = taken ++ x :: rest.dropLast := by
      rw [← List.dropLast_cons_of_ne_nil hrest,
        ← List.dropLast_append_of_ne_nil (List.cons_ne_nil x rest), ← hlexemes,
        List.dropLast_concat]
    rw [hfront]
    simp
  exact ((Scan.placed_ofText hs).mem_tokens hmem).1 hx

/-- The braces of a document nest. -/
theorem nests_of_parse {d : Document} (h : parse dialect text = .ok d) :
    ∃ lexemes, scan text = .ok lexemes ∧ Nests 0 (lexemes.map Lexeme.token) 0 := by
  obtain ⟨lexemes, declared, ⟨rest, line⟩, hscan, hread, -⟩ := parse_eq_ok_iff.mp h
  obtain ⟨⟨-, hstop⟩, taken, hreach, -, hnests⟩ :=
    (Reader.traverses_declarations (i := 0) dialect).ok (within_lexemes hscan) hread
  have hlexemes : lexemes = taken ++ rest := hreach.ahead_eq
  refine ⟨lexemes, hscan, ?_⟩
  rw [hlexemes, List.map_append]
  apply hnests.append
  cases rest with
  | nil => exact .done
  | cons x rest =>
    have hx : x.token = .endOfText := hstop
    rw [hlexemes] at hscan
    have hrest : rest = [] := eq_nil_of_scan hscan hx
    rw [hrest, List.map_singleton, hx]
    exact .single rfl

end Document

end SchemaGraph
