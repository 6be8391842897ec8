import SchemaGraph.Proofs.Localization

/-!
# The readers stop at places

Every reader of the grammar stops at a place that it has reached (`Localizes`). For most of them
this follows from the readers that they are put together from; an endpoint that is too long is told
from what has been taken for it.
-/

namespace SchemaGraph

/-! ### What endpoints are made of -/

namespace Reader

open Cursor

variable {c c' : Cursor}

theorem reachesBy_name {text : String} (h : name c = .ok (text, c')) :
    c.ReachesBy [.name text] c' := by
  obtain ⟨_ | ⟨⟨t, k⟩, xs⟩, l⟩ := c
  · cases h
  · cases t with
    | name =>
      cases h
      exact reachesBy_moved rfl nofun
    | _ => cases h

theorem reachesBy_skip_name {t : Token} (ht : c.next.token = t) (hend : t ≠ .endOfText)
    {text : String} (h : (do skip; name : Reader String) c = .ok (text, c')) :
    c.ReachesBy [t, .name text] c' :=
  (reachesBy_moved ht hend).trans (reachesBy_name h)

theorem reachesBy_expect {t : Token} (hend : t ≠ .endOfText) {e : Expectation}
    (h : expect t e c = .ok ((), c')) : c.ReachesBy [t] c' := by
  rw [expect_apply] at h
  split_ifs at h with ht
  cases h
  exact reachesBy_moved ht hend

/-- Names behind a token each are read one by one. -/
theorem reachesBy_manyRounds {condition : Cursor → Bool} (separator : Token)
    (hseparator : separator ≠ .endOfText)
    (hcondition : ∀ c, condition c = true → c.next.token = separator) {rounds : Nat}
    {names : List String}
    (h : manyRounds condition (do skip; name : Reader String) rounds c = .ok (names, c')) :
    c.ReachesBy (names.flatMap fun other => [separator, .name other]) c' := by
  induction rounds generalizing c names with
  | zero =>
    cases h
    exact reachesBy_nil _
  | succ rounds ih =>
    cases hc : condition c with
    | false =>
      rw [manyRounds_succ_of_false hc] at h
      cases h
      exact reachesBy_nil _
    | true =>
      rw [manyRounds_succ_of_true hc] at h
      obtain ⟨first, mid, hfirst, h⟩ := bind_apply_eq_ok_iff.mp h
      obtain ⟨others, _, hothers, h⟩ := bind_apply_eq_ok_iff.mp h
      cases h
      exact (reachesBy_skip_name (hcondition c hc) hseparator hfirst).trans (ih hothers)

theorem reachesBy_dottedNames {names : List String} (h : dottedNames c = .ok (names, c')) :
    c.ReachesBy (names.flatMap fun other => [.dot, .name other]) c' := by
  refine reachesBy_manyRounds .dot nofun (fun c hc => ?_) h
  exact eq_of_beq (Bool.and_eq_true_iff.mp hc).1

theorem reachesBy_moreFields {names : List String} (h : moreFields c = .ok (names, c')) :
    c.ReachesBy (names.flatMap fun other => [.comma, .name other]) c' :=
  reachesBy_manyRounds .comma nofun (fun _ hc => eq_of_beq hc) h

theorem reachesBy_compositeFields (hdot : c.at? .dot = true) (hparen : c.second = .openParen)
    {fields : List String} (h : compositeFields c = .ok (fields, c')) :
    ∃ ts, Token.AreFields ts ∧ c.ReachesBy (.dot :: ts) c' := by
  rw [compositeFields, skip_bind, skip_bind] at h
  obtain ⟨first, c₁, hfirst, h⟩ := bind_apply_eq_ok_iff.mp h
  obtain ⟨others, c₂, hothers, h⟩ := bind_apply_eq_ok_iff.mp h
  obtain ⟨_, c₃, hclose, h⟩ := bind_apply_eq_ok_iff.mp h
  cases h
  rw [second_eq] at hparen
  have hopen := (reachesBy_moved (eq_of_beq hdot) nofun).trans (reachesBy_moved hparen nofun)
  have hnames := (reachesBy_name hfirst).trans (reachesBy_moreFields hothers)
  exact ⟨_, .composite first others, hopen.trans (hnames.trans (reachesBy_expect nofun hclose))⟩

/-- A path that is no endpoint is too long. -/
theorem length_of_ofPath?_eq_none {path fields : List String} (hpath : path ≠ [])
    (h : Endpoint.ofPath? path fields = none) : 2 < path.length := by
  rcases path with _ | ⟨_, _ | ⟨_, _ | ⟨_, _⟩⟩⟩
  · exact absurd rfl hpath
  · cases h
  · cases h
  · simp

/-- What is taken for a path, a dot and fields is an endpoint that is too long, if the path is. -/
theorem overlongEndpoint_of_reachesBy {names : List String} {ts : List Token}
    (h : c.ReachesBy (Token.parted .dot names ++ .dot :: ts) c') (hnames : 2 < names.length)
    (hts : Token.AreFields ts) :
    ∃ dotLine taken, c.Reaches taken c' ∧ OverlongEndpoint dotLine c'.lastLine taken := by
  obtain ⟨taken, hreach, htokens⟩ := h
  obtain ⟨path, behind, rfl, hpath, hbehind⟩ := List.map_eq_append_iff.mp htokens
  obtain ⟨⟨_, dotLine⟩, fields, rfl, hdot, hfields⟩ := List.map_eq_cons_iff.mp hbehind
  obtain rfl : _ = Token.dot := hdot
  have hne : fields ≠ [] := by
    rintro rfl
    exact hts.ne_nil hfields.symm
  obtain ⟨fields, last, rfl⟩ := List.eq_nil_or_concat' fields |>.resolve_left hne
  have hline : last.line = c'.lastLine := by
    simp [hreach.lastLine_eq, List.getLast?_append, List.getLast?_cons]
  exact ⟨dotLine, _, hreach, .mk hnames hpath (hfields ▸ hts) hline⟩

end Reader

namespace Reader

variable {α : Type} {c : Cursor} {item : Reader α}

/-! ### One lexeme -/

theorem localizes_name : Localizes c name := by
  refine .next ?_
  split
  · exact Localizes.skip.bind fun _ _ => .give _
  · exact .unexpected _

theorem localizes_text : Localizes c text := by
  refine .next ?_
  split
  · exact Localizes.skip.bind fun _ _ => .give _
  · exact Localizes.skip.bind fun _ _ => .give _
  · exact .unexpected _

theorem localizes_relation : Localizes c relation := by
  refine .next ?_
  split
  · exact Localizes.skip.bind fun _ _ => .give _
  · exact .unexpected _

theorem localizes_expect (t : Token) (e : Expectation) : Localizes c (expect t e) :=
  .next (.ite (fun _ => .skip) fun _ => .unexpected e)

theorem localizes_expectKeyword (keyword : String) : Localizes c (expectKeyword keyword) :=
  .next (.ite (fun _ => .skip) fun _ => .unexpected _)

theorem localizes_separator : Localizes c separator :=
  .next (.ite (fun _ => .skip) fun _ => .ite (fun _ => .give _) fun _ => .unexpected _)

theorem localizes_skip_name : Localizes c (do skip; name) :=
  Localizes.skip.bind fun _ _ => localizes_name

/-! ### Lists -/

theorem localizes_braced (hitem : ∀ c, Localizes c item) : Localizes c (braced item) := by
  refine (localizes_expect _ _).bind fun _ _ => (Localizes.manyWhile hitem).bind fun items _ => ?_
  exact (localizes_expect _ _).bind fun _ _ => .give items

theorem localizes_bracketed (hitem : ∀ c, Localizes c item) : Localizes c (bracketed item) := by
  refine (localizes_expect _ _).bind fun _ _ => ?_
  refine (Localizes.manyWhile fun c => ?_).bind fun items _ => ?_
  · exact (hitem c).bind fun setting _ => localizes_separator.bind fun _ _ => .give setting
  · exact (localizes_expect _ _).bind fun _ _ => .give items

/-! ### Endpoints and types -/

theorem localizes_moreFields : Localizes c moreFields :=
  .manyWhile fun _ => localizes_skip_name

theorem localizes_compositeFields : Localizes c compositeFields := by
  refine Localizes.skip.bind fun _ _ => Localizes.skip.bind fun _ _ => ?_
  refine localizes_name.bind fun first _ => localizes_moreFields.bind fun others _ => ?_
  exact (localizes_expect _ _).bind fun _ _ => .give _

theorem localizes_dottedNames : Localizes c dottedNames :=
  .manyWhile fun _ => localizes_skip_name

/-- Of several names the last one is a field. -/
theorem splitField_concat (first last : String) (others : List String) :
    Endpoint.splitField (first :: (others ++ [last])) = (first :: others, [last]) := by
  cases others with
  | nil => rfl
  | cons second others =>
    have hnames : first :: (second :: others ++ [last]) = (first :: second :: others) ++ [last] :=
      rfl
    show ((first :: (second :: others ++ [last])).dropLast, _) = _
    rw [hnames, List.dropLast_concat, List.getLast?_concat]
    rfl

/-- A path and fields that are no endpoint are too long for one. -/
theorem eq_none_of_error (split : List String × List String) {e : ParseError}
    (h : (match split with
      | (path, fields) => match Endpoint.ofPath? path fields with
        | some endpoint => pure endpoint
        | none => do throw (.unexpected .dot .shortEndpoint (← get).lastLine) : Reader Endpoint) c =
          .error e) :
    Endpoint.ofPath? split.1 split.2 = none ∧
      e = .unexpected .dot .shortEndpoint c.lastLine := by
  obtain ⟨path, fields⟩ := split
  dsimp only at h ⊢
  cases hof : Endpoint.ofPath? path fields with
  | some endpoint =>
    rw [hof] at h
    cases h
  | none =>
    rw [hof] at h
    cases h
    exact ⟨rfl, rfl⟩

/-- The path of an endpoint and its fields behind it, which are no endpoint together, are taken as
more than two names, a dot and fields. -/
theorem reachesBy_fields {mid c' : Cursor} {first : String} {others : List String}
    {composite : Option (List String)} {split : List String × List String}
    (hsplit : split = (composite.map (first :: others, ·)).getD
      (Endpoint.splitField (first :: others)))
    (hpath : c.ReachesBy (Token.parted .dot (first :: others)) mid)
    (hparen : mid.at? .dot = true → mid.second = .openParen)
    (hcomposite : optional (·.at? .dot) compositeFields mid = .ok (composite, c'))
    (hnone : Endpoint.ofPath? split.1 split.2 = none) :
    ∃ names ts, 2 < names.length ∧ c.ReachesBy (Token.parted .dot names ++ .dot :: ts) c' ∧
      Token.AreFields ts := by
  subst hsplit
  cases hdot : mid.at? .dot with
  | true =>
    rw [optional_of_true (p := (·.at? .dot)) hdot, map_eq_pure_bind, bind_apply_eq_ok_iff]
      at hcomposite
    obtain ⟨fields, _, hfields, hgive⟩ := hcomposite
    cases hgive
    obtain ⟨ts, hts, htaken⟩ := reachesBy_compositeFields hdot (hparen hdot) hfields
    exact ⟨_, ts, length_of_ofPath?_eq_none (List.cons_ne_nil _ _) hnone, hpath.trans htaken, hts⟩
  | false =>
    rw [optional_of_false (p := (·.at? .dot)) hdot] at hcomposite
    cases hcomposite
    rcases List.eq_nil_or_concat' others with rfl | ⟨inits, last, rfl⟩
    · cases hnone
    · rw [← List.cons_append, Token.parted_concat (List.cons_ne_nil _ _)] at hpath
      rw [Option.map_none, Option.getD_none, splitField_concat] at hnone
      exact ⟨_, _, length_of_ofPath?_eq_none (List.cons_ne_nil _ _) hnone, hpath, .single last⟩

/-- What is read before it turns out that an endpoint is too long is such an endpoint. -/
theorem localizes_endpoint : Localizes c endpoint := by
  refine ⟨fun h => reaches_of_traverses (i := 0) traverses_endpoint h, fun {e} h => ?_⟩
  rw [endpoint, bind_apply, bind_eq_error_iff] at h
  rcases h with h | ⟨⟨first, c₁⟩, hfirst, h⟩
  · exact localizes_name.error h
  obtain ⟨_, hreach₁⟩ := localizes_name.ok hfirst
  rw [bind_apply, bind_eq_error_iff] at h
  rcases h with h | ⟨⟨others, c₂⟩, hothers, h⟩
  · exact hreach₁.leadsTo (localizes_dottedNames.error h)
  obtain ⟨_, hreach₂⟩ := localizes_dottedNames.ok hothers
  rw [bind_apply, bind_eq_error_iff] at h
  rcases h with h | ⟨⟨composite, c₃⟩, hcomposite, h⟩
  · exact (hreach₁.trans hreach₂).leadsTo ((Localizes.optional localizes_compositeFields).error h)
  obtain ⟨hnone, rfl⟩ := eq_none_of_error _ h
  have hpath : c.ReachesBy (Token.parted .dot (first :: others)) c₂ :=
    (reachesBy_name hfirst).trans (reachesBy_dottedNames hothers)
  have hparen : c₂.at? .dot = true → c₂.second = .openParen :=
    ((traverses_dottedNames (i := 0)).ok (Cursor.within_anywhere c₁) hothers).1
  obtain ⟨names, ts, hnames, htaken, hts⟩ :=
    reachesBy_fields (by cases composite <;> rfl) hpath hparen hcomposite hnone
  obtain ⟨dotLine, taken, hreach, hoverlong⟩ := overlongEndpoint_of_reachesBy htaken hnames hts
  exact (Cursor.Stops.overlong hreach hoverlong).leadsTo

theorem localizes_typeQualifier : Localizes c typeQualifier := by
  refine (Localizes.optional ?_).map
  exact Localizes.skip.bind fun _ _ => localizes_name.map

theorem localizes_typeArguments : Localizes c typeArguments := by
  refine (Localizes.optional ?_).map
  refine Localizes.skip.bind fun _ _ => (Localizes.run _).bind fun parts _ => ?_
  exact (localizes_expect _ _).bind fun _ _ => .give _

theorem localizes_typeArray : Localizes c typeArray := by
  refine (Localizes.optional ?_).map
  exact Localizes.skip.bind fun _ _ => Localizes.skip.bind fun _ _ => .give _

theorem localizes_columnType : Localizes c columnType := by
  refine localizes_name.bind fun base _ => localizes_typeQualifier.bind fun qualifier _ => ?_
  refine localizes_typeArguments.bind fun arguments _ => ?_
  exact localizes_typeArray.bind fun array _ => .give _

/-! ### Settings -/

theorem localizes_settingValue : Localizes c settingValue := by
  refine (Localizes.run _).bind fun parts _ => .next ?_
  exact .ite (fun _ => .give _) fun _ => .unexpected _

theorem localizes_optionalValue : Localizes c optionalValue :=
  .optional (Localizes.skip.bind fun _ _ => localizes_settingValue)

theorem localizes_setting : Localizes c setting := by
  refine localizes_name.bind fun first _ => (Localizes.run _).bind fun others _ => ?_
  exact localizes_optionalValue.bind fun value _ => .give _

theorem localizes_settings : Localizes c settings :=
  localizes_bracketed fun _ => localizes_setting

theorem localizes_settingsOnLine : Localizes c settingsOnLine :=
  (Localizes.optional localizes_settings).map

theorem localizes_headerSettings : Localizes c headerSettings :=
  (Localizes.optional localizes_settings).map

/-! ### Columns -/

theorem localizes_columnSetting : Localizes c columnSetting := by
  have flag : ∀ s : ColumnSetting, Localizes c (do skip; return some s) :=
    fun s => Localizes.skip.bind fun _ _ => .give _
  have twoWords : ∀ (other : String) (s : ColumnSetting),
      Localizes c (do skip; expectKeyword other; return some s) :=
    fun other s => Localizes.skip.bind fun _ _ =>
      (localizes_expectKeyword other).bind fun _ _ => .give _
  have keyed : ∀ {γ : Type} (value : Reader γ) (f : γ → ColumnSetting),
      (∀ c, Localizes c value) →
      Localizes c (do skip; expect .colon (.mark ":"); return some (f (← value))) :=
    fun value f hvalue => Localizes.skip.bind fun _ _ =>
      (localizes_expect _ _).bind fun _ c => (hvalue c).map
  refine .next (.ite (fun _ => flag _) fun _ => .ite (fun _ => twoWords _ _) fun _ =>
    .ite (fun _ => twoWords _ _) fun _ => .ite (fun _ => flag _) fun _ =>
    .ite (fun _ => flag _) fun _ => .ite (fun _ => flag _) fun _ =>
    .ite (fun _ => keyed _ _ fun _ => localizes_text) fun _ =>
    .ite (fun _ => keyed _ _ fun _ => localizes_settingValue) fun _ =>
    .ite (fun _ => ?_) fun _ => ?_)
  · refine Localizes.skip.bind fun _ _ => (localizes_expect _ _).bind fun _ _ => ?_
    exact localizes_relation.bind fun relation _ => localizes_endpoint.map
  · exact localizes_name.bind fun _ _ => localizes_optionalValue.bind fun _ _ => .give _

theorem localizes_columnSettings : Localizes c columnSettings :=
  (localizes_bracketed fun _ => localizes_columnSetting).map

theorem localizes_column : Localizes c column := by
  refine .next (localizes_name.bind fun name _ => ?_)
  refine (Localizes.optional localizes_columnType).bind fun type _ => ?_
  exact (Localizes.optional localizes_columnSettings).bind fun settings _ => .give _

/-! ### Indexes and notes -/

theorem localizes_indexColumns : Localizes c indexColumns := by
  refine .next (.ite (fun _ => ?_) fun _ => ?_)
  · refine Localizes.skip.bind fun _ _ => (Localizes.run _).bind fun parts _ => ?_
    exact (localizes_expect _ _).bind fun _ _ => .give _
  · split
    · exact Localizes.skip.bind fun _ _ => .give _
    · exact .unexpected _

theorem localizes_index : Localizes c index :=
  localizes_indexColumns.bind fun _ _ => localizes_settingsOnLine.bind fun _ _ => .give _

theorem localizes_noteBody : Localizes c noteBody := by
  refine .next (.ite (fun _ => ?_) fun _ => .ite (fun _ => ?_) fun _ => .unexpected _)
  · exact Localizes.skip.bind fun _ _ => localizes_text
  · refine Localizes.skip.bind fun _ _ => localizes_text.bind fun note _ => ?_
    exact (localizes_expect _ _).bind fun _ _ => .give _

/-! ### Tables and partials -/

/-- What opens a construct that the dialect may not know is next. -/
theorem localizes_requirePartials {dialect : Dialect} {construct : PartialConstruct}
    (hopens : construct.opensWith c.next.token = true) {r : Reader α} (hr : Localizes c r) :
    Localizes c (do requirePartials dialect construct c.next.line; r) := by
  cases dialect with
  | legacy => exact .of_error (Cursor.Stops.unsupported hopens).leadsTo rfl
  | partials => exact hr

theorem localizes_bodyEntry (dialect : Dialect) (injects : Bool) :
    Localizes c (bodyEntry dialect injects) := by
  refine .next (.second (.ite (fun _ => .unexpected _) fun _ => .ite (fun h => ?_) fun _ =>
    .ite (fun _ => ?_) fun _ => .ite (fun _ => ?_) fun _ => ?_))
  · refine .ite (fun _ => ?_) fun _ => .unexpected _
    have hopens : PartialConstruct.injection.opensWith c.next.token = true := by
      rw [h]
      rfl
    exact localizes_requirePartials hopens (Localizes.skip.bind fun _ _ => localizes_name.map)
  · exact Localizes.skip.bind fun _ _ => (localizes_braced fun _ => localizes_index).map
  · exact Localizes.skip.bind fun _ _ => localizes_noteBody.map
  · exact localizes_column.map

theorem localizes_qualifiedName : Localizes c qualifiedName := by
  refine localizes_name.bind fun first _ => (Localizes.optional localizes_skip_name).bind
    fun second _ => ?_
  cases second with
  | none => exact .give _
  | some second => exact .give _

theorem localizes_table (dialect : Dialect) (line : Nat) : Localizes c (table dialect line) := by
  refine localizes_qualifiedName.bind fun (schema, name) _ => ?_
  refine (Localizes.optional localizes_skip_name).bind fun shorthand _ => ?_
  refine localizes_headerSettings.bind fun settings _ => ?_
  exact (localizes_braced fun _ => localizes_bodyEntry dialect true).bind fun entries _ => .give _

theorem localizes_tablePartial (dialect : Dialect) : Localizes c (tablePartial dialect) := by
  refine localizes_name.bind fun name _ => localizes_headerSettings.bind fun _ _ => ?_
  exact (localizes_braced fun _ => localizes_bodyEntry dialect false).bind fun entries _ => .give _

/-! ### References, enumerations and projects -/

theorem localizes_refBody (name : Option String) : Localizes c (refBody name) := by
  refine .next ((Localizes.optional localizes_endpoint).bind fun left _ => ?_)
  refine localizes_relation.bind fun relation _ => ?_
  refine (Localizes.optional localizes_endpoint).bind fun right _ => ?_
  exact localizes_settingsOnLine.bind fun settings _ => .give _

theorem localizes_listedRef (name : Option String) : Localizes c (listedRef name) :=
  .next (.ite (fun _ => .unexpected _) fun _ => localizes_refBody name)

theorem localizes_refDeclaration : Localizes c refDeclaration := by
  refine (Localizes.optional localizes_name).bind fun name _ => ?_
  refine .next (.ite (fun _ => ?_) fun _ => .ite (fun _ => ?_) fun _ => .unexpected _)
  · exact Localizes.skip.bind fun _ _ => (localizes_refBody name).map
  · exact localizes_braced fun _ => localizes_listedRef name

theorem localizes_enumValue : Localizes c enumValue :=
  localizes_name.bind fun _ _ => localizes_settingsOnLine.bind fun _ _ => .give _

theorem localizes_enumeration : Localizes c enumeration := by
  refine localizes_qualifiedName.bind fun (schema, name) _ => ?_
  exact (localizes_braced fun _ => localizes_enumValue).bind fun values _ => .give _

theorem localizes_projectEntry : Localizes c projectEntry := by
  refine .next (.ite (fun _ => ?_) fun _ => ?_)
  · exact Localizes.skip.bind fun _ _ => localizes_noteBody.map
  · refine localizes_name.bind fun key _ => (localizes_expect _ _).bind fun _ _ => ?_
    exact localizes_text.map

theorem localizes_project : Localizes c project := by
  refine (Localizes.optional localizes_name).bind fun name _ => ?_
  exact (localizes_braced fun _ => localizes_projectEntry).map

/-! ### Declarations -/

theorem localizes_declaration (dialect : Dialect) : Localizes c (declaration dialect) := by
  refine .next (.ite (fun _ => ?_) fun _ => .ite (fun h => ?_) fun _ => .ite (fun _ => ?_) fun _ =>
    .ite (fun _ => ?_) fun _ => .ite (fun _ => ?_) fun _ => .unexpected _)
  · exact Localizes.skip.bind fun _ _ => localizes_project.map
  · have hopens : PartialConstruct.declaration.opensWith c.next.token = true := h
    refine localizes_requirePartials hopens ?_
    exact Localizes.skip.bind fun _ _ => (localizes_tablePartial dialect).map
  · exact Localizes.skip.bind fun _ _ => (localizes_table dialect _).map
  · exact Localizes.skip.bind fun _ _ => localizes_refDeclaration.map
  · exact Localizes.skip.bind fun _ _ => localizes_enumeration.map

theorem localizes_declarations (dialect : Dialect) : Localizes c (declarations dialect) :=
  .manyWhile fun _ => localizes_declaration dialect

end Reader

end SchemaGraph
