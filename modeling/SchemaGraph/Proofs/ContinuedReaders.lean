import SchemaGraph.Proofs.Continuation
import SchemaGraph.Proofs.Relocation

/-!
# The readers in texts that go on

Every reader of the grammar comes through in a text that goes on as it does in the text on its own.
-/

namespace SchemaGraph

namespace Reader

variable {α β : Type} {K : Continuation} {lax : Bool} {p : Cursor}

/-! ### One lexeme -/

theorem carries_skip {x : Lexeme} {xs : List Lexeme} {l : Nat} (hp : K.Fits ⟨x :: xs, l⟩) :
    Carries K lax 1 id ⟨x :: xs, l⟩ skip skip := by
  intro a c h
  cases h
  exact ⟨⟨xs, x.line⟩, rfl, hp.tail, Nat.le_refl _, .inr rfl⟩

theorem carries_name (hp : K.Fits p) : Carries K lax 1 id p name name := by
  obtain ⟨_ | ⟨⟨t, k⟩, xs⟩, l⟩ := p
  · exact .of_error rfl
  · cases t with
    | name text => exact .next (.skip hp fun hq => .done hq text)
    | _ => exact .of_error rfl

theorem carries_text (hp : K.Fits p) : Carries K lax 1 id p text text := by
  obtain ⟨_ | ⟨⟨t, k⟩, xs⟩, l⟩ := p
  · exact .of_error rfl
  · cases t with
    | name text | string text => exact .next (.skip hp fun hq => .done hq text)
    | _ => exact .of_error rfl

theorem carries_relation (hp : K.Fits p) : Carries K lax 1 id p relation relation := by
  obtain ⟨_ | ⟨⟨t, k⟩, xs⟩, l⟩ := p
  · exact .of_error rfl
  · cases t with
    | less | greater | minus | diamond => exact .next (.skip hp fun hq => .done hq _)
    | _ => exact .of_error rfl

theorem carries_expect {t : Token} (ht : t ≠ .endOfText) (e : Expectation) (hp : K.Fits p) :
    Carries K lax 1 id p (expect t e) (expect t e) := by
  obtain ⟨_ | ⟨x, xs⟩, l⟩ := p
  · exact .of_error ((expect_apply t e _).trans (if_neg (Ne.symm ht)))
  · exact .next (.ite (fun _ => carries_skip hp) fun _ => .of_error rfl)

theorem carries_expectKeyword (keyword : String) (hp : K.Fits p) :
    Carries K lax 1 id p (expectKeyword keyword) (expectKeyword keyword) := by
  obtain ⟨_ | ⟨x, xs⟩, l⟩ := p
  · exact .of_error rfl
  · exact .next (.ite (fun _ => carries_skip hp) fun _ => .of_error rfl)

theorem carries_separator (hp : K.Fits p) : Carries K lax 0 id p separator separator := by
  obtain ⟨_ | ⟨x, xs⟩, l⟩ := p
  · exact .of_error rfl
  · exact .next (.ite (fun _ => .forget (carries_skip hp)) fun _ =>
      .ite (fun _ => .done hp _) fun _ => .of_error rfl)

/-! ### Lists -/

theorem carries_braced {item : Reader α} {item' : Reader β} {g : α → β} (hp : K.Fits p)
    (hitem : ∀ q, K.Fits q → Carries K true 1 g q item item') :
    Carries K lax 1 (List.map g) p (braced item) (braced item') := by
  refine .bind (carries_expect (by decide) _ hp) fun _ q hq => ?_
  refine .closed (.manyWhile hq (fun q => ?_) hitem) (fun as q hq => ?_) ?_
  · rw [Continuation.at?_within (by decide) rfl]
  · exact .forget (.bind (carries_expect (by decide) _ hq) fun _ q hq => .done hq _)
  · rintro as l x ⟨⟩

theorem carries_bracketed {item : Reader α} (hp : K.Fits p)
    (hitem : ∀ q, K.Fits q → Carries K true 1 id q item item) :
    Carries K lax 1 id p (bracketed item) (bracketed item) := by
  refine .bind (carries_expect (by decide) _ hp) fun _ q hq => ?_
  refine .closed (g := List.map id) (.manyWhile hq (fun q => ?_) fun q hq => ?_)
    (fun as q hq => ?_) ?_
  · rw [Continuation.at?_within (by decide) rfl]
  · exact .bind (hitem q hq) fun a q hq => .bind (carries_separator hq) fun _ q hq => .done hq a
  · rw [List.map_id]
    exact .forget (.bind (carries_expect (by decide) _ hq) fun _ q hq => .done hq as)
  · rintro as l x ⟨⟩

theorem carries_optional {condition : Cursor → Bool} {item : Reader α} (hp : K.Fits p)
    (hcondition : condition (K.alone p) = condition (K.within p))
    (hitem : condition (K.alone p) = true → Carries K lax 0 id p item item) :
    Carries K lax 0 id p (optional condition item) (optional condition item) := by
  rw [← Option.map_id]
  exact .optional hp hcondition hitem

theorem carries_optional_lax {condition : Cursor → Bool} {item : Reader α} (hp : K.Fits p)
    (hend : ∀ l, condition (K.alone ⟨[], l⟩) = false)
    (hcondition : ∀ x xs l, condition (K.alone ⟨x :: xs, l⟩) = condition (K.within ⟨x :: xs, l⟩))
    (hitem : condition (K.alone p) = true → Carries K true 0 id p item item) :
    Carries K true 0 id p (optional condition item) (optional condition item) := by
  rw [← Option.map_id]
  exact .optional_lax hp hend hcondition hitem

/-- A list of names that a mark precedes each. -/
theorem carries_skip_name (hp : K.Fits p) :
    Carries K lax 1 id p (do skip; name) (do skip; name) := by
  obtain ⟨_ | ⟨x, xs⟩, l⟩ := p
  · exact .of_error rfl
  · exact .skip hp fun hq => .forget (carries_name hq)

theorem carries_names {condition : Cursor → Bool} (hp : K.Fits p)
    (hcondition : ∀ q, condition (K.alone q) = condition (K.within q)) :
    Carries K lax 0 id p (manyWhile condition (do skip; name))
      (manyWhile condition (do skip; name)) := by
  rw [← List.map_id_fun]
  exact .manyWhile hp hcondition fun q hq => carries_skip_name hq

/-! ### Endpoints and types -/

theorem carries_moreFields (hp : K.Fits p) : Carries K lax 0 id p moreFields moreFields :=
  carries_names hp (Continuation.at?_within (by decide) rfl)

theorem carries_compositeFields (hp : K.Fits p) :
    Carries K lax 0 id p compositeFields compositeFields := by
  obtain ⟨_ | ⟨x, _ | ⟨y, ys⟩⟩, l⟩ := p
  · exact .of_error rfl
  · exact .of_error rfl
  · refine .forget (.skip hp fun hp => .forget (.skip hp fun hp => .forget (m := 1) ?_))
    exact .bind (carries_name hp) fun first q hq =>
      .bind (carries_moreFields hq) fun others q hq =>
        .forget (.bind (carries_expect (by decide) _ hq) fun _ q hq => .done hq _)

theorem carries_dottedNames (hp : K.Fits p) : Carries K lax 0 id p dottedNames dottedNames := by
  refine carries_names hp fun q => ?_
  obtain ⟨_ | ⟨x, xs⟩, l⟩ := q
  · rw [← Continuation.at?_within (by decide) rfl]
    rfl
  · rw [← Continuation.at?_within (by decide) rfl, bne, bne,
      Continuation.second_within (by decide) rfl]

theorem carries_endpoint (hp : K.Fits p) : Carries K lax 1 id p endpoint endpoint := by
  refine .bind (carries_name hp) fun first q hq => .bind (carries_dottedNames hq) fun others q hq =>
    .bind (carries_optional hq (Continuation.at?_within (by decide) rfl q)
      fun _ => carries_compositeFields hq) fun composite q hq => ?_
  dsimp only [id]
  generalize Endpoint.ofPath? _ _ = found
  cases found with
  | some e => exact .done hq e
  | none => exact .of_error rfl

theorem carries_typeQualifier (hp : K.Fits p) :
    Carries K lax 0 id p typeQualifier typeQualifier := by
  refine .bind (carries_optional hp (Continuation.at?_within (by decide) rfl p) fun _ => ?_)
    fun qualifier q hq => .done hq _
  obtain ⟨_ | ⟨x, xs⟩, l⟩ := p
  · exact .of_error rfl
  · exact .forget (.skip hp fun hp => .forget (.bind (carries_name hp) fun text q hq => .done hq _))

theorem carries_typeArguments (hp : K.Fits p) :
    Carries K lax 0 id p typeArguments typeArguments := by
  refine .bind (carries_optional hp (Continuation.at?_within (by decide) rfl p) fun _ => ?_)
    fun arguments q hq => .done hq _
  obtain ⟨_ | ⟨x, xs⟩, l⟩ := p
  · exact .of_error rfl
  · refine .forget (.skip hp fun hp => .closed (.run rfl hp) (fun parts q hq => ?_) ?_)
    · exact .forget (.bind (carries_expect (by decide) _ hq) fun _ q hq => .done hq _)
    · rintro parts l x ⟨⟩

theorem carries_typeArray (hp : K.Fits p) : Carries K lax 0 id p typeArray typeArray := by
  refine .bind (carries_optional hp ?_ fun hbrackets => ?_) fun array q hq => .done hq _
  · obtain ⟨_ | ⟨x, xs⟩, l⟩ := p
    · rw [← Continuation.at?_within (by decide) rfl]
      rfl
    · rw [← Continuation.at?_within (by decide) rfl, Continuation.second_within (by decide) rfl]
  · obtain ⟨_ | ⟨x, _ | ⟨y, ys⟩⟩, l⟩ := p
    · cases hbrackets
    · rw [Bool.and_eq_true] at hbrackets
      cases hbrackets.2
    · exact .forget (.skip hp fun hp => .forget (.skip hp fun hp => .done hp "[]"))

theorem carries_columnType (hp : K.Fits p) : Carries K lax 1 id p columnType columnType :=
  .bind (carries_name hp) fun _ _ hq => .bind (carries_typeQualifier hq) fun _ _ hq =>
    .bind (carries_typeArguments hq) fun _ _ hq => .bind (carries_typeArray hq) fun _ _ hq =>
      .done hq _

/-! ### Settings -/

theorem carries_settingValue (hp : K.Fits p) :
    Carries K lax 0 id p settingValue settingValue := by
  -- at the very end of the text there is neither a comma nor the end of the settings
  have hend : ∀ (parts : List String) (l : Nat), ¬ (String.join parts ≠ "" ∧
      ((K.alone ⟨[], l⟩).next.token = .comma ∨ (K.alone ⟨[], l⟩).next.token = .closeBracket)) := by
    intro parts l h
    simp [Continuation.alone, Cursor.next] at h
  refine .closed (.run rfl hp) (fun parts q hq => ?_) fun parts l x h => ?_
  · obtain ⟨_ | ⟨x, xs⟩, l⟩ := q
    · exact .of_error ((ite_apply ..).trans (if_neg (hend parts l)))
    · exact .next (.ite (fun _ => .done hq _) fun _ => .of_error rfl)
  · rw [next_bind, ite_apply, if_neg (hend parts l)] at h
    cases h

theorem carries_optionalValue (hp : K.Fits p) :
    Carries K lax 0 id p optionalValue optionalValue := by
  refine carries_optional hp (Continuation.at?_within (by decide) rfl p) fun _ => ?_
  obtain ⟨_ | ⟨x, xs⟩, l⟩ := p
  · exact .of_error rfl
  · exact .forget (.skip hp fun hp => carries_settingValue hp)

theorem carries_setting (hp : K.Fits p) : Carries K true 1 id p setting setting :=
  .bind (carries_name hp) fun _ _ hq => .bind (.run rfl hq) fun _ _ hq =>
    .bind (carries_optionalValue hq) fun _ _ hq => .done hq _

theorem carries_settings (hp : K.Fits p) : Carries K lax 1 id p settings settings :=
  carries_bracketed hp fun _ hq => carries_setting hq

theorem carries_settingsOnLine (hp : K.Fits p) :
    Carries K lax 0 id p settingsOnLine settingsOnLine := by
  refine .bind (carries_optional hp ?_ fun _ => .forget (carries_settings hp)) fun _ _ hq =>
    .done hq _
  exact Continuation.continuesLine_and_within (·.at? .openBracket) hp
    fun _ _ _ => rfl

theorem carries_headerSettings (hp : K.Fits p) :
    Carries K lax 0 id p headerSettings headerSettings :=
  .bind (carries_optional hp (Continuation.at?_within (by decide) rfl p) fun _ =>
    .forget (carries_settings hp)) fun _ _ hq => .done hq _

/-! ### Columns -/

theorem carries_columnSetting (hp : K.Fits p) :
    Carries K lax 1 id p columnSetting columnSetting := by
  obtain ⟨_ | ⟨x, xs⟩, l⟩ := p
  · exact .of_error rfl
  have flag : ∀ s : ColumnSetting, Carries K lax 1 id ⟨x :: xs, l⟩
      (do skip; return some s) (do skip; return some s) :=
    fun s => .skip hp fun hp => .done hp _
  have twoWords : ∀ (keyword : String) (s : ColumnSetting), Carries K lax 1 id ⟨x :: xs, l⟩
      (do skip; expectKeyword keyword; return some s)
      (do skip; expectKeyword keyword; return some s) :=
    fun keyword s => .skip hp fun hp => .forget (.bind (carries_expectKeyword keyword hp)
      fun _ _ hq => .done hq _)
  have keyed : ∀ {γ : Type} (value : Reader γ) (f : γ → ColumnSetting),
      (∀ q, K.Fits q → Carries K lax 0 id q value value) → Carries K lax 1 id ⟨x :: xs, l⟩
        (do skip; expect .colon (.mark ":"); return some (f (← value)))
        (do skip; expect .colon (.mark ":"); return some (f (← value))) :=
    fun value f hvalue => .skip hp fun hp => .forget (.bind (carries_expect (by decide) _ hp)
      fun _ _ hq => .bind (hvalue _ hq) fun _ _ hq => .done hq _)
  refine .next (.ite (fun _ => flag _) fun _ => .ite (fun _ => twoWords _ _) fun _ =>
    .ite (fun _ => twoWords _ _) fun _ => .ite (fun _ => flag _) fun _ =>
    .ite (fun _ => flag _) fun _ => .ite (fun _ => flag _) fun _ =>
    .ite (fun _ => keyed _ _ fun q hq => .forget (carries_text hq)) fun _ =>
    .ite (fun _ => keyed _ _ fun q hq => carries_settingValue hq) fun _ =>
    .ite (fun _ => ?_) fun _ => ?_)
  · refine .skip hp fun hp => .forget (.bind (carries_expect (by decide) _ hp) fun _ _ hq => ?_)
    exact .forget (.bind (carries_relation hq) fun _ _ hq =>
      .forget (.bind (carries_endpoint hq) fun _ _ hq => .done hq _))
  · exact .bind (carries_name hp) fun _ _ hq => .bind (carries_optionalValue hq) fun _ _ hq =>
      .done hq _

theorem carries_columnSettings (hp : K.Fits p) :
    Carries K lax 1 id p columnSettings columnSettings :=
  .bind (carries_bracketed hp fun _ hq => carries_columnSetting hq) fun _ _ hq => .done hq _

theorem carries_column (hp : K.Fits p) :
    Carries K lax 1 (Column.mapLine K.line) p column column := by
  obtain ⟨_ | ⟨x, xs⟩, l⟩ := p
  · exact .of_error rfl
  refine .next (.bind (carries_name hp) fun name q hq => .bind (carries_optional hq ?_ fun _ =>
    .forget (carries_columnType hq)) fun type q hq => .bind (carries_optional hq ?_ fun _ =>
      .forget (carries_columnSettings hq)) fun settings q hq => .done hq (Column.mk _ _ _ _))
  · exact Continuation.continuesLine_and_within Cursor.atName hq fun _ _ _ => rfl
  · exact Continuation.continuesLine_and_within (·.at? .openBracket) hq
      fun _ _ _ => rfl

/-! ### Indexes and notes -/

theorem carries_indexColumns (hp : K.Fits p) :
    Carries K lax 1 id p indexColumns indexColumns := by
  obtain ⟨_ | ⟨x, xs⟩, l⟩ := p
  · exact .of_error rfl
  refine .next (.ite (fun _ => ?_) fun _ => ?_)
  · refine .skip hp fun hp => .closed (.run rfl hp) (fun parts q hq => ?_) ?_
    · exact .forget (.bind (carries_expect (by decide) _ hq) fun _ _ hq => .done hq _)
    · rintro parts l x ⟨⟩
  · dsimp only [Lexeme.mapLine]
    generalize x.token.indexColumn? = found
    cases found with
    | none => exact .of_error rfl
    | some column => exact .skip hp fun hq => .done hq _

theorem carries_index (hp : K.Fits p) : Carries K lax 1 id p index index :=
  .bind (carries_indexColumns hp) fun _ _ hq => .bind (carries_settingsOnLine hq) fun _ _ hq =>
    .done hq _

theorem carries_noteBody (hp : K.Fits p) : Carries K lax 1 id p noteBody noteBody := by
  obtain ⟨_ | ⟨x, xs⟩, l⟩ := p
  · exact .of_error rfl
  refine .next (.ite (fun _ => ?_) fun _ => .ite (fun _ => ?_) fun _ => .of_error rfl)
  · exact .skip hp fun hp => .forget (carries_text hp)
  · exact .skip hp fun hp => .forget (.bind (carries_text hp) fun _ _ hq =>
      .forget (.bind (carries_expect (by decide) _ hq) fun _ _ hq => .done hq _))

/-! ### Tables and partials -/

/-- A dialect knows partials on whatever line they stand. -/
theorem carries_requirePartials {dialect : Dialect} {construct : PartialConstruct} {m : Nat}
    {line line' : Nat} {g : α → β} {f : Unit → Reader α} {f' : Unit → Reader β}
    (hf : Carries K lax m g p (f ()) (f' ())) :
    Carries K lax m g p (requirePartials dialect construct line >>= f)
      (requirePartials dialect construct line' >>= f') := by
  cases dialect with
  | legacy => exact .of_error rfl
  | partials => exact hf

theorem carries_bodyEntry (dialect : Dialect) (injects : Bool) (hp : K.Fits p) :
    Carries K lax 1 (BodyEntry.mapLine K.line) p (bodyEntry dialect injects)
      (bodyEntry dialect injects) := by
  obtain ⟨_ | ⟨x, xs⟩, l⟩ := p
  · exact .of_error rfl
  have second_iff : ∀ {t : Token}, t ≠ .endOfText → t.isName = false →
      ((K.alone ⟨x :: xs, l⟩).second = t ↔ (K.within ⟨x :: xs, l⟩).second = t) :=
    fun h hname => Continuation.second_eq_within h hname x xs l
  refine .next (.second (.ite (fun _ => .of_error rfl) fun _ => .ite (fun _ => ?_) fun _ =>
    .ite_of_iff ?_ (fun _ => ?_) fun _ => .ite_of_iff ?_ (fun _ => ?_) fun _ => ?_))
  · exact .ite (fun _ => carries_requirePartials (.skip hp fun hp => .forget
      (.bind (carries_name hp) fun _ _ hq => .done hq (BodyEntry.marker _ _))))
      fun _ => .of_error rfl
  · exact and_congr_right' (second_iff (by decide) rfl)
  · exact .skip hp fun hp => .forget (.bind (carries_braced hp fun _ hq => carries_index hq)
      fun _ _ hq => .give hq (by rw [List.map_id]; rfl))
  · exact and_congr_right' (or_congr (second_iff (by decide) rfl) (second_iff (by decide) rfl))
  · exact .skip hp fun hp => .forget (.bind (carries_noteBody hp) fun _ _ hq =>
      .done hq (BodyEntry.note _))
  · exact .bind (carries_column hp) fun _ _ hq => .done hq (BodyEntry.column _)

theorem carries_qualifiedName (hp : K.Fits p) :
    Carries K lax 1 id p qualifiedName qualifiedName := by
  refine .bind (carries_name hp) fun first q hq => .bind (carries_optional hq
    (Continuation.at?_within (by decide) rfl q) fun _ => .forget (carries_skip_name hq)) ?_
  rintro (_ | second) q hq
  · exact .done hq _
  · exact .done hq _

/-- A shorthand can be missing at the very end of a text, but not the body of a table. -/
theorem carries_table (dialect : Dialect) (line : Nat) (hp : K.Fits p) :
    Carries K lax 1 (Table.mapLines K.line) p (table dialect line)
      (table dialect (K.line line)) := by
  refine .bind (carries_qualifiedName hp) ?_
  rintro ⟨schema, name⟩ q hq
  refine .closed (carries_optional_lax hq (fun _ => rfl) (fun _ _ _ => rfl)
    fun _ => .forget (carries_skip_name hq)) (fun shorthand q hq => ?_) ?_
  · refine .bind (carries_headerSettings hq) fun settings q hq => .forget (.bind
      (carries_braced hq fun _ hq => carries_bodyEntry dialect true hq) fun entries q hq => ?_)
    refine .give hq ?_
    simp only [Table.mapLines, BodyEntry.items_mapLine, BodyEntry.allIndexes_mapLine,
      BodyEntry.lastNote?_mapLine, id]
  · rintro shorthand l x ⟨⟩

theorem carries_tablePartial (dialect : Dialect) (hp : K.Fits p) :
    Carries K lax 1 (Partial.mapLines K.line) p (tablePartial dialect) (tablePartial dialect) := by
  refine .bind (carries_name hp) fun name q hq => .bind (carries_headerSettings hq) fun _ q hq =>
    .forget (.bind (carries_braced hq fun _ hq => carries_bodyEntry dialect false hq)
      fun entries q hq => .give hq ?_)
  simp only [Partial.mapLines, BodyEntry.items_mapLine, BodyEntry.allIndexes_mapLine,
    BodyEntry.lastNote?_mapLine, filterMap_column?_mapLine, id]

/-! ### References, enumerations and projects -/

/-- An end that is missing at the left can be there behind the text, but not the relation. -/
theorem carries_refBody (name : Option String) (hp : K.Fits p) :
    Carries K lax 1 (Ref.mapLine K.line) p (refBody name) (refBody name) := by
  obtain ⟨_ | ⟨x, xs⟩, l⟩ := p
  · exact .of_error rfl
  refine .next (.closed_of_add (m := 0) (n := 1) (carries_optional_lax hp (fun _ => rfl)
    (fun _ _ _ => rfl) fun _ => .forget (carries_endpoint hp)) (fun left q hq => ?_) ?_)
  · refine .bind (carries_relation hq) fun relation q hq => .bind (carries_optional hq ?_ fun _ =>
      .forget (carries_endpoint hq)) fun right q hq => .bind (carries_settingsOnLine hq)
        fun settings q hq => .done hq (Ref.mk _ _ _ _ _ _ _)
    exact Continuation.continuesLine_and_within Cursor.atName hq fun _ _ _ => rfl
  · rintro left l x ⟨⟩

theorem carries_listedRef (name : Option String) (hp : K.Fits p) :
    Carries K lax 1 (Ref.mapLine K.line) p (listedRef name) (listedRef name) := by
  obtain ⟨_ | ⟨x, xs⟩, l⟩ := p
  · exact .of_error rfl
  · exact .next (.ite (fun _ => .of_error rfl) fun _ => carries_refBody name hp)

theorem carries_refDeclaration (hp : K.Fits p) :
    Carries K lax 0 (List.map (Ref.mapLine K.line)) p refDeclaration refDeclaration := by
  refine .closed (carries_optional_lax hp (fun _ => rfl) (fun _ _ _ => rfl)
    fun _ => .forget (carries_name hp)) (fun name q hq => ?_) ?_
  · obtain ⟨_ | ⟨x, xs⟩, l⟩ := q
    · exact .of_error rfl
    refine .next (.ite (fun _ => ?_) fun _ => .ite (fun _ => ?_) fun _ => .of_error rfl)
    · exact .forget (.skip hq fun hq => .forget (.bind (carries_refBody name hq) fun _ _ hq =>
        .done hq [_]))
    · exact .forget (carries_braced hq fun _ hq => carries_listedRef name hq)
  · rintro name l x ⟨⟩

theorem carries_enumValue (hp : K.Fits p) : Carries K lax 1 id p enumValue enumValue :=
  .bind (carries_name hp) fun _ _ hq => .bind (carries_settingsOnLine hq) fun _ _ hq => .done hq _

theorem carries_enumeration (hp : K.Fits p) :
    Carries K lax 1 id p enumeration enumeration := by
  refine .bind (carries_qualifiedName hp) ?_
  rintro ⟨schema, name⟩ q hq
  exact .forget (.bind (carries_braced hq fun _ hq => carries_enumValue hq) fun _ _ hq =>
    .give hq (by rw [List.map_id]; rfl))

theorem carries_projectEntry (hp : K.Fits p) :
    Carries K lax 1 id p projectEntry projectEntry := by
  obtain ⟨_ | ⟨x, xs⟩, l⟩ := p
  · exact .of_error rfl
  refine .next (.ite (fun _ => ?_) fun _ => ?_)
  · exact .skip hp fun hp => .forget (.bind (carries_noteBody hp) fun _ _ hq => .done hq _)
  · exact .bind (carries_name hp) fun _ _ hq => .forget (.bind (carries_expect (by decide) _ hq)
      fun _ _ hq => .forget (.bind (carries_text hq) fun _ _ hq => .done hq _))

theorem carries_project (hp : K.Fits p) : Carries K lax 0 id p project project := by
  refine .closed (carries_optional_lax hp (fun _ => rfl) (fun _ _ _ => rfl)
    fun _ => .forget (carries_name hp)) (fun name q hq => ?_) ?_
  · exact .forget (.bind (carries_braced hq fun _ hq => carries_projectEntry hq) fun _ _ hq =>
      .give hq (by rw [List.map_id]; rfl))
  · rintro name l x ⟨⟩

/-! ### Declarations -/

theorem carries_declaration (dialect : Dialect) (hp : K.Fits p) :
    Carries K lax 1 (Declaration.mapLines K.line) p (declaration dialect)
      (declaration dialect) := by
  obtain ⟨_ | ⟨x, xs⟩, l⟩ := p
  · exact .of_error rfl
  refine .next (.ite (fun _ => ?_) fun _ => .ite (fun _ => ?_) fun _ => .ite (fun _ => ?_) fun _ =>
    .ite (fun _ => ?_) fun _ => .ite (fun _ => ?_) fun _ => .of_error rfl)
  · exact .skip hp fun hp => .bind (carries_project hp) fun _ _ hq =>
      .done hq (Declaration.project _)
  · exact carries_requirePartials (.skip hp fun hp => .forget (.bind
      (carries_tablePartial dialect hp) fun _ _ hq => .done hq (Declaration.tablePartial _)))
  · exact .skip hp fun hp => .forget (.bind (carries_table dialect _ hp) fun _ _ hq =>
      .done hq (Declaration.table _))
  · exact .skip hp fun hp => .bind (carries_refDeclaration hp) fun _ _ hq =>
      .done hq (Declaration.refs _)
  · exact .skip hp fun hp => .forget (.bind (carries_enumeration hp) fun _ _ hq =>
      .done hq (Declaration.enumeration _))

end Reader

end SchemaGraph
