import SchemaGraph.Proofs.LineContinuation

/-!
# Places where readers stop

A reader that stops with an error has reached some place, and the error is about what is next there
(`Cursor.Stops`): a token in place of another one, or a construct that the dialect does not know.
There is one exception. An endpoint that turns out to be too long has been read to its end, and the
error is about the whole of it (`OverlongEndpoint`). Readers that stop at such places are put
together to readers that do (`Localizes`), so that it is shown once for each way of putting them
together.
-/

namespace SchemaGraph

/-! ### Endpoints that are too long -/

namespace Token

/-- Names with a token between each two of them. -/
def parted (separator : Token) : List String → List Token
  | [] => []
  | first :: others => .name first :: others.flatMap fun other => [separator, .name other]

theorem parted_concat {separator : Token} {names : List String} (h : names ≠ []) (last : String) :
    parted separator (names ++ [last]) = parted separator names ++ [separator, .name last] := by
  obtain ⟨first, others, rfl⟩ := List.exists_cons_of_ne_nil h
  simp [parted]

/-- The fields of an endpoint: one, or several between parentheses. -/
inductive AreFields : List Token → Prop
  | single (field : String) : AreFields [.name field]
  | composite (first : String) (others : List String) :
    AreFields (.openParen :: (parted .comma (first :: others) ++ [.closeParen]))

theorem AreFields.ne_nil {ts : List Token} (h : AreFields ts) : ts ≠ [] := by
  cases h <;> simp

end Token

/-- **Lexemes are an endpoint that is too long**: a path of more than a schema and a table, a dot
on a line, and fields that end on a line. -/
inductive OverlongEndpoint (dotLine endLine : Nat) : List Lexeme → Prop
  | mk {names : List String} {path fields : List Lexeme} {last : Lexeme} (hnames : 2 < names.length)
    (hpath : path.map Lexeme.token = Token.parted .dot names)
    (hfields : Token.AreFields ((fields ++ [last]).map Lexeme.token))
    (hlast : last.line = endLine) :
    OverlongEndpoint dotLine endLine (path ++ ⟨.dot, dotLine⟩ :: (fields ++ [last]))

/-! ### Places where readers stop -/

namespace Cursor

variable {c mid c' : Cursor} {taken : List Lexeme} {ts ts' : List Token} {e : ParseError}

/-- **An error is about a place**: about the token that is next there, or about an endpoint that
begins there and is too long. -/
inductive Stops (c : Cursor) : ParseError → Prop
  | unexpected (expected : Expectation) :
    Stops c (.unexpected c.next.token expected c.next.line)
  | unsupported {construct : PartialConstruct} {dialect : Dialect}
    (hopens : construct.opensWith c.next.token = true) :
    Stops c (.unsupported construct dialect c.next.line)
  | overlong {dotLine endLine : Nat} {taken : List Lexeme} {c' : Cursor}
    (hreach : c.Reaches taken c') (h : OverlongEndpoint dotLine endLine taken) :
    Stops c (.unexpected .dot .shortEndpoint endLine)

/-- An error is about a place that is reached. -/
def LeadsTo (c : Cursor) (e : ParseError) : Prop :=
  ∃ taken mid, c.Reaches taken mid ∧ mid.Stops e

theorem Stops.leadsTo (h : c.Stops e) : c.LeadsTo e :=
  ⟨[], c, .here, h⟩

theorem Reaches.leadsTo (hreach : c.Reaches taken mid) (h : mid.LeadsTo e) : c.LeadsTo e := by
  obtain ⟨taken', place, hreach', hstops⟩ := h
  exact ⟨taken ++ taken', place, hreach.trans hreach', hstops⟩

/-- From one place another one is reached by taking lexemes with given tokens. -/
def ReachesBy (c : Cursor) (ts : List Token) (c' : Cursor) : Prop :=
  ∃ taken, c.Reaches taken c' ∧ taken.map Lexeme.token = ts

theorem reachesBy_nil (c : Cursor) : c.ReachesBy [] c :=
  ⟨[], .here, rfl⟩

theorem ReachesBy.trans (h : c.ReachesBy ts mid) (h' : mid.ReachesBy ts' c') :
    c.ReachesBy (ts ++ ts') c' := by
  obtain ⟨taken, hreach, rfl⟩ := h
  obtain ⟨taken', hreach', rfl⟩ := h'
  exact ⟨taken ++ taken', hreach.trans hreach', List.map_append⟩

theorem reachesBy_moved {t : Token} (ht : c.next.token = t) (hend : t ≠ .endOfText) :
    c.ReachesBy [t] c.moved := by
  subst ht
  exact ⟨[c.next], reaches_moved hend, rfl⟩

end Cursor

/-! ### Where errors come from -/

/-- **A reader tells where it stops**: it comes through to a place that is reached, or the error is
about such a place. -/
structure Localizes {α : Type} (c : Cursor) (r : Reader α) : Prop where
  ok : ∀ {a c'}, r c = .ok (a, c') → ∃ taken, c.Reaches taken c'
  error : ∀ {e}, r c = .error e → c.LeadsTo e

namespace Localizes

variable {α β : Type} {c : Cursor} {r r' : Reader α} {f : α → Reader β}

theorem give (a : α) : Localizes c (pure a) := by
  refine ⟨fun h => ?_, fun h => ?_⟩
  · cases h
    exact ⟨[], .here⟩
  · cases h

theorem of_error {e : ParseError} (he : c.LeadsTo e) (hr : r c = .error e) : Localizes c r := by
  refine ⟨fun h => ?_, fun h => ?_⟩
  · rw [hr] at h
    cases h
  · rw [hr] at h
    cases h
    exact he

theorem unexpected (expected : Expectation) :
    Localizes c (Reader.unexpected expected : Reader α) :=
  of_error (Cursor.Stops.unexpected expected).leadsTo rfl

/-- Only what a reader does at the place counts. -/
theorem congr (h : r c = r' c) (hr : Localizes c r') : Localizes c r :=
  ⟨fun ha => hr.ok (h ▸ ha), fun he => hr.error (h ▸ he)⟩

theorem bind (hr : Localizes c r) (hf : ∀ a c', Localizes c' (f a)) : Localizes c (r >>= f) := by
  refine ⟨fun h => ?_, fun h => ?_⟩
  · obtain ⟨a, mid, ha, hb⟩ := Reader.bind_apply_eq_ok_iff.mp h
    obtain ⟨taken, hreach⟩ := hr.ok ha
    obtain ⟨taken', hreach'⟩ := (hf a mid).ok hb
    exact ⟨taken ++ taken', hreach.trans hreach'⟩
  · rw [Reader.bind_apply, bind_eq_error_iff] at h
    rcases h with h | ⟨⟨a, mid⟩, ha, h⟩
    · exact hr.error h
    · obtain ⟨taken, hreach⟩ := hr.ok ha
      exact hreach.leadsTo ((hf a mid).error h)

/-- Only the result is put together from what is read. -/
theorem map {g : α → β} (hr : Localizes c r) : Localizes c (do return g (← r)) :=
  hr.bind fun a _ => give (g a)

theorem next {f : Lexeme → Reader α} (hf : Localizes c (f c.next)) :
    Localizes c (Reader.next >>= f) :=
  ⟨hf.ok, hf.error⟩

theorem second {f : Token → Reader α} (hf : Localizes c (f c.second)) :
    Localizes c (Reader.second >>= f) :=
  ⟨hf.ok, hf.error⟩

theorem skip : Localizes c Reader.skip := by
  refine ⟨fun h => ?_, fun h => ?_⟩
  · cases h
    obtain ⟨_ | ⟨x, xs⟩, l⟩ := c
    · exact ⟨[], .here⟩
    · exact ⟨[x], .take .here⟩
  · cases h

theorem ite {p : Prop} [Decidable p] (h₁ : p → Localizes c r) (h₂ : ¬p → Localizes c r') :
    Localizes c (if p then r else r') := by
  by_cases h : p
  · rw [if_pos h]
    exact h₁ h
  · rw [if_neg h]
    exact h₂ h

theorem run (f : Token → Option α) : Localizes c (Reader.run f) := by
  refine ⟨fun h => ?_, fun h => ?_⟩
  · obtain ⟨taken, hreach, -⟩ := Cursor.reaches_run f c.ahead c.lastLine
    rw [Reader.run_apply] at h
    rw [congrArg Prod.snd (Except.ok.inj h)] at hreach
    exact ⟨taken, hreach⟩
  · cases h

variable {condition : Cursor → Bool}

theorem optional (hr : Localizes c r) : Localizes c (Reader.optional condition r) := by
  cases h : condition c with
  | false => exact (give none).congr (Reader.optional_of_false h r)
  | true =>
    refine congr (Reader.optional_of_true h r) ?_
    rw [map_eq_pure_bind]
    exact hr.map

theorem manyRounds (hr : ∀ c, Localizes c r) (rounds : Nat) :
    Localizes c (Reader.manyRounds condition r rounds) := by
  induction rounds generalizing c with
  | zero => exact give []
  | succ rounds ih =>
    cases h : condition c with
    | false => exact (give []).congr (Reader.manyRounds_succ_of_false h rounds)
    | true =>
      refine congr (Reader.manyRounds_succ_of_true h rounds) ?_
      exact (hr c).bind fun a c' => ih.map

theorem manyWhile (hr : ∀ c, Localizes c r) : Localizes c (Reader.manyWhile condition r) :=
  ⟨(manyRounds hr _).ok, (manyRounds hr _).error⟩

end Localizes

end SchemaGraph
