import Mathlib.Data.List.TakeWhile
import SchemaGraph.Document.Quoted
import SchemaGraph.Proofs.Readers
import SchemaGraph.Proofs.Relocation
import SchemaGraph.Proofs.WrittenTokens

/-!
# Reading written lines

Within a line, every reader takes the pieces that a value is written with and builds that value
(`Reader.Takes`). Some of them look further, to see whether there is more to take, so that what
follows must not be taken for more of the same.
-/

namespace SchemaGraph

/-! ### What can be written -/

/-- An endpoint with a schema has fields, without which its table would be taken for a field. -/
def Endpoint.Writable (e : Endpoint) : Prop :=
  e.schema ≠ none → e.fields ≠ []

instance : DecidablePred Endpoint.Writable :=
  fun e => inferInstanceAs (Decidable (e.schema ≠ none → e.fields ≠ []))

/-- A setting of a column has a value if it needs one. -/
def ColumnSetting.Writable : ColumnSetting → Prop
  | .default value => value ≠ ""
  | .ref r => r.target.Writable
  | _ => True

instance : DecidablePred ColumnSetting.Writable
  | .default value => inferInstanceAs (Decidable (value ≠ ""))
  | .ref r => inferInstanceAs (Decidable r.target.Writable)
  | .primaryKey | .notNull | .null | .unique | .increment | .note _ => .isTrue trivial

/-- The settings of a column can all be written. -/
def Column.Writable (c : Column) : Prop :=
  ∀ s ∈ c.settings, s.Writable

instance : DecidablePred Column.Writable :=
  fun c => inferInstanceAs (Decidable (∀ s ∈ c.settings, s.Writable))

/-- A text of which no single quote is dropped at an end. -/
def KeepsQuotes (text : String) : Prop :=
  text.toList.head? ≠ some '\'' ∧ text.toList.getLast? ≠ some '\''

instance : DecidablePred KeepsQuotes :=
  fun _ => instDecidableAnd

/-- The name of an index keeps its quotes. -/
def Index.Writable (i : Index) : Prop :=
  ∀ name ∈ i.name, KeepsQuotes name

instance : DecidablePred Index.Writable :=
  fun i => inferInstanceAs (Decidable (∀ name ∈ i.name, KeepsQuotes name))

/-- The note of a value keeps its quotes. -/
def EnumValue.Writable (v : EnumValue) : Prop :=
  ∀ note ∈ v.note, KeepsQuotes note

instance : DecidablePred EnumValue.Writable :=
  fun v => inferInstanceAs (Decidable (∀ note ∈ v.note, KeepsQuotes note))

/-- The ends of a reference can be written, and there is something to its actions. -/
structure Ref.Writable (r : Ref) : Prop where
  left : ∀ e ∈ r.left, e.Writable
  right : ∀ e ∈ r.right, e.Writable
  onDelete : r.onDelete ≠ some ""
  onUpdate : r.onUpdate ≠ some ""

instance : DecidablePred Ref.Writable := fun r =>
  decidable_of_iff ((∀ e ∈ r.left, e.Writable) ∧ (∀ e ∈ r.right, e.Writable) ∧
    r.onDelete ≠ some "" ∧ r.onUpdate ≠ some "")
    ⟨fun ⟨hl, hr, hd, hu⟩ => ⟨hl, hr, hd, hu⟩, fun h => ⟨h.left, h.right, h.onDelete, h.onUpdate⟩⟩

/-- Whether a token opens a declaration or an entry of a body, or closes the body. -/
def Token.opensEntry : Token → Bool
  | .name _ | .tilde | .closeBrace | .endOfText => true
  | _ => false

/-! ### Texts without the quotes at their ends -/

/-- The single quotes around a text are dropped with those that it has at its ends. -/
theorem unquote_quoted (text : String) : unquote ("'" ++ text ++ "'") = unquote text := by
  have hchars : ("'" ++ text ++ "'").toList = '\'' :: (text.toList ++ ['\'']) := by simp
  rw [unquote, unquote, hchars, Text.trimWhile, Text.trimWhile, List.dropWhile_cons_of_pos rfl,
    List.dropWhile_append]
  split_ifs with hall
  · rw [List.isEmpty_iff.mp hall]
    rfl
  · rw [List.reverse_append]
    rfl

/-- A text keeps its quotes exactly if none is dropped. -/
theorem unquote_eq_self_iff {text : String} : unquote text = text ↔ KeepsQuotes text := by
  have hends : ∀ cs : List Char, cs.dropWhile (· == '\'') = cs ↔ cs.head? ≠ some '\'' := by
    intro cs
    cases cs <;> simp [List.dropWhile_eq_self_iff]
  have hchars : unquote text = text ↔
      Text.trimWhile (· == '\'') text.toList = text.toList := by
    rw [unquote, ← String.toList_inj, String.toList_ofList]
  rw [hchars, Text.trimWhile, KeepsQuotes, ← List.head?_reverse, ← hends, ← hends]
  constructor
  · intro h
    -- neither of the two ends can have become shorter
    have hfront : text.toList.dropWhile (· == '\'') = text.toList := by
      refine (List.dropWhile_suffix _).eq_of_length_le ?_
      have hlength := congrArg List.length h
      have hback := (List.dropWhile_suffix (l := (text.toList.dropWhile (· == '\'')).reverse)
        (· == '\'')).length_le
      simp only [List.length_reverse] at hlength hback
      omega
    rw [hfront] at h
    exact ⟨hfront, List.reverse_eq_iff.mp h⟩
  · rintro ⟨hfront, hback⟩
    rw [hfront, hback, List.reverse_reverse]

theorem map_unquote_quoted (text : Option String) :
    (text.map fun t => "'" ++ t ++ "'").map unquote = text.map unquote := by
  rw [Option.map_map]
  exact congrArg (text.map ·) (funext unquote_quoted)

theorem map_unquote_eq_self_iff {text : Option String} :
    text.map unquote = text ↔ ∀ t ∈ text, KeepsQuotes t := by
  cases text <;> simp [unquote_eq_self_iff]

theorem Index.unquoted_eq_self_iff {i : Index} : i.unquoted = i ↔ i.Writable := by
  rw [Writable, ← map_unquote_eq_self_iff]
  constructor
  · exact congrArg name
  · intro h
    rw [unquoted, h]

theorem EnumValue.unquoted_eq_self_iff {v : EnumValue} : v.unquoted = v ↔ v.Writable := by
  rw [Writable, ← map_unquote_eq_self_iff]
  constructor
  · exact congrArg note
  · intro h
    rw [unquoted, h]

namespace Reader

variable {α β : Type}

/-- On line `line`, a reader takes some pieces, builds a value and leaves the rest. -/
def Takes (r : Reader α) (line : Nat) (pieces : List Piece) (a : α) (rest : List Lexeme) : Prop :=
  r ⟨pieces.map (Piece.lexeme line) ++ rest, line⟩ = .ok (a, ⟨rest, line⟩)

variable {r : Reader α} {f : α → Reader β} {k : Nat} {ps qs : List Piece} {a : α} {b : β}
  {rest : List Lexeme}

/-! ### One after the other -/

namespace Takes

theorem bind (hr : Takes r k ps a (qs.map (Piece.lexeme k) ++ rest))
    (hf : Takes (f a) k qs b rest) : Takes (r >>= f) k (ps ++ qs) b rest := by
  rw [Takes, List.map_append, List.append_assoc, bind_of_ok hr]
  exact hf

/-- What comes last takes no more pieces. -/
theorem before (hr : Takes r k ps a rest) (hf : Takes (f a) k [] b rest) :
    Takes (r >>= f) k ps b rest :=
  (bind_of_ok hr f).trans hf

theorem done (a : α) : Takes (pure a) k [] a rest := rfl

/-- A reader that takes one piece, and then another reader. -/
theorem cons {p : Piece} (hr : Takes r k [p] a (qs.map (Piece.lexeme k) ++ rest))
    (hf : Takes (f a) k qs b rest) : Takes (r >>= f) k (p :: qs) b rest :=
  bind hr hf

theorem optional {condition : Cursor → Bool}
    (hcondition : condition ⟨ps.map (Piece.lexeme k) ++ rest, k⟩ = true)
    (hr : Takes r k ps a rest) : Takes (Reader.optional condition r) k ps (some a) rest := by
  rw [Takes, optional_of_true hcondition, map_eq_pure_bind]
  exact before hr (done _)

theorem absent {condition : Cursor → Bool} (hcondition : condition ⟨rest, k⟩ = false) :
    Takes (Reader.optional condition r) k [] none rest :=
  optional_of_false hcondition r

end Takes

/-! ### Names -/

theorem takes_name (text : String) : Takes name k [.name text] text rest := rfl

theorem takes_skip (p : Piece) : Takes skip k [p] () rest := rfl

theorem takes_expect (t : Token) (e : Expectation) : Takes (expect t e) k [.token t] () rest := by
  rw [Takes, expect_apply]
  exact if_pos rfl

theorem takes_relation (r : Relation) : Takes relation k [.token r.token] r rest := by
  cases r <;> rfl

/-- A mark and a name behind it. -/
theorem takes_skip_name (p : Piece) (text : String) :
    Takes (do skip; name) k [p, .name text] text rest := rfl

/-- Names behind a mark each. -/
theorem takes_names {condition : Cursor → Bool} (p : Piece) (names : List String)
    (hmore : ∀ n rest, condition ⟨p.lexeme k :: (Piece.name n).lexeme k :: rest, k⟩ = true)
    (hstop : condition ⟨rest, k⟩ = false) : Takes (manyWhile condition (do skip; name)) k
      (names.flatMap fun n => [p, .name n]) names rest := by
  refine manyWhile_of_rounds ?_
  induction names with
  | nil => exact .stop hstop
  | cons n names ih =>
    exact .round (hmore n _) (takes_skip_name p n) (Nat.lt_of_succ_lt (Nat.lt_succ_self _)) ih

theorem takes_qualifiedName (schema : Option String) (text : String)
    (hdot : (⟨rest, k⟩ : Cursor).at? .dot = false) :
    Takes qualifiedName k (qualifiedPieces schema text) (schema, text) rest := by
  cases schema with
  | none => exact .cons (takes_name text) (.before (.absent hdot) (.done _))
  | some s =>
    exact .cons (takes_name s) (.before (.optional rfl (takes_skip_name _ text)) (.done _))

/-! ### Endpoints -/

theorem commaSeparated_cons (part : List Piece) (parts : List (List Piece)) :
    commaSeparated (part :: parts) = part ++ parts.flatMap (.token .comma :: ·) := by
  induction parts generalizing part with
  | nil => rfl
  | cons next parts ih =>
    change part ++ (.token .comma :: commaSeparated (next :: parts)) = _
    rw [ih, List.flatMap_cons]
    rfl

theorem takes_compositeFields (field : String) (fields : List String) :
    Takes compositeFields k (.token .dot :: .token .openParen ::
      commaSeparated ((field :: fields).map fun f => [.name f]) ++ [.token .closeParen])
      (field :: fields) rest := by
  have hpieces : .token .dot :: .token .openParen ::
      commaSeparated ((field :: fields).map fun f => [Piece.name f]) ++ [.token .closeParen] =
        .token .dot :: .token .openParen :: .name field ::
          ((fields.flatMap fun f => [.token .comma, .name f]) ++ [.token .closeParen]) := by
    rw [List.map_cons, commaSeparated_cons, List.flatMap_map]
    rfl
  rw [hpieces]
  refine .cons (takes_skip _) (.cons (takes_skip _) (.cons (takes_name field) ?_))
  refine .bind (takes_names _ fields (fun _ _ => rfl) rfl) ?_
  exact .before (takes_expect _ _) (.done _)

theorem takes_endpoint {e : Endpoint} (he : e.Writable)
    (hdot : (⟨rest, k⟩ : Cursor).at? .dot = false) : Takes endpoint k e.pieces e rest := by
  have hdots : ((⟨rest, k⟩ : Cursor).at? .dot && (⟨rest, k⟩ : Cursor).second != .openParen) =
      false := by rw [hdot, Bool.false_and]
  obtain ⟨schema, table, _ | ⟨field, fields⟩⟩ := e
  · cases schema with
    | some s => exact absurd rfl (he (Option.some_ne_none s))
    | none =>
      refine .cons (takes_name table) ?_
      refine .before (takes_names (.token .dot) [] (fun _ _ => rfl) hdots) ?_
      exact .before (.absent hdot) (.done _)
  · have hfields : Takes compositeFields k _ (field :: fields) rest :=
      takes_compositeFields field fields
    cases schema with
    | none =>
      refine .cons (takes_name table) (.bind (takes_names (.token .dot) [] (fun _ _ => rfl) rfl) ?_)
      exact .before (.optional rfl hfields) (.done _)
    | some s =>
      refine .cons (takes_name s)
        (.bind (takes_names (.token .dot) [table] (fun _ _ => rfl) rfl) ?_)
      exact .before (.optional rfl hfields) (.done _)

/-! ### Settings -/

/-- What follows a setting: another one, or the end of the settings. -/
def EndsSetting (rest : List Lexeme) : Prop :=
  ∃ x xs, rest = x :: xs ∧ (x.token = .comma ∨ x.token = .closeBracket)

/-- A reader takes the pieces of a setting. -/
structure TakesSetting (r : Reader α) (pieces : List Piece) (a : α) : Prop where
  opens : ∃ p ps, pieces = p :: ps ∧ p.toToken ≠ .closeBracket
  takes : ∀ k rest, EndsSetting rest → Takes r k pieces a rest

/-- A list of settings is taken one by one, with the commas between them. -/
theorem rounds_settings {parts : List (List Piece)} {as : List α}
    (h : List.Forall₂ (TakesSetting r) parts as) (rest : List Lexeme) :
    Rounds (fun c => !c.at? .closeBracket) (do let s ← r; separator; return s)
      ⟨(commaSeparated parts).map (Piece.lexeme k) ++ ⟨.closeBracket, k⟩ :: rest, k⟩ as
      ⟨⟨.closeBracket, k⟩ :: rest, k⟩ := by
  induction h with
  | nil => exact .stop rfl
  | @cons part a parts as ha hparts ih =>
    obtain ⟨p, ps, rfl, hp⟩ := ha.opens
    have hmore : ∀ others, (!(⟨(p :: ps).map (Piece.lexeme k) ++ others, k⟩ : Cursor).at?
        .closeBracket) = true := by
      intro others
      simp [Cursor.at?, Cursor.next, Piece.lexeme, hp]
    have hshorter : ∀ others : List Lexeme,
        others.length < ((p :: ps).map (Piece.lexeme k) ++ others).length := by
      intro others
      simp only [List.length_append, List.length_map, List.length_cons]
      omega
    cases hparts with
    | nil =>
      change Rounds _ _ ⟨((p :: ps) ++ []).map (Piece.lexeme k) ++ _, k⟩ _ _
      rw [List.append_nil]
      have htakes := ha.takes k (⟨.closeBracket, k⟩ :: rest) ⟨_, _, rfl, .inr rfl⟩
      exact .round (hmore _) (Takes.before htakes rfl) (hshorter _) ih
    | @cons next b parts bs hnext hparts =>
      change Rounds _ _ ⟨((p :: ps) ++ .token .comma :: commaSeparated (next :: parts)).map
        (Piece.lexeme k) ++ _, k⟩ _ _
      rw [List.map_append, List.append_assoc]
      have htakes : ∀ others, Takes r k (p :: ps) a (⟨.comma, k⟩ :: others) :=
        fun others => ha.takes k _ ⟨_, _, rfl, .inl rfl⟩
      have hitem : ∀ others, (do let s ← r; separator; return s : Reader α)
          ⟨(p :: ps).map (Piece.lexeme k) ++ ⟨.comma, k⟩ :: others, k⟩ = .ok (a, ⟨others, k⟩) :=
        fun others => (bind_of_ok (htakes others) _).trans rfl
      exact .round (hmore _) (hitem _) (Nat.lt_of_succ_lt (hshorter (⟨.comma, k⟩ :: _))) ih

theorem settingPieces_cons (p : Piece) (ps : List Piece) (parts : List (List Piece)) :
    settingPieces ((p :: ps) :: parts) = .token .openBracket :: p ::
      (ps ++ parts.flatMap (.token .comma :: ·) ++ [.token .closeBracket]) :=
  congrArg (fun pieces => .token .openBracket :: pieces ++ [.token .closeBracket])
    (commaSeparated_cons (p :: ps) parts)

/-- Settings in brackets are taken, if there are any. -/
theorem takes_bracketed {part : List Piece} {parts : List (List Piece)} {a : α} {as : List α}
    (h : List.Forall₂ (TakesSetting r) (part :: parts) (a :: as)) :
    Takes (bracketed r) k (settingPieces (part :: parts)) (a :: as) rest := by
  refine .cons (takes_expect _ _) (.bind (manyWhile_of_rounds (rounds_settings h rest)) ?_)
  exact .before (takes_expect _ _) (.done _)

/-! ### Values -/

/-- The longest run of tokens is taken. -/
theorem takes_run {f : Token → Option α} {as : List α} {x : Lexeme} {xs : List Lexeme}
    (h : ps.map (fun p => f p.toToken) = as.map some) (hx : f x.token = none) :
    Takes (run f) k ps as (x :: xs) := by
  rw [Takes, run_apply]
  congr 1
  induction ps generalizing as with
  | nil =>
    cases as with
    | nil => simp only [List.map_nil, List.nil_append, Cursor.run, hx]
    | cons => cases h
  | cons p ps ih =>
    cases as with
    | nil => cases h
    | cons a as =>
      obtain ⟨hp, hps⟩ := List.cons.inj h
      simp only [List.map_cons, List.cons_append, Cursor.run, Piece.lexeme, hp, ih hps]

/-- A value is taken as the texts of its tokens one behind the other, as long as there is something
to it. -/
theorem takes_settingValues {values : List String}
    (hps : ps.map (fun p => p.toToken.valueText?) = values.map some)
    (hvalues : String.join values ≠ "") (hends : EndsSetting rest) :
    Takes settingValue k ps (String.join values) rest := by
  obtain ⟨x, xs, rfl, hx⟩ := hends
  have hstop : x.token.valueText? = none := by
    rcases hx with hx | hx <;> rw [hx] <;> rfl
  exact .before (takes_run hps hstop) ((ite_apply ..).trans (if_pos ⟨hvalues, hx⟩))

/-- What follows a type, or stands in its place, is not taken for more of a type. -/
structure EndsType (line : Nat) (rest : List Lexeme) : Prop where
  name : ((⟨rest, line⟩ : Cursor).continuesLine && (⟨rest, line⟩ : Cursor).atName) = false
  dot : (⟨rest, line⟩ : Cursor).at? .dot = false
  paren : (⟨rest, line⟩ : Cursor).at? .openParen = false
  brackets : ((⟨rest, line⟩ : Cursor).at? .openBracket &&
    (⟨rest, line⟩ : Cursor).second == .closeBracket) = false

theorem takes_columnType (type : String) (h : EndsType k rest) :
    Takes columnType k [.name type] type rest := by
  have htype : Takes columnType k [.name type] (type ++ "" ++ "" ++ "") rest := by
    refine .cons (takes_name type) ?_
    refine .before (.before (.absent h.dot) (.done _)) ?_
    refine .before (.before (.absent h.paren) (.done _)) ?_
    exact .before (.before (.absent h.brackets) (.done _)) (.done _)
  simpa using htype

/-! ### What follows on other lines -/

/-- What follows stands on line `line` or further down, or is the end of the text, and opens
something. -/
def Follows (opens : Token → Bool) (line : Nat) (rest : List Lexeme) : Prop :=
  ∃ x xs, rest = x :: xs ∧ opens x.token = true ∧ (x.token = .endOfText ∨ line ≤ x.line)

variable {opens : Token → Bool} {line : Nat}

theorem Follows.continuesLine (h : Follows opens (k + 1) rest) :
    (⟨rest, k⟩ : Cursor).continuesLine = false := by
  obtain ⟨x, xs, rfl, -, hend | hline⟩ := h
  · simp [Cursor.continuesLine, Cursor.next, hend]
  · simp [Cursor.continuesLine, Cursor.next, show x.line ≠ k by omega]

theorem Follows.at? (h : Follows opens line rest) {t : Token} (ht : opens t = false) (l : Nat) :
    (⟨rest, l⟩ : Cursor).at? t = false := by
  obtain ⟨x, xs, rfl, hopens, -⟩ := h
  simp only [Cursor.at?, Cursor.next, List.headD_cons, beq_eq_false_iff_ne, ne_eq]
  rintro rfl
  rw [ht] at hopens
  cases hopens

theorem continuesLine_lexeme {p : Piece} (h : p.toToken ≠ .endOfText) (xs : List Lexeme) :
    (⟨p.lexeme k :: xs, k⟩ : Cursor).continuesLine = true := by
  simp [Cursor.continuesLine, Cursor.next, Piece.lexeme, h]

/-- At the beginning of a line, a reader takes some pieces of it. -/
def TakesLine (r : Reader α) (line : Nat) (pieces : List Piece) (a : α) (rest : List Lexeme) :
    Prop :=
  ∀ l, r ⟨pieces.map (Piece.lexeme line) ++ rest, l⟩ = .ok (a, ⟨rest, line⟩)

theorem TakesLine.bind (hr : TakesLine r k ps a (qs.map (Piece.lexeme k) ++ rest))
    (hf : Takes (f a) k qs b rest) : TakesLine (r >>= f) k (ps ++ qs) b rest := by
  intro l
  rw [List.map_append, List.append_assoc, bind_of_ok (hr l)]
  exact hf

/-! ### Columns -/

/-- A default is taken as the texts of its tokens one behind the other. -/
theorem takes_defaultSetting {values : List String}
    (hps : ps.map (fun p => p.toToken.valueText?) = values.map some)
    (hvalues : String.join values ≠ "") (hends : EndsSetting rest) :
    Takes columnSetting k (keyedPieces "default" ps) (some (.default (String.join values)))
      rest := by
  have h : Takes (do skip; expect .colon (.mark ":"); return some (.default (← settingValue)) :
      Reader (Option ColumnSetting)) k (keyedPieces "default" ps)
      (some (.default (String.join values))) rest :=
    .cons (takes_skip _) (.cons (takes_expect _ _)
      (.before (takes_settingValues hps hvalues hends) (.done _)))
  exact h

theorem takes_columnSetting {s : ColumnSetting} (hs : s.Writable) (hends : EndsSetting rest) :
    Takes columnSetting k s.pieces (some s) rest := by
  cases s with
  | default value =>
    have hjoin : String.join [value] = value := by simp [String.join]
    have h : Takes columnSetting k (keyedPieces "default" [.name value])
        (some (.default (String.join [value]))) rest :=
      takes_defaultSetting rfl (hjoin.symm ▸ hs) hends
    rwa [hjoin] at h
  | ref r =>
    have hdot : (⟨rest, k⟩ : Cursor).at? .dot = false := by
      obtain ⟨x, xs, rfl, hx⟩ := hends
      rcases hx with hx | hx <;> simp [Cursor.at?, Cursor.next, hx]
    have h : Takes (do
        skip
        expect .colon (.mark ":")
        let relation ← relation
        let target ← endpoint
        return some (.ref ⟨relation, target⟩) : Reader (Option ColumnSetting)) k
        (keyedPieces "ref" (.token r.relation.token :: r.target.pieces)) (some (.ref r)) rest :=
      .cons (takes_skip _) (.cons (takes_expect _ _) (.cons (takes_relation _)
        (.before (takes_endpoint hs hdot) (.done _))))
    exact h
  | _ => rfl

theorem takesSetting_columnSetting {s : ColumnSetting} (hs : s.Writable) :
    TakesSetting columnSetting s.pieces (some s) where
  opens := by cases s <;> exact ⟨_, _, rfl, nofun⟩
  takes _ _ hends := takes_columnSetting hs hends

theorem forall₂_columnSettings {c : Column} (hc : c.Writable) :
    List.Forall₂ (TakesSetting columnSetting) (c.settings.map ColumnSetting.pieces)
      (c.settings.map some) := by
  rw [List.forall₂_map_left_iff, List.forall₂_map_right_iff, List.forall₂_same]
  exact fun s hs => takesSetting_columnSetting (hc s hs)

/-- The settings of a column are taken, or are absent. -/
theorem takes_columnSettings {parts : List (List Piece)} {settings : List ColumnSetting}
    (h : List.Forall₂ (TakesSetting columnSetting) parts (settings.map some))
    (hrest : (⟨rest, k⟩ : Cursor).continuesLine = false) :
    ∃ found, found.getD [] = settings ∧
      Takes (optional (fun c => c.continuesLine && c.at? .openBracket) columnSettings) k
        (settingPieces parts) found rest := by
  cases settings with
  | nil =>
    cases h
    exact ⟨none, rfl, .absent (by rw [hrest, Bool.false_and])⟩
  | cons s others =>
    cases h with
    | cons hs hothers =>
      refine ⟨some (((s :: others).map some).filterMap id), by simp, .optional ?_ ?_⟩
      · exact Bool.and_eq_true_iff.mpr
          ⟨continuesLine_lexeme (p := .token .openBracket) nofun _, rfl⟩
      · exact .before (takes_bracketed (.cons hs hothers)) (.done _)

theorem Follows.endsType (h : Follows Token.opensEntry (k + 1) rest) : EndsType k rest where
  name := by rw [h.continuesLine, Bool.false_and]
  dot := h.at? rfl k
  paren := h.at? rfl k
  brackets := by rw [h.at? rfl k, Bool.false_and]

/-- Settings are not taken for the brackets of an array, since there is something between them. -/
theorem endsType_settings {parts : List (List Piece)} {as : List α}
    (h : List.Forall₂ (TakesSetting r) parts as) (hrest : Follows Token.opensEntry (k + 1) rest) :
    EndsType k ((settingPieces parts).map (Piece.lexeme k) ++ rest) := by
  cases h with
  | nil => exact hrest.endsType
  | cons hs hothers =>
    obtain ⟨p, ps, rfl, hp⟩ := hs.opens
    rw [settingPieces_cons]
    exact ⟨Bool.and_false _, rfl, rfl, beq_eq_false_iff_ne.mpr hp⟩

/-- A column is taken whatever its settings are written with, if they are taken. -/
theorem takesLine_columnOf (text : String) (type : Option String) {parts : List (List Piece)}
    {settings : List ColumnSetting}
    (h : List.Forall₂ (TakesSetting columnSetting) parts (settings.map some))
    (hrest : Follows Token.opensEntry (k + 1) rest) :
    TakesLine column k (.name text :: (type.map Piece.name).toList ++ settingPieces parts)
      ⟨text, type, settings, k⟩ rest := by
  obtain ⟨found, hfound, htakes⟩ := takes_columnSettings h hrest.continuesLine
  have hends := endsType_settings h hrest
  have htype : Takes (optional (fun c => c.continuesLine && c.atName) columnType) k
      (type.map Piece.name).toList type ((settingPieces parts).map (Piece.lexeme k) ++ rest) := by
    cases type with
    | none => exact .absent hends.name
    | some type =>
      refine .optional ?_ (takes_columnType type hends)
      exact Bool.and_eq_true_iff.mpr ⟨continuesLine_lexeme (p := .name type) nofun _, rfl⟩
  intro l
  have hbody : Takes (do
      let type ← optional (fun c => c.continuesLine && c.atName) columnType
      let settings ← optional (fun c => c.continuesLine && c.at? .openBracket) columnSettings
      return (⟨text, type, settings.getD [], k⟩ : Column)) k
      ((type.map Piece.name).toList ++ settingPieces parts) ⟨text, type, settings, k⟩ rest := by
    refine .bind htype (.before htakes ?_)
    rw [hfound]
    exact .done _
  exact hbody

/-! ### General settings -/

theorem key_lowered {word : String} (hword : Text.lowered word = word) :
    " ".intercalate ([word].map Text.lowered) = word := by
  rw [List.map_cons, hword]
  rfl

theorem takesSetting_flag {word : String} (hword : Text.lowered word = word) :
    TakesSetting setting [.keyword word] ⟨word, none⟩ where
  opens := ⟨_, _, rfl, nofun⟩
  takes k rest := by
    rintro ⟨x, xs, rfl, hx⟩
    have hname : x.token.name? = none := by rcases hx with hx | hx <;> rw [hx] <;> rfl
    have hcolon : (⟨x :: xs, k⟩ : Cursor).at? .colon = false := by
      rcases hx with hx | hx <;> simp [Cursor.at?, Cursor.next, hx]
    have hrun : Takes (run Token.name?) k [] [] (x :: xs) := takes_run rfl hname
    refine .cons (takes_name word) (.before hrun (.before (.absent hcolon) ?_))
    rw [key_lowered hword]
    exact .done _

/-- A setting has for its value the texts of the tokens behind its colon. -/
theorem takesSetting_keyedValues {word : String} {values : List String}
    (hword : Text.lowered word = word)
    (hps : ps.map (fun p => p.toToken.valueText?) = values.map some)
    (hvalues : String.join values ≠ "") :
    TakesSetting setting (keyedPieces word ps) ⟨word, some (String.join values)⟩ where
  opens := ⟨_, _, rfl, nofun⟩
  takes k rest hends := by
    have hoptional : Takes optionalValue k (.token .colon :: ps) (some (String.join values)) rest :=
      .optional rfl (.cons (takes_skip _) (takes_settingValues hps hvalues hends))
    have hrun : Takes (run Token.name?) k [] []
        ((.token .colon :: ps).map (Piece.lexeme k) ++ rest) := rfl
    refine .cons (takes_name word) (.bind hrun (.before hoptional ?_))
    rw [key_lowered hword]
    exact .done _

theorem takesSetting_keyed {word : String} {t : Token} {value : String}
    (hword : Text.lowered word = word) (ht : t.valueText? = some value) (hvalue : value ≠ "") :
    TakesSetting setting (keyedPieces word [.token t]) ⟨word, some value⟩ := by
  have hjoin : String.join [value] = value := by simp [String.join]
  have h : TakesSetting setting (keyedPieces word [.token t]) ⟨word, some (String.join [value])⟩ :=
    takesSetting_keyedValues hword (congrArg (fun found => [found]) ht) (hjoin ▸ hvalue)
  rwa [hjoin] at h

/-- A setting with a text, if there is one. -/
theorem forall₂_noteSetting (word : String) (hword : Text.lowered word = word)
    (text : Option String) : List.Forall₂ (TakesSetting setting) (noteSetting word text)
      (text.map fun t => (⟨word, some ("'" ++ t ++ "'")⟩ : Setting)).toList := by
  cases text with
  | none => exact .nil
  | some t => exact .cons (takesSetting_keyed hword rfl (by simp)) .nil

/-- A setting with a name, if there is one and it is not empty. -/
theorem forall₂_actionSetting (word : String) (hword : Text.lowered word = word)
    {value : Option String} (hvalue : value ≠ some "") :
    List.Forall₂ (TakesSetting setting) (actionSetting word value)
      (value.map fun v => (⟨word, some v⟩ : Setting)).toList := by
  cases value with
  | none => exact .nil
  | some v => exact .cons (takesSetting_keyed hword rfl fun hv => hvalue (congrArg some hv)) .nil

/-- Settings are taken where they follow on the same line, or are absent. -/
theorem takes_settingsOnLine {parts : List (List Piece)} {settings : List Setting}
    (h : List.Forall₂ (TakesSetting setting) parts settings)
    (hrest : (⟨rest, k⟩ : Cursor).continuesLine = false) :
    Takes settingsOnLine k (settingPieces parts) settings rest := by
  cases h with
  | nil => exact .before (.absent (by rw [hrest, Bool.false_and])) (.done _)
  | cons hs hothers =>
    refine .before (.optional ?_ (takes_bracketed (.cons hs hothers))) (.done _)
    exact Bool.and_eq_true_iff.mpr ⟨continuesLine_lexeme (p := .token .openBracket) nofun _, rfl⟩

/-! ### Indexes -/

/-- The columns of an index are taken with the commas between them. -/
theorem takes_indexParts (columns : List String) : ∃ parts, parts.filterMap id = columns ∧
    Takes (run Token.indexPart?) k (commaSeparated (columns.map fun c => [.name c])) parts
      (⟨.closeParen, k⟩ :: rest) := by
  cases columns with
  | nil => exact ⟨[], rfl, rfl⟩
  | cons c columns =>
    refine ⟨some c :: columns.flatMap fun c => [none, some c], ?_, takes_run ?_ rfl⟩
    · simp [List.filterMap_flatMap]
    · rw [List.map_cons, commaSeparated_cons, List.flatMap_map]
      simp only [List.singleton_append, List.map_cons, List.map_flatMap]
      rfl

theorem takesLine_indexColumns (columns : List String) : TakesLine indexColumns k
    (.token .openParen :: commaSeparated (columns.map fun c => [.name c]) ++ [.token .closeParen])
    columns rest := by
  intro l
  obtain ⟨parts, hparts, htakes⟩ := takes_indexParts (k := k) columns
  have hbody : Takes (do
      let parts ← run Token.indexPart?
      expect .closeParen .indexColumn
      return parts.filterMap id : Reader (List String)) k
      (commaSeparated (columns.map fun c => [.name c]) ++ [.token .closeParen]) columns rest := by
    refine .bind htakes (.before (takes_expect _ _) ?_)
    rw [hparts]
    exact .done _
  exact hbody

/-- The settings that an index is written with. -/
def indexSettings (i : Index) : List Setting :=
  (if i.primaryKey then [⟨"pk", none⟩] else []) ++ (if i.unique then [⟨"unique", none⟩] else [])
    ++ (i.name.map fun n => (⟨"name", some ("'" ++ n ++ "'")⟩ : Setting)).toList

theorem forall₂_indexSettings (i : Index) : List.Forall₂ (TakesSetting setting)
    ((if i.primaryKey then [[.keyword "pk"]] else [])
      ++ (if i.unique then [[.keyword "unique"]] else []) ++ noteSetting "name" i.name)
    (indexSettings i) := by
  refine List.rel_append (List.rel_append ?_ ?_) (forall₂_noteSetting "name" rfl i.name)
  · cases i.primaryKey with
    | false => exact .nil
    | true => exact .cons (takesSetting_flag rfl) .nil
  · cases i.unique with
    | false => exact .nil
    | true => exact .cons (takesSetting_flag rfl) .nil

/-- What an index is told by its settings. -/
theorem indexSettings_spec (i : Index) :
    (Setting.has (indexSettings i) "pk" || Setting.has (indexSettings i) "primary key") =
        i.primaryKey ∧
      Setting.has (indexSettings i) "unique" = i.unique ∧
      Setting.lastValue (indexSettings i) "name" = i.name.map fun n => "'" ++ n ++ "'" := by
  obtain ⟨columns, pk, unique, name⟩ := i
  cases pk <;> cases unique <;> cases name <;> exact ⟨rfl, rfl, rfl⟩

theorem takesLine_index (i : Index) (hrest : (⟨rest, k⟩ : Cursor).continuesLine = false) :
    TakesLine index k i.pieces i.unquoted rest := by
  refine .bind (takesLine_indexColumns i.columns)
    (.before (takes_settingsOnLine (forall₂_indexSettings i) hrest) ?_)
  obtain ⟨hpk, hunique, hname⟩ := indexSettings_spec i
  rw [hpk, hunique, hname, map_unquote_quoted]
  exact .done _

/-! ### Enumerations, references and notes -/

theorem takesLine_enumValue (v : EnumValue)
    (hrest : (⟨rest, k⟩ : Cursor).continuesLine = false) :
    TakesLine enumValue k v.pieces v.unquoted rest := by
  have hname : TakesLine name k [.name v.name] v.name
    ((settingPieces (noteSetting "note" v.note)).map (Piece.lexeme k) ++ rest) := fun _ => rfl
  have hsettings := takes_settingsOnLine (forall₂_noteSetting "note" rfl v.note) hrest
  refine .bind hname (.before hsettings ?_)
  have hnote : Setting.lastValue (v.note.map fun t =>
      (⟨"note", some ("'" ++ t ++ "'")⟩ : Setting)).toList "note" =
        v.note.map fun n => "'" ++ n ++ "'" := by
    cases v.note <;> rfl
  rw [hnote, map_unquote_quoted]
  exact .done _

theorem next_line_lexemes (hps : ps ≠ []) (l : Nat) :
    (⟨ps.map (Piece.lexeme k) ++ rest, l⟩ : Cursor).next.line = k := by
  obtain ⟨p, others, rfl⟩ := List.exists_cons_of_ne_nil hps
  rfl

theorem exists_endpoint_pieces (e : Endpoint) : ∃ n ps, e.pieces = .name n :: ps := by
  obtain ⟨_ | schema, table, fields⟩ := e
  · exact ⟨_, _, rfl⟩
  · exact ⟨_, _, rfl⟩

/-- An endpoint is taken where it may be left out. -/
theorem takes_optional_endpoint {condition : Cursor → Bool} {e : Option Endpoint}
    (he : ∀ e' ∈ e, e'.Writable) (hdot : (⟨rest, k⟩ : Cursor).at? .dot = false)
    (habsent : condition ⟨rest, k⟩ = false)
    (hpresent : ∀ n xs, condition ⟨(Piece.name n).lexeme k :: xs, k⟩ = true) :
    Takes (optional condition endpoint) k ((e.map Endpoint.pieces).getD []) e rest := by
  cases e with
  | none => exact .absent habsent
  | some e =>
    refine .optional ?_ (takes_endpoint (he e rfl) hdot)
    obtain ⟨n, ps, hpieces⟩ := exists_endpoint_pieces e
    change condition ⟨e.pieces.map (Piece.lexeme k) ++ rest, k⟩ = true
    rw [hpieces]
    exact hpresent n _

/-- A reference with the actions that settings list. -/
def refOfSettings (r : Ref) (listed : List Setting) : Ref :=
  { r with
    onDelete := Setting.lastValue listed "delete"
    onUpdate := Setting.lastValue listed "update" }

/-- A reference is taken with the actions that its settings list. -/
theorem takes_refBodyOf {r : Ref} (hleft : ∀ e ∈ r.left, e.Writable)
    (hright : ∀ e ∈ r.right, e.Writable) {parts : List (List Piece)} {listed : List Setting}
    (h : List.Forall₂ (TakesSetting setting) parts listed)
    (hrest : Follows Token.opensEntry (k + 1) rest) :
    Takes (refBody r.name) k ((r.left.map Endpoint.pieces).getD []
      ++ .token r.relation.token :: (r.right.map Endpoint.pieces).getD [] ++ settingPieces parts)
      ((refOfSettings r listed).mapLine fun _ => k) rest := by
  have hends := endsType_settings h hrest
  rw [Takes, refBody, next_bind, next_line_lexemes (by simp), List.append_assoc]
  refine Takes.bind (takes_optional_endpoint hleft ?_ ?_ fun _ _ => rfl) (.cons (takes_relation _)
    (.bind (takes_optional_endpoint hright hends.dot hends.name fun n xs => ?_)
      (.before (takes_settingsOnLine h hrest.continuesLine) (.done _))))
  · cases r.relation <;> rfl
  · cases r.relation <;> rfl
  · exact Bool.and_eq_true_iff.mpr ⟨continuesLine_lexeme (p := .name n) nofun _, rfl⟩

/-- What a reference is told by settings that list two actions. -/
theorem refOfSettings_actions (r : Ref) (onDelete onUpdate : Option String) :
    refOfSettings r ((onDelete.map fun v => (⟨"delete", some v⟩ : Setting)).toList
      ++ (onUpdate.map fun v => (⟨"update", some v⟩ : Setting)).toList) =
        { r with onDelete, onUpdate } := by
  cases onDelete <;> cases onUpdate <;> rfl

end Reader

end SchemaGraph
