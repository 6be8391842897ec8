import SchemaGraph.Grammar.Declaration
import SchemaGraph.Proofs.Fallible

/-!
# Readers at a place

What the readers that all others are made of do at a given place, and what a loop does: it reads
items round by round (`Reader.Rounds`), and every round takes a token, so that there are enough
rounds for all of them (`Reader.manyWhile_of_rounds`). A text is a document when it can be scanned
and its tokens are declarations (`Document.parse_eq_ok_iff`).
-/

namespace SchemaGraph

namespace Reader

variable {α β : Type} {c c' : Cursor}

/-! ### One step -/

theorem bind_apply (r : Reader α) (f : α → Reader β) (c : Cursor) :
    (r >>= f) c = r c >>= fun p => f p.1 p.2 := rfl

/-- Readers one after the other succeed when each of them does. -/
theorem bind_apply_eq_ok_iff {r : Reader α} {f : α → Reader β} {b : β} :
    (r >>= f) c = .ok (b, c') ↔ ∃ a mid, r c = .ok (a, mid) ∧ f a mid = .ok (b, c') := by
  rw [bind_apply, bind_eq_ok_iff]
  exact ⟨fun ⟨⟨a, mid⟩, h, h'⟩ => ⟨a, mid, h, h'⟩, fun ⟨a, mid, h, h'⟩ => ⟨(a, mid), h, h'⟩⟩

theorem bind_of_ok {r : Reader α} {a : α} (h : r c = .ok (a, c')) (f : α → Reader β) :
    (r >>= f) c = f a c' := by
  rw [bind_apply, h]
  rfl

theorem bind_of_error {r : Reader α} {e : ParseError} (h : r c = .error e) (f : α → Reader β) :
    (r >>= f) c = .error e := by
  rw [bind_apply, h]
  rfl

theorem ite_apply {p : Prop} [Decidable p] (r r' : Reader α) (c : Cursor) :
    (if p then r else r') c = if p then r c else r' c := by
  split <;> rfl

theorem next_bind (f : Lexeme → Reader α) (c : Cursor) : (next >>= f) c = f c.next c := rfl

theorem second_bind (f : Token → Reader α) (c : Cursor) : (second >>= f) c = f c.second c := rfl

theorem skip_bind (f : Unit → Reader α) (c : Cursor) : (skip >>= f) c = f () c.moved := rfl

theorem run_apply (f : Token → Option α) (c : Cursor) :
    run f c = .ok (Cursor.run f c.ahead c.lastLine) := rfl

theorem expect_apply (t : Token) (e : Expectation) (c : Cursor) : expect t e c =
    if c.next.token = t then .ok ((), c.moved)
    else .error (.unexpected c.next.token e c.next.line) :=
  ite_apply ..

theorem optional_of_true {p : Cursor → Bool} (h : p c = true) (r : Reader α) :
    optional p r c = (some <$> r) c := by
  rw [optional]
  change (if p c = true then _ else _ : Reader (Option α)) c = _
  rw [if_pos h]
  rfl

theorem optional_of_false {p : Cursor → Bool} (h : p c = false) (r : Reader α) :
    optional p r c = .ok (none, c) := by
  rw [optional]
  change (if p c = true then _ else _ : Reader (Option α)) c = _
  rw [if_neg (by simp [h])]
  rfl

/-! ### Loops -/

/-- A loop reads some items and stops where its condition fails. Every item takes a token. -/
inductive Rounds (condition : Cursor → Bool) (item : Reader α) : Cursor → List α → Cursor → Prop
  | stop {c : Cursor} (hcondition : condition c = false) : Rounds condition item c [] c
  | round {c mid c' : Cursor} {a : α} {as : List α} (hcondition : condition c = true)
      (hitem : item c = .ok (a, mid)) (htakes : mid.ahead.length < c.ahead.length)
      (hrest : Rounds condition item mid as c') : Rounds condition item c (a :: as) c'

variable {condition : Cursor → Bool} {item : Reader α} {as : List α}

theorem manyRounds_succ_of_true (h : condition c = true) (rounds : Nat) :
    manyRounds condition item (rounds + 1) c =
      (do return (← item) :: (← manyRounds condition item rounds) : Reader (List α)) c := by
  rw [manyRounds]
  change (if condition c = true then _ else _ : Reader (List α)) c = _
  rw [if_pos h]

theorem manyRounds_succ_of_false (h : condition c = false) (rounds : Nat) :
    manyRounds condition item (rounds + 1) c = .ok ([], c) := by
  rw [manyRounds]
  change (if condition c = true then _ else _ : Reader (List α)) c = _
  rw [if_neg (by simp [h])]
  rfl

theorem manyRounds_of_rounds (h : Rounds condition item c as c') {rounds : Nat}
    (hrounds : c.ahead.length ≤ rounds) : manyRounds condition item rounds c = .ok (as, c') := by
  induction h generalizing rounds with
  | @stop c hcondition =>
    cases rounds with
    | zero => rfl
    | succ rounds => exact manyRounds_succ_of_false hcondition rounds
  | round hcondition hitem htakes _ ih =>
    obtain ⟨rounds, rfl⟩ : ∃ r, rounds = r + 1 := ⟨rounds - 1, by omega⟩
    rw [manyRounds_succ_of_true hcondition, bind_of_ok hitem, bind_of_ok (ih (by omega))]
    rfl

/-- There are enough rounds for all items. -/
theorem manyWhile_of_rounds (h : Rounds condition item c as c') :
    manyWhile condition item c = .ok (as, c') :=
  manyRounds_of_rounds h (Nat.le_refl _)

end Reader

/-! ### Texts -/

namespace Document

variable {dialect : Dialect} {text : String}

theorem parse_of_scan {lexemes : List Lexeme} (h : scan text = .ok lexemes) :
    parse dialect text =
      (Reader.declarations dialect ⟨lexemes, 1⟩).map fun p => ofDeclarations p.1 := by
  rw [parse, h]
  change Reader.declarations dialect ⟨lexemes, 1⟩ >>= _ = _
  cases Reader.declarations dialect ⟨lexemes, 1⟩ <;> rfl

theorem parse_of_scan_error {e : ScanError} (h : scan text = .error e) :
    parse dialect text = .error (.scan e) := by
  rw [parse, h]
  rfl

/-- A text is a document when it can be scanned and its tokens are declarations. -/
theorem parse_eq_ok_iff {d : Document} : parse dialect text = .ok d ↔
    ∃ lexemes declared c, scan text = .ok lexemes ∧
      Reader.declarations dialect ⟨lexemes, 1⟩ = .ok (declared, c) ∧
        ofDeclarations declared = d := by
  cases hs : scan text with
  | error e =>
    rw [parse_of_scan_error hs]
    simp
  | ok lexemes =>
    rw [parse_of_scan hs, map_eq_ok_iff]
    constructor
    · rintro ⟨⟨declared, c⟩, h, hd⟩
      exact ⟨lexemes, declared, c, rfl, h, hd⟩
    · rintro ⟨_, declared, c, hl, h, hd⟩
      cases hl
      exact ⟨(declared, c), h, hd⟩

end Document

end SchemaGraph
