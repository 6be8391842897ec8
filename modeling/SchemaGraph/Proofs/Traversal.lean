import SchemaGraph.Proofs.Nesting
import SchemaGraph.Proofs.Readers

/-!
# Going through lexemes

What every reader keeps to, wherever it is used (`Traverses`). It takes the lexemes that are next,
one after the other (`Cursor.Reaches`), and the braces among them nest. Where it stops, the error is
about a lexeme that is there (`ParseError.About`); where it comes through, something more is known
of the result and the place. Readers that keep to this are put together to readers that do, so that
it is shown once for each way of putting them together.
-/

namespace SchemaGraph

/-- Some lexeme in question is on the line `l`. -/
def OnLine (On : Lexeme → Prop) (l : Nat) : Prop :=
  ∃ x, On x ∧ x.line = l

/-- Whether a token opens a construct that only the dialect with partials knows. -/
def PartialConstruct.opensWith : PartialConstruct → Token → Bool
  | .declaration, t => t.isKeyword "TablePartial"
  | .injection, t => t == .tilde

/-- **An error is about some lexeme in question**: it stands in place of another one, it opens a
construct that the dialect does not know, or it comes last in an endpoint that is too long. -/
inductive ParseError.About (On : Lexeme → Prop) : ParseError → Prop
  | unexpected {x : Lexeme} {expected : Expectation} (hx : On x) :
    About On (.unexpected x.token expected x.line)
  | shortEndpoint {x : Lexeme} (hx : On x) : About On (.unexpected .dot .shortEndpoint x.line)
  | unsupported {x : Lexeme} {construct : PartialConstruct} {dialect : Dialect} (hx : On x)
    (hopens : construct.opensWith x.token = true) :
    About On (.unsupported construct dialect x.line)

theorem ParseError.About.onLine {On : Lexeme → Prop} {e : ParseError} (h : e.About On) :
    OnLine On e.line := by
  cases h with
  | unexpected hx | shortEndpoint hx | unsupported hx => exact ⟨_, hx, rfl⟩

namespace Token

/-- Whether a token is neither a brace nor the mark of the end. -/
def isPlain (t : Token) : Bool :=
  !t.isBrace && t != .endOfText

theorem isPlain_of_isKeyword {t : Token} {keyword : String} (h : t.isKeyword keyword = true) :
    t.isPlain = true := by
  cases t with
  | name => rfl
  | _ => cases h

theorem isPlain_iff {t : Token} : t.isPlain = true ↔ t.isBrace = false ∧ t ≠ .endOfText := by
  simp [isPlain]

end Token

namespace Cursor

variable {c mid c' : Cursor} {taken others : List Lexeme} {On : Lexeme → Prop}

/-- From one place another one is reached by taking lexemes. -/
inductive Reaches : Cursor → List Lexeme → Cursor → Prop
  | here {c : Cursor} : Reaches c [] c
  | take {x : Lexeme} {xs taken : List Lexeme} {l : Nat} {c' : Cursor}
    (h : Reaches ⟨xs, x.line⟩ taken c') : Reaches ⟨x :: xs, l⟩ (x :: taken) c'

theorem Reaches.trans (h : c.Reaches taken mid) (h' : mid.Reaches others c') :
    c.Reaches (taken ++ others) c' := by
  induction h with
  | here => exact h'
  | take _ ih => exact .take (ih h')

/-- What was taken and what is ahead then was ahead before. -/
theorem Reaches.ahead_eq (h : c.Reaches taken c') : c.ahead = taken ++ c'.ahead := by
  induction h with
  | here => rfl
  | take _ ih => exact congrArg _ ih

theorem Reaches.length_eq (h : c.Reaches taken c') :
    c.ahead.length = taken.length + c'.ahead.length := by
  rw [h.ahead_eq, List.length_append]

/-- All that is ahead is in question, and behind it so is a mark of the end on the last line. -/
inductive Within (On : Lexeme → Prop) : Cursor → Prop
  | ended {l : Nat} (hend : On ⟨.endOfText, l⟩) : Within On ⟨[], l⟩
  | more {x : Lexeme} {xs : List Lexeme} {l : Nat} (hx : On x) (h : Within On ⟨xs, x.line⟩) :
    Within On ⟨x :: xs, l⟩

theorem Within.next (h : c.Within On) : On c.next := by
  cases h with
  | ended hend => exact hend
  | more hx _ => exact hx

theorem Within.reached (h : c.Within On) (hreach : c.Reaches taken c') : c'.Within On := by
  induction hreach with
  | here => exact h
  | take _ ih =>
    cases h with
    | more _ h => exact ih h

/-- Every place is one among some lexemes. -/
theorem within_anywhere (c : Cursor) : c.Within fun _ => True := by
  obtain ⟨xs, l⟩ := c
  induction xs generalizing l with
  | nil => exact .ended trivial
  | cons x xs ih => exact .more trivial (ih x.line)

/-- Lexemes that are closed by a mark of the end are all that is in question. -/
theorem within_append {xs : List Lexeme} {l l' : Nat} (hxs : ∀ x ∈ xs, On x)
    (hend : On ⟨.endOfText, l⟩) : Within On ⟨xs ++ [⟨.endOfText, l⟩], l'⟩ := by
  induction xs generalizing l' with
  | nil => exact .more hend (.ended hend)
  | cons x xs ih =>
    obtain ⟨hx, hxs⟩ := List.forall_mem_cons.mp hxs
    exact .more hx (ih hxs)

/-- Once the last line is one of a lexeme in question, it stays one. -/
theorem Within.onLine (h : c.Within On) (hreach : c.Reaches taken c')
    (hline : OnLine On c.lastLine) : OnLine On c'.lastLine := by
  induction hreach with
  | here => exact hline
  | @take x _ _ _ _ _ ih =>
    cases h with
    | more hx h => exact ih h ⟨x, hx, rfl⟩

/-- Behind the next lexeme the last line is the one of that lexeme. -/
theorem Within.onLine_moved (h : c.Within On) : OnLine On c.moved.lastLine := by
  cases h with
  | ended hend => exact ⟨_, hend, rfl⟩
  | more hx _ => exact ⟨_, hx, rfl⟩

/-- A lexeme other than a mark of the end can be taken. -/
theorem reaches_moved (h : c.next.token ≠ .endOfText) : c.Reaches [c.next] c.moved := by
  obtain ⟨_ | ⟨x, xs⟩, l⟩ := c
  · exact absurd rfl h
  · exact .take .here

/-- A run takes lexemes whose tokens have an image. -/
theorem reaches_run {α : Type} (f : Token → Option α) (xs : List Lexeme) (l : Nat) : ∃ taken,
    Reaches ⟨xs, l⟩ taken (run f xs l).2 ∧ ∀ x ∈ taken, f x.token ≠ none := by
  induction xs generalizing l with
  | nil => exact ⟨[], .here, by simp⟩
  | cons x xs ih =>
    rw [run]
    cases hx : f x.token with
    | none => exact ⟨[], .here, by simp⟩
    | some a =>
      obtain ⟨taken, hreach, htaken⟩ := ih x.line
      exact ⟨x :: taken, .take hreach, List.forall_mem_cons.mpr ⟨by simp [hx], htaken⟩⟩

/-- Where nothing is ahead, the end is next. -/
theorem token_next_of_nil (h : c.ahead = []) : c.next.token = .endOfText := by
  rw [next, h]
  rfl

theorem second_eq (c : Cursor) : c.second = c.moved.next.token := by
  obtain ⟨_ | ⟨x, _ | ⟨y, ys⟩⟩, l⟩ := c <;> rfl

end Cursor

/-- **A reader goes through lexemes**: from a place where lexemes in question are ahead and `i`
braces are open, it takes at least `m` lexemes and comes to a place where `j` braces are open, with
something `Good` about the result and the place; or else it stops with an error about a lexeme in
question. -/
structure Traverses {α : Type} (On : Lexeme → Prop) (m i j : Nat) (Good : α → Cursor → Prop)
    (c : Cursor) (r : Reader α) : Prop where
  ok : c.Within On → ∀ {a c'}, r c = .ok (a, c') → Good a c' ∧
    ∃ taken, c.Reaches taken c' ∧ m ≤ taken.length ∧ Nests i (taken.map Lexeme.token) j
  error : c.Within On → ∀ {e}, r c = .error e → e.About On

/-- Nothing in particular is known of the result and the place. -/
abbrev Anything {α : Type} : α → Cursor → Prop :=
  fun _ _ => True

namespace Traverses

variable {α β : Type} {On : Lexeme → Prop} {m n i j k : Nat} {c : Cursor}
  {Good Good₁ : α → Cursor → Prop} {Good' : β → Cursor → Prop} {r r' : Reader α} {f : α → Reader β}

/-! ### One reader after the other -/

theorem give {a : α} (ha : Good a c) : Traverses On 0 i i Good c (pure a) := by
  refine ⟨fun _ a' c' h => ?_, fun _ e h => ?_⟩
  · cases h
    exact ⟨ha, [], .here, Nat.le_refl _, .done⟩
  · cases h

theorem of_error {e : ParseError} (he : c.Within On → e.About On) (hr : r c = .error e) :
    Traverses On m i j Good c r := by
  refine ⟨fun _ a c' h => ?_, fun hc e' h => ?_⟩
  · rw [hr] at h
    cases h
  · rw [hr] at h
    cases h
    exact he hc

theorem unexpected (expected : Expectation) :
    Traverses On m i j Good c (Reader.unexpected expected) :=
  of_error (fun hc => .unexpected hc.next) rfl

/-- Only what a reader does at the place counts. -/
theorem congr (h : r c = r' c) (hr : Traverses On m i j Good c r') :
    Traverses On m i j Good c r :=
  ⟨fun hc _ _ ha => hr.ok hc (h ▸ ha), fun hc _ he => hr.error hc (h ▸ he)⟩

theorem imp (hr : Traverses On m i j Good₁ c r) (h : ∀ a c', Good₁ a c' → Good a c') :
    Traverses On m i j Good c r := by
  refine ⟨fun hc a c' ha => ?_, hr.error⟩
  obtain ⟨hgood, htaken⟩ := hr.ok hc ha
  exact ⟨h a c' hgood, htaken⟩

theorem forget (hr : Traverses On m i j Good c r) : Traverses On 0 i j Good c r := by
  refine ⟨fun hc a c' ha => ?_, hr.error⟩
  obtain ⟨hgood, taken, hreach, -, hnests⟩ := hr.ok hc ha
  exact ⟨hgood, taken, hreach, Nat.zero_le _, hnests⟩

/-- Only the lexemes matter. -/
theorem anything (hr : Traverses On m i j Good c r) : Traverses On 0 i j Anything c r :=
  hr.forget.imp fun _ _ _ => trivial

/-- Readers one after the other, with what is known of the way to the place between them. -/
theorem bind_of_reaches (hr : Traverses On m i k Good c r)
    (hf : ∀ a c' taken, Good a c' → c.Within On → c.Reaches taken c' → m ≤ taken.length →
      Traverses On n k j Good' c' (f a)) : Traverses On (m + n) i j Good' c (r >>= f) := by
  refine ⟨fun hc b c'' hb => ?_, fun hc e he => ?_⟩
  · obtain ⟨a, mid, ha, hb⟩ := Reader.bind_apply_eq_ok_iff.mp hb
    obtain ⟨hgood, taken, hreach, hlen, hnests⟩ := hr.ok hc ha
    obtain ⟨hgood', taken', hreach', hlen', hnests'⟩ :=
      (hf a mid taken hgood hc hreach hlen).ok (hc.reached hreach) hb
    refine ⟨hgood', taken ++ taken', hreach.trans hreach', ?_, ?_⟩
    · rw [List.length_append]
      exact Nat.add_le_add hlen hlen'
    · rw [List.map_append]
      exact hnests.append hnests'
  · rw [Reader.bind_apply, bind_eq_error_iff] at he
    rcases he with he | ⟨⟨a, mid⟩, ha, he⟩
    · exact hr.error hc he
    · obtain ⟨hgood, taken, hreach, hlen, -⟩ := hr.ok hc ha
      exact (hf a mid taken hgood hc hreach hlen).error (hc.reached hreach) he

theorem bind (hr : Traverses On m i k Good c r)
    (hf : ∀ a c', Good a c' → Traverses On 0 k j Good' c' (f a)) :
    Traverses On m i j Good' c (r >>= f) :=
  bind_of_reaches hr fun a c' _ hgood _ _ _ => hf a c' hgood

/-- Readers one after the other of which the second takes lexemes. -/
theorem bind_before (hr : Traverses On 0 i k Good c r)
    (hf : ∀ a c', Good a c' → Traverses On n k j Good' c' (f a)) :
    Traverses On n i j Good' c (r >>= f) := by
  rw [← Nat.zero_add n]
  exact bind_of_reaches hr fun a c' _ hgood _ _ _ => hf a c' hgood

/-- Readers one after the other, from a line of a lexeme in question to one. -/
theorem bind_of_onLine (hr : Traverses On m i k Good c r) (hline : OnLine On c.lastLine)
    (hf : ∀ a c', Good a c' → OnLine On c'.lastLine → Traverses On 0 k j Good' c' (f a)) :
    Traverses On m i j Good' c (r >>= f) :=
  bind_of_reaches hr fun a c' _ hgood hc hreach _ => hf a c' hgood (hc.onLine hreach hline)

/-! ### One lexeme -/

theorem next {f : Lexeme → Reader α} (hf : On c.next → Traverses On m i j Good c (f c.next)) :
    Traverses On m i j Good c (Reader.next >>= f) :=
  ⟨fun hc => (hf hc.next).ok hc, fun hc => (hf hc.next).error hc⟩

theorem second {f : Token → Reader α} (hf : Traverses On m i j Good c (f c.second)) :
    Traverses On m i j Good c (Reader.second >>= f) :=
  ⟨hf.ok, hf.error⟩

theorem skip_last (hend : c.next.token ≠ .endOfText) (hnests : Nests i [c.next.token] j) :
    Traverses On 1 i j (fun _ c' => OnLine On c'.lastLine) c Reader.skip := by
  refine ⟨fun hc a c' h => ?_, fun _ e h => ?_⟩
  · cases h
    exact ⟨hc.onLine_moved, [c.next], Cursor.reaches_moved hend, Nat.le_refl _, hnests⟩
  · cases h

/-- Take a lexeme, and go on behind it. -/
theorem skip_token {f : Unit → Reader α} (hend : c.next.token ≠ .endOfText)
    (hnests : Nests i [c.next.token] k) (hf : Traverses On 0 k j Good c.moved (f ())) :
    Traverses On 1 i j Good c (Reader.skip >>= f) := by
  have htakes : Traverses On 1 i k (fun _ c' => c' = c.moved) c Reader.skip := by
    refine ⟨fun hc a c' h => ?_, (skip_last hend hnests).error⟩
    obtain ⟨-, htaken⟩ := (skip_last hend hnests).ok hc h
    cases h
    exact ⟨rfl, htaken⟩
  refine htakes.bind fun _ c' hc' => ?_
  rw [hc']
  exact hf

/-- Take a lexeme that is no brace, and go on behind it. -/
theorem skip {f : Unit → Reader α} (hplain : c.next.token.isPlain = true)
    (hf : Traverses On 0 i j Good c.moved (f ())) :
    Traverses On 1 i j Good c (Reader.skip >>= f) := by
  obtain ⟨hbrace, hend⟩ := Token.isPlain_iff.mp hplain
  exact skip_token hend (.single hbrace) hf

theorem ite {p : Prop} [Decidable p] (h₁ : p → Traverses On m i j Good c r)
    (h₂ : ¬p → Traverses On m i j Good c r') :
    Traverses On m i j Good c (if p then r else r') := by
  by_cases h : p
  · rw [if_pos h]
    exact h₁ h
  · rw [if_neg h]
    exact h₂ h

/-! ### Options, runs and loops -/

variable {condition : Cursor → Bool} {P : α → Prop}

theorem optional (hr : condition c = true → Traverses On 0 i i (fun a _ => P a) c r) :
    Traverses On 0 i i (fun o _ => ∀ a ∈ o, P a) c (Reader.optional condition r) := by
  cases h : condition c with
  | false =>
    have hnone : Traverses On 0 i i (fun o _ => ∀ a ∈ o, P a) c (pure none : Reader (Option α)) :=
      give (by simp)
    exact hnone.congr (Reader.optional_of_false h r)
  | true =>
    refine congr (Reader.optional_of_true h r) ?_
    rw [map_eq_pure_bind]
    exact (hr h).bind fun a c' ha => give (by simpa using ha)

theorem optional_anything (hr : condition c = true → Traverses On 0 i i Anything c r) :
    Traverses On 0 i i Anything c (Reader.optional condition r) :=
  (optional hr).anything

/-- A run of tokens other than braces. -/
theorem run {f : Token → Option α} (hopen : f .openBrace = none) (hclose : f .closeBrace = none) :
    Traverses On 0 i i Anything c (Reader.run f) := by
  refine ⟨fun _ as c' h => ⟨trivial, ?_⟩, fun _ e h => ?_⟩
  · obtain ⟨taken, hreach, himages⟩ := Cursor.reaches_run f c.ahead c.lastLine
    have hc' : (Cursor.run f c.ahead c.lastLine).2 = c' := congrArg Prod.snd (Except.ok.inj h)
    rw [hc'] at hreach
    refine ⟨taken, hreach, Nat.zero_le _, .of_isBrace_eq_false fun t ht => ?_⟩
    obtain ⟨x, hx, rfl⟩ := List.mem_map.mp ht
    have himage := himages x hx
    cases htoken : x.token with
    | openBrace => exact absurd hopen (htoken ▸ himage)
    | closeBrace => exact absurd hclose (htoken ▸ himage)
    | _ => rfl
  · cases h

theorem manyRounds (hr : ∀ c, condition c = true → Traverses On 1 i i (fun a _ => P a) c r)
    (rounds : Nat) (hrounds : c.ahead.length ≤ rounds) :
    Traverses On 0 i i (fun as c' => (∀ a ∈ as, P a) ∧ (condition c' = true → c'.ahead = [])) c
      (Reader.manyRounds condition r rounds) := by
  induction rounds generalizing c with
  | zero => exact give ⟨by simp, fun _ => List.eq_nil_of_length_eq_zero (by omega)⟩
  | succ rounds ih =>
    cases h : condition c with
    | false =>
      have hnone : Traverses On 0 i i
          (fun as c' => (∀ a ∈ as, P a) ∧ (condition c' = true → c'.ahead = [])) c
          (pure [] : Reader (List α)) := give ⟨by simp, by simp [h]⟩
      exact hnone.congr (Reader.manyRounds_succ_of_false h rounds)
    | true =>
      refine congr (Reader.manyRounds_succ_of_true h rounds) ?_
      refine forget ((hr c h).bind_of_reaches (n := 0) fun a c' taken ha _ hreach hlen => ?_)
      have hshorter := hreach.length_eq
      refine (ih (by omega)).bind fun as c'' has => give ⟨?_, has.2⟩
      exact List.forall_mem_cons.mpr ⟨ha, has.1⟩

/-- A loop over items of which each takes a lexeme. It stops where its condition fails, or where
nothing is left to take. -/
theorem manyWhile (hr : ∀ c, condition c = true → Traverses On 1 i i (fun a _ => P a) c r) :
    Traverses On 0 i i (fun as c' => (∀ a ∈ as, P a) ∧ (condition c' = true → c'.ahead = [])) c
      (Reader.manyWhile condition r) := by
  have hrounds : Reader.manyWhile condition r c =
      Reader.manyRounds condition r c.ahead.length c := rfl
  exact (manyRounds hr c.ahead.length (Nat.le_refl _)).congr hrounds

end Traverses

/-- A reader that goes through lexemes reaches the place where it stops. -/
theorem Reader.reaches_of_traverses {α : Type} {m i j : Nat} {Good : α → Cursor → Prop}
    {c c' : Cursor} {r : Reader α} {a : α} (hr : Traverses (fun _ => True) m i j Good c r)
    (h : r c = .ok (a, c')) : ∃ taken, c.Reaches taken c' := by
  obtain ⟨-, taken, hreach, -⟩ := hr.ok (Cursor.within_anywhere c) h
  exact ⟨taken, hreach⟩

end SchemaGraph
