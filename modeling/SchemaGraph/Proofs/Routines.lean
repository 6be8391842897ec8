import SchemaGraph.Grammar.Routine
import SchemaGraph.Proofs.Traversal

/-!
# Readers that do what routines do

A routine ends in at most one way (`Routine.Ends.unique`), and a reader can be compared with it:
from a place with a mark of the end ahead, the reader returns what the routine ends with, and the
rounds of loops on the way are no more than the tokens taken (`Performs`). Readers that do what
routines do are put together to readers that do what these routines do one after the other. Where a
loop is put together from its rounds it is shown, once for all loops, that the bound on the rounds
of `Reader.manyWhile` is never reached.
-/

namespace SchemaGraph

namespace Cursor

variable {c : Cursor}

/-- The number of tokens ahead, not counting marks of the end. -/
def unread (c : Cursor) : Nat :=
  c.ahead.countP (·.token != .endOfText)

/-- Whether a mark of the end is ahead. -/
def Closed (c : Cursor) : Prop :=
  ∃ x ∈ c.ahead, x.token = .endOfText

theorem Closed.unread_lt (h : c.Closed) : c.unread < c.ahead.length := by
  obtain ⟨x, hx, htoken⟩ := h
  refine Nat.lt_of_le_of_ne List.countP_le_length fun hall => ?_
  have hne := List.countP_eq_length.mp hall x hx
  simp [htoken] at hne

/-- A token other than a mark of the end is one less to read. -/
theorem unread_moved (hend : c.next.token ≠ .endOfText) : c.moved.unread + 1 = c.unread := by
  obtain ⟨_ | ⟨x, xs⟩, l⟩ := c
  · exact absurd rfl hend
  · have hcount : List.countP (fun y : Lexeme => y.token != .endOfText) (x :: xs) =
        List.countP (fun y : Lexeme => y.token != .endOfText) xs + 1 :=
      List.countP_cons_of_pos (bne_iff_ne.mpr hend)
    exact hcount.symm

theorem Closed.moved (h : c.Closed) (hend : c.next.token ≠ .endOfText) : c.moved.Closed := by
  obtain ⟨_ | ⟨x, xs⟩, l⟩ := c
  · exact absurd rfl hend
  · obtain ⟨y, hy, htoken⟩ := h
    rcases List.mem_cons.mp hy with rfl | hy
    · exact absurd htoken hend
    · exact ⟨y, hy, htoken⟩

end Cursor

/-! ### How routines end -/

namespace Routine.Ends

variable {α β : Type} {p : Routine α} {f : α → Routine β} {c c' : Cursor} {a : α} {e : ParseError}
  {n n' : Nat} {o o' : Except ParseError (α × Cursor)}

/-- **A routine ends in one way at most.** -/
theorem unique (h : p.Ends c o n) (h' : p.Ends c o' n') : o' = o ∧ n' = n := by
  induction h generalizing n' with
  | give =>
    cases h'
    exact ⟨rfl, rfl⟩
  | stop =>
    cases h'
    exact ⟨rfl, rfl⟩
  | look _ ih =>
    cases h' with
    | look h' => exact ih h'
  | take _ ih =>
    cases h' with
    | take h' => exact ih h'
  | left hcondition _ ih =>
    cases h' with
    | left _ h' => exact ih h'
    | round hcondition' | broken hcondition' =>
      rw [hcondition] at hcondition'
      cases hcondition'
  | round hcondition _ _ ihround ih =>
    cases h' with
    | left hcondition' =>
      rw [hcondition] at hcondition'
      cases hcondition'
    | round _ hround' h' =>
      obtain ⟨hb, rfl⟩ := ihround hround'
      cases hb
      obtain ⟨ho, rfl⟩ := ih h'
      exact ⟨ho, rfl⟩
    | broken _ hround' => cases (ihround hround').1
  | broken hcondition _ ihround =>
    cases h' with
    | left hcondition' =>
      rw [hcondition] at hcondition'
      cases hcondition'
    | round _ hround' => cases (ihround hround').1
    | broken _ hround' =>
      obtain ⟨he, rfl⟩ := ihround hround'
      cases he
      exact ⟨rfl, rfl⟩

/-- Behind a routine that ends with a result the next one is run. -/
theorem bind {o : Except ParseError (β × Cursor)} (h : p.Ends c (.ok (a, c')) n)
    (hf : (f a).Ends c' o n') : (p >>= f).Ends c o (n + n') := by
  generalize hresult : Except.ok (a, c') = result at h
  change (p.bind f).Ends c o (n + n')
  induction h with
  | give =>
    cases hresult
    rw [Nat.zero_add]
    exact hf
  | stop => cases hresult
  | look _ ih => exact .look (ih hf hresult)
  | take _ ih => exact .take (ih hf hresult)
  | left hcondition _ ih => exact .left hcondition (ih hf hresult)
  | round hcondition hround _ _ ih =>
    rw [Nat.add_assoc]
    exact .round hcondition hround (ih hf hresult)
  | broken => cases hresult

/-- A routine that stops with an error stops what is run behind it. -/
theorem bind_error (h : p.Ends c (.error e) n) : (p >>= f).Ends c (.error e) n := by
  generalize hresult : Except.error e = result at h
  change (p.bind f).Ends c (.error e) n
  induction h with
  | give => cases hresult
  | stop =>
    cases hresult
    exact .stop
  | look _ ih => exact .look (ih hresult)
  | take _ ih => exact .take (ih hresult)
  | left hcondition _ ih => exact .left hcondition (ih hresult)
  | round hcondition hround _ _ ih => exact .round hcondition hround (ih hresult)
  | broken hcondition hround =>
    cases hresult
    exact .broken hcondition hround

end Routine.Ends

/-! ### Readers that do what routines do -/

/-- **A reader does what a routine does** from a place with a mark of the end ahead: the routine
ends with what the reader returns. The reader takes at least `m` tokens more than there are rounds
of loops, none of them a mark of the end, and comes to a place with something `Good` about the
result and the place. If it stops with an error, the tokens ahead would be enough for all rounds but
the one that it stops in. -/
structure Performs {α : Type} (m : Nat) (Good : α → Cursor → Prop) (c : Cursor) (p : Routine α)
    (r : Reader α) : Prop where
  ok : c.Closed → ∀ {a c'}, r c = .ok (a, c') → Good a c' ∧ c'.Closed ∧
    ∃ n, p.Ends c (.ok (a, c')) n ∧ n + m + c'.unread ≤ c.unread
  error : c.Closed → ∀ {e}, r c = .error e → ∃ n, p.Ends c (.error e) n ∧ n + m ≤ c.unread + 1

namespace Performs

variable {α β : Type} {m : Nat} {c : Cursor} {Good : α → Cursor → Prop}
  {Good' : β → Cursor → Prop} {p q : Routine α} {r s : Reader α} {f : α → Routine β}
  {g : α → Reader β}

/-! ### One reader after the other -/

theorem give {a : α} (ha : Good a c) : Performs 0 Good c (pure a) (pure a) := by
  refine ⟨fun hc a' c' h => ?_, fun _ e h => ?_⟩
  · cases h
    exact ⟨ha, hc, 0, .give, by omega⟩
  · cases h

/-- Only what a reader does at the place counts. -/
theorem congr (h : r c = s c) (hs : Performs m Good c p s) : Performs m Good c p r :=
  ⟨fun hc _ _ ha => hs.ok hc (h ▸ ha), fun hc _ he => hs.error hc (h ▸ he)⟩

theorem imp {Good₁ : α → Cursor → Prop} (hr : Performs m Good₁ c p r)
    (h : ∀ a c', Good₁ a c' → Good a c') : Performs m Good c p r := by
  refine ⟨fun hc a c' ha => ?_, hr.error⟩
  obtain ⟨hgood, hends⟩ := hr.ok hc ha
  exact ⟨h a c' hgood, hends⟩

theorem forget (hr : Performs m Good c p r) : Performs 0 Good c p r := by
  refine ⟨fun hc a c' ha => ?_, fun hc e he => ?_⟩
  · obtain ⟨hgood, hclosed, n, hends, hn⟩ := hr.ok hc ha
    exact ⟨hgood, hclosed, n, hends, by omega⟩
  · obtain ⟨n, hends, hn⟩ := hr.error hc he
    exact ⟨n, hends, by omega⟩

/-- The routine ends with what the reader returns. -/
theorem ends (hr : Performs m Good c p r) (hc : c.Closed) :
    ∃ n, p.Ends c (r c) n ∧ n + m ≤ c.unread + 1 := by
  cases h : r c with
  | error e => exact hr.error hc h
  | ok read =>
    obtain ⟨a, c'⟩ := read
    obtain ⟨-, -, n, hends, hn⟩ := hr.ok hc h
    exact ⟨n, hends, by omega⟩

theorem anything (hr : Performs m Good c p r) : Performs 0 Anything c p r :=
  hr.forget.imp fun _ _ _ => trivial

theorem bind (hr : Performs m Good c p r)
    (hg : ∀ a c', Good a c' → Performs 0 Good' c' (f a) (g a)) :
    Performs m Good' c (p >>= f) (r >>= g) := by
  refine ⟨fun hc b c' hb => ?_, fun hc e he => ?_⟩
  · obtain ⟨a, mid, ha, hb⟩ := Reader.bind_apply_eq_ok_iff.mp hb
    obtain ⟨hgood, hclosed, n, hends, hn⟩ := hr.ok hc ha
    obtain ⟨hgood', hclosed', n', hends', hn'⟩ := (hg a mid hgood).ok hclosed hb
    exact ⟨hgood', hclosed', n + n', hends.bind hends', by omega⟩
  · rw [Reader.bind_apply, bind_eq_error_iff] at he
    rcases he with he | ⟨⟨a, mid⟩, ha, he⟩
    · obtain ⟨n, hends, hn⟩ := hr.error hc he
      exact ⟨n, hends.bind_error, hn⟩
    · obtain ⟨hgood, hclosed, n, hends, hn⟩ := hr.ok hc ha
      obtain ⟨n', hends', hn'⟩ := (hg a mid hgood).error hclosed he
      exact ⟨n + n', hends.bind hends', by omega⟩

theorem ite {P : Prop} [Decidable P] (h₁ : P → Performs m Good c p r)
    (h₂ : ¬ P → Performs m Good c q s) :
    Performs m Good c (if P then p else q) (if P then r else s) := by
  by_cases h : P
  · rw [if_pos h, if_pos h]
    exact h₁ h
  · rw [if_neg h, if_neg h]
    exact h₂ h

/-! ### One token -/

theorem look {next : Cursor → Routine α} (h : Performs m Good c (next c) r) :
    Performs m Good c (.look next) r := by
  refine ⟨fun hc a c' ha => ?_, fun hc e he => ?_⟩
  · obtain ⟨hgood, hclosed, n, hends, hn⟩ := h.ok hc ha
    exact ⟨hgood, hclosed, n, .look hends, hn⟩
  · obtain ⟨n, hends, hn⟩ := h.error hc he
    exact ⟨n, .look hends, hn⟩

theorem next {f : Lexeme → Routine α} {g : Lexeme → Reader α}
    (h : Performs m Good c (f c.next) (g c.next)) :
    Performs m Good c (Routine.next >>= f) (Reader.next >>= g) :=
  congr (Reader.next_bind g c) (look h)

theorem second {f : Token → Routine α} {g : Token → Reader α}
    (h : Performs m Good c (f c.second) (g c.second)) :
    Performs m Good c (Routine.second >>= f) (Reader.second >>= g) :=
  congr (Reader.second_bind g c) (look h)

/-- An error at the place, with no round before it. -/
theorem stop {e : ParseError} (hp : p.Ends c (.error e) 0) (hr : r c = .error e) :
    Performs 1 Good c p r := by
  refine ⟨fun _ a c' ha => ?_, fun _ e' he => ?_⟩
  · rw [hr] at ha
    cases ha
  · rw [hr] at he
    cases he
    exact ⟨0, hp, by omega⟩

theorem unexpected (expected : Expectation) :
    Performs 1 Good c (Routine.unexpected expected) (Reader.unexpected expected) :=
  .stop (.look .stop) rfl

theorem skip_last (hend : c.next.token ≠ .endOfText) :
    Performs 1 (fun _ c' => c' = c.moved) c Routine.skip Reader.skip := by
  refine ⟨fun hc a c' h => ?_, fun _ e h => ?_⟩
  · cases h
    have hcount := Cursor.unread_moved hend
    exact ⟨rfl, hc.moved hend, 0, .take .give, by omega⟩
  · cases h

/-- Take a token, and go on behind it. -/
theorem skip {f : Unit → Routine α} {g : Unit → Reader α} (hend : c.next.token ≠ .endOfText)
    (h : Performs 0 Good c.moved (f ()) (g ())) :
    Performs 1 Good c (Routine.skip >>= f) (Reader.skip >>= g) := by
  refine (skip_last hend).bind fun _ c' hc' => ?_
  rw [hc']
  exact h

/-- A token that has an image is no mark of the end. -/
theorem image {f : Token → Option α} (hf : f .endOfText = none) (expected : Expectation) :
    Performs 1 Anything c (Routine.image f expected) (Reader.image f expected) := by
  refine .next ?_
  cases h : f c.next.token with
  | none => exact .unexpected expected
  | some a =>
    have hend : c.next.token ≠ .endOfText := by
      intro heq
      rw [heq, hf] at h
      cases h
    exact .skip hend (.give trivial)

/-! ### Options and loops -/

variable {condition : Cursor → Bool}

theorem optional_of_true (h : condition c = true) (hr : Performs m Good c p r) :
    Performs m Anything c (Routine.optional condition p) (Reader.optional condition r) := by
  refine look ?_
  rw [if_pos h]
  have hsome : Reader.optional condition r c = (r >>= fun a => pure (some a)) c := by
    rw [Reader.optional_of_true h, map_eq_pure_bind]
  exact congr hsome (hr.bind fun _ _ _ => give trivial)

/-- Where nothing is read, what comes behind it is all that is done. -/
theorem optional_of_false {f : Option α → Routine β} {g : Option α → Reader β}
    (h : condition c = false) (hr : Performs m Good' c (f none) (g none)) :
    Performs m Good' c (Routine.optional condition p >>= f)
      (Reader.optional condition r >>= g) := by
  refine look ?_
  change Performs m Good' c ((if condition c = true then some <$> p else pure none) >>= f) _
  rw [if_neg (by simp [h])]
  exact congr (Reader.bind_of_ok (Reader.optional_of_false h r) g) hr

theorem optional (hr : condition c = true → Performs 0 Anything c p r) :
    Performs 0 Anything c (Routine.optional condition p) (Reader.optional condition r) := by
  cases h : condition c with
  | true => exact optional_of_true h (hr h)
  | false =>
    refine look ?_
    rw [if_neg (by simp [h])]
    exact congr (Reader.optional_of_false h r) (give trivial)

theorem manyRounds (l : Loop α)
    (hround : ∀ c, l.condition c = true → Performs 1 Anything c l.routine l.reader) (rounds : Nat)
    (hrounds : c.unread < rounds) : Performs 0 (fun _ c' => l.condition c' = false) c
      (Routine.many l) (Reader.manyRounds l.condition l.reader rounds) := by
  induction rounds generalizing c with
  | zero => omega
  | succ rounds ih =>
    cases h : l.condition c with
    | false =>
      refine ⟨fun hc as c' has => ?_, fun _ e he => ?_⟩
      · rw [Reader.manyRounds_succ_of_false h] at has
        cases has
        exact ⟨h, hc, 0, .left h .give, by omega⟩
      · rw [Reader.manyRounds_succ_of_false h] at he
        cases he
    | true =>
      refine ⟨fun hc as c' has => ?_, fun hc e he => ?_⟩
      · rw [Reader.manyRounds_succ_of_true h] at has
        obtain ⟨a, mid, ha, has⟩ := Reader.bind_apply_eq_ok_iff.mp has
        obtain ⟨as, _, has, hcons⟩ := Reader.bind_apply_eq_ok_iff.mp has
        cases hcons
        obtain ⟨-, hclosed, k, hends, hk⟩ := (hround c h).ok hc ha
        obtain ⟨hstop, hclosed', n, hends', hn⟩ := (ih (by omega)).ok hclosed has
        have hrest : (Routine.many l >>= fun bs => Routine.give (a :: bs)).Ends mid
            (.ok (a :: as, _)) (n + 0) := hends'.bind .give
        exact ⟨hstop, hclosed', k + 1 + n, .round h hends hrest, by omega⟩
      · rw [Reader.manyRounds_succ_of_true h, Reader.bind_apply, bind_eq_error_iff] at he
        rcases he with he | ⟨⟨a, mid⟩, ha, he⟩
        · obtain ⟨k, hends, hk⟩ := (hround c h).error hc he
          exact ⟨k + 1, .broken h hends, by omega⟩
        · rw [Reader.bind_apply, bind_eq_error_iff] at he
          rcases he with he | ⟨_, _, he⟩
          · obtain ⟨-, hclosed, k, hends, hk⟩ := (hround c h).ok hc ha
            obtain ⟨n, hends', hn⟩ := (ih (by omega)).error hclosed he
            exact ⟨k + 1 + n, .round h hends hends'.bind_error, by omega⟩
          · cases he

/-- **A loop whose rounds each take a token.** As many rounds as there are tokens ahead are enough
for the reader to leave it where its condition fails. -/
theorem many (l : Loop α)
    (hround : ∀ c, l.condition c = true → Performs 1 Anything c l.routine l.reader) :
    Performs 0 (fun _ c' => l.condition c' = false) c (Routine.many l)
      (Reader.manyWhile l.condition l.reader) :=
  ⟨fun hc _ _ has => (manyRounds l hround _ hc.unread_lt).ok hc has,
    fun hc _ he => (manyRounds l hround _ hc.unread_lt).error hc he⟩

end Performs

end SchemaGraph
