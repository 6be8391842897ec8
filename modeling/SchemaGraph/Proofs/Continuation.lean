import SchemaGraph.Proofs.Readers
import SchemaGraph.Proofs.Scanning

/-!
# Texts that go on

A text on its own ends with a mark. The same text can stand inside a longer one, on other lines,
with other lexemes in place of the mark (`Continuation`). A reader that comes through in the text on
its own comes through in the longer text as well, with the same result up to lines and at the same
place (`Carries`), as long as what follows opens a line of its own and is not taken for more of the
same text.

Some readers do take what follows for more of the same, if the text breaks off in the middle of
something: a name where one may stand, or one more word of a key. On its own such a text is no
document, because something else has to come. So the claim about a reader may leave out the case
that it stops at the very end (`lax`), and whoever goes on with something that has to come makes up
for it (`Carries.closed`).
-/

namespace SchemaGraph

/-- How a text goes on: where its lines come to stand, on which line it ended by itself, and what
comes in place of the mark of its end. -/
structure Continuation where
  line : Nat → Nat
  line_injective : Function.Injective line
  endLine : Nat
  first : Lexeme
  others : List Lexeme
  opens : first.token = .endOfText ∨ first.token.isName = true

namespace Continuation

variable (K : Continuation)

/-- A place in the text on its own. The lexemes ahead are those before the mark of the end. -/
def alone (p : Cursor) : Cursor :=
  ⟨p.ahead ++ [⟨.endOfText, K.endLine⟩], p.lastLine⟩

/-- The same place in the text that goes on. -/
def within (p : Cursor) : Cursor :=
  ⟨p.ahead.map (Lexeme.mapLine K.line) ++ K.first :: K.others, K.line p.lastLine⟩

/-- A place from which there is no mark of an end to the end of the text, and no line on which the
text goes on. -/
structure Fits (p : Cursor) : Prop where
  inside : ∀ x ∈ p.ahead, x.token ≠ .endOfText
  apart : ∀ l ∈ p.lastLine :: p.ahead.map Lexeme.line,
    K.first.token = .endOfText ∨ K.first.line ≠ K.line l

variable {K}

@[simp] theorem length_alone (p : Cursor) : (K.alone p).ahead.length = p.ahead.length + 1 := by
  simp [alone]

@[simp] theorem length_within (p : Cursor) :
    (K.within p).ahead.length = p.ahead.length + (K.others.length + 1) := by
  simp [within]

theorem Fits.tail {x : Lexeme} {xs : List Lexeme} {l : Nat} (h : K.Fits ⟨x :: xs, l⟩) :
    K.Fits ⟨xs, x.line⟩ :=
  ⟨fun y hy => h.inside y (List.mem_cons_of_mem _ hy),
    fun m hm => h.apart m (List.mem_cons_of_mem _ hm)⟩

/-! ### What can be seen at a place -/

/-- What follows a text is no mark other than one of an end. -/
theorem first_ne {t : Token} (h : t ≠ .endOfText) (hname : t.isName = false) :
    K.first.token ≠ t := by
  rintro rfl
  rcases K.opens with hend | hopens
  · exact h hend
  · rw [hname] at hopens
    cases hopens

/-- A mark other than one of an end is next in both texts or in neither. -/
theorem at?_within {t : Token} (h : t ≠ .endOfText) (hname : t.isName = false) (p : Cursor) :
    (K.alone p).at? t = (K.within p).at? t := by
  obtain ⟨_ | ⟨x, xs⟩, l⟩ := p
  · simp [Cursor.at?, Cursor.next, alone, within, h.symm, first_ne h hname]
  · rfl

/-- Likewise for the lexeme behind the next one, as long as there is a next one. -/
theorem second_within {t : Token} (h : t ≠ .endOfText) (hname : t.isName = false) (x : Lexeme)
    (xs : List Lexeme) (l : Nat) :
    ((K.alone ⟨x :: xs, l⟩).second == t) = ((K.within ⟨x :: xs, l⟩).second == t) := by
  obtain _ | ⟨y, ys⟩ := xs
  · simp [Cursor.second, alone, within, h.symm, first_ne h hname]
  · rfl

theorem second_eq_within {t : Token} (h : t ≠ .endOfText) (hname : t.isName = false) (x : Lexeme)
    (xs : List Lexeme) (l : Nat) :
    (K.alone ⟨x :: xs, l⟩).second = t ↔ (K.within ⟨x :: xs, l⟩).second = t := by
  rw [← beq_iff_eq, second_within h hname, beq_iff_eq]

/-- What follows a text does not continue its last line. -/
theorem continuesLine_within {p : Cursor} (hp : K.Fits p) :
    (K.alone p).continuesLine = (K.within p).continuesLine := by
  obtain ⟨_ | ⟨x, xs⟩, l⟩ := p
  · rcases hp.apart l List.mem_cons_self with hend | hline
    · simp [Cursor.continuesLine, Cursor.next, alone, within, hend]
    · simp [Cursor.continuesLine, Cursor.next, alone, within, hline]
  · have hlines : (K.line x.line == K.line l) = (x.line == l) := by
      rw [Bool.eq_iff_iff, beq_iff_eq, beq_iff_eq, K.line_injective.eq_iff]
    simp [Cursor.continuesLine, Cursor.next, alone, within, Lexeme.mapLine, hlines]

/-- What is asked of a lexeme that continues a line is asked of the same lexeme in both texts. -/
theorem continuesLine_and_within (condition : Cursor → Bool) {p : Cursor} (hp : K.Fits p)
    (h : ∀ x xs l, condition (K.alone ⟨x :: xs, l⟩) = condition (K.within ⟨x :: xs, l⟩)) :
    ((K.alone p).continuesLine && condition (K.alone p)) =
      ((K.within p).continuesLine && condition (K.within p)) := by
  rw [← continuesLine_within hp]
  obtain ⟨_ | ⟨x, xs⟩, l⟩ := p
  · rw [show (K.alone ⟨[], l⟩).continuesLine = false by
      simp [Cursor.continuesLine, Cursor.next, alone]]
    rfl
  · rw [h]

end Continuation

/-! ### Readers in both texts -/

/-- If `r` comes through in the text on its own, `r'` comes through in the text that goes on, at
the same place and with the result under `g`, and at least `m` lexemes are taken. If `lax` is set
and `r` has come to the very end of the text, nothing is said of `r'`. -/
def Carries {α β : Type} (K : Continuation) (lax : Bool) (m : Nat) (g : α → β) (p : Cursor)
    (r : Reader α) (r' : Reader β) : Prop :=
  ∀ a c, r (K.alone p) = .ok (a, c) → ∃ q, c = K.alone q ∧ K.Fits q ∧
    q.ahead.length + m ≤ p.ahead.length ∧
    ((lax = true ∧ q.ahead = []) ∨ r' (K.within p) = .ok (g a, K.within q))

namespace Carries

variable {α β α' β' : Type} {K : Continuation} {lax : Bool} {m : Nat} {p : Cursor}
  {g : α → α'} {h : β → β'} {r : Reader α} {r' : Reader α'} {f : α → Reader β} {f' : α' → Reader β'}

theorem of_error {e : ParseError} (hr : r (K.alone p) = .error e) : Carries K lax m g p r r' := by
  intro a c ha
  rw [hr] at ha
  cases ha

theorem give {a : α} {b : α'} (hp : K.Fits p) (hb : b = g a) :
    Carries K lax 0 g p (pure a) (pure b) := by
  rintro _ _ ⟨⟩
  exact ⟨p, rfl, hp, Nat.le_refl _, .inr (hb ▸ rfl)⟩

theorem done (hp : K.Fits p) (a : α) : Carries K lax 0 g p (pure a) (pure (g a)) :=
  give hp rfl

theorem forget (hr : Carries K lax m g p r r') : Carries K lax 0 g p r r' := by
  intro a c ha
  obtain ⟨q, hc, hq, hlen, hwithin⟩ := hr a c ha
  exact ⟨q, hc, hq, by omega, hwithin⟩

theorem of_strict (hr : Carries K false m g p r r') : Carries K lax m g p r r' := by
  intro a c ha
  obtain ⟨q, hc, hq, hlen, hwithin⟩ := hr a c ha
  exact ⟨q, hc, hq, hlen, hwithin.elim (fun hlax => nomatch hlax.1) .inr⟩

/-- Readers one after the other, with what is known of the place between them. -/
theorem bind_of_shorter {n : Nat} (hr : Carries K lax m g p r r')
    (hf : ∀ a q, K.Fits q → q.ahead.length + m ≤ p.ahead.length →
      Carries K lax n h q (f a) (f' (g a))) :
    Carries K lax (m + n) h p (r >>= f) (r' >>= f') := by
  intro b c hb
  obtain ⟨a, mid, ha, hb⟩ := Reader.bind_apply_eq_ok_iff.mp hb
  obtain ⟨q, rfl, hq, hlen, hwithin⟩ := hr a mid ha
  obtain ⟨q', hc, hq', hlen', hwithin'⟩ := hf a q hq hlen b c hb
  refine ⟨q', hc, hq', by omega, ?_⟩
  rcases hwithin with ⟨hlax, hend⟩ | hwithin
  · -- from the very end of the text there is nowhere else to go
    rw [hend, List.length_nil] at hlen'
    exact .inl ⟨hlax, List.eq_nil_of_length_eq_zero (by omega)⟩
  · rw [Reader.bind_of_ok hwithin]
    exact hwithin'

theorem bind (hr : Carries K lax m g p r r')
    (hf : ∀ a q, K.Fits q → Carries K lax 0 h q (f a) (f' (g a))) :
    Carries K lax m h p (r >>= f) (r' >>= f') :=
  bind_of_shorter hr fun a q hq _ => hf a q hq

/-- What has to come behind a reader makes up for what is left open about the end of the text. -/
theorem closed_of_add {n : Nat} (hr : Carries K true m g p r r')
    (hf : ∀ a q, K.Fits q → Carries K false n h q (f a) (f' (g a)))
    (hend : ∀ a l x, f a (K.alone ⟨[], l⟩) ≠ .ok x) :
    Carries K lax (m + n) h p (r >>= f) (r' >>= f') := by
  refine of_strict fun b c hb => ?_
  obtain ⟨a, mid, ha, hb⟩ := Reader.bind_apply_eq_ok_iff.mp hb
  obtain ⟨q, rfl, hq, hlen, hwithin⟩ := hr a mid ha
  obtain ⟨q', hc, hq', hlen', hwithin'⟩ := hf a q hq b c hb
  refine ⟨q', hc, hq', by omega, ?_⟩
  rcases hwithin with ⟨-, hnil⟩ | hwithin
  · obtain ⟨xs, l⟩ := q
    obtain rfl : xs = [] := hnil
    exact absurd hb (hend a l _)
  · rw [Reader.bind_of_ok hwithin]
    exact hwithin'

theorem closed (hr : Carries K true m g p r r')
    (hf : ∀ a q, K.Fits q → Carries K false 0 h q (f a) (f' (g a)))
    (hend : ∀ a l x, f a (K.alone ⟨[], l⟩) ≠ .ok x) :
    Carries K lax m h p (r >>= f) (r' >>= f') :=
  closed_of_add hr hf hend

/-! ### One lexeme -/

variable {x : Lexeme} {xs : List Lexeme} {l : Nat}

theorem next {f : Lexeme → Reader α} {f' : Lexeme → Reader α'}
    (hf : Carries K lax m g ⟨x :: xs, l⟩ (f x) (f' (x.mapLine K.line))) :
    Carries K lax m g ⟨x :: xs, l⟩ (Reader.next >>= f) (Reader.next >>= f') :=
  hf

theorem second {f : Token → Reader α} {f' : Token → Reader α'}
    (hf : Carries K lax m g p (f (K.alone p).second) (f' (K.within p).second)) :
    Carries K lax m g p (Reader.second >>= f) (Reader.second >>= f') :=
  hf

theorem skip {f : Unit → Reader α} {f' : Unit → Reader α'} (hp : K.Fits ⟨x :: xs, l⟩)
    (hf : K.Fits ⟨xs, x.line⟩ → Carries K lax 0 g ⟨xs, x.line⟩ (f ()) (f' ())) :
    Carries K lax 1 g ⟨x :: xs, l⟩ (Reader.skip >>= f) (Reader.skip >>= f') := by
  intro a c ha
  obtain ⟨q, hc, hq, hlen, hwithin⟩ := hf hp.tail a c ha
  exact ⟨q, hc, hq, Nat.succ_le_succ hlen, hwithin⟩

theorem ite_of_iff {t t' : Prop} [Decidable t] [Decidable t'] {r₁ r₂ : Reader α}
    {r₁' r₂' : Reader α'} (ht : t ↔ t') (h₁ : t → Carries K lax m g p r₁ r₁')
    (h₂ : ¬t → Carries K lax m g p r₂ r₂') :
    Carries K lax m g p (if t then r₁ else r₂) (if t' then r₁' else r₂') := by
  by_cases h : t
  · rw [if_pos h, if_pos (ht.mp h)]
    exact h₁ h
  · rw [if_neg h, if_neg (mt ht.mpr h)]
    exact h₂ h

theorem ite {t : Prop} [Decidable t] {r₁ r₂ : Reader α} {r₁' r₂' : Reader α'}
    (h₁ : t → Carries K lax m g p r₁ r₁') (h₂ : ¬t → Carries K lax m g p r₂ r₂') :
    Carries K lax m g p (if t then r₁ else r₂) (if t then r₁' else r₂') :=
  ite_of_iff Iff.rfl h₁ h₂

/-! ### Options and loops -/

variable {condition : Cursor → Bool}

theorem optional (hp : K.Fits p) (hcondition : condition (K.alone p) = condition (K.within p))
    (hr : condition (K.alone p) = true → Carries K lax 0 g p r r') :
    Carries K lax 0 (Option.map g) p (Reader.optional condition r)
      (Reader.optional condition r') := by
  intro a c ha
  cases hc : condition (K.alone p) with
  | false =>
    rw [Reader.optional_of_false hc] at ha
    cases ha
    exact ⟨p, rfl, hp, Nat.le_refl _, .inr (Reader.optional_of_false (hcondition ▸ hc) _)⟩
  | true =>
    rw [Reader.optional_of_true hc, map_eq_pure_bind] at ha
    rw [Reader.optional_of_true (hcondition ▸ hc), map_eq_pure_bind]
    exact bind (h := Option.map g) (hr hc) (fun a q hq => done hq (some a)) a c ha

/-- Something optional that is not looked for at the very end of the text. -/
theorem optional_lax (hp : K.Fits p) (hend : ∀ l, condition (K.alone ⟨[], l⟩) = false)
    (hcondition : ∀ x xs l, condition (K.alone ⟨x :: xs, l⟩) = condition (K.within ⟨x :: xs, l⟩))
    (hr : condition (K.alone p) = true → Carries K true 0 g p r r') :
    Carries K true 0 (Option.map g) p (Reader.optional condition r)
      (Reader.optional condition r') := by
  obtain ⟨_ | ⟨x, xs⟩, l⟩ := p
  · intro a c ha
    rw [Reader.optional_of_false (hend l)] at ha
    cases ha
    exact ⟨⟨[], l⟩, rfl, hp, Nat.le_refl _, .inl ⟨rfl, rfl⟩⟩
  · exact optional hp (hcondition x xs l) hr

theorem manyRounds (hcondition : ∀ q, condition (K.alone q) = condition (K.within q))
    (hr : ∀ q, K.Fits q → Carries K lax 1 g q r r') (rounds rounds' : Nat) (hp : K.Fits p)
    (hrounds : (K.alone p).ahead.length ≤ rounds) (hrounds' : (K.within p).ahead.length ≤ rounds') :
    Carries K lax 0 (List.map g) p (Reader.manyRounds condition r rounds)
      (Reader.manyRounds condition r' rounds') := by
  induction rounds generalizing rounds' p with
  | zero => simp at hrounds
  | succ rounds ih =>
    simp only [Continuation.length_alone, Continuation.length_within] at hrounds hrounds'
    obtain ⟨rounds', rfl⟩ : ∃ n, rounds' = n + 1 := ⟨rounds' - 1, by omega⟩
    cases hc : condition (K.alone p) with
    | false =>
      intro a c ha
      rw [Reader.manyRounds_succ_of_false hc] at ha
      cases ha
      exact ⟨p, rfl, hp, Nat.le_refl _,
        .inr (Reader.manyRounds_succ_of_false (hcondition p ▸ hc) _)⟩
    | true =>
      intro a c ha
      rw [Reader.manyRounds_succ_of_true hc] at ha
      rw [Reader.manyRounds_succ_of_true (hcondition p ▸ hc)]
      refine forget (bind_of_shorter (n := 0) (h := List.map g) (hr p hp) ?_) a c ha
      intro a q hq hlen
      refine bind (ih rounds' hq ?_ ?_) fun as q' hq' => done hq' (a :: as)
      · rw [Continuation.length_alone]
        omega
      · rw [Continuation.length_within]
        omega

/-- A loop over items of which each takes a lexeme. -/
theorem manyWhile (hp : K.Fits p)
    (hcondition : ∀ q, condition (K.alone q) = condition (K.within q))
    (hr : ∀ q, K.Fits q → Carries K lax 1 g q r r') :
    Carries K lax 0 (List.map g) p (Reader.manyWhile condition r)
      (Reader.manyWhile condition r') :=
  manyRounds hcondition hr _ _ hp (Nat.le_refl _) (Nat.le_refl _)

/-- The longest run of tokens, which may be taken to be longer at the very end of a text. -/
theorem run {f : Token → Option α} (hend : f .endOfText = none) (hp : K.Fits p) :
    Carries K true 0 id p (Reader.run f) (Reader.run f) := by
  obtain ⟨xs, l⟩ := p
  induction xs generalizing l with
  | nil =>
    intro as c h
    rw [Reader.run_apply, Continuation.alone, List.nil_append, Cursor.run, hend] at h
    cases h
    exact ⟨⟨[], l⟩, rfl, hp, Nat.le_refl _, .inl ⟨rfl, rfl⟩⟩
  | cons x xs ih =>
    intro as c h
    cases hx : f x.token with
    | none =>
      rw [Reader.run_apply, Continuation.alone, List.cons_append, Cursor.run, hx] at h
      cases h
      refine ⟨⟨x :: xs, l⟩, rfl, hp, Nat.le_refl _, .inr ?_⟩
      rw [Reader.run_apply, Continuation.within, List.map_cons, List.cons_append, Cursor.run,
        Lexeme.mapLine, hx]
      rfl
    | some a =>
      rw [Reader.run_apply, Continuation.alone, List.cons_append, Cursor.run, hx] at h
      cases h
      obtain ⟨q, hc, hq, hlen, hwithin⟩ := ih x.line hp.tail _ _ rfl
      refine ⟨q, hc, hq, Nat.le_succ_of_le hlen, hwithin.imp_right fun hwithin => ?_⟩
      have hrun : Cursor.run f (K.within ⟨xs, x.line⟩).ahead (K.line x.line) = _ :=
        Except.ok.inj hwithin
      rw [Reader.run_apply, Continuation.within, List.map_cons, List.cons_append, Cursor.run,
        Lexeme.mapLine, hx]
      change Except.ok (a :: (Cursor.run f (K.within ⟨xs, x.line⟩).ahead (K.line x.line)).1,
        (Cursor.run f (K.within ⟨xs, x.line⟩).ahead (K.line x.line)).2) = _
      rw [hrun]
      rfl

end Carries

end SchemaGraph
