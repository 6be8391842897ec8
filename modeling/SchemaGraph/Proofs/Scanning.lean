import Mathlib.Tactic.SplitIfs
import SchemaGraph.Proofs.Fallible
import SchemaGraph.Token.Scan

/-!
# Scans further down a text

A scan does not look back: behind other text it finds the same lexemes, only further down
(`Scan.foldlM_behind`). A newline ends whatever the end of the text would end
(`Scan.step_newline_of_close`), and so two texts on different lines are scanned apart from each
other (`Scan.ofText_join`). Lexemes stand on the lines of their text, in each of which no mark of
the end is found (`Scan.Placed`).
-/

namespace SchemaGraph

/-- A lexeme on another line. -/
def Lexeme.mapLine (f : Nat → Nat) (x : Lexeme) : Lexeme :=
  { x with line := f x.line }

/-- The same error about another line. -/
def ScanError.mapLine (f : Nat → Nat) : ScanError → ScanError
  | .unexpectedCharacter c line => .unexpectedCharacter c (f line)
  | .unterminatedString line => .unterminatedString (f line)
  | .unterminatedComment line => .unterminatedComment (f line)

namespace Scanning

/-- The same activity, begun on another line. -/
def mapLine (f : Nat → Nat) : Scanning → Scanning
  | .blockComment start star => .blockComment (f start) star
  | .quoted form start read => .quoted form (f start) read
  | .escape form start read => .escape form (f start) read
  | .tripleQuoted start read quotes => .tripleQuoted (f start) read quotes
  | doing => doing

/-- The line on which an activity that can go over several lines began. -/
def start? : Scanning → Option Nat
  | .blockComment start _ | .quoted _ start _ | .escape _ start _ | .tripleQuoted start _ _ =>
    some start
  | _ => none

end Scanning

namespace Scan

variable {s s' : Scan}

/-- The scan of a whole text, before the end is marked. -/
def ofText (text : String) : Except ScanError Scan := do
  (← text.toList.foldlM step start).close

theorem scan_eq (text : String) :
    scan text = (ofText text).map fun s => s.tokens ++ [⟨.endOfText, s.line⟩] := by
  unfold scan ofText
  cases h : text.toList.foldlM step start with
  | error e => rfl
  | ok s =>
    cases hc : s.close with
    | error e => simp only [bind, Except.bind, hc, Except.map]
    | ok s' =>
      simp only [bind, Except.bind, hc, Except.map, tokens, emit, emitAt, List.reverse_cons]
      rfl

/-! ### Behind other text -/

section Behind

variable {older : List Lexeme} {k : Nat}

/-- A scan that goes on `k` lines further down, behind lexemes found before. -/
def behind (older : List Lexeme) (k : Nat) (s : Scan) : Scan :=
  ⟨s.line + k, s.doing.mapLine (· + k), s.found.map (Lexeme.mapLine (· + k)) ++ older⟩

/-- What comes of a scan, `k` lines further down. -/
def outcomeBehind (older : List Lexeme) (k : Nat) (r : Except ScanError Scan) :
    Except ScanError Scan :=
  (r.map (behind older k)).mapError (ScanError.mapLine (· + k))

theorem readGap_behind (s : Scan) (c : Char) :
    (s.behind older k).readGap c = outcomeBehind older k (s.readGap c) := by
  unfold readGap
  by_cases hb : Text.isBlank c = true
  · rw [if_pos hb, if_pos hb]
    rfl
  · rw [if_neg hb, if_neg hb]
    cases Token.ofMark c with
    | some token => rfl
    | none =>
      cases Quotation.ofMark c with
      | some form => rfl
      | none => dsimp only; split_ifs <;> rfl

theorem read_behind (s : Scan) (c : Char) :
    (s.behind older k).read c = outcomeBehind older k (s.read c) := by
  obtain ⟨line, doing, found⟩ := s
  -- where an activity ends, its token is recorded and `c` is read in the gap behind it
  cases doing with
  | gap => exact readGap_behind _ c
  | escape form start r => rfl
  | slash | lineComment | blockComment start star | hash =>
    simp only [read, behind, Scanning.mapLine]
    split_ifs <;> rfl
  | quote | quoted form start r =>
    simp only [read, behind, Scanning.mapLine, readQuoted]
    split_ifs <;> rfl
  | tripleQuoted start r quotes =>
    simp only [read, behind, Scanning.mapLine, readTripleQuoted]
    split_ifs <;> rfl
  | word r =>
    simp only [read, behind, Scanning.mapLine]
    split_ifs
    · rfl
    · exact readGap_behind (emitWord ⟨line, .word r, found⟩ r) c
  | number r =>
    simp only [read, behind, Scanning.mapLine]
    split_ifs
    · rfl
    · rfl
    · rfl
    · exact readGap_behind (emitNumber ⟨line, .number r, found⟩ r) c
  | numberDot r =>
    simp only [read, behind, Scanning.mapLine]
    split_ifs
    · rfl
    · exact readGap_behind ((emitNumber ⟨line, .numberDot r, found⟩ r).emit .dot) c
  | less =>
    simp only [read, behind, Scanning.mapLine]
    split_ifs
    · rfl
    · exact readGap_behind (emit ⟨line, .less, found⟩ .less) c
  | twoQuotes =>
    simp only [read, behind, Scanning.mapLine]
    split_ifs
    · rfl
    · exact readGap_behind (emit ⟨line, .twoQuotes, found⟩ (.string "")) c

theorem pass_behind (s : Scan) (c : Char) :
    (s.behind older k).pass c = (s.pass c).behind older k := by
  unfold pass
  split_ifs
  · rw [behind, behind, Nat.add_right_comm]
  · rfl

theorem step_behind (s : Scan) (c : Char) :
    (s.behind older k).step c = outcomeBehind older k (s.step c) := by
  rw [step, step, read_behind]
  cases s.read c with
  | error e => rfl
  | ok s' => exact congrArg Except.ok (pass_behind s' c)

theorem close_behind (s : Scan) : (s.behind older k).close = outcomeBehind older k s.close := by
  obtain ⟨line, doing, found⟩ := s
  cases doing <;> rfl

/-- Behind other text a scan finds the same, only further down. -/
theorem foldlM_behind (cs : List Char) (s : Scan) :
    cs.foldlM step (s.behind older k) = outcomeBehind older k (cs.foldlM step s) := by
  induction cs generalizing s with
  | nil => rfl
  | cons c cs ih =>
    rw [List.foldlM_cons, List.foldlM_cons, step_behind]
    cases s.step c with
    | error e => rfl
    | ok s' => exact ih s'

end Behind

/-! ### One character -/

/-- What one character can do to a scan within a line: some tokens are recorded, on this line or on
the one where the activity began, and an activity goes on that began there or begins here. -/
structure Advances (s s' : Scan) : Prop where
  line : s'.line = s.line
  found : ∃ new, s'.found = new ++ s.found ∧
    ∀ x ∈ new, x.token ≠ .endOfText ∧ (x.line = s.line ∨ s.doing.start? = some x.line)
  start : ∀ l, s'.doing.start? = some l → l = s.line ∨ s.doing.start? = some l

theorem Advances.into {doing : Scanning}
    (h : ∀ l, doing.start? = some l → l = s.line ∨ s.doing.start? = some l) :
    Advances s (s.into doing) :=
  ⟨rfl, ⟨[], rfl, by simp⟩, h⟩

theorem Advances.emitAt {l : Nat} {t : Token} (ht : t ≠ .endOfText)
    (hl : l = s.line ∨ s.doing.start? = some l) : Advances s (s.emitAt l t) :=
  ⟨rfl, ⟨[⟨t, l⟩], rfl, by simpa using ⟨ht, hl⟩⟩, by simp [Scan.emitAt, Scanning.start?]⟩

theorem Advances.emit {t : Token} (ht : t ≠ .endOfText) : Advances s (s.emit t) :=
  .emitAt ht (.inl rfl)

theorem Advances.trans {s₁ s₂ s₃ : Scan} (h : Advances s₁ s₂) (h' : Advances s₂ s₃) :
    Advances s₁ s₃ := by
  obtain ⟨new, hfound, hnew⟩ := h.found
  obtain ⟨new', hfound', hnew'⟩ := h'.found
  have hstart : ∀ l, l = s₂.line ∨ s₂.doing.start? = some l →
      l = s₁.line ∨ s₁.doing.start? = some l := by
    rintro l (rfl | hl)
    · exact .inl h.line
    · exact h.start l hl
  refine ⟨h'.line.trans h.line, ⟨new' ++ new, ?_, ?_⟩, fun l hl => hstart l (h'.start l hl)⟩
  · rw [hfound', hfound, List.append_assoc]
  · intro x hx
    rcases List.mem_append.mp hx with hx | hx
    · exact ⟨(hnew' x hx).1, hstart _ (hnew' x hx).2⟩
    · exact hnew x hx

theorem ofMark_ne_endOfText {c : Char} {t : Token} (h : Token.ofMark c = some t) :
    t ≠ .endOfText := by
  rintro rfl
  unfold Token.ofMark at h
  split at h <;> cases h

theorem token_ne_endOfText (form : Quotation) (text : String) : form.token text ≠ .endOfText := by
  cases form <;> simp [Quotation.token]

theorem advances_readGap {c : Char} (h : s.readGap c = .ok s') : Advances s s' := by
  unfold readGap at h
  by_cases hb : Text.isBlank c = true
  · rw [if_pos hb] at h
    cases h
    exact .into (by simp [Scanning.start?])
  rw [if_neg hb] at h
  cases hm : Token.ofMark c with
  | some token =>
    simp only [hm] at h
    cases h
    exact .emit (ofMark_ne_endOfText hm)
  | none =>
    cases hq : Quotation.ofMark c with
    | some form =>
      simp only [hm, hq] at h
      cases h
      exact .into (by simp [Scanning.start?, eq_comm])
    | none =>
      simp only [hm, hq] at h
      split_ifs at h <;> cases h <;> exact .into (by simp [Scanning.start?])

theorem advances_readQuoted {form : Quotation} {start : Nat} {r : List Char} {c : Char}
    (h : start = s.line ∨ s.doing.start? = some start) :
    Advances s (s.readQuoted form start r c) := by
  unfold readQuoted
  split_ifs
  · exact .emitAt (token_ne_endOfText form _) h
  · exact .into (by simpa [Scanning.start?] using h)
  · exact .into (by simpa [Scanning.start?] using h)

theorem advances_readTripleQuoted {start : Nat} {r : List Char} {quotes : Nat} {c : Char}
    (h : s.doing.start? = some start) : Advances s (s.readTripleQuoted start r quotes c) := by
  unfold readTripleQuoted
  split_ifs
  · exact .emitAt (by simp) (.inr h)
  · exact .into fun l hl => .inr (h.trans hl)
  · exact .into fun l hl => .inr (h.trans hl)

theorem advances_read {c : Char} (h : s.read c = .ok s') : Advances s s' := by
  unfold read at h
  cases hd : s.doing with
  | gap =>
    simp only [hd] at h
    exact advances_readGap h
  | slash | hash =>
    simp only [hd] at h
    split_ifs at h <;> cases h <;> exact .into (by simp [Scanning.start?])
  | lineComment =>
    simp only [hd] at h
    split_ifs at h <;> cases h
    · exact .into (by simp [Scanning.start?])
    · exact ⟨rfl, ⟨[], rfl, by simp⟩, fun l hl => .inr hl⟩
  | blockComment start star =>
    simp only [hd] at h
    split_ifs at h <;> cases h <;> exact .into (by simp [Scanning.start?, hd])
  | word r =>
    simp only [hd] at h
    split_ifs at h
    · cases h
      exact .into (by simp [Scanning.start?])
    · exact .trans (.emit (by simp)) (advances_readGap h)
  | number r =>
    simp only [hd] at h
    split_ifs at h
    · cases h
      exact .into (by simp [Scanning.start?])
    · cases h
      exact .into (by simp [Scanning.start?])
    · cases h
      exact .into (by simp [Scanning.start?])
    · exact .trans (.emit (by simp)) (advances_readGap h)
  | numberDot r =>
    simp only [hd] at h
    split_ifs at h
    · cases h
      exact .into (by simp [Scanning.start?])
    · exact .trans (.emit (by simp)) (.trans (.emit (by simp)) (advances_readGap h))
  | less =>
    simp only [hd] at h
    split_ifs at h
    · cases h
      exact .emit (by simp)
    · exact .trans (.emit (by simp)) (advances_readGap h)
  | quote =>
    simp only [hd] at h
    split_ifs at h <;> cases h
    · exact .into (by simp [Scanning.start?])
    · exact advances_readQuoted (.inl rfl)
  | twoQuotes =>
    simp only [hd] at h
    split_ifs at h
    · cases h
      exact .into (by simp [Scanning.start?, eq_comm])
    · exact .trans (.emit (by simp)) (advances_readGap h)
  | quoted form start r =>
    simp only [hd] at h
    cases h
    exact advances_readQuoted (.inr (by rw [hd]; rfl))
  | escape form start r =>
    simp only [hd] at h
    cases h
    exact .into (by simp [Scanning.start?, hd])
  | tripleQuoted start r quotes =>
    simp only [hd] at h
    cases h
    exact advances_readTripleQuoted (by rw [hd]; rfl)

/-- The end of a text records at most the token that it ends. -/
theorem advances_close (h : s.close = .ok s') : Advances s s' := by
  unfold close at h
  cases hd : s.doing with
  | gap | lineComment =>
    simp only [hd] at h
    cases h
    exact ⟨rfl, ⟨[], rfl, by simp⟩, fun l hl => .inr hl⟩
  | word r | number r | less | twoQuotes =>
    simp only [hd] at h
    cases h
    exact .emit (by simp)
  | numberDot r =>
    simp only [hd] at h
    cases h
    exact .trans (.emit (by simp)) (.emit (by simp))
  | slash | blockComment | hash | quote | quoted | escape | tripleQuoted =>
    simp only [hd] at h
    cases h

/-! ### Lines -/

theorem line_pass (s : Scan) (c : Char) : (s.pass c).line = s.line + [c].count '\n' := by
  by_cases hc : c = '\n'
  · simp [pass, hc]
  · simp [pass, hc]

/-- A scan is on the line behind the newlines that it has read. -/
theorem line_foldlM {cs : List Char} (h : cs.foldlM step s = .ok s') :
    s'.line = s.line + cs.count '\n' := by
  refine foldlM_invariant (P := fun seen s' => s'.line = s.line + seen.count '\n') (by simp) ?_ h
  intro seen s₁ c s₂ h₁ h₂
  obtain ⟨s₃, hread, rfl⟩ := map_eq_ok_iff.mp h₂
  rw [line_pass, (advances_read hread).line, h₁, List.count_append, Nat.add_assoc]

/-- A scan stands on a line, with all that it has found on the lines up to there, and no mark of the
end among it. -/
structure Placed (s : Scan) : Prop where
  line : 1 ≤ s.line
  found : ∀ x ∈ s.found, x.token ≠ .endOfText ∧ 1 ≤ x.line ∧ x.line ≤ s.line
  start : ∀ l, s.doing.start? = some l → 1 ≤ l ∧ l ≤ s.line

theorem Placed.advance (h : Placed s) (ha : Advances s s') : Placed s' := by
  obtain ⟨new, hfound, hnew⟩ := ha.found
  have hstart : ∀ l, l = s.line ∨ s.doing.start? = some l → 1 ≤ l ∧ l ≤ s.line := by
    rintro l (rfl | hl)
    · exact ⟨h.line, Nat.le_refl _⟩
    · exact h.start l hl
  refine ⟨ha.line ▸ h.line, fun x hx => ?_, fun l hl => ?_⟩
  · rw [ha.line]
    rcases List.mem_append.mp (hfound ▸ hx) with hx | hx
    · exact ⟨(hnew x hx).1, hstart _ (hnew x hx).2⟩
    · exact h.found x hx
  · rw [ha.line]
    exact hstart l (ha.start l hl)

theorem Placed.pass (h : Placed s) (c : Char) : Placed (s.pass c) := by
  have hline : s.line ≤ (s.pass c).line := by
    rw [line_pass]
    exact Nat.le_add_right _ _
  have hsame : (s.pass c).found = s.found ∧ (s.pass c).doing = s.doing := by
    unfold Scan.pass
    split_ifs <;> exact ⟨rfl, rfl⟩
  refine ⟨Nat.le_trans h.line hline, fun x hx => ?_, fun l hl => ?_⟩
  · obtain ⟨ht, h₁, h₂⟩ := h.found x (hsame.1 ▸ hx)
    exact ⟨ht, h₁, Nat.le_trans h₂ hline⟩
  · obtain ⟨h₁, h₂⟩ := h.start l (hsame.2 ▸ hl)
    exact ⟨h₁, Nat.le_trans h₂ hline⟩

/-- Every scan from the start is placed. -/
theorem placed_foldlM {cs : List Char} (h : cs.foldlM step start = .ok s) : Placed s := by
  refine foldlM_invariant (P := fun _ s => Placed s) ?_ ?_ h
  · exact ⟨Nat.le_refl _, by simp [Scan.start], by simp [Scan.start, Scanning.start?]⟩
  · intro seen s₂ c s₃ h₂ hstep
    obtain ⟨s₄, hread, rfl⟩ := map_eq_ok_iff.mp hstep
    exact (h₂.advance (advances_read hread)).pass c

/-- Every scan of a text is placed. -/
theorem placed_ofText {text : String} (h : ofText text = .ok s) : Placed s := by
  obtain ⟨s₁, hfold, hclose⟩ := bind_eq_ok_iff.mp h
  exact (placed_foldlM hfold).advance (advances_close hclose)

theorem Placed.mem_tokens (h : Placed s) {x : Lexeme} (hx : x ∈ s.tokens) :
    x.token ≠ .endOfText ∧ 1 ≤ x.line ∧ x.line ≤ s.line :=
  h.found x (List.mem_reverse.mp hx)

/-- The end of a text stands on the line behind its newlines. -/
theorem line_ofText {text : String} (h : ofText text = .ok s) :
    s.line = text.toList.count '\n' + 1 := by
  obtain ⟨s₁, hfold, hclose⟩ := bind_eq_ok_iff.mp h
  rw [(advances_close hclose).line, line_foldlM hfold, start, Nat.add_comm]

/-! ### Texts on different lines -/

/-- A newline ends whatever the end of the text would end. -/
theorem step_newline_of_close (h : s.close = .ok s') :
    s.step '\n' = .ok ⟨s'.line + 1, .gap, s'.found⟩ := by
  obtain ⟨line, doing, found⟩ := s
  cases doing with
  | gap | lineComment | word r | number r | numberDot r | less | twoQuotes =>
    cases h
    rfl
  | slash | blockComment | hash | quote | quoted | escape | tripleQuoted => cases h

/-- Behind a text and a newline, another text is scanned as it is on its own. -/
theorem ofText_join {a : String} (b : String) (h : ofText a = .ok s) :
    ofText (a ++ "\n" ++ b) = outcomeBehind s.found s.line (ofText b) := by
  obtain ⟨s₁, hfold, hclose⟩ := bind_eq_ok_iff.mp h
  have hchars : (a ++ "\n" ++ b).toList = a.toList ++ '\n' :: b.toList := by simp
  have hstart : (⟨s.line + 1, .gap, s.found⟩ : Scan) = start.behind s.found s.line := by
    rw [behind, start, Nat.add_comm]
    rfl
  rw [ofText, ofText, hchars, List.foldlM_append, hfold]
  change ('\n' :: b.toList).foldlM step s₁ >>= close = _
  rw [List.foldlM_cons, step_newline_of_close hclose]
  change b.toList.foldlM step ⟨s.line + 1, .gap, s.found⟩ >>= close = _
  rw [hstart, foldlM_behind]
  cases b.toList.foldlM step start with
  | error e => rfl
  | ok s₂ => exact close_behind s₂

end Scan

end SchemaGraph
