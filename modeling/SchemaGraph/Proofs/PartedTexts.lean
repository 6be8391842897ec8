import SchemaGraph.Proofs.TokenOccurrences

/-!
# Texts parted by filler

A newline ends whatever a text could go on with, and filler behind it leaves a scan where it is, but
for the line (`Scan.foldlM_filler`). So behind a text, a newline and filler, another text is scanned
as it is on its own, only further down (`scan_parted`): neither of the two texts takes characters of
the other one for a part of its tokens, its strings or its comments.
-/

namespace SchemaGraph

/-! ### Filler is passed over -/

namespace Scan

variable {k start : Nat} {found : List Lexeme} {c : Char} {body : List Char}

/-- Between two tokens, a blank character leaves a scan where it is. -/
theorem step_of_isBlank (hc : Text.isBlank c = true) :
    step ⟨k, .gap, found⟩ c = .ok ⟨k + [c].count '\n', .gap, found⟩ := by
  rw [step, read, readGap, if_pos hc]
  by_cases hnewline : c = '\n'
  · simp [hnewline, into, pass, Except.map]
  · simp [hnewline, into, pass, Except.map]

/-- Within its line, a line comment goes on. -/
theorem foldlM_lineComment (hbody : '\n' ∉ body) :
    body.foldlM step ⟨k, .lineComment, found⟩ = .ok ⟨k, .lineComment, found⟩ := by
  induction body with
  | nil => rfl
  | cons c body ih =>
    rw [List.mem_cons, not_or] at hbody
    have hstep : step ⟨k, .lineComment, found⟩ c = .ok ⟨k, .lineComment, found⟩ := by
      simp [step, read, pass, Ne.symm hbody.1, Except.map]
    rw [List.foldlM_cons, hstep]
    exact ih hbody.2

/-- A block comment goes on as long as no slash comes behind a star. -/
theorem step_blockComment {star : Bool} (hc : ¬ (star = true ∧ c = '/')) :
    step ⟨k, .blockComment start star, found⟩ c =
      .ok ⟨k + [c].count '\n', .blockComment start (c = '*'), found⟩ := by
  have hgoes : ¬ (star && decide (c = '/')) = true := by simpa using hc
  rw [step, read]
  simp only [if_neg hgoes]
  by_cases hnewline : c = '\n'
  · simp [hnewline, into, pass, Except.map]
  · simp [hnewline, into, pass, Except.map]

theorem foldlM_blockComment (hbody : ¬ ['*', '/'] <:+: body) :
    body.foldlM step ⟨k, .blockComment start false, found⟩ =
      .ok ⟨k + body.count '\n', .blockComment start (body.getLast? = some '*'), found⟩ := by
  induction body using List.reverseRecOn with
  | nil => rfl
  | append_singleton body c ih =>
    have hbefore : ¬ ['*', '/'] <:+: body := fun h => hbody (h.trans (List.infix_append_left ..))
    have hgoes : ¬ (decide (body.getLast? = some '*') = true ∧ c = '/') := by
      rintro ⟨hstar, rfl⟩
      obtain ⟨before, rfl⟩ := List.getLast?_eq_some_iff.mp (of_decide_eq_true hstar)
      exact hbody ⟨before, [], by simp⟩
    rw [List.foldlM_append, ih hbefore]
    change step ⟨k + body.count '\n', .blockComment start _, found⟩ c >>= pure = _
    rw [bind_pure, step_blockComment hgoes, List.count_append, Nat.add_assoc, List.getLast?_concat]
    simp

/-- Between two tokens, filler leaves a scan where it is, but for the line. -/
theorem foldlM_filler {cs : List Char} (h : Filler cs) (k : Nat) (found : List Lexeme) :
    cs.foldlM step ⟨k, .gap, found⟩ = .ok ⟨k + cs.count '\n', .gap, found⟩ := by
  induction h generalizing k with
  | nil => rfl
  | @blank c rest hblank _ ih =>
    rw [List.foldlM_cons, step_of_isBlank hblank]
    change rest.foldlM step ⟨k + [c].count '\n', .gap, found⟩ = _
    rw [ih, Nat.add_assoc, ← List.count_append, List.singleton_append]
  | @lineComment body rest hbody _ ih =>
    change (body ++ '\n' :: rest).foldlM step ⟨k, .lineComment, found⟩ = _
    rw [List.foldlM_append, foldlM_lineComment hbody]
    change rest.foldlM step ⟨k + 1, .gap, found⟩ = _
    have hcount : ('/' :: '/' :: (body ++ '\n' :: rest)).count '\n' = 1 + rest.count '\n' := by
      simp [List.count_eq_zero.mpr hbody, Nat.add_comm]
    rw [ih, hcount, Nat.add_assoc]
  | @blockComment body rest hbody _ ih =>
    change (body ++ '*' :: '/' :: rest).foldlM step ⟨k, .blockComment k false, found⟩ = _
    rw [List.foldlM_append, foldlM_blockComment hbody]
    change ('*' :: '/' :: rest).foldlM step ⟨k + body.count '\n', .blockComment k _, found⟩ = _
    rw [List.foldlM_cons, step_blockComment (by simp)]
    change rest.foldlM step ⟨k + body.count '\n', .gap, found⟩ = _
    have hcount : ('/' :: '*' :: (body ++ '*' :: '/' :: rest)).count '\n' =
        body.count '\n' + rest.count '\n' := by simp
    rw [ih, hcount, Nat.add_assoc]

end Scan

/-! ### Texts parted by filler -/

/-- Filler that begins with a newline. -/
def Parting (w : String) : Prop :=
  ∃ rest, w.toList = '\n' :: rest ∧ Filler rest

namespace Scan

variable {s : Scan}

/-- Behind a text, a newline and filler, another text is scanned as it is on its own. -/
theorem ofText_parted {a w : String} (b : String) (h : ofText a = .ok s) (hw : Parting w) :
    ofText (a ++ w ++ b) = outcomeBehind s.found ((a ++ w).toList.count '\n') (ofText b) := by
  obtain ⟨s₁, hfold, hclose⟩ := bind_eq_ok_iff.mp h
  obtain ⟨rest, hrest, hfill⟩ := hw
  have hchars : (a ++ w ++ b).toList = a.toList ++ '\n' :: (rest ++ b.toList) := by simp [hrest]
  -- the scan of the second text starts on the line behind the newlines of the first one and of `w`
  have hline : s.line + 1 + rest.count '\n' = (a ++ w).toList.count '\n' + 1 := by
    rw [line_ofText h, String.toList_append, hrest, List.count_append, List.count_cons_self]
    omega
  have hstart : (⟨s.line + 1 + rest.count '\n', .gap, s.found⟩ : Scan) =
      start.behind s.found ((a ++ w).toList.count '\n') := by
    rw [hline, behind, start, Nat.add_comm]
    rfl
  rw [ofText, ofText, hchars, List.foldlM_append, hfold]
  change ('\n' :: (rest ++ b.toList)).foldlM step s₁ >>= close = _
  rw [List.foldlM_cons, step_newline_of_close hclose]
  change (rest ++ b.toList).foldlM step ⟨s.line + 1, .gap, s.found⟩ >>= close = _
  rw [List.foldlM_append, foldlM_filler hfill]
  change b.toList.foldlM step ⟨s.line + 1 + rest.count '\n', .gap, s.found⟩ >>= close = _
  rw [hstart, foldlM_behind]
  cases b.toList.foldlM step start with
  | error e => rfl
  | ok s₂ => exact close_behind s₂

end Scan

/-! ### Lines of lexemes -/

namespace Occurrence

theorem le_line_of_mem_lexemesFrom {os : List Occurrence} {line : Nat} {x : Lexeme}
    (hx : x ∈ lexemesFrom line os) : line ≤ x.line := by
  induction os generalizing line with
  | nil => cases hx
  | cons o os ih =>
    rcases List.mem_cons.mp hx with rfl | hx
    · exact Nat.le_add_right _ _
    · exact Nat.le_trans (Nat.le_add_right _ _) (ih hx)

/-- Tokens that stand one after the other are on lines one after the other. -/
theorem pairwise_lexemesFrom (os : List Occurrence) (line : Nat) :
    (lexemesFrom line os).Pairwise (·.line ≤ ·.line) := by
  induction os generalizing line with
  | nil => exact .nil
  | cons o os ih =>
    refine .cons (fun x hx => ?_) (ih _)
    have hbehind := le_line_of_mem_lexemesFrom hx
    rw [chars, List.count_append] at hbehind
    change line + o.gap.count '\n' ≤ x.line
    omega

end Occurrence

/-- The lexemes of a whole text: one mark of the end, behind all tokens, and lines that are counted
from 1 and never go back. -/
structure Whole (lexemes : List Lexeme) : Prop where
  ended : ∃ tokens endLine, lexemes = tokens ++ [⟨.endOfText, endLine⟩] ∧
    ∀ x ∈ tokens, x.token ≠ .endOfText
  ordered : lexemes.Pairwise (·.line ≤ ·.line)
  counted : ∀ x ∈ lexemes, 1 ≤ x.line

/-- What a text is scanned to is whole. -/
theorem Whole.of_scan {text : String} {lexemes : List Lexeme} (h : scan text = .ok lexemes) :
    Whole lexemes := by
  obtain ⟨os, -, hos⟩ := scan_occurrences h
  rw [Scan.scan_eq] at h
  obtain ⟨s, hs, rfl⟩ := map_eq_ok_iff.mp h
  have hplaced := Scan.placed_ofText hs
  obtain ⟨htokens, -⟩ := List.append_inj' hos rfl
  refine ⟨⟨s.tokens, s.line, rfl, fun x hx => (hplaced.mem_tokens hx).1⟩, ?_, ?_⟩
  · refine List.pairwise_append.mpr ⟨?_, List.pairwise_singleton .., fun x hx y hy => ?_⟩
    · rw [htokens]
      exact Occurrence.pairwise_lexemesFrom os 1
    · rw [List.mem_singleton.mp hy]
      exact (hplaced.mem_tokens hx).2.2
  · refine List.forall_mem_append.mpr ⟨fun x hx => (hplaced.mem_tokens hx).2.1, ?_⟩
    simpa using hplaced.line

/-- **Texts that filler parts are scanned apart from each other.** Behind a text that can be
scanned, a newline and more blanks and comments, any text gives the lexemes that it has by itself,
or the error, as many lines further down as there are newlines before it. The lexemes of a text are
whole, and each is on the line behind the newlines before its token. -/
theorem scan_parted {a w : String} {lexemes : List Lexeme} (ha : scan a = .ok lexemes)
    (hw : Parting w) (b : String) :
    (∀ others, scan b = .ok others → scan (a ++ w ++ b) =
      .ok (lexemes.dropLast ++ others.map (Lexeme.mapLine (· + (a ++ w).toList.count '\n')))) ∧
    (∀ e, scan b = .error e → scan (a ++ w ++ b) =
      .error (e.mapLine (· + (a ++ w).toList.count '\n'))) ∧
    Whole lexemes ∧
    ∃ os, Occurrence.MakeUp os a.toList ∧
      lexemes = Occurrence.lexemesFrom 1 os ++ [⟨.endOfText, 1 + a.toList.count '\n'⟩] := by
  refine ⟨fun others hb => ?_, fun e hb => ?_, .of_scan ha, scan_occurrences ha⟩
  all_goals
    rw [Scan.scan_eq] at ha hb ⊢
    obtain ⟨s, hs, rfl⟩ := map_eq_ok_iff.mp ha
    rw [Scan.ofText_parted b hs hw]
  · obtain ⟨s₂, hs₂, rfl⟩ := map_eq_ok_iff.mp hb
    rw [hs₂, List.dropLast_concat]
    simp [Scan.outcomeBehind, Except.map, Except.mapError, Scan.behind, Scan.tokens,
      Lexeme.mapLine]
  · cases hofText : Scan.ofText b with
    | ok s₂ =>
      rw [hofText] at hb
      cases hb
    | error e' =>
      rw [hofText] at hb
      cases hb
      rfl

/-- A number and a dot are not read on behind comments, whatever quotes stand in these, and an error
is reported further down. -/
theorem scan_parted_comments :
    scan "a 1." = .ok [⟨.name "a", 1⟩, ⟨.number "1", 1⟩, ⟨.dot, 1⟩, ⟨.endOfText, 1⟩] ∧
    Parting "\n// it's\n/* \" */ " ∧
    scan "5\n<" = .ok [⟨.number "5", 1⟩, ⟨.less, 2⟩, ⟨.endOfText, 2⟩] ∧
    scan ("a 1." ++ "\n// it's\n/* \" */ " ++ "5\n<") = .ok [⟨.name "a", 1⟩, ⟨.number "1", 1⟩,
      ⟨.dot, 1⟩, ⟨.number "5", 3⟩, ⟨.less, 4⟩, ⟨.endOfText, 4⟩] ∧
    scan "\n'b" = .error (.unterminatedString 2) ∧
    scan ("a 1." ++ "\n// it's\n/* \" */ " ++ "\n'b") = .error (.unterminatedString 4) := by
  have ha : scan "a 1." = .ok [⟨.name "a", 1⟩, ⟨.number "1", 1⟩, ⟨.dot, 1⟩, ⟨.endOfText, 1⟩] := by
    decide +kernel
  have hblock : Filler ('/' :: '*' :: ([' ', '"', ' '] ++ '*' :: '/' :: [' '])) :=
    .blockComment (by decide) (.blank rfl .nil)
  have hw : Parting "\n// it's\n/* \" */ " :=
    ⟨_, by decide, .lineComment (by decide : '\n' ∉ [' ', 'i', 't', '\'', 's']) hblock⟩
  have hb : scan "5\n<" = .ok [⟨.number "5", 1⟩, ⟨.less, 2⟩, ⟨.endOfText, 2⟩] := by decide +kernel
  have hbroken : scan "\n'b" = .error (.unterminatedString 2) := by decide +kernel
  exact ⟨ha, hw, hb, (scan_parted ha hw "5\n<").1 _ hb, hbroken,
    (scan_parted ha hw "\n'b").2.1 _ hbroken⟩

end SchemaGraph
