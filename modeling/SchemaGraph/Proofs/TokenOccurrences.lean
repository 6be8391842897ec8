import SchemaGraph.Proofs.Scanning
import SchemaGraph.Token.Occurrence

/-!
# Tokens found where they stand

A scan takes a text apart into the tokens that make it up. At every place of the text it has found
the tokens before that place, and what it is in the middle of tells what it has read since: a gap,
and what has begun behind it (`Scan.Standing`, `Scanning.Begun`). Every character keeps that up
(`Scan.Holds.read`), so that at the end the tokens found make up the text, each on the line on which
its first character is (`scan_occurrences`).
-/

namespace SchemaGraph

/-! ### Filler, numbers and quoted forms, put together -/

theorem Filler.append {cs others : List Char} (h : Filler cs) (hothers : Filler others) :
    Filler (cs ++ others) := by
  induction h with
  | nil => exact hothers
  | blank hblank _ ih => exact .blank hblank ih
  | lineComment hbody _ ih =>
    rw [List.cons_append, List.cons_append, List.append_assoc]
    exact .lineComment hbody ih
  | blockComment hbody _ ih =>
    rw [List.cons_append, List.cons_append, List.append_assoc]
    exact .blockComment hbody ih

theorem continuesNumber_append {cs others : List Char} (h : continuesNumber cs = true)
    (hothers : continuesNumber others = true) : continuesNumber (cs ++ others) = true := by
  fun_induction continuesNumber cs with
  | case1 => exact hothers
  | case2 d rest ih =>
    rw [Bool.and_eq_true] at h
    simp [continuesNumber, h.1, ih h.2]
  | case3 c rest hdot ih =>
    rw [Bool.and_eq_true] at h
    have hc : c ≠ '.' := by
      rintro rfl
      cases h.1
    rw [List.cons_append, continuesNumber.eq_3 _ _ fun _ _ hd => absurd hd hc, h.1, ih h.2]
    rfl

theorem isNumber_append {cs others : List Char} (h : isNumber cs = true)
    (hothers : continuesNumber others = true) : isNumber (cs ++ others) = true := by
  cases cs with
  | nil => cases h
  | cons c cs =>
    rw [isNumber, Bool.and_eq_true] at h
    rw [List.cons_append, isNumber, h.1, continuesNumber_append h.2 hothers]
    rfl

theorem Quotation.Body.append {form : Quotation} {cs others text rest : List Char}
    (h : form.Body cs text) (hothers : form.Body others rest) :
    form.Body (cs ++ others) (text ++ rest) := by
  induction h with
  | nil => exact hothers
  | plain hmark hbackslash _ ih => exact .plain hmark hbackslash ih
  | escaped _ ih => exact .escaped ih

/-! ### What has begun -/

/-- What a scan has read of what it is in the middle of. -/
inductive Scanning.Begun : Scanning → List Char → Prop
  | gap : gap.Begun []
  | slash : slash.Begun ['/']
  | lineComment {body : List Char} (hbody : '\n' ∉ body) :
    lineComment.Begun ('/' :: '/' :: body)
  | blockComment {start : Nat} {star : Bool} {body : List Char} (hbody : ¬ ['*', '/'] <:+: body)
    (hstar : star = true ↔ body.getLast? = some '*') :
    (blockComment start star).Begun ('/' :: '*' :: body)
  | word {read : List Char} (h : BareName read.reverse) : (word read).Begun read.reverse
  | number {read : List Char} (h : isNumber read.reverse = true) :
    (number read).Begun read.reverse
  | numberDot {read : List Char} (h : isNumber read.reverse = true) :
    (numberDot read).Begun (read.reverse ++ ['.'])
  | hash : hash.Begun ['#']
  | less : less.Begun ['<']
  | quote : quote.Begun ['\'']
  | twoQuotes : twoQuotes.Begun ['\'', '\'']
  | quoted {form : Quotation} {start : Nat} {read cs : List Char}
    (h : form.Body cs read.reverse) : (quoted form start read).Begun (form.mark :: cs)
  | escape {form : Quotation} {start : Nat} {read cs : List Char}
    (h : form.Body cs read.reverse) : (escape form start read).Begun (form.mark :: (cs ++ ['\\']))
  | tripleQuoted {start quotes : Nat} {read : List Char} (hquotes : quotes ≤ 2)
    (hread : ¬ tripleQuote <:+: read) (hlast : read.head? ≠ some '\'') :
    (tripleQuoted start read quotes).Begun
      (tripleQuote ++ read.reverse ++ List.replicate quotes '\'')

namespace Occurrence

theorem lexemesFrom_append (os others : List Occurrence) (line : Nat) :
    lexemesFrom line (os ++ others) =
      lexemesFrom line os ++ lexemesFrom (line + (os.flatMap chars).count '\n') others := by
  induction os generalizing line with
  | nil => rfl
  | cons o os ih =>
    rw [List.cons_append, lexemesFrom, lexemesFrom, ih, List.flatMap_cons, List.count_append,
      Nat.add_assoc, List.cons_append]

end Occurrence

namespace Scan

open Occurrence

/-- The line on which begins what a scan is in the middle of. -/
def startLine (s : Scan) : Nat :=
  s.doing.start?.getD s.line

/-- A scan stands behind tokens, a gap and what has begun: the tokens are those found, and it is on
the line behind the newlines read, while what has begun may have done so on an earlier one. -/
structure Standing (seen : List Char) (s : Scan) (os : List Occurrence) (gap begun : List Char) :
    Prop where
  chars : seen = os.flatMap chars ++ gap ++ begun
  sound : ∀ o ∈ os, o.Sound
  filler : Filler gap
  found : s.found = (lexemesFrom 1 os).reverse
  line : s.line = 1 + seen.count '\n'
  start : s.startLine = 1 + (os.flatMap Occurrence.chars ++ gap).count '\n'

/-- A scan stands behind some tokens and a gap, and what has begun is what it is in the middle
of. -/
def Holds (seen : List Char) (s : Scan) : Prop :=
  ∃ os gap begun, Standing seen s os gap begun ∧ s.doing.Begun begun

variable {s s' : Scan} {seen gap begun : List Char} {os : List Occurrence} {c : Char}

theorem pass_of_ne (h : c ≠ '\n') (s : Scan) : s.pass c = s :=
  if_neg h

theorem found_pass (s : Scan) (c : Char) : (s.pass c).found = s.found := by
  unfold pass
  split_ifs <;> rfl

theorem doing_pass (s : Scan) (c : Char) : (s.pass c).doing = s.doing := by
  unfold pass
  split_ifs <;> rfl

theorem startLine_pass_into (s : Scan) (doing : Scanning) (c : Char) :
    ((s.into doing).pass c).startLine = doing.start?.getD (s.line + [c].count '\n') := by
  rw [startLine, doing_pass, line_pass]
  rfl

theorem Standing.line_pass (h : Standing seen s os gap begun) (doing : Scanning) (c : Char) :
    ((s.into doing).pass c).line = 1 + (seen ++ [c]).count '\n' := by
  rw [Scan.line_pass, List.count_append, ← Nat.add_assoc, ← h.line]
  rfl

/-- One more character belongs to what has begun. -/
theorem Standing.more (h : Standing seen s os gap begun) {doing : Scanning}
    (hstart : doing.start?.getD (s.line + [c].count '\n') = s.startLine) :
    Standing (seen ++ [c]) ((s.into doing).pass c) os gap (begun ++ [c]) where
  chars := by rw [h.chars, List.append_assoc]
  sound := h.sound
  filler := h.filler
  found := (found_pass _ c).trans h.found
  line := h.line_pass doing c
  start := by rw [startLine_pass_into, hstart, h.start]

/-- One more character makes filler of what has begun. -/
theorem Standing.fill (h : Standing seen s os gap begun) (hfill : Filler (gap ++ begun ++ [c])) :
    Standing (seen ++ [c]) ((s.into .gap).pass c) os (gap ++ begun ++ [c]) [] where
  chars := by simp [h.chars]
  sound := h.sound
  filler := hfill
  found := (found_pass _ c).trans h.found
  line := h.line_pass .gap c
  start := by
    rw [startLine_pass_into]
    change s.line + _ = _
    rw [h.line, h.chars]
    simp [Nat.add_assoc]

/-- The first part of what has begun spells a token, and the rest goes on within the line. -/
theorem Standing.emit_part {source more : List Char} (h : Standing seen s os gap (source ++ more))
    (hmore : '\n' ∉ more) {t : Token} (ht : t.SpelledBy source) :
    Standing seen (s.emitAt s.startLine t) (os ++ [⟨gap, source, t⟩]) [] more where
  chars := by simp [h.chars, Occurrence.chars]
  sound := List.forall_mem_append.mpr ⟨h.sound, by simpa using ⟨h.filler, ht⟩⟩
  filler := .nil
  found := by
    rw [lexemesFrom_append, List.reverse_append, ← h.found, h.start, List.count_append,
      ← Nat.add_assoc]
    rfl
  line := h.line
  start := by
    change s.line = _
    rw [h.line, h.chars]
    simp [Occurrence.chars, List.count_eq_zero.mpr hmore]

/-- What has begun spells a token. -/
theorem Standing.emit (h : Standing seen s os gap begun) {t : Token} (ht : t.SpelledBy begun) :
    Standing seen (s.emitAt s.startLine t) (os ++ [⟨gap, begun, t⟩]) [] [] := by
  rw [← List.append_nil begun] at h
  exact h.emit_part (by simp) ht

/-- One more character ends the token that has begun. -/
theorem Standing.close (h : Standing seen s os gap begun) {t : Token} (hc : c ≠ '\n')
    (ht : t.SpelledBy (begun ++ [c])) :
    Standing (seen ++ [c]) ((s.emitAt s.startLine t).pass c) (os ++ [⟨gap, begun ++ [c], t⟩]) []
      [] := by
  have hsame : s.doing.start?.getD (s.line + [c].count '\n') = s.startLine := by
    rw [List.count_singleton, if_neg (by simpa using hc), Nat.add_zero]
    rfl
  have hmore := h.more hsame
  rw [pass_of_ne hc] at hmore ⊢
  exact hmore.emit ht

theorem Standing.into (h : Standing seen s os gap begun) {doing : Scanning}
    (hstart : doing.start?.getD (s.line + [c].count '\n') = s.startLine)
    (hbegun : doing.Begun (begun ++ [c])) : Holds (seen ++ [c]) ((s.into doing).pass c) :=
  ⟨os, gap, _, h.more hstart, by rw [doing_pass]; exact hbegun⟩

/-- What has begun goes on within its line. -/
theorem Standing.onLine (h : Standing seen s os gap begun) (hc : c ≠ '\n') {doing : Scanning}
    (hstart : doing.start?.getD s.line = s.startLine) (hbegun : doing.Begun (begun ++ [c])) :
    Holds (seen ++ [c]) ((s.into doing).pass c) := by
  refine h.into ?_ hbegun
  rw [List.count_singleton, if_neg (by simpa using hc), Nat.add_zero]
  exact hstart

theorem Standing.closed (h : Standing seen s os gap begun) {t : Token} (hc : c ≠ '\n')
    (ht : t.SpelledBy (begun ++ [c])) :
    Holds (seen ++ [c]) ((s.emitAt s.startLine t).pass c) :=
  ⟨_, _, _, h.close hc ht, by rw [doing_pass]; exact .gap⟩

theorem Standing.filled (h : Standing seen s os gap begun)
    (hfill : Filler (gap ++ begun ++ [c])) : Holds (seen ++ [c]) ((s.into .gap).pass c) :=
  ⟨_, _, _, h.fill hfill, by rw [doing_pass]; exact .gap⟩

/-! ### One character -/

theorem mark_of_ofMark {form : Quotation} (h : Quotation.ofMark c = some form) : c = form.mark := by
  unfold Quotation.ofMark at h
  split_ifs at h with hname hexpression <;> cases h
  · exact hname
  · exact hexpression

theorem isNumber_singleton (h : c.isDigit = true) : isNumber [c] = true := by
  rw [isNumber, h]
  rfl

/-- Between two tokens, a character belongs to the gap, is a token or begins something. -/
theorem Standing.readGap (h : Standing seen s os gap []) (hd : s.doing = .gap)
    (hr : s.readGap c = .ok s') : Holds (seen ++ [c]) (s'.pass c) := by
  have hstart : s.startLine = s.line := by
    rw [startLine, hd]
    rfl
  unfold Scan.readGap at hr
  by_cases hb : Text.isBlank c = true
  · rw [if_pos hb] at hr
    cases hr
    refine h.filled ?_
    rw [List.append_nil]
    exact h.filler.append (.blank hb .nil)
  rw [if_neg hb] at hr
  have hc : c ≠ '\n' := by
    rintro rfl
    exact hb rfl
  cases hm : Token.ofMark c with
  | some token =>
    simp only [hm] at hr
    cases hr
    rw [Scan.emit, ← hstart]
    exact h.closed hc (.mark hm)
  | none =>
    cases hq : Quotation.ofMark c with
    | some form =>
      simp only [hm, hq] at hr
      cases hr
      obtain rfl := mark_of_ofMark hq
      exact h.onLine hc hstart.symm (.quoted .nil)
    | none =>
      simp only [hm, hq] at hr
      split_ifs at hr with hslash hhash hless hquote hdigit hword <;> cases hr
      · exact h.onLine hc hstart.symm (hslash ▸ .slash)
      · exact h.onLine hc hstart.symm (hhash ▸ .hash)
      · exact h.onLine hc hstart.symm (hless ▸ .less)
      · exact h.onLine hc hstart.symm (hquote ▸ .quote)
      · exact h.onLine hc hstart.symm (.number (isNumber_singleton hdigit))
      · exact h.onLine hc hstart.symm (.word (.word hword))

/-- A token of which nothing is left to come is recorded, and then the gap behind it is read. -/
theorem Standing.emit_readGap (h : Standing seen s os gap begun) (hstart : s.startLine = s.line)
    {t : Token} (ht : t.SpelledBy begun) (hr : (s.emit t).readGap c = .ok s') :
    Holds (seen ++ [c]) (s'.pass c) := by
  rw [Scan.emit, ← hstart] at hr
  exact (h.emit ht).readGap rfl hr

/-- A quoted form ends, or goes on with a character or with a backslash before one. -/
theorem Standing.readQuoted {form : Quotation} {start : Nat} {cs read : List Char}
    (h : Standing seen s os gap (form.mark :: cs)) (hbody : form.Body cs read.reverse)
    (hstart : s.startLine = start) :
    Holds (seen ++ [c]) ((s.readQuoted form start read c).pass c) := by
  unfold Scan.readQuoted
  split_ifs with hmark hbackslash
  · subst hmark hstart
    exact h.closed (by cases form <;> decide) (.quoted hbody)
  · subst hbackslash
    exact h.into hstart.symm (.escape hbody)
  · refine h.into hstart.symm (.quoted ?_)
    rw [List.reverse_cons]
    exact hbody.append (.plain hmark hbackslash .nil)

/-- A block comment goes on as long as no slash comes behind a star. -/
theorem unended_append {body : List Char} (hbody : ¬ ['*', '/'] <:+: body)
    (hc : ¬ (body.getLast? = some '*' ∧ c = '/')) : ¬ ['*', '/'] <:+: body ++ [c] := by
  rw [List.infix_concat_iff]
  rintro (⟨before, h⟩ | h)
  · rw [← List.singleton_append, ← List.append_assoc] at h
    obtain ⟨rfl, hslash⟩ := List.append_inj' h rfl
    exact hc ⟨by simp, (List.cons.inj hslash).1.symm⟩
  · exact hbody h

/-- Less than three single quotes do not make up three with what is before them, if that ends with
another character. -/
theorem tripleQuote_free_cons {read : List Char} (hread : ¬ tripleQuote <:+: read)
    (hlast : read.head? ≠ some '\'') {quotes : Nat} (hquotes : quotes ≤ 2) (hc : c ≠ '\'') :
    ¬ tripleQuote <:+: c :: (List.replicate quotes '\'' ++ read) := by
  -- wherever the three begin, one of them would be `c` or the first character of `read`
  have hopen : ∀ pattern : List Char, ¬ '\'' :: pattern <+: read := by
    rintro pattern ⟨rest, rfl⟩
    exact hlast rfl
  obtain rfl | rfl | rfl : quotes = 0 ∨ quotes = 1 ∨ quotes = 2 := by omega
  all_goals
    simp only [tripleQuote] at hread ⊢
    simp [List.infix_cons_iff, List.cons_prefix_cons, List.replicate, hread, hopen, Ne.symm hc]

theorem ne_newline {p : Char → Bool} (h : p c = true) (hp : p '\n' = false) : c ≠ '\n' := by
  rintro rfl
  rw [hp] at h
  cases h

/-- A block comment ends, or goes on with a star or another character. -/
theorem Standing.readBlockComment {start : Nat} {star : Bool} {body : List Char}
    (h : Standing seen s os gap ('/' :: '*' :: body)) (hbody : ¬ ['*', '/'] <:+: body)
    (hstar : star = true ↔ body.getLast? = some '*') (hstart : s.startLine = start)
    (hr : s' = if star && c = '/' then s.into .gap else s.into (.blockComment start (c = '*'))) :
    Holds (seen ++ [c]) (s'.pass c) := by
  simp only [Bool.and_eq_true, decide_eq_true_eq, hstar] at hr
  split_ifs at hr with hc <;> subst hr
  · obtain ⟨hlast, rfl⟩ := hc
    obtain ⟨body, rfl⟩ := List.getLast?_eq_some_iff.mp hlast
    have hopen : ¬ ['*', '/'] <:+: body := fun hi => hbody (hi.trans (List.infix_append_left ..))
    refine h.filled ?_
    rw [List.append_assoc]
    simpa using h.filler.append (.blockComment hopen .nil)
  · exact h.into hstart.symm (.blockComment (unended_append hbody hc) (by simp))

/-- A number goes on with a digit or a dot, turns out to begin a name, or ends. -/
theorem Standing.readNumber {read : List Char} (h : Standing seen s os gap read.reverse)
    (hd : s.doing = .number read) (hnumber : isNumber read.reverse = true)
    (hr : s.read c = .ok s') : Holds (seen ++ [c]) (s'.pass c) := by
  have hstart : s.startLine = s.line := by
    rw [startLine, hd]
    rfl
  simp only [Scan.read, hd] at hr
  split_ifs at hr with hdigit hdot hword
  · cases hr
    refine h.onLine (ne_newline hdigit rfl) hstart.symm ?_
    rw [← List.reverse_cons]
    exact .number (List.reverse_cons ▸ isNumber_append hnumber (by simp [continuesNumber, hdigit]))
  · cases hr
    subst hdot
    exact h.onLine (by decide) hstart.symm (.numberDot hnumber)
  · cases hr
    refine h.onLine (ne_newline hword rfl) hstart.symm ?_
    rw [← List.reverse_cons]
    exact .word (List.reverse_cons ▸ .numbered hnumber hword)
  · exact h.emit_readGap hstart (.number hnumber) hr

/-- A text in triple quotes ends with the third quote in a row, or goes on. -/
theorem Standing.readTripleQuoted {start quotes : Nat} {read : List Char}
    (h : Standing seen s os gap (tripleQuote ++ read.reverse ++ List.replicate quotes '\''))
    (hquotes : quotes ≤ 2) (hread : ¬ tripleQuote <:+: read) (hlast : read.head? ≠ some '\'')
    (hstart : s.startLine = start) :
    Holds (seen ++ [c]) ((s.readTripleQuoted start read quotes c).pass c) := by
  unfold Scan.readTripleQuoted
  split_ifs with hc hthird
  · subst hc hthird hstart
    have hbody : ¬ tripleQuote <:+: read.reverse := by
      rwa [show tripleQuote = tripleQuote.reverse from rfl, List.reverse_infix]
    refine h.closed (by decide) ?_
    rw [List.append_assoc]
    exact .tripleQuoted hbody (by rwa [List.getLast?_reverse])
  · subst hc
    refine h.into hstart.symm ?_
    rw [List.append_assoc, ← List.replicate_succ']
    exact .tripleQuoted (by omega) hread hlast
  · refine h.into hstart.symm ?_
    have hbegun : (Scanning.tripleQuoted start _ 0).Begun _ :=
      .tripleQuoted (Nat.zero_le 2) (tripleQuote_free_cons hread hlast hquotes hc)
        (by simpa using hc)
    simpa using hbegun

/-- Every character is read into what a scan stands behind. -/
theorem Holds.read (h : Holds seen s) (hr : s.read c = .ok s') :
    Holds (seen ++ [c]) (s'.pass c) := by
  obtain ⟨os, gap, begun, h, hb⟩ := h
  obtain ⟨line, doing, found⟩ := s
  cases hb with
  | gap => exact h.readGap rfl hr
  | slash =>
    simp only [Scan.read] at hr
    split_ifs at hr with hslash hstar <;> cases hr
    · subst hslash
      exact h.onLine (by decide) rfl (.lineComment List.not_mem_nil)
    · subst hstar
      exact h.onLine (by decide) rfl (.blockComment (by decide) (by decide))
  | @lineComment body hbody =>
    simp only [Scan.read] at hr
    split_ifs at hr with hc <;> cases hr
    · refine h.filled ?_
      rw [hc, List.append_assoc]
      exact h.filler.append (.lineComment hbody .nil)
    · exact h.onLine hc rfl (.lineComment (by simpa using ⟨hbody, Ne.symm hc⟩))
  | blockComment hbody hstar => exact h.readBlockComment hbody hstar rfl (Except.ok.inj hr).symm
  | @word read hword =>
    simp only [Scan.read] at hr
    split_ifs at hr with hc
    · cases hr
      refine h.onLine (ne_newline hc rfl) rfl ?_
      rw [← List.reverse_cons]
      exact .word (List.reverse_cons ▸ .more hword hc)
    · exact h.emit_readGap rfl (.bare hword) hr
  | number hnumber => exact h.readNumber rfl hnumber hr
  | @numberDot read hnumber =>
    simp only [Scan.read] at hr
    split_ifs at hr with hdigit
    · cases hr
      have hgoes : isNumber (c :: '.' :: read).reverse = true := by
        rw [List.reverse_cons, List.reverse_cons, List.append_assoc]
        exact isNumber_append hnumber (by simp [continuesNumber, hdigit])
      refine h.onLine (ne_newline hdigit rfl) rfl ?_
      rw [← List.reverse_cons, ← List.reverse_cons]
      exact .number hgoes
    · have hdot := h.emit_part (by decide) (.number hnumber)
      exact hdot.emit_readGap rfl (.mark rfl) hr
  | hash =>
    simp only [Scan.read] at hr
    split_ifs at hr with hc
    cases hr
    exact h.onLine (ne_newline (p := fun c => Text.isLetter c || Text.isNumeric c) hc rfl) rfl
      (.word (.colour hc))
  | less =>
    simp only [Scan.read] at hr
    split_ifs at hr with hc
    · cases hr
      subst hc
      exact h.closed (by decide) .diamond
    · exact h.emit_readGap rfl .less hr
  | quote =>
    simp only [Scan.read] at hr
    cases hr
    split_ifs with hc
    · subst hc
      exact h.onLine (by decide) rfl .twoQuotes
    · exact h.readQuoted (.nil : Quotation.string.Body [] []) rfl
  | twoQuotes =>
    simp only [Scan.read] at hr
    split_ifs at hr with hc
    · cases hr
      subst hc
      exact h.onLine (by decide) rfl (.tripleQuoted (Nat.zero_le 2) (by decide) (by decide))
    · exact h.emit_readGap rfl (.quoted (.nil : Quotation.string.Body [] [])) hr
  | quoted hbody =>
    cases hr
    exact h.readQuoted hbody rfl
  | @escape form start read cs hbody =>
    cases hr
    refine h.into rfl ?_
    rw [List.cons_append, List.append_assoc]
    exact .quoted (List.reverse_cons ▸ hbody.append (.escaped .nil))
  | tripleQuoted hquotes hread hlast =>
    cases hr
    exact h.readTripleQuoted hquotes hread hlast rfl

/-- Every scan from the start stands behind what it has read. -/
theorem holds_foldlM {cs : List Char} (h : cs.foldlM step start = .ok s) : Holds cs s := by
  refine foldlM_invariant (P := Holds) ?_ ?_ h
  · have hstart : Standing [] Scan.start [] [] [] := ⟨rfl, by simp, .nil, rfl, rfl, rfl⟩
    exact ⟨[], [], [], hstart, .gap⟩
  · intro seen s₁ c s₂ h₁ hstep
    obtain ⟨s₃, hread, rfl⟩ := map_eq_ok_iff.mp hstep
    exact h₁.read hread

/-- Where nothing has begun, the tokens before make up what is read. -/
theorem Standing.makeUp (h : Standing seen s os gap []) : MakeUp os seen where
  sound := h.sound
  chars := ⟨gap, by rw [h.chars, List.append_nil], h.filler.append (.blank rfl .nil)⟩

/-- At the end of a text the tokens found make it up. -/
theorem Holds.makeUp (h : Holds seen s) (hclose : s.close = .ok s') :
    ∃ os, MakeUp os seen ∧ s'.tokens = lexemesFrom 1 os := by
  obtain ⟨os, gap, begun, h, hb⟩ := h
  obtain ⟨line, doing, found⟩ := s
  have ended : ∀ {s : Scan} {os gap}, Standing seen s os gap [] →
      ∃ os, MakeUp os seen ∧ s.tokens = lexemesFrom 1 os := fun h =>
    ⟨_, h.makeUp, by rw [tokens, h.found, List.reverse_reverse]⟩
  cases hb with
  | gap =>
    cases hclose
    exact ended h
  | lineComment hbody =>
    cases hclose
    have hfill : Filler (gap ++ ('/' :: '/' :: (_ ++ '\n' :: []))) :=
      h.filler.append (.lineComment hbody .nil)
    refine ⟨os, ⟨h.sound, _, h.chars.trans (List.append_assoc ..), ?_⟩, ?_⟩
    · rwa [List.append_assoc]
    · rw [tokens, h.found, List.reverse_reverse]
  | word hword =>
    cases hclose
    exact ended (h.emit (.bare hword))
  | number hnumber =>
    cases hclose
    exact ended (h.emit (.number hnumber))
  | numberDot hnumber =>
    cases hclose
    exact ended ((h.emit_part (by decide) (.number hnumber)).emit (.mark rfl))
  | less =>
    cases hclose
    exact ended (h.emit .less)
  | twoQuotes =>
    cases hclose
    exact ended (h.emit (.quoted (.nil : Quotation.string.Body [] [])))
  | slash | blockComment | hash | quote | quoted | escape | tripleQuoted => cases hclose

end Scan

/-- **The tokens of a text make it up.** Each of them is spelled by characters of the text, on the
line behind the newlines before them; between them is filler alone; and the end of the text is on
the line behind all newlines. -/
theorem scan_occurrences {text : String} {lexemes : List Lexeme} (h : scan text = .ok lexemes) :
    ∃ os, Occurrence.MakeUp os text.toList ∧
      lexemes = Occurrence.lexemesFrom 1 os ++ [⟨.endOfText, 1 + text.toList.count '\n'⟩] := by
  rw [Scan.scan_eq] at h
  obtain ⟨s, hs, rfl⟩ := map_eq_ok_iff.mp h
  obtain ⟨s₁, hfold, hclose⟩ := bind_eq_ok_iff.mp hs
  obtain ⟨os, hos, htokens⟩ := (Scan.holds_foldlM hfold).makeUp hclose
  exact ⟨os, hos, by rw [htokens, Scan.line_ofText hs, Nat.add_comm]⟩

end SchemaGraph
