import SchemaGraph.Diagnostic.Balance
import SchemaGraph.Proofs.Scanning

/-!
# How braces nest

The braces of a document are counted twice: as tokens by whoever reads the document, and as
characters by whoever lints the text. Tokens lead from some open braces to others (`Nests`), and so
do the braces of a text; where they lead from none to none, and only there, nothing is reported of
the text (`balance_eq_nil_iff`). Every brace that a scan finds is one of the text, in the same order
(`Scan.braces_ofText`), so that a text with no other braces has the nesting of its tokens
(`braceMarks_eq_of_count`).
-/

namespace SchemaGraph

/-- Whether a token is a brace. -/
def Token.isBrace : Token → Bool
  | .openBrace | .closeBrace => true
  | _ => false

/-- **Tokens nest**: with `i` braces open before them, `j` are open behind them, and none is closed
that is not open. -/
inductive Nests : Nat → List Token → Nat → Prop
  | done {i : Nat} : Nests i [] i
  | opened {i j : Nat} {ts : List Token} (h : Nests (i + 1) ts j) : Nests i (.openBrace :: ts) j
  | closed {i j : Nat} {ts : List Token} (h : Nests i ts j) : Nests (i + 1) (.closeBrace :: ts) j
  | other {i j : Nat} {t : Token} {ts : List Token} (ht : t.isBrace = false) (h : Nests i ts j) :
    Nests i (t :: ts) j

/-- **Tokens are balanced**: nowhere are more braces closed than opened, and in the end as many. -/
def Balanced (ts : List Token) : Prop :=
  (∀ front, front <+: ts → front.count .closeBrace ≤ front.count .openBrace) ∧
    ts.count .closeBrace = ts.count .openBrace

namespace Nests

variable {i j k : Nat} {t : Token} {ts us : List Token}

theorem single (ht : t.isBrace = false) : Nests i [t] i :=
  .other ht .done

/-- Where there are no braces, none is opened or closed. -/
theorem of_isBrace_eq_false (h : ∀ t ∈ ts, t.isBrace = false) : Nests i ts i := by
  induction ts with
  | nil => exact .done
  | cons t ts ih =>
    obtain ⟨ht, hts⟩ := List.forall_mem_cons.mp h
    exact .other ht (ih hts)

theorem append (h : Nests i ts j) (h' : Nests j us k) : Nests i (ts ++ us) k := by
  induction h with
  | done => exact h'
  | opened _ ih => exact .opened (ih h')
  | closed _ ih => exact .closed (ih h')
  | other ht _ ih => exact .other ht (ih h')

/-- Only braces matter. -/
theorem filter_iff : Nests i (ts.filter Token.isBrace) j ↔ Nests i ts j := by
  constructor
  · intro h
    induction ts generalizing i with
    | nil => exact h
    | cons t ts ih =>
      cases ht : t.isBrace with
      | false =>
        rw [List.filter_cons_of_neg (by simp [ht])] at h
        exact .other ht (ih h)
      | true =>
        rw [List.filter_cons_of_pos ht] at h
        cases h with
        | opened h => exact .opened (ih h)
        | closed h => exact .closed (ih h)
        | other hnot => simp [ht] at hnot
  · intro h
    induction h with
    | done => exact .done
    | opened _ ih => exact .opened ih
    | closed _ ih => exact .closed ih
    | other ht _ ih =>
      rw [List.filter_cons_of_neg (by simp [ht])]
      exact ih

/-- The number of open braces keeps account of those opened and closed, and is nowhere negative. -/
theorem counts (h : Nests i ts j) :
    (∀ front, front <+: ts → front.count .closeBrace ≤ i + front.count .openBrace) ∧
      ts.count .closeBrace + j = i + ts.count .openBrace := by
  induction h with
  | done => simp
  | opened _ ih =>
    obtain ⟨hfronts, htotal⟩ := ih
    refine ⟨fun front hfront => ?_, by simp; omega⟩
    rcases List.prefix_cons_iff.mp hfront with rfl | ⟨rest, rfl, hrest⟩
    · simp
    · have := hfronts rest hrest
      simp
      omega
  | closed _ ih =>
    obtain ⟨hfronts, htotal⟩ := ih
    refine ⟨fun front hfront => ?_, by simp; omega⟩
    rcases List.prefix_cons_iff.mp hfront with rfl | ⟨rest, rfl, hrest⟩
    · simp
    · have := hfronts rest hrest
      simp
      omega
  | @other i j t ts ht _ ih =>
    obtain ⟨hfronts, htotal⟩ := ih
    have hopen : t ≠ .openBrace := by
      rintro rfl
      cases ht
    have hclose : t ≠ .closeBrace := by
      rintro rfl
      cases ht
    refine ⟨fun front hfront => ?_, ?_⟩
    · rcases List.prefix_cons_iff.mp hfront with rfl | ⟨rest, rfl, hrest⟩
      · simp
      · rw [List.count_cons_of_ne hopen, List.count_cons_of_ne hclose]
        exact hfronts rest hrest
    · rw [List.count_cons_of_ne hopen, List.count_cons_of_ne hclose]
      exact htotal

theorem balanced (h : Nests 0 ts 0) : Balanced ts := by
  obtain ⟨hfronts, htotal⟩ := h.counts
  refine ⟨fun front hfront => ?_, by omega⟩
  have := hfronts front hfront
  omega

/-- Tokens that keep account of open braces lead from some to others. -/
theorem of_counts
    (hfronts : ∀ front, front <+: ts → front.count .closeBrace ≤ i + front.count .openBrace)
    (htotal : ts.count .closeBrace + j = i + ts.count .openBrace) : Nests i ts j := by
  induction ts generalizing i with
  | nil =>
    obtain rfl : i = j := by simpa using htotal.symm
    exact .done
  | cons t ts ih =>
    have hrest : ∀ front, front <+: ts → (t :: front) <+: t :: ts :=
      fun front hfront => (List.prefix_cons_inj t).mpr hfront
    cases ht : t.isBrace with
    | false =>
      have hopen : t ≠ .openBrace := by
        rintro rfl
        cases ht
      have hclose : t ≠ .closeBrace := by
        rintro rfl
        cases ht
      rw [List.count_cons_of_ne hopen, List.count_cons_of_ne hclose] at htotal
      refine .other ht (ih (fun front hfront => ?_) htotal)
      simpa [List.count_cons_of_ne hopen, List.count_cons_of_ne hclose]
        using hfronts _ (hrest front hfront)
    | true =>
      cases t with
      | openBrace =>
        refine .opened (ih (fun front hfront => ?_) (by simp at htotal; omega))
        have := hfronts _ (hrest front hfront)
        simp at this
        omega
      | closeBrace =>
        have hfirst := hfronts _ (hrest [] List.nil_prefix)
        obtain ⟨k, rfl⟩ : ∃ k, i = k + 1 := ⟨i - 1, by simp at hfirst; omega⟩
        refine .closed (ih (fun front hfront => ?_) (by simp at htotal; omega))
        have := hfronts _ (hrest front hfront)
        simp at this
        omega
      | _ => cases ht

theorem iff_balanced : Nests 0 ts 0 ↔ Balanced ts := by
  refine ⟨Nests.balanced, fun ⟨hfronts, htotal⟩ => of_counts ?_ ?_⟩
  · simpa using hfronts
  · simpa using htotal

end Nests

/-! ### The braces of a text -/

/-- The brace that a character is, if it is one. -/
def braceMark? (c : Char) : Option Token :=
  if c = '\x7b' then some .openBrace else if c = '\x7d' then some .closeBrace else none

@[simp] theorem braceMark?_open : braceMark? '\x7b' = some .openBrace := rfl

@[simp] theorem braceMark?_close : braceMark? '\x7d' = some .closeBrace := rfl

theorem isBrace_of_braceMark? {c : Char} {t : Token} (h : braceMark? c = some t) :
    t.isBrace = true := by
  unfold braceMark? at h
  split_ifs at h <;> cases h <;> rfl

/-- A character that is a token of its own is a brace when the token is. -/
theorem braceMark?_of_ofMark {c : Char} {t : Token} (h : Token.ofMark c = some t) :
    braceMark? c = if t.isBrace then some t else none := by
  unfold Token.ofMark at h
  split at h <;> cases h <;> rfl

/-- Where the braces of a text lead from some open braces to others, a count goes along and finds
nothing amiss. -/
theorem foldl_step_of_nests {cs : List Char} {i j : Nat} (h : Nests i (cs.filterMap braceMark?) j)
    (line : Nat) (stray : List Nat) :
    ∃ line', cs.foldl BraceCount.step ⟨line, i, stray⟩ = ⟨line', j, stray⟩ := by
  induction cs generalizing i line with
  | nil =>
    cases h
    exact ⟨line, rfl⟩
  | cons c cs ih =>
    rw [List.foldl_cons, BraceCount.step]
    by_cases hopen : c = '\x7b'
    · subst hopen
      rw [List.filterMap_cons_some braceMark?_open] at h
      cases h with
      | opened h => exact ih h line
      | other ht => cases ht
    · by_cases hclose : c = '\x7d'
      · subst hclose
        rw [List.filterMap_cons_some braceMark?_close] at h
        cases h with
        | closed h => exact ih h line
        | other ht => cases ht
      · rw [List.filterMap_cons_none (by simp [braceMark?, hopen, hclose])] at h
        rw [if_neg hopen, if_neg hclose]
        split_ifs
        · exact ih h (line + 1)
        · exact ih h line

/-- Nothing is reported of a text whose braces are closed as they are opened. -/
theorem balance_of_nests {text : String} (h : Nests 0 (text.toList.filterMap braceMark?) 0) :
    balance text = [] := by
  obtain ⟨line, hcount⟩ := foldl_step_of_nests h 1 []
  have hcount : BraceCount.ofText text = ⟨line, 0, []⟩ := hcount
  rw [balance, hcount]
  rfl

/-- The closing braces that close nothing are not forgotten. -/
theorem length_stray_le (cs : List Char) (b : BraceCount) :
    b.stray.length ≤ (cs.foldl BraceCount.step b).stray.length := by
  induction cs generalizing b with
  | nil => exact Nat.le_refl _
  | cons c cs ih =>
    refine Nat.le_trans ?_ (ih (b.step c))
    unfold BraceCount.step
    split_ifs <;> simp

/-- Where a count finds no more closing braces that close nothing, the braces lead from those that
are open before to those that are open behind. -/
theorem nests_of_foldl_step {cs : List Char} {b : BraceCount}
    (h : (cs.foldl BraceCount.step b).stray.length ≤ b.stray.length) :
    Nests b.depth (cs.filterMap braceMark?) (cs.foldl BraceCount.step b).depth := by
  induction cs generalizing b with
  | nil => exact .done
  | cons c cs ih =>
    obtain ⟨line, depth, stray⟩ := b
    rw [List.foldl_cons] at h ⊢
    have ih := @ih (BraceCount.step ⟨line, depth, stray⟩ c)
    by_cases hopen : c = '\x7b'
    · subst hopen
      rw [List.filterMap_cons_some braceMark?_open]
      exact .opened (ih h)
    · by_cases hclose : c = '\x7d'
      · subst hclose
        rw [List.filterMap_cons_some braceMark?_close]
        cases depth with
        | zero =>
          -- here one more is found, and none of them is forgotten
          have hmore := Nat.le_trans (length_stray_le cs _) h
          exact absurd hmore (by simp [BraceCount.step])
        | succ depth => exact .closed (ih h)
      · have hsame : ∃ line', BraceCount.step ⟨line, depth, stray⟩ c = ⟨line', depth, stray⟩ := by
          rw [BraceCount.step, if_neg hopen, if_neg hclose]
          split_ifs
          · exact ⟨line + 1, rfl⟩
          · exact ⟨line, rfl⟩
        obtain ⟨line', hsame⟩ := hsame
        rw [List.filterMap_cons_none (by simp [braceMark?, hopen, hclose])]
        rw [hsame] at h ih ⊢
        exact ih h

/-- **Nothing is reported of a text exactly when its braces are balanced.** -/
theorem balance_eq_nil_iff {text : String} :
    balance text = [] ↔ Balanced (text.toList.filterMap braceMark?) := by
  rw [← Nests.iff_balanced]
  refine ⟨fun h => ?_, balance_of_nests⟩
  obtain ⟨hstray, hdepth⟩ := List.append_eq_nil_iff.mp h
  have hstray : (BraceCount.ofText text).stray = [] := by simpa using hstray
  have hdepth : (BraceCount.ofText text).depth = 0 := by simpa using hdepth
  have hnests : Nests 0 (text.toList.filterMap braceMark?) (BraceCount.ofText text).depth := by
    refine nests_of_foldl_step (b := {}) ?_
    show (BraceCount.ofText text).stray.length ≤ 0
    rw [hstray]
    exact Nat.le_refl 0
  rwa [hdepth] at hnests

theorem count_braceMarks (cs : List Char) :
    (cs.filterMap braceMark?).count .openBrace = cs.count '\x7b' ∧
      (cs.filterMap braceMark?).count .closeBrace = cs.count '\x7d' := by
  induction cs with
  | nil => simp
  | cons c cs ih =>
    by_cases hopen : c = '\x7b'
    · subst hopen
      rw [List.filterMap_cons_some braceMark?_open]
      simpa using ih
    · by_cases hclose : c = '\x7d'
      · subst hclose
        rw [List.filterMap_cons_some braceMark?_close]
        simpa using ih
      · rw [List.filterMap_cons_none (by simp [braceMark?, hopen, hclose]),
          List.count_cons_of_ne hopen, List.count_cons_of_ne hclose]
        exact ih

/-- Of braces there are as many as there are opening and closing ones. -/
theorem length_eq_counts {ts : List Token} (h : ∀ t ∈ ts, t.isBrace = true) :
    ts.length = ts.count .openBrace + ts.count .closeBrace := by
  induction ts with
  | nil => rfl
  | cons t ts ih =>
    obtain ⟨ht, hts⟩ := List.forall_mem_cons.mp h
    have := ih hts
    cases t with
    | openBrace | closeBrace =>
      simp
      omega
    | _ => cases ht

/-- Braces that are found among those of a text are all of them, if they are as many of each
kind. -/
theorem braceMarks_eq_of_count {ts : List Token} {cs : List Char}
    (h : (ts.filter Token.isBrace).Sublist (cs.filterMap braceMark?))
    (hopen : cs.count '\x7b' = ts.count .openBrace)
    (hclose : cs.count '\x7d' = ts.count .closeBrace) :
    ts.filter Token.isBrace = cs.filterMap braceMark? := by
  obtain ⟨hopens, hcloses⟩ := count_braceMarks cs
  refine h.eq_of_length ?_
  rw [length_eq_counts fun t ht => (List.mem_filter.mp ht).2,
    length_eq_counts fun t ht => ?_, hopens, hcloses, hopen, hclose, List.count_filter rfl,
    List.count_filter rfl]
  obtain ⟨c, -, hc⟩ := List.mem_filterMap.mp ht
  exact isBrace_of_braceMark? hc

/-! ### The braces that a scan finds -/

namespace Scan

variable {s s' : Scan} {c : Char}

/-- The braces that a scan has found, in the order of the text. -/
def braces (s : Scan) : List Token :=
  (s.tokens.map Lexeme.token).filter Token.isBrace

@[simp] theorem braces_into (s : Scan) (doing : Scanning) : (s.into doing).braces = s.braces := rfl

@[simp] theorem braces_emitAt (s : Scan) (line : Nat) (t : Token) :
    (s.emitAt line t).braces = s.braces ++ [t].filter Token.isBrace := by
  simp [braces, tokens, emitAt]

@[simp] theorem braces_emit (s : Scan) (t : Token) :
    (s.emit t).braces = s.braces ++ [t].filter Token.isBrace :=
  braces_emitAt s s.line t

@[simp] theorem braces_emitWord (s : Scan) (read : List Char) :
    (s.emitWord read).braces = s.braces := by
  simp [emitWord, Token.isBrace]

@[simp] theorem braces_emitNumber (s : Scan) (read : List Char) :
    (s.emitNumber read).braces = s.braces := by
  simp [emitNumber, Token.isBrace]

@[simp] theorem braces_readQuoted (s : Scan) (form : Quotation) (start : Nat) (read : List Char)
    (c : Char) : (s.readQuoted form start read c).braces = s.braces := by
  unfold readQuoted
  split_ifs
  · cases form <;> simp [Quotation.token, Token.isBrace]
  · rfl
  · rfl

@[simp] theorem braces_readTripleQuoted (s : Scan) (start : Nat) (read : List Char) (quotes : Nat)
    (c : Char) : (s.readTripleQuoted start read quotes c).braces = s.braces := by
  unfold readTripleQuoted
  split_ifs
  · simp [Token.isBrace]
  · rfl
  · rfl

/-- Between two tokens a brace is found where there is one. -/
theorem braces_readGap (h : s.readGap c = .ok s') :
    s'.braces.Sublist (s.braces ++ (braceMark? c).toList) := by
  unfold readGap at h
  by_cases hb : Text.isBlank c = true
  · rw [if_pos hb] at h
    cases h
    exact List.sublist_append_left _ _
  rw [if_neg hb] at h
  cases hm : Token.ofMark c with
  | some token =>
    simp only [hm] at h
    cases h
    rw [braces_emit, braceMark?_of_ofMark hm]
    cases ht : token.isBrace <;> simp [ht]
  | none =>
    cases hq : Quotation.ofMark c with
    | some form =>
      simp only [hm, hq] at h
      cases h
      exact List.sublist_append_left _ _
    | none =>
      simp only [hm, hq] at h
      split_ifs at h <;> cases h <;> exact List.sublist_append_left _ _

/-- In the middle of something no brace is found, and behind it those that are there. -/
theorem braces_read (h : s.read c = .ok s') :
    s'.braces.Sublist (s.braces ++ (braceMark? c).toList) := by
  have same : s'.braces = s.braces → s'.braces.Sublist (s.braces ++ (braceMark? c).toList) := by
    intro hsame
    rw [hsame]
    exact List.sublist_append_left _ _
  have behind : ∀ s₁ : Scan, s₁.braces = s.braces → s₁.readGap c = .ok s' →
      s'.braces.Sublist (s.braces ++ (braceMark? c).toList) := by
    intro s₁ hsame hgap
    rw [← hsame]
    exact braces_readGap hgap
  unfold read at h
  cases hd : s.doing with
  | gap =>
    simp only [hd] at h
    exact behind s rfl h
  | slash | hash | lineComment | blockComment | quote =>
    simp only [hd] at h
    split_ifs at h <;> cases h <;> exact same (by simp)
  | quoted | escape | tripleQuoted =>
    simp only [hd] at h
    cases h
    exact same (by simp)
  | word r | number r | numberDot r | less | twoQuotes =>
    simp only [hd] at h
    split_ifs at h <;> first
      | (cases h; exact same (by simp [Token.isBrace]))
      | exact behind _ (by simp [Token.isBrace]) h

theorem braces_pass (s : Scan) (c : Char) : (s.pass c).braces = s.braces := by
  unfold pass
  split_ifs <;> rfl

theorem braces_close (h : s.close = .ok s') : s'.braces = s.braces := by
  unfold close at h
  cases hd : s.doing with
  | slash | blockComment | hash | quote | quoted | escape | tripleQuoted =>
    simp only [hd] at h
    cases h
  | gap | lineComment | word | number | numberDot | less | twoQuotes =>
    simp only [hd] at h
    cases h
    simp [Token.isBrace]

/-- **Every brace that a scan finds is one of the text**, in the same order. -/
theorem braces_ofText {text : String} (h : ofText text = .ok s) :
    s.braces.Sublist (text.toList.filterMap braceMark?) := by
  obtain ⟨s₁, hfold, hclose⟩ := bind_eq_ok_iff.mp h
  rw [braces_close hclose]
  refine foldlM_invariant
    (P := fun seen s => s.braces.Sublist (seen.filterMap braceMark?)) (List.Sublist.refl _) ?_ hfold
  intro seen s₂ c s₃ h₂ hstep
  obtain ⟨s₄, hread, rfl⟩ := map_eq_ok_iff.mp hstep
  rw [braces_pass, List.filterMap_append]
  have hc : [c].filterMap braceMark? = (braceMark? c).toList := by
    cases hm : braceMark? c <;> simp [hm]
  rw [hc]
  exact (braces_read hread).trans (h₂.append (List.Sublist.refl _))

end Scan

end SchemaGraph
