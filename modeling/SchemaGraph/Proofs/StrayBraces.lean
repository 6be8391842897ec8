import SchemaGraph.Proofs.LineRanges
import SchemaGraph.Proofs.Nesting

/-!
# Which braces are reported

The count of braces never goes below zero: a closing brace that would take it there is stray and
counts no further. So the stray braces are those with which the closing braces outnumber the opening
ones by more than ever before (`FirstExcess`), and the count at the end is not zero exactly if the
braces of some end of the text open more than they close (`BraceCount.Accounts`). That is what is
reported of a text, each stray brace on its line (`balance_exact`).
-/

namespace SchemaGraph

/-- **An excess is reached for the first time**: with the brace behind `front`, `k` more braces are
closed than opened, and nowhere before. -/
structure FirstExcess (cs : List Char) (k : Nat) (front : List Char) : Prop where
  brace : front ++ ['\x7d'] <+: cs
  excess : front.count '\x7d' + 1 = front.count '\x7b' + k
  first : ∀ earlier, earlier <+: front → earlier.count '\x7d' < earlier.count '\x7b' + k

theorem FirstExcess.append {cs front : List Char} {k : Nat} (h : FirstExcess cs k front)
    (more : List Char) : FirstExcess (cs ++ more) k front :=
  ⟨h.brace.trans (List.prefix_append cs more), h.excess, h.first⟩

namespace BraceCount

variable {b : BraceCount} {c : Char} {cs : List Char}

/-! ### One character -/

/-- What a character does to a count. -/
theorem step_cases (b : BraceCount) (c : Char) :
    (c = '\x7b' ∧ b.step c = { b with depth := b.depth + 1 }) ∨
    (c = '\x7d' ∧ b.depth = 0 ∧ b.step c = { b with stray := b.line :: b.stray }) ∨
    (∃ depth, c = '\x7d' ∧ b.depth = depth + 1 ∧ b.step c = { b with depth := depth }) ∨
    (c ≠ '\x7b' ∧ c ≠ '\x7d' ∧ b.step c = { b with line := b.line + [c].count '\n' }) := by
  by_cases hopen : c = '\x7b'
  · subst hopen
    exact .inl ⟨rfl, rfl⟩
  by_cases hclose : c = '\x7d'
  · subst hclose
    obtain ⟨line, _ | depth, stray⟩ := b
    · exact .inr (.inl ⟨rfl, rfl, rfl⟩)
    · exact .inr (.inr (.inl ⟨depth, rfl, rfl, rfl⟩))
  refine .inr (.inr (.inr ⟨hopen, hclose, ?_⟩))
  unfold step
  by_cases hnewline : c = '\n'
  · rw [if_pos hnewline, hnewline]
    rfl
  · rw [if_neg hnewline, if_neg hopen, if_neg hclose, List.count_cons_of_ne hnewline]
    rfl

/-! ### What a count keeps account of -/

/-- **A count keeps account of the braces before it**: how many are open behind the closing braces
that are stray, which of them these are, and the line. -/
structure Accounts (cs : List Char) (b : BraceCount) : Prop where
  line : b.line = 1 + cs.count '\n'
  total : cs.count '\x7d' + b.depth = cs.count '\x7b' + b.stray.length
  /-- Nowhere are more braces closed that are not open than there are stray ones. -/
  bounded : ∀ front, front <+: cs → front.count '\x7d' ≤ front.count '\x7b' + b.stray.length
  /-- Each stray brace takes the excess one further than before. -/
  stray : ∀ k line, b.stray.reverse[k]? = some line →
    ∃ front, FirstExcess cs (k + 1) front ∧ line = 1 + front.count '\n'
  /-- Some end of the text opens as many braces more than it closes as are open. -/
  unclosed : ∃ back, back <:+ cs ∧ back.count '\x7d' + b.depth = back.count '\x7b'

theorem accounts_nil : Accounts [] {} where
  line := rfl
  total := rfl
  bounded front hfront := by
    rw [List.prefix_nil.mp hfront]
    exact Nat.le_refl _
  stray _ _ h := nomatch h
  unclosed := ⟨[], List.suffix_rfl, rfl⟩

/-- What is counted in total bounds what is counted before the last character. -/
theorem Accounts.bounded_append (h : Accounts cs b) {b' : BraceCount}
    (htotal : (cs ++ [c]).count '\x7d' + b'.depth = (cs ++ [c]).count '\x7b' + b'.stray.length)
    (hstray : b.stray.length ≤ b'.stray.length) (front : List Char) (hfront : front <+: cs ++ [c]) :
    front.count '\x7d' ≤ front.count '\x7b' + b'.stray.length := by
  rcases List.prefix_concat_iff.mp hfront with rfl | hfront
  · omega
  · have := h.bounded front hfront
    omega

/-- With no more stray braces, an account goes on with the braces that are open. -/
theorem Accounts.append (h : Accounts cs b) {line depth : Nat}
    (hline : line = b.line + [c].count '\n')
    (hdepth : [c].count '\x7d' + depth = [c].count '\x7b' + b.depth) :
    Accounts (cs ++ [c]) ⟨line, depth, b.stray⟩ := by
  have htotal : (cs ++ [c]).count '\x7d' + depth = (cs ++ [c]).count '\x7b' + b.stray.length := by
    have := h.total
    rw [List.count_append, List.count_append]
    omega
  refine ⟨?_, htotal, h.bounded_append htotal (Nat.le_refl _), fun k line hk => ?_, ?_⟩
  · rw [List.count_append]
    show line = _
    have := h.line
    omega
  · obtain ⟨front, hfront, hline⟩ := h.stray k line hk
    exact ⟨front, hfront.append [c], hline⟩
  · obtain ⟨back, ⟨front, rfl⟩, hcount⟩ := h.unclosed
    refine ⟨back ++ [c], ⟨front, (List.append_assoc front back [c]).symm⟩, ?_⟩
    rw [List.count_append, List.count_append]
    show _ + _ + depth = _
    omega

/-- With nothing open, a closing brace takes the excess one further than anywhere before. -/
theorem Accounts.firstExcess (h : Accounts cs b) (hdepth : b.depth = 0) :
    FirstExcess (cs ++ ['\x7d']) (b.stray.length + 1) cs where
  brace := List.prefix_refl _
  excess := by
    have := h.total
    omega
  first earlier hearlier := by
    have := h.bounded earlier hearlier
    omega

/-- So it is the next of the stray ones. -/
theorem Accounts.append_stray (h : Accounts cs b) (hdepth : b.depth = 0) :
    Accounts (cs ++ ['\x7d']) { b with stray := b.line :: b.stray } := by
  have htotal : (cs ++ ['\x7d']).count '\x7d' + b.depth =
      (cs ++ ['\x7d']).count '\x7b' + (b.line :: b.stray).length := by
    have := h.total
    simp
    omega
  refine ⟨by simpa using h.line, htotal, h.bounded_append htotal (by simp), fun k line hk => ?_,
    [], List.nil_suffix, by simpa using hdepth⟩
  have hk : (b.stray.reverse ++ [b.line])[k]? = some line := by simpa using hk
  by_cases hlt : k < b.stray.reverse.length
  · rw [List.getElem?_append_left hlt] at hk
    obtain ⟨front, hfront, hline⟩ := h.stray k line hk
    exact ⟨front, hfront.append _, hline⟩
  · rw [List.getElem?_append_right (Nat.le_of_not_lt hlt)] at hk
    obtain ⟨hlast, hk⟩ := List.getElem?_eq_some_iff.mp hk
    have hlast : k = b.stray.length := by
      simp only [List.length_reverse, List.length_singleton] at hlt hlast
      omega
    obtain rfl : b.line = line := by simpa using hk
    exact ⟨cs, hlast ▸ h.firstExcess hdepth, h.line⟩

/-- **A count goes on keeping account.** -/
theorem Accounts.step (h : Accounts cs b) (c : Char) : Accounts (cs ++ [c]) (b.step c) := by
  rcases step_cases b c with ⟨rfl, hstep⟩ | ⟨rfl, hdepth, hstep⟩ | ⟨depth, rfl, hdepth, hstep⟩ |
    ⟨hopen, hclose, hstep⟩
  · rw [hstep]
    exact h.append rfl (by simp; omega)
  · rw [hstep]
    exact h.append_stray hdepth
  · rw [hstep]
    exact h.append rfl (by simp; omega)
  · rw [hstep]
    exact h.append rfl (by simp [hopen, hclose])

theorem accounts_foldl (cs : List Char) : Accounts cs (cs.foldl BraceCount.step {}) := by
  induction cs using List.reverseRecOn with
  | nil => exact accounts_nil
  | append_singleton cs c ih =>
    rw [List.foldl_append]
    exact ih.step c

/-- **The count of a text keeps account of its braces.** -/
theorem accounts_ofText (text : String) : Accounts text.toList (ofText text) :=
  accounts_foldl text.toList

/-! ### What is left of an account -/

/-- There are as many stray braces as the excess of closing braces goes far. -/
theorem Accounts.le_length_stray_iff (h : Accounts cs b) {k : Nat} (hk : 1 ≤ k) :
    k ≤ b.stray.length ↔
      ∃ front, front <+: cs ∧ front.count '\x7d' = front.count '\x7b' + k := by
  constructor
  · intro hlength
    have hindex : k - 1 < b.stray.reverse.length := by
      rw [List.length_reverse]
      omega
    obtain ⟨front, hfront, -⟩ := h.stray (k - 1) _ (List.getElem?_eq_getElem hindex)
    have hexcess := hfront.excess
    refine ⟨front ++ ['\x7d'], hfront.brace, ?_⟩
    simp
    omega
  · rintro ⟨front, hfront, hcount⟩
    have := h.bounded front hfront
    omega

/-- Braces are open in the end exactly if those of some end of the text open more than they
close. -/
theorem Accounts.depth_eq_zero_iff (h : Accounts cs b) :
    b.depth = 0 ↔ ∀ back, back <:+ cs → back.count '\x7b' ≤ back.count '\x7d' := by
  constructor
  · rintro hdepth back ⟨front, rfl⟩
    have htotal := h.total
    have hbounded := h.bounded front (List.prefix_append front back)
    rw [List.count_append, List.count_append] at htotal
    omega
  · intro hback
    obtain ⟨back, hsuffix, hcount⟩ := h.unclosed
    have := hback back hsuffix
    omega

end BraceCount

/-! ### What is reported -/

/-- **A diagnostic reports the closing brace behind `front`**: it is on the line of that brace, and
marks the range of that line, which has the brace in it. -/
structure Diagnostic.ReportsStray (text : String) (front : List Char) (d : Diagnostic) : Prop where
  line : d.line = 1 + front.count '\n'
  range : Text.lineRange? text d.line = some d.range
  inLine : d.range.InLine text d.line
  around : d.range.start ≤ Text.byteLength front ∧ Text.byteLength front < d.range.stop
  severity : d.severity = .error
  message : d.message = "unexpected closing brace"

/-- The diagnostic on the line of a brace reports it. -/
theorem Diagnostic.reportsStray_onLine {text : String} {front : List Char}
    (h : front ++ ['\x7d'] <+: text.toList) :
    (Diagnostic.onLine text (1 + front.count '\n') .error unexpectedClose).ReportsStray text
      front := by
  obtain ⟨back, hback⟩ := h
  have htext : text.toList = front ++ '\x7d' :: back := by
    rw [← hback, List.append_assoc, List.singleton_append]
  obtain ⟨r, hr, haround⟩ := Text.exists_lineRange?_around htext (by decide) (by decide)
  have hline : max (1 + front.count '\n') 1 = 1 + front.count '\n' :=
    Nat.max_eq_left (Nat.le_add_right 1 _)
  have hrange : (Text.nthRange? (Text.lineRanges text) (1 + front.count '\n')).getD noRange = r :=
    congrArg (·.getD noRange) hr
  have hhas : Text.HasLine text (1 + front.count '\n') := by
    refine ⟨Nat.le_add_right 1 _, ?_⟩
    rw [htext, List.count_append]
    omega
  obtain ⟨r', hr', hinLine⟩ := Text.exists_lineRange?_of_hasLine hhas
  obtain rfl : r = r' := Option.some.inj (hr.symm.trans hr')
  refine ⟨hline, ?_, ?_, ?_, rfl, rfl⟩
  · rw [onLine, onLineOf, hline, hrange]
    exact hr
  · rw [onLine, onLineOf, hline, hrange]
    exact hinLine
  · rw [onLine, onLineOf, hrange]
    exact haround

/-- **What is reported of the braces of a text.** First, for each `k` by which closing braces
outnumber opening ones in some front of the text, the brace with which they first do, in this order
and on its line; then, if opening braces outnumber closing ones in some end of the text, that there
is one unmatched, at the start of the text. So nothing is reported exactly of balanced braces. -/
theorem balance_exact (text : String) :
    ∃ strays unclosed, balance text = strays ++ unclosed ∧
      (∀ k, 1 ≤ k → (k ≤ strays.length ↔
        ∃ front, front <+: text.toList ∧ front.count '\x7d' = front.count '\x7b' + k)) ∧
      (∀ k d, strays[k]? = some d →
        ∃ front, FirstExcess text.toList (k + 1) front ∧ d.ReportsStray text front) ∧
      ((∃ back, back <:+ text.toList ∧ back.count '\x7d' < back.count '\x7b') ∧
          unclosed = [⟨1, ⟨0, 0⟩, .error, "unmatched opening brace"⟩] ∨
        (∀ back, back <:+ text.toList → back.count '\x7b' ≤ back.count '\x7d') ∧
          unclosed = []) ∧
      (balance text = [] ↔ Balanced (text.toList.filterMap braceMark?)) := by
  have haccounts := BraceCount.accounts_ofText text
  refine ⟨_, _, rfl, fun k hk => ?_, fun k d hd => ?_, ?_, balance_eq_nil_iff⟩
  · rw [List.length_map, List.length_reverse]
    exact haccounts.le_length_stray_iff hk
  · rw [List.getElem?_map, Option.map_eq_some_iff] at hd
    obtain ⟨line, hline, rfl⟩ := hd
    obtain ⟨front, hfront, rfl⟩ := haccounts.stray k line hline
    exact ⟨front, hfront, Diagnostic.reportsStray_onLine hfront.brace⟩
  · by_cases hdepth : (BraceCount.ofText text).depth = 0
    · exact .inr ⟨haccounts.depth_eq_zero_iff.mp hdepth, if_pos hdepth⟩
    · refine .inl ⟨?_, if_neg hdepth⟩
      by_contra hnone
      refine hdepth (haccounts.depth_eq_zero_iff.mpr fun back hback => ?_)
      by_contra hmore
      exact hnone ⟨back, hback, Nat.lt_of_not_le hmore⟩

end SchemaGraph
