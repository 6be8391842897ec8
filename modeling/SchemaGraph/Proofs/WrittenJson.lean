import Mathlib.Tactic.IntervalCases
import SchemaGraph.Json.Diagram
import SchemaGraph.Json.Writer
import SchemaGraph.Proofs.WrittenNumerals

/-!
# Values as they are written

A text writes a value with the characters of the value and with blanks between its parts
(`Json.Writes`). Whatever the blanks are, the value is read from the text
(`Json.valueFrom_of_writes`). Both ways to print a value, on one line and over several, write it if
the numerals in it are well formed (`Json.Printable`), and so it is read back
(`Json.Printable.read?`). A compiled diagram with its warnings is such a value
(`Compiled.printable_toJson`).
-/

namespace SchemaGraph

namespace Json

variable {rest : List Char}

/-! ### Texts -/

theorem unicodeEscape_fourDigits {n : Nat} (hn : n < 0x20) (cs : List Char) :
    unicodeEscape (fourDigits n ++ cs) = some (some (Char.ofNat n), cs) := by
  interval_cases n <;> rfl

/-- A character of a text is read as it is written. -/
theorem stringFrom_escaped (steps : Nat) (read : List Char) (c : Char) (cs : List Char) :
    stringFrom (steps + 1) (some read) (escaped c ++ cs) =
      stringFrom steps (some (c :: read)) cs := by
  unfold escaped
  split_ifs with hmark hn hr ht hb hf hlow
  · rcases hmark with rfl | rfl <;> rfl
  · subst hn
    rfl
  · subst hr
    rfl
  · subst ht
    rfl
  · subst hb
    rfl
  · subst hf
    rfl
  · show ((unicodeEscape (fourDigits c.toNat ++ cs)).bind _) = _
    rw [unicodeEscape_fourDigits hlow, Char.ofNat_toNat]
    rfl
  · obtain ⟨hquote, hslash⟩ := not_or.mp hmark
    show stringFrom (steps + 1) (some read) (c :: cs) = _
    rw [stringFrom]
    · simp [hlow]
    · exact hquote
    · exact fun _ heq _ => hslash heq
    · exact fun _ _ heq _ => hslash heq

theorem stringFrom_text (text : List Char) {steps : Nat} (hsteps : text.length < steps)
    (read : List Char) :
    stringFrom steps (some read) (text.flatMap escaped ++ '"' :: rest) =
      some (some (String.ofList (read.reverse ++ text)), rest) := by
  induction text generalizing steps read with
  | nil =>
    obtain ⟨steps, rfl⟩ := Nat.exists_eq_add_of_lt hsteps
    rw [List.append_nil]
    rfl
  | cons c text ih =>
    obtain ⟨steps, rfl⟩ : ∃ k, steps = k + 1 := ⟨steps - 1, by simp at hsteps; omega⟩
    rw [List.flatMap_cons, List.append_assoc, stringFrom_escaped, ih (by simpa using hsteps)]
    simp

theorem escaped_ne_nil (c : Char) : escaped c ≠ [] := by
  unfold escaped
  split_ifs <;> simp

theorem length_le_flatMap_escaped (text : List Char) :
    text.length ≤ (text.flatMap escaped).length := by
  induction text with
  | nil => exact Nat.le_refl 0
  | cons c text ih =>
    have hc := List.length_pos_of_ne_nil (escaped_ne_nil c)
    rw [List.flatMap_cons, List.length_append, List.length_cons]
    omega

/-- **A text is read as it is written**, behind its opening quote. -/
theorem stringAfter_text (text : String) :
    stringAfter (text.toList.flatMap escaped ++ '"' :: rest) = some (some text, rest) := by
  have hlength := length_le_flatMap_escaped text.toList
  rw [stringAfter, stringFrom_text _ (by rw [List.length_append]; omega)]
  simp

theorem toList_quotedText (text : String) :
    (quotedText text).toList = '"' :: (text.toList.flatMap escaped ++ ['"']) := by
  rw [quotedText, String.toList_ofList, List.cons_append]

/-! ### Values -/

/-- There is nothing but blanks. -/
def Blank (cs : List Char) : Prop :=
  ∀ c ∈ cs, isBlank c = true

mutual

/-- **A text writes a value**: with the value's own characters, and blanks between its parts. -/
inductive Writes : List Char → Json → Prop
  | null : Writes "null".toList .null
  | bool (value : Bool) : Writes (if value then "true" else "false").toList (.bool value)
  | number {n : Numeral} (h : n.WellFormed) : Writes n.text.toList (.number n)
  | string (text : String) : Writes (quotedText text).toList (.string text)
  | noElements : Writes ['[', ']'] (.array [])
  | array {b cs : List Char} {values : List Json} (hb : Blank b) (h : WritesAll cs values) :
    Writes ('[' :: (b ++ cs ++ [']'])) (.array values)
  | noMembers : Writes ['\x7b', '\x7d'] (.object [])
  | object {b cs : List Char} {members : List (String × Json)} (hb : Blank b)
    (h : WritesMembers cs members) : Writes ('\x7b' :: (b ++ cs ++ ['\x7d'])) (.object members)

/-- A text writes values, with commas between them. -/
inductive WritesAll : List Char → List Json → Prop
  | last {b cs : List Char} {value : Json} (h : Writes cs value) (hb : Blank b) :
    WritesAll (cs ++ b) [value]
  | more {b cs ds : List Char} {value : Json} {values : List Json} (h : Writes cs value)
    (hb : Blank b) (hs : WritesAll ds values) : WritesAll (cs ++ ',' :: (b ++ ds)) (value :: values)

/-- A text writes members, with commas between them. -/
inductive WritesMembers : List Char → List (String × Json) → Prop
  | last {b b' cs : List Char} {value : Json} (name : String) (hb : Blank b) (h : Writes cs value)
    (hb' : Blank b') :
    WritesMembers ((quotedText name).toList ++ ':' :: (b ++ cs ++ b')) [(name, value)]
  | more {b b' cs ds : List Char} {value : Json} {members : List (String × Json)} (name : String)
    (hb : Blank b) (h : Writes cs value) (hb' : Blank b') (hs : WritesMembers ds members) :
    WritesMembers ((quotedText name).toList ++ ':' :: (b ++ cs ++ ',' :: (b' ++ ds)))
      ((name, value) :: members)

end

theorem skipBlanks_append {b : List Char} (hb : Blank b) (cs : List Char) :
    skipBlanks (b ++ cs) = skipBlanks cs := by
  rw [skipBlanks, List.dropWhile_append_of_pos hb, skipBlanks]

theorem skipBlanks_cons {c : Char} (hc : isBlank c = false) (cs : List Char) :
    skipBlanks (c :: cs) = c :: cs := by
  rw [skipBlanks, List.dropWhile_cons_of_neg (by simp [hc])]

/-- What begins a numeral is no blank, and begins nothing else. -/
theorem opens_numeral {c : Char} (hc : c = '-' ∨ c.isDigit = true) :
    isBlank c = false ∧ ∀ c' ∈ ['"', '[', ']', '\x7b', 't', 'f', 'n'], c ≠ c' := by
  have hne : ∀ c', (c' != '-' && !c'.isDigit) = true → c ≠ c' := by
    rintro c' hc' rfl
    rcases hc with rfl | hc
    · cases hc'
    · simp [hc] at hc'
  refine ⟨?_, fun c' hc' => hne c' ?_⟩
  · simp only [isBlank, hne ' ' rfl, hne '\n' rfl, hne '\t' rfl, hne '\r' rfl, decide_false,
      Bool.or_false]
  · have hall : ['"', '[', ']', '\x7b', 't', 'f', 'n'].all
        (fun c => c != '-' && !c.isDigit) = true := rfl
    exact List.all_eq_true.mp hall c' hc'

/-- A value begins with a character of its own. -/
theorem Writes.exists_cons {cs : List Char} {value : Json} (h : Writes cs value) :
    ∃ c rest, cs = c :: rest ∧ isBlank c = false ∧ c ≠ ']' := by
  cases h with
  | null => exact ⟨'n', _, rfl, by decide, by decide⟩
  | bool value => cases value <;> exact ⟨_, _, rfl, by decide, by decide⟩
  | number h =>
    obtain ⟨c, rest, htext, hc⟩ := exists_cons_text h
    obtain ⟨hblank, hne⟩ := opens_numeral hc
    exact ⟨c, rest, htext, hblank, hne _ (by decide)⟩
  | string text => exact ⟨'"', _, toList_quotedText text, by decide, by decide⟩
  | noElements => exact ⟨'[', _, rfl, by decide, by decide⟩
  | array => exact ⟨'[', _, rfl, by decide, by decide⟩
  | noMembers => exact ⟨'\x7b', _, rfl, by decide, by decide⟩
  | object => exact ⟨'\x7b', _, rfl, by decide, by decide⟩

theorem valueFrom_blank {b : List Char} (hb : Blank b) (steps : Nat) (cs : List Char) :
    valueFrom steps (b ++ cs) = valueFrom steps cs := by
  cases steps with
  | zero => rfl
  | succ steps => rw [valueFrom, valueFrom, skipBlanks_append hb]

theorem valueFrom_numeral {c : Char} (hc : c = '-' ∨ c.isDigit = true) (steps : Nat)
    (cs : List Char) : valueFrom (steps + 1) (c :: cs) =
      (numeral (c :: cs)).map fun (n, rest) => (.number n, rest) := by
  obtain ⟨hblank, hne⟩ := opens_numeral hc
  rw [valueFrom, skipBlanks_cons hblank]
  split
  all_goals first
    | rfl
    | next heq => exact absurd (List.cons.inj heq).1 (hne _ (by decide))

theorem valueFrom_array {c : Char} (hc : isBlank c = false) (hne : c ≠ ']') {b : List Char}
    (hb : Blank b) (steps : Nat) (cs : List Char) :
    valueFrom (steps + 1) ('[' :: (b ++ c :: cs)) =
      (elementsFrom steps (c :: cs)).map fun (values, rest) => (.array values, rest) := by
  have hopen : skipBlanks ('[' :: (b ++ c :: cs)) = '[' :: (b ++ c :: cs) :=
    skipBlanks_cons (by decide) _
  have hskip : skipBlanks (b ++ c :: cs) = c :: cs := by
    rw [skipBlanks_append hb, skipBlanks_cons hc]
  simp [valueFrom, hopen, hskip, hne]

theorem valueFrom_object {b : List Char} (hb : Blank b) (steps : Nat) (cs : List Char) :
    valueFrom (steps + 1) ('\x7b' :: (b ++ '"' :: cs)) =
      (membersFrom steps ('"' :: cs)).map fun (members, rest) => (.ofMembers members, rest) := by
  have hopen : skipBlanks ('\x7b' :: (b ++ '"' :: cs)) = '\x7b' :: (b ++ '"' :: cs) :=
    skipBlanks_cons (by decide) _
  have hskip : skipBlanks (b ++ '"' :: cs) = '"' :: cs := by
    rw [skipBlanks_append hb, skipBlanks_cons (by decide)]
  simp [valueFrom, hopen, hskip]

theorem elementsFrom_last {steps : Nat} {b cs : List Char} {value : Json}
    (h : valueFrom steps cs = some (value, b ++ ']' :: rest)) (hb : Blank b) :
    elementsFrom (steps + 1) cs = some ([value], rest) := by
  have hskip : skipBlanks (b ++ ']' :: rest) = ']' :: rest := by
    rw [skipBlanks_append hb, skipBlanks_cons (by decide)]
  simp [elementsFrom, h, hskip]

theorem elementsFrom_more {steps : Nat} {cs : List Char} {value : Json}
    (h : valueFrom steps cs = some (value, ',' :: rest)) :
    elementsFrom (steps + 1) cs =
      (elementsFrom steps rest).map fun (values, rest) => (value :: values, rest) := by
  have hskip : skipBlanks (',' :: rest) = ',' :: rest := skipBlanks_cons (by decide) _
  simp [elementsFrom, h, hskip]

/-- A member with its name taken apart. -/
theorem member_eq (name : String) (cs : List Char) :
    (quotedText name).toList ++ ':' :: cs =
      '"' :: (name.toList.flatMap escaped ++ '"' :: ':' :: cs) := by
  rw [toList_quotedText, List.cons_append, List.append_assoc, List.singleton_append]

theorem membersFrom_last {steps : Nat} (name : String) {b cs : List Char} {value : Json}
    (h : valueFrom steps cs = some (value, b ++ '\x7d' :: rest)) (hb : Blank b) :
    membersFrom (steps + 1) ((quotedText name).toList ++ ':' :: cs) =
      some ([(some name, value)], rest) := by
  have hcolon : skipBlanks (':' :: cs) = ':' :: cs := skipBlanks_cons (by decide) _
  have hskip : skipBlanks (b ++ '\x7d' :: rest) = '\x7d' :: rest := by
    rw [skipBlanks_append hb, skipBlanks_cons (by decide)]
  rw [member_eq, membersFrom, skipBlanks_cons (by decide)]
  simp [stringAfter_text, hcolon, h, hskip]

theorem membersFrom_more {steps : Nat} (name : String) {cs : List Char} {value : Json}
    (h : valueFrom steps cs = some (value, ',' :: rest)) :
    membersFrom (steps + 1) ((quotedText name).toList ++ ':' :: cs) =
      (membersFrom steps rest).map fun (members, rest) =>
        ((some name, value) :: members, rest) := by
  have hcolon : skipBlanks (':' :: cs) = ':' :: cs := skipBlanks_cons (by decide) _
  have hskip : skipBlanks (',' :: rest) = ',' :: rest := skipBlanks_cons (by decide) _
  rw [member_eq, membersFrom, skipBlanks_cons (by decide)]
  simp [stringAfter_text, hcolon, h, hskip]

/-! ### Values that are read back -/

theorem endsNumeral_blank {b : List Char} (hb : Blank b) (hrest : EndsNumeral rest) :
    EndsNumeral (b ++ rest) := by
  cases b with
  | nil => exact hrest
  | cons c b =>
    intro c' hc'
    cases hc'
    have hc := hb c (by simp)
    simp only [isBlank, Bool.or_eq_true, decide_eq_true_eq] at hc
    rcases hc with ((rfl | rfl) | rfl) | rfl <;> decide

theorem endsNumeral_cons {c : Char} (hc : c.isDigit = false ∧ c ≠ '.' ∧ c ≠ 'e' ∧ c ≠ 'E')
    (cs : List Char) : EndsNumeral (c :: cs) := by
  intro c' hc'
  cases hc'
  exact hc

theorem elementsFrom_blank {b : List Char} (hb : Blank b) (steps : Nat) (cs : List Char) :
    elementsFrom steps (b ++ cs) = elementsFrom steps cs := by
  cases steps with
  | zero => rfl
  | succ steps => rw [elementsFrom, elementsFrom, valueFrom_blank hb]

theorem membersFrom_blank {b : List Char} (hb : Blank b) (steps : Nat) (cs : List Char) :
    membersFrom steps (b ++ cs) = membersFrom steps cs := by
  cases steps with
  | zero => rfl
  | succ steps => rw [membersFrom, membersFrom, skipBlanks_append hb]

theorem ofMembers_map (members : List (String × Json)) :
    ofMembers (members.map fun m => (some m.1, m.2)) = .object members := by
  have hmembers : (members.map fun m => (some m.1, m.2)).mapM member? = some members := by
    induction members with
    | nil => rfl
    | cons m members ih => rw [List.map_cons, List.mapM_cons, ih]; rfl
  rw [ofMembers, hmembers]
  rfl

theorem WritesAll.exists_cons {cs : List Char} {values : List Json} (h : WritesAll cs values) :
    ∃ c rest, cs = c :: rest ∧ isBlank c = false ∧ c ≠ ']' := by
  cases h with
  | last h | more h =>
    obtain ⟨c, rest, rfl, hc⟩ := h.exists_cons
    exact ⟨c, _, rfl, hc⟩

theorem WritesMembers.exists_cons {cs : List Char} {members : List (String × Json)}
    (h : WritesMembers cs members) : ∃ rest, cs = '"' :: rest := by
  cases h with
  | last name | more name =>
    rw [toList_quotedText]
    exact ⟨_, rfl⟩

mutual

/-- **A value is read as it is written.** -/
theorem valueFrom_of_writes {cs : List Char} {value : Json} (h : Writes cs value) (steps : Nat)
    (hsteps : cs.length ≤ steps) {rest : List Char} (hrest : EndsNumeral rest) :
    valueFrom steps (cs ++ rest) = some (value, rest) := by
  obtain ⟨c, cs', hcs, -, -⟩ := h.exists_cons
  obtain ⟨m, rfl⟩ : ∃ m, steps = m + 1 := ⟨steps - 1, by simp [hcs] at hsteps; omega⟩
  cases h with
  | null => rfl
  | bool value => cases value <;> rfl
  | @number n h =>
    obtain ⟨c, cs, htext, hc⟩ := exists_cons_text h
    have hread := numeral_text h hrest
    rw [htext] at hread ⊢
    rw [List.cons_append, valueFrom_numeral hc, ← List.cons_append, hread]
    rfl
  | string text =>
    rw [toList_quotedText, List.cons_append, valueFrom, skipBlanks_cons (by decide)]
    show (stringAfter _).map _ = _
    rw [List.append_assoc, List.singleton_append, stringAfter_text]
    rfl
  | noElements => rfl
  | @array b cs values hb h =>
    obtain ⟨c, cs', hcs, hc, hne⟩ := h.exists_cons
    have hread := elementsFrom_of_writesAll h m (by simp at hsteps; omega) rest
    rw [hcs] at hread ⊢
    have happend : '[' :: (b ++ (c :: cs') ++ [']']) ++ rest =
        '[' :: (b ++ c :: (cs' ++ ']' :: rest)) := by simp
    rw [happend, valueFrom_array hc hne hb, ← List.cons_append, hread]
    rfl
  | noMembers => rfl
  | @object b cs members hb h =>
    obtain ⟨cs', hcs⟩ := h.exists_cons
    have hread := membersFrom_of_writesMembers h m (by simp at hsteps; omega) rest
    rw [hcs] at hread ⊢
    have happend : '\x7b' :: (b ++ ('"' :: cs') ++ ['\x7d']) ++ rest =
        '\x7b' :: (b ++ '"' :: (cs' ++ '\x7d' :: rest)) := by simp
    rw [happend, valueFrom_object hb, ← List.cons_append, hread, Option.map_some]
    exact congrArg (fun value => some (value, rest)) (ofMembers_map members)

theorem elementsFrom_of_writesAll {cs : List Char} {values : List Json} (h : WritesAll cs values)
    (steps : Nat) (hsteps : cs.length + 1 ≤ steps) (rest : List Char) :
    elementsFrom steps (cs ++ ']' :: rest) = some (values, rest) := by
  obtain ⟨m, rfl⟩ : ∃ m, steps = m + 1 := ⟨steps - 1, by omega⟩
  cases h with
  | @last b cs value h hb =>
    rw [List.append_assoc]
    have hread := valueFrom_of_writes h m (by simp at hsteps; omega)
      (endsNumeral_blank hb (endsNumeral_cons (c := ']') (by decide) rest))
    exact elementsFrom_last hread hb
  | @more b cs ds value values h hb hs =>
    rw [List.append_assoc, List.cons_append, List.append_assoc]
    have hread := valueFrom_of_writes h m (by simp at hsteps; omega)
      (endsNumeral_cons (c := ',') (by decide) (b ++ (ds ++ ']' :: rest)))
    rw [elementsFrom_more hread, elementsFrom_blank hb,
      elementsFrom_of_writesAll hs m (by simp at hsteps; omega)]
    rfl

theorem membersFrom_of_writesMembers {cs : List Char} {members : List (String × Json)}
    (h : WritesMembers cs members) (steps : Nat) (hsteps : cs.length + 1 ≤ steps)
    (rest : List Char) :
    membersFrom steps (cs ++ '\x7d' :: rest) =
      some (members.map fun m => (some m.1, m.2), rest) := by
  obtain ⟨m, rfl⟩ : ∃ m, steps = m + 1 := ⟨steps - 1, by omega⟩
  cases h with
  | @last b b' cs value name hb h hb' =>
    have hread := valueFrom_of_writes h m (by simp at hsteps; omega)
      (endsNumeral_blank hb' (endsNumeral_cons (c := '\x7d') (by decide) rest))
    rw [← valueFrom_blank hb] at hread
    have happend : (quotedText name).toList ++ ':' :: (b ++ cs ++ b') ++ '\x7d' :: rest =
        (quotedText name).toList ++ ':' :: (b ++ (cs ++ (b' ++ '\x7d' :: rest))) := by simp
    rw [happend, membersFrom_last name hread hb']
    rfl
  | @more b b' cs ds value members name hb h hb' hs =>
    have hread := valueFrom_of_writes h m (by simp at hsteps; omega)
      (endsNumeral_cons (c := ',') (by decide) (b' ++ (ds ++ '\x7d' :: rest)))
    rw [← valueFrom_blank hb] at hread
    have happend : (quotedText name).toList ++ ':' :: (b ++ cs ++ ',' :: (b' ++ ds)) ++
        '\x7d' :: rest = (quotedText name).toList ++
          ':' :: (b ++ (cs ++ ',' :: (b' ++ (ds ++ '\x7d' :: rest)))) := by simp
    rw [happend, membersFrom_more name hread, membersFrom_blank hb',
      membersFrom_of_writesMembers hs m (by simp at hsteps; omega)]
    rfl

end

/-- A text that writes a value and ends in blanks is read back. -/
theorem read?_of_writes {text : String} {b cs : List Char} {value : Json}
    (htext : text.toList = cs ++ b) (h : Writes cs value) (hb : Blank b) :
    read? text = some value := by
  have hnil : EndsNumeral [] := fun c hc => by cases hc
  have hread := valueFrom_of_writes h ((cs ++ b).length + 1) (by rw [List.length_append]; omega)
    (List.append_nil b ▸ endsNumeral_blank hb hnil)
  have hblank : skipBlanks b = [] := by
    rw [← List.append_nil b, skipBlanks_append hb]
    rfl
  rw [read?, htext]
  show (valueFrom _ (cs ++ b)).bind _ = _
  rw [hread]
  show (if (skipBlanks b).isEmpty then some value else none) = _
  rw [hblank]
  rfl

/-! ### Values as they are printed -/

/-- **A value is printed well**: on one line, or over several at any level of indentation, the text
writes the value. -/
structure Printable (value : Json) : Prop where
  compact : Writes value.compact.toList value
  prettyAt : ∀ level, Writes (value.prettyAt level).toList value

theorem printable_null : Printable .null :=
  ⟨.null, fun _ => .null⟩

theorem printable_number {n : Numeral} (h : n.WellFormed) : Printable (.number n) :=
  ⟨.number h, fun _ => .number h⟩

theorem printable_string (text : String) : Printable (.string text) :=
  ⟨.string text, fun _ => .string text⟩

theorem compactAll_eq (values : List Json) : compactAll values = values.map compact := by
  induction values with
  | nil => rfl
  | cons value values ih => rw [compactAll, ih, List.map_cons]

theorem compactMembers_eq (members : List (String × Json)) :
    compactMembers members = members.map fun m => quotedText m.1 ++ ":" ++ compact m.2 := by
  induction members with
  | nil => rfl
  | cons m members ih =>
    obtain ⟨name, value⟩ := m
    rw [compactMembers, ih, List.map_cons]

theorem prettyAll_eq (level : Nat) (values : List Json) :
    prettyAll level values = values.map (prettyAt level) := by
  induction values with
  | nil => rfl
  | cons value values ih => rw [prettyAll, ih, List.map_cons]

theorem prettyMembers_eq (level : Nat) (members : List (String × Json)) :
    prettyMembers level members =
      members.map fun m => quotedText m.1 ++ ": " ++ prettyAt level m.2 := by
  induction members with
  | nil => rfl
  | cons m members ih =>
    obtain ⟨name, value⟩ := m
    rw [prettyMembers, ih, List.map_cons]

section Separated

variable {b b₁ b₂ : List Char} (hb : Blank b) (hb₁ : Blank b₁) (hb₂ : Blank b₂)
  {text : Json → String}

include hb hb₂ in
theorem writesAll_intercalate {values : List Json}
    (h : ∀ value ∈ values, Writes (text value).toList value) (hne : values ≠ []) :
    WritesAll ((',' :: b).intercalate (values.map fun value => (text value).toList) ++ b₂)
      values := by
  induction values with
  | nil => exact absurd rfl hne
  | cons value values ih =>
    obtain ⟨hvalue, hvalues⟩ := List.forall_mem_cons.mp h
    cases values with
    | nil => simpa using WritesAll.last hvalue hb₂
    | cons next values =>
      rw [List.map_cons, List.map_cons, List.intercalate_cons_cons]
      simpa using WritesAll.more hvalue hb (ih hvalues (by simp))

include hb hb₁ hb₂ in
theorem writesMembers_intercalate {members : List (String × Json)}
    (h : ∀ m ∈ members, Writes (text m.2).toList m.2) (hne : members ≠ []) :
    WritesMembers ((',' :: b).intercalate
      (members.map fun m => (quotedText m.1).toList ++ ':' :: (b₁ ++ (text m.2).toList)) ++ b₂)
      members := by
  induction members with
  | nil => exact absurd rfl hne
  | cons m members ih =>
    obtain ⟨hm, hmembers⟩ := List.forall_mem_cons.mp h
    obtain ⟨name, value⟩ := m
    cases members with
    | nil => simpa using WritesMembers.last name hb₁ hm hb₂
    | cons next members =>
      rw [List.map_cons, List.map_cons, List.intercalate_cons_cons]
      simpa using WritesMembers.more name hb₁ hm hb (ih hmembers (by simp))

end Separated

theorem blank_nil : Blank [] := fun c hc => by cases hc

theorem blank_lineStart (level : Nat) : Blank (lineStart level).toList := by
  intro c hc
  rw [lineStart, String.toList_ofList] at hc
  rcases List.mem_cons.mp hc with rfl | hc
  · rfl
  · rw [(List.mem_replicate.mp hc).2]
    rfl

theorem toList_block {parts : List String} (hne : parts ≠ []) (level : Nat)
    (opening closing : String) : (block level opening closing parts).toList =
      opening.toList ++ ((lineStart (level + 1)).toList ++
        ((',' :: (lineStart (level + 1)).toList).intercalate (parts.map String.toList) ++
          (lineStart level).toList) ++ closing.toList) := by
  have hparts : parts.isEmpty = false := by simpa using hne
  simp [block, hparts, String.toList_intercalate]

theorem printable_array {values : List Json} (h : ∀ value ∈ values, Printable value) :
    Printable (.array values) := by
  by_cases hne : values = []
  · subst hne
    refine ⟨.noElements, fun level => ?_⟩
    rw [prettyAt, prettyAll, block, if_pos List.isEmpty_nil]
    exact .noElements
  · constructor
    · have htext : (compact (.array values)).toList = '[' :: ([] ++ ([','].intercalate
          (values.map fun value => value.compact.toList) ++ []) ++ [']']) := by
        simp [compact, compactAll_eq, String.toList_intercalate, Function.comp_def]
      rw [htext]
      exact .array blank_nil (writesAll_intercalate blank_nil blank_nil
        (fun value hvalue => (h value hvalue).compact) hne)
    · intro level
      rw [prettyAt, prettyAll_eq, toList_block (by simpa using hne), List.map_map]
      exact .array (blank_lineStart _) (writesAll_intercalate (blank_lineStart _)
        (blank_lineStart _) (fun value hvalue => (h value hvalue).prettyAt _) hne)

theorem printable_map {α : Type} {record : α → Json} (h : ∀ x, (record x).Printable) (xs : List α) :
    Printable (.array (xs.map record)) := by
  refine printable_array fun value hvalue => ?_
  obtain ⟨x, -, rfl⟩ := List.mem_map.mp hvalue
  exact h x

theorem printable_object {members : List (String × Json)} (h : ∀ m ∈ members, Printable m.2) :
    Printable (.object members) := by
  by_cases hne : members = []
  · subst hne
    refine ⟨.noMembers, fun level => ?_⟩
    rw [prettyAt, prettyMembers, block, if_pos List.isEmpty_nil]
    exact .noMembers
  · constructor
    · have htext : (compact (.object members)).toList = '\x7b' :: ([] ++ ([','].intercalate
          (members.map fun m => (quotedText m.1).toList ++ ':' :: ([] ++ m.2.compact.toList))
            ++ []) ++ ['\x7d']) := by
        simp [compact, compactMembers_eq, String.toList_intercalate, Function.comp_def]
      rw [htext]
      exact .object blank_nil (writesMembers_intercalate blank_nil blank_nil blank_nil
        (fun m hm => (h m hm).compact) hne)
    · intro level
      have hblank : Blank [' '] := by simp [Blank, isBlank]
      have hparts : (members.map fun m => quotedText m.1 ++ ": " ++ m.2.prettyAt (level + 1)).map
          String.toList = members.map fun m =>
            (quotedText m.1).toList ++ ':' :: ([' '] ++ (m.2.prettyAt (level + 1)).toList) := by
        simp
      rw [prettyAt, prettyMembers_eq, toList_block (by simpa using hne), hparts]
      exact .object (blank_lineStart _) (writesMembers_intercalate (blank_lineStart _) hblank
        (blank_lineStart _) (fun m hm => (h m hm).prettyAt _) hne)

/-- **What is printed is read back**, on one line or over several, also behind a final newline. -/
theorem Printable.read? {value : Json} (h : value.Printable) (pretty : Bool) :
    Json.read? ((if pretty then value.pretty else value.compact) ++ "\n") = some value := by
  have hnewline : Blank ['\n'] := by simp [Blank, isBlank]
  refine read?_of_writes (String.toList_append ..) ?_ hnewline
  cases pretty with
  | true => exact h.prettyAt 0
  | false => exact h.compact

/-! ### Diagrams -/

theorem printable_ofFloat (x : Float) : (ofFloat x).Printable := by
  unfold ofFloat
  cases hx : Numeral.ofFloat? x with
  | none => exact printable_null
  | some n => exact printable_number (Numeral.wellFormed_ofFloat? hx)

end Json

open Json

theorem NodeColumn.printable_toJson (c : NodeColumn) : c.toJson.Printable := by
  refine printable_object fun m hm => ?_
  simp only [List.mem_append, List.mem_cons, List.not_mem_nil, or_false, Option.mem_toList,
    Option.map_eq_some_iff] at hm
  rcases hm with ((rfl | rfl) | ⟨_, -, rfl⟩) | ⟨_, -, rfl⟩ <;> exact printable_string _

theorem Node.printable_toJson (n : Node) : n.toJson.Printable := by
  have hposition : n.position.toJson.Printable := printable_object (by simp [printable_ofFloat])
  have hcolumns := printable_map NodeColumn.printable_toJson n.columns
  exact printable_object (by simp [printable_string, hposition, hcolumns])

theorem Edge.printable_toJson (e : Edge) : e.toJson.Printable :=
  printable_object (by simp [printable_string])

/-- A compiled diagram with its warnings is printed well. -/
theorem Compiled.printable_toJson (c : Compiled) : c.toJson.Printable := by
  have hnodes := printable_map Node.printable_toJson c.diagram.nodes
  have hedges := printable_map Edge.printable_toJson c.diagram.edges
  have hwarnings := printable_map (fun w => printable_string w.message) c.warnings
  exact printable_object (by simp [hnodes, hedges, hwarnings])

end SchemaGraph
