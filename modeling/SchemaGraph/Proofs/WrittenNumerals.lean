import Mathlib.Data.List.Basic
import SchemaGraph.Decimal.Shortest
import SchemaGraph.Json.Reader

/-!
# Numerals as they are written

A numeral is read as it is written, if it is well formed and nothing behind it goes on with it
(`Json.numeral_text`). The shortest numeral of a floating-point number is always well formed
(`Numeral.wellFormed_ofFloat?`). Were its digits those of zero, none would be left of them without
the zeros at their end; but what rounds to a number other than zero is itself other than zero
(`FloatInterval.pos_of_holds`).
-/

namespace SchemaGraph

namespace Numeral

/-- **A numeral is well formed**: it has digits before the point, the first of which is `0` only
when it is the only one. -/
structure WellFormed (n : Numeral) : Prop where
  whole_lt : ∀ d ∈ n.whole, d < 10
  fraction_lt : ∀ d ∈ n.fraction, d < 10
  whole_ne_nil : n.whole ≠ []
  leading : n.whole.head? = some 0 → n.whole.length = 1

end Numeral

namespace Json

variable {ds : List Nat} {rest : List Char}

/-! ### Reading digits -/

/-- What stands behind digits and does not go on with them. -/
def EndsDigits (rest : List Char) : Prop :=
  ∀ c ∈ rest.head?, c.isDigit = false

/-- What stands behind digits with or without a point, and goes on with neither. -/
def EndsDecimal (rest : List Char) : Prop :=
  ∀ c ∈ rest.head?, c.isDigit = false ∧ c ≠ '.'

/-- What stands behind a numeral and does not go on with it. -/
def EndsNumeral (rest : List Char) : Prop :=
  ∀ c ∈ rest.head?, c.isDigit = false ∧ c ≠ '.' ∧ c ≠ 'e' ∧ c ≠ 'E'

theorem EndsDecimal.endsDigits (h : EndsDecimal rest) : EndsDigits rest :=
  fun c hc => (h c hc).1

theorem EndsNumeral.endsDecimal (h : EndsNumeral rest) : EndsDecimal rest :=
  fun c hc => ⟨(h c hc).1, (h c hc).2.1⟩

theorem isDigit_digitChar {d : Nat} (hd : d < 10) : (Nat.digitChar d).isDigit = true := by
  rw [Nat.isDigit_digitChar, decide_eq_true hd]

theorem digits_append {cs : List Char} (hcs : ∀ c ∈ cs, c.isDigit = true)
    (hrest : EndsDigits rest) :
    digits (cs ++ rest) = (cs.map fun c => c.toNat - '0'.toNat, rest) := by
  have hstop : rest.takeWhile Char.isDigit = [] ∧ rest.dropWhile Char.isDigit = rest := by
    cases rest with
    | nil => exact ⟨rfl, rfl⟩
    | cons c rest =>
      have hc := hrest c rfl
      exact ⟨by simp [hc], by simp [hc]⟩
  rw [digits, List.takeWhile_append_of_pos hcs, List.dropWhile_append_of_pos hcs, hstop.1, hstop.2,
    List.append_nil]

theorem digits1_digitChars (hds : ∀ d ∈ ds, d < 10) (hne : ds ≠ []) (hrest : EndsDigits rest) :
    digits1 (ds.map Nat.digitChar ++ rest) = some (ds, rest) := by
  have hdigits : ∀ c ∈ ds.map Nat.digitChar, c.isDigit = true := by
    intro c hc
    obtain ⟨d, hd, rfl⟩ := List.mem_map.mp hc
    exact isDigit_digitChar (hds d hd)
  have hvalues : (ds.map Nat.digitChar).map (fun c => c.toNat - '0'.toNat) = ds := by
    rw [List.map_map, List.map_congr_left (g := id), List.map_id]
    exact fun d hd => Nat.toNat_digitChar_sub_48_of_lt_ten (hds d hd)
  rw [digits1, digits_append hdigits hrest, hvalues]
  simp [hne]

theorem digits1_toDigits (n : Nat) (hrest : EndsDigits rest) :
    ∃ ds, digits1 (Nat.toDigits 10 n ++ rest) = some (ds, rest) ∧ Numeral.ofDigits ds = n := by
  have hdigits : ∀ c ∈ Nat.toDigits 10 n, c.isDigit = true :=
    fun c => Nat.isDigit_of_mem_toDigits (by decide) (by decide)
  refine ⟨(Nat.toDigits 10 n).map fun c => c.toNat - '0'.toNat, ?_, ?_⟩
  · rw [digits1, digits_append hdigits hrest]
    simp
  · rw [Numeral.ofDigits, List.foldl_map, ← Nat.ofDigitChars_eq_foldl,
      Nat.ofDigitChars_ten_toDigits]

/-! ### Reading the parts of a numeral -/

theorem toList_exponentText_ofNat (n : Nat) :
    (Numeral.exponentText (some (.ofNat n))).toList = 'e' :: '+' :: Nat.toDigits 10 n := by
  rw [Numeral.exponentText, if_pos (by simp), String.toList_append]
  show "e+".toList ++ (toString n).toList = _
  simp

theorem toList_exponentText_negSucc (n : Nat) :
    (Numeral.exponentText (some (.negSucc n))).toList = 'e' :: '-' :: Nat.toDigits 10 (n + 1) := by
  rw [Numeral.exponentText, if_neg (by simp), String.toList_append]
  show "e".toList ++ ("-" ++ toString (n + 1)).toList = _
  simp

theorem exponent_exponentText (power : Option Int) (hrest : EndsNumeral rest) :
    exponent ((Numeral.exponentText power).toList ++ rest) = some (power, rest) := by
  match power with
  | none =>
    cases rest with
    | nil => rfl
    | cons c rest =>
      obtain ⟨-, -, he, hE⟩ := hrest c rfl
      show exponent (c :: rest) = _
      simp [exponent, he, hE]
  | some (.ofNat n) =>
    obtain ⟨ds, hread, hvalue⟩ := digits1_toDigits n hrest.endsDecimal.endsDigits
    rw [toList_exponentText_ofNat]
    simp [exponent, Json.power, hread, hvalue]
  | some (.negSucc n) =>
    obtain ⟨ds, hread, hvalue⟩ := digits1_toDigits (n + 1) hrest.endsDecimal.endsDigits
    rw [toList_exponentText_negSucc]
    simp [exponent, Json.power, hread, hvalue]
    omega

theorem endsDecimal_exponentText (power : Option Int) (hrest : EndsNumeral rest) :
    EndsDecimal ((Numeral.exponentText power).toList ++ rest) := by
  intro c hc
  match power with
  | none => exact hrest.endsDecimal c hc
  | some (.ofNat n) =>
    rw [toList_exponentText_ofNat] at hc
    cases hc
    decide
  | some (.negSucc n) =>
    rw [toList_exponentText_negSucc] at hc
    cases hc
    decide

theorem toList_fractionText (hne : ds ≠ []) :
    (Numeral.fractionText ds).toList = '.' :: ds.map Nat.digitChar := by
  simp [Numeral.fractionText, Numeral.digitsText, hne]

theorem fraction_fractionText (hds : ∀ d ∈ ds, d < 10) (hrest : EndsDecimal rest) :
    fraction ((Numeral.fractionText ds).toList ++ rest) = some (ds, rest) := by
  by_cases hne : ds = []
  · subst hne
    cases rest with
    | nil => rfl
    | cons c rest =>
      obtain ⟨-, hpoint⟩ := hrest c rfl
      show fraction (c :: rest) = _
      simp [fraction, hpoint]
  · rw [toList_fractionText hne]
    exact digits1_digitChars hds hne hrest.endsDigits

theorem endsDigits_fractionText (ds : List Nat) (hrest : EndsDecimal rest) :
    EndsDigits ((Numeral.fractionText ds).toList ++ rest) := by
  by_cases hne : ds = []
  · subst hne
    exact hrest.endsDigits
  · rw [toList_fractionText hne]
    intro c hc
    cases hc
    decide

theorem sign_digitChar {d : Nat} (hd : d < 10) (negative : Bool) (cs : List Char) :
    sign ((if negative then "-" else "").toList ++ Nat.digitChar d :: cs) =
      (negative, Nat.digitChar d :: cs) := by
  cases negative with
  | true => rfl
  | false =>
    have hne : Nat.digitChar d ≠ '-' := by
      intro heq
      have hdigit := isDigit_digitChar hd
      rw [heq] at hdigit
      exact absurd hdigit (by decide)
    show sign (Nat.digitChar d :: cs) = _
    unfold sign
    split
    · next heq => exact absurd (List.cons.inj heq).1 hne
    · rfl

/-! ### Reading a numeral -/

theorem toList_text {n : Numeral} {d : Nat} (hwhole : n.whole = d :: ds) :
    n.text.toList = (if n.negative then "-" else "").toList ++ Nat.digitChar d ::
      (ds.map Nat.digitChar ++ ((Numeral.fractionText n.fraction).toList ++
        (Numeral.exponentText n.exponent).toList)) := by
  simp [Numeral.text, Numeral.digitsText, hwhole]

/-- A numeral begins with a minus sign or a digit. -/
theorem exists_cons_text {n : Numeral} (h : n.WellFormed) :
    ∃ c cs, n.text.toList = c :: cs ∧ (c = '-' ∨ c.isDigit = true) := by
  obtain ⟨d, ds, hwhole⟩ := List.exists_cons_of_ne_nil h.whole_ne_nil
  have hd : d < 10 := h.whole_lt d (by simp [hwhole])
  rw [toList_text hwhole]
  cases n.negative with
  | true => exact ⟨'-', _, rfl, .inl rfl⟩
  | false => exact ⟨Nat.digitChar d, _, rfl, .inr (isDigit_digitChar hd)⟩

/-- **A well-formed numeral is read as it is written.** -/
theorem numeral_text {n : Numeral} (h : n.WellFormed) (hrest : EndsNumeral rest) :
    numeral (n.text.toList ++ rest) = some (n, rest) := by
  obtain ⟨d, ds, hwhole⟩ := List.exists_cons_of_ne_nil h.whole_ne_nil
  have hd : d < 10 := h.whole_lt d (by simp [hwhole])
  have hexponent := endsDecimal_exponentText n.exponent hrest
  have hdigits := digits1_digitChars h.whole_lt h.whole_ne_nil
    (endsDigits_fractionText n.fraction hexponent)
  have hleading : ¬ (n.whole.head? = some 0 ∧ 1 < n.whole.length) := by
    rintro ⟨hzero, hlong⟩
    have := h.leading hzero
    omega
  rw [toList_text hwhole, List.append_assoc, List.cons_append, List.append_assoc,
    List.append_assoc, numeral, sign_digitChar hd, ← List.cons_append, ← List.map_cons, ← hwhole]
  simp only [hdigits, Option.bind_eq_bind, Option.bind_some, if_neg hleading]
  simp only [fraction_fractionText h.fraction_lt hexponent, exponent_exponentText n.exponent hrest,
    Option.bind_some, Option.pure_def]

end Json

/-! ### Numerals of floating-point numbers -/

namespace FloatInterval

variable {i : FloatInterval} {ten : Int} {n : Nat}

/-- What rounds to a number other than zero lies above a positive bound. -/
theorem low_pos {x : Float} (hx : x.toBits.toNat % Nat.pow 2 63 ≠ 0) : 0 < (ofFloat x).low := by
  have h52 : Nat.pow 2 52 = 4503599627370496 := rfl
  have h11 : Nat.pow 2 11 = 2048 := rfl
  have h63 : Nat.pow 2 63 = 9223372036854775808 := rfl
  simp only [ofFloat, h52, h11]
  rw [h63] at hx
  split_ifs <;> omega

theorem pos_of_holds (hlow : 0 < i.low) (h : i.holds ten n = true) : 0 < n := by
  by_contra hn
  have hn : n = 0 := by omega
  have hpos : 0 < i.low * Nat.pow 2 i.unit.toNat * Nat.pow 10 (-ten).toNat :=
    Nat.mul_pos (Nat.mul_pos hlow (Nat.pow_pos (by decide))) (Nat.pow_pos (by decide))
  rw [hn] at h
  simp only [holds, scaled, Nat.zero_mul] at h
  split_ifs at h
  · simp only [Bool.and_eq_true, decide_eq_true_eq] at h
    omega
  · simp only [Bool.and_eq_true, decide_eq_true_eq] at h
    omega

/-- What is chosen rounds to the number. -/
theorem holds_of_nearest? (h : i.nearest? ten = some n) : i.holds ten n = true := by
  unfold nearest? at h
  dsimp only at h
  split at h
  · next hbelow habove =>
    split_ifs at h
    · cases h
      exact hbelow
    · cases h
      exact habove
  · next hbelow _ =>
    cases h
    exact hbelow
  · next _ habove =>
    cases h
    exact habove
  · cases h

theorem holds_of_shortestFrom {size : Int} {digits tries : Nat}
    (h : i.shortestFrom size digits tries = some (n, ten)) : i.holds ten n = true := by
  induction tries generalizing digits with
  | zero => cases h
  | succ tries ih =>
    rw [shortestFrom] at h
    split at h
    · next hnearest =>
      cases h
      exact holds_of_nearest? hnearest
    · exact ih h

end FloatInterval

/-- **Digits are those of a number other than zero**: there are some, and the first is not `0`. -/
structure Significant (ds : List Nat) : Prop where
  lt : ∀ d ∈ ds, d < 10
  head : ∃ d rest, ds = d :: rest ∧ d ≠ 0

theorem whole_ofNat (n : Nat) : (Numeral.ofNat n).whole =
    if n < 10 then [n] else (Numeral.ofNat (n / 10)).whole ++ [n % 10] := by
  have hvalue : ∀ d < 10, (Nat.digitChar d).toNat - '0'.toNat = d :=
    fun _ => Nat.toNat_digitChar_sub_48_of_lt_ten
  show (Nat.toDigits 10 n).map (fun c => c.toNat - '0'.toNat) = _
  rw [Nat.toDigits_eq_if (by decide)]
  split_ifs with hlt
  · rw [List.map_singleton, hvalue n hlt]
  · rw [List.map_append, List.map_singleton, hvalue (n % 10) (by omega)]
    rfl

theorem significant_ofNat {n : Nat} (h : 0 < n) : Significant (Numeral.ofNat n).whole := by
  induction n using Nat.strongRecOn with
  | ind n ih =>
    rw [whole_ofNat]
    split_ifs with hlt
    · exact ⟨by simpa using hlt, n, [], rfl, by omega⟩
    · obtain ⟨hdigits, d, rest, hsplit, hd⟩ := ih (n / 10) (by omega) (by omega)
      refine ⟨fun d hmem => ?_, d, rest ++ [n % 10], by rw [hsplit]; rfl, hd⟩
      rcases List.mem_append.mp hmem with hmem | hmem
      · exact hdigits d hmem
      · rw [List.mem_singleton.mp hmem]
        omega

theorem Significant.withoutTrailingZeros {ds : List Nat} (h : Significant ds) :
    Significant (withoutTrailingZeros ds) := by
  obtain ⟨hlt, d, rest, rfl, hd⟩ := h
  refine ⟨fun e he => hlt e ?_, ?_⟩
  · rw [SchemaGraph.withoutTrailingZeros, List.mem_reverse] at he
    exact List.mem_reverse.mp ((List.dropWhile_suffix _).subset he)
  · rw [SchemaGraph.withoutTrailingZeros, List.reverse_cons]
    refine ⟨d, (rest.reverse.dropWhile (· = 0)).reverse, ?_, hd⟩
    rw [List.dropWhile_append]
    split_ifs with hzeros
    · simp [List.isEmpty_iff.mp hzeros, hd]
    · simp

theorem Numeral.wellFormed_ofShortest {ds : List Nat} (h : Significant ds) (negative : Bool)
    (point : Int) : (ofShortest negative ds point).WellFormed := by
  obtain ⟨hlt, d, rest, rfl, hd⟩ := h
  have htake : ∀ n, ∀ e ∈ (d :: rest).take n, e < 10 :=
    fun n e he => hlt e (List.mem_of_mem_take he)
  have hdrop : ∀ n, ∀ e ∈ (d :: rest).drop n, e < 10 :=
    fun n e he => hlt e (List.mem_of_mem_drop he)
  unfold ofShortest
  split_ifs with hfar hsmall
  · exact ⟨htake 1, hdrop 1, by simp, by simp [hd]⟩
  · refine ⟨by simp, fun e he => ?_, by simp, by simp⟩
    rcases List.mem_append.mp he with he | he
    · rw [(List.mem_replicate.mp he).2]
      omega
    · exact hlt e he
  · obtain ⟨k, hk⟩ : ∃ k, point.toNat = k + 1 := ⟨point.toNat - 1, by simp at hsmall; omega⟩
    dsimp only
    rw [hk, List.take_succ_cons]
    refine ⟨fun e he => ?_, fun e he => ?_, by simp, by simp [hd]⟩
    · rcases List.mem_append.mp he with he | he
      · exact htake (k + 1) e he
      · rw [(List.mem_replicate.mp he).2]
        omega
    · dsimp only at he
      split_ifs at he
      · rw [List.mem_singleton.mp he]
        omega
      · exact hdrop (k + 1) e he

theorem Numeral.wellFormed_ofFloat? {x : Float} {n : Numeral} (h : ofFloat? x = some n) :
    n.WellFormed := by
  unfold ofFloat? at h
  dsimp only at h
  split_ifs at h with hfinite hzero
  · cases h
    exact ⟨by simp, by simp, by simp, by simp⟩
  · obtain ⟨⟨ds, point⟩, hdigits, rfl⟩ := Option.map_eq_some_iff.mp h
    obtain ⟨⟨m, ten⟩, hshortest, hds⟩ := Option.map_eq_some_iff.mp hdigits
    cases hds
    have hm := FloatInterval.pos_of_holds (FloatInterval.low_pos hzero)
      (FloatInterval.holds_of_shortestFrom hshortest)
    exact wellFormed_ofShortest (significant_ofNat hm).withoutTrailingZeros _ _

end SchemaGraph
