import Mathlib.Data.List.Basic
import Mathlib.Data.List.Nodup
import SchemaGraph.Compile.Link
import SchemaGraph.Session.Basic

/-!
# Ids of edges

The id of an edge is glued together from the ids of its nodes and from numbers, with hyphens
between them. Node ids may themselves hold hyphens and digits, so an id does not tell where one
node id ends and the next begins. What it does tell are the numbers behind the last hyphens, because
a numeral holds no hyphen (`hyphen_numeral_inj`). Two things follow. The edges compiled from one
document have different ids, since they differ in the position of the link or of the field
(`LinkOutcome.edgeId_inj`). And the search for a free id ends, since the numbered ids of one base
differ from each other (`Diagram.freeEdgeId_spec`).
-/

namespace SchemaGraph

/-! ### Numerals behind a hyphen -/

/-- Where two lists are the same and each is split at a `c`, they are split at one place, or one of
them is split further on, at a `c` that the other one has in its second part. -/
theorem append_cons_eq_append_cons_iff {α : Type} {c : α} {xs ys us vs : List α} :
    xs ++ c :: us = ys ++ c :: vs ↔
      (xs = ys ∧ us = vs) ∨ (∃ zs, ys = xs ++ c :: zs ∧ us = zs ++ c :: vs) ∨
        ∃ zs, xs = ys ++ c :: zs ∧ vs = zs ++ c :: us := by
  constructor
  · intro h
    rcases List.append_eq_append_iff.mp h with ⟨zs, hys, hus⟩ | ⟨zs, hxs, hvs⟩
    · cases zs with
      | nil => exact .inl ⟨by simp [hys], by simpa using hus⟩
      | cons z zs =>
        obtain ⟨rfl, htail⟩ := List.cons_eq_cons.mp hus
        exact .inr (.inl ⟨zs, hys, htail⟩)
    · cases zs with
      | nil => exact .inl ⟨by simp [hxs], by simpa using hvs.symm⟩
      | cons z zs =>
        obtain ⟨rfl, htail⟩ := List.cons_eq_cons.mp hvs
        exact .inr (.inr ⟨zs, hxs, htail⟩)
  · rintro (⟨rfl, rfl⟩ | ⟨zs, rfl, rfl⟩ | ⟨zs, rfl, rfl⟩) <;> simp

/-- Where two lists are the same and the first `c` of each is known, the parts before and behind it
are the same. -/
theorem append_cons_inj_of_not_mem {α : Type} {c : α} {xs ys us vs : List α} (hx : c ∉ xs)
    (hy : c ∉ ys) (h : xs ++ c :: us = ys ++ c :: vs) : xs = ys ∧ us = vs := by
  rcases append_cons_eq_append_cons_iff.mp h with hsame | ⟨zs, rfl, -⟩ | ⟨zs, rfl, -⟩
  · exact hsame
  · exact absurd (by simp) hy
  · exact absurd (by simp) hx

/-- A numeral consists of digits. -/
theorem hyphen_not_mem_toDigits (n : Nat) : '-' ∉ Nat.toDigits 10 n := by
  intro h
  have := Nat.isDigit_of_mem_toDigits (by omega) (by omega) h
  exact absurd this (by decide)

/-- A numeral tells its number. -/
theorem toDigits_inj {m n : Nat} (h : Nat.toDigits 10 m = Nat.toDigits 10 n) : m = n := by
  have := congrArg (fun ds => Nat.ofDigitChars 10 ds 0) h
  simpa using this

/-- A text that ends in a hyphen and a numeral tells the number, and what stands before. -/
theorem hyphen_numeral_inj {a b : String} {m n : Nat}
    (h : a ++ "-" ++ toString m = b ++ "-" ++ toString n) : a = b ∧ m = n := by
  have hl := congrArg (fun s => s.toList.reverse) h
  have hyphen : "-".toList = ['-'] := rfl
  simp only [String.toList_append, Nat.toString_eq_repr, Nat.toList_repr, hyphen,
    List.singleton_append, List.append_assoc, List.reverse_append, List.reverse_cons] at hl
  obtain ⟨hd, ha⟩ := append_cons_inj_of_not_mem
    (fun hm => hyphen_not_mem_toDigits m (List.mem_reverse.mp hm))
    (fun hm => hyphen_not_mem_toDigits n (List.mem_reverse.mp hm)) hl
  exact ⟨String.toList_inj.mp (List.reverse_injective ha),
    toDigits_inj (List.reverse_injective hd)⟩

/-! ### Compiled edges -/

theorem LinkOutcome.edgeId_eq (left right : String) (link field : Nat) :
    edgeId left right link field =
      ("e-" ++ left ++ "-" ++ right ++ "-" ++ toString link) ++ "-" ++ toString field := rfl

/-- The id of a compiled edge tells the positions of its link and of its fields. -/
theorem LinkOutcome.edgeId_inj {l r l' r' : String} {i j i' j' : Nat}
    (h : edgeId l r i j = edgeId l' r' i' j') : i = i' ∧ j = j' := by
  rw [edgeId_eq, edgeId_eq] at h
  obtain ⟨h, hj⟩ := hyphen_numeral_inj h
  exact ⟨(hyphen_numeral_inj h).2, hj⟩

/-! ### Numbered ids -/

namespace Diagram

theorem numberedId_succ (base : String) (n : Nat) :
    numberedId base (n + 1) = base ++ "-" ++ toString (n + 1) := rfl

/-- The numbered ids of one base differ. -/
theorem numberedId_injective (base : String) : Function.Injective (numberedId base) := by
  have hne : ∀ n : Nat, base ≠ numberedId base (n + 1) := by
    intro n h
    have hl := congrArg String.length h
    have hyphen : "-".length = 1 := rfl
    rw [numberedId_succ, String.length_append, String.length_append, hyphen] at hl
    omega
  intro m n h
  match m, n with
  | 0, 0 => rfl
  | 0, n + 1 => exact absurd h (hne n)
  | m + 1, 0 => exact absurd h.symm (hne m)
  | m + 1, n + 1 => exact (hyphen_numeral_inj h).2

theorem hasEdge_iff {d : Diagram} {id : String} :
    d.hasEdge id = true ↔ id ∈ d.edges.map Edge.id := by
  simp [hasEdge]

/-- Among one more numbered ids than there are edges, one is free. -/
theorem exists_free_numberedId (d : Diagram) (base : String) :
    ∃ n ≤ d.edges.length, d.hasEdge (numberedId base n) = false := by
  by_contra hall
  simp only [not_exists, not_and, Bool.not_eq_false] at hall
  have hsub : (List.range (d.edges.length + 1)).map (numberedId base) ⊆ d.edges.map Edge.id := by
    intro id hid
    obtain ⟨n, hn, rfl⟩ := List.mem_map.mp hid
    exact hasEdge_iff.mp (hall n (by have := List.mem_range.mp hn; omega))
  have hlen := (List.nodup_range.map (numberedId_injective base)).length_le_of_subset hsub
  rw [List.length_map, List.length_range, List.length_map] at hlen
  omega

/-- The id of a new edge is the base with the least number that makes it free. -/
theorem freeEdgeId_spec (d : Diagram) (base : String) :
    ∃ n ≤ d.edges.length, d.freeEdgeId base = numberedId base n ∧
      d.hasEdge (numberedId base n) = false ∧ ∀ m < n, d.hasEdge (numberedId base m) = true := by
  obtain ⟨n, hn, hfree⟩ := exists_free_numberedId d base
  unfold freeEdgeId
  rw [List.find?_map]
  cases h : (List.range (d.edges.length + 1)).find? ((!d.hasEdge ·) ∘ numberedId base) with
  | none =>
    have := List.find?_eq_none.mp h n (List.mem_range.mpr (by omega))
    simp [hfree] at this
  | some k =>
    obtain ⟨hk, hmem, hmin⟩ := List.find?_range_eq_some.mp h
    refine ⟨k, by have := List.mem_range.mp hmem; omega, rfl, by simpa using hk, ?_⟩
    intro m hm
    simpa using hmin m hm

/-- The id of a new edge is free. -/
theorem freeEdgeId_not_mem (d : Diagram) (base : String) :
    d.freeEdgeId base ∉ d.edges.map Edge.id := by
  obtain ⟨n, -, hid, hfree, -⟩ := freeEdgeId_spec d base
  intro h
  rw [hid, ← hasEdge_iff, hfree] at h
  cases h

end Diagram

end SchemaGraph
