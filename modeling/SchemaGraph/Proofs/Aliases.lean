import Mathlib.Data.List.Induction
import Mathlib.Data.List.Nodup
import SchemaGraph.Compile.Alias
import SchemaGraph.Proofs.Fallible

/-!
# Aliases that can be told apart

Aliases are collected table by table, and a table is refused if its alias is taken or is the name of
another table. In the end the order does not matter: the aliases of tables can be told apart when
they differ and none of them is the name of a different table, and then they are those that the
tables declare (`aliases_eq_ok_iff`). They are a matter of what tables are called, not of what is in
them (`aliases_map`).
-/

namespace SchemaGraph

/-! ### Looking names up -/

section Lookup

variable {α : Type} {k : String}

theorem lookup_eq_map_find? (xs : List (String × α)) :
    xs.lookup k = (xs.find? (·.1 == k)).map Prod.snd := by
  induction xs with
  | nil => rfl
  | cons x xs ih =>
    obtain ⟨k', v⟩ := x
    by_cases hk : k' = k
    · simp [hk]
    · have hk' : ¬ k = k' := fun h => hk h.symm
      simp [List.lookup_cons, beq_eq_false_iff_ne.mpr hk, beq_eq_false_iff_ne.mpr hk', ih]

/-- What stands under a key is found, where keys differ. -/
theorem lookup_of_mem {xs : List (String × α)} {v : α} (hkeys : (xs.map Prod.fst).Nodup)
    (h : (k, v) ∈ xs) : xs.lookup k = some v := by
  have hfind : xs.find? (·.1 == k) = some (k, v) := by
    cases hx : xs.find? (·.1 == k) with
    | none => exact absurd (List.find?_eq_none.mp hx _ h) (by simp)
    | some x =>
      have hkey : x.1 = k := by simpa using List.find?_some hx
      rw [List.inj_on_of_nodup_map hkeys (List.mem_of_find?_eq_some hx) h hkey]
  rw [lookup_eq_map_find?, hfind, Option.map_some]

/-- What tables have under their aliases is that of the first table with the alias. -/
theorem lookup_shorthands (f : Table → α) (tables : List Table) :
    (tables.filterMap fun t => t.shorthand.map (·, f t)).lookup k =
      (tables.find? (·.shorthand == some k)).map f := by
  induction tables with
  | nil => rfl
  | cons t tables ih =>
    cases hs : t.shorthand with
    | none => simp [hs, ih]
    | some a =>
      by_cases ha : k = a
      · simp [hs, ha]
      · have ha' : ¬ a = k := fun h => ha h.symm
        simp [hs, ih, List.lookup_cons, beq_eq_false_iff_ne.mpr ha, ha']

end Lookup

/-! ### The aliases that tables declare -/

/-- The aliases that tables declare, each with the table that it stands for. -/
def declaredAliases (tables : List Table) : Aliases :=
  tables.filterMap fun t => t.shorthand.map (·, t.id)

theorem declaredAliases_append (ts us : List Table) :
    declaredAliases (ts ++ us) = declaredAliases ts ++ declaredAliases us :=
  List.filterMap_append

theorem map_fst_declaredAliases (tables : List Table) :
    (declaredAliases tables).map Prod.fst = tables.filterMap Table.shorthand := by
  rw [declaredAliases, List.map_filterMap]
  refine List.filterMap_congr fun t _ => ?_
  cases t.shorthand <;> rfl

theorem lookup_declaredAliases_eq_none_iff {tables : List Table} {a : String} :
    (declaredAliases tables).lookup a = none ↔ a ∉ tables.filterMap Table.shorthand := by
  rw [← map_fst_declaredAliases, List.lookup_eq_none_iff, List.mem_map]
  simp only [bne_iff_ne, not_exists, not_and]
  exact forall₂_congr fun _ _ => ne_comm

/-! ### Adding aliases -/

/-- The alias of a table is also the name of another one, with or without its schema. -/
def Table.AliasNames (t u : Table) : Prop :=
  ∃ a, t.shorthand = some a ∧ (u.name = a ∨ u.id = a)

theorem namesake?_eq_none_iff {tables : List Table} {own : Nat} {name : String} :
    namesake? tables own name = none ↔
      ∀ j u, tables[j]? = some u → j ≠ own → u.name ≠ name ∧ u.id ≠ name := by
  simp only [namesake?, Option.map_eq_none_iff, List.find?_eq_none, Prod.forall,
    List.mk_mem_zipIdx_iff_getElem?, Bool.and_eq_true, bne_iff_ne, Bool.or_eq_true, beq_iff_eq,
    not_and, not_or]
  exact forall_comm

/-- An alias can be added when it is neither taken nor the name of another table. -/
theorem addAlias_eq_ok_iff {tables : List Table} {known known' : Aliases} {t : Table} {own : Nat} :
    addAlias tables known t own = .ok known' ↔
      known' = known ++ declaredAliases [t] ∧
        ∀ a, t.shorthand = some a → known.lookup a = none ∧ namesake? tables own a = none := by
  unfold addAlias
  cases hs : t.shorthand with
  | none =>
    have hnone : declaredAliases [t] = [] := by simp [declaredAliases, hs]
    simp only [hnone, List.append_nil, Except.ok.injEq, reduceCtorEq, false_implies, implies_true,
      and_true]
    exact eq_comm
  | some a =>
    have hone : declaredAliases [t] = [(a, t.id)] := by simp [declaredAliases, hs]
    simp only [hone, Option.some.injEq, forall_eq']
    cases known.lookup a with
    | some previous => simp
    | none =>
      cases namesake? tables own a with
      | some other => simp
      | none =>
        simp only [Except.ok.injEq, and_true]
        exact eq_comm

/-- The aliases of a row of tables can be added one after the other when they differ and none is the
name of another table. -/
theorem foldlM_addAlias_eq_ok_iff {tables : List Table} {row : List (Table × Nat)}
    {known : Aliases} :
    row.foldlM (fun known (t, own) => addAlias tables known t own) [] = .ok known ↔
      known = declaredAliases (row.map Prod.fst) ∧
        ((row.map Prod.fst).filterMap Table.shorthand).Nodup ∧
        ∀ t own, (t, own) ∈ row → ∀ a, t.shorthand = some a → namesake? tables own a = none := by
  -- Aliases are added behind the others, so the last table is the one that is new.
  induction row using List.reverseRecOn generalizing known with
  | nil =>
    rw [List.foldlM_nil, pure_eq_ok_iff]
    simp [declaredAliases, eq_comm]
  | append_singleton row last ih =>
    obtain ⟨t, own⟩ := last
    simp only [List.foldlM_append, List.foldlM_cons, List.foldlM_nil, bind_eq_ok_iff,
      pure_eq_ok_iff, ih, addAlias_eq_ok_iff, declaredAliases_append, List.mem_append,
      List.mem_singleton, Prod.mk.injEq, List.map_append, List.map_cons, List.map_nil,
      List.filterMap_append, List.nodup_append]
    constructor
    · rintro ⟨_, ⟨rfl, hnodup, hfree⟩, _, ⟨rfl, hlast⟩, rfl⟩
      refine ⟨rfl, ⟨hnodup, ?_, ?_⟩, ?_⟩
      · cases hs : t.shorthand <;> simp [hs]
      · intro a ha b hb
        simp only [List.mem_filterMap, List.mem_singleton, exists_eq_left] at hb
        have hnew := lookup_declaredAliases_eq_none_iff.mp (hlast b hb).1
        rintro rfl
        exact hnew ha
      · rintro u i (hu | ⟨rfl, rfl⟩) a ha
        · exact hfree u i hu a ha
        · exact (hlast a ha).2
    · rintro ⟨rfl, ⟨hnodup, -, hnew⟩, hfree⟩
      refine ⟨_, ⟨rfl, hnodup, fun u i hu => hfree u i (.inl hu)⟩, _, ⟨rfl, fun a ha => ?_⟩, rfl⟩
      have hlookup : (declaredAliases (row.map Prod.fst)).lookup a = none := by
        rw [lookup_declaredAliases_eq_none_iff]
        intro hmem
        exact hnew a hmem a (by simp [ha]) rfl
      exact ⟨hlookup, hfree t own (.inr ⟨rfl, rfl⟩) a ha⟩

/-- **The aliases of tables can be told apart** when they differ and none is the name of a different
table. -/
theorem aliases_eq_ok_iff {tables : List Table} {known : Aliases} :
    aliases tables = .ok known ↔
      known = declaredAliases tables ∧ (tables.filterMap Table.shorthand).Nodup ∧
        tables.Pairwise fun t u => ¬ t.AliasNames u ∧ ¬ u.AliasNames t := by
  rw [aliases, foldlM_addAlias_eq_ok_iff, List.zipIdx_map_fst]
  refine and_congr_right fun _ => and_congr_right fun _ => ?_
  simp only [List.mk_mem_zipIdx_iff_getElem?, namesake?_eq_none_iff]
  constructor
  · intro h
    rw [List.pairwise_iff_getElem]
    intro i j hi hj hij
    refine ⟨?_, ?_⟩
    · rintro ⟨a, ha, hname⟩
      have := h _ i (List.getElem?_eq_getElem hi) a ha j _ (List.getElem?_eq_getElem hj) (by omega)
      exact hname.elim this.1 this.2
    · rintro ⟨a, ha, hname⟩
      have := h _ j (List.getElem?_eq_getElem hj) a ha i _ (List.getElem?_eq_getElem hi) (by omega)
      exact hname.elim this.1 this.2
  · intro h t i ht a ha j u hu hne
    rw [List.pairwise_iff_getElem] at h
    obtain ⟨hi, rfl⟩ := List.getElem?_eq_some_iff.mp ht
    obtain ⟨hj, rfl⟩ := List.getElem?_eq_some_iff.mp hu
    rw [← not_or]
    intro hname
    rcases Nat.lt_or_gt_of_ne hne with hlt | hgt
    · exact (h j i hj hi hlt).2 ⟨a, ha, hname⟩
    · exact (h i j hi hj hgt).1 ⟨a, ha, hname⟩

/-- The aliases known to a compilation are those that the tables declare. -/
theorem aliases_eq {tables : List Table} {known : Aliases} (h : aliases tables = .ok known) :
    known = declaredAliases tables :=
  (aliases_eq_ok_iff.mp h).1

/-- Aliases are a matter of names, aliases and lines. -/
theorem aliases_map {f : Table → Table} {tables : List Table}
    (hshorthand : ∀ t, (f t).shorthand = t.shorthand)
    (hname : ∀ t, (f t).name = t.name) (hid : ∀ t, (f t).id = t.id)
    (hline : ∀ t, (f t).line = t.line) : aliases (tables.map f) = aliases tables := by
  have hnamesake : ∀ own name, namesake? (tables.map f) own name =
      (namesake? tables own name).map f := by
    intro own name
    rw [namesake?, namesake?, List.zipIdx_map, List.find?_map, Option.map_map, Option.map_map]
    congr 1
    apply congrArg (List.find? · tables.zipIdx)
    funext p
    simp [hname, hid]
  have hadd : ∀ known t own, addAlias (tables.map f) known (f t) own =
      addAlias tables known t own := by
    intro known t own
    rw [addAlias, addAlias, hshorthand, hid, hline]
    cases t.shorthand with
    | none => rfl
    | some a =>
      dsimp only
      rw [hnamesake]
      cases namesake? tables own a with
      | none => rfl
      | some other => simp only [Option.map_some, hid]
  rw [aliases, aliases, List.zipIdx_map, List.foldlM_map]
  congr 1
  funext known p
  exact hadd known p.1 p.2

end SchemaGraph
