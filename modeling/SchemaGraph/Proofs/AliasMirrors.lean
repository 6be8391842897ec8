import SchemaGraph.Catalog.Suggestion
import SchemaGraph.Proofs.Outlines

/-!
# Aliases in outlines

In the outline of a text an alias has the columns that its table had when the alias was resolved. If
nothing is listed under the name of the table later, the alias mirrors the table: the same columns
are listed under both names, and the same is suggested behind them. But a quoted alias can be called
like a table. Then it takes the place of the table in the outline, and aliases that were resolved
before it keep the columns that were there (`Catalog.alias_mirrors_iff`).
-/

namespace SchemaGraph

/-! ### Suggestions behind a dot -/

theorem splitAtLastDot?_append {start : String} (h : '.' ∉ start.toList) (table : String) :
    splitAtLastDot? (table ++ "." ++ start) = some (table, start) := by
  have hdot : splitAtLastDot? (table ++ ".") = some (table, "") := by simp [splitAtLastDot?]
  rw [splitAtLastDot?_append_right h, hdot]
  simp

namespace Catalog

/-- Behind a listed name and a dot, the columns are suggested that are listed under the name. -/
theorem map_label_suggest {c : Catalog} {table : String} {columns : List String}
    (hcolumns : c.columns? table = some columns) {start : String} (hstart : '.' ∉ start.toList)
    (explicit : Bool) : (c.suggest (table ++ "." ++ start) explicit).map Suggestion.label =
      columns.filter (Text.beginsWith · start) := by
  have htyped : table ++ "." ++ start ≠ "" := by
    intro h
    have hchars := congrArg String.toList h
    simp at hchars
  have hresolve : c.resolve? table = some (table, columns) := by
    unfold columns? at hcolumns
    rw [resolve?, List.findSome?_cons, hcolumns]
    rfl
  have hqualified : c.qualified? (table ++ "." ++ start) = some ((table, columns), start) := by
    simp only [qualified?, splitAtLastDot?_append hstart, Option.bind_eq_bind, Option.bind_some,
      hresolve, Option.pure_def]
  rw [suggest, if_neg fun h => htyped h.1, hqualified]
  dsimp only
  rw [suggestFields, List.map_map]
  exact List.map_id _

/-- **An alias mirrors a table**: the same columns are listed under both names, and whatever part of
a column is typed behind them, the same is suggested. -/
def Mirrors (c : Catalog) (shorthand table : String) : Prop :=
  c.columns? shorthand = c.columns? table ∧
    ∀ (start : String) (explicit : Bool), '.' ∉ start.toList →
      (c.suggest (shorthand ++ "." ++ start) explicit).map Suggestion.label =
        (c.suggest (table ++ "." ++ start) explicit).map Suggestion.label

/-- An alias of a listed table mirrors it when the same columns are listed under both names. -/
theorem mirrors_iff {c : Catalog} {shorthand table : String} (h : table ∈ c.tables.names) :
    c.Mirrors shorthand table ↔ c.columns? shorthand = c.columns? table := by
  refine ⟨And.left, fun hsame => ⟨hsame, fun start explicit hstart => ?_⟩⟩
  obtain ⟨columns, hcolumns⟩ := OrderedMap.mem_names_iff.mp h
  rw [map_label_suggest (hsame.trans hcolumns) hstart, map_label_suggest hcolumns hstart]

/-! ### The aliases of an outline -/

/-- Every alias stands for a table that is listed, under a name with a dot. -/
def AliasesListed (c : Catalog) : Prop :=
  ∀ shorthand table, c.aliases.get? shorthand = some table →
    table ∈ c.tables.names ∧ '.' ∈ table.toList

/-- A heading lists the table that its alias stands for. -/
theorem AliasesListed.noteHeading {c : Catalog} (hc : AliasesListed c) (h : Heading) :
    AliasesListed (Outline.noteHeading c h) := by
  have hid : '.' ∈ h.id.toList := by simp [Heading.id, qualify]
  intro shorthand table hget
  have hkept : c.aliases.get? shorthand = some table →
      table ∈ (Outline.noteHeading c h).tables.names ∧ '.' ∈ table.toList := by
    intro hold
    refine ⟨OrderedMap.mem_names_insert.mpr (.inr ?_), (hc shorthand table hold).2⟩
    cases h.shorthand <;> exact (hc shorthand table hold).1
  unfold Outline.noteHeading at hget
  cases hshorthand : h.shorthand with
  | none =>
    rw [hshorthand] at hget
    exact hkept hget
  | some a =>
    rw [hshorthand] at hget
    have hinsert : (c.aliases.insert a h.id).get? shorthand = some table := hget
    rw [OrderedMap.get?_insert] at hinsert
    split_ifs at hinsert
    · cases hinsert
      exact ⟨OrderedMap.mem_names_insert.mpr (.inl rfl), hid⟩
    · exact hkept hinsert

theorem AliasesListed.addColumn {c : Catalog} (hc : AliasesListed c) (opened column : String) :
    AliasesListed (c.addColumn opened column) := by
  intro shorthand table hget
  rw [Catalog.addColumn, OrderedMap.names_modify]
  exact hc shorthand table hget

/-- What the lines of a text list, before aliases are resolved. -/
def listedIn (text : String) : Catalog :=
  (Outline.ofLines (Text.lines text.toList)).catalog

theorem aliasesListed_listedIn (text : String) : AliasesListed (listedIn text) :=
  Outline.invariant_ofLines nofun (fun _ h hc => hc.noteHeading h)
    fun _ _ _ opened column _ _ _ hc => hc.addColumn opened column

theorem aliases_outline (text : String) : (outline text).aliases = (listedIn text).aliases :=
  aliases_resolveAll _ _

theorem outline_eq_resolveAll (text : String) :
    outline text = (listedIn text).resolveAll (outline text).aliases.entries := by
  rw [aliases_outline]
  rfl

section Aliases

variable {text shorthand table : String} {before after : List (String × String)}

/-- The aliases in front of an alias and those behind it are other ones. -/
theorem not_mem_after (h : (outline text).aliases.entries = before ++ (shorthand, table) :: after) :
    shorthand ∉ after.map Prod.fst := by
  have hdistinct := (outline text).aliases.distinct
  rw [h, List.map_append, List.map_cons] at hdistinct
  exact (List.nodup_cons.mp (List.nodup_append.mp hdistinct).2.1).1

theorem listed_of_alias
    (h : (outline text).aliases.entries = before ++ (shorthand, table) :: after) :
    table ∈ (listedIn text).tables.names ∧ '.' ∈ table.toList := by
  have hmem : (shorthand, table) ∈ (listedIn text).aliases.entries := by
    rw [← aliases_outline, h]
    exact List.mem_append_right _ List.mem_cons_self
  exact aliasesListed_listedIn text shorthand table
    (lookup_of_mem (listedIn text).aliases.distinct hmem)

/-- An alias has the columns that its table had at its turn. -/
theorem columns?_alias
    (h : (outline text).aliases.entries = before ++ (shorthand, table) :: after) :
    (outline text).columns? shorthand = ((listedIn text).resolveAll before).columns? table := by
  rw [outline_eq_resolveAll, h]
  exact get?_resolveAll_append_cons (listed_of_alias h).1 (not_mem_after h)

/-- A table has the columns that it had at the turn of its alias, unless a later alias is called
like the table. -/
theorem columns?_table_of_not_mem
    (h : (outline text).aliases.entries = before ++ (shorthand, table) :: after)
    (hlast : table ∉ after.map Prod.fst) :
    (outline text).columns? table = ((listedIn text).resolveAll before).columns? table := by
  have hlisted : table ∈ ((listedIn text).resolveAll before).tables.names :=
    mem_names_resolveAll (listed_of_alias h).1
  obtain ⟨columns, hcolumns⟩ := OrderedMap.mem_names_iff.mp hlisted
  have hturn := get?_resolveAlias (k := table) ((listedIn text).resolveAll before)
    (shorthand, table)
  rw [hcolumns, Option.some_or, ite_self] at hturn
  rw [outline_eq_resolveAll, h, resolveAll_append, resolveAll, List.foldl_cons]
  exact (get?_resolveAll_of_not_mem hlast).trans (hturn.trans hcolumns.symm)

/-- **An alias mirrors its table** in an outline, unless a later alias is called like the table,
which has a dot in its name, and stands for a table that has other columns at its own turn. -/
theorem alias_mirrors_iff
    (h : (outline text).aliases.entries = before ++ (shorthand, table) :: after) :
    table ∈ (outline text).tables.names ∧ '.' ∈ table.toList ∧
      ((outline text).Mirrors shorthand table ↔
        ∀ between other rest, after = between ++ (table, other) :: rest →
          ((listedIn text).resolveAll (before ++ (shorthand, table) :: between)).columns? other =
            ((listedIn text).resolveAll before).columns? table) := by
  have hlisted : table ∈ (outline text).tables.names := by
    rw [outline_eq_resolveAll]
    exact mem_names_resolveAll (listed_of_alias h).1
  refine ⟨hlisted, (listed_of_alias h).2, ?_⟩
  rw [mirrors_iff hlisted, columns?_alias h]
  constructor
  · rintro hsame between other rest rfl
    have hsplit : (outline text).aliases.entries =
        (before ++ (shorthand, table) :: between) ++ (table, other) :: rest := by
      rw [h, List.append_assoc, List.cons_append]
    rw [← columns?_alias hsplit, ← hsame]
  · intro hlater
    by_cases hlast : table ∈ after.map Prod.fst
    · obtain ⟨⟨name, other⟩, hmem, hname⟩ := List.mem_map.mp hlast
      have hname : table = name := hname.symm
      subst hname
      obtain ⟨between, rest, rfl⟩ := List.append_of_mem hmem
      have hsplit : (outline text).aliases.entries =
          (before ++ (shorthand, table) :: between) ++ (table, other) :: rest := by
        rw [h, List.append_assoc, List.cons_append]
      rw [columns?_alias hsplit]
      exact (hlater between other rest rfl).symm
    · exact (columns?_table_of_not_mem h hlast).symm

end Aliases

/-- Two aliases, the later one called like the table of the first. -/
def overwritingText : String :=
  "Table a as x \x7b\n  c int\n\x7d\nTable b as \"public.a\" \x7b\n  d int\n\x7d\n"

/-- The later alias mirrors its table, and the first one does not. -/
theorem alias_mirrors_iff_overwriting :
    (outline overwritingText).aliases.entries = [("x", "public.a"), ("public.a", "public.b")] ∧
      ¬ (outline overwritingText).Mirrors "x" "public.a" ∧
      (outline overwritingText).Mirrors "public.a" "public.b" := by
  have hentries : (outline overwritingText).aliases.entries =
      [("x", "public.a"), ("public.a", "public.b")] := by decide +kernel
  have hone : (outline overwritingText).aliases.entries =
      [] ++ ("x", "public.a") :: [("public.a", "public.b")] := hentries
  have htwo : (outline overwritingText).aliases.entries =
      [("x", "public.a")] ++ ("public.a", "public.b") :: [] := hentries
  obtain ⟨-, -, hfirst⟩ := alias_mirrors_iff hone
  obtain ⟨-, -, hlater⟩ := alias_mirrors_iff htwo
  refine ⟨hentries, fun hmirrors => ?_, hlater.mpr ?_⟩
  · have hcolumns := hfirst.mp hmirrors [] "public.b" [] rfl
    revert hcolumns
    decide +kernel
  · intro between other rest hnothing
    cases between <;> cases hnothing

/-- The first alias keeps the columns that its table had before the later one was resolved. -/
theorem alias_outlives_table :
    ("x", "public.a") ∈ (outline overwritingText).aliases.entries ∧
      (outline overwritingText).columns? "x" = some ["c"] ∧
      (outline overwritingText).columns? "public.a" = some ["d"] ∧
      ((outline overwritingText).suggest "x." false).map Suggestion.label = ["c"] ∧
      ((outline overwritingText).suggest "public.a." false).map Suggestion.label = ["d"] := by
  decide +kernel

end Catalog

end SchemaGraph
