import SchemaGraph.Catalog.Suggestion
import SchemaGraph.Proofs.LineRanges

/-!
# Suggestions while typing goes on

Every suggestion is one of the things on offer that begin with what is typed. What is on offer
depends only on the table before the last dot, if it is one, and more text without a dot leaves that
table as it is. So whoever types on is suggested a part of what was suggested before, in the same
order: what begins with the longer text (`Catalog.suggest_narrows`).
-/

namespace SchemaGraph

/-! ### Words that begin with a text -/

namespace Text

theorem utf8Size_toLower (c : Char) : c.toLower.utf8Size = c.utf8Size := by
  unfold Char.toLower
  split
  · -- an ASCII letter of either case takes one byte
    have hc : c.utf8Size = 1 := by
      rw [Char.utf8Size_eq_one_iff]
      grind
    rw [hc, Char.utf8Size_eq_one_iff]
    grind
  · rfl

/-- Case takes no bytes. -/
theorem byteLength_map_toLower (cs : List Char) :
    byteLength (cs.map Char.toLower) = byteLength cs := by
  induction cs with
  | nil => rfl
  | cons c cs ih => rw [List.map_cons, byteLength, byteLength, utf8Size_toLower, ih]

theorem utf8ByteSize_eq_of_sameWord {a b : String} (h : sameWord a b = true) :
    a.utf8ByteSize = b.utf8ByteSize := by
  rw [utf8ByteSize_eq_byteLength, utf8ByteSize_eq_byteLength, ← byteLength_map_toLower,
    beq_iff_eq.mp h, byteLength_map_toLower]

/-- **A word begins with a text** exactly if its front of as many bytes ends with a whole character
and is the same word. -/
theorem beginsWith_iff {word start : String} : beginsWith word start = true ↔
    ∃ head rest, word = head ++ rest ∧ head.utf8ByteSize = start.utf8ByteSize ∧
      sameWord head start = true := by
  rw [beginsWith, List.isPrefixOf_iff_prefix]
  constructor
  · rintro ⟨others, hothers⟩
    obtain ⟨head, rest, hword, hhead, -⟩ := List.map_eq_append_iff.mp hothers.symm
    have hsame : sameWord (String.ofList head) start = true := by
      rw [sameWord, String.toList_ofList, hhead]
      exact beq_self_eq_true _
    refine ⟨String.ofList head, String.ofList rest, ?_, utf8ByteSize_eq_of_sameWord hsame, hsame⟩
    rw [← String.ofList_append, ← hword, String.ofList_toList]
  · rintro ⟨head, rest, rfl, -, hsame⟩
    rw [String.toList_append, List.map_append, beq_iff_eq.mp hsame]
    exact List.prefix_append _ _

/-- A word that begins with a text begins with the front of that text. -/
theorem beginsWith_of_append {word start more : String}
    (h : beginsWith word (start ++ more) = true) : beginsWith word start = true := by
  rw [beginsWith, List.isPrefixOf_iff_prefix] at h ⊢
  rw [String.toList_append, List.map_append] at h
  exact (List.prefix_append _ _).trans h

end Text

/-! ### What is on offer -/

/-- Whether a suggestion begins with a text. A table may do so without its schema. -/
def Suggestion.fits (start : String) (s : Suggestion) : Bool :=
  Text.beginsWith s.label start ||
    (s.kind == .table && Text.beginsWith (bareName s.label) start)

theorem Suggestion.fits_of_append {start more : String} {s : Suggestion}
    (h : s.fits (start ++ more) = true) : s.fits start = true := by
  rw [fits, Bool.or_eq_true, Bool.and_eq_true] at h ⊢
  exact h.imp Text.beginsWith_of_append (And.imp_right Text.beginsWith_of_append)

namespace Catalog

/-- What can be suggested: the columns of a table that is given, and otherwise the keywords, all
tables and the columns of all tables. -/
def offers (c : Catalog) : Option (String × List String) → List Suggestion
  | some (table, columns) => columns.map (Suggestion.field · table)
  | none =>
    suggestedKeywords.map .keyword ++ c.tables.names.map .table
      ++ c.tables.entries.flatMap fun (table, columns) => columns.map (Suggestion.field · table)

/-- The table whose columns alone can follow what is typed, if there is one. -/
def qualifier? (c : Catalog) (typed : String) : Option (String × List String) :=
  (c.qualified? typed).map Prod.fst

/-- The part of what is typed with which suggestions begin. -/
def startOf (c : Catalog) (typed : String) : String :=
  ((c.qualified? typed).map Prod.snd).getD typed

variable {c : Catalog} {typed more : String} {explicit : Bool}

theorem suggestFields_eq (table : String) (columns : List String) (start : String) :
    suggestFields table columns start =
      (columns.map (Suggestion.field · table)).filter (·.fits start) := by
  have hfits : (fun s : Suggestion => s.fits start) ∘ (Suggestion.field · table) =
      (Text.beginsWith · start) := by
    funext column
    exact Bool.or_false _
  rw [suggestFields, List.filter_map, hfits]

theorem suggestAll_eq (c : Catalog) (start : String) :
    c.suggestAll start = (c.offers none).filter (·.fits start) := by
  have hkeyword : (fun s : Suggestion => s.fits start) ∘ Suggestion.keyword =
      (Text.beginsWith · start) := by
    funext keyword
    exact Bool.or_false _
  rw [suggestAll, offers, List.filter_append, List.filter_append, List.filter_map, hkeyword,
    List.filter_map, List.filter_flatMap]
  simp only [suggestFields_eq]
  rfl

/-- Where something is typed or asked for, what fits is suggested of what is on offer. -/
theorem suggest_eq (hasked : typed ≠ "" ∨ explicit = true) :
    c.suggest typed explicit =
      (c.offers (c.qualifier? typed)).filter (·.fits (c.startOf typed)) := by
  have hnot : ¬ (typed = "" ∧ (!explicit) = true) := by
    rintro ⟨htyped, hexplicit⟩
    simp [htyped] at hasked
    simp [hasked] at hexplicit
  rw [suggest, if_neg hnot, qualifier?, startOf]
  cases c.qualified? typed with
  | none => exact suggestAll_eq c typed
  | some found => exact suggestFields_eq _ _ _

/-- More text without a dot leaves the table before the last dot as it is. -/
theorem qualified?_append (hmore : '.' ∉ more.toList) :
    c.qualified? (typed ++ more) =
      (c.qualified? typed).map fun found => (found.1, found.2 ++ more) := by
  rw [qualified?, qualified?, splitAtLastDot?_append_right hmore]
  cases splitAtLastDot? typed with
  | none => rfl
  | some parts => cases hresolve : c.resolve? parts.1 <;> simp [hresolve]

/-- **Typing on narrows the suggestions.** Let something be typed or asked for. With more text that
has no dot in it, what is suggested is a part of what was suggested before, in the same order: that
which begins with the longer text. -/
theorem suggest_narrows (c : Catalog) {typed more : String} {explicit : Bool}
    (hasked : typed ≠ "" ∨ explicit = true) (hmore : '.' ∉ more.toList) :
    (c.suggest (typed ++ more) explicit).Sublist (c.suggest typed explicit) ∧
      c.suggest (typed ++ more) explicit =
        (c.suggest typed explicit).filter (·.fits (c.startOf typed ++ more)) := by
  have hlonger : typed ++ more ≠ "" ∨ explicit = true := by
    refine hasked.imp_left fun htyped hempty => htyped ?_
    exact (String.append_eq_empty_iff.mp hempty).1
  have hqualifier : c.qualifier? (typed ++ more) = c.qualifier? typed := by
    rw [qualifier?, qualified?_append hmore, Option.map_map]
    rfl
  have hstart : c.startOf (typed ++ more) = c.startOf typed ++ more := by
    rw [startOf, startOf, qualified?_append hmore]
    cases c.qualified? typed <;> rfl
  have hfilter : c.suggest (typed ++ more) explicit =
      (c.suggest typed explicit).filter (·.fits (c.startOf typed ++ more)) := by
    rw [suggest_eq hlonger, suggest_eq hasked, hqualifier, hstart, List.filter_filter]
    refine List.filter_congr fun s _ => ?_
    cases hfits : s.fits (c.startOf typed ++ more) with
    | false => rfl
    | true => exact (Suggestion.fits_of_append hfits).symm
  refine ⟨?_, hfilter⟩
  rw [hfilter]
  exact List.filter_sublist

/-- Two tables, one of them in another schema, and names with letters of two bytes. -/
def shopCatalog : Catalog :=
  let tables := empty.addTable "public.Größen" ["id", "Größe", "grob"]
  (tables.addTable "lager.groß" ["GRÖẞE"]).addAlias "g" "public.Größen"

/-- Behind an alias only columns are suggested, and with a letter of two bytes one of them is left.
Without a qualifier the tables stay that begin with the letters behind their schemas. -/
theorem suggest_narrows_shop :
    (("g.gr" ≠ "" ∨ false = true) ∧ '.' ∉ "ö".toList ∧
      (shopCatalog.suggest "g.gr" false).map Suggestion.label = ["Größe", "grob"] ∧
      (shopCatalog.suggest ("g.gr" ++ "ö") false).map Suggestion.label = ["Größe"] ∧
      (shopCatalog.suggest ("g.gr" ++ "ö") false).Sublist (shopCatalog.suggest "g.gr" false)) ∧
    (("" ≠ "" ∨ true = true) ∧ '.' ∉ "GR".toList ∧
      (shopCatalog.suggest ("" ++ "GR") true).map Suggestion.label =
        ["public.Größen", "lager.groß", "Größe", "grob", "GRÖẞE"] ∧
      (shopCatalog.suggest ("" ++ "GR") true).Sublist (shopCatalog.suggest "" true)) := by
  have htyped : "g.gr" ≠ "" ∨ false = true := .inl (by decide)
  have hasked : "" ≠ "" ∨ true = true := .inr rfl
  have hö : '.' ∉ "ö".toList := by decide
  have hGR : '.' ∉ "GR".toList := by decide
  exact ⟨⟨htyped, hö, by decide +kernel, by decide +kernel,
      (shopCatalog.suggest_narrows htyped hö).1⟩,
    ⟨hasked, hGR, by decide +kernel, (shopCatalog.suggest_narrows hasked hGR).1⟩⟩

end Catalog

end SchemaGraph
