import SchemaGraph.Proofs.TraversedReaders

/-!
# Balanced documents

Whoever lints a text counts braces as they stand there, and knows nothing of the grammar. The
grammar opens and closes braces in notes, in lists of indexes and of references and in the bodies of
declarations, and nowhere takes one for anything else, so that the braces of a document are balanced
as tokens. Where a document has no braces but these, in no comment, no string and no quoted name,
nothing is reported of them.
-/

namespace SchemaGraph

/-- Where all braces of a text are tokens, they nest as the tokens do. -/
theorem Scan.nests_of_count {text : String} {lexemes : List Lexeme} (h : scan text = .ok lexemes)
    (hnests : Nests 0 (lexemes.map Lexeme.token) 0)
    (hopen : text.toList.count '\x7b' = (lexemes.map Lexeme.token).count .openBrace)
    (hclose : text.toList.count '\x7d' = (lexemes.map Lexeme.token).count .closeBrace) :
    Nests 0 (text.toList.filterMap braceMark?) 0 := by
  rw [scan_eq] at h
  obtain ⟨s, hs, rfl⟩ := map_eq_ok_iff.mp h
  have hfound : (((s.tokens ++ [Lexeme.mk .endOfText s.line]).map Lexeme.token).filter
      Token.isBrace).Sublist (text.toList.filterMap braceMark?) := by
    have hend : [Token.endOfText].filter Token.isBrace = [] := rfl
    rw [List.map_append, List.filter_append, List.map_singleton, hend, List.append_nil]
    exact braces_ofText hs
  rw [← braceMarks_eq_of_count hfound hopen hclose]
  exact Nests.filter_iff.mpr hnests

/-- **The braces of a document are balanced.** Nowhere among its tokens are more braces closed than
opened, and in the end as many; and if all braces of the text are tokens, a count of them finds
nothing amiss. -/
theorem Document.braces_balanced {dialect : Dialect} {text : String} {d : Document}
    (h : parse dialect text = .ok d) :
    ∃ lexemes, scan text = .ok lexemes ∧ Balanced (lexemes.map Lexeme.token) ∧
      (text.toList.count '\x7b' = (lexemes.map Lexeme.token).count .openBrace →
        text.toList.count '\x7d' = (lexemes.map Lexeme.token).count .closeBrace →
          balance text = []) := by
  obtain ⟨lexemes, hscan, hnests⟩ := nests_of_parse h
  refine ⟨lexemes, hscan, hnests.balanced, fun hopen hclose => ?_⟩
  apply balance_of_nests
  exact Scan.nests_of_count hscan hnests hopen hclose

/-- A table with a list of indexes and a note, and a list of references. -/
def nestedBlocks : String :=
  "Table t \x7b id int\nindexes \x7b id \x7d\nnote \x7b 'a' \x7d \x7d\nRef \x7b t.id > t.id \x7d"

theorem Document.braces_balanced_nestedBlocks :
    ∃ d lexemes, parse .partials nestedBlocks = .ok d ∧ scan nestedBlocks = .ok lexemes ∧
      Balanced (lexemes.map Lexeme.token) ∧ (lexemes.map Lexeme.token).count .openBrace = 4 ∧
      balance nestedBlocks = [] := by
  have hparse : (parse .partials nestedBlocks).toOption.map (fun d => d.tables.length) =
      some 1 := by
    decide +kernel
  have hcounts : (scan nestedBlocks).map (fun lexemes =>
      ((lexemes.map Lexeme.token).count .openBrace,
        (lexemes.map Lexeme.token).count .closeBrace)) = .ok (4, 4) := by
    decide +kernel
  obtain ⟨d, hd, -⟩ := exists_ok_of_map_toOption hparse
  obtain ⟨lexemes, hscan, hbalanced, hquiet⟩ := braces_balanced hd
  rw [hscan] at hcounts
  obtain ⟨hopen, hclose⟩ := Prod.mk.inj (Except.ok.inj hcounts)
  refine ⟨d, lexemes, hd, hscan, hbalanced, hopen, hquiet ?_ ?_⟩
  · rw [hopen]
    decide +kernel
  · rw [hclose]
    decide +kernel

end SchemaGraph
