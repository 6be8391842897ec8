import SchemaGraph.Proofs.PartedTexts
import SchemaGraph.Proofs.RoutineReaders

/-!
# The parser makes progress

From every place among lexemes with one mark of the end, a round of a loop of the grammar stops with
an error or leaves fewer tokens to read (`parser_progresses`). So the loops need no bound: the
routine of a document, in which they have none, ends with what the parser returns, after no more
rounds than there are lexemes. It does not matter where the lexemes are cut off, as long as a mark
of the end is behind them.
-/

namespace SchemaGraph

variable {lexemes : List Lexeme} {c : Cursor}

/-- The last lexeme is the only mark of the end. -/
def EndsOnce (lexemes : List Lexeme) : Prop :=
  ∃ tokens endLine, lexemes = tokens ++ [⟨.endOfText, endLine⟩] ∧
    ∀ x ∈ tokens, x.token ≠ .endOfText

/-- What a text is scanned to ends once. -/
theorem EndsOnce.of_scan {text : String} (h : scan text = .ok lexemes) : EndsOnce lexemes :=
  (Whole.of_scan h).ended

/-- The mark of the end is ahead of every place before it. -/
theorem EndsOnce.closed (h : EndsOnce lexemes) (hc : c.ahead <:+ lexemes) (hmore : c.ahead ≠ []) :
    c.Closed := by
  obtain ⟨tokens, endLine, rfl, -⟩ := h
  have hlast := hc.getLast hmore
  rw [List.getLast_append_singleton] at hlast
  exact ⟨c.ahead.getLast hmore, List.getLast_mem hmore, by rw [hlast]⟩

/-- Behind the last lexeme a round of a loop finds nothing to take. -/
theorem Loop.error_of_ahead_nil {α : Type} (l : Loop α) (h : l.condition c = true)
    (hnil : c.ahead = []) : ∃ e, l.reader c = .error e := by
  obtain ⟨_, line⟩ := c
  cases hnil
  cases l with
  | projectEntries | bodyEntries | columnSettings | settings | indexes | refs | enumValues =>
    exact ⟨_, rfl⟩
  | _ => cases h

theorem Document.ofLexemes_eq (dialect : Dialect) (lexemes : List Lexeme) :
    ofLexemes dialect lexemes = (Reader.document dialect ⟨lexemes, 1⟩).map Prod.fst := by
  rw [ofLexemes, Reader.document, Reader.bind_apply]
  cases Reader.declarations dialect ⟨lexemes, 1⟩ <;> rfl

/-- **The parser makes progress.** From every place among lexemes with one mark of the end, each
round of each loop stops with an error or leaves fewer tokens to read, not counting the mark of the
end. So a parser whose loops have no bound ends in the one way in which the parser ends, and the
rounds of all its loops are no more than the lexemes. -/
theorem parser_progresses (h : EndsOnce lexemes) :
    (∀ {α : Type} (l : Loop α) (c : Cursor), c.ahead <:+ lexemes → l.condition c = true →
      (∃ e, l.reader c = .error e) ∨ ∃ a c', l.reader c = .ok (a, c') ∧ c'.unread < c.unread) ∧
    ∀ dialect, ∃ o n, n ≤ lexemes.length ∧ Document.ofLexemes dialect lexemes = o.map Prod.fst ∧
      ∀ o' n', (Routine.document dialect).Ends ⟨lexemes, 1⟩ o' n' ↔ o' = o ∧ n' = n := by
  refine ⟨fun l c hc hcondition => ?_, fun dialect => ?_⟩
  · by_cases hnil : c.ahead = []
    · exact .inl (l.error_of_ahead_nil hcondition hnil)
    · have hclosed := h.closed hc hnil
      cases hread : l.reader c with
      | error e => exact .inl ⟨e, rfl⟩
      | ok read =>
        obtain ⟨a, c'⟩ := read
        obtain ⟨-, -, n, -, hn⟩ := (l.performs hcondition).ok hclosed hread
        exact .inr ⟨a, c', rfl, by omega⟩
  · have hmore : lexemes ≠ [] := by
      obtain ⟨tokens, endLine, rfl, -⟩ := h
      simp
    have hclosed : Cursor.Closed ⟨lexemes, 1⟩ := h.closed List.suffix_rfl hmore
    have hunread : Cursor.unread ⟨lexemes, 1⟩ < lexemes.length := hclosed.unread_lt
    obtain ⟨n, hends, hn⟩ := (Reader.performs_document dialect).ends hclosed
    refine ⟨_, n, by omega, Document.ofLexemes_eq dialect lexemes, fun o' n' => ⟨hends.unique, ?_⟩⟩
    rintro ⟨rfl, rfl⟩
    exact hends

/-- The tokens of a table that is cut off behind a comma between the columns of an index. -/
def cutOffIndex : List Lexeme :=
  [⟨.name "Table", 1⟩, ⟨.name "t", 1⟩, ⟨.openBrace, 1⟩, ⟨.name "indexes", 1⟩, ⟨.openBrace, 1⟩,
    ⟨.openParen, 2⟩, ⟨.name "a", 2⟩, ⟨.comma, 2⟩, ⟨.endOfText, 2⟩]

/-- The comma is taken, and the parser stops at the mark of the end. -/
theorem parser_progresses_cutOffIndex : EndsOnce cutOffIndex ∧
    (∃ c', Loop.indexColumns.reader ⟨cutOffIndex.drop 7, 2⟩ = .ok (none, c') ∧ c'.unread < 1) ∧
    ∃ n ≤ 9, (Routine.document .partials).Ends ⟨cutOffIndex, 1⟩
      (.error (.unexpected .endOfText .indexColumn 2)) n := by
  have hends : EndsOnce cutOffIndex := ⟨cutOffIndex.take 8, 2, rfl, by decide⟩
  obtain ⟨hrounds, hparser⟩ := parser_progresses hends
  refine ⟨hends, ?_, ?_⟩
  · rcases hrounds .indexColumns ⟨cutOffIndex.drop 7, 2⟩ (List.drop_suffix 7 _) rfl with
      ⟨e, he⟩ | ⟨a, c', hread, hunread⟩
    · cases he
    · cases hread
      exact ⟨_, rfl, hunread⟩
  · obtain ⟨o, n, hn, hread, hiff⟩ := hparser .partials
    cases o with
    | error e =>
      cases hread
      exact ⟨n, hn, (hiff _ n).mpr ⟨rfl, rfl⟩⟩
    | ok read => cases hread

end SchemaGraph
