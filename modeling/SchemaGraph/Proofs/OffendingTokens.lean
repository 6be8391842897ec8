import SchemaGraph.Proofs.LocalizedReaders
import SchemaGraph.Proofs.PartedTexts

/-!
# The tokens that errors name

An error names a token that is next at some place of the text, on the line of that token. Only an
endpoint that is too long is reported when it has been read to its end, as a dot on the line of its
last token. A dot need not be on that line, as a name may follow its dot on a later line. So an
error names a token of the text on the line of that token, unless it is about such an endpoint
(`Document.error_names_token`).
-/

namespace SchemaGraph

namespace Cursor

variable {On : Lexeme → Prop} {c mid : Cursor} {taken : List Lexeme}

/-- A token that is unexpected is the one that is next, or the last dot of an endpoint that is too
long and ends where the error says. -/
theorem Stops.of_unexpected {found : Token} {expected : Expectation} {line : Nat}
    (h : c.Stops (.unexpected found expected line)) :
    c.next = ⟨found, line⟩ ∨ found = .dot ∧ expected = .shortEndpoint ∧
      ∃ dotLine endpoint c', c.Reaches endpoint c' ∧ OverlongEndpoint dotLine line endpoint := by
  cases h with
  | unexpected => exact .inl rfl
  | overlong hreach hoverlong => exact .inr ⟨rfl, rfl, _, _, _, hreach, hoverlong⟩

/-- What opens a construct that the dialect does not know is next. -/
theorem Stops.of_unsupported {construct : PartialConstruct} {dialect : Dialect} {line : Nat}
    (h : c.Stops (.unsupported construct dialect line)) :
    construct.opensWith c.next.token = true ∧ c.next.line = line := by
  cases h with
  | unsupported hopens => exact ⟨hopens, rfl⟩

end Cursor

/-- The last dot of an endpoint is a lexeme of it, on no later line than its end. -/
theorem OverlongEndpoint.dot {dotLine endLine : Nat} {lexemes : List Lexeme}
    (h : OverlongEndpoint dotLine endLine lexemes) (hordered : lexemes.Pairwise (·.line ≤ ·.line)) :
    ⟨.dot, dotLine⟩ ∈ lexemes ∧ dotLine ≤ endLine := by
  obtain ⟨-, -, -, rfl⟩ := h
  refine ⟨by simp, ?_⟩
  have hbehind := (List.pairwise_append.mp hordered).2.1
  exact (List.pairwise_cons.mp hbehind).1 _ (by simp)

namespace Document

variable {dialect : Dialect} {text : String}

/-- What keeps a text from being a document is in its characters, or about a place among its
lexemes. -/
theorem leadsTo_of_parse_eq_error {e : ParseError} (h : parse dialect text = .error e) :
    (∃ e', scan text = .error e' ∧ e = .scan e') ∨
      ∃ lexemes, scan text = .ok lexemes ∧ Cursor.LeadsTo ⟨lexemes, 1⟩ e := by
  cases hscan : scan text with
  | error e' =>
    rw [parse_of_scan_error hscan] at h
    cases h
    exact .inl ⟨e', rfl, rfl⟩
  | ok lexemes =>
    rw [parse_of_scan hscan] at h
    refine .inr ⟨lexemes, rfl, ?_⟩
    cases hread : Reader.declarations dialect ⟨lexemes, 1⟩ with
    | error e' =>
      rw [hread] at h
      cases h
      exact (Reader.localizes_declarations dialect).error hread
    | ok p =>
      rw [hread] at h
      cases h

/-- **An error names a token that is there.** A token that is unexpected is one of the text, on the
line that the error says; unless it is the dot of an endpoint that is too long, and that endpoint
goes on to a later line behind its last dot, which is the line that the error says. A construct that
the dialect does not know is opened by a token on that line. -/
theorem error_names_token (dialect : Dialect) (text : String) :
    (∀ found expected line, parse dialect text = .error (.unexpected found expected line) →
      ∃ lexemes, scan text = .ok lexemes ∧ (⟨found, line⟩ ∈ lexemes ∨
        found = .dot ∧ expected = .shortEndpoint ∧
          ∃ before endpoint after dotLine, lexemes = before ++ endpoint ++ after ∧
            OverlongEndpoint dotLine line endpoint ∧ dotLine < line)) ∧
    (∀ construct known line, parse dialect text = .error (.unsupported construct known line) →
      ∃ lexemes, scan text = .ok lexemes ∧ ∃ x ∈ lexemes, x.line = line ∧
        (construct = .declaration ∧ x.token.isKeyword "TablePartial" = true ∨
          construct = .injection ∧ x.token = .tilde)) := by
  refine ⟨fun found expected line h => ?_, fun construct known line h => ?_⟩
  · obtain ⟨e', -, ⟨⟩⟩ | ⟨lexemes, hscan, before, mid, hreach, hstops⟩ :=
      leadsTo_of_parse_eq_error h
    have hlexemes : lexemes = before ++ mid.ahead := hreach.ahead_eq
    refine ⟨lexemes, hscan, ?_⟩
    obtain hnext | ⟨hdot, hshort, dotLine, endpoint, stop, hreach', hoverlong⟩ :=
      hstops.of_unexpected
    · exact .inl (hnext ▸ ((within_lexemes hscan).reached hreach).next)
    rw [hreach'.ahead_eq, ← List.append_assoc] at hlexemes
    have hordered := (Whole.of_scan hscan).ordered
    rw [hlexemes, List.append_assoc, List.pairwise_append, List.pairwise_append] at hordered
    obtain ⟨hmem, hle⟩ := hoverlong.dot hordered.2.1.1
    rcases Nat.lt_or_eq_of_le hle with hlt | rfl
    · exact .inr ⟨hdot, hshort, before, endpoint, stop.ahead, dotLine, hlexemes, hoverlong, hlt⟩
    · refine .inl ?_
      rw [hlexemes, hdot]
      exact List.mem_append_left _ (List.mem_append_right _ hmem)
  · obtain ⟨e', -, ⟨⟩⟩ | ⟨lexemes, hscan, before, mid, hreach, hstops⟩ :=
      leadsTo_of_parse_eq_error h
    obtain ⟨hopens, hline⟩ := hstops.of_unsupported
    refine ⟨lexemes, hscan, mid.next, ((within_lexemes hscan).reached hreach).next, hline, ?_⟩
    cases construct with
    | declaration => exact .inl ⟨rfl, hopens⟩
    | injection => exact .inr ⟨rfl, eq_of_beq hopens⟩

/-- Settings that are not closed are reported at the end of the text, an injection where the dialect
has none at its tilde. -/
theorem error_names_token_at_end :
    (parse .partials "Table t \x7b\n  a int [pk\n" =
        .error (.unexpected .endOfText .nextSetting 3) ∧
      ∃ lexemes, scan "Table t \x7b\n  a int [pk\n" = .ok lexemes ∧ ⟨.endOfText, 3⟩ ∈ lexemes) ∧
    (parse .legacy "Table t \x7b\n  ~p \x7d" = .error (.unsupported .injection .legacy 2) ∧
      ∃ lexemes, scan "Table t \x7b\n  ~p \x7d" = .ok lexemes ∧
        ∃ x ∈ lexemes, x.line = 2 ∧ x.token = .tilde) := by
  have hopen : parse .partials "Table t \x7b\n  a int [pk\n" =
      .error (.unexpected .endOfText .nextSetting 3) := by
    decide +kernel
  have htilde : parse .legacy "Table t \x7b\n  ~p \x7d" =
      .error (.unsupported .injection .legacy 2) := by
    decide +kernel
  refine ⟨⟨hopen, ?_⟩, htilde, ?_⟩
  · obtain ⟨lexemes, hscan, hmem | ⟨⟨⟩, -⟩⟩ := (error_names_token _ _).1 _ _ _ hopen
    exact ⟨lexemes, hscan, hmem⟩
  · obtain ⟨lexemes, hscan, x, hx, hline, ⟨⟨⟩, -⟩ | ⟨-, htoken⟩⟩ :=
      (error_names_token _ _).2 _ _ _ htilde
    exact ⟨lexemes, hscan, x, hx, hline, htoken⟩

/-- The dot of an endpoint that is too long is reported on a line that has no dot, if what follows
its last dot is on a later line. -/
theorem dot_named_on_wrong_line :
    parse .partials "Ref: a.b.c.\nd" = .error (.unexpected .dot .shortEndpoint 2) ∧
    ∃ lexemes, scan "Ref: a.b.c.\nd" = .ok lexemes ∧ ⟨.dot, 1⟩ ∈ lexemes ∧
      ⟨.dot, 2⟩ ∉ lexemes := by
  refine ⟨by decide +kernel, [⟨.name "Ref", 1⟩, ⟨.colon, 1⟩, ⟨.name "a", 1⟩, ⟨.dot, 1⟩,
    ⟨.name "b", 1⟩, ⟨.dot, 1⟩, ⟨.name "c", 1⟩, ⟨.dot, 1⟩, ⟨.name "d", 2⟩, ⟨.endOfText, 2⟩], ?_⟩
  decide +kernel

end Document

end SchemaGraph
