import SchemaGraph.Proofs.LegacyDialect
import SchemaGraph.Proofs.WrittenDocuments

/-!
# Texts in single quotes

A text in single quotes reaches a document in two ways. The note of a column and the line of a note
take the text of its token. A note in the heading of a table, a note behind a value of an
enumeration and the name of an index are settings like any other, whose value is put together from
tokens with their quotes and is stripped of all single quotes at its ends afterwards. So a document
is read as it is meant exactly if the texts that go the second way neither begin nor end with a
single quote (`Document.parse_quoted`).
-/

namespace SchemaGraph

open Piece

/-! ### Documents without partials -/

/-- A document on other lines uses partials if the document does. -/
theorem Document.partialFree_mapLines {f : Nat → Nat} {d : Document} :
    (d.mapLines f).PartialFree ↔ d.PartialFree := by
  have hitem : ∀ item : TableItem, (∃ c, item.mapLine f = .column c) ↔ ∃ c, item = .column c := by
    intro item
    cases item <;> simp [TableItem.mapLine]
  simp [PartialFree, mapLines, Table.mapLines, hitem]

theorem Document.PartialFree.readBack {d : Document} (h : d.PartialFree)
    (headings : Table → Option String) : (d.readBack headings).PartialFree := by
  obtain ⟨hpartials, htables⟩ := h
  refine ⟨by rw [Document.readBack, hpartials, List.map_nil], ?_⟩
  intro read hread
  obtain ⟨t, ht, rfl⟩ := List.mem_map.mp hread
  exact htables t ht

namespace Document

theorem parse_legacy_of_partialFree {text : String} {d : Document}
    (h : parse .partials text = .ok d) (hd : d.PartialFree) : parse .legacy text = .ok d := by
  rcases parse_legacy_cases text with ⟨d', hread, -, hlegacy⟩ |
    ⟨d', use, others, hread, hused, -, -⟩ | ⟨e, e', hread, -⟩
  · rw [hlegacy, ← hread, h]
  · rw [h] at hread
    cases hread
    exact absurd hd hused
  · rw [h] at hread
    cases hread

/-! ### Reading documents with notes in headings -/

variable {d : Document}

/-- A document with notes in headings is read without the quotes at the ends of texts among
settings. -/
theorem exists_parse_headed (hd : d.WritableUpToQuotes) (headings : Table → Option String) :
    ∃ read, parse .partials (writtenLines (d.headedLines headings)) = .ok read ∧
      read.mapLines (fun _ => 0) = (d.readBack headings).mapLines fun _ => 0 := by
  have hread := exists_parse_writtenLines (readsLines_headed hd headings) (by
    rw [lines_headed]
    exact d.allReadable_headedLines headings)
  rwa [lines_headed, map_readBack_declarations, ofDeclarations_declarations] at hread

/-- **What a text in single quotes is read as.** A document in which notes stand at columns, in
bodies and headings of tables and at values of enumerations, and indexes have names, is read with
the texts of the columns and of the bodies as they are written, and with the other texts without the
single quotes at their ends. It is read as it is meant exactly if these neither begin nor end with a
single quote. -/
theorem parse_quoted (hd : d.WritableUpToQuotes) (headings : Table → Option String)
    {dialect : Dialect} (hdialect : dialect = .partials ∨ d.PartialFree) :
    (parse dialect (writtenLines (d.headedLines headings))).map (·.mapLines fun _ => 0) =
      .ok ((d.readBack headings).mapLines fun _ => 0) ∧
    (d.readBack headings = d.headed headings ↔ d.KeepsQuotes headings) := by
  obtain ⟨read, hread, hsame⟩ := exists_parse_headed hd headings
  have hparse : parse dialect (writtenLines (d.headedLines headings)) = .ok read := by
    cases dialect with
    | partials => exact hread
    | legacy =>
      have hfree : d.PartialFree := hdialect.resolve_left nofun
      refine parse_legacy_of_partialFree hread ?_
      rw [← partialFree_mapLines, hsame, partialFree_mapLines]
      exact hfree.readBack headings
  refine ⟨?_, readBack_eq_headed_iff⟩
  rw [hparse]
  exact congrArg Except.ok hsame

/-- Every text here has a single quote at an end. -/
def edgy : Document where
  project := none
  tables := [⟨none, "t", none, [.column ⟨"x", some "int", [.note "'a'"], 0⟩],
    [⟨["x"], false, true, some "b'"⟩], none, 0⟩, ⟨none, "u", none, [], [], some "'d", 0⟩]
  partials := []
  refs := []
  enums := [⟨none, "e", [⟨"v", some "it'"⟩]⟩]

/-- The note of the column keeps its quotes, as does the one in the body of the second table. The
others lose theirs. -/
theorem parse_quoted_edgy :
    (edgy.WritableUpToQuotes ∧ edgy.PartialFree) ∧
    (parse .legacy (writtenLines (edgy.headedLines fun _ => some "'c'"))).map
      (·.mapLines fun _ => 0) = .ok {
        project := none
        tables := [⟨none, "t", none, [.column ⟨"x", some "int", [.note "'a'"], 0⟩],
          [⟨["x"], false, true, some "b"⟩], some "c", 0⟩, ⟨none, "u", none, [], [], some "'d", 0⟩]
        partials := []
        refs := []
        enums := [⟨none, "e", [⟨"v", some "it"⟩]⟩] } ∧
    ¬ edgy.KeepsQuotes fun _ => some "'c'" := by
  have hd : edgy.WritableUpToQuotes := by decide +kernel
  have hfree : edgy.PartialFree := ⟨rfl, by simp [edgy]⟩
  obtain ⟨hread, hsame⟩ := parse_quoted hd (fun _ => some "'c'") (.inr hfree)
  refine ⟨⟨hd, hfree⟩, hread.trans ?_, ?_⟩
  · decide +kernel
  · rw [← hsame]
    decide +kernel

/-- The note behind a value of an enumeration loses the single quote at its end. -/
theorem note_loses_quote :
    parse .partials "Enum e \x7b\n  v [note: 'it\\'']\n\x7d" =
      .ok ⟨none, [], [], [], [⟨none, "e", [⟨"v", some "it"⟩]⟩]⟩ ∧
    scan "'it\\''" = .ok [⟨.string "it'", 1⟩, ⟨.endOfText, 1⟩] := by
  decide +kernel

end Document

end SchemaGraph
