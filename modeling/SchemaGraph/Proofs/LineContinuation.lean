import SchemaGraph.Proofs.TokenOccurrences
import SchemaGraph.Proofs.TraversedReaders

/-!
# What continues a line

Some readers attach to themselves what follows on the same line: a column its type and its settings,
an index and a value of an enumeration their settings, a reference its right end and its settings
(`Reader.Attachments`). They compare the line on which the next token begins with the line on which
the token before it begins. A quoted name, a string or an expression can go over several lines,
though, and nothing is taken to follow on the last one of them. So what follows is attached exactly
if there is no newline in the gap before it and none in the token before it either
(`attached_to_line`).
-/

namespace SchemaGraph

/-! ### Places in a text -/

/-- At a place of a text, with as many tokens and the end ahead, a token is next, no newline is in
the gap before it, and the token before that gap, if there is one, stands on a single line. -/
def Occurrence.FollowsOnLine (os : List Occurrence) (c : Cursor) : Prop :=
  ∃ before next after, os = before ++ next :: after ∧ c.ahead.length = after.length + 2 ∧
    '\n' ∉ next.gap ∧ ∀ last ∈ before.getLast?, '\n' ∉ last.source

theorem Token.SpelledBy.ne_endOfText {t : Token} {cs : List Char} (h : t.SpelledBy cs) :
    t ≠ .endOfText := by
  cases h with
  | mark hmark => exact Scan.ofMark_ne_endOfText hmark
  | quoted => exact Scan.token_ne_endOfText _ _
  | less | diamond | bare | number | tripleQuoted => nofun

namespace Occurrence

theorem length_lexemesFrom (os : List Occurrence) (line : Nat) :
    (lexemesFrom line os).length = os.length := by
  induction os generalizing line with
  | nil => rfl
  | cons o os ih => rw [lexemesFrom, List.length_cons, List.length_cons, ih]

/-- The gap behind the last token begins as many lines below the beginning of that token as it has
newlines in it. -/
theorem line_behind_last (os : List Occurrence) (line : Nat) :
    line + (os.flatMap chars).count '\n' =
      ((lexemesFrom line os).getLast?.map Lexeme.line).getD line +
        (os.getLast?.map fun o => o.source.count '\n').getD 0 := by
  induction os using List.reverseRecOn with
  | nil => rfl
  | append_singleton os o _ =>
    rw [lexemesFrom_append, List.flatMap_append, List.count_append]
    simp [lexemesFrom, chars, Nat.add_assoc]

end Occurrence

/-- The last line is the one of the lexeme taken last. -/
theorem Cursor.Reaches.lastLine_eq {c c' : Cursor} {taken : List Lexeme} (h : c.Reaches taken c') :
    c'.lastLine = (taken.getLast?.map Lexeme.line).getD c.lastLine := by
  induction h with
  | here => rfl
  | @take x xs taken l c' _ ih =>
    rw [ih, List.getLast?_cons]
    cases taken.getLast? <;> rfl

namespace Occurrence

variable {os : List Occurrence} {e : Nat} {taken : List Lexeme} {c : Cursor}

/-- Where no token of the text is ahead, the end is next. -/
theorem token_next_of_length_le (hreach :
    Cursor.Reaches ⟨lexemesFrom 1 os ++ [⟨.endOfText, e⟩], 1⟩ taken c)
    (hlength : c.ahead.length ≤ 1) : c.next.token = .endOfText := by
  obtain ⟨_ | ⟨x, _ | ⟨y, ys⟩⟩, l⟩ := c
  · rfl
  · obtain ⟨-, hx⟩ := List.append_inj' hreach.ahead_eq rfl
    obtain rfl := List.singleton_inj.mp hx
    rfl
  · simp at hlength

theorem followsOnLine_append_iff {before after : List Occurrence} {next : Occurrence}
    (hahead : c.ahead.length = after.length + 2) :
    FollowsOnLine (before ++ next :: after) c ↔
      '\n' ∉ next.gap ∧ ∀ last ∈ before.getLast?, '\n' ∉ last.source := by
  constructor
  · rintro ⟨before', next', after', heq, hahead', hgap, hlast⟩
    have hlength : after.length = after'.length := by omega
    obtain ⟨rfl, hbehind⟩ := List.append_inj' heq (congrArg (· + 1) hlength)
    obtain ⟨rfl, -⟩ := List.cons.inj hbehind
    exact ⟨hgap, hlast⟩
  · rintro ⟨hgap, hlast⟩
    exact ⟨before, next, after, rfl, hahead, hgap, hlast⟩

/-- A token that is next continues the line exactly if it follows on it. -/
theorem continuesLine_iff (hos : ∀ o ∈ os, o.Sound)
    (hreach : Cursor.Reaches ⟨lexemesFrom 1 os ++ [⟨.endOfText, e⟩], 1⟩ taken c) :
    c.continuesLine = true ↔ FollowsOnLine os c := by
  have hlengths : os.length + 1 = taken.length + c.ahead.length := by
    simpa [length_lexemesFrom] using hreach.length_eq
  by_cases hend : c.ahead.length ≤ 1
  · have hnot : ¬ FollowsOnLine os c := by
      rintro ⟨_, _, _, -, hahead, -⟩
      omega
    simp [Cursor.continuesLine, token_next_of_length_le hreach hend, hnot]
  -- the tokens taken are those in front of the next one
  obtain ⟨before, behind, rfl, hbefore⟩ :
      ∃ before behind, os = before ++ behind ∧ before.length = taken.length :=
    ⟨os.take taken.length, os.drop taken.length, (List.take_append_drop ..).symm,
      List.length_take_of_le (by omega)⟩
  obtain _ | ⟨next, after⟩ := behind
  · rw [List.append_nil] at hlengths
    omega
  have hsplit : lexemesFrom 1 before ++ (lexemesFrom (1 + (before.flatMap chars).count '\n')
      (next :: after) ++ [⟨.endOfText, e⟩]) = taken ++ c.ahead := by
    rw [← hreach.ahead_eq, lexemesFrom_append, List.append_assoc]
  obtain ⟨rfl, hahead⟩ := List.append_inj hsplit (by rw [length_lexemesFrom, hbefore])
  have hnext : c.next =
      ⟨next.token, 1 + (before.flatMap chars).count '\n' + next.gap.count '\n'⟩ := by
    rw [Cursor.next, ← hahead]
    rfl
  have hlength : c.ahead.length = after.length + 2 := by
    rw [← hahead, List.length_append, length_lexemesFrom]
    rfl
  have htoken : next.token ≠ .endOfText := (hos next (by simp)).source.ne_endOfText
  rw [followsOnLine_append_iff hlength, Cursor.continuesLine, hnext, line_behind_last before 1,
    ← hreach.lastLine_eq, Bool.and_eq_true, beq_iff_eq, bne_iff_ne]
  cases before.getLast? with
  | none => simp [htoken, List.count_eq_zero]
  | some last => simp [htoken, List.count_eq_zero, Nat.add_assoc, and_comm]

end Occurrence

/-! ### What is attached -/

namespace Reader

variable {α β : Type}

/-- Something is attached at a place: what a reader reads there, where it follows and begins as such
a thing does, and nothing elsewhere. -/
inductive Attaches (Follows : Cursor → Prop) (opens : Cursor → Bool) (item : Reader α)
    (c : Cursor) : Option α → Cursor → Prop
  | read {a : α} {c' : Cursor} (hfollows : Follows c) (hopens : opens c = true)
    (hread : item c = .ok (a, c')) : Attaches Follows opens item c (some a) c'
  | nothing (h : ¬ (Follows c ∧ opens c = true)) : Attaches Follows opens item c none c

section

variable (Follows : Cursor → Prop) (c : Cursor)

/-- A column is its name, with a type and settings attached. -/
inductive ReadsColumn : Column → Cursor → Prop
  | read {text : String} {type : Option String} {settings : Option (List ColumnSetting)}
    {mid mid' c' : Cursor} (hname : name c = .ok (text, mid))
    (htype : Attaches Follows (·.atName) columnType mid type mid')
    (hsettings : Attaches Follows (·.at? .openBracket) columnSettings mid' settings c') :
    ReadsColumn ⟨text, type, settings.getD [], c.next.line⟩ c'

/-- Settings, if any are attached, are listed. -/
inductive ReadsSettings : List Setting → Cursor → Prop
  | read {listed : Option (List Setting)} {c' : Cursor}
    (h : Attaches Follows (·.at? .openBracket) settings c listed c') :
    ReadsSettings (listed.getD []) c'

/-- An index is its columns, with settings attached. -/
inductive ReadsIndex : Index → Cursor → Prop
  | read {columns : List String} {listed : List Setting} {mid c' : Cursor}
    (hcolumns : indexColumns c = .ok (columns, mid))
    (hsettings : ReadsSettings Follows mid listed c') :
    ReadsIndex ⟨columns, Setting.has listed "pk" || Setting.has listed "primary key",
      Setting.has listed "unique", (Setting.lastValue listed "name").map unquote⟩ c'

/-- A value of an enumeration is its name, with settings attached. -/
inductive ReadsEnumValue : EnumValue → Cursor → Prop
  | read {text : String} {listed : List Setting} {mid c' : Cursor}
    (hname : name c = .ok (text, mid)) (hsettings : ReadsSettings Follows mid listed c') :
    ReadsEnumValue ⟨text, (Setting.lastValue listed "note").map unquote⟩ c'

/-- A reference is a left end, if there is one, and a relation, with a right end and settings
attached. -/
inductive ReadsRef (refName : Option String) : Ref → Cursor → Prop
  | read {left right : Option Endpoint} {kind : Relation} {listed : List Setting}
    {start mid mid' c' : Cursor} (hleft : optional (·.atName) endpoint c = .ok (left, start))
    (hrelation : relation start = .ok (kind, mid))
    (hright : Attaches Follows (·.atName) endpoint mid right mid')
    (hsettings : ReadsSettings Follows mid' listed c') :
    ReadsRef refName ⟨refName, left, kind, right, Setting.lastValue listed "delete",
      Setting.lastValue listed "update", c.next.line⟩ c'

/-- Readers that begin at a place attach to what they read what follows it. -/
structure Attachments : Prop where
  column : ∀ column c', Reader.column c = .ok (column, c') ↔ ReadsColumn Follows c column c'
  index : ∀ index c', Reader.index c = .ok (index, c') ↔ ReadsIndex Follows c index c'
  enumValue : ∀ value c', Reader.enumValue c = .ok (value, c') ↔ ReadsEnumValue Follows c value c'
  ref : ∀ refName ref c',
    refBody refName c = .ok (ref, c') ↔ ReadsRef Follows c refName ref c'

end

variable {Follows : Cursor → Prop} {opens : Cursor → Bool} {item : Reader α} {c c' : Cursor}
  {o : Option α}

theorem Attaches.reaches {m : Nat} (h : Attaches Follows opens item c o c')
    (hitem : Traverses (fun _ => True) m 0 0 Anything c item) : ∃ taken, c.Reaches taken c' := by
  cases h with
  | read _ _ hread => exact reaches_of_traverses hitem hread
  | nothing => exact ⟨[], .here⟩

/-- What is read where it continues the line is attached. -/
theorem attaches_iff (hfollows : c.continuesLine = true ↔ Follows c) :
    optional (fun c => c.continuesLine && opens c) item c = .ok (o, c') ↔
      Attaches Follows opens item c o c' := by
  cases hcondition : c.continuesLine && opens c with
  | true =>
    obtain ⟨hline, hopens⟩ := Bool.and_eq_true_iff.mp hcondition
    rw [optional_of_true (p := fun c => c.continuesLine && opens c) hcondition, map_eq_pure_bind,
      bind_apply_eq_ok_iff]
    constructor
    · rintro ⟨a, mid, hread, ⟨⟩⟩
      exact .read (hfollows.mp hline) hopens hread
    · rintro (⟨-, -, hread⟩ | hnot)
      · exact ⟨_, c', hread, rfl⟩
      · exact absurd ⟨hfollows.mp hline, hopens⟩ hnot
  | false =>
    rw [optional_of_false (p := fun c => c.continuesLine && opens c) hcondition]
    constructor
    · rintro ⟨⟩
      refine .nothing fun ⟨hline, hopens⟩ => ?_
      rw [hfollows.mpr hline, hopens] at hcondition
      cases hcondition
    · rintro (⟨hline, hopens, -⟩ | -)
      · rw [hfollows.mpr hline, hopens] at hcondition
        cases hcondition
      · rfl

theorem settingsOnLine_iff (hfollows : c.continuesLine = true ↔ Follows c)
    (listed : List Setting) :
    settingsOnLine c = .ok (listed, c') ↔ ReadsSettings Follows c listed c' := by
  constructor
  · intro h
    obtain ⟨settings, mid, hread, hgive⟩ := bind_apply_eq_ok_iff.mp h
    cases hgive
    exact .read ((attaches_iff hfollows).mp hread)
  · rintro ⟨hattaches⟩
    exact bind_apply_eq_ok_iff.mpr ⟨_, c', (attaches_iff hfollows).mpr hattaches, rfl⟩

section Places

variable (hfollows : ∀ taken mid, c.Reaches taken mid → (mid.continuesLine = true ↔ Follows mid))

include hfollows

theorem column_iff (column : Column) :
    Reader.column c = .ok (column, c') ↔ ReadsColumn Follows c column c' := by
  constructor
  · intro h
    obtain ⟨head, _, hhead, h⟩ := bind_apply_eq_ok_iff.mp h
    cases hhead
    obtain ⟨text, mid, hname, h⟩ := bind_apply_eq_ok_iff.mp h
    obtain ⟨type, mid', htype, h⟩ := bind_apply_eq_ok_iff.mp h
    obtain ⟨settings, stop, hsettings, hgive⟩ := bind_apply_eq_ok_iff.mp h
    cases hgive
    obtain ⟨taken, hreach⟩ := reaches_of_traverses (i := 0) traverses_name hname
    have htype := (attaches_iff (hfollows _ _ hreach)).mp htype
    obtain ⟨taken', hreach'⟩ := htype.reaches traverses_columnType
    exact .read hname htype ((attaches_iff (hfollows _ _ (hreach.trans hreach'))).mp hsettings)
  · rintro ⟨hname, htype, hsettings⟩
    obtain ⟨taken, hreach⟩ := reaches_of_traverses (i := 0) traverses_name hname
    obtain ⟨taken', hreach'⟩ := htype.reaches traverses_columnType
    have htype := (attaches_iff (hfollows _ _ hreach)).mpr htype
    have hsettings := (attaches_iff (hfollows _ _ (hreach.trans hreach'))).mpr hsettings
    rw [column, next_bind, bind_of_ok hname, bind_of_ok htype, bind_of_ok hsettings]
    rfl

theorem index_iff (index : Index) :
    Reader.index c = .ok (index, c') ↔ ReadsIndex Follows c index c' := by
  constructor
  · intro h
    obtain ⟨columns, mid, hcolumns, h⟩ := bind_apply_eq_ok_iff.mp h
    obtain ⟨listed, stop, hsettings, hgive⟩ := bind_apply_eq_ok_iff.mp h
    cases hgive
    obtain ⟨taken, hreach⟩ := reaches_of_traverses (i := 0) traverses_indexColumns hcolumns
    exact .read hcolumns ((settingsOnLine_iff (hfollows _ _ hreach) _).mp hsettings)
  · rintro ⟨hcolumns, hsettings⟩
    obtain ⟨taken, hreach⟩ := reaches_of_traverses (i := 0) traverses_indexColumns hcolumns
    have hsettings := (settingsOnLine_iff (hfollows _ _ hreach) _).mpr hsettings
    rw [Reader.index, bind_of_ok hcolumns, bind_of_ok hsettings]
    rfl

theorem enumValue_iff (value : EnumValue) :
    Reader.enumValue c = .ok (value, c') ↔ ReadsEnumValue Follows c value c' := by
  constructor
  · intro h
    obtain ⟨text, mid, hname, h⟩ := bind_apply_eq_ok_iff.mp h
    obtain ⟨listed, stop, hsettings, hgive⟩ := bind_apply_eq_ok_iff.mp h
    cases hgive
    obtain ⟨taken, hreach⟩ := reaches_of_traverses (i := 0) traverses_name hname
    exact .read hname ((settingsOnLine_iff (hfollows _ _ hreach) _).mp hsettings)
  · rintro ⟨hname, hsettings⟩
    obtain ⟨taken, hreach⟩ := reaches_of_traverses (i := 0) traverses_name hname
    have hsettings := (settingsOnLine_iff (hfollows _ _ hreach) _).mpr hsettings
    rw [enumValue, bind_of_ok hname, bind_of_ok hsettings]
    rfl

theorem refBody_iff (refName : Option String) (ref : Ref) :
    refBody refName c = .ok (ref, c') ↔ ReadsRef Follows c refName ref c' := by
  have hreaches : ∀ {left start kind mid}, optional (·.atName) endpoint c = .ok (left, start) →
      relation start = .ok (kind, mid) → ∃ taken, c.Reaches taken mid := by
    intro left start kind mid hleft hrelation
    obtain ⟨taken, hreach⟩ := reaches_of_traverses (i := 0)
      (Traverses.optional_anything fun _ => traverses_endpoint.forget) hleft
    obtain ⟨taken', hreach'⟩ := reaches_of_traverses (i := 0) traverses_relation hrelation
    exact ⟨_, hreach.trans hreach'⟩
  constructor
  · intro h
    obtain ⟨head, _, hhead, h⟩ := bind_apply_eq_ok_iff.mp h
    cases hhead
    obtain ⟨left, start, hleft, h⟩ := bind_apply_eq_ok_iff.mp h
    obtain ⟨kind, mid, hrelation, h⟩ := bind_apply_eq_ok_iff.mp h
    obtain ⟨right, mid', hright, h⟩ := bind_apply_eq_ok_iff.mp h
    obtain ⟨listed, stop, hsettings, hgive⟩ := bind_apply_eq_ok_iff.mp h
    cases hgive
    obtain ⟨taken, hreach⟩ := hreaches hleft hrelation
    have hright := (attaches_iff (hfollows _ _ hreach)).mp hright
    obtain ⟨taken', hreach'⟩ := hright.reaches traverses_endpoint
    exact .read hleft hrelation hright
      ((settingsOnLine_iff (hfollows _ _ (hreach.trans hreach')) _).mp hsettings)
  · rintro ⟨hleft, hrelation, hright, hsettings⟩
    obtain ⟨taken, hreach⟩ := hreaches hleft hrelation
    obtain ⟨taken', hreach'⟩ := hright.reaches traverses_endpoint
    have hright := (attaches_iff (hfollows _ _ hreach)).mpr hright
    have hsettings := (settingsOnLine_iff (hfollows _ _ (hreach.trans hreach')) _).mpr hsettings
    rw [refBody, next_bind, bind_of_ok hleft, bind_of_ok hrelation, bind_of_ok hright,
      bind_of_ok hsettings]
    rfl

/-- Where a token that continues the line follows on it, from a place on, readers attach what
follows. -/
theorem attachments_of_continuesLine : Attachments Follows c where
  column column _ := column_iff hfollows column
  index index _ := index_iff hfollows index
  enumValue value _ := enumValue_iff hfollows value
  ref refName ref _ := refBody_iff hfollows refName ref

end Places

end Reader

/-- **A line is judged by where its tokens begin.** Wherever tokens of a text are read, the next one
continues the line exactly if there is no newline in the gap before it and none in the token before
that gap. What follows a column, an index, a value of an enumeration or a reference is attached to
it in just that case. -/
theorem attached_to_line {text : String} {lexemes : List Lexeme} (h : scan text = .ok lexemes) :
    ∃ os, Occurrence.MakeUp os text.toList ∧
      lexemes = Occurrence.lexemesFrom 1 os ++ [⟨.endOfText, 1 + text.toList.count '\n'⟩] ∧
      ∀ taken c, Cursor.Reaches ⟨lexemes, 1⟩ taken c →
        (c.continuesLine = true ↔ Occurrence.FollowsOnLine os c) ∧
        Reader.Attachments (Occurrence.FollowsOnLine os) c := by
  obtain ⟨os, hos, rfl⟩ := scan_occurrences h
  refine ⟨os, hos, rfl, fun taken c hreach => ⟨?_, ?_⟩⟩
  · exact Occurrence.continuesLine_iff hos.sound hreach
  · exact Reader.attachments_of_continuesLine fun taken' mid hreach' =>
      Occurrence.continuesLine_iff hos.sound (hreach.trans hreach')

/-- A type does not follow on the line of a name that goes over two lines, but on the line of any
other one. -/
theorem attached_to_line_spanning :
    scan "\"a\nb\" int c int" = .ok [⟨.name "a\nb", 1⟩, ⟨.name "int", 2⟩, ⟨.name "c", 2⟩,
      ⟨.name "int", 2⟩, ⟨.endOfText, 2⟩] ∧
    ∃ os, Occurrence.MakeUp os "\"a\nb\" int c int".toList ∧
      ¬ Occurrence.FollowsOnLine os ⟨[⟨.name "int", 2⟩, ⟨.name "c", 2⟩, ⟨.name "int", 2⟩,
        ⟨.endOfText, 2⟩], 1⟩ ∧
      Occurrence.FollowsOnLine os ⟨[⟨.name "int", 2⟩, ⟨.endOfText, 2⟩], 2⟩ := by
  have h : scan "\"a\nb\" int c int" = .ok [⟨.name "a\nb", 1⟩, ⟨.name "int", 2⟩, ⟨.name "c", 2⟩,
      ⟨.name "int", 2⟩, ⟨.endOfText, 2⟩] := by
    decide +kernel
  obtain ⟨os, hos, -, hplaces⟩ := attached_to_line h
  refine ⟨h, os, hos, fun hfollows => ?_, ?_⟩
  · exact absurd ((hplaces _ _ (.take .here)).1.mpr hfollows) (by decide)
  · exact (hplaces _ _ (.take (.take (.take .here)))).1.mp (by decide)

/-- Settings behind an expression over two lines are not taken for those of its index, although they
stand on the line on which the expression ends, and the document is refused. A type behind a quoted
name over two lines becomes a column of its own. -/
theorem continuation_missed :
    Document.parse .partials
     "Table t \x7b\n  a text\n  indexes \x7b\n    \x60lower(\n      a)\x60 [unique]\n  \x7d\n\x7d" =
        .error (.unexpected .openBracket .indexColumn 5) ∧
    Document.parse .partials "Table t \x7b\n  \"a\nb\" int\n\x7d" = .ok ⟨none,
      [⟨none, "t", none, [.column ⟨"a\nb", none, [], 2⟩, .column ⟨"int", none, [], 3⟩], [], none,
        1⟩], [], [], []⟩ := by
  decide +kernel

end SchemaGraph
