import SchemaGraph.Proofs.ContinuedReaders

/-!
# Texts joined

Two texts on different lines, of which each is a document, make up one document. It declares what
the first one declares and then what the second one declares, further down (`parse_join`). Whatever
the first text leaves out at its end, it does not take from the second one: a declaration opens
with its keyword on a line of its own, and no declaration goes on there.
-/

namespace SchemaGraph

/-- The declarations of one document, and then those of another. Of two projects the later one
counts. -/
def Document.followedBy (d d' : Document) : Document where
  project := d'.project.or d.project
  tables := d.tables ++ d'.tables
  partials := d.partials ++ d'.partials
  refs := d.refs ++ d'.refs
  enums := d.enums ++ d'.enums

theorem Document.ofDeclarations_append (declared declared' : List Declaration) :
    ofDeclarations (declared ++ declared') =
      (ofDeclarations declared).followedBy (ofDeclarations declared') := by
  simp only [ofDeclarations, followedBy, List.reverse_append, List.findSome?_append,
    List.filterMap_append, List.flatMap_append]

namespace Reader

variable {dialect : Dialect} {x : Lexeme} {xs : List Lexeme} {l : Nat}

/-! ### Where a declaration begins -/

/-- What is read of a declaration does not depend on the line before. -/
theorem declaration_lastLine (dialect : Dialect) (x : Lexeme) (xs : List Lexeme) (l l' : Nat) :
    declaration dialect ⟨x :: xs, l⟩ = declaration dialect ⟨x :: xs, l'⟩ := by
  unfold declaration
  simp only [next_bind, ite_apply, skip_bind]
  cases dialect <;> rfl

theorem isName_of_isKeyword {t : Token} {keyword : String} (h : t.isKeyword keyword = true) :
    t.isName = true := by
  cases t with
  | name => rfl
  | _ => cases h

/-- A declaration begins with a keyword. -/
theorem isName_of_declaration {a : Declaration} {c : Cursor}
    (h : declaration dialect ⟨x :: xs, l⟩ = .ok (a, c)) : x.token.isName = true := by
  unfold declaration at h
  simp only [next_bind, ite_apply] at h
  split_ifs at h
  all_goals first
    | exact isName_of_isKeyword ‹_›
    | cases h

end Reader

/-! ### Where the declarations of a text end -/

/-- Whether there is more of a text. -/
def Cursor.beforeEnd (c : Cursor) : Bool :=
  !c.at? .endOfText

namespace Reader

variable {dialect : Dialect} {declared : List Declaration} {c stop : Cursor}

/-- The declarations of a text, one round each. -/
abbrev DeclarationRounds (dialect : Dialect) : Cursor → List Declaration → Cursor → Prop :=
  Rounds Cursor.beforeEnd (declaration dialect)

theorem declarations_of_rounds (h : DeclarationRounds dialect c declared stop) :
    declarations dialect c = .ok (declared, stop) :=
  manyWhile_of_rounds h

/-- What is read of declarations does not depend on the line before them. -/
theorem DeclarationRounds.lastLine {x : Lexeme} {xs : List Lexeme} {l : Nat}
    (h : DeclarationRounds dialect ⟨x :: xs, l⟩ declared stop) (l' : Nat) :
    ∃ stop, DeclarationRounds dialect ⟨x :: xs, l'⟩ declared stop := by
  cases h with
  | stop hend => exact ⟨_, .stop hend⟩
  | round hmore hitem htakes hrest =>
    exact ⟨_, .round hmore ((declaration_lastLine dialect x xs l' l).trans hitem) htakes hrest⟩

/-- Where there is more of a text, there is a keyword next. -/
theorem DeclarationRounds.opens {x : Lexeme} {xs : List Lexeme} {l : Nat}
    (h : DeclarationRounds dialect ⟨x :: xs, l⟩ declared stop) :
    x.token = .endOfText ∨ x.token.isName = true := by
  cases h with
  | stop hend => exact .inl (by simpa [Cursor.beforeEnd, Cursor.at?, Cursor.next] using hend)
  | round _ hitem => exact .inr (isName_of_declaration hitem)

variable {K : Continuation} {p : Cursor}

/-- The declarations of a text are read where the text goes on, and after them what follows. -/
theorem rounds_within (others : List Declaration) (rounds : Nat)
    (hp : K.Fits p) (hrounds : (K.alone p).ahead.length ≤ rounds)
    (h : manyRounds Cursor.beforeEnd (declaration dialect) rounds (K.alone p) =
      .ok (declared, stop))
    (hothers : ∀ l, ∃ stop, DeclarationRounds dialect ⟨K.first :: K.others, l⟩ others stop) :
    ∃ stop, DeclarationRounds dialect (K.within p) (declared.map (·.mapLines K.line) ++ others)
      stop := by
  induction rounds generalizing p declared with
  | zero => simp at hrounds
  | succ rounds ih =>
    rw [Continuation.length_alone] at hrounds
    obtain ⟨_ | ⟨x, xs⟩, l⟩ := p
    · rw [manyRounds_succ_of_false (by rfl)] at h
      cases h
      exact hothers (K.line l)
    · have hx : x.token ≠ .endOfText := hp.inside x List.mem_cons_self
      have hmore : Cursor.beforeEnd (K.alone ⟨x :: xs, l⟩) = true := by
        simp [Cursor.beforeEnd, Cursor.at?, Cursor.next, Continuation.alone, hx]
      rw [manyRounds_succ_of_true hmore] at h
      obtain ⟨first, mid, hfirst, h⟩ := bind_apply_eq_ok_iff.mp h
      obtain ⟨tail, mid', htail, h⟩ := bind_apply_eq_ok_iff.mp h
      cases h
      have hcarries : Carries K false 1 _ _ (declaration dialect) (declaration dialect) :=
        carries_declaration dialect hp
      obtain ⟨q, rfl, hq, hlen, ⟨⟨⟩, -⟩ | hwithin⟩ := hcarries _ _ hfirst
      obtain ⟨stop, hrest⟩ := ih hq (by rw [Continuation.length_alone]; omega) htail
      refine ⟨stop, .round hmore hwithin ?_ hrest⟩
      rw [Continuation.length_within, Continuation.length_within]
      omega

end Reader

/-! ### Texts -/

namespace Document

variable {dialect : Dialect} {a b text : String} {d d₁ d₂ : Document}

theorem parse_eq_ok_iff_ofText : parse dialect text = .ok d ↔
    ∃ s declared stop, Scan.ofText text = .ok s ∧
      Reader.declarations dialect ⟨s.tokens ++ [⟨.endOfText, s.line⟩], 1⟩ = .ok (declared, stop) ∧
        ofDeclarations declared = d := by
  simp only [parse_eq_ok_iff, Scan.scan_eq, map_eq_ok_iff]
  constructor
  · rintro ⟨_, declared, stop, ⟨s, hs, rfl⟩, h⟩
    exact ⟨s, declared, stop, hs, h⟩
  · rintro ⟨s, declared, stop, hs, h⟩
    exact ⟨_, declared, stop, ⟨s, hs, rfl⟩, h⟩

variable {s : Scan} {declared : List Declaration} {stop : Cursor}

/-- The declarations of a text, `k` lines further down. -/
theorem rounds_below (hs : Scan.ofText text = .ok s)
    (h : Reader.declarations dialect ⟨s.tokens ++ [⟨.endOfText, s.line⟩], 1⟩ = .ok (declared, stop))
    (k : Nat) : ∃ stop, Reader.DeclarationRounds dialect
      ⟨s.tokens.map (Lexeme.mapLine (· + k)) ++ [⟨.endOfText, s.line + k⟩], 1 + k⟩
      (declared.map (·.mapLines (· + k))) stop := by
  let K : Continuation :=
    ⟨(· + k), fun _ _ => Nat.add_right_cancel, s.line, ⟨.endOfText, s.line + k⟩, [], .inl rfl⟩
  have hfits : K.Fits ⟨s.tokens, 1⟩ :=
    ⟨fun _ hx => ((Scan.placed_ofText hs).mem_tokens hx).1, fun _ _ => .inl rfl⟩
  obtain ⟨stop, hrounds⟩ := Reader.rounds_within [] _ hfits (Nat.le_refl _) h
    fun l => ⟨_, .stop rfl⟩
  rw [List.append_nil] at hrounds
  exact ⟨stop, hrounds⟩

/-- What follows a text on other lines stands on none of its lines. -/
theorem exists_first (hs : Scan.ofText text = .ok s) (k : Nat) : ∃ first others,
    s.tokens.map (Lexeme.mapLine (· + k)) ++ [⟨.endOfText, s.line + k⟩] = first :: others ∧
      (first.token = .endOfText ∨ k < first.line) := by
  cases htokens : s.tokens with
  | nil => exact ⟨_, [], rfl, .inl rfl⟩
  | cons x xs =>
    have hx : x ∈ s.tokens := htokens ▸ List.mem_cons_self
    exact ⟨x.mapLine (· + k), _, rfl,
      .inr (Nat.lt_add_of_pos_left ((Scan.placed_ofText hs).mem_tokens hx).2.1)⟩

/-- **Documents compose.** A document, a newline and another document make up the document with the
declarations of both, in which those of the second one stand as many lines further down as there are
newlines before it. -/
theorem parse_join (h₁ : parse dialect a = .ok d₁) (h₂ : parse dialect b = .ok d₂) :
    parse dialect (a ++ "\n" ++ b) =
      .ok (d₁.followedBy (d₂.mapLines (· + (a.toList.count '\n' + 1)))) := by
  obtain ⟨s₁, declared₁, stop₁, hs₁, hread₁, rfl⟩ := parse_eq_ok_iff_ofText.mp h₁
  obtain ⟨s₂, declared₂, stop₂, hs₂, hread₂, rfl⟩ := parse_eq_ok_iff_ofText.mp h₂
  rw [← Scan.line_ofText hs₁, ← ofDeclarations_mapLines, ← ofDeclarations_append]
  obtain ⟨stop, hbelow⟩ := rounds_below hs₂ hread₂ s₁.line
  obtain ⟨first, others, hfirst, hline⟩ := exists_first hs₂ s₁.line
  rw [hfirst] at hbelow
  let K : Continuation :=
    ⟨fun line => line, fun _ _ h => h, s₁.line, first, others, hbelow.opens⟩
  have hfits : K.Fits ⟨s₁.tokens, 1⟩ := by
    have hplaced := Scan.placed_ofText hs₁
    refine ⟨fun x hx => (hplaced.mem_tokens hx).1, fun l hl => ?_⟩
    have hl : l ≤ s₁.line := by
      rcases List.mem_cons.mp hl with rfl | hl
      · exact hplaced.line
      · obtain ⟨x, hx, rfl⟩ := List.mem_map.mp hl
        exact (hplaced.mem_tokens hx).2.2
    exact hline.imp_right fun hlt => Nat.ne_of_gt (Nat.lt_of_le_of_lt hl hlt)
  obtain ⟨stop, hrounds⟩ := Reader.rounds_within _ _ hfits (Nat.le_refl _) hread₁ hbelow.lastLine
  refine parse_eq_ok_iff_ofText.mpr ⟨s₂.behind s₁.found s₁.line, _, stop, ?_,
    Reader.declarations_of_rounds ?_, rfl⟩
  · rw [Scan.ofText_join b hs₁, hs₂]
    rfl
  · have hdeclared : declared₁.map (·.mapLines K.line) = declared₁ := by
      simp [K, Declaration.mapLines_same]
    have hlexemes : s₁.tokens.map (Lexeme.mapLine K.line) = s₁.tokens :=
      List.map_id'' (fun _ => rfl) _
    have hwithin : K.within ⟨s₁.tokens, 1⟩ = ⟨s₁.tokens ++ first :: others, 1⟩ :=
      congrArg (fun xs => Cursor.mk (xs ++ first :: others) 1) hlexemes
    have hahead : (s₂.behind s₁.found s₁.line).tokens ++ [⟨.endOfText, s₂.line + s₁.line⟩] =
        s₁.tokens ++ first :: others := by
      rw [← hfirst, Scan.tokens, Scan.behind, List.reverse_append, ← List.map_reverse,
        List.append_assoc]
      rfl
    rw [hdeclared, hwithin, ← hahead] at hrounds
    exact hrounds

/-- A reference without a right end does not take the table behind it for one. -/
theorem parse_join_incomplete :
    parse .partials "Ref: b.x >" = .ok ⟨none, [], [],
      [⟨none, some ⟨none, "b", ["x"]⟩, .manyToOne, none, none, none, 1⟩], []⟩ ∧
    parse .partials "Table b { x int }" = .ok ⟨none,
      [⟨none, "b", none, [.column ⟨"x", some "int", [], 1⟩], [], none, 1⟩], [], [], []⟩ ∧
    parse .partials ("Ref: b.x >" ++ "\n" ++ "Table b { x int }") = .ok ⟨none,
      [⟨none, "b", none, [.column ⟨"x", some "int", [], 2⟩], [], none, 2⟩], [],
      [⟨none, some ⟨none, "b", ["x"]⟩, .manyToOne, none, none, none, 1⟩], []⟩ := by
  have h₁ : parse .partials "Ref: b.x >" = .ok ⟨none, [], [],
      [⟨none, some ⟨none, "b", ["x"]⟩, .manyToOne, none, none, none, 1⟩], []⟩ := by
    decide +kernel
  have h₂ : parse .partials "Table b { x int }" = .ok ⟨none,
      [⟨none, "b", none, [.column ⟨"x", some "int", [], 1⟩], [], none, 1⟩], [], [], []⟩ := by
    decide +kernel
  exact ⟨h₁, h₂, parse_join h₁ h₂⟩

end Document

end SchemaGraph
