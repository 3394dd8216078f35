import LoxLang.Proofs.Parse.Fragment

set_option autoImplicit false

/-! # What a malformed statement costs

After a fault a declaration is given up, and the tokens up to the next boundary with it. A malformed
statement that ends in a semicolon costs no more than itself: what stands before it and behind it is
read as if it were not there (`parse?_malformed`), also inside a block. A statement whose semicolon is
missing costs more when the fault is found at the keyword of the next one. That keyword is the token
which is discarded in any case, so the statement behind it is lost as well (`parse?_unfinished`). -/

namespace LoxLang.Parse

open Grammar

/-! ## Giving up a fragment -/

theorem Fragment.suffix {leads : List Kind} {ms us : List Token} {u : Token}
    (h : Fragment leads ms) (hsuffix : u :: us <:+ ms) :
    (u.kind ∈ leads ∨ Bland u.kind) ∧ ∀ v ∈ us, Bland v.kind := by
  cases ms with
  | nil => cases List.suffix_nil.mp hsuffix
  | cons t more =>
      obtain ⟨-, hfirst, hmore⟩ := h
      rcases List.suffix_cons_iff.mp hsuffix with heq | hlater
      · cases heq
        exact ⟨hfirst, hmore⟩
      · have hall := fun v hv => hmore v (hlater.subset hv)
        exact ⟨Or.inr (hall u List.mem_cons_self), fun v hv => hall v (List.mem_cons_of_mem u hv)⟩

/-- There is no boundary among tokens that neither end a statement nor start one. -/
theorem boundary?_bland {previous : Kind} {us : List Token} (rest : List Token)
    (hprevious : previous ≠ .semicolon) (hus : ∀ u ∈ us, Bland u.kind) :
    ∃ last, last ≠ .semicolon ∧ boundary? previous (us ++ rest) = boundary? last rest := by
  induction us generalizing previous with
  | nil => exact ⟨previous, hprevious, rfl⟩
  | cons u us ih =>
      obtain ⟨hu, hus⟩ := List.forall_mem_cons.mp hus
      obtain ⟨hsemi, -, -, hend⟩ := hu.ne
      rw [List.cons_append, boundary?, if_neg (by simp [hend, hprevious, hu.2])]
      exact ih hsemi hus

theorem leadKinds_ne {kind : Kind} (h : kind ∈ leadKinds) :
    kind ≠ .semicolon ∧ kind ≠ .rightBrace ∧ kind ≠ .endOfInput := by
  refine ⟨?_, ?_, ?_⟩ <;> rintro rfl <;> exact absurd h (by decide)

/-- What is discarded of a fragment, and from where. -/
theorem resume?_fragment {ms unread : List Token} (rest : List Token) (h : Fragment leadKinds ms)
    (hsuffix : unread <:+ ms) (hne : unread ≠ []) :
    ∃ last, last ≠ .semicolon ∧ resume? (unread ++ rest) = boundary? last rest := by
  cases unread with
  | nil => exact absurd rfl hne
  | cons u us =>
      obtain ⟨hu, hus⟩ := h.suffix hsuffix
      have hne : u.kind ≠ .semicolon ∧ u.kind ≠ .endOfInput :=
        hu.elim (fun hlead => ⟨(leadKinds_ne hlead).1, (leadKinds_ne hlead).2.2⟩)
          fun hbland => ⟨hbland.ne.1, hbland.ne.2.2.2⟩
      rw [List.cons_append, resume?, if_neg (by simp [hne.2])]
      exact boundary?_bland rest hne.1 hus

/-- Behind the semicolon at the end of a fragment, reading goes on. -/
theorem resume?_semicolon {ms unread more : List Token} {semicolon t : Token}
    (hsemicolon : semicolon.kind = .semicolon) (h : Fragment leadKinds ms)
    (hsuffix : unread <:+ ms) :
    resume? (unread ++ semicolon :: t :: more) = some (t :: more) := by
  have hbehind : boundary? .semicolon (t :: more) = some (t :: more) := by
    rw [boundary?, if_pos (by simp)]
  cases hunread : unread with
  | nil => rw [List.nil_append, resume?, if_neg (by simp [hsemicolon]), hsemicolon, hbehind]
  | cons u us =>
      obtain ⟨last, hlast, hresume⟩ :=
        resume?_fragment (semicolon :: t :: more) h hsuffix (by simp [hunread])
      have hstop : startsStatement .semicolon = false := by decide
      rw [← hunread, hresume, boundary?, if_neg (by simp [hsemicolon, hlast, hstop]), hsemicolon,
        hbehind]

/-- The token that comes next, in a fragment or behind it. -/
theorem Fragment.next {ms : List Token} (h : Fragment leadKinds ms) {u : Token} (hu : Opens u.kind)
    (helse : u.kind ≠ .kwElse) (rest : List Token) :
    ∃ t ts, ms ++ u :: rest = t :: ts ∧ Opens t.kind ∧ t.kind ≠ .kwElse := by
  cases ms with
  | nil => exact ⟨u, rest, rfl, hu, helse⟩
  | cons t more =>
      obtain ⟨hne, hfirst, -⟩ := h
      refine ⟨t, _, rfl, ?_, hne⟩
      exact hfirst.elim (fun hlead => (leadKinds_ne hlead).2)
        fun hbland => ⟨hbland.ne.2.2.1, hbland.ne.2.2.2⟩

theorem opens_semicolon {t : Token} (h : t.kind = .semicolon) : Opens t.kind ∧ t.kind ≠ .kwElse := by
  rw [h]
  exact ⟨⟨by decide, by decide⟩, by decide⟩

/-- A fragment that is given up before its end takes one turn, which ends behind the semicolon. -/
theorem turns_fragment {ms unread : List Token} {semicolon eof : Token} {n : Nat}
    {new : List Diagnostic} {diagnostic : Diagnostic} (hsemicolon : semicolon.kind = .semicolon)
    (h : Fragment leadKinds ms) (hsuffix : unread <:+ ms)
    (hfault : declaration n false ⟨ms ++ [semicolon, eof], []⟩
      = .error (.fault diagnostic) ⟨unread ++ [semicolon, eof], new⟩)
    (t : Token) (more : List Token) (old : List Diagnostic) :
    Turns ⟨ms ++ semicolon :: t :: more, old⟩ [] ⟨t :: more, old ++ (new ++ [diagnostic])⟩ := by
  have hfault : declaration n false ⟨(ms ++ [semicolon]) ++ [eof], []⟩
      = .error (.fault diagnostic) ⟨(unread ++ [semicolon]) ++ [eof], new⟩ := by
    simpa using hfault
  have hlen : [eof].length ≤ (t :: more).length := by simp
  obtain ⟨_, rfl, hsettles⟩ := declaration_fault_settles hfault (by simp) hlen
  have hdecl := hsettles old
  rw [List.append_assoc, List.append_assoc, List.singleton_append] at hdecl
  obtain ⟨first, others, hms, hopens, -⟩ :=
    h.next (opens_semicolon hsemicolon).1 (opens_semicolon hsemicolon).2 (t :: more)
  rw [hms] at hdecl ⊢
  refine .giveUp hopens hdecl (resume?_semicolon hsemicolon h hsuffix) ?_
  rw [← List.append_assoc]
  exact .none _

/-- A fragment of which nothing is read is given up in one turn. -/
theorem fragment_fault {ms : List Token} {semicolon eof : Token} {errors : List Diagnostic}
    (hsemicolon : semicolon.kind = .semicolon) (heof : eof.kind = .endOfInput)
    (h : Fragment leadKinds ms) (hnone : parse? (ms ++ [semicolon, eof]) = some ⟨[], errors⟩)
    (t : Token) (more : List Token) (old : List Diagnostic) :
    Turns ⟨ms ++ semicolon :: t :: more, old⟩ [] ⟨t :: more, old ++ errors⟩ := by
  obtain ⟨after, hrun, -⟩ := parse?_eq_some.mp hnone
  obtain ⟨n, hn⟩ : ∃ n, budget ⟨ms ++ [semicolon, eof], []⟩ = n + 1 :=
    ⟨budget ⟨ms ++ [semicolon, eof], []⟩ - 1, by simp only [budget]; omega⟩
  obtain ⟨first, others, hms, hopens, -⟩ :=
    h.next (opens_semicolon hsemicolon).1 (opens_semicolon hsemicolon).2 [eof]
  rw [hn, hms, program_inTurns n first others [] hopens, ← hms] at hrun
  -- The first turn reads nothing, so it ends in a fault, and that is before the semicolon.
  obtain ⟨stmt, d, hturn, hrun⟩ := bind_eq_ok hrun
  obtain ⟨stmts, last, -, hrun⟩ := bind_eq_ok hrun
  have hrun : EStateM.Result.ok (stmt.toList ++ stmts) last = .ok [] after := hrun
  obtain ⟨hempty, -⟩ := EStateM.Result.ok.inj hrun
  obtain rfl : stmt = none := by simpa using (List.append_eq_nil_iff.mp hempty).1
  obtain ⟨diagnostic, ⟨tokens, new⟩, rest, hfault, -, -⟩ := orSync_eq_none hturn
  have helse : ∀ t more, [eof] = t :: more → t.kind ≠ .kwElse := by
    rintro t more heq
    cases heq
    simp [heof]
  obtain ⟨unread, hsuffix, hunread⟩ := faultsIn_fragment hsemicolon h helse n [] _ _ hfault
  obtain rfl : tokens = unread ++ [semicolon, eof] := hunread
  -- That turn is all of the program, so its reports are all there are.
  have hturns := turns_fragment hsemicolon h hsuffix hfault eof [] []
  have hall := hturns.settles program_inTurns (program_atEnd heof [] _)
  have hparse := parse?_eq_some_iff_settles.mpr ⟨_, hall⟩
  rw [hnone] at hparse
  cases hparse
  exact turns_fragment hsemicolon h hsuffix hfault t more old

/-- What is discarded when reading goes on at `resumed`: no keyword that starts a statement, and a
semicolon only as the last token. -/
structure Discarded (skipped resumed : List Token) : Prop where
  noKeyword : ∀ t ∈ skipped, startsStatement t.kind = false
  noEnd : ∀ t ∈ skipped.dropLast, t.kind ≠ .semicolon
  boundary : resumed = [] ∨ (∃ t, skipped.getLast? = some t ∧ t.kind = .semicolon) ∨
    ∃ t more, resumed = t :: more ∧ startsStatement t.kind = true

theorem Discarded.cons {t : Token} {skipped resumed : List Token} (h : Discarded skipped resumed)
    (hkeyword : startsStatement t.kind = false) (hend : t.kind ≠ .semicolon) :
    Discarded (t :: skipped) resumed where
  noKeyword := List.forall_mem_cons.mpr ⟨hkeyword, h.noKeyword⟩
  noEnd := by
    cases skipped with
    | nil => exact fun u hu => absurd hu List.not_mem_nil
    | cons v vs => exact List.forall_mem_cons.mpr ⟨hend, h.noEnd⟩
  boundary := by
    refine h.boundary.imp_right (Or.imp_left ?_)
    rintro ⟨u, hu, hk⟩
    cases skipped with
    | nil => cases hu
    | cons v vs => exact ⟨u, by rw [List.getLast?_cons_cons, hu], hk⟩

theorem boundary?_discards {previous : Kind} {ts : List Token} {eof : Token}
    (hprevious : previous ≠ .semicolon) (hts : Inner ts) (heof : eof.kind = .endOfInput) :
    ∃ skipped resumed, ts = skipped ++ resumed ∧
      boundary? previous (ts ++ [eof]) = some (resumed ++ [eof]) ∧ Discarded skipped resumed := by
  induction ts generalizing previous with
  | nil =>
      refine ⟨[], [], rfl, ?_, by simp, by simp, Or.inl rfl⟩
      rw [List.nil_append, boundary?, if_pos (by simp [heof])]
  | cons t ts ih =>
      obtain ⟨ht, hts⟩ := inner_cons.mp hts
      rw [List.cons_append, boundary?]
      cases hstart : startsStatement t.kind with
      | true =>
          refine ⟨[], t :: ts, rfl, ?_, by simp, by simp, Or.inr (Or.inr ⟨t, ts, rfl, hstart⟩)⟩
          rw [if_pos (by simp)]
          rfl
      | false =>
          rw [if_neg (by simp [ht, hprevious])]
          by_cases hsemi : t.kind = .semicolon
          · obtain ⟨next, more, hnext⟩ : ∃ next more, ts ++ [eof] = next :: more :=
              List.exists_cons_of_ne_nil (by simp)
            refine ⟨[t], ts, rfl, ?_, by simp [hstart], by simp, Or.inr (Or.inl ⟨t, rfl, hsemi⟩)⟩
            rw [hnext, boundary?, if_pos (by simp [hsemi])]
          · obtain ⟨skipped, resumed, rfl, hboundary, hdiscarded⟩ := ih hsemi hts
            exact ⟨t :: skipped, resumed, rfl, hboundary, hdiscarded.cons hstart hsemi⟩

theorem startsStatement_ne {kind : Kind} (h : startsStatement kind = true) :
    kind ≠ .semicolon ∧ kind ≠ .kwElse ∧ Opens kind := by
  refine ⟨?_, ?_, ?_, ?_⟩ <;> rintro rfl <;> exact absurd h (by decide)

/-- What is discarded when a statement is given up whose semicolon is missing. -/
theorem resume?_unfinished {ms unread behind : List Token} {keyword eof : Token}
    (h : Fragment leadKinds ms) (hsuffix : unread <:+ ms)
    (hkeyword : startsStatement keyword.kind = true) (hbehind : Inner behind)
    (heof : eof.kind = .endOfInput) :
    ∃ skipped resumed, keyword :: behind = skipped ++ resumed ∧
      resume? (unread ++ keyword :: (behind ++ [eof])) = some (resumed ++ [eof]) ∧
      (unread ≠ [] → skipped = []) ∧
      (unread = [] → ∃ more, skipped = keyword :: more ∧ Discarded more resumed) := by
  obtain ⟨hsemi, -, -, hend⟩ := startsStatement_ne hkeyword
  by_cases hunread : unread = []
  · obtain ⟨skipped, resumed, rfl, hboundary, hdiscarded⟩ := boundary?_discards hsemi hbehind heof
    refine ⟨keyword :: skipped, resumed, rfl, ?_, fun hne => absurd hunread hne, fun _ => ?_⟩
    · rw [hunread, List.nil_append, resume?, if_neg (by simp [hend]), hboundary]
    · exact ⟨skipped, rfl, hdiscarded⟩
  · refine ⟨[], keyword :: behind, rfl, ?_, fun _ => rfl, fun hnil => absurd hnil hunread⟩
    obtain ⟨last, -, hresume⟩ := resume?_fragment (keyword :: (behind ++ [eof])) h hsuffix hunread
    rw [hresume, boundary?, if_pos (by simp [hkeyword])]
    rfl

theorem Fragment.mono {leads leads' : List Kind} {ms : List Token} (h : Fragment leads ms)
    (hle : leads ⊆ leads') : Fragment leads' ms := by
  cases ms with
  | nil => trivial
  | cons t more => exact ⟨h.1, h.2.1.imp_left fun hlead => hle hlead, h.2.2⟩

/-- A rule that has stopped has left a suffix of what was ahead. -/
theorem declaration_suffix {n : Nat} {inFunction : Bool} {c d : Cursor} {halt : Halt}
    (h : declaration n inFunction c = .error halt d) : d.rest <:+ c.rest := by
  have hpass := ((Script.stmtsBelow (Nat.le_refl n)).declaration inFunction).passes c
  rw [(Script.stmtScripts n).declaration, h] at hpass
  obtain ⟨ts, hrest, -⟩ := hpass
  exact ⟨ts, hrest.symm⟩

end LoxLang.Parse

namespace LoxLang

open Grammar Parse

/-- A malformed statement that ends in a semicolon costs only itself. -/
theorem parse?_malformed {before malformed behind : List Token} {semicolon eof : Token}
    {stmts : List Stmt} {errors : List Diagnostic} (hbefore : Inner before) (hbehind : Inner behind)
    (hsemicolon : semicolon.kind = .semicolon) (heof : eof.kind = .endOfInput)
    (hread : parse? (before ++ [eof]) = some ⟨stmts, []⟩)
    (hfragment : Fragment leadKinds malformed)
    (hnone : parse? (malformed ++ [semicolon, eof]) = some ⟨[], errors⟩) :
    ∃ parsed, parse? (behind ++ [eof]) = some parsed ∧
      parse? (before ++ (malformed ++ semicolon :: (behind ++ [eof])))
        = some ⟨stmts ++ parsed.statements, errors ++ parsed.diagnostics⟩ ∧
      (parsed.diagnostics = [] → ∀ opening closing : Token,
        opening.kind = .leftBrace → closing.kind = .rightBrace →
        parse? (opening :: (before ++ (malformed ++ semicolon :: (behind ++ [closing, eof]))))
          = some ⟨[.block (stmts ++ parsed.statements)], errors⟩) := by
  obtain ⟨parsed, hparsed⟩ := parse?_exists behind heof
  have hprogram := parse?_derived hbefore heof hread rfl
  -- The turns for what stands before the malformed statement, and for that statement.
  have hturns (t : Token) (more : List Token) (old : List Diagnostic) :
      Turns ⟨before ++ (malformed ++ semicolon :: t :: more), old⟩ stmts ⟨t :: more, old ++ errors⟩ := by
    have hgiveUp := fragment_fault hsemicolon heof hfragment hnone t more old
    obtain ⟨first, others, hfirst, -, helse⟩ := hfragment.next (opens_semicolon hsemicolon).1
      (opens_semicolon hsemicolon).2 (t :: more)
    rw [hfirst] at hgiveUp ⊢
    have h := (turns_program hprogram helse others old).trans hgiveUp
    rwa [List.append_nil] at h
  refine ⟨parsed, hparsed, ?_, fun hquiet opening closing hopening hclosing => ?_⟩
  · obtain ⟨t, more, hnext⟩ : ∃ t more, behind ++ [eof] = t :: more :=
      List.exists_cons_of_ne_nil (by simp)
    rw [hnext] at hparsed ⊢
    exact parse?_turns (hturns t more []) hparsed
  · have hinside := turns_program (parse?_derived hbehind heof hparsed hquiet)
      (by simp [hclosing] : closing.kind ≠ .kwElse) [eof] errors
    obtain ⟨t, more, hnext⟩ : ∃ t more, behind ++ [closing, eof] = t :: more :=
      List.exists_cons_of_ne_nil (by simp)
    rw [hnext] at hinside ⊢
    have hblock := turns_block hopening hclosing ((hturns t more []).trans hinside)
    exact parse?_eq_some_iff_settles.mpr
      ⟨_, hblock.settles program_inTurns (program_atEnd heof [] errors)⟩

/-- `print nil;` -/
def printNil : List Token :=
  [⟨.kwPrint, "print", .nil, 1⟩, ⟨.kwNil, "nil", .nil, 1⟩, ⟨.semicolon, ";", .nil, 1⟩]

/-- `return /(nil nil`, which stands in no function and has a parenthesis that is not closed. -/
def malformedReturn : List Token :=
  [⟨.kwReturn, "return", .nil, 1⟩, ⟨.slash, "/", .nil, 1⟩, ⟨.leftParen, "(", .nil, 1⟩,
    ⟨.kwNil, "nil", .nil, 1⟩, ⟨.kwNil, "nil", .nil, 1⟩]

/-- What is reported about it. -/
def malformedReturnErrors : List Diagnostic :=
  [GrammarFault.located .returnAtTopLevel ⟨.kwReturn, "return", .nil, 1⟩,
    GrammarFault.located (.expected "')' after expression") ⟨.kwNil, "nil", .nil, 1⟩]

theorem parse?_malformed_return :
    ∃ parsed, parse? (printNil ++ [Scan.endToken 1]) = some parsed ∧
      parse? (printNil ++ (malformedReturn ++ ⟨.semicolon, ";", .nil, 1⟩ ::
          (printNil ++ [Scan.endToken 1])))
        = some ⟨[.print (.literal .nil)] ++ parsed.statements,
            malformedReturnErrors ++ parsed.diagnostics⟩ ∧
      (parsed.diagnostics = [] → ∀ opening closing : Token,
        opening.kind = .leftBrace → closing.kind = .rightBrace →
        parse? (opening :: (printNil ++ (malformedReturn ++ ⟨.semicolon, ";", .nil, 1⟩ ::
            (printNil ++ [closing, Scan.endToken 1]))))
          = some ⟨[.block ([.print (.literal .nil)] ++ parsed.statements)], malformedReturnErrors⟩) := by
  have hinner : Parse.Inner printNil := by simp [Parse.Inner, printNil]
  have hread : parse? (printNil ++ [Scan.endToken 1]) = some ⟨[.print (.literal .nil)], []⟩ := rfl
  have hfragment : Fragment leadKinds malformedReturn := by
    simp [Fragment, Bland, malformedReturn, leadKinds, startsStatement]
  have hnone : parse? (malformedReturn ++ [⟨.semicolon, ";", .nil, 1⟩, Scan.endToken 1])
      = some ⟨[], malformedReturnErrors⟩ := rfl
  exact parse?_malformed hinner hinner rfl rfl hread hfragment hnone

/-- Where an unfinished statement is given up before the keyword of the next one has been reached, the
next one is read. Where it is given up at that keyword, the keyword is discarded, and with it all up to
the boundary behind it. -/
theorem parse?_unfinished {before unfinished unread behind : List Token} {keyword eof : Token}
    {stmts : List Stmt} {new : List Diagnostic} {diagnostic : Diagnostic} {n : Nat}
    (hbefore : Inner before) (hbehind : Inner behind) (heof : eof.kind = .endOfInput)
    (hkeyword : keyword.kind ∈ [.kwFun, .kwVar, .kwFor, .kwIf, .kwWhile, .kwPrint, .kwReturn])
    (hread : parse? (before ++ [eof]) = some ⟨stmts, []⟩)
    (hfragment : Fragment [.kwPrint, .kwVar, .kwReturn] unfinished)
    (hfault : declaration n false ⟨unfinished ++ keyword :: (behind ++ [eof]), []⟩
      = .error (.fault diagnostic) ⟨unread ++ keyword :: (behind ++ [eof]), new⟩) :
    ∃ skipped resumed parsed, keyword :: behind = skipped ++ resumed ∧
      parse? (resumed ++ [eof]) = some parsed ∧
      parse? (before ++ (unfinished ++ keyword :: (behind ++ [eof])))
        = some ⟨stmts ++ parsed.statements, new ++ diagnostic :: parsed.diagnostics⟩ ∧
      (unread ≠ [] → skipped = []) ∧
      (unread = [] → ∃ more, skipped = keyword :: more ∧ Discarded more resumed) := by
  have hfragment : Fragment leadKinds unfinished := hfragment.mono (by decide)
  have hstarts : startsStatement keyword.kind = true := by
    simp only [startsStatement, List.contains_iff_mem]
    exact List.mem_cons_of_mem _ hkeyword
  have hsuffix : unread <:+ unfinished := by
    obtain ⟨ts, hts⟩ := declaration_suffix hfault
    exact ⟨ts, List.append_cancel_right (by rw [List.append_assoc, hts])⟩
  obtain ⟨skipped, resumed, hkeep, hresume, hread₁, hlost⟩ :=
    resume?_unfinished hfragment hsuffix hstarts hbehind heof
  obtain ⟨parsed, hparsed⟩ := parse?_exists resumed heof
  refine ⟨skipped, resumed, parsed, hkeep, hparsed, ?_, hread₁, hlost⟩
  obtain ⟨-, helse, hopens⟩ := startsStatement_ne hstarts
  obtain ⟨first, others, hfirst, hopens, helse⟩ := hfragment.next hopens helse (behind ++ [eof])
  have hgiveUp : Turns ⟨unfinished ++ keyword :: (behind ++ [eof]), []⟩ []
      ⟨resumed ++ [eof], new ++ [diagnostic]⟩ := by
    rw [← List.append_nil (unfinished ++ _), ← List.append_nil (unread ++ _)] at hfault
    obtain ⟨_, rfl, hsettles⟩ := declaration_fault_settles hfault (by simp) (Nat.le_refl _)
    have hdecl := hsettles []
    rw [List.append_nil, List.append_nil] at hdecl
    rw [hfirst] at hdecl ⊢
    exact .giveUp hopens hdecl hresume (.none _)
  rw [hfirst] at hgiveUp ⊢
  have hturns := (turns_program (parse?_derived hbefore heof hread rfl) helse others []).trans hgiveUp
  rw [List.append_nil] at hturns
  rw [parse?_turns hturns hparsed, List.append_assoc, List.singleton_append]

/-- `print a`, without its semicolon. -/
def unfinishedPrint : List Token :=
  [⟨.kwPrint, "print", .nil, 1⟩, ⟨.identifier, "a", .nil, 1⟩]

/-- `b;`, which stands behind the keyword of the next statement. -/
def nextPrinted : List Token :=
  [⟨.identifier, "b", .nil, 1⟩, ⟨.semicolon, ";", .nil, 1⟩]

theorem parse?_unfinished_print :
    ∃ skipped resumed parsed, ⟨.kwPrint, "print", .nil, 1⟩ :: nextPrinted = skipped ++ resumed ∧
      parse? (resumed ++ [Scan.endToken 1]) = some parsed ∧
      parse? (printNil ++ (unfinishedPrint ++ ⟨.kwPrint, "print", .nil, 1⟩ ::
          (nextPrinted ++ [Scan.endToken 1])))
        = some ⟨[.print (.literal .nil)] ++ parsed.statements,
            [] ++ GrammarFault.located (.expected "';' after value") ⟨.kwPrint, "print", .nil, 1⟩ ::
              parsed.diagnostics⟩ ∧
      (([] : List Token) ≠ [] → skipped = []) ∧
      (([] : List Token) = [] → ∃ more, skipped = ⟨.kwPrint, "print", .nil, 1⟩ :: more ∧
        Discarded more resumed) := by
  have hfragment : Fragment [.kwPrint, .kwVar, .kwReturn] unfinishedPrint := by
    simp [Fragment, Bland, unfinishedPrint, startsStatement]
  have hread : parse? (printNil ++ [Scan.endToken 1]) = some ⟨[.print (.literal .nil)], []⟩ := rfl
  have hfault : declaration 80 false
      ⟨unfinishedPrint ++ ⟨.kwPrint, "print", .nil, 1⟩ :: (nextPrinted ++ [Scan.endToken 1]), []⟩
      = .error (.fault (GrammarFault.located (.expected "';' after value")
          ⟨.kwPrint, "print", .nil, 1⟩))
        ⟨[] ++ ⟨.kwPrint, "print", .nil, 1⟩ :: (nextPrinted ++ [Scan.endToken 1]), []⟩ := rfl
  exact parse?_unfinished (by simp [Parse.Inner, printNil]) (by simp [Parse.Inner, nextPrinted]) rfl
    (by decide) hread hfragment hfault

/-- A missing semicolon hides the statement behind it. -/
theorem missingSemicolon_hidesNext :
    parse? (scan "print a print b;".toList).tokens
        = some ⟨[], [GrammarFault.located (.expected "';' after value")
            ⟨.kwPrint, "print", .nil, 1⟩]⟩ ∧
      parse? (scan "print b;".toList).tokens
        = some ⟨[.print (.name ⟨.identifier, "b", .nil, 1⟩)], []⟩ := by
  have hwhole : (scan "print a print b;".toList).tokens
      = unfinishedPrint ++ ⟨.kwPrint, "print", .nil, 1⟩ :: (nextPrinted ++ [Scan.endToken 1]) := by
    decide +kernel
  have hnext : (scan "print b;".toList).tokens
      = ⟨.kwPrint, "print", .nil, 1⟩ :: (nextPrinted ++ [Scan.endToken 1]) := by
    decide +kernel
  rw [hwhole, hnext]
  exact ⟨rfl, rfl⟩

end LoxLang
