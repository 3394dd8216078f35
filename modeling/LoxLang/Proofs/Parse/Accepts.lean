import LoxLang.Proofs.Parse.Complete.Statements
import LoxLang.Token.Scan

set_option autoImplicit false

/-! # Reading accepts exactly the grammar

Put together, the two directions say what `parse?` does with a token list that ends in its only
end-of-input token: it reports nothing exactly if the tokens before that one are a program of the
grammar, and then the statements are the tree of the derivation in which every `else` belongs to the
nearest `if` that is open. There is only one such tree. -/

namespace LoxLang.Parse

open Grammar

/-! ## Reading ends -/

/-- A rule that does not stop with a fault. -/
def Faultless {α : Type} (r : Rule α) : Prop :=
  ∀ c diagnostic after, r c ≠ .error (.fault diagnostic) after

theorem Faultless.bind {α β : Type} {r : Rule α} {f : α → Rule β} (hr : Faultless r)
    (hf : ∀ a, Faultless (f a)) : Faultless (r >>= f) := by
  intro c diagnostic after h
  rw [bind_run] at h
  cases hrun : r c with
  | ok a mid =>
      rw [hrun] at h
      exact hf a mid diagnostic after h
  | error halt mid =>
      rw [hrun] at h
      cases h
      exact hr c diagnostic after hrun

theorem faultless_pure {α : Type} (a : α) : Faultless (pure a) := by
  intro c diagnostic after h
  cases h

theorem faultless_peek : Faultless peek := by
  intro c diagnostic after
  unfold peek
  split <;> simp

theorem faultless_sync : Faultless sync := by
  intro c diagnostic after
  unfold sync
  dsimp only
  split <;> simp

/-- A fault inside a declaration does not stop the reading. -/
theorem faultless_orSync (r : Rule Stmt) : Faultless (orSync r) := by
  intro c diagnostic after
  unfold orSync
  split
  case h_1 => simp
  case h_2 =>
      split
      case h_1 => simp
      case h_2 hsync =>
          intro heq
          cases heq
          exact faultless_sync _ _ _ hsync
  case h_3 hne _ =>
      intro heq
      cases heq
      exact hne _ rfl

theorem faultless_program (n : Nat) : Faultless (program n) := by
  induction n with
  | zero =>
      intro c diagnostic after h
      cases h
  | succ n ih =>
      rw [program]
      refine Faultless.bind (faultless_peek.bind fun t => faultless_pure _) fun atEnd => ?_
      cases atEnd with
      | true => exact faultless_pure _
      | false =>
          refine Faultless.bind (faultless_orSync _) fun stmt => ?_
          exact ih.bind fun more => faultless_pure _

end LoxLang.Parse

namespace LoxLang

open Grammar Parse

/-- What it is for a token list to read as something. -/
theorem parse?_eq_some {ts : List Token} {parsed : Parsed} :
    parse? ts = some parsed ↔ ∃ after, Parse.program (budget ⟨ts, []⟩) ⟨ts, []⟩
      = .ok parsed.statements after ∧ after.reported = parsed.diagnostics := by
  unfold parse?
  dsimp only
  cases Parse.program (budget ⟨ts, []⟩) ⟨ts, []⟩ with
  | ok stmts after =>
      constructor
      · rintro ⟨⟩
        exact ⟨after, rfl, rfl⟩
      · rintro ⟨after', heq, hreported⟩
        cases heq
        dsimp only
        rw [hreported]
  | error halt after =>
      constructor
      · rintro ⟨⟩
      · rintro ⟨after', heq, -⟩
        cases heq

/-- A token list that holds an end-of-input token reads as something. -/
theorem parse?_isSome {ts : List Token} (h : ¬ Inner ts) : (parse? ts).isSome = true := by
  have hreads := reads_program (budget ⟨ts, []⟩) ⟨ts, []⟩
  unfold Reads at hreads
  cases hrun : Parse.program (budget ⟨ts, []⟩) ⟨ts, []⟩ with
  | ok stmts after => simp [parse?, hrun]
  | error halt after =>
      rw [hrun] at hreads
      cases halt with
      | fault diagnostic => exact absurd hrun (faultless_program _ _ _ _)
      | ranOut => exact absurd (hreads.ranOut rfl) h
      | overBudget =>
          have hshort := hreads.overBudget rfl
          simp only [budget] at hshort
          omega

/-- What was read, whatever was reported. -/
theorem parse?_reads {ts : List Token} {parsed : Parsed} (h : parse? ts = some parsed) :
    ∃ us after, after.reported = parsed.diagnostics ∧ Took us ⟨ts, []⟩ after ∧
      ReadProgram ⟨ts, []⟩ us parsed.statements after := by
  obtain ⟨after, hrun, hreported⟩ := parse?_eq_some.mp h
  have hreads := reads_program (budget ⟨ts, []⟩) ⟨ts, []⟩
  unfold Reads at hreads
  rw [hrun] at hreads
  obtain ⟨us, htook, hread⟩ := hreads
  exact ⟨us, after, hreported, htook, hread⟩

/-- Whatever was reported, the statements that were read are well-formed trees of tokens of the list. -/
theorem parse?_formed {ts : List Token} {parsed : Parsed} (h : parse? ts = some parsed) :
    List.Forall₂ (Stmt.Like (.fitting ts)) parsed.statements parsed.statements := by
  obtain ⟨us, after, -, htook, hread⟩ := parse?_reads h
  have hmem : ∀ t ∈ us, t ∈ ts := by
    intro t ht
    rw [show ts = us ++ after.rest from htook.rest]
    exact List.mem_append_left _ ht
  exact Stmt.likeAll_mono (Likeness.fitting_le hmem) hread.formed

/-- If nothing was reported, the tokens are a program with the statements that were read. -/
theorem parse?_derived {ts : List Token} {eof : Token} {parsed : Parsed} (hts : Inner ts)
    (heof : eof.kind = .endOfInput) (h : parse? (ts ++ [eof]) = some parsed)
    (hquiet : parsed.diagnostics = []) : Program .nearest ts parsed.statements := by
  obtain ⟨us, after, hreported, htook, hread⟩ := parse?_reads h
  -- The tokens that were read are those before the first end of input, which is `eof`.
  have hus : us = ts := by
    obtain ⟨t, more, hrest, ht⟩ := hread.atEnd
    have hcut : us ++ t :: more = ts ++ eof :: [] := by rw [← hrest, ← htook.rest]
    exact (inner_unique htook.inner hts ht heof hcut).1
  rw [hquiet] at hreported
  exact hus ▸ hread.derived hreported

/-- A program is read without a report, as the statements of its derivation. -/
theorem parse?_of_program {ts : List Token} {eof : Token} {stmts : List Stmt}
    (h : Program .nearest ts stmts) (heof : eof.kind = .endOfInput) :
    parse? (ts ++ [eof]) = some ⟨stmts, []⟩ := by
  have hbudget : 16 * (ts.length + ([] : List Token).length + 1) + 3
      ≤ budget ⟨ts ++ [eof], []⟩ := by
    simp only [budget, List.length_append, List.length_nil, List.length_singleton]
    omega
  exact parse?_eq_some.mpr ⟨_, program_takes h heof hbudget [], rfl⟩

/-- The tokens of a program have one tree. -/
theorem Grammar.Program.unique {ts : List Token} {stmts stmts' : List Stmt}
    (h : Program .nearest ts stmts) (h' : Program .nearest ts stmts') : stmts = stmts' := by
  have heof : (Scan.endToken 1).kind = .endOfInput := rfl
  have hread := (parse?_of_program h heof).symm.trans (parse?_of_program h' heof)
  cases hread
  rfl

/-- Reading accepts exactly the grammar and builds the tree of the derivation. -/
theorem parse?_grammar (ts : List Token) (eof : Token) (hts : Inner ts)
    (heof : eof.kind = .endOfInput) :
    ∃ parsed, parse? (ts ++ [eof]) = some parsed ∧
      (parsed.diagnostics = [] ↔ ∃ program, Program .any ts program) ∧
      ∀ program, Program .nearest ts program ↔
        parsed.diagnostics = [] ∧ parsed.statements = program := by
  have hinner : ¬ Inner (ts ++ [eof]) := fun h =>
    (inner_append.mp h).2 eof (List.mem_singleton.mpr rfl) heof
  obtain ⟨parsed, hparsed⟩ := Option.isSome_iff_exists.mp (parse?_isSome hinner)
  have hcomplete {program : List Stmt} (h : Program .nearest ts program) :
      parsed.diagnostics = [] ∧ parsed.statements = program := by
    have hread := parse?_of_program h heof
    rw [hparsed] at hread
    cases hread
    exact ⟨rfl, rfl⟩
  refine ⟨parsed, hparsed, ⟨fun hquiet => ?_, ?_⟩, fun program => ⟨hcomplete, ?_⟩⟩
  · exact ⟨parsed.statements, (parse?_derived hts heof hparsed hquiet).toAny⟩
  · rintro ⟨program, h⟩
    obtain ⟨program', h'⟩ := h.toNearest
    exact (hcomplete h').1
  · rintro ⟨hquiet, rfl⟩
    exact parse?_derived hts heof hparsed hquiet

/-- A loop without initial statement, condition and increment: `for (;;) print nil;`. -/
def bareFor : List Token :=
  [⟨.kwFor, "for", .nil, 1⟩, ⟨.leftParen, "(", .nil, 1⟩, ⟨.semicolon, ";", .nil, 1⟩,
    ⟨.semicolon, ";", .nil, 1⟩, ⟨.rightParen, ")", .nil, 1⟩, ⟨.kwPrint, "print", .nil, 1⟩,
    ⟨.kwNil, "nil", .nil, 1⟩, ⟨.semicolon, ";", .nil, 1⟩]

theorem parse?_grammar_bareFor :
    ∃ parsed, parse? (bareFor ++ [Scan.endToken 1]) = some parsed ∧
      (parsed.diagnostics = [] ↔ ∃ program, Program .any bareFor program) ∧
      ∀ program, Program .nearest bareFor program ↔
        parsed.diagnostics = [] ∧ parsed.statements = program :=
  parse?_grammar bareFor (Scan.endToken 1) (by simp [Parse.Inner, bareFor]) rfl

/-- Without an initial statement a `for` loop is no block. -/
theorem bareFor_not_block :
    ∃ parsed, parse? (scan "for(;;) print nil;".toList).tokens = some parsed ∧
      parsed.diagnostics = [] ∧
      parsed.statements = [.loop (.literal (.bool true)) (.print (.literal .nil))] ∧
      parsed.statements ≠ [.block [.loop (.literal (.bool true)) (.print (.literal .nil))]] := by
  have hscan : (scan "for(;;) print nil;".toList).tokens = bareFor ++ [Scan.endToken 1] := by
    decide +kernel
  refine ⟨⟨[.loop (.literal (.bool true)) (.print (.literal .nil))], []⟩, ?_, rfl, rfl, by simp⟩
  rw [hscan]
  rfl

end LoxLang
