import LoxLang.Proofs.Grammar.Mapped
import LoxLang.Proofs.Parse.Accepts
import LoxLang.Proofs.Token.Scan
import LoxLang.Session

set_option autoImplicit false

/-! # Readings

Every text reads as something, and its statements are well-formed whatever was reported. A text that
reads without a diagnostic is a program (`Reading.derived`). With empty lines before it, it reads as
the same program with other lines (`Reading.lowered_like`), and two such texts with a line feed
between them read as the one program behind the other (`Reading.ofSource_append`). -/

namespace LoxLang

open Grammar Parse

theorem Token.moved_unnoticed (lines : Nat) : Unnoticed (Token.moved lines) where
  kind := fun _ => rfl
  literal := fun _ => rfl

namespace Reading

/-- The tokens of a text do not run out, so what is read is what they parse to. -/
theorem ofSource_eq (source : List Char) :
    ∃ parsed, parse? (scan source).tokens = some parsed ∧
      ofSource source = ⟨parsed.statements, (scan source).diagnostics ++ parsed.diagnostics⟩ := by
  obtain ⟨ts, htokens, -⟩ := scan_tokens source
  have hend : ¬ Inner (scan source).tokens := by
    rw [htokens, inner_append]
    rintro ⟨-, hlast⟩
    exact hlast _ (List.mem_singleton.mpr rfl) rfl
  obtain ⟨parsed, hparsed⟩ := Option.isSome_iff_exists.mp (parse?_isSome hend)
  refine ⟨parsed, hparsed, ?_⟩
  simp only [ofSource, hparsed]

/-- What reads from a source text is well-formed, whatever was reported. -/
theorem statements_formed (source : List Char) :
    List.Forall₂ (Stmt.Like .formed) (ofSource source).statements (ofSource source).statements := by
  obtain ⟨parsed, hparsed, hsource⟩ := ofSource_eq source
  rw [hsource]
  exact Stmt.likeAll_mono (Likeness.fitting_le_formed _) (parse?_formed hparsed)

/-- Without a diagnostic, the tokens of a text are a program with the statements that were read. -/
theorem derived {source : List Char} (h : (ofSource source).diagnostics = []) :
    ∃ ts, scan source = ⟨ts ++ [Scan.endToken (1 + lineFeeds source)], []⟩ ∧
      Program .nearest ts (ofSource source).statements := by
  obtain ⟨ts, htokens, hinner⟩ := scan_tokens source
  obtain ⟨parsed, hparsed, hsource⟩ := ofSource_eq source
  rw [hsource] at h ⊢
  obtain ⟨hscan, hquiet⟩ := List.append_eq_nil_iff.mp h
  rw [htokens] at hparsed
  refine ⟨ts, ?_, parse?_derived hinner rfl hparsed hquiet⟩
  rw [← htokens, ← hscan]

/-- A text whose tokens are a program reads as that program. -/
theorem ofSource_of_program {source : List Char} {ts : List Token} {eof : Token}
    {stmts : List Stmt} (hscan : scan source = ⟨ts ++ [eof], []⟩) (heof : eof.kind = .endOfInput)
    (h : Program .nearest ts stmts) : ofSource source = ⟨stmts, []⟩ := by
  have hparsed := parse?_of_program h heof
  simp only [ofSource, hscan, hparsed, List.append_nil]

/-- Further down, a text reads as a program of the same tokens further down. -/
theorem lowered_derived {source : List Char} (h : (ofSource source).diagnostics = [])
    {ts : List Token} {eof : Token} (hscan : scan source = ⟨ts ++ [eof], []⟩)
    (heof : eof.kind = .endOfInput) (lines : Nat) :
    (ofSource (lowered lines source)).diagnostics = [] ∧
      Program .nearest (ts.map (Token.moved lines)) (ofSource (lowered lines source)).statements := by
  obtain ⟨us, hscan', hprogram⟩ := derived h
  obtain rfl : us = ts := by
    have htokens := congrArg Scan.tokens (hscan'.symm.trans hscan)
    exact (List.append_inj' htokens rfl).1
  have hany : (⟨fun _ _ _ => True, True⟩ : Likeness).Carries (Token.moved lines) us :=
    fun _ _ _ => trivial
  obtain ⟨moved, hmoved, -⟩ := hprogram.mapped (Token.moved_unnoticed lines) hany
  have hlowered : scan (lowered lines source)
      = ⟨us.map (Token.moved lines) ++ [eof.moved lines], []⟩ := by
    rw [scan_lowered, hscan, Scan.moved]
    simp only [List.map_append, List.map_cons, List.map_nil]
  rw [ofSource_of_program hlowered heof hmoved]
  exact ⟨rfl, hmoved⟩

/-- Where a text stands makes no difference to its trees but for the lines. -/
theorem lowered_like {source : List Char} {R : Likeness} (h : (ofSource source).diagnostics = [])
    (m n : Nat)
    (hR : ∀ t ∈ (scan source).tokens, ∀ ρ, R.token ρ (t.moved m) (t.moved n)) :
    List.Forall₂ (Stmt.Like R) (ofSource (lowered m source)).statements
      (ofSource (lowered n source)).statements := by
  obtain ⟨ts, hscan, -⟩ := derived h
  have hm := (lowered_derived h hscan rfl m).2
  have hn := (lowered_derived h hscan rfl n).2
  -- From the one place to the other, which may be above it or below.
  let f : Token → Token := fun t => { t with line := t.line - m + n }
  have hf : Unnoticed f := ⟨fun _ => rfl, fun _ => rfl⟩
  have hmove : ∀ t : Token, f (t.moved m) = t.moved n := by
    intro t
    simp only [f, Token.moved, Int.add_sub_cancel]
  have hcarries : R.Carries f (ts.map (Token.moved m)) := by
    intro u hu ρ
    obtain ⟨t, ht, rfl⟩ := List.mem_map.mp hu
    rw [hmove]
    refine hR t ?_ ρ
    rw [hscan]
    exact List.mem_append_left _ ht
  obtain ⟨moved, hmoved, hlike⟩ := hm.mapped hf hcarries
  have htokens : (ts.map (Token.moved m)).map f = ts.map (Token.moved n) := by
    rw [List.map_map]
    exact List.map_congr_left fun t _ => hmove t
  rw [htokens] at hmoved
  rwa [hmoved.unique hn] at hlike

/-- Two texts with a line feed between them read as the first and then the second, which stands as
much further down as the first one and the line feed take. -/
theorem ofSource_append {first second : List Char} (h₁ : (ofSource first).diagnostics = [])
    (h₂ : (ofSource second).diagnostics = []) :
    ofSource (first ++ '\n' :: second)
      = ⟨(ofSource first).statements
          ++ (ofSource (lowered (lineFeeds first + 1) second)).statements, []⟩ := by
  obtain ⟨ts, hscan₁, hprogram₁⟩ := derived h₁
  obtain ⟨us, hscan₂, -⟩ := derived h₂
  have hprogram₂ := (lowered_derived h₂ hscan₂ rfl (lineFeeds first + 1)).2
  have hclosed : ∀ p ∈ pieces first, p.closed = true :=
    Scan.closed_of_quiet (congrArg Scan.diagnostics hscan₁)
  -- The end of the first text is dropped, that of the second one stays.
  have hscan : scan (first ++ '\n' :: second)
      = ⟨ts ++ us.map (Token.moved (lineFeeds first + 1))
          ++ [(Scan.endToken (1 + lineFeeds second)).moved (lineFeeds first + 1)], []⟩ := by
    rw [scan_append first second hclosed, hscan₁, hscan₂]
    simp only [Scan.followedBy, Scan.moved, List.dropLast_concat, List.map_append, List.map_cons,
      List.map_nil, List.append_assoc, List.append_nil]
  exact ofSource_of_program hscan rfl (hprogram₁.append hprogram₂)

end Reading

end LoxLang
