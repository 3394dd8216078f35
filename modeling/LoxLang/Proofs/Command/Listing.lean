import LoxLang.Command.Listing
import LoxLang.Proofs.Parse.Literals
import LoxLang.Proofs.Session.Reading
import LoxLang.Proofs.Tree.Printed

set_option autoImplicit false

/-! # Listings are faithful

Every expression that is read from a source text, and every part of one, has a prefix form, which
stands on one line; and expressions with the same prefix form are alike, whatever texts they are read
from. So a listing has one line for each expression that it shows, from which the expression can be
told (`Command.listing_faithful`). -/

namespace LoxLang

/-! ## What is read from a source text -/

/-- All tokens of a source text but the end of input are scanned. -/
theorem scanned_of_mem {source : List Char} {t : Token} (h : t ∈ (scan source).tokens)
    (hend : t.kind ≠ .endOfInput) : t.Scanned := by
  obtain ⟨⟨words, htokens, hwords⟩, -⟩ := scan_spans source
  have hscanned : ∀ ss ts, List.Forall₂ (Span.Yields source) ss ts → (∀ s ∈ ss, s ∈ spans source) →
      ∀ t ∈ ts, t.Scanned := by
    intro ss ts hyields hspans
    induction hyields with
    | nil => exact fun _ ht => absurd ht List.not_mem_nil
    | cons hyield _ ih =>
        rw [List.forall_mem_cons] at hspans ⊢
        obtain ⟨kind, hshape, rfl⟩ := hyield
        refine ⟨⟨?_, ?_⟩, ih hspans.2⟩
        · rw [String.toList_ofList]
          exact (span_lexeme hspans.1 hshape).1
        · rw [String.toList_ofList]
  rw [htokens] at h
  rcases List.mem_append.mp h with h | h
  · exact hscanned _ _ hwords (fun s hs => (List.mem_filter.mp hs).1) t h
  · rw [List.mem_singleton.mp h] at hend
    exact absurd rfl hend

/-- The numbers among the literals that can be read from scanned tokens are magnitudes. -/
theorem magnitude_of_from {source : List Char} {x : Float}
    (h : (Literal.number x).From (scan source).tokens) : Number.IsMagnitude x := by
  generalize hv : Literal.number x = v at h
  cases h with
  | nil => cases hv
  | bool b => cases hv
  | @token t hmem hkind =>
      have hliteral : t.literal = literalOf t.kind t.lexeme.toList := by
        refine (scanned_of_mem hmem fun hend => ?_).literal
        rw [hend] at hkind
        exact absurd hkind (by decide)
      rw [hliteral] at hv
      rcases hkind with hkind | hkind <;> rw [hkind] at hv
      · cases hv
        exact Number.isMagnitude_value _
      · cases hv

/-- What is read from a source text can be told from its prefix form. -/
theorem readable_of_shows {source : List Char} {e : Expr}
    (h : Stmt.Shows (Reading.ofSource source).statements e) : e.Readable := by
  obtain ⟨parsed, hparsed, hsource⟩ := Reading.ofSource_eq source
  rw [hsource] at h
  have hscanned : (Likeness.fitting (scan source).tokens).Le .scanned := by
    refine ⟨?_, id⟩
    rintro ρ t u ⟨rfl, hmem, hfits⟩
    refine ⟨rfl, hfits, scanned_of_mem hmem fun hend => ?_⟩
    rw [hend] at hfits
    cases ρ <;> exact absurd hfits (by decide)
  refine ⟨(h.like (parse?_formed hparsed)).mono hscanned, fun x hx => ?_⟩
  obtain ⟨s, hs, outer, houter, he⟩ := h
  exact magnitude_of_from (parse?_literals hparsed ⟨s, hs, outer, houter, hx.trans he⟩)

theorem Stmt.shows_of_shownExpr {s : Stmt} {stmts : List Stmt} {e : Expr} (hs : s ∈ stmts)
    (h : s.shownExpr? = some e) : Stmt.Shows stmts e := by
  refine ⟨s, .here hs, e, ?_, .here⟩
  cases s with
  | expression value | print value =>
      cases h
      exact List.mem_singleton_self _
  | declare name initial => exact Option.mem_toList.mpr h
  | _ => cases h

namespace Command

/-! ## The lines of a listing -/

/-- The expressions that are listed: those that the statements of the text show, unless there are
faults in it. -/
def listed (source : List Char) : List Expr :=
  if (Reading.ofSource source).diagnostics = [] then
    (Reading.ofSource source).statements.filterMap Stmt.shownExpr?
  else []

theorem shows_of_listed {source : List Char} {e : Expr} (h : e ∈ listed source) :
    Stmt.Shows (Reading.ofSource source).statements e := by
  unfold listed at h
  split at h
  case isTrue =>
    obtain ⟨s, hs, hshown⟩ := List.mem_filterMap.mp h
    exact Stmt.shows_of_shownExpr hs hshown
  case isFalse => cases h

/-- The lines of a text that ends each of them with a line feed. -/
theorem splitOn_lines {texts : List String} (h : ∀ text ∈ texts, '\n' ∉ text.toList) :
    (String.join (texts.map (· ++ "\n"))).toList.splitOn '\n' = texts.map String.toList ++ [[]] := by
  -- The line feed behind the last text leaves an empty line at the end.
  have hjoin : (String.join (texts.map (· ++ "\n"))).toList =
      ['\n'].intercalate (texts.map String.toList ++ [[]]) := by
    clear h
    induction texts with
    | nil => rfl
    | cons text more ih =>
        have hnext : ['\n'].intercalate ((text :: more).map String.toList ++ [[]]) =
            text.toList ++ ['\n'] ++ ['\n'].intercalate (more.map String.toList ++ [[]]) :=
          List.intercalate_cons_of_ne_nil (by simp)
        rw [hnext, ← ih]
        simp [String.toList_join]
  rw [hjoin, List.splitOn_intercalate '\n' ?_ (by simp)]
  intro line hline
  rcases List.mem_append.mp hline with hline | hline
  · obtain ⟨text, htext, rfl⟩ := List.mem_map.mp hline
    exact h text htext
  · rw [List.mem_singleton.mp hline]
    exact List.not_mem_nil

theorem listing_out (source : List Char) : (listing source).transcript.out =
    String.join (((listed source).filterMap (·.printed.toOption)).map (· ++ "\n")) := by
  unfold listing listed
  dsimp only
  by_cases hquiet : (Reading.ofSource source).diagnostics = []
  · rw [if_pos (List.isEmpty_iff.mpr hquiet), if_pos hquiet]
  · rw [if_neg (fun h => hquiet (List.isEmpty_iff.mp h)), if_neg hquiet]
    rfl

/-- Expressions that can be told from their prefix forms have such forms, one for each. -/
theorem texts_of_readable {es : List Expr} (h : ∀ e ∈ es, e.Readable) :
    List.Forall₂ (fun e text => e.printed = .ok text) es (es.filterMap (·.printed.toOption)) ∧
      ∀ text ∈ es.filterMap (·.printed.toOption), '\n' ∉ text.toList := by
  induction es with
  | nil => exact ⟨.nil, fun _ htext => absurd htext List.not_mem_nil⟩
  | cons e more ih =>
      rw [List.forall_mem_cons] at h
      obtain ⟨text, htext, hline, -⟩ := h.1.printed
      obtain ⟨hforms, hlines⟩ := ih h.2
      have hsome : (e :: more).filterMap (·.printed.toOption) =
          text :: more.filterMap (·.printed.toOption) := by
        rw [List.filterMap_cons, htext]
        rfl
      rw [hsome]
      exact ⟨.cons htext hforms, List.forall_mem_cons.mpr ⟨hline, hlines⟩⟩

/-- Printing is faithful: every expression that stands anywhere in what is read from a source text has a
prefix form without a line feed, and it has the same one as another such expression exactly if the two
are alike, that is, if they are equal but for the lines of their tokens. So a listing has one line for
each expression that it shows, which is its prefix form. -/
theorem listing_faithful (source : List Char) :
    (∀ e, Stmt.Shows (Reading.ofSource source).statements e →
      ∃ text, e.printed = .ok text ∧ '\n' ∉ text.toList ∧
        ∀ source' e' text', Stmt.Shows (Reading.ofSource source').statements e' →
          e'.printed = .ok text' → (text = text' ↔ e.Like .alike e')) ∧
    ∃ texts, List.Forall₂ (fun e text => e.printed = .ok text) (listed source) texts ∧
      (listing source).transcript.out.toList.splitOn '\n' = texts.map String.toList ++ [[]] := by
  constructor
  · intro e he
    obtain ⟨text, htext, hline, hsame⟩ := (readable_of_shows he).printed
    exact ⟨text, htext, hline, fun _ _ _ he' => hsame (readable_of_shows he')⟩
  · have hreadable : ∀ e ∈ listed source, e.Readable := fun e he =>
      readable_of_shows (shows_of_listed he)
    obtain ⟨hforms, hlines⟩ := texts_of_readable hreadable
    refine ⟨_, hforms, ?_⟩
    rw [listing_out, splitOn_lines hlines]

/-- Minus signs of both sorts, and a call of `call` with a string that holds a parenthesis. -/
def tangled : List Char :=
  "-call - call(\")\", -1);".toList

/-- The same on several lines. -/
def untangled : List Char :=
  "- call // minus\n - call ( \")\" ,\n -1.0 ) ;".toList

/-- The two texts have the same prefix form in their listings, so they read as the same expression, on
other lines. -/
theorem listing_faithful_tangled :
    ∃ e e', listed tangled = [e] ∧ listed untangled = [e'] ∧
      e.printed = .ok "(- (- call) (call call \")\" (- 1)))" ∧ e.Like .alike e' := by
  have hread (source : List Char) (htexts : (listed source).map (·.printed) =
      [.ok "(- (- call) (call call \")\" (- 1)))"]) :
      ∃ e, listed source = [e] ∧ e.printed = .ok "(- (- call) (call call \")\" (- 1)))" := by
    obtain ⟨e, more, hlisted, htext, hmore⟩ := List.map_eq_cons_iff.mp htexts
    rw [List.map_eq_nil_iff.mp hmore] at hlisted
    exact ⟨e, hlisted, htext⟩
  obtain ⟨e, he, hprinted⟩ := hread tangled (by decide +kernel)
  obtain ⟨e', he', hprinted'⟩ := hread untangled (by decide +kernel)
  have hshows : Stmt.Shows (Reading.ofSource tangled).statements e := shows_of_listed (by simp [he])
  have hshows' : Stmt.Shows (Reading.ofSource untangled).statements e' :=
    shows_of_listed (by simp [he'])
  obtain ⟨text, htext, -, hsame⟩ := (listing_faithful tangled).1 e hshows
  have hequal := Except.ok.inj (htext.symm.trans hprinted)
  exact ⟨e, e', he, he', hprinted, (hsame untangled e' _ hshows' hprinted').mp hequal⟩

end Command

end LoxLang
