import LoxLang.Proofs.Token.Spans

set_option autoImplicit false

/-! # Lines

Lines are counted along with the pieces, whether a line feed stands between tokens, in a string or in
a comment. What comes out does not depend on how they were counted: the line of a token is the line of
the place where its text ends, and a fault is reported on the line where it is found (`scan_lines`).
So the scan of a text is known from its spans and the text alone (`scan_spans`). -/

namespace LoxLang

/-- The line of a place in a text: lines are counted from one by the line feeds before it. -/
def lineAt (source : List Char) (place : Nat) : Nat :=
  1 + lineFeeds (source.take place)

/-- The line on which a faulty span is reported. A character that starts nothing is found where it
stands, and what is left open is found to be so at the end of the text. -/
def Span.faultLine (source : List Char) (s : Span) : LexicalFault → Nat
  | .unexpectedCharacter => lineAt source s.start
  | .unterminatedString | .unterminatedComment => 1 + lineFeeds source

/-- The token of a span: its text, the literal that goes with it, and the line of the place where it
ends. -/
def Span.Yields (source : List Char) (s : Span) (t : Token) : Prop :=
  ∃ kind, s.piece.shape = .token kind ∧
    t = ⟨kind, String.ofList s.piece.text, literalOf kind s.piece.text, lineAt source s.stop⟩

/-- The diagnostic of a faulty span: its message, and the line on which it is found. -/
def Span.ReportedOn (source : List Char) (s : Span) (d : Diagnostic) : Prop :=
  ∃ fault, s.piece.shape = .fault fault ∧ d = .lexical (s.faultLine source fault) fault.message

/-! ## Places -/

theorem lineAt_append (front behind : List Char) :
    lineAt (front ++ behind) front.length = 1 + lineFeeds front := by
  rw [lineAt, List.take_left]

theorem lineAt_mono (source : List Char) {i j : Nat} (h : i ≤ j) :
    lineAt source i ≤ lineAt source j := by
  have hinit : (source.take i).Sublist (source.take j) := (List.take_prefix_take_left h).sublist
  exact Nat.add_le_add_left (hinit.count_le '\n') 1

theorem lineAt_le (source : List Char) (place : Nat) : lineAt source place ≤ 1 + lineFeeds source :=
  Nat.add_le_add_left ((List.take_sublist place source).count_le '\n') 1

/-- A faulty piece ends on the line on which it is reported. -/
theorem faultLine_eq {p : Piece} {fault : LexicalFault} {front behind : List Char}
    (hshape : p.shape = .fault fault) (h : Stretch p.shape p.text behind) :
    Span.faultLine (front ++ (p.text ++ behind)) ⟨front.length, p⟩ fault
      = 1 + lineFeeds (front ++ p.text) := by
  rw [hshape] at h
  generalize p.text = text at h
  cases h with
  | @unexpected c _ hblank _ =>
      -- The character itself is no line feed, which would be a blank.
      have hc : lineFeeds [c] = 0 := by
        refine List.count_eq_zero.mpr fun hmem => ?_
        rw [← List.mem_singleton.mp hmem] at hblank
        exact absurd hblank (by decide)
      show lineAt (front ++ ([c] ++ behind)) front.length = _
      rw [lineAt_append, Scan.lineFeeds_append, hc, Nat.add_zero]
  | openString _ => rw [Span.faultLine, List.append_nil]
  | openComment _ => rw [Span.faultLine, List.append_nil]

/-! ## Counting along the pieces -/

/-- Reading on from a place, with the line of that place, gives every token the line of its end and
every fault its own line. -/
theorem Scan.ofPieces_spans {text : List Char} {ps : List Piece} (hcut : Cut text ps)
    (front : List Char) :
    (∃ words, (ofPieces (1 + lineFeeds front) ps).tokens
        = words ++ [endToken (1 + lineFeeds (front ++ text))] ∧
      List.Forall₂ (Span.Yields (front ++ text))
        ((spansFrom front.length ps).filter fun s => s.piece.shape.isToken) words) ∧
    List.Forall₂ (Span.ReportedOn (front ++ text))
      ((spansFrom front.length ps).filter fun s => s.piece.shape.isFault)
      (ofPieces (1 + lineFeeds front) ps).diagnostics := by
  induction hcut generalizing front with
  | nil =>
      refine ⟨⟨[], ?_, .nil⟩, .nil⟩
      rw [List.append_nil]
      rfl
  | @cons p behind ps hstretch _ ih =>
      have hline : 1 + lineFeeds front + lineFeeds p.text = 1 + lineFeeds (front ++ p.text) := by
        rw [lineFeeds_append]
        omega
      have hstop : lineAt (front ++ (p.text ++ behind)) (Span.stop ⟨front.length, p⟩)
          = 1 + lineFeeds (front ++ p.text) := by
        rw [Span.stop, ← List.length_append, ← List.append_assoc, lineAt_append]
      -- The rest is read from the end of the piece, and on the line of that place.
      obtain ⟨⟨words, htokens, hwords⟩, hfaults⟩ := ih (front ++ p.text)
      rw [List.append_assoc] at htokens hwords hfaults
      rw [List.length_append] at hwords hfaults
      rw [spansFrom, ofPieces_cons, hline]
      unfold add
      cases hshape : p.shape with
      | token kind =>
          simp only [List.filter_cons, hshape, Shape.isToken, Shape.isFault, if_true,
            Bool.false_eq_true, if_false]
          refine ⟨⟨_ :: words, by rw [htokens]; rfl, .cons ⟨kind, hshape, ?_⟩ hwords⟩, hfaults⟩
          rw [hstop]
      | fault fault =>
          simp only [List.filter_cons, hshape, Shape.isToken, Shape.isFault, if_true,
            Bool.false_eq_true, if_false]
          refine ⟨⟨words, htokens, hwords⟩, .cons ⟨fault, hshape, ?_⟩ hfaults⟩
          rw [faultLine_eq hshape hstretch]
      | blank =>
          simp only [List.filter_cons, hshape, Shape.isToken, Shape.isFault, Bool.false_eq_true,
            if_false]
          exact ⟨⟨words, htokens, hwords⟩, hfaults⟩
      | comment =>
          simp only [List.filter_cons, hshape, Shape.isToken, Shape.isFault, Bool.false_eq_true,
            if_false]
          exact ⟨⟨words, htokens, hwords⟩, hfaults⟩

/-- A scan gives the tokens of the token spans, with the end of input behind them, and the diagnostics
of the faulty spans. -/
theorem scan_spans (source : List Char) :
    (∃ words, (scan source).tokens = words ++ [Scan.endToken (1 + lineFeeds source)] ∧
      List.Forall₂ (Span.Yields source)
        ((spans source).filter fun s => s.piece.shape.isToken) words) ∧
    List.Forall₂ (Span.ReportedOn source)
      ((spans source).filter fun s => s.piece.shape.isFault) (scan source).diagnostics :=
  Scan.ofPieces_spans (cut_pieces source) []

/-! ## Lines do not go back -/

theorem Scan.ofPieces_line {line : Nat} {ps : List Piece} {t : Token}
    (h : t ∈ (ofPieces line ps).tokens) :
    (line : Int) ≤ t.line ∧ t.line ≤ (line + lineFeeds (ps.flatMap Piece.text) : Nat) := by
  induction ps generalizing line with
  | nil =>
      have ht : t = endToken line := List.mem_singleton.mp h
      rw [ht]
      exact ⟨Int.le_refl _, by simp [endToken, lineFeeds]⟩
  | cons p ps ih =>
      rw [ofPieces_cons] at h
      rw [line_behind_cons]
      rcases mem_add_tokens h with hline | ht
      · omega
      · have hbounds := ih ht
        omega

/-- The tokens of a text stand on its lines, of which there is one more than line feeds. -/
theorem scan_line {source : List Char} {t : Token} (h : t ∈ (scan source).tokens) :
    1 ≤ t.line ∧ t.line ≤ (1 + lineFeeds source : Nat) := by
  have hline := Scan.ofPieces_line h
  rw [pieces_text] at hline
  exact hline

/-- What stands in order keeps its order in what is read from it. -/
theorem pairwise_of_forall₂ {α β : Type} {R : α → β → Prop} {P : α → α → Prop} {Q : β → β → Prop}
    {as : List α} {bs : List β} (h : List.Forall₂ R as bs) (has : as.Pairwise P)
    (hQ : ∀ {a a' : α} {b b' : β}, a ∈ as → a' ∈ as → R a b → R a' b' → P a a' → Q b b') :
    bs.Pairwise Q := by
  induction h with
  | nil => exact .nil
  | @cons a b as bs hab hrest ih =>
      rw [List.pairwise_cons] at has
      refine .cons (fun b' hb' => ?_) (ih has.2 fun ha ha' => hQ (.tail _ ha) (.tail _ ha'))
      obtain ⟨i, hi, rfl⟩ := List.mem_iff_getElem.mp hb'
      have hi' : i < as.length := hrest.length_eq ▸ hi
      exact hQ (.head _) (.tail _ (List.getElem_mem hi')) hab
        (List.forall₂_iff_get.mp hrest |>.2 i hi' hi) (has.1 _ (List.getElem_mem hi'))

/-- A span that stands before another one is reported no later. -/
theorem faultLine_le {source : List Char} {s s' : Span} {fault : LexicalFault}
    (hs : s ∈ spans source) (hs' : s' ∈ spans source) (hshape : s.piece.shape = .fault fault)
    (h : s.stop ≤ s'.start) (fault' : LexicalFault) :
    s.faultLine source fault ≤ s'.faultLine source fault' := by
  have hlt := start_lt_stop s
  have hlt' := start_lt_stop s'
  have hle' := (stop_le hs').1
  -- What is left open reaches to the end, and nothing stands behind it.
  have hopen : s.piece.closed = true := by
    rw [← Bool.not_eq_false]
    intro hfalse
    have hstop := stop_eq_of_open hs hfalse
    omega
  cases fault with
  | unexpectedCharacter =>
      cases fault' with
      | unexpectedCharacter => exact lineAt_mono source (by omega)
      | unterminatedString => exact lineAt_le source s.start
      | unterminatedComment => exact lineAt_le source s.start
  | unterminatedString => simp [Piece.closed, hshape] at hopen
  | unterminatedComment => simp [Piece.closed, hshape] at hopen

/-- The line of a token is one more than the line feeds before the end of its text, and that of the
end of input is one more than all line feeds. A character that starts nothing is reported on its own line,
and a string or a comment that is left open on the last line. Lines do not go back, neither from token
to token nor from report to report. -/
theorem scan_lines (source : List Char) :
    Lexing source (spans source) (scan source) ∧
      (∃ words, (scan source).tokens
          = words ++ [Scan.endToken (1 + lineFeeds source)] ∧
        List.Forall₂ (Span.Yields source)
          ((spans source).filter fun s => s.piece.shape.isToken) words) ∧
      List.Forall₂ (Span.ReportedOn source)
        ((spans source).filter fun s => s.piece.shape.isFault) (scan source).diagnostics ∧
      ((scan source).tokens.Pairwise fun t u => t.line ≤ u.line) ∧
      (scan source).diagnostics.Pairwise fun d e =>
        ∀ line message line' message', d = .lexical line message → e = .lexical line' message' →
          line ≤ line' := by
  obtain ⟨⟨words, htokens, hwords⟩, hfaults⟩ := scan_spans source
  have hordered := spansFrom_ordered 0 (pieces source)
  refine ⟨lexing_spans source, ⟨words, htokens, hwords⟩, hfaults, ?_, ?_⟩
  · rw [htokens, List.pairwise_append]
    refine ⟨?_, List.pairwise_singleton _ _, fun t ht u hu => ?_⟩
    · refine pairwise_of_forall₂ hwords (hordered.filter _) ?_
      rintro s s' _ _ _ _ ⟨_, -, rfl⟩ ⟨_, -, rfl⟩ h
      have hlt := start_lt_stop s'
      have hle : lineAt source s.stop ≤ lineAt source s'.stop := lineAt_mono source (by omega)
      exact Int.ofNat_le.mpr hle
    · rw [List.mem_singleton.mp hu]
      exact (scan_line (by rw [htokens]; exact List.mem_append_left _ ht)).2
  · refine pairwise_of_forall₂ hfaults (hordered.filter _) ?_
    rintro s s' _ _ hs hs' ⟨fault, hshape, rfl⟩ ⟨fault', -, rfl⟩ h line _ line' _ ⟨⟩ ⟨⟩
    have hle := faultLine_le (List.mem_filter.mp hs).1 (List.mem_filter.mp hs').1 hshape h fault'
    exact Int.ofNat_le.mpr hle

/-- A string ends on its last line, and so does what follows a comment. -/
example : (scan "\"a\nb\" /*\n*\n*/ c // d\n\u0001".toList).tokens.map Token.line = [2, 4, 5] := by
  decide +kernel

end LoxLang
