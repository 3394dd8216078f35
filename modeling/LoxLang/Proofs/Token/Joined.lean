import LoxLang.Proofs.Token.Lines

set_option autoImplicit false

/-! # Texts joined and taken apart

Between two texts, a line feed keeps them apart: what is read from both together is what is read from
the one and then, further down, from the other (`scan_lineFeed`). Between two tokens, a blank does: a
token is as long as it can be in front of a blank, whatever follows, so the texts of tokens with
blanks between them are read as these tokens again (`scan_lexemes`). -/

namespace LoxLang

/-- The same word, on whatever line. -/
structure Token.Alike (t u : Token) : Prop where
  kind : t.kind = u.kind
  lexeme : t.lexeme = u.lexeme
  literal : t.literal = u.literal

/-! ## Line feeds between texts -/

/-- With a line feed between them, two texts are read one after the other, unless the first one is
reported to end inside a string or a comment. What the second one gives stands as much further down
as the first one and the line feed take. -/
theorem scan_lineFeed (first second : List Char)
    (hstring : ∀ line, .lexical line "Unterminated string." ∉ (scan first).diagnostics)
    (hcomment : ∀ line, .lexical line "Unterminated multiline comment." ∉ (scan first).diagnostics) :
    ∃ words eof, (scan first).tokens = words ++ [eof] ∧ eof.kind = .endOfInput ∧
      (scan (first ++ '\n' :: second)).tokens
        = words ++ (scan second).tokens.map (Token.moved (1 + lineFeeds first)) ∧
      (scan (first ++ '\n' :: second)).diagnostics
        = (scan first).diagnostics
          ++ (scan second).diagnostics.map (Diagnostic.moved (1 + lineFeeds first)) := by
  obtain ⟨words, htokens, -⟩ := scan_tokens first
  have hclosed := Scan.closed_of_unreported hstring hcomment
  have hjoined := scan_append first second hclosed
  rw [Nat.add_comm] at hjoined
  refine ⟨words, _, htokens, rfl, ?_, ?_⟩
  · rw [hjoined, Scan.followedBy, htokens, List.dropLast_concat]
    rfl
  · rw [hjoined]
    rfl

/-- A text whose last token could go on, behind a comment with a line feed of its own, and a text that
is left open. -/
theorem scan_lineFeed_dangling :
    let first := "/*\n*/ a = 12.".toList
    let second := "\"b".toList
    (∀ line, .lexical line "Unterminated string." ∉ (scan first).diagnostics) ∧
      (∀ line, .lexical line "Unterminated multiline comment." ∉ (scan first).diagnostics) ∧
      (scan (first ++ '\n' :: second)).diagnostics = [.lexical 3 "Unterminated string."] := by
  intro first second
  have hquiet : (scan first).diagnostics = [] := by decide +kernel
  have hstring : ∀ line, .lexical line "Unterminated string." ∉ (scan first).diagnostics := by
    rw [hquiet]
    exact fun _ => List.not_mem_nil
  have hcomment :
      ∀ line, .lexical line "Unterminated multiline comment." ∉ (scan first).diagnostics := by
    rw [hquiet]
    exact fun _ => List.not_mem_nil
  obtain ⟨-, -, -, -, -, hdiagnostics⟩ := scan_lineFeed first second hstring hcomment
  refine ⟨hstring, hcomment, ?_⟩
  rw [hdiagnostics]
  decide +kernel

/-! ## Blanks between tokens -/

/-- Only strings hold quotes. -/
theorem lexeme_quoted {kind : Kind} {text : List Char} (h : Lexeme kind text) (hmem : '"' ∈ text) :
    ∃ body, text = '"' :: (body ++ ['"']) ∧ '"' ∉ body := by
  rcases lexeme_chars h with ⟨-, hbody⟩ | ⟨d, rfl, hd⟩ | hplain
  · exact hbody
  · have hsymbols : ∀ entry ∈ symbols, entry.1 ≠ '"' := by decide
    exact absurd (List.mem_singleton.mp hmem).symm (hsymbols _ hd)
  · exact absurd (hplain '"' hmem) (by decide)

/-- In front of a character that is not plain, a token is as long as it can be. -/
theorem longest_of_notPlain {kind : Kind} {c : Char} {tail behind : List Char}
    (h : Lexeme kind (c :: tail)) (hbehind : ∀ d, behind.head? = some d → isPlain d = false) :
    Longest (c :: tail) behind := by
  intro kind' extra hlexeme hextra
  cases extra with
  | nil => rfl
  | cons d extra =>
      obtain ⟨more, hmore⟩ := hextra
      have hd : isPlain d = false := hbehind d (by rw [← hmore]; rfl)
      rcases lexeme_chars hlexeme with ⟨-, body, hbody, hquote⟩ | ⟨e, htext, -⟩ | hplain
      · -- As a longer one it would have to be a string, and so it is one already.
        obtain ⟨rfl, htail⟩ := List.cons.inj hbody
        obtain ⟨inner, htext, -⟩ := lexeme_quoted h List.mem_cons_self
        have hlast : (tail ++ d :: extra).dropLast = (body ++ ['"']).dropLast :=
          congrArg List.dropLast htail
        rw [(List.cons.inj htext).2, List.dropLast_append_of_ne_nil (List.cons_ne_nil _ _),
          List.dropLast_concat] at hlast
        exact absurd (by rw [← hlast]; simp) hquote
      · simp at htext
      · rw [hplain d (by simp)] at hd
        cases hd

/-- One blank. -/
def Piece.gap : Piece := ⟨.blank, ' ', []⟩

/-- Whether a piece is a token by the grammar. -/
def Piece.IsWord (p : Piece) : Prop :=
  ∃ kind, p.shape = .token kind ∧ Lexeme kind p.text

theorem Piece.IsWord.stretch {p : Piece} (h : p.IsWord) {behind : List Char}
    (hbehind : ∀ c, behind.head? = some c → c = ' ') : Stretch p.shape p.text behind := by
  obtain ⟨kind, hshape, hlexeme⟩ := h
  rw [hshape]
  refine .token hlexeme (longest_of_notPlain hlexeme fun c hc => ?_) fun _ c hc => ?_
  · rw [hbehind c hc]
    decide
  · rw [hbehind c hc]
    decide

/-- Tokens with blanks between them are cut into these tokens and the blanks. -/
theorem cut_spaced {ps : List Piece} (h : ∀ p ∈ ps, p.IsWord) :
    Cut ([' '].intercalate (ps.map Piece.text)) (ps.intersperse Piece.gap) := by
  induction ps with
  | nil => exact .nil
  | cons p ps ih =>
      rw [List.forall_mem_cons] at h
      cases ps with
      | nil =>
          have hcut : Cut (p.text ++ []) [p] := .cons (h.1.stretch (by simp)) .nil
          rw [List.append_nil] at hcut
          rw [List.map_singleton, List.intercalate_singleton, List.intersperse_singleton]
          exact hcut
      | cons q more =>
          have hgap : Stretch Piece.gap.shape Piece.gap.text
              ([' '].intercalate ((q :: more).map Piece.text)) := .blank (by decide)
          -- Behind the token comes the blank, and that is all it has to know.
          have hcut := Cut.cons (h.1.stretch ?_) (.cons hgap (ih h.2))
          · rw [List.map_cons, List.map_cons, List.intercalate_cons_cons, List.append_assoc]
            exact hcut
          · rintro c ⟨⟩
            rfl

theorem spaced_filter {ps : List Piece} (h : ∀ p ∈ ps, p.IsWord) :
    ((ps.intersperse Piece.gap).filter fun p => p.shape.isToken) = ps ∧
      ((ps.intersperse Piece.gap).filter fun p => p.shape.isFault) = [] := by
  induction ps with
  | nil => exact ⟨rfl, rfl⟩
  | cons p ps ih =>
      rw [List.forall_mem_cons] at h
      obtain ⟨⟨kind, hshape, -⟩, hps⟩ := h
      cases ps with
      | nil => simp [hshape, Shape.isToken, Shape.isFault]
      | cons q more =>
          obtain ⟨htokens, hfaults⟩ := ih hps
          rw [List.intersperse_cons_cons]
          constructor
          · rw [List.filter_cons_of_pos (by rw [hshape]; rfl), List.filter_cons_of_neg (by decide),
              htokens]
          · rw [List.filter_cons_of_neg (by simp [hshape, Shape.isFault]),
              List.filter_cons_of_neg (by decide), hfaults]

/-! ## Tokens read again -/

theorem spansFrom_pieces (start : Nat) (ps : List Piece) :
    (spansFrom start ps).map Span.piece = ps := by
  induction ps generalizing start with
  | nil => rfl
  | cons p ps ih => rw [spansFrom, List.map_cons, ih]

/-- The spans of some sort have the pieces of that sort. -/
theorem filter_spansFrom (sort : Shape → Bool) (start : Nat) (ps : List Piece) :
    ((spansFrom start ps).filter fun s => sort s.piece.shape).map Span.piece
      = ps.filter fun p => sort p.shape := by
  nth_rewrite 2 [← spansFrom_pieces start ps]
  rw [List.filter_map]
  rfl

section
variable {source source' : List Char} {ss ss' : List Span} {ts us : List Token}

theorem yields_lexemes (h : List.Forall₂ (Span.Yields source) ss ts) :
    ts.map (fun t => t.lexeme.toList) = (ss.map Span.piece).map Piece.text := by
  induction h with
  | nil => rfl
  | cons hst _ ih =>
      obtain ⟨kind, -, rfl⟩ := hst
      simp only [List.map_cons, String.toList_ofList, ih]

/-- Spans with the same pieces give the same words. -/
theorem yields_alike (h : List.Forall₂ (Span.Yields source) ss ts)
    (h' : List.Forall₂ (Span.Yields source') ss' us)
    (hpieces : ss.map Span.piece = ss'.map Span.piece) : List.Forall₂ Token.Alike ts us := by
  induction h generalizing ss' us with
  | nil =>
      obtain rfl : ss' = [] := List.map_eq_nil_iff.mp hpieces.symm
      cases h'
      exact .nil
  | cons hst _ ih =>
      cases h' with
      | nil => cases hpieces
      | cons hst' hrest =>
          obtain ⟨hpiece, hmore⟩ := List.cons.inj hpieces
          obtain ⟨kind, hshape, rfl⟩ := hst
          obtain ⟨kind', hshape', rfl⟩ := hst'
          rw [hpiece, hshape'] at hshape
          cases hshape
          rw [hpiece]
          exact .cons ⟨rfl, rfl, rfl⟩ (ih hrest hmore)

end

/-- Tokens with blanks between them are read without a report, each as what it is. -/
theorem scan_spaced {ps : List Piece} (h : ∀ p ∈ ps, p.IsWord) :
    let text := [' '].intercalate (ps.map Piece.text)
    ∃ words ss, scan text = ⟨words ++ [Scan.endToken (1 + lineFeeds text)], []⟩ ∧
      ss.map Span.piece = ps ∧ List.Forall₂ (Span.Yields text) ss words := by
  intro text
  obtain ⟨⟨words, htokens, hwords⟩, hfaults⟩ := scan_spans text
  have hcut : ps.intersperse Piece.gap = pieces text := cut_iff_pieces.mp (cut_spaced h)
  obtain ⟨hsame, hnone⟩ := spaced_filter h
  rw [hcut, ← filter_spansFrom _ 0] at hsame hnone
  have hquiet : (scan text).diagnostics = [] := by
    rw [spans, List.map_eq_nil_iff.mp hnone] at hfaults
    exact List.forall₂_nil_left_iff.mp hfaults
  refine ⟨words, _, ?_, hsame, hwords⟩
  rw [← htokens, ← hquiet]

/-- The texts of the tokens of any source, with single blanks between them, are read without a report
and give the same words in the same order, whatever was reported about the source itself. -/
theorem scan_lexemes (source : List Char) :
    ∃ words again eof eof', (scan source).tokens = words ++ [eof] ∧ eof.kind = .endOfInput ∧
      scan (" ".intercalate (words.map Token.lexeme)).toList = ⟨again ++ [eof'], []⟩ ∧
      eof'.kind = .endOfInput ∧ List.Forall₂ Token.Alike again words := by
  obtain ⟨⟨words, htokens, hwords⟩, -⟩ := scan_spans source
  generalize hss : (spans source).filter (fun s => s.piece.shape.isToken) = ss at hwords
  have hwordy : ∀ p ∈ ss.map Span.piece, p.IsWord := by
    intro p hp
    obtain ⟨s, hs, rfl⟩ := List.mem_map.mp hp
    rw [← hss] at hs
    obtain ⟨hmem, hsort⟩ := List.mem_filter.mp hs
    cases hshape : s.piece.shape with
    | token kind => exact ⟨kind, hshape, (span_lexeme hmem hshape).1⟩
    | _ =>
        rw [hshape] at hsort
        cases hsort
  have htext : (" ".intercalate (words.map Token.lexeme)).toList
      = [' '].intercalate ((ss.map Span.piece).map Piece.text) := by
    rw [String.toList_intercalate, List.map_map, ← yields_lexemes hwords]
    rfl
  obtain ⟨again, ss', hscan, hpieces, hagain⟩ := scan_spaced hwordy
  rw [← htext] at hscan
  exact ⟨words, again, _, _, htokens, rfl, hscan, rfl, yields_alike hagain hwords hpieces⟩

end LoxLang
