import LoxLang.Proofs.Parse.Reads
import LoxLang.Proofs.Token.Pieces
import LoxLang.Token.Scan

set_option autoImplicit false

/-! # Scans of texts put together

A scan ends with its only end-of-input token (`scan_tokens`). Lines are counted along, so what is
read from a text that starts further down has its lines moved by as much and is otherwise the same
(`Scan.ofPieces_moved`, `scan_lowered`), and a scan of two texts with a line feed between them is the
scans of the two put together (`scan_append`). -/

namespace LoxLang

/-! ## Further down -/

/-- A token that stands a number of lines further down. -/
def Token.moved (lines : Nat) (t : Token) : Token :=
  { t with line := t.line + lines }

/-- A diagnostic about a place a number of lines further down. -/
def Diagnostic.moved (lines : Nat) : Diagnostic → Diagnostic
  | .lexical line message => .lexical (line + lines) message
  | .grammar token message => .grammar (token.moved lines) message
  | .runtime token cause message => .runtime (token.moved lines) cause message
  | .plain message => .plain message
  | .within context inner => .within context (inner.moved lines)

/-- What is read from a text that starts a number of lines further down. -/
def Scan.moved (lines : Nat) (s : Scan) : Scan :=
  ⟨s.tokens.map (Token.moved lines), s.diagnostics.map (Diagnostic.moved lines)⟩

namespace Scan

theorem ofPieces_cons (line : Nat) (p : Piece) (ps : List Piece) :
    ofPieces line (p :: ps) =
      add p (line + lineFeeds p.text) (ofPieces (line + lineFeeds p.text) ps) := rfl

/-- The token that a piece adds stands on the line on which the piece ends. -/
theorem mem_add_tokens {p : Piece} {line : Nat} {rest : Scan} {t : Token}
    (h : t ∈ (add p line rest).tokens) : t.line = line ∨ t ∈ rest.tokens := by
  unfold add at h
  cases hshape : p.shape with
  | token kind =>
      rw [hshape] at h
      rcases List.mem_cons.mp h with rfl | h
      · exact Or.inl rfl
      · exact Or.inr h
  | fault fault =>
      rw [hshape] at h
      exact Or.inr h
  | blank =>
      rw [hshape] at h
      exact Or.inr h
  | comment =>
      rw [hshape] at h
      exact Or.inr h

/-- What a piece adds to the diagnostics is about the line on which the piece ends. -/
theorem mem_add_diagnostics {p : Piece} {line : Nat} {rest : Scan} {d : Diagnostic}
    (h : d ∈ (add p line rest).diagnostics) :
    (∃ message, d = .lexical line message) ∨ d ∈ rest.diagnostics := by
  unfold add at h
  cases hshape : p.shape with
  | token kind =>
      rw [hshape] at h
      exact Or.inr h
  | fault fault =>
      rw [hshape] at h
      rcases List.mem_cons.mp h with rfl | h
      · exact Or.inl ⟨fault.message, rfl⟩
      · exact Or.inr h
  | blank =>
      rw [hshape] at h
      exact Or.inr h
  | comment =>
      rw [hshape] at h
      exact Or.inr h

theorem add_moved (p : Piece) (line lines : Nat) (rest : Scan) :
    add p (line + lines) (rest.moved lines) = (add p line rest).moved lines := by
  unfold add
  cases p.shape with
  | token kind => simp [moved, Token.moved]
  | fault fault => simp [moved, Diagnostic.moved]
  | blank => rfl
  | comment => rfl

theorem ofPieces_moved (line lines : Nat) (ps : List Piece) :
    ofPieces (line + lines) ps = (ofPieces line ps).moved lines := by
  induction ps generalizing line with
  | nil => simp [ofPieces, moved, endToken, Token.moved]
  | cons p ps ih =>
      have hline : line + lines + lineFeeds p.text = line + lineFeeds p.text + lines := by omega
      rw [ofPieces_cons, ofPieces_cons, hline, ih, add_moved]

/-! ## One text behind the other -/

theorem lineFeeds_append (a b : List Char) : lineFeeds (a ++ b) = lineFeeds a + lineFeeds b :=
  List.count_append

/-- What a scan reads before its end, together with a second scan behind it. -/
def followedBy (a b : Scan) : Scan :=
  ⟨a.tokens.dropLast ++ b.tokens, a.diagnostics ++ b.diagnostics⟩

theorem ofPieces_tokens_ne_nil (line : Nat) (ps : List Piece) : (ofPieces line ps).tokens ≠ [] := by
  induction ps generalizing line with
  | nil => simp [ofPieces]
  | cons p ps ih =>
      rw [ofPieces_cons]
      unfold add
      cases p.shape with
      | token kind => simp
      | fault fault => exact ih _
      | blank => exact ih _
      | comment => exact ih _

theorem add_followedBy (p : Piece) (line : Nat) {a : Scan} (b : Scan) (ha : a.tokens ≠ []) :
    add p line (a.followedBy b) = (add p line a).followedBy b := by
  unfold add
  cases p.shape with
  | token kind => simp [followedBy, List.dropLast_cons_of_ne_nil ha]
  | fault fault => rfl
  | blank => rfl
  | comment => rfl

theorem line_behind_cons (line : Nat) (p : Piece) (ps : List Piece) :
    line + lineFeeds ((p :: ps).flatMap Piece.text)
      = line + lineFeeds p.text + lineFeeds (ps.flatMap Piece.text) := by
  rw [List.flatMap_cons, lineFeeds_append]
  omega

theorem ofPieces_append (line : Nat) (ps qs : List Piece) :
    ofPieces line (ps ++ qs) = (ofPieces line ps).followedBy
      (ofPieces (line + lineFeeds (ps.flatMap Piece.text)) qs) := by
  induction ps generalizing line with
  | nil => simp [followedBy, ofPieces, lineFeeds]
  | cons p ps ih =>
      rw [List.cons_append, ofPieces_cons, ofPieces_cons, ih, line_behind_cons,
        add_followedBy _ _ _ (ofPieces_tokens_ne_nil _ _)]

/-- A piece takes nothing away from what is reported behind it. -/
theorem diagnostics_subset_add (p : Piece) (line : Nat) (rest : Scan) :
    rest.diagnostics ⊆ (add p line rest).diagnostics := by
  unfold add
  cases p.shape with
  | token kind => exact List.Subset.refl _
  | fault fault => exact List.subset_cons_self _ _
  | blank => exact List.Subset.refl _
  | comment => exact List.Subset.refl _

/-- Every fault is reported. -/
theorem ofPieces_reports {line : Nat} {ps : List Piece} {p : Piece} {fault : LexicalFault}
    (hp : p ∈ ps) (hshape : p.shape = .fault fault) :
    ∃ line', .lexical line' fault.message ∈ (ofPieces line ps).diagnostics := by
  induction ps generalizing line with
  | nil => cases hp
  | cons q ps ih =>
      rw [ofPieces_cons]
      rcases List.mem_cons.mp hp with rfl | hp
      · unfold add
        rw [hshape]
        exact ⟨_, List.mem_cons_self⟩
      · obtain ⟨line', hmem⟩ := ih hp
        exact ⟨line', diagnostics_subset_add _ _ _ hmem⟩

/-- Unless it is reported, no string and no comment is left open. -/
theorem closed_of_unreported {line : Nat} {ps : List Piece}
    (hstring : ∀ line', .lexical line' LexicalFault.unterminatedString.message
      ∉ (ofPieces line ps).diagnostics)
    (hcomment : ∀ line', .lexical line' LexicalFault.unterminatedComment.message
      ∉ (ofPieces line ps).diagnostics) :
    ∀ p ∈ ps, p.closed = true := by
  intro p hp
  rw [Piece.closed, Bool.and_eq_true, bne_iff_ne, bne_iff_ne]
  constructor
  · intro hshape
    obtain ⟨line', hmem⟩ := ofPieces_reports hp hshape
    exact hstring line' hmem
  · intro hshape
    obtain ⟨line', hmem⟩ := ofPieces_reports hp hshape
    exact hcomment line' hmem

/-- Without a diagnostic, no string and no comment is left open. -/
theorem closed_of_quiet {line : Nat} {ps : List Piece} (h : (ofPieces line ps).diagnostics = []) :
    ∀ p ∈ ps, p.closed = true := by
  have hnone : ∀ d, d ∉ (ofPieces line ps).diagnostics := by
    rw [h]
    exact fun _ => List.not_mem_nil
  exact closed_of_unreported (fun _ => hnone _) fun _ => hnone _

/-! ## The end of input -/

theorem ofPieces_tokens (line : Nat) {ps : List Piece}
    (h : ∀ p ∈ ps, p.shape ≠ .token .endOfInput) :
    ∃ ts, (ofPieces line ps).tokens
        = ts ++ [endToken (line + lineFeeds (ps.flatMap Piece.text))] ∧ Parse.Inner ts := by
  induction ps generalizing line with
  | nil => exact ⟨[], rfl, Parse.inner_nil⟩
  | cons p ps ih =>
      rw [List.forall_mem_cons] at h
      obtain ⟨ts, hts, hinner⟩ := ih (line + lineFeeds p.text) h.2
      rw [ofPieces_cons, line_behind_cons]
      unfold add
      cases hshape : p.shape with
      | token kind =>
          have hkind : kind ≠ .endOfInput := fun hk => h.1 (by rw [hshape, hk])
          dsimp only
          rw [hts]
          exact ⟨_ :: ts, rfl, Parse.inner_cons.mpr ⟨hkind, hinner⟩⟩
      | fault fault => exact ⟨ts, hts, hinner⟩
      | blank => exact ⟨ts, hts, hinner⟩
      | comment => exact ⟨ts, hts, hinner⟩

end Scan

theorem pieces_shape (text : List Char) : ∀ p ∈ pieces text, p.shape ≠ .token .endOfInput := by
  induction text using pieces.induct with
  | case1 =>
      rw [pieces]
      simp
  | case2 c rest piece ih =>
      rw [pieces_cons, List.forall_mem_cons]
      exact ⟨(Piece.first_cutFrom c rest).kind, ih⟩

/-- A scan ends with its only end-of-input token, on the last line of the text. -/
theorem scan_tokens (source : List Char) :
    ∃ ts, (scan source).tokens = ts ++ [Scan.endToken (1 + lineFeeds source)] ∧ Parse.Inner ts := by
  have htokens := Scan.ofPieces_tokens 1 (pieces_shape source)
  rw [pieces_text] at htokens
  exact htokens

/-- A scan of two texts with a line feed between them is the two scans put together, unless the first
text ends inside a string or a comment. -/
theorem scan_append (first second : List Char) (h : ∀ p ∈ pieces first, p.closed = true) :
    scan (first ++ '\n' :: second) =
      (scan first).followedBy ((scan second).moved (lineFeeds first + 1)) := by
  unfold scan
  have hline : 1 + lineFeeds first + lineFeeds ['\n'] = 1 + (lineFeeds first + 1) := by
    simp only [lineFeeds, List.count_singleton_self]
    omega
  rw [pieces_append _ _ h, Scan.ofPieces_append, pieces_text, ← Scan.ofPieces_moved, ← hline]
  rfl

/-- A text with empty lines before it. -/
def lowered (lines : Nat) (text : List Char) : List Char :=
  List.replicate lines '\n' ++ text

theorem pieces_lineFeed (text : List Char) :
    pieces ('\n' :: text) = ⟨.blank, '\n', []⟩ :: pieces text := by
  have happend := pieces_append [] text
  rw [pieces] at happend
  exact happend (by simp)

theorem Scan.ofPieces_lowered (line lines : Nat) (text : List Char) :
    ofPieces line (pieces (lowered lines text)) = ofPieces (line + lines) (pieces text) := by
  induction lines generalizing line with
  | zero => rfl
  | succ n ih =>
      have hnext : line + (n + 1) = line + 1 + n := by omega
      calc ofPieces line (pieces (lowered (n + 1) text))
          = ofPieces line (⟨.blank, '\n', []⟩ :: pieces (lowered n text)) := by
            rw [← pieces_lineFeed]
            rfl
        _ = ofPieces (line + 1) (pieces (lowered n text)) := rfl
        _ = ofPieces (line + (n + 1)) (pieces text) := by rw [ih, hnext]

/-- Empty lines before a text do nothing but move it down. -/
theorem scan_lowered (lines : Nat) (text : List Char) :
    scan (lowered lines text) = (scan text).moved lines := by
  unfold scan
  rw [Scan.ofPieces_lowered, Scan.ofPieces_moved]

end LoxLang
