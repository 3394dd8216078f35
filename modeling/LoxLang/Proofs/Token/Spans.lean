import LoxLang.Proofs.Token.Cut
import LoxLang.Proofs.Token.Scan
import Mathlib.Data.List.Forall2

set_option autoImplicit false

/-! # Where the tokens stand

A span is a piece together with its place in the text. The spans of a text stand in order, do not
overlap, and leave no character out, so everything that is not a token is a blank, part of a comment
or part of a fault. A scan consists of the tokens of the token spans and of one diagnostic for each
faulty span (`Lexing`). That the tokens are the longest is part of what the spans are; what it means
for names, numbers and signs is spelled out. -/

namespace LoxLang

/-- A piece with the place of its first character. -/
structure Span where
  start : Nat
  piece : Piece

namespace Span

/-- The place behind the last character. -/
def stop (s : Span) : Nat :=
  s.start + s.piece.text.length

/-- The token that a span is read as. -/
structure ReadAs (s : Span) (t : Token) : Prop where
  kind : s.piece.shape = .token t.kind
  lexeme : t.lexeme = String.ofList s.piece.text
  /-- A string stands for what is between its quotes. -/
  string : t.kind = .string →
    ∃ body, s.piece.text = '"' :: (body ++ ['"']) ∧ t.literal = .string (String.ofList body)
  plain : t.kind ≠ .string → t.kind ≠ .number → t.literal = .nil

/-- The diagnostic that a faulty span is reported by. -/
def ReportedAs (s : Span) (d : Diagnostic) : Prop :=
  ∃ fault line, s.piece.shape = .fault fault ∧ d = .lexical line fault.message

end Span

/-- Whether pieces of a sort are tokens. -/
def Shape.isToken : Shape → Bool
  | .token _ => true
  | _ => false

/-- Whether pieces of a sort are faults. -/
def Shape.isFault : Shape → Bool
  | .fault _ => true
  | _ => false

/-- Pieces with their places, if the first one starts at `start`. -/
def spansFrom (start : Nat) : List Piece → List Span
  | [] => []
  | p :: ps => ⟨start, p⟩ :: spansFrom (start + p.text.length) ps

/-- The spans of a text. -/
def spans (source : List Char) : List Span :=
  spansFrom 0 (pieces source)

/-- What it is to read a source text by its spans. -/
structure Lexing (source : List Char) (spans : List Span) (result : Scan) : Prop where
  /-- The spans stand in the order of the text and do not overlap. -/
  ordered : spans.Pairwise fun a b => a.stop ≤ b.start
  /-- No span is empty, and each has the text of its place. -/
  inside : ∀ s ∈ spans, s.start < s.stop ∧ s.stop ≤ source.length ∧
    (source.drop s.start).take (s.stop - s.start) = s.piece.text
  /-- No character is left out. -/
  covered : ∀ i < source.length, ∃ s ∈ spans, s.start ≤ i ∧ i < s.stop
  /-- Each span is a blank, a comment, a token or a fault, by what stands there. -/
  stretch : ∀ s ∈ spans, Stretch s.piece.shape s.piece.text (source.drop s.stop)
  /-- What is left open reaches to the end of the text, so there is no more than one. -/
  leftOpen : (∀ s ∈ spans, s.piece.closed = false → s.stop = source.length) ∧
    (spans.filter fun s => !s.piece.closed).length ≤ 1
  /-- The tokens are those of the token spans, with the end of input behind them. -/
  tokens : ∃ words eof, result.tokens = words ++ [eof] ∧ eof.kind = .endOfInput ∧
    eof.literal = .nil ∧ List.Forall₂ Span.ReadAs (spans.filter fun s => s.piece.shape.isToken) words
  /-- There is one diagnostic for each fault. -/
  diagnostics : List.Forall₂ Span.ReportedAs (spans.filter fun s => s.piece.shape.isFault)
    result.diagnostics
  /-- A word is reserved exactly if it is in the table, and a name if it is not. -/
  word : ∀ s ∈ spans, ∀ kind, s.piece.shape = .token kind → startsName s.piece.head = true →
    (String.ofList s.piece.text, kind) ∈ Kind.keywords ∨
      kind = .identifier ∧ ∀ other, (String.ofList s.piece.text, other) ∉ Kind.keywords
  /-- No word goes on behind its end. -/
  wordEnds : ∀ s ∈ spans, s.piece.shape.isToken = true → startsName s.piece.head = true →
    ∀ c, source[s.stop]? = some c → continuesName c = false
  /-- No number goes on behind its end, be it by a digit or by a point with a digit. -/
  numberEnds : ∀ s ∈ spans, s.piece.shape = .token .number →
    (∀ c, source[s.stop]? = some c → isDigit c = false) ∧
      ('.' ∉ s.piece.text → source[s.stop]? = some '.' →
        ∀ c, source[s.stop + 1]? = some c → isDigit c = false)
  /-- No sign leaves an equals sign behind that it could take. -/
  signEnds : ∀ s ∈ spans, ∀ short long, (s.piece.head, short, long) ∈ signs →
    s.piece.shape = .token short → source[s.stop]? ≠ some '='

/-! ## Places -/

/-- A span is cut out of the text at its place. -/
theorem mem_spansFrom {text : List Char} {ps : List Piece} (hcut : Cut text ps) {start : Nat}
    {s : Span} (h : s ∈ spansFrom start ps) :
    ∃ front behind, text = front ++ (s.piece.text ++ behind) ∧ s.start = start + front.length ∧
      Stretch s.piece.shape s.piece.text behind := by
  induction hcut generalizing start with
  | nil => cases h
  | @cons p behind ps hstretch _ ih =>
      rcases List.mem_cons.mp h with rfl | h
      · exact ⟨[], behind, rfl, rfl, hstretch⟩
      · obtain ⟨front, rest, htext, hstart, hs⟩ := ih h
        refine ⟨p.text ++ front, rest, ?_, ?_, hs⟩
        · rw [htext, List.append_assoc]
        · rw [hstart, List.length_append]
          omega

theorem start_le_of_mem {start : Nat} {ps : List Piece} {s : Span} (h : s ∈ spansFrom start ps) :
    start ≤ s.start := by
  induction ps generalizing start with
  | nil => cases h
  | cons p ps ih =>
      rcases List.mem_cons.mp h with rfl | h
      · exact Nat.le_refl _
      · have hle := ih h
        omega

theorem spansFrom_ordered (start : Nat) (ps : List Piece) :
    (spansFrom start ps).Pairwise fun a b => a.stop ≤ b.start := by
  induction ps generalizing start with
  | nil => exact .nil
  | cons p ps ih => exact .cons (fun s hs => start_le_of_mem hs) (ih _)

theorem spansFrom_covered {start i : Nat} {ps : List Piece} (hstart : start ≤ i)
    (hi : i < start + (ps.flatMap Piece.text).length) :
    ∃ s ∈ spansFrom start ps, s.start ≤ i ∧ i < s.stop := by
  induction ps generalizing start with
  | nil =>
      rw [List.flatMap_nil, List.length_nil] at hi
      omega
  | cons p ps ih =>
      by_cases hp : i < start + p.text.length
      · exact ⟨⟨start, p⟩, List.mem_cons_self, hstart, hp⟩
      · rw [List.flatMap_cons, List.length_append] at hi
        have hlt : i < start + p.text.length + (ps.flatMap Piece.text).length := by omega
        obtain ⟨s, hs, hplace⟩ := ih (by omega) hlt
        exact ⟨s, List.mem_cons_of_mem _ hs, hplace⟩

section
variable {source : List Char} {s : Span}

theorem stop_le (h : s ∈ spans source) :
    s.stop ≤ source.length ∧ (source.drop s.start).take (s.stop - s.start) = s.piece.text ∧
      Stretch s.piece.shape s.piece.text (source.drop s.stop) := by
  obtain ⟨front, behind, hsource, hstart, hstretch⟩ := mem_spansFrom (cut_pieces source) h
  have hfront : s.start = front.length := by omega
  have hstop : s.stop = (front ++ s.piece.text).length := by
    rw [Span.stop, List.length_append, hfront]
  have hlength : s.stop - s.start = s.piece.text.length := by
    rw [Span.stop]
    omega
  refine ⟨?_, ?_, ?_⟩
  · rw [hstop, hsource, ← List.append_assoc]
    exact (List.prefix_append _ _).length_le
  · rw [hlength, hfront, hsource, List.drop_left, List.take_left]
  · have hdrop : source.drop s.stop = behind := by
      rw [hstop, hsource, ← List.append_assoc, List.drop_left]
    rw [hdrop]
    exact hstretch

theorem stop_eq_of_open (h : s ∈ spans source) (hopen : s.piece.closed = false) :
    s.stop = source.length := by
  obtain ⟨hle, -, hstretch⟩ := stop_le h
  have hdrop : source.drop s.stop = [] := by
    generalize source.drop s.stop = behind at hstretch
    generalize s.piece.text = text at hstretch
    unfold Piece.closed at hopen
    generalize s.piece.shape = shape at hstretch hopen
    cases hstretch with
    | openString _ => rfl
    | openComment _ => rfl
    | _ => simp at hopen
  have hge := List.drop_eq_nil_iff.mp hdrop
  omega

end

theorem start_lt_stop (s : Span) : s.start < s.stop := by
  have hlength : s.piece.text.length = s.piece.tail.length + 1 := rfl
  rw [Span.stop]
  omega

/-- Of two spans that are left open, both would reach to the end of the text. -/
theorem open_le_one (source : List Char) :
    ((spans source).filter fun s => !s.piece.closed).length ≤ 1 := by
  have hordered : ((spans source).filter fun s => !s.piece.closed).Pairwise
      fun a b => a.stop ≤ b.start := (spansFrom_ordered 0 (pieces source)).filter _
  have hopen : ∀ s ∈ (spans source).filter fun s => !s.piece.closed, s.stop = source.length := by
    intro s hs
    obtain ⟨hmem, hclosed⟩ := List.mem_filter.mp hs
    exact stop_eq_of_open hmem (by simpa using hclosed)
  generalize (spans source).filter (fun s => !s.piece.closed) = opens at hordered hopen ⊢
  match opens with
  | [] => simp
  | [s] => simp
  | s :: t :: more =>
      have hs := hopen s (by simp)
      have ht := hopen t (by simp)
      have hle := (List.pairwise_cons.mp hordered).1 t (by simp)
      have hlt := start_lt_stop t
      omega

/-! ## Tokens and diagnostics -/

/-- The texts of numbers: digits, or digits with a point between them. -/
def IsNumeral (text : List Char) : Prop :=
  (∃ c tail, text = c :: tail ∧ isDigit c = true ∧ ∀ x ∈ tail, isDigit x = true) ∨
    ∃ c tail d more, text = c :: (tail ++ '.' :: d :: more) ∧ isDigit c = true ∧
      (∀ x ∈ tail, isDigit x = true) ∧ isDigit d = true ∧ ∀ x ∈ more, isDigit x = true

/-- The kinds of the tokens that are listed, one by one, in a table. -/
def listedKinds : List Kind :=
  symbols.map Prod.snd ++ signs.flatMap (fun entry => [entry.2.1, entry.2.2]) ++
    Kind.keywords.map Prod.snd

/-- A token is listed, or it is a name, a number or a string. -/
theorem lexeme_cases {kind : Kind} {text : List Char} (h : Lexeme kind text) :
    kind ∈ listedKinds ∨ kind = .identifier ∨ (kind = .number ∧ IsNumeral text) ∨
      (kind = .string ∧ ∃ body, text = '"' :: (body ++ ['"'])) := by
  cases h with
  | symbol hc =>
      refine Or.inl (List.mem_append_left _ (List.mem_append_left _ ?_))
      exact List.mem_map.mpr ⟨_, hc, rfl⟩
  | sign hc =>
      refine Or.inl (List.mem_append_left _ (List.mem_append_right _ ?_))
      exact List.mem_flatMap.mpr ⟨_, hc, by simp⟩
  | signEqual hc =>
      refine Or.inl (List.mem_append_left _ (List.mem_append_right _ ?_))
      exact List.mem_flatMap.mpr ⟨_, hc, by simp⟩
  | keyword hword => exact Or.inl (List.mem_append_right _ (List.mem_map.mpr ⟨_, hword, rfl⟩))
  | name _ _ _ => exact Or.inr (Or.inl rfl)
  | integer hc htail => exact Or.inr (Or.inr (Or.inl ⟨rfl, Or.inl ⟨_, _, rfl, hc, htail⟩⟩))
  | fraction hc htail hd hmore =>
      exact Or.inr (Or.inr (Or.inl ⟨rfl, Or.inr ⟨_, _, _, _, rfl, hc, htail, hd, hmore⟩⟩))
  | string _ => exact Or.inr (Or.inr (Or.inr ⟨rfl, _, rfl⟩))

theorem lexeme_string {text : List Char} (h : Lexeme .string text) :
    ∃ body, text = '"' :: (body ++ ['"']) := by
  rcases lexeme_cases h with hlisted | hname | ⟨hnumber, -⟩ | ⟨-, hbody⟩
  · exact absurd hlisted (by decide)
  · cases hname
  · cases hnumber
  · exact hbody

theorem lexeme_numeral {text : List Char} (h : Lexeme .number text) : IsNumeral text := by
  rcases lexeme_cases h with hlisted | hname | ⟨-, hnumeral⟩ | ⟨hstring, -⟩
  · exact absurd hlisted (by decide)
  · cases hname
  · exact hnumeral
  · cases hstring

theorem readAs_token {s : Span} {behind : List Char} {kind : Kind} (line : Int)
    (h : Stretch s.piece.shape s.piece.text behind) (hshape : s.piece.shape = .token kind) :
    s.ReadAs ⟨kind, String.ofList s.piece.text, literalOf kind s.piece.text, line⟩ where
  kind := hshape
  lexeme := rfl
  string := by
    rintro rfl
    rw [hshape] at h
    generalize s.piece.text = text at h ⊢
    cases h with
    | token hlexeme _ _ =>
        obtain ⟨body, rfl⟩ := lexeme_string hlexeme
        refine ⟨body, rfl, ?_⟩
        simp [literalOf]
  plain := by
    intro hstring hnumber
    show literalOf kind s.piece.text = .nil
    cases kind with
    | string => exact absurd rfl hstring
    | number => exact absurd rfl hnumber
    | _ => rfl

theorem ofPieces_spansFrom {text : List Char} {ps : List Piece} (hcut : Cut text ps)
    (start line : Nat) :
    (∃ words eof, (Scan.ofPieces line ps).tokens = words ++ [eof] ∧ eof.kind = .endOfInput ∧
      eof.literal = .nil ∧
      List.Forall₂ Span.ReadAs ((spansFrom start ps).filter fun s => s.piece.shape.isToken) words) ∧
    List.Forall₂ Span.ReportedAs ((spansFrom start ps).filter fun s => s.piece.shape.isFault)
      (Scan.ofPieces line ps).diagnostics := by
  induction hcut generalizing start line with
  | nil => exact ⟨⟨[], Scan.endToken line, rfl, rfl, rfl, .nil⟩, .nil⟩
  | @cons p behind ps hstretch _ ih =>
      obtain ⟨⟨words, eof, htokens, hkind, hliteral, hwords⟩, hfaults⟩ :=
        ih (start + p.text.length) (line + lineFeeds p.text)
      rw [spansFrom, Scan.ofPieces_cons]
      unfold Scan.add
      cases hshape : p.shape with
      | token kind =>
          simp only [List.filter_cons, hshape, Shape.isToken, Shape.isFault, if_true,
            Bool.false_eq_true, if_false]
          refine ⟨⟨_ :: words, eof, by rw [htokens]; rfl, hkind, hliteral, .cons ?_ hwords⟩, hfaults⟩
          exact readAs_token _ hstretch hshape
      | fault fault =>
          simp only [List.filter_cons, hshape, Shape.isToken, Shape.isFault, if_true,
            Bool.false_eq_true, if_false]
          exact ⟨⟨words, eof, htokens, hkind, hliteral, hwords⟩,
            .cons ⟨fault, _, hshape, rfl⟩ hfaults⟩
      | blank =>
          simp only [List.filter_cons, hshape, Shape.isToken, Shape.isFault, Bool.false_eq_true,
            if_false]
          exact ⟨⟨words, eof, htokens, hkind, hliteral, hwords⟩, hfaults⟩
      | comment =>
          simp only [List.filter_cons, hshape, Shape.isToken, Shape.isFault, Bool.false_eq_true,
            if_false]
          exact ⟨⟨words, eof, htokens, hkind, hliteral, hwords⟩, hfaults⟩

/-! ## Ends -/

section
variable {kind : Kind} {text behind : List Char} {c d : Char}

/-- The next character does not make a longer token. -/
theorem Longest.next (h : Longest text behind) (hd : behind.head? = some d) :
    ¬ Lexeme kind (text ++ [d]) := by
  intro hlexeme
  obtain ⟨more, rfl⟩ := List.head?_eq_some_iff.mp hd
  have hnil := h kind [d] hlexeme ⟨more, rfl⟩
  cases hnil

theorem lexeme_startsName {tail : List Char} (h : Lexeme kind (c :: tail))
    (hc : startsName c = true) :
    (∀ d ∈ tail, continuesName d = true) ∧
      ((String.ofList (c :: tail), kind) ∈ Kind.keywords ∨
        kind = .identifier ∧ ∀ other, (String.ofList (c :: tail), other) ∉ Kind.keywords) := by
  have hsymbols : ∀ entry ∈ symbols, startsName entry.1 = false := by decide
  have hsigns : ∀ entry ∈ signs, startsName entry.1 = false := by decide
  generalize htext : c :: tail = text at h
  cases h with
  | symbol hd =>
      cases htext
      simp [hsymbols _ hd] at hc
  | sign hd =>
      cases htext
      simp [hsigns _ hd] at hc
  | signEqual hd =>
      cases htext
      simp [hsigns _ hd] at hc
  | keyword hkind =>
      obtain ⟨e, more, hword, -, htail⟩ := keyword_text hkind
      cases htext.trans hword
      exact ⟨htail, Or.inl hkind⟩
  | name _ htail hnone =>
      cases htext
      exact ⟨htail, Or.inr ⟨rfl, hnone⟩⟩
  | integer hdigit _ =>
      cases htext
      simp [isDigit_of_startsName hc] at hdigit
  | fraction hdigit _ _ _ =>
      cases htext
      simp [isDigit_of_startsName hc] at hdigit
  | string _ =>
      cases htext
      exact absurd hc (by decide)

/-- A number with one more digit is a number. -/
theorem lexeme_number_digit (h : Lexeme .number text) (hd : isDigit d = true) :
    Lexeme .number (text ++ [d]) := by
  rcases lexeme_numeral h with ⟨c, tail, rfl, hc, htail⟩ |
    ⟨c, tail, e, more, rfl, hc, htail, he, hmore⟩
  · refine .integer hc fun x hx => ?_
    rcases List.mem_append.mp hx with hx | hx
    · exact htail x hx
    · rw [List.mem_singleton.mp hx]
      exact hd
  · rw [List.cons_append, List.append_assoc]
    refine .fraction hc htail he fun x hx => ?_
    rcases List.mem_append.mp hx with hx | hx
    · exact hmore x hx
    · rw [List.mem_singleton.mp hx]
      exact hd

/-- A whole number with a point and a digit is a number. -/
theorem lexeme_number_point (h : Lexeme .number text) (hpoint : '.' ∉ text)
    (hd : isDigit d = true) : Lexeme .number (text ++ ['.', d]) := by
  rcases lexeme_numeral h with ⟨c, tail, rfl, hc, htail⟩ | ⟨c, tail, e, more, rfl, -⟩
  · exact .fraction hc htail hd (by simp)
  · exact absurd (by simp) hpoint

theorem lexeme_sign {short long : Kind} {tail : List Char} (hc : (c, short, long) ∈ signs)
    (h : Lexeme short (c :: tail)) : tail = [] := by
  have hother : ∀ entry ∈ signs, entry.2.1 ≠ .identifier ∧ entry.2.1 ≠ .number ∧
      entry.2.1 ≠ .string := by decide
  have hlong : ∀ entry ∈ signs, ∀ other ∈ signs, entry.2.1 ≠ other.2.2 := by decide
  have hkeywords : ∀ entry ∈ signs, ∀ word ∈ Kind.keywords, entry.2.1 ≠ word.2 := by decide
  generalize htext : c :: tail = text at h
  cases h with
  | symbol _ => exact (List.cons.inj htext).2
  | sign _ => exact (List.cons.inj htext).2
  | signEqual hd => exact absurd rfl (hlong _ hc _ hd)
  | keyword hword => exact absurd rfl (hkeywords _ hc _ hword)
  | name _ _ _ => exact absurd rfl (hother _ hc).1
  | integer _ _ => exact absurd rfl (hother _ hc).2.1
  | fraction _ _ _ _ => exact absurd rfl (hother _ hc).2.1
  | string _ => exact absurd rfl (hother _ hc).2.2

theorem Stretch.lexeme (h : Stretch (.token kind) text behind) :
    Lexeme kind text ∧ Longest text behind := by
  cases h with
  | token hlexeme hlongest _ => exact ⟨hlexeme, hlongest⟩

end

section
variable {source : List Char} {s : Span} (hs : s ∈ spans source)

include hs

/-- A token span is a token, and the longest at its place. -/
theorem span_lexeme {kind : Kind} (hshape : s.piece.shape = .token kind) :
    Lexeme kind (s.piece.head :: s.piece.tail) ∧ Longest s.piece.text (source.drop s.stop) := by
  have hstretch := (stop_le hs).2.2
  rw [hshape] at hstretch
  exact hstretch.lexeme

theorem span_wordEnds (htoken : s.piece.shape.isToken = true)
    (hname : startsName s.piece.head = true) {c : Char} (hc : source[s.stop]? = some c) :
    continuesName c = false := by
  cases hshape : s.piece.shape with
  | token kind =>
      obtain ⟨hlexeme, hlongest⟩ := span_lexeme hs hshape
      rw [← List.head?_drop] at hc
      rw [Bool.eq_false_iff]
      intro hgoes
      obtain ⟨hword, -⟩ := lexeme_startsName hlexeme hname
      -- The word with that character added would be a longer one.
      have hlonger : ∀ d ∈ s.piece.tail ++ [c], continuesName d = true := by
        intro d hd
        rcases List.mem_append.mp hd with hd | hd
        · exact hword d hd
        · rw [List.mem_singleton.mp hd]
          exact hgoes
      exact hlongest.next hc (lexeme_word hname hlonger)
  | _ =>
      rw [hshape] at htoken
      cases htoken

theorem span_numberEnds (hshape : s.piece.shape = .token .number) :
    (∀ c, source[s.stop]? = some c → isDigit c = false) ∧
      ('.' ∉ s.piece.text → source[s.stop]? = some '.' →
        ∀ c, source[s.stop + 1]? = some c → isDigit c = false) := by
  obtain ⟨hlexeme, hlongest⟩ := span_lexeme hs hshape
  constructor
  · intro c hc
    rw [← List.head?_drop] at hc
    rw [Bool.eq_false_iff]
    intro hdigit
    exact hlongest.next hc (lexeme_number_digit hlexeme hdigit)
  · intro hpoint hnext c hc
    rw [Bool.eq_false_iff]
    intro hdigit
    have hbehind : ['.', c] <+: source.drop s.stop := by
      rw [← List.head?_drop] at hnext
      obtain ⟨more, hmore⟩ := List.head?_eq_some_iff.mp hnext
      have hsecond : (source.drop s.stop)[1]? = some c := by
        rw [List.getElem?_drop]
        exact hc
      rw [hmore] at hsecond ⊢
      cases more with
      | nil => cases hsecond
      | cons d ds =>
          obtain rfl : d = c := by simpa using hsecond
          exact ⟨ds, rfl⟩
    have hnil := hlongest .number ['.', c] (lexeme_number_point hlexeme hpoint hdigit) hbehind
    cases hnil

theorem span_signEnds {short long : Kind} (hsign : (s.piece.head, short, long) ∈ signs)
    (hshape : s.piece.shape = .token short) : source[s.stop]? ≠ some '=' := by
  obtain ⟨hlexeme, hlongest⟩ := span_lexeme hs hshape
  intro hnext
  rw [← List.head?_drop] at hnext
  have htext : s.piece.text = [s.piece.head] := by
    rw [Piece.text, lexeme_sign hsign hlexeme]
  rw [htext] at hlongest
  exact hlongest.next hnext (.signEqual hsign)

end

/-- A scan reads a text by its spans. -/
theorem lexing_spans (source : List Char) : Lexing source (spans source) (scan source) where
  ordered := spansFrom_ordered 0 (pieces source)
  inside := fun s hs => ⟨start_lt_stop s, (stop_le hs).1, (stop_le hs).2.1⟩
  covered := by
    intro i hi
    refine spansFrom_covered (Nat.zero_le i) ?_
    rw [pieces_text]
    omega
  stretch := fun s hs => (stop_le hs).2.2
  leftOpen := ⟨fun s hs => stop_eq_of_open hs, open_le_one source⟩
  tokens := (ofPieces_spansFrom (cut_pieces source) 0 1).1
  diagnostics := (ofPieces_spansFrom (cut_pieces source) 0 1).2
  word := fun s hs kind hshape hname => (lexeme_startsName (span_lexeme hs hshape).1 hname).2
  wordEnds := fun s hs htoken hname c hc => span_wordEnds hs htoken hname hc
  numberEnds := fun s hs hshape => span_numberEnds hs hshape
  signEnds := fun s hs short long hsign hshape => span_signEnds hs hsign hshape

/-- A scan cuts a text by the longest match and reads it by the spans of that cut, which is the only
one there is. Asked a second time, a scanner gives the same tokens and reports nothing. -/
theorem scan_longestMatch (source : List Char) :
    Lexing source (spans source) (scan source) ∧
      (∀ cut, Cut source cut ↔ cut = pieces source) ∧
      ∃ after, (Scanner.ofSource source).read = (scan source, after) ∧
        after.read = (⟨(scan source).tokens, []⟩, after) := by
  refine ⟨lexing_spans source, fun cut => cut_iff_pieces, ⟨source, (scan source).tokens⟩, rfl, ?_⟩
  have hread : (scan source).tokens.isEmpty = false := by
    obtain ⟨ts, htokens, -⟩ := scan_tokens source
    rw [htokens]
    simp
  unfold Scanner.read
  rw [if_neg (by simp [hread])]

end LoxLang
