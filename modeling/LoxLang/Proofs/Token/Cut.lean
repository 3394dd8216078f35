import LoxLang.Proofs.Token.Lexemes

set_option autoImplicit false

/-! # Cutting by the longest match

`Cut` says what it is to cut a text by the longest match: blanks, comments and tokens follow one
another, each token is the longest that starts where it starts, a comment ends where it first can, and
what starts nothing is a fault. Such a cut exists and there is no other: it is the one into `pieces`
(`cut_iff_pieces`). -/

namespace LoxLang

/-! ## Cuts -/

/-- The characters that stand between tokens and mean nothing. -/
def isBlank (c : Char) : Bool :=
  [' ', '\t', '\r', '\n'].contains c

/-- What a stretch of text is, by its place in front of `behind`. -/
inductive Stretch : Shape → List Char → List Char → Prop
  | blank {c : Char} {behind : List Char} : isBlank c = true → Stretch .blank [c] behind
  /-- A comment to the end of its line, which is not part of it. -/
  | lineComment {body behind : List Char} :
    '\n' ∉ body → (∀ c, behind.head? = some c → c = '\n') →
    Stretch .comment ('/' :: '/' :: body) behind
  /-- A comment that ends with the first `*/` behind its opening. -/
  | blockComment {body behind : List Char} :
    ¬ ['*', '/'] <:+: body ++ ['*'] → Stretch .comment ('/' :: '*' :: (body ++ ['*', '/'])) behind
  /-- A token is the longest at its place, and a slash does not open a comment. -/
  | token {kind : Kind} {text behind : List Char} :
    Lexeme kind text → Longest text behind →
    (kind = .slash → ∀ c, behind.head? = some c → c ≠ '/' ∧ c ≠ '*') →
    Stretch (.token kind) text behind
  /-- A character that is no blank and starts no token. -/
  | unexpected {c : Char} {behind : List Char} :
    isBlank c = false → (∀ kind tail, ¬ Lexeme kind (c :: tail)) →
    Stretch (.fault .unexpectedCharacter) [c] behind
  /-- A string without its closing quote takes the rest of the text. -/
  | openString {body : List Char} :
    '"' ∉ body → Stretch (.fault .unterminatedString) ('"' :: body) []
  /-- So does a comment that is not closed. -/
  | openComment {body : List Char} :
    ¬ ['*', '/'] <:+: body → Stretch (.fault .unterminatedComment) ('/' :: '*' :: body) []

/-- Cuts of a text by the longest match. -/
inductive Cut : List Char → List Piece → Prop
  | nil : Cut [] []
  | cons {p : Piece} {behind : List Char} {ps : List Piece} :
    Stretch p.shape p.text behind → Cut behind ps → Cut (p.text ++ behind) (p :: ps)

/-! ## The first piece is the longest -/

namespace Piece

/-- What starts a word or a number starts nothing else. -/
theorem first_eq_ofOther {c : Char} (h : startsName c = true ∨ isDigit c = true)
    (rest : List Char) : first c rest = ofOther c rest := by
  unfold first
  split
  all_goals first
    | rfl
    | exact absurd h (by decide)

theorem first_word {c : Char} (h : startsName c = true) (rest : List Char) :
    first c rest = ⟨.token (Kind.ofWord (String.ofList (c :: rest.takeWhile continuesName))), c,
      rest.takeWhile continuesName⟩ := by
  rw [first_eq_ofOther (Or.inl h), ofOther, if_neg (by simp [isDigit_of_startsName h]), if_pos h]

theorem first_number {c : Char} (h : isDigit c = true) (rest : List Char) :
    first c rest = ⟨.token .number, c, numberTail rest⟩ := by
  rw [first_eq_ofOther (Or.inr h), ofOther, if_pos h]

theorem first_symbol {c : Char} {kind : Kind} (h : (c, kind) ∈ symbols) (hne : c ≠ '/')
    (rest : List Char) : first c rest = single kind c := by
  simp only [symbols, List.mem_cons, Prod.mk.injEq, List.not_mem_nil, or_false] at h
  rcases h with ⟨rfl, rfl⟩ | ⟨rfl, rfl⟩ | ⟨rfl, rfl⟩ | ⟨rfl, rfl⟩ | ⟨rfl, rfl⟩ | ⟨rfl, rfl⟩ |
    ⟨rfl, rfl⟩ | ⟨rfl, rfl⟩ | ⟨rfl, rfl⟩ | ⟨rfl, rfl⟩ | ⟨rfl, rfl⟩
  all_goals first
    | rfl
    | exact absurd rfl hne

theorem first_sign {c : Char} {short long : Kind} (h : (c, short, long) ∈ signs)
    (rest : List Char) : first c rest = withEqual long short c rest := by
  simp only [signs, List.mem_cons, Prod.mk.injEq, List.not_mem_nil, or_false] at h
  rcases h with ⟨rfl, rfl, rfl⟩ | ⟨rfl, rfl, rfl⟩ | ⟨rfl, rfl, rfl⟩ | ⟨rfl, rfl, rfl⟩ <;> rfl

/-- A piece reaches at least as far as a token that could start where it starts. It is of the same
kind if both end at the same place, and it is a token in any case, unless that token is a slash. -/
structure Covers (p : Piece) (kind : Kind) (extent : List Char) : Prop where
  tail : extent <+: p.tail
  same : extent = p.tail → p.shape = .token kind
  token : kind ≠ .slash → ∃ kind', p.shape = .token kind'

theorem covers_slash (rest : List Char) : Covers (first '/' rest) .slash [] where
  tail := List.nil_prefix
  same := by
    show [] = (ofSlash '/' rest).tail → (ofSlash '/' rest).shape = _
    unfold ofSlash
    split
    case h_1 => simp
    case h_2 => split <;> simp
    case h_3 => exact fun _ => rfl
  token := fun h => absurd rfl h

theorem covers_sign {c : Char} {short long : Kind} (h : (c, short, long) ∈ signs)
    (rest : List Char) : Covers (first c rest) short [] := by
  rw [first_sign h]
  unfold withEqual
  split
  case h_1 => exact ⟨List.nil_prefix, by simp, fun _ => ⟨long, rfl⟩⟩
  case h_2 => exact ⟨List.nil_prefix, fun _ => rfl, fun _ => ⟨short, rfl⟩⟩

theorem covers_signEqual {c : Char} {short long : Kind} (h : (c, short, long) ∈ signs)
    {rest : List Char} (hrest : ['='] <+: rest) : Covers (first c rest) long ['='] := by
  obtain ⟨more, rfl⟩ := hrest
  rw [first_sign h]
  exact ⟨List.prefix_rfl, fun _ => rfl, fun _ => ⟨long, rfl⟩⟩

theorem covers_word {c : Char} {extent rest : List Char} (hc : startsName c = true)
    (hword : ∀ d ∈ extent, continuesName d = true) (hrest : extent <+: rest) :
    Covers (first c rest) (Kind.ofWord (String.ofList (c :: extent))) extent := by
  rw [first_word hc]
  refine ⟨prefix_takeWhile hword hrest, fun heq => ?_, fun _ => ⟨_, rfl⟩⟩
  dsimp only at heq ⊢
  rw [← heq]

theorem covers_number {c : Char} {extent rest : List Char} (hc : isDigit c = true)
    (hextent : extent <+: numberTail rest) : Covers (first c rest) .number extent := by
  rw [first_number hc]
  exact ⟨hextent, fun _ => rfl, fun _ => ⟨_, rfl⟩⟩

theorem covers_string {body rest : List Char} (hbody : '"' ∉ body)
    (hrest : body ++ ['"'] <+: rest) : Covers (first '"' rest) .string (body ++ ['"']) := by
  obtain ⟨more, rfl⟩ := hrest
  have htail : stringTail? (body ++ ['"'] ++ more) = some (body ++ ['"']) := by
    rw [List.append_assoc]
    exact stringTail?_append hbody more
  show Covers (ofQuote '"' _) _ _
  unfold ofQuote
  rw [htail]
  exact ⟨List.prefix_rfl, fun _ => rfl, fun _ => ⟨_, rfl⟩⟩

/-- No token that could start a text is longer than the first piece. -/
theorem first_covers {kind : Kind} {c : Char} {extent rest : List Char}
    (h : Lexeme kind (c :: extent)) (hrest : extent <+: rest) :
    Covers (first c rest) kind extent := by
  generalize htext : c :: extent = text at h
  cases h with
  | @symbol d _ hd =>
      cases htext
      by_cases hslash : c = '/'
      · subst hslash
        obtain rfl : kind = .slash := by simpa [symbols] using hd
        exact covers_slash rest
      · rw [first_symbol hd hslash]
        exact ⟨List.nil_prefix, fun _ => rfl, fun _ => ⟨_, rfl⟩⟩
  | sign hd =>
      cases htext
      exact covers_sign hd rest
  | signEqual hd =>
      cases htext
      exact covers_signEqual hd hrest
  | keyword hkind =>
      obtain ⟨d, tail, hword, hd, htail⟩ := keyword_text hkind
      cases htext.trans hword
      rw [← htext] at hkind
      rw [← ofWord_of_mem hkind]
      exact covers_word hd htail hrest
  | name hc htail hnone =>
      cases htext
      rw [← ofWord_of_notMem hnone]
      exact covers_word hc htail hrest
  | integer hc htail =>
      cases htext
      exact covers_number hc (prefix_numberTail htail hrest)
  | fraction hc htail hd hmore =>
      cases htext
      exact covers_number hc (fraction_prefix_numberTail htail hd hmore hrest)
  | string hbody =>
      cases htext
      exact covers_string hbody hrest

theorem first_longest {c : Char} {rest behind : List Char}
    (h : (first c rest).tail ++ behind = rest) : Longest (c :: (first c rest).tail) behind := by
  intro kind extra hlexeme hextra
  have hreach : (first c rest).tail ++ extra <+: rest := by
    have hall := (List.prefix_append_right_inj (first c rest).tail).mpr hextra
    rwa [h] at hall
  have hcovers : Covers (first c rest) kind ((first c rest).tail ++ extra) :=
    first_covers hlexeme hreach
  obtain ⟨more, hmore⟩ := hcovers.tail
  have hlength := congrArg List.length hmore
  simp only [List.length_append] at hlength
  exact List.eq_nil_of_length_eq_zero (by omega)

/-! ## What the first piece is -/

theorem first_blank {c : Char} (h : isBlank c = true) (rest : List Char) :
    first c rest = ⟨.blank, c, []⟩ := by
  simp only [isBlank, List.contains_eq_mem, List.mem_cons, List.not_mem_nil, or_false,
    decide_eq_true_eq] at h
  rcases h with rfl | rfl | rfl | rfl <;> rfl

/-- What is no blank, no punctuation and no quote starts a word, a number or nothing. -/
theorem first_other {c : Char} (hblank : isBlank c = false) (hsymbol : c ∉ symbols.map Prod.fst)
    (hsign : c ∉ signs.map Prod.fst) (hquote : c ≠ '"') (rest : List Char) :
    first c rest = ofOther c rest := by
  unfold first
  split
  all_goals first
    | rfl
    | exact absurd hblank (by decide)
    | exact absurd (by decide) hsymbol
    | exact absurd (by decide) hsign
    | exact absurd rfl hquote

theorem first_unexpected {c : Char} (hblank : isBlank c = false)
    (hnone : ∀ kind tail, ¬ Lexeme kind (c :: tail)) (rest : List Char) :
    first c rest = ⟨.fault .unexpectedCharacter, c, []⟩ := by
  have hsymbol : c ∉ symbols.map Prod.fst := by
    intro hmem
    obtain ⟨⟨_, kind⟩, hentry, rfl⟩ := List.mem_map.mp hmem
    exact hnone kind [] (.symbol hentry)
  have hsign : c ∉ signs.map Prod.fst := by
    intro hmem
    obtain ⟨⟨_, short, long⟩, hentry, rfl⟩ := List.mem_map.mp hmem
    exact hnone short [] (.sign hentry)
  have hquote : c ≠ '"' := by
    rintro rfl
    exact hnone .string ['"'] (@Lexeme.string [] (by simp))
  have hdigit : ¬ isDigit c = true := fun h => hnone .number [] (.integer h (by simp))
  have hname : ¬ startsName c = true := fun h => hnone _ [] (lexeme_word h (by simp))
  rw [first_other hblank hsymbol hsign hquote, ofOther, if_neg hdigit, if_neg hname]

/-- What the tokens start with. -/
theorem lexeme_head {kind : Kind} {c : Char} {tail : List Char} (h : Lexeme kind (c :: tail)) :
    (∃ kind, (c, kind) ∈ symbols) ∨ (∃ short long, (c, short, long) ∈ signs) ∨ c = '"' ∨
      isDigit c = true ∨ startsName c = true := by
  generalize htext : c :: tail = text at h
  cases h with
  | symbol hc =>
      cases htext
      exact Or.inl ⟨_, hc⟩
  | sign hc =>
      cases htext
      exact Or.inr (Or.inl ⟨_, _, hc⟩)
  | signEqual hc =>
      cases htext
      exact Or.inr (Or.inl ⟨_, _, hc⟩)
  | keyword hkind =>
      obtain ⟨d, more, hword, hd, -⟩ := keyword_text hkind
      cases htext.trans hword
      exact Or.inr (Or.inr (Or.inr (Or.inr hd)))
  | name hc _ _ =>
      cases htext
      exact Or.inr (Or.inr (Or.inr (Or.inr hc)))
  | integer hc _ =>
      cases htext
      exact Or.inr (Or.inr (Or.inr (Or.inl hc)))
  | fraction hc _ _ _ =>
      cases htext
      exact Or.inr (Or.inr (Or.inr (Or.inl hc)))
  | string _ =>
      cases htext
      exact Or.inr (Or.inr (Or.inl rfl))

/-- A first piece that is a token is what its kind says. -/
theorem stretch_of_lexeme {c : Char} {rest behind : List Char} {kind : Kind}
    (h : (first c rest).tail ++ behind = rest) (hshape : (first c rest).shape = .token kind)
    (hlexeme : Lexeme kind (c :: (first c rest).tail))
    (hslash : kind = .slash → ∀ d, behind.head? = some d → d ≠ '/' ∧ d ≠ '*') :
    Stretch (first c rest).shape (c :: (first c rest).tail) behind := by
  rw [hshape]
  exact .token hlexeme (first_longest h) hslash

theorem first_slash {behind : List Char} (h : ∀ d, behind.head? = some d → d ≠ '/' ∧ d ≠ '*') :
    first '/' behind = single .slash '/' := by
  show ofSlash '/' behind = _
  unfold ofSlash
  split
  case h_1 more => exact absurd rfl (h '/' rfl).1
  case h_2 more => exact absurd rfl (h '*' rfl).2
  case h_3 => rfl

theorem lineComment_stretch {more behind : List Char}
    (h : (first '/' ('/' :: more)).tail ++ behind = '/' :: more) :
    Stretch (first '/' ('/' :: more)).shape ('/' :: (first '/' ('/' :: more)).tail) behind := by
  have htail : (first '/' ('/' :: more)).tail = '/' :: more.takeWhile (· != '\n') := rfl
  rw [htail] at h ⊢
  -- The comment takes what is no line feed, so what is left starts with one.
  have hbehind : behind = more.dropWhile (· != '\n') := by
    have hmore : more.takeWhile (· != '\n') ++ behind = more := (List.cons.inj h).2
    nth_rewrite 2 [← List.takeWhile_append_dropWhile (p := (· != '\n')) (l := more)] at hmore
    exact List.append_cancel_left hmore
  refine .lineComment (fun hmem => ?_) fun d hd => ?_
  · simpa using List.mem_takeWhile_imp hmem
  · have hnot := List.head?_dropWhile_not (· != '\n') more
    rw [← hbehind, hd] at hnot
    simpa using hnot

theorem blockComment_stretch {more behind : List Char}
    (h : (first '/' ('*' :: more)).tail ++ behind = '*' :: more) :
    Stretch (first '/' ('*' :: more)).shape ('/' :: (first '/' ('*' :: more)).tail) behind := by
  have hfirst : first '/' ('*' :: more) = ofSlash '/' ('*' :: more) := rfl
  cases htail : blockCommentTail? more with
  | some tail =>
      have hpiece : first '/' ('*' :: more) = ⟨.comment, '/', '*' :: tail⟩ := by
        simp only [hfirst, ofSlash, htail]
      obtain ⟨body, rfl, hbody⟩ := blockCommentTail?_some htail
      rw [hpiece]
      exact .blockComment hbody
  | none =>
      have hpiece : first '/' ('*' :: more) = ⟨.fault .unterminatedComment, '/', '*' :: more⟩ := by
        simp only [hfirst, ofSlash, htail]
      rw [hpiece] at h ⊢
      obtain rfl : behind = [] := by simpa using h
      exact .openComment (blockCommentTail?_none htail)

theorem slash_stretch {rest behind : List Char} (h : (first '/' rest).tail ++ behind = rest) :
    Stretch (first '/' rest).shape ('/' :: (first '/' rest).tail) behind := by
  by_cases hcomment : ∃ d more, rest = d :: more ∧ (d = '/' ∨ d = '*')
  · obtain ⟨d, more, rfl, rfl | rfl⟩ := hcomment
    · exact lineComment_stretch h
    · exact blockComment_stretch h
  · have hnext : ∀ d, rest.head? = some d → d ≠ '/' ∧ d ≠ '*' := by
      intro d hd
      obtain ⟨more, hrest⟩ := List.head?_eq_some_iff.mp hd
      exact ⟨fun heq => hcomment ⟨d, more, hrest, Or.inl heq⟩,
        fun heq => hcomment ⟨d, more, hrest, Or.inr heq⟩⟩
    have hfirst := first_slash hnext
    have hlexeme : Lexeme .slash ('/' :: (first '/' rest).tail) := by
      rw [hfirst]
      exact .symbol (by decide)
    obtain rfl : behind = rest := by
      rw [hfirst] at h
      exact h
    exact stretch_of_lexeme h (by rw [hfirst]; rfl) hlexeme fun _ => hnext

theorem sign_stretch {c : Char} {short long : Kind} (hc : (c, short, long) ∈ signs)
    {rest behind : List Char} (h : (first c rest).tail ++ behind = rest) :
    Stretch (first c rest).shape (c :: (first c rest).tail) behind := by
  have hkinds : ∀ entry ∈ signs, entry.2.1 ≠ .slash ∧ entry.2.2 ≠ .slash := by decide
  have hfirst : first c rest = ⟨.token long, c, ['=']⟩ ∨ first c rest = single short c := by
    rw [first_sign hc]
    unfold withEqual
    split
    case h_1 => exact Or.inl rfl
    case h_2 => exact Or.inr rfl
  rcases hfirst with hfirst | hfirst
  · refine stretch_of_lexeme h (by rw [hfirst]) ?_ fun hslash => absurd hslash (hkinds _ hc).2
    rw [hfirst]
    exact .signEqual hc
  · refine stretch_of_lexeme h (by rw [hfirst]; rfl) ?_ fun hslash => absurd hslash (hkinds _ hc).1
    rw [hfirst]
    exact .sign hc

theorem quote_stretch {rest behind : List Char} (h : (first '"' rest).tail ++ behind = rest) :
    Stretch (first '"' rest).shape ('"' :: (first '"' rest).tail) behind := by
  have hfirst : first '"' rest = ofQuote '"' rest := rfl
  cases htail : stringTail? rest with
  | some tail =>
      have hpiece : first '"' rest = ⟨.token .string, '"', tail⟩ := by
        simp only [hfirst, ofQuote, htail]
      obtain ⟨body, rfl, hbody⟩ := stringTail?_some htail
      refine stretch_of_lexeme h (by rw [hpiece]) ?_ (by simp)
      rw [hpiece]
      exact .string hbody
  | none =>
      have hpiece : first '"' rest = ⟨.fault .unterminatedString, '"', rest⟩ := by
        simp only [hfirst, ofQuote, htail]
      rw [hpiece] at h ⊢
      obtain rfl : behind = [] := by simpa using h
      exact .openString (stringTail?_none htail)

theorem ofWord_ne_slash (word : String) : Kind.ofWord word ≠ .slash := by
  have hkeywords : ∀ entry ∈ Kind.keywords, entry.2 ≠ .slash := by decide
  by_cases h : ∃ kind, (word, kind) ∈ Kind.keywords
  · obtain ⟨kind, hkind⟩ := h
    rw [ofWord_of_mem hkind]
    exact hkeywords _ hkind
  · rw [ofWord_of_notMem fun kind hkind => h ⟨kind, hkind⟩]
    simp

/-- The first piece is a blank, a comment, the longest token or a fault, as the text has it. -/
theorem first_stretch {c : Char} {rest behind : List Char}
    (h : (first c rest).tail ++ behind = rest) :
    Stretch (first c rest).shape (c :: (first c rest).tail) behind := by
  by_cases hblank : isBlank c = true
  · rw [first_blank hblank]
    exact .blank hblank
  by_cases hsymbol : ∃ kind, (c, kind) ∈ symbols
  · obtain ⟨kind, hkind⟩ := hsymbol
    by_cases hslash : c = '/'
    · subst hslash
      exact slash_stretch h
    · have hfirst := first_symbol hkind hslash rest
      refine stretch_of_lexeme h (by rw [hfirst]; rfl) (by rw [hfirst]; exact .symbol hkind) ?_
      rintro rfl
      exact absurd (by simpa [symbols] using hkind) hslash
  by_cases hsign : ∃ short long, (c, short, long) ∈ signs
  · obtain ⟨short, long, hkinds⟩ := hsign
    exact sign_stretch hkinds h
  by_cases hquote : c = '"'
  · subst hquote
    exact quote_stretch h
  by_cases hdigit : isDigit c = true
  · have hfirst := first_number hdigit rest
    refine stretch_of_lexeme h (by rw [hfirst]) ?_ (by simp)
    rw [hfirst]
    exact lexeme_number hdigit rest
  by_cases hname : startsName c = true
  · have hfirst := first_word hname rest
    have hword : ∀ d ∈ rest.takeWhile continuesName, continuesName d = true :=
      fun d hd => List.mem_takeWhile_imp hd
    refine stretch_of_lexeme h (by rw [hfirst]) ?_ fun hslash => absurd hslash (ofWord_ne_slash _)
    rw [hfirst]
    exact lexeme_word hname hword
  have hblank' : isBlank c = false := Bool.eq_false_iff.mpr hblank
  have hnone : ∀ kind tail, ¬ Lexeme kind (c :: tail) := by
    intro kind tail hlexeme
    rcases lexeme_head hlexeme with hc | hc | hc | hc | hc
    · exact hsymbol hc
    · exact hsign hc
    · exact hquote hc
    · exact hdigit hc
    · exact hname hc
  rw [first_unexpected hblank' hnone]
  exact .unexpected hblank' hnone

/-! ## There is no other cut -/

theorem eq_first_of_lineComment {body behind : List Char} (hbody : '\n' ∉ body)
    (hbehind : ∀ c, behind.head? = some c → c = '\n') :
    first '/' ('/' :: body ++ behind) = ⟨.comment, '/', '/' :: body⟩ := by
  have hall : ∀ c ∈ body, (c != '\n') = true := by
    intro c hc
    have hne : c ≠ '\n' := fun heq => hbody (heq ▸ hc)
    simpa using hne
  have hstop : behind.takeWhile (· != '\n') = [] := by
    cases behind with
    | nil => rfl
    | cons c more => simp [hbehind c rfl]
  show (⟨.comment, '/', '/' :: (body ++ behind).takeWhile (· != '\n')⟩ : Piece) = _
  rw [List.takeWhile_append_of_pos hall, hstop, List.append_nil]

theorem eq_first_of_openString {body : List Char} (h : '"' ∉ body) :
    first '"' body = ⟨.fault .unterminatedString, '"', body⟩ := by
  show ofQuote '"' body = _
  cases htail : stringTail? body with
  | some tail =>
      obtain ⟨inner, rfl, -⟩ := stringTail?_some htail
      have hmem := (stringTail?_eq_some htail).1.subset (a := '"') (by simp)
      exact absurd hmem h
  | none => simp only [ofQuote, htail]

theorem eq_first_of_openComment {body : List Char} (h : ¬ ['*', '/'] <:+: body) :
    first '/' ('*' :: body) = ⟨.fault .unterminatedComment, '/', '*' :: body⟩ := by
  show ofSlash '/' ('*' :: body) = _
  cases htail : blockCommentTail? body with
  | some tail =>
      obtain ⟨inner, rfl, -⟩ := blockCommentTail?_some htail
      obtain ⟨more, hmore⟩ := (blockCommentTail?_eq_some htail).1
      have hinfix : ['*', '/'] <:+: body := ⟨inner, more, hmore⟩
      exact absurd hinfix h
  | none => simp only [ofSlash, htail]

theorem eq_first_of_blockComment {body : List Char} (h : ¬ ['*', '/'] <:+: body ++ ['*'])
    (behind : List Char) :
    first '/' ('*' :: (body ++ ['*', '/']) ++ behind)
      = ⟨.comment, '/', '*' :: (body ++ ['*', '/'])⟩ := by
  have htail : blockCommentTail? (body ++ ['*', '/'] ++ behind) = some (body ++ ['*', '/']) := by
    rw [List.append_assoc]
    exact blockCommentTail?_append h behind
  show ofSlash '/' ('*' :: (body ++ ['*', '/'] ++ behind)) = _
  simp only [ofSlash, htail]

/-- The kinds of the tokens of one character have no other tokens. -/
theorem lexeme_symbol {c : Char} {kind : Kind} {text : List Char} (hc : (c, kind) ∈ symbols)
    (h : Lexeme kind text) : text = [c] := by
  have hsymbols : ∀ entry ∈ symbols, ∀ other ∈ symbols, other.2 = entry.2 → other.1 = entry.1 := by
    decide
  have hsigns : ∀ entry ∈ symbols, ∀ sign ∈ signs, sign.2.1 ≠ entry.2 ∧ sign.2.2 ≠ entry.2 := by
    decide
  have hkeywords : ∀ entry ∈ symbols, ∀ word ∈ Kind.keywords, word.2 ≠ entry.2 := by decide
  have hothers : ∀ entry ∈ symbols,
      entry.2 ≠ .identifier ∧ entry.2 ≠ .number ∧ entry.2 ≠ .string := by
    decide
  cases h with
  | symbol hd => exact congrArg (fun d => [d]) (hsymbols _ hc _ hd rfl)
  | sign hd => exact absurd rfl (hsigns _ hc _ hd).1
  | signEqual hd => exact absurd rfl (hsigns _ hc _ hd).2
  | keyword hd => exact absurd rfl (hkeywords _ hc _ hd)
  | name _ _ _ => exact absurd rfl (hothers _ hc).1
  | integer _ _ => exact absurd rfl (hothers _ hc).2.1
  | fraction _ _ _ _ => exact absurd rfl (hothers _ hc).2.1
  | string _ => exact absurd rfl (hothers _ hc).2.2

/-- A token that is the longest at its place is the first piece there. -/
theorem eq_first_of_longest {kind : Kind} {c : Char} {tail behind : List Char}
    (hlexeme : Lexeme kind (c :: tail)) (hlongest : Longest (c :: tail) behind)
    (hslash : kind = .slash → ∀ d, behind.head? = some d → d ≠ '/' ∧ d ≠ '*') :
    first c (tail ++ behind) = ⟨.token kind, c, tail⟩ := by
  have hcovers := first_covers hlexeme (List.prefix_append tail behind)
  have hcut := first_cutFrom c (tail ++ behind)
  obtain ⟨extra, hextra⟩ := hcovers.tail
  suffices hnil : extra = [] by
    have htail : tail = (first c (tail ++ behind)).tail := by
      rw [← hextra, hnil, List.append_nil]
    have hshape := hcovers.same htail
    have hhead := hcut.head
    generalize first c (tail ++ behind) = p at htail hshape hhead
    obtain ⟨shape, head, ptail⟩ := p
    cases htail
    cases hshape
    cases hhead
    rfl
  have hbehind : extra <+: behind := by
    have hreach := hcut.tail
    rw [← hextra] at hreach
    exact (List.prefix_append_right_inj tail).mp hreach
  by_cases hkind : kind = .slash
  · -- A slash covers more than itself only if it opens a comment.
    subst hkind
    cases lexeme_symbol (c := '/') (by decide) hlexeme
    rw [List.nil_append] at hextra
    rw [hextra, List.nil_append, first_slash (hslash rfl)]
    rfl
  · obtain ⟨kind', hshape⟩ := hcovers.token hkind
    obtain ⟨after, hafter⟩ := hcut.tail
    have hstretch := first_stretch hafter
    rw [hshape] at hstretch
    cases hstretch with
    | token hfirst _ _ =>
        rw [← hextra] at hfirst
        exact hlongest kind' extra hfirst hbehind

/-- A token with nothing behind it is the first piece. -/
theorem first_lexeme {kind : Kind} {c : Char} {tail : List Char} (h : Lexeme kind (c :: tail)) :
    first c tail = ⟨.token kind, c, tail⟩ := by
  have hlongest : Longest (c :: tail) [] := fun _ _ _ hextra => List.prefix_nil.mp hextra
  have hfirst := eq_first_of_longest h hlongest fun _ _ hd => nomatch hd
  rwa [List.append_nil] at hfirst

/-- What a stretch of text is, is what the first piece says. -/
theorem eq_first_of_stretch {p : Piece} {behind : List Char} (h : Stretch p.shape p.text behind) :
    first p.head (p.tail ++ behind) = p := by
  obtain ⟨shape, head, tail⟩ := p
  dsimp only [text] at h ⊢
  generalize htext : head :: tail = text at h
  cases h with
  | blank hc =>
      cases htext
      exact first_blank hc _
  | lineComment hbody hbehind =>
      cases htext
      exact eq_first_of_lineComment hbody hbehind
  | blockComment hbody =>
      cases htext
      exact eq_first_of_blockComment hbody behind
  | token hlexeme hlongest hslash =>
      subst htext
      exact eq_first_of_longest hlexeme hlongest hslash
  | unexpected hblank hnone =>
      cases htext
      exact first_unexpected hblank hnone _
  | openString hbody =>
      cases htext
      rw [List.append_nil]
      exact eq_first_of_openString hbody
  | openComment hbody =>
      cases htext
      rw [List.append_nil]
      exact eq_first_of_openComment hbody

end Piece

theorem cut_pieces (text : List Char) : Cut text (pieces text) := by
  induction text using pieces.induct with
  | case1 =>
      rw [pieces]
      exact .nil
  | case2 c rest piece ih =>
      have hcut := Piece.first_cutFrom c rest
      have htail : piece.tail ++ rest.drop piece.tail.length = rest :=
        List.prefix_iff_eq_append.mp hcut.tail
      have htext : piece.text ++ rest.drop piece.tail.length = c :: rest := by
        rw [Piece.text, hcut.head, List.cons_append, htail]
      have hstretch : Stretch piece.shape piece.text (rest.drop piece.tail.length) := by
        rw [Piece.text, hcut.head]
        exact Piece.first_stretch htail
      rw [pieces_cons, ← htext]
      exact .cons hstretch ih

/-- A text has one cut by the longest match, and that is how it is cut into pieces. -/
theorem cut_iff_pieces {text : List Char} {ps : List Piece} : Cut text ps ↔ ps = pieces text := by
  constructor
  · intro h
    induction h with
    | nil => rw [pieces]
    | @cons p behind ps hstretch _ ih =>
        have hfirst := Piece.eq_first_of_stretch hstretch
        show p :: ps = pieces (p.head :: (p.tail ++ behind))
        rw [pieces_cons, hfirst, List.drop_left, ih]
  · rintro rfl
    exact cut_pieces text

end LoxLang
