import LoxLang.Token.Piece

set_option autoImplicit false

/-! # The cut of a text into pieces

A piece is a stretch of the text that it is cut from, so the pieces make up the whole text, with
nothing between them and nothing behind them (`pieces_text`). Where a piece ends depends on little of
what follows: a line feed behind a text leaves all its pieces as they are, unless a string or a
comment is still open there (`pieces_append`). -/

namespace LoxLang

namespace Piece

/-- What it is to be cut from the front of the text `c :: rest`: the piece starts there, and it is no
end-of-input token. -/
structure CutFrom (c : Char) (rest : List Char) (p : Piece) : Prop where
  head : p.head = c
  tail : p.tail <+: rest
  kind : p.shape ≠ .token .endOfInput

/-- Whether a piece has come to its end, in contrast to a string or a comment that is still open. -/
def closed (p : Piece) : Bool :=
  p.shape != .fault .unterminatedString && p.shape != .fault .unterminatedComment

end Piece

/-! ## Tails -/

theorem blockCommentTail?_eq_some {text tail : List Char} (h : blockCommentTail? text = some tail) :
    tail <+: text ∧ ∀ more, blockCommentTail? (text ++ more) = some tail := by
  induction text using blockCommentTail?.induct generalizing tail with
  | case1 => cases h
  | case2 rest =>
      rw [blockCommentTail?] at h
      cases h
      exact ⟨⟨rest, rfl⟩, fun more => by rw [List.cons_append, List.cons_append, blockCommentTail?]⟩
  | case3 c rest hopen ih =>
      rw [blockCommentTail?] at h
      · obtain ⟨inner, hinner, rfl⟩ := Option.map_eq_some_iff.mp h
        obtain ⟨⟨behind, hinit⟩, hmore⟩ := ih hinner
        refine ⟨⟨behind, by rw [List.cons_append, hinit]⟩, fun more => ?_⟩
        rw [List.cons_append, blockCommentTail?, hmore more]
        · rfl
        · -- The rest is not empty, since a comment ends in it.
          intro after hc hrest
          cases rest with
          | nil => cases hinner
          | cons d ds =>
              obtain ⟨rfl, -⟩ := List.cons.inj hrest
              exact hopen ds hc rfl
      · exact hopen

theorem stringTail?_eq_some {text tail : List Char} (h : stringTail? text = some tail) :
    tail <+: text ∧ ∀ more, stringTail? (text ++ more) = some tail := by
  induction text generalizing tail with
  | nil => cases h
  | cons c rest ih =>
      rw [stringTail?] at h
      by_cases hc : c = '"'
      · rw [if_pos (by simpa using hc)] at h
        cases h
        refine ⟨⟨rest, by rw [hc]; rfl⟩, fun more => ?_⟩
        rw [List.cons_append, stringTail?, if_pos (by simpa using hc)]
      · rw [if_neg (by simpa using hc)] at h
        obtain ⟨inner, hinner, rfl⟩ := Option.map_eq_some_iff.mp h
        obtain ⟨⟨behind, hinit⟩, hmore⟩ := ih hinner
        refine ⟨⟨behind, by rw [List.cons_append, hinit]⟩, fun more => ?_⟩
        rw [List.cons_append, stringTail?, if_neg (by simpa using hc), hmore more]
        rfl

/-- What is taken as long as a property holds does not reach past a line feed without it. -/
theorem takeWhile_lineFeed {p : Char → Bool} (h : p '\n' = false) (text more : List Char) :
    (text ++ '\n' :: more).takeWhile p = text.takeWhile p := by
  induction text with
  | nil => simp [h]
  | cons c rest ih =>
      by_cases hc : p c = true
      · rw [List.cons_append, List.takeWhile_cons_of_pos hc, List.takeWhile_cons_of_pos hc, ih]
      · rw [List.cons_append, List.takeWhile_cons_of_neg hc, List.takeWhile_cons_of_neg hc]

theorem dropWhile_lineFeed {p : Char → Bool} (h : p '\n' = false) (text more : List Char) :
    (text ++ '\n' :: more).dropWhile p = text.dropWhile p ++ '\n' :: more := by
  induction text with
  | nil => simp [h]
  | cons c rest ih =>
      by_cases hc : p c = true
      · rw [List.cons_append, List.dropWhile_cons_of_pos hc, List.dropWhile_cons_of_pos hc, ih]
      · rw [List.cons_append, List.dropWhile_cons_of_neg hc, List.dropWhile_cons_of_neg hc,
          List.cons_append]

theorem isDigit_lineFeed : isDigit '\n' = false := by decide

theorem continuesName_lineFeed : continuesName '\n' = false := by decide

theorem numberTail_init (rest : List Char) : numberTail rest <+: rest :=
  calc numberTail rest
      <+: rest.takeWhile isDigit ++ rest.dropWhile isDigit := by
        refine (List.prefix_append_right_inj _).mpr ?_
        split
        case h_1 c more heq =>
            by_cases hc : isDigit c = true
            · rw [if_pos hc, heq, List.cons_prefix_cons]
              exact ⟨rfl, List.takeWhile_prefix _⟩
            · rw [if_neg hc]
              exact List.nil_prefix
        case h_2 => exact List.nil_prefix
    _ = rest := List.takeWhile_append_dropWhile

theorem numberTail_lineFeed (rest more : List Char) :
    numberTail (rest ++ '\n' :: more) = numberTail rest := by
  unfold numberTail
  rw [takeWhile_lineFeed isDigit_lineFeed, dropWhile_lineFeed isDigit_lineFeed]
  congr 1
  -- A point that ends the text is followed by the line feed, which is no digit.
  match hdrop : rest.dropWhile isDigit with
  | [] => rfl
  | [c] =>
      by_cases hc : c = '.'
      · subst hc
        rfl
      · simp [hc]
  | c :: d :: ds =>
      by_cases hc : c = '.'
      · subst hc
        show (if isDigit d then '.' :: (d :: ds ++ '\n' :: more).takeWhile isDigit else []) = _
        rw [takeWhile_lineFeed isDigit_lineFeed]
        rfl
      · simp [hc]

/-! ## The first piece -/

namespace Piece

theorem withEqual_cutFrom {long short : Kind} (hlong : long ≠ .endOfInput)
    (hshort : short ≠ .endOfInput) (c : Char) (rest : List Char) :
    CutFrom c rest (withEqual long short c rest) := by
  unfold withEqual
  split
  case h_1 more => exact ⟨rfl, ⟨more, rfl⟩, by simpa using hlong⟩
  case h_2 => exact ⟨rfl, List.nil_prefix, by simpa [single] using hshort⟩

theorem ofSlash_cutFrom (c : Char) (rest : List Char) : CutFrom c rest (ofSlash c rest) := by
  unfold ofSlash
  split
  case h_1 more =>
      refine ⟨rfl, ?_, by simp⟩
      exact List.cons_prefix_cons.mpr ⟨rfl, List.takeWhile_prefix _⟩
  case h_2 more =>
      cases htail : blockCommentTail? more with
      | some tail =>
          refine ⟨rfl, ?_, by simp⟩
          exact List.cons_prefix_cons.mpr ⟨rfl, (blockCommentTail?_eq_some htail).1⟩
      | none => exact ⟨rfl, List.prefix_rfl, by simp⟩
  case h_3 => exact ⟨rfl, List.nil_prefix, by simp [single]⟩

theorem ofQuote_cutFrom (c : Char) (rest : List Char) : CutFrom c rest (ofQuote c rest) := by
  unfold ofQuote
  cases htail : stringTail? rest with
  | some tail => exact ⟨rfl, (stringTail?_eq_some htail).1, by simp⟩
  | none => exact ⟨rfl, List.prefix_rfl, by simp⟩

theorem ofWord_ne_endOfInput (word : String) : Kind.ofWord word ≠ .endOfInput := by
  have hkeywords : ∀ entry ∈ Kind.keywords, entry.2 ≠ .endOfInput := by decide
  unfold Kind.ofWord
  cases hword : Kind.keywords.lookup word with
  | none => simp
  | some kind =>
      obtain ⟨before, after, heq, -⟩ := List.lookup_eq_some_iff.mp hword
      exact hkeywords (word, kind) (by simp [heq])


theorem ofOther_cutFrom (c : Char) (rest : List Char) : CutFrom c rest (ofOther c rest) := by
  unfold ofOther
  split
  case isTrue => exact ⟨rfl, numberTail_init rest, by simp⟩
  case isFalse =>
      split
      case isTrue =>
          refine ⟨rfl, List.takeWhile_prefix _, ?_⟩
          simpa using ofWord_ne_endOfInput _
      case isFalse => exact ⟨rfl, List.nil_prefix, by simp⟩

theorem first_cutFrom (c : Char) (rest : List Char) : CutFrom c rest (first c rest) := by
  unfold first
  split
  all_goals first
    | exact ⟨rfl, List.nil_prefix, by simp [single]⟩
    | exact withEqual_cutFrom (by simp) (by simp) _ rest
    | exact ofSlash_cutFrom _ rest
    | exact ofQuote_cutFrom _ rest
    | exact ofOther_cutFrom _ rest

/-! ## A line feed behind the text -/

variable {c : Char} {rest : List Char} (more : List Char)

theorem withEqual_lineFeed (long short : Kind) :
    withEqual long short c (rest ++ '\n' :: more) = withEqual long short c rest := by
  cases rest with
  | nil => rfl
  | cons d ds =>
      by_cases hd : d = '='
      · subst hd
        rfl
      · simp [withEqual, hd]

theorem ofSlash_lineFeed (h : (ofSlash c rest).closed = true) :
    ofSlash c (rest ++ '\n' :: more) = ofSlash c rest := by
  match rest with
  | [] => rfl
  | d :: ds =>
      by_cases hslash : d = '/'
      · subst hslash
        show (⟨.comment, c, '/' :: (ds ++ '\n' :: more).takeWhile (· != '\n')⟩ : Piece) = _
        rw [takeWhile_lineFeed (by decide)]
        rfl
      · by_cases hstar : d = '*'
        · subst hstar
          cases htail : blockCommentTail? ds with
          | some tail =>
              simp only [ofSlash, List.cons_append, htail,
                (blockCommentTail?_eq_some htail).2 ('\n' :: more)]
          | none => simp [ofSlash, htail, closed] at h
        · simp [ofSlash, hslash, hstar]

theorem ofQuote_lineFeed (h : (ofQuote c rest).closed = true) :
    ofQuote c (rest ++ '\n' :: more) = ofQuote c rest := by
  unfold ofQuote at h ⊢
  cases htail : stringTail? rest with
  | some tail => rw [(stringTail?_eq_some htail).2 ('\n' :: more)]
  | none =>
      rw [htail] at h
      simp [closed] at h

theorem ofOther_lineFeed : ofOther c (rest ++ '\n' :: more) = ofOther c rest := by
  unfold ofOther
  rw [numberTail_lineFeed, takeWhile_lineFeed continuesName_lineFeed]

theorem first_lineFeed (h : (first c rest).closed = true) :
    first c (rest ++ '\n' :: more) = first c rest := by
  unfold first at h ⊢
  split at h
  all_goals first
    | rfl
    | exact withEqual_lineFeed more _ _
    | exact ofSlash_lineFeed more h
    | exact ofQuote_lineFeed more h
    | exact ofOther_lineFeed more

end Piece

/-! ## All pieces -/

theorem pieces_cons (c : Char) (rest : List Char) :
    pieces (c :: rest) =
      Piece.first c rest :: pieces (rest.drop (Piece.first c rest).tail.length) := by
  rw [pieces]

/-- The pieces make up the text. -/
theorem pieces_text (text : List Char) : (pieces text).flatMap Piece.text = text := by
  induction text using pieces.induct with
  | case1 => rw [pieces]; rfl
  | case2 c rest piece ih =>
      have hcut := Piece.first_cutFrom c rest
      have htail : piece.tail ++ rest.drop piece.tail.length = rest :=
        List.prefix_iff_eq_append.mp hcut.tail
      calc (pieces (c :: rest)).flatMap Piece.text
          = piece.text ++ (pieces (rest.drop piece.tail.length)).flatMap Piece.text := by
            rw [pieces_cons]
            rfl
        _ = c :: piece.tail ++ rest.drop piece.tail.length := by
            rw [ih, Piece.text, hcut.head]
        _ = c :: rest := by rw [List.cons_append, htail]

/-- A line feed between two texts is a piece of its own, and the texts are cut as they are apart, unless
the first one ends inside a string or a comment. -/
theorem pieces_append (text more : List Char) (h : ∀ p ∈ pieces text, p.closed = true) :
    pieces (text ++ '\n' :: more) = pieces text ++ ⟨.blank, '\n', []⟩ :: pieces more := by
  induction text using pieces.induct with
  | case1 =>
      rw [List.nil_append, pieces_cons, pieces]
      rfl
  | case2 c rest piece ih =>
      rw [pieces_cons] at h ⊢
      rw [List.forall_mem_cons] at h
      have hfirst : Piece.first c (rest ++ '\n' :: more) = piece := Piece.first_lineFeed more h.1
      have hlen : piece.tail.length ≤ rest.length := (Piece.first_cutFrom c rest).tail.length_le
      rw [List.cons_append, pieces_cons, hfirst, List.drop_append_of_le_length hlen, ih h.2]
      rfl

end LoxLang
