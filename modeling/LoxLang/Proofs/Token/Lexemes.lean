import LoxLang.Proofs.Token.Pieces
import Mathlib.Data.List.Chain
import Mathlib.Data.List.TakeWhile

set_option autoImplicit false

/-! # The lexical grammar

`Lexeme` says which texts are tokens of which kind, with no regard to how they are found in a longer
text. The rest of this module is about the functions that look for the end of a token or a comment:
each finds the end that the grammar has in mind. -/

namespace LoxLang

/-! ## Letters and digits

No letter is a digit. The tables are long, so they are compared in one pass, which needs them to be in
increasing order. -/

/-- Whether the ranges of two tables in increasing order lie apart. -/
def rangesApart : List (Nat × Nat) → List (Nat × Nat) → Bool
  | [], _ => true
  | d :: ds, rs =>
    let above := rs.dropWhile fun r => Nat.blt r.2 d.1
    (above.head?.all fun r => Nat.blt d.2 r.1) && rangesApart ds above

/-- The order in which tables list their ranges. -/
def RangesIncrease (rs : List (Nat × Nat)) : Prop :=
  rs.Pairwise fun a b => a.1 ≤ b.1

theorem rangesIncrease_of_isChain {rs : List (Nat × Nat)}
    (h : rs.IsChain fun a b => a.1 ≤ b.1) : RangesIncrease rs := by
  have htrans : IsTrans (Nat × Nat) fun a b => a.1 ≤ b.1 := ⟨fun _ _ _ => Nat.le_trans⟩
  exact List.isChain_iff_pairwise.mp h

theorem rangesApart_sound {ds rs : List (Nat × Nat)} (hds : RangesIncrease ds)
    (hrs : RangesIncrease rs) (h : rangesApart ds rs = true) :
    ∀ d ∈ ds, ∀ r ∈ rs, r.2 < d.1 ∨ d.2 < r.1 := by
  induction ds generalizing rs with
  | nil => simp
  | cons d ds ih =>
      intro d' hd' r hr
      rw [rangesApart, Bool.and_eq_true] at h
      obtain ⟨hhead, hrest⟩ := h
      have hge : d.1 ≤ d'.1 := by
        rcases List.mem_cons.mp hd' with rfl | hd'
        · exact Nat.le_refl _
        · exact (List.pairwise_cons.mp hds).1 d' hd'
      -- A range is passed over because it ends below `d`, or it starts where the first one that is
      -- left starts or above.
      rw [← List.takeWhile_append_dropWhile (p := fun r : Nat × Nat => Nat.blt r.2 d.1) (l := rs)]
        at hr
      rcases List.mem_append.mp hr with hr | hr
      · have hlt := List.mem_takeWhile_imp hr
        have hlt' : r.2 < d.1 := by simpa using hlt
        exact Or.inl (by omega)
      · have hsub : RangesIncrease (rs.dropWhile fun r => Nat.blt r.2 d.1) :=
          hrs.sublist (List.dropWhile_sublist _)
        rcases List.mem_cons.mp hd' with rfl | hd'
        · cases habove : rs.dropWhile fun r => Nat.blt r.2 d'.1 with
          | nil =>
              rw [habove] at hr
              cases hr
          | cons first more =>
              rw [habove] at hhead hsub hr
              have hfirst : d'.2 < first.1 := by simpa using hhead
              rcases List.mem_cons.mp hr with rfl | hr
              · exact Or.inr hfirst
              · have hle := (List.pairwise_cons.mp hsub).1 r hr
                exact Or.inr (by omega)
        · exact ih (List.pairwise_cons.mp hds).2 hsub hrest d' hd' r hr

theorem inRanges_iff {table : List (Nat × Nat)} {n : Nat} :
    inRanges table n = true ↔ ∃ r ∈ table, r.1 ≤ n ∧ n ≤ r.2 := by
  simp [inRanges]

theorem letters_digits_apart {n : Nat} (h : inRanges letterRanges n = true) :
    inRanges digitRanges n = false := by
  have hdigits : RangesIncrease digitRanges := rangesIncrease_of_isChain (by decide +kernel)
  have hletters : RangesIncrease letterRanges := rangesIncrease_of_isChain (by decide +kernel)
  have hapart := rangesApart_sound hdigits hletters (by decide +kernel)
  rw [Bool.eq_false_iff]
  intro hdigit
  obtain ⟨r, hr, hrn⟩ := inRanges_iff.mp h
  obtain ⟨d, hd, hdn⟩ := inRanges_iff.mp hdigit
  have := hapart d hd r hr
  omega

theorem isDigit_of_isLetter {c : Char} (h : isLetter c = true) : isDigit c = false := by
  rw [Bool.eq_false_iff]
  intro hdigit
  unfold isLetter at h
  unfold isDigit isAsciiDigit at hdigit
  by_cases hlow : c.toNat < 0x100
  · rw [if_pos hlow] at hdigit
    have hrange : 0x30 ≤ c.toNat ∧ c.toNat ≤ 0x39 := by simpa using hdigit
    have hascii : c.toNat < 0x80 := by omega
    have hletter : (0x41 ≤ c.toNat ∧ c.toNat ≤ 0x5A) ∨ (0x61 ≤ c.toNat ∧ c.toNat ≤ 0x7A) := by
      simpa [hascii] using h
    omega
  · have hascii : ¬ c.toNat < 0x80 := by omega
    simp only [hascii, hlow, if_false] at h hdigit
    rw [letters_digits_apart h] at hdigit
    cases hdigit

theorem isDigit_of_startsName {c : Char} (h : startsName c = true) : isDigit c = false := by
  unfold startsName at h
  rcases Bool.or_eq_true_iff.mp h with h | h
  · exact isDigit_of_isLetter h
  · rw [beq_iff_eq.mp h]
    decide

/-! ## Lexemes -/

/-- The tokens of one character that nothing is added to. -/
def symbols : List (Char × Kind) :=
  [ ('(', .leftParen), (')', .rightParen), ('{', .leftBrace), ('}', .rightBrace), (',', .comma),
    ('.', .dot), ('-', .minus), ('+', .plus), (';', .semicolon), ('/', .slash), ('*', .star) ]

/-- The tokens that an equals sign can be added to: the kinds without and with it. -/
def signs : List (Char × Kind × Kind) :=
  [ ('!', .bang, .bangEqual), ('=', .equal, .equalEqual), ('<', .less, .lessEqual),
    ('>', .greater, .greaterEqual) ]

/-- The texts that are tokens, with their kinds. -/
inductive Lexeme : Kind → List Char → Prop
  | symbol {c : Char} {kind : Kind} : (c, kind) ∈ symbols → Lexeme kind [c]
  | sign {c : Char} {short long : Kind} : (c, short, long) ∈ signs → Lexeme short [c]
  | signEqual {c : Char} {short long : Kind} : (c, short, long) ∈ signs → Lexeme long [c, '=']
  | keyword {kind : Kind} {text : List Char} :
    (String.ofList text, kind) ∈ Kind.keywords → Lexeme kind text
  /-- A name is a word that is not reserved. -/
  | name {c : Char} {tail : List Char} :
    startsName c = true → (∀ d ∈ tail, continuesName d = true) →
    (∀ kind, (String.ofList (c :: tail), kind) ∉ Kind.keywords) → Lexeme .identifier (c :: tail)
  | integer {c : Char} {tail : List Char} :
    isDigit c = true → (∀ d ∈ tail, isDigit d = true) → Lexeme .number (c :: tail)
  | fraction {c d : Char} {tail more : List Char} :
    isDigit c = true → (∀ x ∈ tail, isDigit x = true) → isDigit d = true →
    (∀ x ∈ more, isDigit x = true) → Lexeme .number (c :: (tail ++ '.' :: d :: more))
  | string {body : List Char} : '"' ∉ body → Lexeme .string ('"' :: (body ++ ['"']))

/-- No token is longer: `text`, with `behind` after it, is no proper part of a token that starts where
it starts. -/
def Longest (text behind : List Char) : Prop :=
  ∀ kind extra, Lexeme kind (text ++ extra) → extra <+: behind → extra = []

/-! ## Words -/

theorem ofWord_of_mem {word : String} {kind : Kind} (h : (word, kind) ∈ Kind.keywords) :
    Kind.ofWord word = kind := by
  have hall : ∀ entry ∈ Kind.keywords, Kind.ofWord entry.1 = entry.2 := by decide
  exact hall (word, kind) h

theorem ofWord_of_notMem {word : String} (h : ∀ kind, (word, kind) ∉ Kind.keywords) :
    Kind.ofWord word = .identifier := by
  unfold Kind.ofWord
  cases hword : Kind.keywords.lookup word with
  | none => rfl
  | some kind =>
      obtain ⟨before, after, heq, -⟩ := List.lookup_eq_some_iff.mp hword
      exact absurd (by simp [heq]) (h kind)

/-- The reserved words are words. -/
theorem keyword_text {text : List Char} {kind : Kind}
    (h : (String.ofList text, kind) ∈ Kind.keywords) :
    ∃ c tail, text = c :: tail ∧ startsName c = true ∧ ∀ d ∈ tail, continuesName d = true := by
  have hall : ∀ entry ∈ Kind.keywords, (entry.1.toList.head?.any startsName &&
      entry.1.toList.tail.all continuesName) = true := by decide
  have hword := hall _ h
  rw [String.toList_ofList] at hword
  cases text with
  | nil => simp at hword
  | cons c tail =>
      have hshape : startsName c = true ∧ ∀ d ∈ tail, continuesName d = true := by
        simpa using hword
      exact ⟨c, tail, rfl, hshape⟩

theorem lexeme_word {c : Char} {tail : List Char} (hc : startsName c = true)
    (htail : ∀ d ∈ tail, continuesName d = true) :
    Lexeme (Kind.ofWord (String.ofList (c :: tail))) (c :: tail) := by
  by_cases h : ∃ kind, (String.ofList (c :: tail), kind) ∈ Kind.keywords
  · obtain ⟨kind, hkind⟩ := h
    rw [ofWord_of_mem hkind]
    exact .keyword hkind
  · have hnone : ∀ kind, (String.ofList (c :: tail), kind) ∉ Kind.keywords :=
      fun kind hkind => h ⟨kind, hkind⟩
    rw [ofWord_of_notMem hnone]
    exact .name hc htail hnone

/-! ## The characters of tokens -/

/-- The characters of names, numbers and signs. -/
def isPlain (c : Char) : Bool :=
  continuesName c || c == '.' || signs.any (·.1 == c)

theorem isPlain_of_continuesName {c : Char} (h : continuesName c = true) : isPlain c = true := by
  simp [isPlain, h]

theorem isPlain_of_startsName {c : Char} (h : startsName c = true) : isPlain c = true := by
  refine isPlain_of_continuesName ?_
  rcases Bool.or_eq_true_iff.mp h with h | h <;> simp [continuesName, h]

theorem isPlain_of_isDigit {c : Char} (h : isDigit c = true) : isPlain c = true :=
  isPlain_of_continuesName (by simp [continuesName, h])

/-- A token is a string, a symbol, or made of plain characters. -/
theorem lexeme_chars {kind : Kind} {text : List Char} (h : Lexeme kind text) :
    (kind = .string ∧ ∃ body, text = '"' :: (body ++ ['"']) ∧ '"' ∉ body) ∨
      (∃ c, text = [c] ∧ (c, kind) ∈ symbols) ∨ ∀ c ∈ text, isPlain c = true := by
  have hsigns : ∀ entry ∈ signs, isPlain entry.1 = true := by decide
  have hdigits {ds : List Char} (hds : ∀ d ∈ ds, isDigit d = true) : ∀ d ∈ ds, isPlain d = true :=
    fun d hd => isPlain_of_isDigit (hds d hd)
  have hword {c : Char} {tail : List Char} (hc : startsName c = true)
      (htail : ∀ d ∈ tail, continuesName d = true) : ∀ d ∈ c :: tail, isPlain d = true :=
    List.forall_mem_cons.mpr
      ⟨isPlain_of_startsName hc, fun d hd => isPlain_of_continuesName (htail d hd)⟩
  cases h with
  | symbol hc => exact Or.inr (Or.inl ⟨_, rfl, hc⟩)
  | string hbody => exact Or.inl ⟨rfl, _, rfl, hbody⟩
  | sign hc =>
      refine Or.inr (Or.inr fun d hd => ?_)
      rw [List.mem_singleton.mp hd]
      exact hsigns _ hc
  | signEqual hc =>
      refine Or.inr (Or.inr fun d hd => ?_)
      rcases List.mem_pair.mp hd with rfl | rfl
      · exact hsigns _ hc
      · decide
  | keyword hkind =>
      obtain ⟨c, tail, rfl, hc, htail⟩ := keyword_text hkind
      exact Or.inr (Or.inr (hword hc htail))
  | name hc htail _ => exact Or.inr (Or.inr (hword hc htail))
  | integer hc htail => exact Or.inr (Or.inr (hdigits (List.forall_mem_cons.mpr ⟨hc, htail⟩)))
  | fraction hc htail hd hmore =>
      refine Or.inr (Or.inr (List.forall_mem_cons.mpr ⟨isPlain_of_isDigit hc, ?_⟩))
      refine List.forall_mem_append.mpr ⟨hdigits htail, List.forall_mem_cons.mpr ⟨by decide, ?_⟩⟩
      exact hdigits (List.forall_mem_cons.mpr ⟨hd, hmore⟩)

/-! ## Tails -/

theorem stringTail?_some {rest tail : List Char} (h : stringTail? rest = some tail) :
    ∃ body, tail = body ++ ['"'] ∧ '"' ∉ body := by
  induction rest generalizing tail with
  | nil => cases h
  | cons c rest ih =>
      rw [stringTail?] at h
      by_cases hc : c = '"'
      · rw [if_pos (by simpa using hc)] at h
        cases h
        exact ⟨[], rfl, by simp⟩
      · rw [if_neg (by simpa using hc)] at h
        obtain ⟨inner, hinner, rfl⟩ := Option.map_eq_some_iff.mp h
        obtain ⟨body, rfl, hbody⟩ := ih hinner
        exact ⟨c :: body, rfl, by simp [hbody, Ne.symm hc]⟩

theorem stringTail?_none {rest : List Char} (h : stringTail? rest = none) : '"' ∉ rest := by
  induction rest with
  | nil => simp
  | cons c rest ih =>
      rw [stringTail?] at h
      by_cases hc : c = '"'
      · rw [if_pos (by simpa using hc)] at h
        cases h
      · rw [if_neg (by simpa using hc), Option.map_eq_none_iff] at h
        simp [ih h, Ne.symm hc]

theorem stringTail?_append {body : List Char} (h : '"' ∉ body) (more : List Char) :
    stringTail? (body ++ '"' :: more) = some (body ++ ['"']) := by
  induction body with
  | nil => rfl
  | cons c body ih =>
      have hc : c ≠ '"' := fun heq => h (by simp [heq])
      have hbody : '"' ∉ body := fun hmem => h (by simp [hmem])
      rw [List.cons_append, stringTail?, if_neg (by simpa using hc), ih hbody]
      rfl

/-- Where a `*/` can stand in a text with one more character in front. -/
theorem closing_infix_cons {c : Char} {rest : List Char} :
    ['*', '/'] <:+: c :: rest ↔ (c = '*' ∧ rest.head? = some '/') ∨ ['*', '/'] <:+: rest := by
  rw [List.infix_cons_iff]
  cases rest with
  | nil => simp
  | cons d ds => simp [List.cons_prefix_cons, eq_comm]

theorem blockCommentTail?_some {rest tail : List Char} (h : blockCommentTail? rest = some tail) :
    ∃ body, tail = body ++ ['*', '/'] ∧ ¬ ['*', '/'] <:+: body ++ ['*'] := by
  induction rest using blockCommentTail?.induct generalizing tail with
  | case1 => cases h
  | case2 rest =>
      rw [blockCommentTail?] at h
      cases h
      exact ⟨[], rfl, by decide⟩
  | case3 c rest hopen ih =>
      rw [blockCommentTail?] at h
      · obtain ⟨inner, hinner, rfl⟩ := Option.map_eq_some_iff.mp h
        obtain ⟨body, rfl, hbody⟩ := ih hinner
        refine ⟨c :: body, rfl, ?_⟩
        rw [List.cons_append, closing_infix_cons]
        rintro (⟨rfl, hhead⟩ | hinfix)
        · -- The text in front of the closing starts as the text itself does.
          obtain ⟨⟨more, hmore⟩, -⟩ := blockCommentTail?_eq_some hinner
          cases body with
          | nil => simp at hhead
          | cons d ds =>
              obtain rfl : d = '/' := by simpa using hhead
              exact hopen (ds ++ ['*', '/'] ++ more) rfl hmore.symm
        · exact hbody hinfix
      · exact hopen

theorem blockCommentTail?_none {rest : List Char} (h : blockCommentTail? rest = none) :
    ¬ ['*', '/'] <:+: rest := by
  induction rest using blockCommentTail?.induct with
  | case1 => decide
  | case2 rest =>
      rw [blockCommentTail?] at h
      cases h
  | case3 c rest hopen ih =>
      rw [blockCommentTail?] at h
      · rw [closing_infix_cons]
        rintro (⟨rfl, hhead⟩ | hinfix)
        · obtain ⟨more, rfl⟩ := List.head?_eq_some_iff.mp hhead
          exact hopen more rfl rfl
        · exact ih (Option.map_eq_none_iff.mp h) hinfix
      · exact hopen

theorem blockCommentTail?_append {body : List Char} (h : ¬ ['*', '/'] <:+: body ++ ['*'])
    (more : List Char) :
    blockCommentTail? (body ++ '*' :: '/' :: more) = some (body ++ ['*', '/']) := by
  induction body with
  | nil => rw [List.nil_append, blockCommentTail?]; rfl
  | cons c body ih =>
      rw [List.cons_append, closing_infix_cons] at h
      have hbody : ¬ ['*', '/'] <:+: body ++ ['*'] := fun hinfix => h (Or.inr hinfix)
      rw [List.cons_append, blockCommentTail?, ih hbody]
      · rfl
      · intro after hc hafter
        refine h (Or.inl ⟨hc, ?_⟩)
        cases body with
        | nil => simp at hafter
        | cons d ds =>
            obtain ⟨rfl, -⟩ := List.cons.inj hafter
            rfl

theorem isDigit_point : isDigit '.' = false := by decide

theorem lexeme_number {c : Char} (hc : isDigit c = true) (rest : List Char) :
    Lexeme .number (c :: numberTail rest) := by
  have hdigits : ∀ d ∈ rest.takeWhile isDigit, isDigit d = true :=
    fun d hd => List.mem_takeWhile_imp hd
  unfold numberTail
  split
  case h_1 d more heq =>
      by_cases hd : isDigit d = true
      · rw [if_pos hd, List.takeWhile_cons_of_pos hd]
        exact .fraction hc hdigits hd fun x hx => List.mem_takeWhile_imp hx
      · rw [if_neg hd, List.append_nil]
        exact .integer hc hdigits
  case h_2 =>
      rw [List.append_nil]
      exact .integer hc hdigits

theorem prefix_takeWhile {p : Char → Bool} {tail rest : List Char} (htail : ∀ d ∈ tail, p d = true)
    (h : tail <+: rest) : tail <+: rest.takeWhile p := by
  obtain ⟨more, rfl⟩ := h
  rw [List.takeWhile_append_of_pos htail]
  exact List.prefix_append _ _

theorem prefix_numberTail {tail rest : List Char} (htail : ∀ d ∈ tail, isDigit d = true)
    (h : tail <+: rest) : tail <+: numberTail rest :=
  (prefix_takeWhile htail h).trans (List.prefix_append _ _)

theorem fraction_prefix_numberTail {tail more rest : List Char} {d : Char}
    (htail : ∀ x ∈ tail, isDigit x = true) (hd : isDigit d = true)
    (hmore : ∀ x ∈ more, isDigit x = true) (h : tail ++ '.' :: d :: more <+: rest) :
    tail ++ '.' :: d :: more <+: numberTail rest := by
  obtain ⟨behind, rfl⟩ := h
  have hpoint : ¬ isDigit '.' = true := by simp [isDigit_point]
  have htake : (tail ++ '.' :: d :: more ++ behind).takeWhile isDigit = tail := by
    rw [List.append_assoc, List.takeWhile_append_of_pos htail, List.cons_append,
      List.takeWhile_cons_of_neg hpoint, List.append_nil]
  have hdrop : (tail ++ '.' :: d :: more ++ behind).dropWhile isDigit
      = '.' :: d :: (more ++ behind) := by
    rw [List.append_assoc, List.dropWhile_append_of_pos htail, List.cons_append,
      List.dropWhile_cons_of_neg hpoint, List.cons_append]
  unfold numberTail
  rw [htake, hdrop]
  show _ <+: tail ++ if isDigit d then '.' :: (d :: (more ++ behind)).takeWhile isDigit else []
  rw [if_pos hd, List.takeWhile_cons_of_pos hd, List.takeWhile_append_of_pos hmore]
  refine (List.prefix_append_right_inj tail).mpr ?_
  exact ⟨behind.takeWhile isDigit, rfl⟩

end LoxLang
