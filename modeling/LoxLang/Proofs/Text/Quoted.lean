import LoxLang.Text.Quoted
import Mathlib.Algebra.Group.Nat.Defs

set_option autoImplicit false

/-! # Quoted texts read back

An escape tells where it ends, and which character it stands for: `unescape?` reads it off the front
of any text (`unescape?_escape`), and stops only at a quote that nothing escapes. So the quoted form of
a text ends at its closing quote, wherever it stands, and two texts have the same quoted form only if
they are equal (`encode_append_inj`). -/

namespace LoxLang.Quoted

/-! ## Hexadecimal digits -/

def hexDigit (c : Char) : Nat :=
  if c.toNat ≤ '9'.toNat then c.toNat - '0'.toNat else c.toNat - 'a'.toNat + 10

/-- The number that hexadecimal digits spell, appended to those of `start`. -/
def hexFrom (start : Nat) (digits : List Char) : Nat :=
  digits.foldl (fun n c => 16 * n + hexDigit c) start

theorem hexDigit_digitChar {n : Nat} (h : n < 16) : hexDigit n.digitChar = n := by
  have hall : ∀ n < 16, hexDigit n.digitChar = n := by decide
  exact hall n h

theorem hexFrom_append (start : Nat) (front behind : List Char) :
    hexFrom start (front ++ behind) = hexFrom (hexFrom start front) behind :=
  List.foldl_append

theorem hexFrom_toDigits (n : Nat) : hexFrom 0 (Nat.toDigits 16 n) = n := by
  induction n using Nat.strongRecOn with
  | ind n ih =>
      rcases Nat.lt_or_ge n 16 with hlt | hge
      · rw [Nat.toDigits_of_lt_base hlt]
        simp [hexFrom, hexDigit_digitChar hlt]
      · have hfront : hexFrom 0 (Nat.toDigits 16 (n / 16)) = n / 16 := ih _ (by omega)
        have hlast := hexDigit_digitChar (Nat.mod_lt n (show 0 < 16 by decide))
        rw [Nat.toDigits_of_base_le (by decide) hge, hexFrom_append, hfront]
        show 16 * (n / 16) + hexDigit (n % 16).digitChar = n
        omega

theorem hexFrom_hex (width n : Nat) : hexFrom 0 (hex width n) = n := by
  have hzeros (k : Nat) : hexFrom 0 (List.replicate k '0') = 0 := by
    induction k with
    | zero => rfl
    | succ k ih => exact ih
  rw [hex, hexFrom_append, hzeros, hexFrom_toDigits]

theorem length_hex {width n : Nat} (hwidth : 0 < width) (h : n < 16 ^ width) :
    (hex width n).length = width := by
  have hle := (Nat.length_toDigits_le_iff (by decide) hwidth).mpr h
  simp only [hex, List.length_append, List.length_replicate]
  omega

/-! ## Reading one character -/

/-- How many hexadecimal digits follow the letter of an escape, if any. -/
def codeLength? : Char → Option Nat
  | 'x' => some 2
  | 'u' => some 4
  | 'U' => some 8
  | _ => none

/-- The character that a letter behind a backslash stands for. -/
def named : Char → Char
  | 'a' => Char.ofNat 0x07
  | 'b' => Char.ofNat 0x08
  | 'f' => Char.ofNat 0x0C
  | 'n' => Char.ofNat 0x0A
  | 'r' => Char.ofNat 0x0D
  | 't' => Char.ofNat 0x09
  | 'v' => Char.ofNat 0x0B
  | c => c

/-- The character at the front of a text between quotes, and what follows it; `none` at a quote. -/
def unescape? : List Char → Option (Char × List Char)
  | [] => none
  | c :: rest =>
    if c = '"' then none
    else if c = '\\' then
      match rest with
      | [] => none
      | letter :: rest =>
        match codeLength? letter with
        | some width => some (Char.ofNat (hexFrom 0 (rest.take width)), rest.drop width)
        | none => some (named letter, rest)
    else some (c, rest)

theorem unescape?_named {letter c : Char} (hcode : codeLength? letter = none)
    (hnamed : named letter = c) (rest : List Char) :
    unescape? ('\\' :: letter :: rest) = some (c, rest) := by
  simp [unescape?, hcode, hnamed]

theorem unescape?_code {letter c : Char} (width : Nat) (hcode : codeLength? letter = some width)
    (hwidth : 0 < width) (hc : c.toNat < 16 ^ width) (rest : List Char) :
    unescape? ('\\' :: letter :: (hex width c.toNat ++ rest)) = some (c, rest) := by
  have hlength := length_hex hwidth hc
  have htake : (hex width c.toNat ++ rest).take width = hex width c.toNat := List.take_left' hlength
  have hdrop : (hex width c.toNat ++ rest).drop width = rest := List.drop_left' hlength
  simp [unescape?, hcode, htake, hdrop, hexFrom_hex]

theorem shortEscape?_named {c letter : Char} (h : shortEscape? c = some letter) :
    codeLength? letter = none ∧ named letter = c ∧ letter ≠ '\n' := by
  rw [← Char.ofNat_toNat c]
  unfold shortEscape? at h
  split at h
  case h_8 => cases h
  all_goals
    rename_i hc
    cases h
    rw [hc]
    exact ⟨rfl, rfl, by decide⟩

/-- An escape is read off the front of any text. -/
theorem unescape?_escape (c : Char) (rest : List Char) :
    unescape? (escape c ++ rest) = some (c, rest) := by
  unfold escape
  split
  case isTrue h =>
    rcases Bool.or_eq_true_iff.mp h with h | h <;> rw [beq_iff_eq.mp h] <;>
      exact unescape?_named rfl rfl rest
  case isFalse h =>
    have hne : c ≠ '"' ∧ c ≠ '\\' := by simpa using h
    split
    case isTrue => simp [unescape?, hne]
    case isFalse =>
      split
      case h_1 letter hletter =>
        obtain ⟨hcode, hnamed, -⟩ := shortEscape?_named hletter
        exact unescape?_named hcode hnamed rest
      case h_2 =>
        dsimp only
        split
        case isTrue hn => exact unescape?_code 2 rfl (by decide) (by omega) rest
        case isFalse =>
          split
          case isTrue hn => exact unescape?_code 4 rfl (by decide) (by omega) rest
          case isFalse =>
            have hn : c.toNat < 0x110000 := by
              have hvalid := c.valid
              simp only [UInt32.isValidChar, Nat.isValidChar] at hvalid
              have heq : c.val.toNat = c.toNat := rfl
              omega
            exact unescape?_code 8 rfl (by decide) (by omega) rest

/-! ## Reading a whole text -/

/-- A text between quotes ends at the first quote that is not escaped. -/
theorem body_inj {s t rest rest' : List Char}
    (h : s.flatMap escape ++ '"' :: rest = t.flatMap escape ++ '"' :: rest') :
    s = t ∧ rest = rest' := by
  -- Both sides are read one character after the other, until both come to their quotes.
  have hquote (rest : List Char) : unescape? ('"' :: rest) = none := rfl
  induction s generalizing t with
  | nil =>
      cases t with
      | nil => exact ⟨rfl, (List.cons.inj h).2⟩
      | cons d t =>
          have hread := congrArg unescape? h
          rw [List.flatMap_cons, List.append_assoc, unescape?_escape] at hread
          cases (hquote rest).symm.trans hread
  | cons c s ih =>
      have hread := congrArg unescape? h
      rw [List.flatMap_cons, List.append_assoc, unescape?_escape] at hread
      cases t with
      | nil => cases hread.trans (hquote rest')
      | cons d t =>
          rw [List.flatMap_cons, List.append_assoc, unescape?_escape] at hread
          obtain ⟨rfl, hrest⟩ := Prod.mk.inj (Option.some.inj hread)
          obtain ⟨rfl, hbehind⟩ := ih hrest
          exact ⟨rfl, hbehind⟩

theorem toList_encode (s : String) :
    (encode s).toList = '"' :: (s.toList.flatMap escape ++ ['"']) :=
  String.toList_ofList

/-- A quoted text can be told from what follows it. -/
theorem encode_append_inj {s t : String} {rest rest' : List Char}
    (h : (encode s).toList ++ rest = (encode t).toList ++ rest') : s = t ∧ rest = rest' := by
  simp only [toList_encode, List.cons_append, List.append_assoc, List.nil_append] at h
  obtain ⟨hst, hrest⟩ := body_inj (List.cons.inj h).2
  exact ⟨String.toList_inj.mp hst, hrest⟩

/-! ## Line feeds -/

theorem hex_lineFeed (width n : Nat) : '\n' ∉ hex width n := by
  have hdigits (n : Nat) : '\n' ∉ Nat.toDigits 16 n := by
    induction n using Nat.strongRecOn with
    | ind n ih =>
        have hlast (k : Nat) : '\n' ∉ [k.digitChar] := fun h =>
          Nat.digitChar_ne '\n' (by decide) (List.mem_singleton.mp h).symm
        rcases Nat.lt_or_ge n 16 with hlt | hge
        · rw [Nat.toDigits_of_lt_base hlt]
          exact hlast n
        · rw [Nat.toDigits_of_base_le (by decide) hge, List.mem_append]
          exact fun h => h.elim (ih _ (by omega)) (hlast _)
  intro h
  rcases List.mem_append.mp h with h | h
  · exact absurd (List.eq_of_mem_replicate h) (by decide)
  · exact hdigits n h

theorem escape_lineFeed (c : Char) : '\n' ∉ escape c := by
  have hback {more : List Char} (h : '\n' ∉ more) : '\n' ∉ '\\' :: more := by simpa using h
  unfold escape
  split
  case isTrue h =>
    refine hback fun hmem => ?_
    rw [← List.mem_singleton.mp hmem] at h
    exact absurd h (by decide)
  case isFalse =>
    split
    case isTrue h =>
      intro hmem
      rw [← List.mem_singleton.mp hmem] at h
      exact absurd h (by decide)
    case isFalse =>
      split
      case h_1 letter hletter =>
        exact hback fun hmem => (shortEscape?_named hletter).2.2 (List.mem_singleton.mp hmem).symm
      case h_2 =>
        have hcode (letter : Char) (hne : letter ≠ '\n') (width : Nat) :
            '\n' ∉ '\\' :: letter :: hex width c.toNat :=
          hback fun hmem => (List.mem_cons.mp hmem).elim (fun h => hne h.symm) (hex_lineFeed _ _)
        dsimp only
        split
        case isTrue => exact hcode 'x' (by decide) 2
        case isFalse =>
          split
          case isTrue => exact hcode 'u' (by decide) 4
          case isFalse => exact hcode 'U' (by decide) 8

/-- A quoted text stands on one line. -/
theorem encode_lineFeed (s : String) : '\n' ∉ (encode s).toList := by
  have hbody : '\n' ∉ s.toList.flatMap escape := by
    intro h
    obtain ⟨c, -, hc⟩ := List.mem_flatMap.mp h
    exact escape_lineFeed c hc
  rw [toList_encode]
  simpa using hbody

end LoxLang.Quoted
