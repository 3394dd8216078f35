set_option autoImplicit false

/-! # Text from code points and from bytes

Source text is a list of characters. Two things that are no characters can still be handed in: a
number that is no Unicode scalar value, and a byte that belongs to no UTF-8 sequence. Each becomes
one replacement character, so text is always a list of characters and no input is refused. -/

namespace LoxLang

/-- Stands for a number or a byte that is no character. -/
def replacement : Char := '\uFFFD'

/-- The character of a code point. Surrogates, negative numbers and numbers beyond U+10FFFF have
none of their own. -/
def charOfCodePoint : Int → Char
  | .ofNat n => if n.isValidChar then Char.ofNat n else replacement
  | .negSucc _ => replacement

namespace Utf8

/-- Appends the six payload bits of a continuation byte; `none` if the byte is not one. -/
def continue? (high : Nat) (byte : UInt8) : Option Nat :=
  if 0x80 ≤ byte && byte ≤ 0xBF then some (high * 64 + (byte.toNat - 0x80)) else none

/-- The code point `n` as a character, provided that it needs the number of bytes it was written
with: the least code point of that length is `least`. -/
def scalar? (least n : Nat) : Option Char :=
  if least ≤ n ∧ n.isValidChar then some (Char.ofNat n) else none

/-- The character that the bytes start with and how many bytes it takes; `none` if they start with
no complete and shortest UTF-8 sequence. -/
def first? : List UInt8 → Option (Char × Nat)
  | [] => none
  | lead :: rest =>
    let n := lead.toNat
    if n < 0x80 then some (Char.ofNat n, 1)
    else if n < 0xC0 then none
    else match rest with
      | [] => none
      | a :: rest =>
        if n < 0xE0 then do
          let two ← continue? (n - 0xC0) a
          return (← scalar? 0x80 two, 2)
        else match rest with
          | [] => none
          | b :: rest =>
            if n < 0xF0 then do
              let three ← continue? (← continue? (n - 0xE0) a) b
              return (← scalar? 0x800 three, 3)
            else match rest with
              | [] => none
              | c :: _ =>
                if n < 0xF8 then do
                  let four ← continue? (← continue? (← continue? (n - 0xF0) a) b) c
                  return (← scalar? 0x10000 four, 4)
                else none

/-- Decodes after passing over the next `skip` bytes, which belong to a character already read. -/
def decodeFrom (skip : Nat) : List UInt8 → List Char
  | [] => []
  | byte :: rest =>
    match skip with
    | k + 1 => decodeFrom k rest
    | 0 =>
      match first? (byte :: rest) with
      | some (c, width) => c :: decodeFrom (width - 1) rest
      | none => replacement :: decodeFrom 0 rest

/-- The characters of a byte sequence; a byte that starts no valid sequence counts as one
replacement character. -/
def decode (bytes : List UInt8) : List Char :=
  decodeFrom 0 bytes

/-- Whether the bytes that `skip` leaves consist of valid sequences only. -/
def isValidFrom (skip : Nat) : List UInt8 → Bool
  | [] => skip == 0
  | byte :: rest =>
    match skip with
    | k + 1 => isValidFrom k rest
    | 0 =>
      match first? (byte :: rest) with
      | some (_, width) => isValidFrom (width - 1) rest
      | none => false

/-- Whether a byte sequence consists of valid UTF-8 sequences only. -/
def isValid (bytes : List UInt8) : Bool :=
  isValidFrom 0 bytes

/-- The UTF-8 bytes of a text. -/
def encode (text : String) : List UInt8 :=
  text.toUTF8.toList

end Utf8

end LoxLang
