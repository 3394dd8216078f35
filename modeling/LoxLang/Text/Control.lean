import LoxLang.Text.Ranges

set_option autoImplicit false

/-! # Control characters

The characters of the Unicode categories Cc, Cf, Cs and Co, as of version 15.0 of the standard:
controls, format characters, surrogates and private use. A prompt may hold none of them. -/

namespace LoxLang

/-- Controls, format characters, surrogates and private use. -/
def controlRanges : List (Nat × Nat) :=
  [ (0x0, 0x1F), (0x7F, 0x9F), (0xAD, 0xAD), (0x600, 0x605), (0x61C, 0x61C), (0x6DD, 0x6DD),
    (0x70F, 0x70F), (0x890, 0x891), (0x8E2, 0x8E2), (0x180E, 0x180E), (0x200B, 0x200F),
    (0x202A, 0x202E), (0x2060, 0x2064), (0x2066, 0x206F), (0xD800, 0xF8FF), (0xFEFF, 0xFEFF),
    (0xFFF9, 0xFFFB), (0x110BD, 0x110BD), (0x110CD, 0x110CD), (0x13430, 0x1343F),
    (0x1BCA0, 0x1BCA3), (0x1D173, 0x1D17A), (0xE0001, 0xE0001), (0xE0020, 0xE007F),
    (0xF0000, 0xFFFFD), (0x100000, 0x10FFFD)]

/-- Whether a character has no visible form of its own: a control, a format character or one of
private use. -/
def isControl (c : Char) : Bool :=
  inRanges controlRanges c.toNat

end LoxLang
