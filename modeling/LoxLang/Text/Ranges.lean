set_option autoImplicit false

/-! # Sets of code points written as ranges

A character class of the Unicode standard is a table of closed ranges in increasing order.
`inRanges` decides membership; the classes themselves are tables in the modules beside this one. -/

namespace LoxLang

/-- Whether the code point `n` lies in one of the closed ranges of a table. -/
def inRanges (table : List (Nat × Nat)) (n : Nat) : Bool :=
  table.any fun range => decide (range.1 ≤ n) && decide (n ≤ range.2)

end LoxLang
