import LoxLang.Proofs.Command.Interpret
import LoxLang.Proofs.Session.InOrder
import LoxLang.Proofs.Token.Joined
import LoxLang.Proofs.Token.Numbers

set_option autoImplicit false

/-! # Numbers printed and read again

The text that a program prints for a finite number is an expression, and its value is the number
again, bit for bit: digits alone for a number without a sign, and for the others a minus sign, which
is an operator and turns the sign around. So a statement that prints it prints the same text
(`Command.number_reprinted`). -/

namespace LoxLang

/-! ## The sign of a double -/

section
open Float.Model (Format)
open Float.Model.UnpackedFloat

variable {b b' : BitVec Format.binary64.numBits}

theorem unpackSign_toNat : (unpackSign b).toNat = b.toNat / 2 ^ 63 % 2 := by
  simp [unpackSign, Nat.shiftRight_eq_div_pow]

/-- Bits with a sign and the same bits without it are each other's negation. -/
theorem neg_unpack (h : b'.toNat = b.toNat + 2 ^ 63) :
    (unpack Format.binary64 b).neg = unpack Format.binary64 b' := by
  have hsize : b'.toNat < 2 ^ 64 := b'.isLt
  have hexponent : unpackExponent b = unpackExponent b' := by
    apply BitVec.eq_of_toNat_eq
    rw [unpackExponent_toNat, unpackExponent_toNat]
    omega
  have hmantissa : unpackMantissa b = unpackMantissa b' := by
    apply BitVec.eq_of_toNat_eq
    rw [unpackMantissa_toNat, unpackMantissa_toNat]
    omega
  have hpositive : unpackSign b = 0#1 := by
    apply BitVec.eq_of_toNat_eq
    rw [unpackSign_toNat]
    show _ = 0
    omega
  have hnegative : unpackSign b' = 1#1 := by
    apply BitVec.eq_of_toNat_eq
    rw [unpackSign_toNat]
    show _ = 1
    omega
  -- The exponent and the mantissa tell the sort of number, so both sides are of the same sort.
  unfold unpack
  simp only [hexponent, hmantissa, hpositive, hnegative]
  split
  case isTrue => split <;> rfl
  case isFalse =>
    split
    case isTrue => split <;> rfl
    case isFalse => rfl

theorem neg_of_toBits {x v : Float} (h : v.toBits.toNat = x.toBits.toNat + 2 ^ 63) : -x = v := by
  have hneg : (unpack Format.binary64 x.toBits.toBitVec).neg
      = unpack Format.binary64 v.toBits.toBitVec := neg_unpack h
  -- Negation works on the parts of a double, which are put together again behind it.
  rw [← Float.toBits_inj, ← UInt64.toBitVec_inj]
  show pack Format.binary64 (unpack Format.binary64 x.toBits.toBitVec).neg = _
  rw [hneg]
  exact pack_unpack_of_valid v.toModel.valid

end

/-- A number with a sign is the negation of its magnitude. -/
theorem neg_ofBits {v : Float} (hsign : Binary64.isNegative v = true)
    (hsize : Binary64.magnitude v ≤ Binary64.infinityBits) :
    -Float.ofBits (Binary64.magnitude v).toUInt64 = v := by
  apply neg_of_toBits
  have hlarge : 2 ^ 63 ≤ v.toBits.toNat := of_decide_eq_true hsign
  have hword : v.toBits.toNat < 2 ^ 64 := v.toBits.toNat_lt
  rw [toBits_ofBits hsize, Binary64.magnitude, Nat.pow_eq]
  omega

/-! ## The tokens of a printed number -/

theorem pieces_lexeme {kind : Kind} {c d : Char} {tail behind : List Char}
    (h : Lexeme kind (c :: tail)) (hkind : kind ≠ .slash) (hd : isPlain d = false) :
    pieces (c :: tail ++ d :: behind) = ⟨.token kind, c, tail⟩ :: pieces (d :: behind) := by
  have hlongest : Longest (c :: tail) (d :: behind) := by
    apply longest_of_notPlain h
    rintro e ⟨⟩
    exact hd
  rw [List.cons_append, pieces_cons,
    Piece.eq_first_of_longest h hlongest fun hslash => absurd hslash hkind, List.drop_left]

theorem pieces_symbol {c : Char} {kind : Kind} (h : (c, kind) ∈ symbols) (hne : c ≠ '/')
    (rest : List Char) : pieces (c :: rest) = Piece.single kind c :: pieces rest := by
  rw [pieces_cons, Piece.first_symbol h hne]
  rfl

/-- What stands behind `print ` is cut on its own. -/
theorem pieces_print (rest : List Char) : pieces ("print ".toList ++ rest) =
    ⟨.token .kwPrint, 'p', ['r', 'i', 'n', 't']⟩ :: Piece.gap :: pieces rest := by
  have hword : Lexeme .kwPrint ['p', 'r', 'i', 'n', 't'] := .keyword (by decide)
  have hblank : pieces (' ' :: rest) = Piece.gap :: pieces rest := by
    rw [pieces_cons, Piece.first_blank (by decide)]
    rfl
  rw [← hblank]
  exact pieces_lexeme hword (by decide) (by decide)

/-- A number in front of a semicolon. -/
theorem pieces_numeral {c : Char} {tail : List Char} (h : Lexeme .number (c :: tail)) :
    pieces (c :: tail ++ [';']) = [⟨.token .number, c, tail⟩, Piece.single .semicolon ';'] := by
  have hsemicolon : (';', Kind.semicolon) ∈ symbols := by decide
  rw [pieces_lexeme h (by decide) (by decide), pieces_symbol hsemicolon (by decide), pieces]

/-- A decimal is written as a number token. -/
theorem positional_lexeme (d : Decimal) :
    ∃ c tail, d.positional = c :: tail ∧ Lexeme .number (c :: tail) := by
  obtain ⟨whole, fraction, hdigits⟩ := d.positional_digits
  have hspells : Numeral.Spells isDigit d.positional whole fraction := by
    refine ⟨hdigits.text, hdigits.whole_ne, List.forall_mem_append.mpr ⟨?_, ?_⟩⟩
    · exact fun c hc => isDigit_of_isAsciiDigit (hdigits.whole_digits c hc)
    · exact fun c hc => isDigit_of_isAsciiDigit (hdigits.fraction_digits c hc)
  obtain ⟨c, tail, htext, -⟩ := hspells.first
  rw [htext] at hspells
  exact ⟨c, tail, htext, Numeral.spells_iff_lexeme.mp ⟨whole, fraction, hspells⟩⟩

/-! ## Reading -/

namespace Grammar

/-- A number token is an expression. -/
theorem Phrase.number {t : Token} (h : t.kind = .number) :
    Phrase .unary [t] (.literal t.literal) :=
  .operand (.operand (.constant (Or.inl h)))

theorem Phrase.ofUnary {ts : List Token} {e : Expr} (h : Phrase .unary ts e) : Phrase .assign ts e :=
  .operand (.operand (.operand (.operand (.operand (.operand (.operand h))))))

theorem Program.print {word semicolon : Token} {ts : List Token} {e : Expr}
    (hword : word.kind = .kwPrint) (h : Phrase .assign ts e)
    (hsemicolon : semicolon.kind = .semicolon) :
    Program .nearest (word :: ts ++ [semicolon]) [.print e] := by
  have hprogram : Program .nearest (word :: (ts ++ [semicolon]) ++ []) [.print e] :=
    .more (.statement (.print hword h hsemicolon)) .empty
  rwa [List.append_nil] at hprogram

end Grammar

open Grammar

section
variable {c : Char} {tail : List Char} (h : Lexeme .number (c :: tail))

include h

theorem Reading.ofSource_numeral :
    ofSource ("print ".toList ++ (c :: tail ++ [';'])) =
      ⟨[.print (.literal (.number (Numeral.value (c :: tail))))], []⟩ := by
  obtain ⟨word, number, semicolon, eof, hscan, hword, hnumber, hliteral, hsemicolon, heof⟩ :
      ∃ word number semicolon eof : Token, scan ("print ".toList ++ (c :: tail ++ [';'])) =
          ⟨[word, number, semicolon] ++ [eof], []⟩ ∧ word.kind = .kwPrint ∧ number.kind = .number ∧
        number.literal = .number (Numeral.value (c :: tail)) ∧ semicolon.kind = .semicolon ∧
        eof.kind = .endOfInput := by
    rw [scan, pieces_print, pieces_numeral h]
    exact ⟨_, _, _, _, rfl, rfl, rfl, rfl, rfl, rfl⟩
  rw [← hliteral]
  exact ofSource_of_program hscan heof (.print hword (Phrase.number hnumber).ofUnary hsemicolon)

theorem Reading.ofSource_minusNumeral :
    ∃ op, op.kind = .minus ∧ ofSource ("print ".toList ++ ('-' :: (c :: tail ++ [';']))) =
      ⟨[.print (.unary op (.literal (.number (Numeral.value (c :: tail)))))], []⟩ := by
  obtain ⟨word, op, number, semicolon, eof, hscan, hword, hop, hnumber, hliteral, hsemicolon, heof⟩ :
      ∃ word op number semicolon eof : Token,
        scan ("print ".toList ++ ('-' :: (c :: tail ++ [';']))) =
          ⟨[word, op, number, semicolon] ++ [eof], []⟩ ∧ word.kind = .kwPrint ∧ op.kind = .minus ∧
        number.kind = .number ∧ number.literal = .number (Numeral.value (c :: tail)) ∧
        semicolon.kind = .semicolon ∧ eof.kind = .endOfInput := by
    have hminus : ('-', Kind.minus) ∈ symbols := by decide
    rw [scan, pieces_print, pieces_symbol hminus (by decide), pieces_numeral h]
    exact ⟨_, _, _, _, _, rfl, rfl, rfl, rfl, rfl, rfl, rfl⟩
  rw [← hliteral]
  have hphrase : Phrase .unary [op, number] (.unary op (.literal number.literal)) :=
    .unary (Or.inr hop) (Phrase.number hnumber)
  exact ⟨op, hop, ofSource_of_program hscan heof (.print hword hphrase.ofUnary hsemicolon)⟩

end

/-! ## Evaluation -/

/-- An expression that has a value everywhere and leaves no trace. -/
def Expr.Always (e : Expr) (v : Value) : Prop :=
  ∀ setting bound scope state, Eval.eval setting bound scope e state = .ok v state

theorem Expr.always_literal (value : Literal) : (Expr.literal value).Always value.toValue :=
  fun _ _ _ _ => rfl

theorem Expr.Always.minus {e : Expr} {x : Float} (h : e.Always (.number x)) {op : Token}
    (hop : op.kind = .minus) : (Expr.unary op e).Always (.number (-x)) := by
  intro setting bound scope state
  show (Eval.eval setting bound scope e >>= Eval.applyUnary op) state = _
  rw [Eval.bind_run, h]
  dsimp only
  rw [Eval.applyUnary, hop]
  rfl

namespace Session

theorem run_print {e : Expr} {v : Value} (h : e.Always v) (session : Session) (bound scope : Nat) :
    session.run bound scope [.print e] = (.finished none,
      { session with state.output := session.state.output.push ⟨v.text, false⟩ }) := by
  have hexec : Eval.exec session.setting bound scope (.print e) session.state =
      .ok .normal { session.state with output := session.state.output.push ⟨v.text, false⟩ } := by
    show (Eval.eval session.setting bound scope e >>= fun v => do
      Eval.write v.text false
      return Flow.normal) session.state = _
    rw [Eval.bind_run, h]
    rfl
  rw [run, Eval.execAll_cons_ok hexec]
  rfl

end Session

/-- The text of a finite number: a minus sign if it has one, and the digits of its magnitude. -/
theorem Number.printed_finite {v : Float} (h : Binary64.IsFinite v) :
    let digits := (Decimal.ofBits (Binary64.magnitude v)).positional
    (printed v).toList = if Binary64.isNegative v then '-' :: digits else digits := by
  have hsize : Binary64.magnitude v < Binary64.infinityBits := h
  rw [printed, write, if_neg (by omega), if_neg (by omega), String.toList_ofList]

/-- What is printed for a finite number reads as an expression for it. -/
theorem Reading.ofSource_printed {v : Float} (h : Binary64.IsFinite v) :
    ∃ e : Expr, ofSource ("print " ++ Number.printed v ++ ";").toList = ⟨[.print e], []⟩ ∧
      e.Always (.number v) := by
  obtain ⟨c, tail, hdigits, hlexeme⟩ :=
    positional_lexeme (Decimal.ofBits (Binary64.magnitude v))
  have hvalue := value_positional_ofBits h
  have hprinted := Number.printed_finite h
  dsimp only at hprinted
  rw [hdigits] at hvalue hprinted
  have hsource : ("print " ++ Number.printed v ++ ";").toList
      = "print ".toList ++ ((Number.printed v).toList ++ [';']) := by
    rw [String.toList_append, String.toList_append, List.append_assoc]
    rfl
  rw [hsource, hprinted]
  cases hsign : Binary64.isNegative v with
  | false =>
      have hv : Float.ofBits (Binary64.magnitude v).toUInt64 = v :=
        Number.IsMagnitude.ofBits_eq ⟨hsign, le_of_lt h⟩
      rw [hv] at hvalue
      refine ⟨_, Reading.ofSource_numeral hlexeme, ?_⟩
      rw [hvalue]
      exact Expr.always_literal _
  | true =>
      -- The sign is no part of the token: the operator puts it back.
      obtain ⟨op, hop, hreading⟩ := Reading.ofSource_minusNumeral hlexeme
      refine ⟨_, hreading, ?_⟩
      have hminus := (Expr.always_literal (.number (Numeral.value (c :: tail)))).minus hop
      rw [hvalue, neg_ofBits hsign (le_of_lt h)] at hminus
      rw [hvalue]
      exact hminus

namespace Command

/-- A statement that prints a value everywhere, and nothing else, behind what is still to be written. -/
theorem interpret_print {source : List Char} {e : Expr} {v : Value} (hv : e.Always v)
    (hsource : Reading.ofSource source = ⟨[.print e], []⟩) (bound : Nat) {session : Session}
    (hsession : session.status.hadError = false) :
    interpret bound session source =
      some (⟨renderLines session.state.output.toList ++ (v.text ++ "\n"),
          Diagnostic.render session.reports⟩,
        { session with state.output := #[], reports := [] }) := by
  have hlines : renderLines (session.state.output.push ⟨v.text, false⟩).toList
      = renderLines session.state.output.toList ++ (v.text ++ "\n") := by
    simp [renderLines, String.join]
  unfold interpret
  rw [hsource]
  dsimp only
  rw [session.report_nil, hsession, if_neg (by decide), Session.run_print hv]
  dsimp only [flush, Session.takeOutput, Session.takeReports]
  rw [hlines]

/-- The text that is printed for a finite number is an expression for this number, and printing it
prints the same text, with nothing reported that was not reported before. -/
theorem number_reprinted {v : Float} (hv : Binary64.IsFinite v) :
    let text := (Value.number v).text
    let source := ("print " ++ text ++ ";").toList
    ∃ e : Expr, Reading.ofSource source = ⟨[.print e], []⟩ ∧
      (∀ setting bound scope state,
        Eval.eval setting bound scope e state = .ok (.number v) state) ∧
      ∀ bound session, session.status.hadError = false →
        interpret bound session source =
          some (⟨renderLines session.state.output.toList ++ (text ++ "\n"),
              Diagnostic.render session.reports⟩,
            { session with state.output := #[], reports := [] }) := by
  obtain ⟨e, hreading, hvalue⟩ := Reading.ofSource_printed hv
  exact ⟨e, hreading, hvalue, fun bound session hsession =>
    interpret_print hvalue hreading bound hsession⟩

/-- Zero with a sign. -/
def negativeZero : Float := Float.ofBits 0x8000000000000000

/-- Zero keeps its sign. -/
theorem number_reprinted_negativeZero :
    Binary64.IsFinite negativeZero ∧
    ∃ e : Expr, Reading.ofSource "print -0;".toList = ⟨[.print e], []⟩ ∧
      (∀ setting bound scope state,
        Eval.eval setting bound scope e state = .ok (.number negativeZero) state) ∧
      ∀ bound, interpret bound (Session.start 0 false (fun _ => some 0)) "print -0;".toList =
        some (⟨"-0\n", ""⟩, Session.start 0 false (fun _ => some 0)) := by
  have hfinite : Binary64.IsFinite negativeZero := by
    show Binary64.magnitude negativeZero < Binary64.infinityBits
    decide +kernel
  have htext : (Value.number negativeZero).text = "-0" := by decide +kernel
  obtain ⟨e, hreading, hvalue, hprints⟩ := number_reprinted hfinite
  rw [htext] at hreading hprints
  exact ⟨hfinite, e, hreading, hvalue,
    fun bound => hprints bound (Session.start 0 false (fun _ => some 0)) rfl⟩

end Command

end LoxLang
