import LoxLang.Proofs.Token.Lexemes
import LoxLang.Proofs.Token.Scan

set_option autoImplicit false

/-! # Scanning by position

The cut of a text takes one piece after the other from what is still ahead. Here the tokens are read
from the whole text with an index instead: the next character is the one at a position, a lexeme is the
text between two positions, and loops go on from one position to the next. Asking for a character or a
stretch that the text does not have stops the sweep, and so does a loop that goes on for too long.

Neither ever happens, whatever the text is, and what the sweep collects is the scan (`sweep_eq`). -/

namespace LoxLang

/-- How far a sweep has got. -/
structure Mark where
  line : Nat
  /-- Where the current lexeme starts. -/
  start : Nat
  /-- The position of the next character. -/
  current : Nat
  tokens : List Token
  reported : List Diagnostic

/-- Why a sweep stops. -/
inductive Overrun where
  /-- Some text was asked for that is not there. -/
  | outOfRange
  | overBudget

/-- A sweep over a text. -/
abbrev Sweep := EStateM Overrun Mark

namespace Sweep

/-! ## The sweep -/

section
variable (source : List Char)

/-- The character at a position. -/
def charAt (position : Nat) : Sweep Char := fun mark =>
  match source[position]? with
  | some c => .ok c mark
  | none => .error .outOfRange mark

/-- The text from one position up to another. -/
def slice (first last : Nat) : Sweep (List Char) := fun mark =>
  if first ≤ last ∧ last ≤ source.length then .ok ((source.drop first).take (last - first)) mark
  else .error .outOfRange mark

/-- Whether there is a next character. -/
def hasNext : Sweep Bool := fun mark => .ok (decide (mark.current < source.length)) mark

/-- Takes the next character. -/
def advance : Sweep Char := do
  let c ← charAt source (← get).current
  modify fun mark => { mark with current := mark.current + 1 }
  return c

/-- Takes the next character if it is the one that is expected. -/
def takes (expected : Char) : Sweep Bool := do
  if ← hasNext source then
    if (← charAt source (← get).current) == expected then do
      modify fun mark => { mark with current := mark.current + 1 }
      return true
    else return false
  else return false

/-- The next character, or a null character if there is none. -/
def peek : Sweep Char := do
  if ← hasNext source then charAt source (← get).current else return '\x00'

/-- The character behind the next one, or a null character if there is none. -/
def peekNext : Sweep Char := do
  let position := (← get).current + 1
  if source.length ≤ position then return '\x00' else charAt source position

/-- Goes on to the next line if the character ends this one. -/
def countLine (c : Char) : Sweep Unit :=
  if c == '\n' then modify fun mark => { mark with line := mark.line + 1 } else return ()

/-- Reports a fault on the current line. -/
def report (fault : LexicalFault) : Sweep Unit :=
  modify fun mark => { mark with reported := mark.reported ++ [.lexical mark.line fault.message] }

/-- Adds a token with the current lexeme. -/
def addToken (kind : Kind) (literal : Literal) : Sweep Unit := do
  let mark ← get
  let lexeme ← slice source mark.start mark.current
  let token : Token := ⟨kind, String.ofList lexeme, literal, mark.line⟩
  set { mark with tokens := mark.tokens ++ [token] }

/-- Adds one token if an equals sign follows, another if not. -/
def addEither (long short : Kind) : Sweep Unit := do
  if ← takes source '=' then addToken source long .nil else addToken source short .nil

/-- Takes characters as long as they have a property, `n` turns at most. -/
def advanceWhile (p : Char → Bool) : Nat → Sweep Unit
  | 0 => throw .overBudget
  | n + 1 => do
    if p (← peek source) then do
      let _ ← advance source
      advanceWhile p n
    else return ()

/-- Takes characters up to the next one of a sort and counts the lines they end, `n` turns at most. -/
def skipTo (stop : Char) : Nat → Sweep Unit
  | 0 => throw .overBudget
  | n + 1 => do
    let c ← peek source
    let more ← hasNext source
    if c != stop && more then do
      countLine c
      let _ ← advance source
      skipTo stop n
    else return ()

/-- A string behind its opening quote. -/
def string : Sweep Unit := do
  skipTo source '"' (source.length + 1)
  if ← hasNext source then do
    let _ ← advance source
    let mark ← get
    let literal ← slice source (mark.start + 1) (mark.current - 1)
    addToken source .string (.string (String.ofList literal))
  else report .unterminatedString

/-- The digits behind a point, if that is what comes next. -/
def fraction : Sweep Unit := do
  let c ← peek source
  let d ← peekNext source
  if c == '.' && isDigit d then do
    let _ ← advance source
    advanceWhile source isDigit (source.length + 1)
  else return ()

/-- The digits behind the first one, with those of a fraction. -/
def digits : Sweep Unit := do
  advanceWhile source isDigit (source.length + 1)
  fraction source

/-- A number behind its first digit. -/
def number : Sweep Unit := do
  digits source
  let mark ← get
  let lexeme ← slice source mark.start mark.current
  addToken source .number (.number (Numeral.value lexeme))

/-- A word behind its first character. -/
def word : Sweep Unit := do
  advanceWhile source continuesName (source.length + 1)
  let mark ← get
  let lexeme ← slice source mark.start mark.current
  addToken source (Kind.ofWord (String.ofList lexeme)) .nil

/-- A block comment behind its opening, with `n` stars at most. -/
def blockComment : Nat → Sweep Unit
  | 0 => throw .overBudget
  | n + 1 => do
    skipTo source '*' (source.length + 1)
    if ← hasNext source then do
      let _ ← advance source
      if ← takes source '/' then return () else blockComment n
    else report .unterminatedComment

/-- A comment or a slash. -/
def slash : Sweep Unit := do
  if ← takes source '/' then skipTo source '\n' (source.length + 1)
  else
    if ← takes source '*' then blockComment source (source.length + 1)
    else addToken source .slash .nil

/-- What starts with a character that has been taken. -/
def lexeme (c : Char) : Sweep Unit :=
  match c with
  | ' ' | '\r' | '\t' => return ()
  | '\n' => countLine '\n'
  | '(' => addToken source .leftParen .nil
  | ')' => addToken source .rightParen .nil
  | '{' => addToken source .leftBrace .nil
  | '}' => addToken source .rightBrace .nil
  | ',' => addToken source .comma .nil
  | '.' => addToken source .dot .nil
  | '-' => addToken source .minus .nil
  | '+' => addToken source .plus .nil
  | ';' => addToken source .semicolon .nil
  | '*' => addToken source .star .nil
  | '!' => addEither source .bangEqual .bang
  | '=' => addEither source .equalEqual .equal
  | '<' => addEither source .lessEqual .less
  | '>' => addEither source .greaterEqual .greater
  | '/' => slash source
  | '"' => string source
  | _ =>
    if isDigit c then number source
    else if startsName c then word source
    else report .unexpectedCharacter

/-- One lexeme after the other, `n` at most. -/
def lexemes : Nat → Sweep Unit
  | 0 => throw .overBudget
  | n + 1 => do
    if ← hasNext source then do
      modify fun mark => { mark with start := mark.current }
      let c ← advance source
      lexeme source c
      lexemes n
    else return ()

end

end Sweep

/-- Reads a source text by position. -/
def sweep (source : List Char) : Except Overrun Scan :=
  match Sweep.lexemes source (source.length + 1) ⟨1, 0, 0, [], []⟩ with
  | .ok _ mark => .ok ⟨mark.tokens ++ [Scan.endToken mark.line], mark.reported⟩
  | .error overrun _ => .error overrun

/-! ## What is ahead -/

namespace Mark

/-- The text from the next character on. -/
def ahead (source : List Char) (mark : Mark) : List Char :=
  source.drop mark.current

/-- The mark behind a text. -/
def past (mark : Mark) (text : List Char) : Mark :=
  { mark with line := mark.line + lineFeeds text, current := mark.current + text.length }

/-- The mark with what a piece contributes on the current line. -/
def noting (mark : Mark) (piece : Piece) : Mark :=
  match piece.shape with
  | .token kind =>
    { mark with tokens := mark.tokens ++
        [⟨kind, String.ofList piece.text, literalOf kind piece.text, mark.line⟩] }
  | .fault fault =>
    { mark with reported := mark.reported ++ [.lexical mark.line fault.message] }
  | .blank | .comment => mark

/-- The mark behind a piece. -/
def behind (mark : Mark) (piece : Piece) : Mark :=
  (({ mark with start := mark.current } : Mark).past piece.text).noting piece

theorem past_past (mark : Mark) (a b : List Char) : (mark.past a).past b = mark.past (a ++ b) := by
  simp [past, Scan.lineFeeds_append, Nat.add_assoc]

section
variable {source more text : List Char} {mark : Mark} {c : Char}

theorem ahead_past (h : mark.ahead source = text ++ more) : (mark.past text).ahead source = more := by
  have hdrop : (source.drop mark.current).drop text.length = more := by
    rw [show source.drop mark.current = text ++ more from h, List.drop_left]
  rw [List.drop_drop] at hdrop
  exact hdrop

theorem getElem?_ahead (source : List Char) (mark : Mark) (i : Nat) :
    source[mark.current + i]? = (mark.ahead source)[i]? :=
  List.getElem?_drop.symm

theorem current_lt (h : mark.ahead source = c :: more) : mark.current < source.length := by
  have hne : source.drop mark.current ≠ [] := by
    rw [show source.drop mark.current = c :: more from h]
    exact List.cons_ne_nil c more
  exact Nat.lt_of_not_le fun hle => hne (List.drop_eq_nil_iff.mpr hle)

theorem le_current (h : mark.ahead source = []) : source.length ≤ mark.current :=
  List.drop_eq_nil_iff.mp h

end

end Mark

namespace Sweep

/-! ## Single steps -/

section
variable {α β : Type} {source rest more text : List Char} {mark : Mark} {c : Char}

theorem bind_ok {w : Sweep α} {f : α → Sweep β} {a : α} {after : Mark} (h : w mark = .ok a after) :
    (w >>= f) mark = f a after := by
  show EStateM.bind w f mark = _
  unfold EStateM.bind
  rw [h]

theorem get_bind (f : Mark → Sweep β) (mark : Mark) : (get >>= f) mark = f mark mark := rfl

theorem hasNext_nil (h : mark.ahead source = []) : hasNext source mark = .ok false mark := by
  have hle := mark.le_current h
  rw [hasNext, decide_eq_false (by omega)]

theorem hasNext_cons (h : mark.ahead source = c :: rest) :
    hasNext source mark = .ok true mark := by
  rw [hasNext, decide_eq_true (mark.current_lt h)]

theorem charAt_cons (h : mark.ahead source = c :: rest) :
    charAt source mark.current mark = .ok c mark := by
  have hc : source[mark.current]? = some c := by
    rw [show mark.current = mark.current + 0 from rfl, mark.getElem?_ahead, h]
    rfl
  simp only [charAt, hc]

theorem peek_nil (h : mark.ahead source = []) : peek source mark = .ok '\x00' mark := by
  rw [peek, bind_ok (hasNext_nil h)]
  rfl

theorem peek_cons (h : mark.ahead source = c :: rest) : peek source mark = .ok c mark := by
  rw [peek, bind_ok (hasNext_cons h), if_pos rfl, get_bind]
  exact charAt_cons h

theorem peekNext_nil (h : (mark.ahead source).length ≤ 1) :
    peekNext source mark = .ok '\x00' mark := by
  rw [Mark.ahead, List.length_drop] at h
  rw [peekNext, get_bind, if_pos (by omega)]
  rfl

theorem peekNext_cons {d : Char} (h : mark.ahead source = c :: d :: rest) :
    peekNext source mark = .ok d mark := by
  have hlength := congrArg List.length h
  rw [Mark.ahead, List.length_drop, List.length_cons, List.length_cons] at hlength
  have hd : source[mark.current + 1]? = some d := by
    rw [mark.getElem?_ahead, h]
    rfl
  rw [peekNext, get_bind, if_neg (by omega)]
  simp only [charAt, hd]

theorem advance_cons (h : mark.ahead source = c :: rest) :
    advance source mark = .ok c { mark with current := mark.current + 1 } := by
  rw [advance, get_bind, bind_ok (charAt_cons h)]
  rfl

theorem countLine_eq (c : Char) (mark : Mark) :
    countLine c mark = .ok () { mark with line := mark.line + lineFeeds [c] } := by
  unfold countLine
  by_cases hc : c = '\n'
  · subst hc
    rfl
  · have hnone : lineFeeds [c] = 0 := List.count_singleton.trans (if_neg (by simpa using hc))
    rw [if_neg (by simpa using hc), hnone]
    rfl

/-- A character that ends no line leaves the line as it is. -/
theorem moved_eq_past (hc : c ≠ '\n') (mark : Mark) :
    ({ mark with current := mark.current + 1 } : Mark) = mark.past [c] := by
  have hnone : lineFeeds [c] = 0 := List.count_singleton.trans (if_neg (by simpa using hc))
  rw [Mark.past, hnone]
  rfl

theorem advance_past (h : mark.ahead source = c :: rest) (hc : c ≠ '\n') :
    advance source mark = .ok c (mark.past [c]) := by
  rw [advance_cons h, moved_eq_past hc]

theorem takes_past (h : mark.ahead source = c :: rest) (hc : c ≠ '\n') :
    takes source c mark = .ok true (mark.past [c]) := by
  rw [takes, bind_ok (hasNext_cons h), if_pos rfl, get_bind, bind_ok (charAt_cons h),
    if_pos (beq_self_eq_true c), ← moved_eq_past hc]
  rfl

theorem takes_other (h : (mark.ahead source).head? ≠ some c) :
    takes source c mark = .ok false mark := by
  cases hahead : mark.ahead source with
  | nil =>
      rw [takes, bind_ok (hasNext_nil hahead)]
      rfl
  | cons d rest =>
      have hd : (d == c) = false := by
        rw [hahead] at h
        simpa using h
      rw [takes, bind_ok (hasNext_cons hahead), if_pos rfl, get_bind, bind_ok (charAt_cons hahead),
        if_neg (by simp [hd])]
      rfl

theorem slice_eq {first : Nat} (hfirst : first ≤ source.length) (h : source.drop first = text ++ more)
    (mark : Mark) : slice source first (first + text.length) mark = .ok text mark := by
  have hlength := congrArg List.length h
  rw [List.length_drop, List.length_append] at hlength
  rw [slice, if_pos (by omega), h, Nat.add_sub_cancel_left, List.take_left]

end

/-! ## Loops -/

section
variable {source rest more : List Char} {mark : Mark} {c : Char} {n : Nat}

/-- Behind the next character there is less ahead, so one turn less will do. -/
theorem length_past (h : mark.ahead source = c :: rest) (hn : (mark.ahead source).length < n + 1) :
    ((mark.past [c]).ahead source).length < n := by
  have hrest : (mark.past [c]).ahead source = rest := Mark.ahead_past h
  rw [h, List.length_cons] at hn
  rw [hrest]
  omega

theorem advanceWhile_eq {p : Char → Bool} (hnull : p '\x00' = false) (hfeed : p '\n' = false)
    (hn : (mark.ahead source).length < n) :
    advanceWhile source p n mark = .ok () (mark.past ((mark.ahead source).takeWhile p)) := by
  -- The null character that is seen at the end does not have the property, so the loop stops there.
  induction n generalizing mark with
  | zero => cases hn
  | succ n ih =>
      cases hahead : mark.ahead source with
      | nil =>
          rw [advanceWhile, bind_ok (peek_nil hahead), if_neg (by simp [hnull])]
          rfl
      | cons c rest =>
          rw [advanceWhile, bind_ok (peek_cons hahead)]
          by_cases hc : p c = true
          · have hline : c ≠ '\n' := by
              rintro rfl
              rw [hfeed] at hc
              cases hc
            have hrest : (mark.past [c]).ahead source = rest := Mark.ahead_past hahead
            rw [if_pos hc, bind_ok (advance_past hahead hline), ih (length_past hahead hn), hrest,
              Mark.past_past, List.takeWhile_cons_of_pos hc]
            rfl
          · rw [if_neg hc, List.takeWhile_cons_of_neg hc]
            rfl

theorem skipTo_eq (stop : Char) (hn : (mark.ahead source).length < n) :
    skipTo source stop n mark
      = .ok () (mark.past ((mark.ahead source).takeWhile (· != stop))) := by
  induction n generalizing mark with
  | zero => cases hn
  | succ n ih =>
      cases hahead : mark.ahead source with
      | nil =>
          rw [skipTo, bind_ok (peek_nil hahead), bind_ok (hasNext_nil hahead), Bool.and_false,
            if_neg (by simp)]
          rfl
      | cons c rest =>
          rw [skipTo, bind_ok (peek_cons hahead), bind_ok (hasNext_cons hahead), Bool.and_true]
          by_cases hc : (c != stop) = true
          · have hrest : (mark.past [c]).ahead source = rest := Mark.ahead_past hahead
            have hcounted : Mark.ahead source { mark with line := mark.line + lineFeeds [c] }
                = c :: rest := hahead
            rw [if_pos hc, bind_ok (countLine_eq c mark), bind_ok (advance_cons hcounted)]
            show skipTo source stop n (mark.past [c]) = _
            rw [ih (length_past hahead hn), hrest, Mark.past_past, List.takeWhile_cons, if_pos hc]
            rfl
          · rw [if_neg hc, List.takeWhile_cons, if_neg hc]
            rfl

/-- What is ahead is no longer than the text. -/
theorem ahead_length_lt (source : List Char) (mark : Mark) :
    (mark.ahead source).length < source.length + 1 := by
  rw [Mark.ahead, List.length_drop]
  omega

end

/-! ## Comments -/

theorem blockCommentTail?_run {run : List Char} (h : '*' ∉ run) (more : List Char) :
    blockCommentTail? (run ++ more) = (blockCommentTail? more).map (run ++ ·) := by
  induction run with
  | nil => simp
  | cons c run ih =>
      have hc : c ≠ '*' := fun heq => h (by simp [heq])
      have hrun : '*' ∉ run := fun hmem => h (by simp [hmem])
      rw [List.cons_append, blockCommentTail?, ih hrun, Option.map_map]
      · rfl
      · exact fun _ heq => absurd heq hc

theorem blockCommentTail?_star {more : List Char} (h : more.head? ≠ some '/') :
    blockCommentTail? ('*' :: more) = (blockCommentTail? more).map ('*' :: ·) := by
  rw [blockCommentTail?]
  rintro after - rfl
  exact h rfl

/-- The mark behind a block comment, of which the text behind the opening is ahead. -/
def pastComment (mark : Mark) (text : List Char) : Mark :=
  (blockCommentTail? text).elim ((mark.past text).noting ⟨.fault .unterminatedComment, '/', []⟩)
    mark.past

theorem pastComment_append {mark : Mark} {run more : List Char}
    (h : blockCommentTail? (run ++ more) = (blockCommentTail? more).map (run ++ ·)) :
    pastComment mark (run ++ more) = pastComment (mark.past run) more := by
  unfold pastComment
  rw [h]
  cases blockCommentTail? more with
  | none => simp [Mark.past_past]
  | some tail => simp [Mark.past_past]

section
variable {source rest more : List Char} {mark : Mark} {n : Nat}

theorem all_ne {stop : Char} {run : List Char} (h : stop ∉ run) : ∀ c ∈ run, (c != stop) = true := by
  intro c hc
  rw [bne_iff_ne]
  rintro rfl
  exact h hc

theorem takeWhile_ne_append {stop : Char} {run : List Char} (h : stop ∉ run) (more : List Char) :
    (run ++ stop :: more).takeWhile (· != stop) = run := by
  rw [List.takeWhile_append_of_pos (all_ne h)]
  simp

theorem takeWhile_ne_self {stop : Char} {text : List Char} (h : stop ∉ text) :
    text.takeWhile (· != stop) = text :=
  List.takeWhile_eq_self_iff.mpr (all_ne h)

theorem blockCommentTail?_starless {text : List Char} (h : '*' ∉ text) :
    blockCommentTail? text = none := by
  have hrun := blockCommentTail?_run h []
  rw [List.append_nil] at hrun
  rw [hrun]
  rfl

theorem blockComment_eq (hn : (mark.ahead source).length < n) :
    blockComment source n mark = .ok () (pastComment mark (mark.ahead source)) := by
  -- One turn of the loop goes to the next star and past it, where the rest of the comment is ahead.
  induction n generalizing mark with
  | zero => cases hn
  | succ n ih =>
      rw [blockComment, bind_ok (skipTo_eq '*' (ahead_length_lt source mark))]
      by_cases hstar : '*' ∈ mark.ahead source
      · obtain ⟨run, more, hahead, hrun⟩ := List.eq_append_cons_of_mem hstar
        have hnext : (mark.past run).ahead source = '*' :: more := Mark.ahead_past hahead
        have hmore : ((mark.past run).past ['*']).ahead source = more := Mark.ahead_past hnext
        rw [hahead, takeWhile_ne_append hrun, bind_ok (hasNext_cons hnext), if_pos rfl,
          bind_ok (advance_past hnext (by decide)),
          pastComment_append (blockCommentTail?_run hrun _)]
        by_cases hslash : more.head? = some '/'
        · obtain ⟨after, rfl⟩ := List.head?_eq_some_iff.mp hslash
          rw [bind_ok (takes_past hmore (by decide)), if_pos rfl, Mark.past_past, pastComment,
            blockCommentTail?]
          rfl
        · have hlength : (((mark.past run).past ['*']).ahead source).length < n := by
            rw [hmore]
            rw [hahead, List.length_append, List.length_cons] at hn
            omega
          have hopen : blockCommentTail? (['*'] ++ more)
              = (blockCommentTail? more).map (['*'] ++ ·) := blockCommentTail?_star hslash
          rw [bind_ok (takes_other (hmore ▸ hslash)), if_neg (by simp), ih hlength, hmore,
            ← pastComment_append hopen]
          rfl
      · -- The text ends before the comment does.
        have hend : (mark.past (mark.ahead source)).ahead source = [] :=
          Mark.ahead_past (List.append_nil _).symm
        rw [takeWhile_ne_self hstar, bind_ok (hasNext_nil hend), pastComment,
          blockCommentTail?_starless hstar]
        rfl

end

/-! ## Lexemes -/

section
variable {source rest more tail : List Char} {mark : Mark} {c : Char}

/-- The text that has been taken since the start was marked. -/
theorem slice_past (hstart : mark.start = mark.current) (h : mark.ahead source = (c :: tail) ++ more) :
    slice source (mark.past (c :: tail)).start (mark.past (c :: tail)).current
      (mark.past (c :: tail)) = .ok (c :: tail) (mark.past (c :: tail)) := by
  show slice source mark.start (mark.current + (c :: tail).length) _ = _
  rw [hstart]
  exact slice_eq (Nat.le_of_lt (Mark.current_lt h)) h _

/-- With all of its text taken, a piece becomes a token. -/
theorem addToken_eq (hstart : mark.start = mark.current)
    (h : mark.ahead source = (c :: tail) ++ more) {kind : Kind} {literal : Literal}
    (hliteral : literal = literalOf kind (c :: tail)) :
    addToken source kind literal (mark.past (c :: tail))
      = .ok () ((mark.past (c :: tail)).noting ⟨.token kind, c, tail⟩) := by
  rw [addToken, get_bind, bind_ok (slice_past hstart h), hliteral]
  rfl

theorem addEither_eq (hstart : mark.start = mark.current) (h : mark.ahead source = c :: rest)
    {long short : Kind} (hlong : ∀ text, literalOf long text = .nil)
    (hshort : ∀ text, literalOf short text = .nil) :
    addEither source long short (mark.past [c])
      = .ok () ((mark.past (Piece.withEqual long short c rest).text).noting
          (Piece.withEqual long short c rest)) := by
  have hrest : (mark.past [c]).ahead source = rest := Mark.ahead_past h
  by_cases hequal : rest.head? = some '='
  · obtain ⟨after, rfl⟩ := List.head?_eq_some_iff.mp hequal
    rw [addEither, bind_ok (takes_past hrest (by decide)), if_pos rfl, Mark.past_past]
    exact addToken_eq hstart h (hlong _).symm
  · have hpiece : Piece.withEqual long short c rest = Piece.single short c := by
      unfold Piece.withEqual
      split
      · exact absurd rfl hequal
      · rfl
    rw [addEither, bind_ok (takes_other (hrest ▸ hequal)), if_neg (by simp), hpiece]
    exact addToken_eq hstart h (hshort _).symm

theorem string_open (h : mark.ahead source = '"' :: rest) (hrest : '"' ∉ rest) :
    string source (mark.past ['"'])
      = .ok () ((mark.past ('"' :: rest)).noting ⟨.fault .unterminatedString, '"', rest⟩) := by
  have hahead : (mark.past ['"']).ahead source = rest := Mark.ahead_past h
  have hend : (mark.past ('"' :: rest)).ahead source = [] :=
    Mark.ahead_past (h.trans (List.append_nil _).symm)
  rw [string, bind_ok (skipTo_eq '"' (ahead_length_lt source _)), hahead, Mark.past_past,
    takeWhile_ne_self hrest, List.singleton_append, bind_ok (hasNext_nil hend), if_neg (by simp)]
  rfl

theorem string_closed {body : List Char} (hstart : mark.start = mark.current)
    (h : mark.ahead source = '"' :: (body ++ '"' :: more)) (hbody : '"' ∉ body) :
    string source (mark.past ['"'])
      = .ok () ((mark.past ('"' :: (body ++ ['"']))).noting ⟨.token .string, '"', body ++ ['"']⟩) := by
  have hahead : (mark.past ['"']).ahead source = body ++ '"' :: more := Mark.ahead_past h
  have hquote : (mark.past ('"' :: body)).ahead source = '"' :: more := Mark.ahead_past h
  have htext : mark.ahead source = '"' :: (body ++ ['"']) ++ more := by
    rw [h, List.cons_append, List.append_assoc]
    rfl
  -- The literal lies between the quotes.
  have hliteral (after : Mark) :
      slice source (mark.start + 1) (mark.start + 1 + body.length) after = .ok body after := by
    rw [hstart]
    exact slice_eq (mark.current_lt h) hahead after
  have hcurrent : (mark.past ('"' :: (body ++ ['"']))).current - 1
      = mark.start + 1 + body.length := by
    show mark.current + ('"' :: (body ++ ['"'])).length - 1 = _
    rw [List.length_cons, List.length_append, List.length_singleton]
    omega
  rw [string, bind_ok (skipTo_eq '"' (ahead_length_lt source _)), hahead, Mark.past_past,
    takeWhile_ne_append hbody, List.singleton_append, bind_ok (hasNext_cons hquote), if_pos rfl,
    bind_ok (advance_past hquote (by decide)), get_bind, Mark.past_past, List.cons_append, hcurrent,
    show (mark.past ('"' :: (body ++ ['"']))).start = mark.start from rfl, bind_ok (hliteral _)]
  exact addToken_eq hstart htext (by simp [literalOf])

theorem string_eq (hstart : mark.start = mark.current) (h : mark.ahead source = '"' :: rest) :
    string source (mark.past ['"'])
      = .ok () ((mark.past (Piece.ofQuote '"' rest).text).noting (Piece.ofQuote '"' rest)) := by
  unfold Piece.ofQuote
  cases htail : stringTail? rest with
  | none => exact string_open h (stringTail?_none htail)
  | some tail =>
      obtain ⟨body, rfl, hbody⟩ := stringTail?_some htail
      obtain ⟨more, rfl⟩ := (stringTail?_eq_some htail).1
      rw [List.append_assoc] at h
      exact string_closed hstart h hbody

theorem fraction_point {d : Char} (h : mark.ahead source = '.' :: d :: more)
    (hd : isDigit d = true) :
    fraction source mark = .ok () (mark.past ('.' :: (d :: more).takeWhile isDigit)) := by
  have hdigits : (mark.past ['.']).ahead source = d :: more := Mark.ahead_past h
  rw [fraction, bind_ok (peek_cons h), bind_ok (peekNext_cons h), if_pos (by simp [hd]),
    bind_ok (advance_past h (by decide)),
    advanceWhile_eq (by decide) isDigit_lineFeed (ahead_length_lt source _), hdigits,
    Mark.past_past]
  rfl

theorem fraction_none (h : ∀ d more, mark.ahead source = '.' :: d :: more → isDigit d = false) :
    fraction source mark = .ok () mark := by
  have hnull : isDigit '\x00' = false := by decide
  cases hahead : mark.ahead source with
  | nil =>
      rw [fraction, bind_ok (peek_nil hahead), bind_ok (peekNext_nil (by simp [hahead])),
        if_neg (by simp)]
      rfl
  | cons c rest =>
      rw [fraction, bind_ok (peek_cons hahead)]
      cases rest with
      | nil =>
          rw [bind_ok (peekNext_nil (by simp [hahead])), if_neg (by simp [hnull])]
          rfl
      | cons d more =>
          have hno : ¬ (c == '.' && isDigit d) = true := by
            intro hpoint
            obtain ⟨hc, hd⟩ := Bool.and_eq_true_iff.mp hpoint
            obtain rfl := beq_iff_eq.mp hc
            rw [h d more hahead] at hd
            cases hd
          rw [bind_ok (peekNext_cons hahead), if_neg hno]
          rfl

theorem digits_eq (h : mark.ahead source = rest) :
    digits source mark = .ok () (mark.past (numberTail rest)) := by
  have hdrop : (mark.past (rest.takeWhile isDigit)).ahead source = rest.dropWhile isDigit :=
    Mark.ahead_past (h.trans List.takeWhile_append_dropWhile.symm)
  rw [digits, bind_ok (advanceWhile_eq (by decide) isDigit_lineFeed (ahead_length_lt source _)), h]
  unfold numberTail
  split
  case h_1 d more heq =>
      rw [heq] at hdrop
      by_cases hd : isDigit d = true
      · rw [fraction_point hdrop hd, Mark.past_past, if_pos hd]
      · rw [fraction_none ?_, if_neg hd, List.append_nil]
        intro d' more' hahead
        rw [hdrop] at hahead
        cases hahead
        exact Bool.eq_false_iff.mpr hd
  case h_2 hother =>
      rw [fraction_none ?_, List.append_nil]
      intro d more hahead
      exact absurd (hdrop.symm.trans hahead) (hother d more)

theorem number_eq (hstart : mark.start = mark.current) (h : mark.ahead source = c :: rest) :
    number source (mark.past [c]) = .ok () ((mark.past (c :: numberTail rest)).noting
      ⟨.token .number, c, numberTail rest⟩) := by
  have hrest : (mark.past [c]).ahead source = rest := Mark.ahead_past h
  obtain ⟨more, hmore⟩ := numberTail_init rest
  have htext : mark.ahead source = (c :: numberTail rest) ++ more := by
    rw [h, List.cons_append, hmore]
  rw [number, bind_ok (digits_eq hrest), Mark.past_past, List.singleton_append, get_bind,
    bind_ok (slice_past hstart htext)]
  exact addToken_eq hstart htext rfl

/-! ### Words and comments -/

theorem literalOf_ofWord (word : String) (text : List Char) :
    literalOf (Kind.ofWord word) text = .nil := by
  have hkeywords : ∀ entry ∈ Kind.keywords, entry.2 ≠ .number ∧ entry.2 ≠ .string := by decide
  have hkind : Kind.ofWord word ≠ .number ∧ Kind.ofWord word ≠ .string := by
    unfold Kind.ofWord
    cases hword : Kind.keywords.lookup word with
    | none => simp
    | some kind =>
        obtain ⟨before, after, heq, -⟩ := List.lookup_eq_some_iff.mp hword
        exact hkeywords (word, kind) (by simp [heq])
  unfold literalOf
  split
  case h_1 heq => exact absurd heq hkind.1
  case h_2 heq => exact absurd heq hkind.2
  case h_3 => rfl

theorem word_eq (hstart : mark.start = mark.current) (h : mark.ahead source = c :: rest) :
    let tail := rest.takeWhile continuesName
    word source (mark.past [c]) = .ok () ((mark.past (c :: tail)).noting
      ⟨.token (Kind.ofWord (String.ofList (c :: tail))), c, tail⟩) := by
  intro tail
  have hrest : (mark.past [c]).ahead source = rest := Mark.ahead_past h
  have htext : mark.ahead source = (c :: tail) ++ rest.dropWhile continuesName := by
    rw [h, List.cons_append, List.takeWhile_append_dropWhile]
  rw [word,
    bind_ok (advanceWhile_eq (by decide) continuesName_lineFeed (ahead_length_lt source _)), hrest,
    Mark.past_past, List.singleton_append, get_bind, bind_ok (slice_past hstart htext)]
  exact addToken_eq hstart htext (literalOf_ofWord _ _).symm

theorem slash_eq (hstart : mark.start = mark.current) (h : mark.ahead source = '/' :: rest) :
    slash source (mark.past ['/'])
      = .ok () ((mark.past (Piece.ofSlash '/' rest).text).noting (Piece.ofSlash '/' rest)) := by
  have hrest : (mark.past ['/']).ahead source = rest := Mark.ahead_past h
  by_cases hslash : rest.head? = some '/'
  · obtain ⟨more, rfl⟩ := List.head?_eq_some_iff.mp hslash
    have hmore : ((mark.past ['/']).past ['/']).ahead source = more := Mark.ahead_past hrest
    rw [slash, bind_ok (takes_past hrest (by decide)), if_pos rfl,
      skipTo_eq '\n' (ahead_length_lt source _), hmore, Mark.past_past, Mark.past_past]
    rfl
  · rw [slash, bind_ok (takes_other (hrest ▸ hslash)), if_neg (by simp)]
    by_cases hstar : rest.head? = some '*'
    · obtain ⟨more, rfl⟩ := List.head?_eq_some_iff.mp hstar
      have hmore : ((mark.past ['/']).past ['*']).ahead source = more := Mark.ahead_past hrest
      rw [bind_ok (takes_past hrest (by decide)), if_pos rfl,
        blockComment_eq (ahead_length_lt source _), hmore, Mark.past_past]
      cases htail : blockCommentTail? more with
      | none =>
          simp only [pastComment, Piece.ofSlash, htail, Option.elim_none, Mark.past_past]
          rfl
      | some tail =>
          simp only [pastComment, Piece.ofSlash, htail, Option.elim_some, Mark.past_past]
          rfl
    · have hpiece : Piece.ofSlash '/' rest = Piece.single .slash '/' := by
        unfold Piece.ofSlash
        split
        · exact absurd rfl hslash
        · exact absurd rfl hstar
        · rfl
      rw [bind_ok (takes_other (hrest ▸ hstar)), if_neg (by simp), hpiece]
      exact addToken_eq hstart h rfl

theorem other_eq (hstart : mark.start = mark.current) (h : mark.ahead source = c :: rest) :
    (if isDigit c then number source
      else if startsName c then word source
      else report .unexpectedCharacter) (mark.past [c])
      = .ok () ((mark.past (Piece.ofOther c rest).text).noting (Piece.ofOther c rest)) := by
  unfold Piece.ofOther
  split
  case isTrue => exact number_eq hstart h
  case isFalse =>
      split
      case isTrue => exact word_eq hstart h
      case isFalse => rfl

/-- What starts with a character is the first piece from there on. -/
theorem lexeme_eq (hstart : mark.start = mark.current) (h : mark.ahead source = c :: rest) :
    lexeme source c { mark with current := mark.current + 1 }
      = .ok () ((mark.past (Piece.first c rest).text).noting (Piece.first c rest)) := by
  -- A line feed has been taken without being counted; of all other characters there is nothing to
  -- count.
  by_cases hfeed : c = '\n'
  · subst hfeed
    exact countLine_eq '\n' _
  · rw [moved_eq_past hfeed]
    unfold lexeme
    split
    case h_21 =>
        have hfirst : Piece.first c rest = Piece.ofOther c rest := by
          rw [Piece.first] <;> assumption
        rw [hfirst]
        exact other_eq hstart h
    all_goals first
      | rfl
      | exact absurd rfl hfeed
      | exact addToken_eq hstart h rfl
      | exact addEither_eq hstart h (fun _ => rfl) (fun _ => rfl)
      | exact slash_eq hstart h
      | exact string_eq hstart h

end

/-! ## The whole text -/

section
variable {source rest : List Char} {mark : Mark} {c : Char} {n : Nat}

theorem ahead_behind (h : mark.ahead source = c :: rest) :
    (mark.behind (Piece.first c rest)).ahead source
      = rest.drop (Piece.first c rest).tail.length := by
  obtain ⟨hhead, ⟨more, hmore⟩, -⟩ := Piece.first_cutFrom c rest
  have htext : mark.ahead source = (Piece.first c rest).text ++ more := by
    rw [h, Piece.text, hhead, List.cons_append, hmore]
  have hcurrent : (mark.behind (Piece.first c rest)).current
      = mark.current + (Piece.first c rest).text.length := by
    unfold Mark.behind Mark.noting
    split <;> rfl
  calc (mark.behind (Piece.first c rest)).ahead source
      = source.drop (mark.current + (Piece.first c rest).text.length) := by
        rw [Mark.ahead, hcurrent]
    _ = more := Mark.ahead_past htext
    _ = rest.drop (Piece.first c rest).tail.length := by
        have hdrop := congrArg (List.drop (Piece.first c rest).tail.length) hmore
        rwa [List.drop_left] at hdrop

/-- The lexemes that are swept over are the pieces of what is ahead. -/
theorem lexemes_eq (hn : (mark.ahead source).length < n) :
    lexemes source n mark = .ok () ((pieces (mark.ahead source)).foldl Mark.behind mark) := by
  -- Each turn takes a character at least, so there are turns enough for the rest.
  induction n generalizing mark with
  | zero => cases hn
  | succ n ih =>
      cases hahead : mark.ahead source with
      | nil =>
          rw [lexemes, bind_ok (hasNext_nil hahead), if_neg (by simp), pieces]
          rfl
      | cons c rest =>
          have hmarked : Mark.ahead source { mark with start := mark.current } = c :: rest := hahead
          have hnext := ahead_behind hahead
          have hlength : ((mark.behind (Piece.first c rest)).ahead source).length < n := by
            rw [hnext, List.length_drop]
            rw [hahead, List.length_cons] at hn
            omega
          have hmark : (modify fun mark => { mark with start := mark.current } : Sweep Unit) mark
              = .ok () { mark with start := mark.current } := rfl
          rw [lexemes, bind_ok (hasNext_cons hahead), if_pos rfl, bind_ok hmark,
            bind_ok (advance_cons hmarked), bind_ok (lexeme_eq rfl hmarked), pieces_cons,
            List.foldl_cons, ← hnext]
          exact ih hlength

end

end Sweep

/-! ## Scans -/

/-- What is collected over the pieces of a text, with an end of input behind it, is what they read
as. -/
theorem Mark.foldl_behind (mark : Mark) (ps : List Piece) :
    let last := ps.foldl Mark.behind mark
    last.tokens ++ [Scan.endToken last.line] = mark.tokens ++ (Scan.ofPieces mark.line ps).tokens ∧
      last.reported = mark.reported ++ (Scan.ofPieces mark.line ps).diagnostics := by
  induction ps generalizing mark with
  | nil => exact ⟨rfl, (List.append_nil _).symm⟩
  | cons p ps ih =>
      obtain ⟨htokens, hreported⟩ := ih (mark.behind p)
      dsimp only
      rw [List.foldl_cons, htokens, hreported, Scan.ofPieces_cons]
      unfold behind noting Scan.add
      cases p.shape with
      | token kind => simp [past]
      | fault fault => simp [past]
      | blank => simp [past]
      | comment => simp [past]

/-- No text makes the sweep ask for what is not there, and what it gives is the scan. -/
theorem sweep_eq (source : List Char) : sweep source = .ok (scan source) := by
  have hahead : Mark.ahead source ⟨1, 0, 0, [], []⟩ = source := rfl
  have hlexemes := Sweep.lexemes_eq (Sweep.ahead_length_lt source ⟨1, 0, 0, [], []⟩)
  obtain ⟨htokens, hreported⟩ := Mark.foldl_behind ⟨1, 0, 0, [], []⟩ (pieces source)
  rw [hahead] at hlexemes
  unfold sweep
  rw [hlexemes]
  dsimp only
  rw [htokens, hreported]
  rfl

end LoxLang
