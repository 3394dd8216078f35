import LoxLang.Proofs.Parse.Reads

set_option autoImplicit false

/-! # Rules as data

There is little that a rule of the grammar can do. It looks at the next token and takes it or leaves
it, it reports a fault, it stops with one, and it takes turns at reading declarations, each of which
may be given up. A `Script` is a rule written down in these terms. The scripts here spell out the whole
grammar, and carried out on a cursor (`Script.run`) they are the rules that read it
(`exprScripts`, `stmtScripts`, `run_program`).

What is gained is that a fact about what rules do can be proved by induction on scripts, once for
every rule, where it would otherwise go through all of them; and that the same script can be carried
out on something else than a cursor. -/

namespace LoxLang.Parse

/-- What a rule does. -/
inductive Script : Type → Type 1
  | done {α : Type} (a : α) : Script α
  /-- The budget for nested calls is used up. -/
  | spent {α : Type} : Script α
  | refuse {α : Type} (fault : GrammarFault) (token : Token) : Script α
  | report {α : Type} (fault : GrammarFault) (token : Token) (more : Script α) : Script α
  /-- Looks at the next token. It is taken if it is of one of these kinds and not the end of input. -/
  | next {α : Type} (kinds : List Kind) (taken other : Token → Script α) : Script α
  /-- Goes on in a way that depends on the number of tokens ahead. -/
  | measure {α : Type} (more : Nat → Script α) : Script α
  /-- A turn of a loop over declarations. The loop is over before a token of one of these kinds and at
  the end of input; otherwise a declaration is read, or given up after a fault. -/
  | turn {α : Type} (closing : List Kind) (part : Script Stmt) (finish : Script α)
    (more : Option Stmt → Script α) : Script α

namespace Script

/-- A script carried out on a cursor. -/
def run : {α : Type} → Script α → Rule α
  | _, done a => pure a
  | _, spent => throw .overBudget
  | _, refuse fault token => Parse.refuse fault token
  | _, report fault token more => do
    Parse.report fault token
    more.run
  | _, next kinds taken other => do
    let token ← peek
    if token.kind != .endOfInput && kinds.contains token.kind then
      skip
      (taken token).run
    else
      (other token).run
  | _, measure more => fun cursor => (more cursor.rest.length).run cursor
  | _, turn closing part finish more => do
    let token ← peek
    if closing.contains token.kind || token.kind == .endOfInput then
      finish.run
    else
      let stmt ← orSync part.run
      (more stmt).run

/-- One script after another. -/
def bind {β : Type} : {α : Type} → Script α → (α → Script β) → Script β
  | _, done a, f => f a
  | _, spent, _ => spent
  | _, refuse fault token, _ => refuse fault token
  | _, report fault token more, f => report fault token (more.bind f)
  | _, next kinds taken other, f =>
    next kinds (fun token => (taken token).bind f) fun token => (other token).bind f
  | _, measure more, f => measure fun ahead => (more ahead).bind f
  | _, turn closing part finish more, f =>
    turn closing part (finish.bind f) fun stmt => (more stmt).bind f

instance : Monad Script where
  pure := done
  bind := bind

/-! ## Single tokens and parts that may be absent -/

/-- The next token, if it is of one of these kinds. -/
def accept? (kinds : List Kind) : Script (Option Token) :=
  next kinds (fun token => done (some token)) fun _ => done none

/-- The next token, which has to be of one kind. -/
def expect (kind : Kind) (what : String) : Script Token :=
  next [kind] done fun token => refuse (.expected what) token

/-- A part that is there unless the token behind it comes next. -/
def unlessNext {α : Type} (kind : Kind) (absent : α) (part : Script α) : Script α :=
  next [] (fun _ => part) fun token => if token.kind == kind then done absent else part

/-- A part that is there if a token of the given kind stands before it. -/
def behind {α : Type} (kind : Kind) (absent : α) (part : Script α) : Script α :=
  next [kind] (fun _ => part) fun _ => done absent

/-- A check of the number of parameters or arguments. -/
def checkCount (fault : GrammarFault) (count : Nat) : Script Unit :=
  if count == maxArguments then
    next [] (fun _ => done ()) fun token => report fault token (done ())
  else done ()

/-! ## The grammar: expressions -/

/-- The kinds that an expression without operators starts with. -/
def primaryKinds : List Kind :=
  [.kwFalse, .kwTrue, .kwNil, .number, .string, .identifier, .leftParen]

mutual

/-- An assignment, or a binary expression. -/
def expression : Nat → Script Expr
  | 0 => spent
  | n + 1 => do
    let left ← binary n levels
    match ← accept? [.equal] with
    | none => done left
    | some equals =>
      let value ← expression n
      match target? left with
      | some name => done (.assign name value)
      | none => report .invalidTarget equals (done left)

/-- The operators of some levels and their operands. -/
def binary : Nat → List Level → Script Expr
  | 0, _ => spent
  | n + 1, [] => unary n
  | n + 1, level :: tighter => do
    let left ← binary n tighter
    binaryRest n level tighter left

/-- What stands behind a left operand. -/
def binaryRest : Nat → Level → List Level → Expr → Script Expr
  | 0, _, _, _ => spent
  | n + 1, level, tighter, left => do
    match ← accept? level.kinds with
    | none => done left
    | some op =>
      let right ← binary n tighter
      binaryRest n level tighter (level.node left op right)

/-- Operators before an operand. -/
def unary : Nat → Script Expr
  | 0 => spent
  | n + 1 => do
    match ← accept? unaryKinds with
    | none => call n
    | some op =>
      let right ← unary n
      if supportsUnary op.kind then done (.unary op right)
      else refuse (.unsupportedUnary op.lexeme) op

/-- A callee with its argument lists. -/
def call : Nat → Script Expr
  | 0 => spent
  | n + 1 => do
    let callee ← primary n
    callRest n callee

/-- The argument lists behind a callee. -/
def callRest : Nat → Expr → Script Expr
  | 0, _ => spent
  | n + 1, callee =>
    behind .leftParen callee do
      let args ← unlessNext .rightParen [] (arguments n 0)
      let paren ← expect .rightParen "')' after arguments"
      callRest n (.call callee paren args)

/-- Arguments, of which `count` have been read already. -/
def arguments : Nat → Nat → Script (List Expr)
  | 0, _ => spent
  | n + 1, count => do
    checkCount .tooManyArguments count
    let arg ← expression n
    let more ← behind .comma [] (arguments n (count + 1))
    done (arg :: more)

/-- A constant, a name or an expression in parentheses. -/
def primary : Nat → Script Expr
  | 0 => spent
  | n + 1 => next primaryKinds
    (fun token => match constant? token with
      | some value => done value
      | none => do
        let inner ← expression n
        let _ ← expect .rightParen "')' after expression"
        done (.group inner))
    fun token => refuse (.expected "expression") token

end

/-- An expression, with a budget for the tokens that are ahead. -/
def expr : Script Expr :=
  measure fun ahead => expression (16 * (ahead + 1))

/-! ## The grammar: parts of statements -/

/-- An expression and a semicolon. -/
def exprThenSemicolon (after : String) : Script Expr := do
  let value ← expr
  let _ ← expect .semicolon ("';' after " ++ after)
  done value

/-- The declaration of a variable, behind the keyword. -/
def variableDeclaration : Script Stmt := do
  let name ← expect .identifier "variable name"
  let initial ← behind .equal none (some <$> expr)
  let _ ← expect .semicolon "';' after variable declaration"
  done (.declare name initial)

/-- A check that a `return` stands in a function. -/
def checkReturn (keyword : Token) (inFunction : Bool) : Script Unit :=
  if inFunction then done () else report .returnAtTopLevel keyword (done ())

/-- A return statement, behind the keyword. -/
def returnStatement (keyword : Token) (inFunction : Bool) : Script Stmt := do
  checkReturn keyword inFunction
  let value ← unlessNext .semicolon none (some <$> expr)
  let _ ← expect .semicolon "';' after return value"
  done (.ret keyword value)

/-- Parameters, of which `count` have been read already. -/
def parameters : Nat → Nat → Script (List Token)
  | 0, _ => spent
  | n + 1, count => do
    checkCount .tooManyParameters count
    let param ← expect .identifier "parameter name"
    let more ← behind .comma [] (parameters n (count + 1))
    done (param :: more)

/-- The name and the parameters of a function, up to the opening brace. -/
def functionHead : Script (Token × List Token) := do
  let name ← expect .identifier "function name"
  let _ ← expect .leftParen "'(' after function name"
  let params ← unlessNext .rightParen [] (measure fun ahead => parameters (16 * (ahead + 1)) 0)
  let _ ← expect .rightParen "')' after parameters"
  let _ ← expect .leftBrace "'\x7b' before function body"
  done (name, params)

/-- A condition in parentheses. -/
def condition (opening closing : String) : Script Expr := do
  let _ ← expect .leftParen opening
  let value ← expr
  let _ ← expect .rightParen closing
  done value

/-- What a `for` loop starts with. -/
def forInitial : Script (Option Stmt) :=
  next [.semicolon, .kwVar]
    (fun token =>
      if token.kind == .semicolon then done none else some <$> variableDeclaration)
    fun _ => (some ∘ Stmt.expression) <$> exprThenSemicolon "expression"

/-- What stands in the parentheses of a `for` loop. -/
def forClauses : Script ForClauses := do
  let _ ← expect .leftParen "'(' after 'for'"
  let initial ← forInitial
  let condition ← unlessNext .semicolon none (some <$> expr)
  let _ ← expect .semicolon "';' after loop condition"
  let increment ← unlessNext .rightParen none (some <$> expr)
  let _ ← expect .rightParen "')' after for clauses"
  done ⟨initial, condition, increment⟩

/-! ## The grammar: statements -/

mutual

/-- A declaration. -/
def declaration : Nat → Bool → Script Stmt
  | 0, _ => spent
  | n + 1, inFunction => next [.kwFun, .kwVar]
    (fun token =>
      if token.kind == .kwFun then do
        let (name, params) ← functionHead
        let body ← block n true
        done (.function name params body)
      else variableDeclaration)
    fun _ => statement n inFunction

/-- A statement. -/
def statement : Nat → Bool → Script Stmt
  | 0, _ => spent
  | n + 1, inFunction => next [.kwFor, .kwIf, .kwPrint, .kwReturn, .kwWhile, .leftBrace]
    (fun token => match token.kind with
      | .kwFor => do
        let clauses ← forClauses
        let body ← statement n inFunction
        done (clauses.loop body)
      | .kwIf => do
        let test ← condition "'(' after 'if'" "')' after if condition"
        let thenDo ← statement n inFunction
        let elseDo ← behind .kwElse none (some <$> statement n inFunction)
        done (.branch test thenDo elseDo)
      | .kwPrint => do
        let value ← exprThenSemicolon "value"
        done (.print value)
      | .kwReturn => returnStatement token inFunction
      | .kwWhile => do
        let test ← condition "'(' after 'while'" "')' after condition"
        let body ← statement n inFunction
        done (.loop test body)
      | _ => do
        let body ← block n inFunction
        done (.block body))
    fun _ => do
      let value ← exprThenSemicolon "expression"
      done (.expression value)

/-- The declarations of a block, behind the opening brace. -/
def block : Nat → Bool → Script (List Stmt)
  | 0, _ => spent
  | n + 1, inFunction => turn [.rightBrace] (declaration n inFunction)
    (do
      let _ ← expect .rightBrace "'\x7d' after block"
      done [])
    fun stmt => do
      let more ← block n inFunction
      done (stmt.toList ++ more)

end

/-- The declarations of a program. -/
def program : Nat → Script (List Stmt)
  | 0 => spent
  | n + 1 => turn [] (declaration n false) (done []) fun stmt => do
    let more ← program n
    done (stmt.toList ++ more)

/-! ## Scripts of scripts -/

section
variable {α β : Type}

theorem run_bind (p : Script α) (f : α → Script β) :
    (p >>= f).run = p.run >>= fun a => (f a).run := by
  show (p.bind f).run = _
  induction p with
  | done a => rw [Script.bind, run, pure_bind]
  | spent => rfl
  | refuse fault token => rfl
  | report fault token more ih =>
      rw [Script.bind, run, run, ih, bind_assoc]
  | next kinds taken other ihTaken ihOther =>
      rw [Script.bind, run, run, bind_assoc]
      refine bind_congr fun token => ?_
      split
      · rw [ihTaken, bind_assoc]
      · rw [ihOther]
  | measure more ih =>
      funext c
      show ((more c.rest.length).bind f).run c = _
      rw [ih, bind_run, bind_run]
      rfl
  | turn closing part finish more _ ihOver ihMore =>
      rw [Script.bind, run, run, bind_assoc]
      refine bind_congr fun token => ?_
      split
      · rw [ihOver]
      · rw [bind_assoc]
        exact bind_congr fun stmt => ihMore stmt f

theorem run_map (g : α → β) (p : Script α) : (g <$> p).run = g <$> p.run := by
  calc (g <$> p).run
      = p.run >>= fun a => pure (g a) := run_bind p fun a => done (g a)
    _ = g <$> p.run := (map_eq_pure_bind g p.run).symm

@[simp] theorem run_done (a : α) : (done a).run = pure a := rfl

theorem run_measure (more : Nat → Script α) (c : Cursor) :
    (measure more).run c = (more c.rest.length).run c := rfl

theorem run_next_cons (kinds : List Kind) (taken other : Token → Script α) (t : Token)
    (ts : List Token) (reported : List Diagnostic) :
    (next kinds taken other).run ⟨t :: ts, reported⟩ =
      if t.kind != .endOfInput && kinds.contains t.kind then (taken t).run ⟨ts, reported⟩
      else (other t).run ⟨t :: ts, reported⟩ := by
  rw [run, bind_run]
  simp only [peek]
  split <;> rfl

theorem run_turn_cons (closing : List Kind) (part : Script Stmt) (finish : Script α)
    (more : Option Stmt → Script α) (t : Token) (ts : List Token) (reported : List Diagnostic) :
    (turn closing part finish more).run ⟨t :: ts, reported⟩ =
      if closing.contains t.kind || t.kind == .endOfInput then finish.run ⟨t :: ts, reported⟩
      else (orSync part.run >>= fun stmt => (more stmt).run) ⟨t :: ts, reported⟩ := by
  rw [run, bind_run]
  simp only [peek]
  split <;> rfl

theorem run_accept? {kinds : List Kind} (h : Kind.endOfInput ∉ kinds) :
    (accept? kinds).run = Parse.accept? kinds := by
  rw [accept?, run, Parse.accept?]
  refine bind_congr fun token => ?_
  by_cases hk : token.kind ∈ kinds
  · have hne : token.kind ≠ .endOfInput := fun he => h (he ▸ hk)
    simp [hk, hne]
  · simp [hk]

theorem run_expect {kind : Kind} (h : kind ≠ .endOfInput) (what : String) :
    (expect kind what).run = Parse.expect kind what := by
  rw [expect, run, Parse.expect]
  refine bind_congr fun token => ?_
  by_cases hk : token.kind = kind
  · simp [hk, h]
  · simp [hk, run]

theorem run_unlessNext {kind : Kind} {absent : α} {part : Script α} :
    (unlessNext kind absent part).run = Parse.unlessNext kind absent part.run := by
  rw [unlessNext, run, Parse.unlessNext, sees, bind_assoc]
  refine bind_congr fun token => ?_
  by_cases hk : token.kind = kind <;> simp [hk]

theorem run_behind {kind : Kind} (h : kind ≠ .endOfInput) {absent : α} {part : Script α} :
    (behind kind absent part).run = Parse.behind kind absent part.run := by
  rw [behind, run, Parse.behind, accept, Parse.accept?, bind_assoc, bind_assoc]
  refine bind_congr fun token => ?_
  by_cases hk : token.kind = kind
  · simp [hk, h]
  · simp [hk]

theorem run_checkCount (fault : GrammarFault) (count : Nat) :
    (checkCount fault count).run = Parse.checkCount fault count := by
  unfold checkCount Parse.checkCount
  split
  · rw [run]
    refine bind_congr fun token => ?_
    simp only [List.contains_nil, Bool.and_false, Bool.false_eq_true, if_false]
    rfl
  · rfl

end

/-! ## The scripts are the rules: expressions -/

/-- The scripts for expressions with a budget of `n`. -/
structure ExprScripts (n : Nat) : Prop where
  expression : (expression n).run = Parse.expression n
  binary : ∀ ls, (∀ l ∈ ls, Kind.endOfInput ∉ l.kinds) → (binary n ls).run = Parse.binary n ls
  binaryRest : ∀ l ls left, (∀ l' ∈ l :: ls, Kind.endOfInput ∉ l'.kinds) →
    (binaryRest n l ls left).run = Parse.binaryRest n l ls left
  unary : (unary n).run = Parse.unary n
  call : (call n).run = Parse.call n
  callRest : ∀ callee, (callRest n callee).run = Parse.callRest n callee
  arguments : ∀ count, (arguments n count).run = Parse.arguments n count
  primary : (primary n).run = Parse.primary n

theorem constant?_eq_none {token : Token} (h : token.kind ∉ primaryKinds) :
    constant? token = none := by
  simp only [primaryKinds, List.mem_cons, List.not_mem_nil, or_false, not_or] at h
  unfold constant?
  split <;> simp_all

section
variable {n : Nat} (ih : ExprScripts n)

include ih

theorem run_expression : (expression (n + 1)).run = Parse.expression (n + 1) := by
  rw [expression, Parse.expression, run_bind, ih.binary levels (by decide)]
  refine bind_congr fun left => ?_
  rw [run_bind, run_accept? (by decide)]
  refine bind_congr fun o => ?_
  cases o with
  | none => rfl
  | some equals =>
      dsimp only
      rw [run_bind, ih.expression]
      refine bind_congr fun value => ?_
      cases target? left <;> rfl

theorem run_binary (ls : List Level) (hls : ∀ l ∈ ls, Kind.endOfInput ∉ l.kinds) :
    (binary (n + 1) ls).run = Parse.binary (n + 1) ls := by
  cases ls with
  | nil =>
      rw [binary, Parse.binary]
      exact ih.unary
  | cons l ls =>
      rw [binary, Parse.binary, run_bind,
        ih.binary ls fun l' hl' => hls l' (List.mem_cons_of_mem l hl')]
      exact bind_congr fun left => ih.binaryRest l ls left hls

theorem run_binaryRest (l : Level) (ls : List Level) (left : Expr)
    (hls : ∀ l' ∈ l :: ls, Kind.endOfInput ∉ l'.kinds) :
    (binaryRest (n + 1) l ls left).run = Parse.binaryRest (n + 1) l ls left := by
  rw [binaryRest, Parse.binaryRest, run_bind, run_accept? (hls l List.mem_cons_self)]
  refine bind_congr fun o => ?_
  cases o with
  | none => rfl
  | some op =>
      dsimp only
      rw [run_bind, ih.binary ls fun l' hl' => hls l' (List.mem_cons_of_mem l hl')]
      exact bind_congr fun right => ih.binaryRest l ls _ hls

theorem run_unary : (unary (n + 1)).run = Parse.unary (n + 1) := by
  rw [unary, Parse.unary, run_bind, run_accept? (by decide)]
  refine bind_congr fun o => ?_
  cases o with
  | none => exact ih.call
  | some op =>
      dsimp only
      rw [run_bind, ih.unary]
      refine bind_congr fun right => ?_
      cases supportsUnary op.kind <;> rfl

theorem run_call : (call (n + 1)).run = Parse.call (n + 1) := by
  rw [call, Parse.call, run_bind, ih.primary]
  exact bind_congr fun callee => ih.callRest callee

theorem run_callRest (callee : Expr) :
    (callRest (n + 1) callee).run = Parse.callRest (n + 1) callee := by
  rw [callRest, Parse.callRest, run_behind (by decide), run_bind, run_unlessNext, ih.arguments]
  congr 1
  refine bind_congr fun args => ?_
  rw [run_bind, run_expect (by decide)]
  exact bind_congr fun paren => ih.callRest _

theorem run_arguments (count : Nat) :
    (arguments (n + 1) count).run = Parse.arguments (n + 1) count := by
  rw [arguments, Parse.arguments, run_bind, run_checkCount]
  refine bind_congr fun _ => ?_
  rw [run_bind, ih.expression]
  refine bind_congr fun arg => ?_
  rw [run_bind, run_behind (by decide), ih.arguments]
  rfl

theorem run_primary : (primary (n + 1)).run = Parse.primary (n + 1) := by
  rw [primary, Parse.primary, run]
  refine bind_congr fun token => ?_
  by_cases hk : token.kind ∈ primaryKinds
  · have hne : token.kind ≠ .endOfInput := by
      rintro he
      rw [he] at hk
      exact absurd hk (by decide)
    rw [if_pos (by simp [hk, hne])]
    cases hconst : constant? token with
    | some value => rfl
    | none =>
        have hparen : token.kind = .leftParen := by
          simp only [primaryKinds, List.mem_cons, List.not_mem_nil, or_false] at hk
          rcases hk with hk | hk | hk | hk | hk | hk | hk <;> simp_all [constant?]
        dsimp only
        rw [if_pos (by simp [hparen]), run_bind, ih.expression]
        refine bind_congr fun _ => bind_congr fun inner => ?_
        rw [run_bind, run_expect (by decide)]
        rfl
  · have hparen : token.kind ≠ .leftParen := by
      rintro he
      exact hk (he ▸ by decide)
    rw [if_neg (by simp [hk]), constant?_eq_none hk]
    dsimp only
    rw [if_neg (by simp [hparen])]
    rfl

end

theorem exprScripts (n : Nat) : ExprScripts n := by
  -- Each rule calls others with a budget that is one lower, so all of them are dealt with at once.
  induction n with
  | zero =>
      exact ⟨rfl, fun _ _ => rfl, fun _ _ _ _ => rfl, rfl, rfl, fun _ => rfl, fun _ => rfl, rfl⟩
  | succ n ih =>
      exact ⟨run_expression ih, run_binary ih, run_binaryRest ih, run_unary ih, run_call ih,
        run_callRest ih, run_arguments ih, run_primary ih⟩

theorem run_expr : expr.run = Parse.expr := by
  funext c
  rw [expr, run_measure, (exprScripts _).expression]
  rfl

/-! ## The scripts are the rules: statements -/

theorem run_exprThenSemicolon (after : String) :
    (exprThenSemicolon after).run = Parse.exprThenSemicolon after := by
  rw [exprThenSemicolon, Parse.exprThenSemicolon, run_bind, run_expr]
  refine bind_congr fun value => ?_
  rw [run_bind, run_expect (by decide)]
  rfl

theorem run_optionalExpr (kind : Kind) :
    (unlessNext kind none (some <$> expr)).run
      = Parse.unlessNext kind none (some <$> Parse.expr) := by
  rw [run_unlessNext, run_map, run_expr]

theorem run_variableDeclaration : variableDeclaration.run = Parse.variableDeclaration := by
  rw [variableDeclaration, Parse.variableDeclaration, run_bind, run_expect (by decide)]
  refine bind_congr fun name => ?_
  rw [run_bind, run_behind (by decide), run_map, run_expr]
  refine bind_congr fun initial => ?_
  rw [run_bind, run_expect (by decide)]
  rfl

theorem run_returnStatement (keyword : Token) (inFunction : Bool) :
    (returnStatement keyword inFunction).run = Parse.returnStatement keyword inFunction := by
  rw [returnStatement, Parse.returnStatement, run_bind]
  have hcheck : (checkReturn keyword inFunction).run = Parse.checkReturn keyword inFunction := by
    cases inFunction <;> rfl
  rw [hcheck]
  refine bind_congr fun _ => ?_
  rw [run_bind, run_optionalExpr]
  refine bind_congr fun value => ?_
  rw [run_bind, run_expect (by decide)]
  rfl

theorem run_parameters (n count : Nat) : (parameters n count).run = Parse.parameters n count := by
  induction n generalizing count with
  | zero => rfl
  | succ n ih =>
      rw [parameters, Parse.parameters, run_bind, run_checkCount]
      refine bind_congr fun _ => ?_
      rw [run_bind, run_expect (by decide)]
      refine bind_congr fun param => ?_
      rw [run_bind, run_behind (by decide), ih]
      rfl

theorem run_functionHead : functionHead.run = Parse.functionHead := by
  have hparams : (measure fun ahead => parameters (16 * (ahead + 1)) 0).run
      = fun cursor => Parse.parameters (budget cursor) 0 cursor := by
    funext c
    rw [run_measure, run_parameters]
    rfl
  rw [functionHead, Parse.functionHead, run_bind, run_expect (by decide)]
  refine bind_congr fun name => ?_
  rw [run_bind, run_expect (by decide)]
  refine bind_congr fun _ => ?_
  rw [run_bind, run_unlessNext, hparams]
  refine bind_congr fun params => ?_
  rw [run_bind, run_expect (by decide)]
  refine bind_congr fun _ => ?_
  rw [run_bind, run_expect (by decide)]
  rfl

theorem run_condition (opening closing : String) :
    (condition opening closing).run = Parse.condition opening closing := by
  rw [condition, Parse.condition, run_bind, run_expect (by decide)]
  refine bind_congr fun _ => ?_
  rw [run_bind, run_expr]
  refine bind_congr fun value => ?_
  rw [run_bind, run_expect (by decide)]
  rfl

theorem run_forInitial : forInitial.run = Parse.forInitial := by
  rw [forInitial, Parse.forInitial, run]
  refine bind_congr fun token => ?_
  rw [← run_variableDeclaration, ← run_exprThenSemicolon, ← run_map, ← run_map]
  by_cases hsemicolon : token.kind = .semicolon
  · simp [hsemicolon]
  by_cases hvar : token.kind = .kwVar
  · simp [hvar]
  rw [if_neg (by simp [hsemicolon, hvar])]
  split
  case h_3 => rfl
  all_goals contradiction

theorem run_forClauses : forClauses.run = Parse.forClauses := by
  rw [forClauses, Parse.forClauses, run_bind, run_expect (by decide)]
  refine bind_congr fun _ => ?_
  rw [run_bind, run_forInitial]
  refine bind_congr fun initial => ?_
  rw [run_bind, run_optionalExpr]
  refine bind_congr fun condition => ?_
  rw [run_bind, run_expect (by decide)]
  refine bind_congr fun _ => ?_
  rw [run_bind, run_optionalExpr]
  refine bind_congr fun increment => ?_
  rw [run_bind, run_expect (by decide)]
  rfl

/-- The scripts for statements with a budget of `n`. -/
structure StmtScripts (n : Nat) : Prop where
  declaration : ∀ inFunction, (declaration n inFunction).run = Parse.declaration n inFunction
  statement : ∀ inFunction, (statement n inFunction).run = Parse.statement n inFunction
  block : ∀ inFunction, (block n inFunction).run = Parse.block n inFunction

section
variable {n : Nat} (ih : StmtScripts n) (inFunction : Bool)

include ih

theorem run_declaration :
    (declaration (n + 1) inFunction).run = Parse.declaration (n + 1) inFunction := by
  rw [declaration, Parse.declaration, run]
  refine bind_congr fun token => ?_
  by_cases hfun : token.kind = .kwFun
  · rw [if_pos (by simp [hfun]), if_pos (by simp [hfun]), hfun]
    refine bind_congr fun _ => ?_
    rw [run_bind, run_functionHead]
    refine bind_congr fun head => ?_
    rw [run_bind, ih.block]
    rfl
  by_cases hvar : token.kind = .kwVar
  · rw [if_pos (by simp [hvar]), if_neg (by simp [hvar]), run_variableDeclaration, hvar]
  rw [if_neg (by simp [hfun, hvar]), ih.statement]
  split
  case h_3 => rfl
  all_goals contradiction

theorem run_statement :
    (statement (n + 1) inFunction).run = Parse.statement (n + 1) inFunction := by
  rw [statement, Parse.statement, run]
  refine bind_congr fun token => ?_
  by_cases hfor : token.kind = .kwFor
  · rw [if_pos (by simp [hfor]), hfor]
    refine bind_congr fun _ => ?_
    rw [run_bind, run_forClauses]
    refine bind_congr fun clauses => ?_
    rw [run_bind, ih.statement]
    rfl
  by_cases hif : token.kind = .kwIf
  · rw [if_pos (by simp [hif]), hif]
    refine bind_congr fun _ => ?_
    rw [run_bind, run_condition]
    refine bind_congr fun test => ?_
    rw [run_bind, ih.statement]
    refine bind_congr fun thenDo => ?_
    rw [run_bind, run_behind (by decide), run_map, ih.statement]
    rfl
  by_cases hprint : token.kind = .kwPrint
  · rw [if_pos (by simp [hprint]), hprint]
    refine bind_congr fun _ => ?_
    rw [run_bind, run_exprThenSemicolon]
    rfl
  by_cases hreturn : token.kind = .kwReturn
  · rw [if_pos (by simp [hreturn]), hreturn]
    exact bind_congr fun _ => run_returnStatement token inFunction
  by_cases hwhile : token.kind = .kwWhile
  · rw [if_pos (by simp [hwhile]), hwhile]
    refine bind_congr fun _ => ?_
    rw [run_bind, run_condition]
    refine bind_congr fun test => ?_
    rw [run_bind, ih.statement]
    rfl
  by_cases hbrace : token.kind = .leftBrace
  · rw [if_pos (by simp [hbrace]), hbrace]
    refine bind_congr fun _ => ?_
    rw [run_bind, ih.block]
    rfl
  rw [if_neg (by simp [hfor, hif, hprint, hreturn, hwhile, hbrace]), run_bind,
    run_exprThenSemicolon]
  split
  case h_7 => rfl
  all_goals contradiction

theorem run_block : (block (n + 1) inFunction).run = Parse.block (n + 1) inFunction := by
  rw [block, Parse.block, run]
  refine bind_congr fun token => ?_
  have hclosing : [Kind.rightBrace].contains token.kind = (token.kind == .rightBrace) :=
    Bool.or_false _
  rw [hclosing]
  split
  · rw [run_bind, run_expect (by decide)]
    rfl
  · rw [ih.declaration]
    refine bind_congr fun stmt => ?_
    rw [run_bind, ih.block]
    rfl

end

theorem stmtScripts (n : Nat) : StmtScripts n := by
  induction n with
  | zero => exact ⟨fun _ => rfl, fun _ => rfl, fun _ => rfl⟩
  | succ n ih => exact ⟨run_declaration ih, run_statement ih, run_block ih⟩

theorem run_program (n : Nat) : (program n).run = Parse.program n := by
  induction n with
  | zero => rfl
  | succ n ih =>
      rw [program, Parse.program, run, sees, bind_assoc]
      refine bind_congr fun token => ?_
      rw [pure_bind, List.contains_nil, Bool.false_or, (stmtScripts n).declaration]
      split
      · rfl
      · refine bind_congr fun stmt => ?_
        rw [run_bind, ih]
        rfl

end Script

end LoxLang.Parse
