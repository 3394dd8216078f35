import LoxLang.Eval.State

set_option autoImplicit false

/-! # Evaluation

Expressions and statements are evaluated by recursion on the tree. Two things are not in the tree:
how often a loop turns, and how deep calls nest. Evaluation is therefore written against a meaning of
calls (`invoke`) and a bound on loop turns, and `invoke` ties the knot by recursion on a bound. With a
large enough bound the result does not depend on it; when it is too small, evaluation stops with
`Stop.exhausted`. -/

namespace LoxLang

/-- How a statement ended. -/
inductive Flow where
  | normal
  /-- A `return` with its value, on its way out to the call. -/
  | returning (value : Value)

namespace Eval

/-! ## Operators -/

/-- The comparisons and the arithmetic that take numbers only. -/
def arithmetic? (kind : Kind) (x y : Float) : Option Value :=
  match kind with
  | .greater => some (.bool (y < x))
  | .greaterEqual => some (.bool (y ≤ x))
  | .less => some (.bool (x < y))
  | .lessEqual => some (.bool (x ≤ y))
  | .minus => some (.number (x - y))
  | .slash => some (.number (x / y))
  | .star => some (.number (x * y))
  | _ => none

/-- Applies a binary operator to the values of its operands. -/
def applyBinary (op : Token) (left right : Value) : Eval Value :=
  match op.kind with
  | .bangEqual => pure (.bool (!left.same right))
  | .equalEqual => pure (.bool (left.same right))
  | .plus =>
    match left, right with
    | .string s, .string t => pure (.string (s ++ t))
    | .number x, .number y => pure (.number (x + y))
    | _, _ => refuse .operandsNotAddable op
  | kind =>
    match left, right with
    | .number x, .number y =>
      match arithmetic? kind x y with
      | some value => pure value
      | none => throw (.defect .unknownOperator)
    | _, _ => refuse .operandsNotNumbers op

/-- Applies a unary operator to the value of its operand. -/
def applyUnary (op : Token) (operand : Value) : Eval Value :=
  match op.kind with
  | .bang => pure (.bool (!operand.isTruthy))
  | .minus =>
    match operand with
    | .number x => pure (.number (-x))
    | _ => refuse .operandNotNumber op
  | _ => throw (.defect .unknownOperator)

/-! ## Calls -/

/-- Something that can be called. -/
inductive Callable where
  | closure (function : Closure)
  | native (function : Native)

/-- How many arguments a call needs. -/
def Callable.arity : Callable → Int
  | .closure function => function.params.length
  | .native function => function.arity

/-- What is called when a value is called. -/
def callable? (setting : Setting) : Value → Option Callable
  | .closure _ function => some (.closure function)
  | .native index => setting.natives[index]?.map .native
  | _ => none

/-- What the answer of a native function comes to. -/
def answer : NativeReply → Eval Value
  | .value v => pure v
  | .failure message => throw (.failure (.plain message))
  | .breakdown => throw .breakdown
  | .pending => throw .exhausted

/-- Calls a native function. -/
def callNative (function : Native) (args : List Value) : Eval Value := do
  answer (function.run (← countNative) args)

/-- The meaning of a call of a declared function. -/
abbrev Invoke := Closure → List Value → Eval Value

/-- Calls something with arguments that have been evaluated. -/
def callWith (setting : Setting) (invoke : Invoke) (paren : Token) (callee : Callable)
    (args : List Value) : Eval Value :=
  if (args.length : Int) = callee.arity then
    active setting paren <|
      match callee with
      | .closure function => invoke function args
      | .native function => callNative function args
  else refuse (.wrongArity callee.arity args.length) paren

/-! ## Expressions -/

mutual

/-- Evaluates an expression in a scope. -/
def evalWith (setting : Setting) (invoke : Invoke) (scope : Nat) : Expr → Eval Value
  | .missing => throw (.defect .missingExpression)
  | .assign name value => do
    let v ← evalWith setting invoke scope value
    assign scope name v
    return v
  | .binary left op right => do
    let l ← evalWith setting invoke scope left
    let r ← evalWith setting invoke scope right
    applyBinary op l r
  | .call callee paren args => do
    let f ← evalWith setting invoke scope callee
    match callable? setting f with
    | none => refuse .notCallable paren
    | some target =>
      let values ← evalAllWith setting invoke scope args
      callWith setting invoke paren target values
  | .group inner => evalWith setting invoke scope inner
  | .literal value => pure value.toValue
  | .logical left op right => do
    let l ← evalWith setting invoke scope left
    match op.kind with
    | .kwOr => if l.isTruthy then pure l else evalWith setting invoke scope right
    | .kwAnd => if l.isTruthy then evalWith setting invoke scope right else pure l
    | _ => throw (.defect .unknownOperator)
  | .unary op right => do
    let r ← evalWith setting invoke scope right
    applyUnary op r
  | .name name => get scope name

/-- Evaluates expressions from left to right. -/
def evalAllWith (setting : Setting) (invoke : Invoke) (scope : Nat) :
    List Expr → Eval (List Value)
  | [] => pure []
  | e :: more => do
    let v ← evalWith setting invoke scope e
    let vs ← evalAllWith setting invoke scope more
    return v :: vs

end

/-- Evaluates an expression that may be absent; without one the value is `nil`. -/
def evalOptional (setting : Setting) (invoke : Invoke) (scope : Nat) : Option Expr → Eval Value
  | none => pure .nil
  | some e => evalWith setting invoke scope e

/-! ## Statements -/

/-- Writes out the value of an expression statement if that is asked for and it is no assignment. -/
def echo (setting : Setting) (e : Expr) (value : Value) : Eval Unit :=
  if setting.echo && !e.isAssign then write value.text true else return ()

/-- Runs a body as long as a condition holds, `turns` times at most. -/
def repeatWhile (condition : Eval Value) (body : Eval Flow) : Nat → Eval Flow
  | 0 => throw .exhausted
  | turns + 1 => do
    let test ← condition
    if test.isTruthy then
      match ← body with
      | .normal => repeatWhile condition body turns
      | .returning value => return .returning value
    else
      return .normal

mutual

/-- Executes a statement in a scope. -/
def execWith (setting : Setting) (invoke : Invoke) (turns : Nat) (scope : Nat) : Stmt → Eval Flow
  | .missing => throw (.defect .missingStatement)
  | .block body => do
    let inner ← newScope scope
    execAllWith setting invoke turns inner body
  | .expression value => do
    let v ← evalWith setting invoke scope value
    echo setting value v
    return .normal
  | .function name params body => do
    let f ← newClosure ⟨name, params, body, scope⟩
    define scope name.lexeme f
    return .normal
  | .branch condition thenDo elseDo => do
    let test ← evalWith setting invoke scope condition
    if test.isTruthy then execWith setting invoke turns scope thenDo
    else match elseDo with
      | none => return .normal
      | some stmt => execWith setting invoke turns scope stmt
  | .print value => do
    let v ← evalWith setting invoke scope value
    write v.text false
    return .normal
  | .ret _ value => do
    let v ← evalOptional setting invoke scope value
    return .returning v
  | .declare name initial => do
    let v ← evalOptional setting invoke scope initial
    define scope name.lexeme v
    return .normal
  | .loop condition body =>
    repeatWhile (evalWith setting invoke scope condition)
      (execWith setting invoke turns scope body) turns

/-- Executes statements in a scope up to the first that returns. -/
def execAllWith (setting : Setting) (invoke : Invoke) (turns : Nat) (scope : Nat) :
    List Stmt → Eval Flow
  | [] => pure .normal
  | stmt :: more => do
    match ← execWith setting invoke turns scope stmt with
    | .normal => execAllWith setting invoke turns scope more
    | .returning value => return .returning value

end

/-! ## The knot -/

/-- The parameters of a function with their arguments; `none` if an argument is missing. -/
def bindings? : List Token → List Value → Option (List (String × Value))
  | [], _ => some []
  | _ :: _, [] => none
  | param :: params, arg :: args => (bindings? params args).map ((param.lexeme, arg) :: ·)

/-- Binds the parameters of a function to the arguments. -/
def bindAll (scope : Nat) (params : List Token) (args : List Value) : Eval Unit :=
  match bindings? params args with
  | some bindings => defineAll scope bindings
  | none => throw (.defect .missingArgument)

/-- Calls a declared function. Its body runs in a scope of its own inside the scope of the
declaration, not that of the caller; without a `return` the value is `nil`. The bound limits how deep
calls nest and how often each loop turns. -/
def invoke (setting : Setting) : Nat → Invoke
  | 0, _, _ => throw .exhausted
  | bound + 1, function, args => do
    let scope ← newScope function.scope
    bindAll scope function.params args
    match ← execAllWith setting (invoke setting bound) bound scope function.body with
    | .normal => return .nil
    | .returning value => return value

/-- Evaluates an expression in a scope. -/
def eval (setting : Setting) (bound : Nat) (scope : Nat) (e : Expr) : Eval Value :=
  evalWith setting (invoke setting bound) scope e

/-- Executes a statement in a scope. -/
def exec (setting : Setting) (bound : Nat) (scope : Nat) (stmt : Stmt) : Eval Flow :=
  execWith setting (invoke setting bound) bound scope stmt

/-- Executes statements in a scope up to the first that returns. -/
def execAll (setting : Setting) (bound : Nat) (scope : Nat) (stmts : List Stmt) : Eval Flow :=
  execAllWith setting (invoke setting bound) bound scope stmts

end Eval

end LoxLang
