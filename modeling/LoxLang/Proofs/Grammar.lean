import LoxLang.Tree

set_option autoImplicit false

/-! # The grammar

The language as a set of derivations, with the tree that each derivation stands for. A rule of the
grammar is a constructor, its premises are the parts of the phrase, and the tokens of a phrase are
those of its parts in order:

    program    → decl*
    decl       → funDecl | varDecl | stmt
    funDecl    → "fun" IDENT "(" params? ")" block
    params     → IDENT ("," IDENT)*
    varDecl    → "var" IDENT ("=" expr)? ";"
    stmt       → block | exprStmt | forStmt | ifStmt | printStmt | returnStmt | whileStmt
    block      → "{" decl* "}"
    exprStmt   → expr ";"
    forStmt    → "for" "(" (varDecl | exprStmt | ";") expr? ";" expr? ")" stmt
    ifStmt     → "if" "(" expr ")" stmt ("else" stmt)?
    printStmt  → "print" expr ";"
    returnStmt → "return" expr? ";"
    whileStmt  → "while" "(" expr ")" stmt
    expr       → IDENT "=" expr | or
    or         → and ("or" and)*
    ...
    unary      → ("!" | "-") unary | call
    call       → primary ("(" args? ")")*
    args       → expr ("," expr)*

with at most eight parameters and arguments, and `return` inside functions only. A repetition that
associates to the left is written as a left-recursive rule, so the shape of the derivation is the
shape of the tree.

An `else` can belong to more than one open `if`. `Statement` keeps track of whether a statement ends
in an `if` that could still take an `else`; in `Dangling.nearest` such a statement stands before no
`else`, so that every `else` belongs to the nearest `if` that is open, and in `Dangling.any` it may
belong to any. -/

namespace LoxLang.Grammar

/-! ## Expressions -/

/-- The ranks of expressions, from the one that binds loosest to the one that binds tightest. -/
inductive Rank where
  | assign | or | and | equality | comparison | addition | multiplication | unary | call | primary
  deriving DecidableEq, Repr

namespace Rank

/-- The rank below a rank: what its operands are made of. -/
def tighter : Rank → Rank
  | assign => or
  | or => and
  | and => equality
  | equality => comparison
  | comparison => addition
  | addition => multiplication
  | multiplication => unary
  | unary => call
  | call => primary
  | primary => primary

/-- The binary operators of a rank. -/
def operators : Rank → List Kind
  | or => [.kwOr]
  | and => [.kwAnd]
  | equality => [.bangEqual, .equalEqual]
  | comparison => [.greater, .greaterEqual, .less, .lessEqual]
  | addition => [.minus, .plus]
  | multiplication => [.slash, .star]
  | _ => []

/-- The node that joins two operands of a rank: `or` and `and` do not always evaluate the right one,
so they have a node of their own. -/
def join : Rank → Expr → Token → Expr → Expr
  | or | and => Expr.logical
  | _ => Expr.binary

end Rank

mutual

/-- The tokens of an expression of some rank, with its tree. -/
inductive Phrase : Rank → List Token → Expr → Prop
  /-- Without an operator of its own, a rank is the tighter one. -/
  | operand {r : Rank} {ts : List Token} {e : Expr} : Phrase r.tighter ts e → Phrase r ts e
  | assign {name equals : Token} {ts : List Token} {value : Expr} :
    name.kind = .identifier → equals.kind = .equal → Phrase .assign ts value →
    Phrase .assign (name :: equals :: ts) (.assign name value)
  | operator {r : Rank} {ts us : List Token} {left right : Expr} {op : Token} :
    Phrase r ts left → op.kind ∈ r.operators → Phrase r.tighter us right →
    Phrase r (ts ++ op :: us) (r.join left op right)
  | unary {op : Token} {ts : List Token} {right : Expr} :
    op.kind = .bang ∨ op.kind = .minus → Phrase .unary ts right →
    Phrase .unary (op :: ts) (.unary op right)
  | callNone {ts : List Token} {callee : Expr} {opening closing : Token} :
    Phrase .call ts callee → opening.kind = .leftParen → closing.kind = .rightParen →
    Phrase .call (ts ++ [opening, closing]) (.call callee closing [])
  | call {ts us : List Token} {callee : Expr} {args : List Expr} {opening closing : Token} :
    Phrase .call ts callee → opening.kind = .leftParen → Arguments us args → args.length ≤ 8 →
    closing.kind = .rightParen →
    Phrase .call (ts ++ opening :: (us ++ [closing])) (.call callee closing args)
  | constant {t : Token} :
    t.kind = .number ∨ t.kind = .string → Phrase .primary [t] (.literal t.literal)
  | name {t : Token} : t.kind = .identifier → Phrase .primary [t] (.name t)
  | trueWord {t : Token} : t.kind = .kwTrue → Phrase .primary [t] (.literal (.bool true))
  | falseWord {t : Token} : t.kind = .kwFalse → Phrase .primary [t] (.literal (.bool false))
  | nilWord {t : Token} : t.kind = .kwNil → Phrase .primary [t] (.literal .nil)
  | group {opening closing : Token} {ts : List Token} {inner : Expr} :
    opening.kind = .leftParen → Phrase .assign ts inner → closing.kind = .rightParen →
    Phrase .primary (opening :: (ts ++ [closing])) (.group inner)

/-- Expressions with commas between them, at least one. -/
inductive Arguments : List Token → List Expr → Prop
  | last {ts : List Token} {e : Expr} : Phrase .assign ts e → Arguments ts [e]
  | more {ts us : List Token} {e : Expr} {es : List Expr} {comma : Token} :
    Phrase .assign ts e → comma.kind = .comma → Arguments us es →
    Arguments (ts ++ comma :: us) (e :: es)

end

/-! ## Parts of statements -/

/-- A part that may be absent. -/
inductive Maybe {α : Type} (part : List Token → α → Prop) : List Token → Option α → Prop
  | absent : Maybe part [] none
  | present {ts : List Token} {a : α} : part ts a → Maybe part ts (some a)

/-- Names with commas between them, at least one. -/
inductive Parameters : List Token → List Token → Prop
  | last {name : Token} : name.kind = .identifier → Parameters [name] [name]
  | more {name comma : Token} {ts names : List Token} :
    name.kind = .identifier → comma.kind = .comma → Parameters ts names →
    Parameters (name :: comma :: ts) (name :: names)

/-- The value that a variable starts with, behind an equals sign. -/
inductive Initial : List Token → Expr → Prop
  | mk {equals : Token} {ts : List Token} {e : Expr} :
    equals.kind = .equal → Phrase .assign ts e → Initial (equals :: ts) e

/-- The declaration of a variable. -/
inductive VarDecl : List Token → Stmt → Prop
  | mk {keyword name semicolon : Token} {ts : List Token} {initial : Option Expr} :
    keyword.kind = .kwVar → name.kind = .identifier → Maybe Initial ts initial →
    semicolon.kind = .semicolon →
    VarDecl (keyword :: name :: (ts ++ [semicolon])) (.declare name initial)

/-- An expression as a statement. -/
inductive ExprStmt : List Token → Stmt → Prop
  | mk {ts : List Token} {e : Expr} {semicolon : Token} :
    Phrase .assign ts e → semicolon.kind = .semicolon → ExprStmt (ts ++ [semicolon]) (.expression e)

/-- What a `for` loop starts with. -/
inductive ForInitial : List Token → Option Stmt → Prop
  | none {semicolon : Token} : semicolon.kind = .semicolon → ForInitial [semicolon] none
  | varDecl {ts : List Token} {s : Stmt} : VarDecl ts s → ForInitial ts (some s)
  | exprStmt {ts : List Token} {s : Stmt} : ExprStmt ts s → ForInitial ts (some s)

/-- The tree of a `for` loop: a `while` loop whose body runs the increment last, in a block behind
the initial statement. A part that is absent leaves no trace, but a loop without a condition tests
`true`. -/
def forTree (initial : Option Stmt) (condition increment : Option Expr) (body : Stmt) : Stmt :=
  let turn : Stmt :=
    match increment with
    | some e => .block [body, .expression e]
    | none => body
  let loop : Stmt := .loop (condition.getD (.literal (.bool true))) turn
  match initial with
  | some s => .block [s, loop]
  | none => loop

/-! ## Statements -/

/-- Which `if` an `else` may belong to. -/
inductive Dangling where
  /-- Any that is open. -/
  | any
  /-- The nearest that is open. -/
  | nearest
  deriving DecidableEq, Repr

mutual

/-- The tokens of a declaration, with its tree. `inFunction` tells whether it stands in the body of
a function. -/
inductive Declaration (rule : Dangling) : (inFunction : Bool) → List Token → Stmt → Prop
  | functionNone {inFunction : Bool} {keyword name opening closing brace : Token}
    {us : List Token} {body : List Stmt} :
    keyword.kind = .kwFun → name.kind = .identifier → opening.kind = .leftParen →
    closing.kind = .rightParen → brace.kind = .leftBrace → Body rule true us body →
    Declaration rule inFunction (keyword :: name :: opening :: closing :: brace :: us)
      (.function name [] body)
  | function {inFunction : Bool} {keyword name opening closing brace : Token}
    {ts us params : List Token} {body : List Stmt} :
    keyword.kind = .kwFun → name.kind = .identifier → opening.kind = .leftParen →
    Parameters ts params → params.length ≤ 8 → closing.kind = .rightParen →
    brace.kind = .leftBrace → Body rule true us body →
    Declaration rule inFunction (keyword :: name :: opening :: (ts ++ closing :: brace :: us))
      (.function name params body)
  | varDecl {inFunction : Bool} {ts : List Token} {s : Stmt} :
    VarDecl ts s → Declaration rule inFunction ts s
  | statement {inFunction isOpen : Bool} {ts : List Token} {s : Stmt} :
    Statement rule inFunction isOpen ts s → Declaration rule inFunction ts s

/-- The tokens of a statement, with its tree. `isOpen` tells whether it ends in an `if` without an
`else`. -/
inductive Statement (rule : Dangling) :
    (inFunction isOpen : Bool) → List Token → Stmt → Prop
  | block {inFunction : Bool} {brace : Token} {ts : List Token} {body : List Stmt} :
    brace.kind = .leftBrace → Body rule inFunction ts body →
    Statement rule inFunction false (brace :: ts) (.block body)
  | expression {inFunction : Bool} {ts : List Token} {s : Stmt} :
    ExprStmt ts s → Statement rule inFunction false ts s
  | forLoop {inFunction isOpen : Bool} {keyword opening semicolon closing : Token}
    {ts us vs ws : List Token} {initial : Option Stmt} {condition increment : Option Expr}
    {body : Stmt} :
    keyword.kind = .kwFor → opening.kind = .leftParen → ForInitial ts initial →
    Maybe (Phrase .assign) us condition → semicolon.kind = .semicolon →
    Maybe (Phrase .assign) vs increment → closing.kind = .rightParen →
    Statement rule inFunction isOpen ws body →
    Statement rule inFunction isOpen
      (keyword :: opening :: (ts ++ (us ++ semicolon :: (vs ++ closing :: ws))))
      (forTree initial condition increment body)
  | ifThen {inFunction isOpen : Bool} {keyword opening closing : Token} {ts us : List Token}
    {test : Expr} {thenDo : Stmt} :
    keyword.kind = .kwIf → opening.kind = .leftParen → Phrase .assign ts test →
    closing.kind = .rightParen → Statement rule inFunction isOpen us thenDo →
    Statement rule inFunction true (keyword :: opening :: (ts ++ closing :: us))
      (.branch test thenDo none)
  | ifElse {inFunction thenOpen isOpen : Bool} {keyword opening closing elseWord : Token}
    {ts us vs : List Token} {test : Expr} {thenDo elseDo : Stmt} :
    keyword.kind = .kwIf → opening.kind = .leftParen → Phrase .assign ts test →
    closing.kind = .rightParen → Statement rule inFunction thenOpen us thenDo →
    (rule = .nearest → thenOpen = false) → elseWord.kind = .kwElse →
    Statement rule inFunction isOpen vs elseDo →
    Statement rule inFunction isOpen
      (keyword :: opening :: (ts ++ closing :: (us ++ elseWord :: vs)))
      (.branch test thenDo (some elseDo))
  | print {inFunction : Bool} {keyword semicolon : Token} {ts : List Token} {e : Expr} :
    keyword.kind = .kwPrint → Phrase .assign ts e → semicolon.kind = .semicolon →
    Statement rule inFunction false (keyword :: (ts ++ [semicolon])) (.print e)
  | ret {keyword semicolon : Token} {ts : List Token} {value : Option Expr} :
    keyword.kind = .kwReturn → Maybe (Phrase .assign) ts value → semicolon.kind = .semicolon →
    Statement rule true false (keyword :: (ts ++ [semicolon])) (.ret keyword value)
  | whileLoop {inFunction isOpen : Bool} {keyword opening closing : Token} {ts us : List Token}
    {test : Expr} {body : Stmt} :
    keyword.kind = .kwWhile → opening.kind = .leftParen → Phrase .assign ts test →
    closing.kind = .rightParen → Statement rule inFunction isOpen us body →
    Statement rule inFunction isOpen (keyword :: opening :: (ts ++ closing :: us))
      (.loop test body)

/-- The declarations of a block and its closing brace, with their trees. -/
inductive Body (rule : Dangling) : (inFunction : Bool) → List Token → List Stmt → Prop
  | close {inFunction : Bool} {brace : Token} :
    brace.kind = .rightBrace → Body rule inFunction [brace] []
  | more {inFunction : Bool} {ts us : List Token} {s : Stmt} {body : List Stmt} :
    Declaration rule inFunction ts s → Body rule inFunction us body →
    Body rule inFunction (ts ++ us) (s :: body)

end

/-- The tokens of a program, without the end of input, with the trees of its declarations. -/
inductive Program (rule : Dangling) : List Token → List Stmt → Prop
  | empty : Program rule [] []
  | more {ts us : List Token} {s : Stmt} {program : List Stmt} :
    Declaration rule false ts s → Program rule us program →
    Program rule (ts ++ us) (s :: program)

end LoxLang.Grammar
