import LoxLang.Proofs.Tree.Like

set_option autoImplicit false

/-! # The parts of a tree

What a node is made of, told apart by the scope in which it is evaluated: expressions are evaluated in
the scope of the node they stand in, and so are the branches of a statement, while the statements of a
block and the body of a function have a scope of their own. -/

namespace LoxLang

/-- The expressions right inside an expression. -/
def Expr.parts : Expr → List Expr
  | .assign _ value => [value]
  | .binary left _ right => [left, right]
  | .call callee _ args => callee :: args
  | .group inner => [inner]
  | .logical left _ right => [left, right]
  | .unary _ right => [right]
  | .missing | .literal _ | .name _ => []

/-- An expression that is another one, or stands anywhere inside it. -/
inductive Expr.Inside : Expr → Expr → Prop
  | here {e : Expr} : Inside e e
  | deeper {e part outer : Expr} : part ∈ outer.parts → Inside e part → Inside e outer

namespace Stmt

/-- The expressions right inside a statement. -/
def exprs : Stmt → List Expr
  | .expression value => [value]
  | .branch condition _ _ => [condition]
  | .print value => [value]
  | .ret _ value => value.toList
  | .declare _ initial => initial.toList
  | .loop condition _ => [condition]
  | .missing | .block _ | .function _ _ _ => []

/-- The statements right inside a statement that are executed in the same scope. -/
def branches : Stmt → List Stmt
  | .branch _ thenDo elseDo => thenDo :: elseDo.toList
  | .loop _ body => [body]
  | _ => []

/-- All statements right inside a statement. -/
def inner : Stmt → List Stmt
  | .block body => body
  | .function _ _ body => body
  | s => s.branches

/-- A statement that stands among some statements, or anywhere inside one of them. -/
inductive Inside : Stmt → List Stmt → Prop
  | here {s : Stmt} {stmts : List Stmt} : s ∈ stmts → Inside s stmts
  | deeper {s outer : Stmt} {stmts : List Stmt} :
    outer ∈ stmts → Inside s outer.inner → Inside s stmts

/-- An expression that stands anywhere in some statements. -/
def Shows (stmts : List Stmt) (e : Expr) : Prop :=
  ∃ s, Inside s stmts ∧ ∃ outer ∈ s.exprs, e.Inside outer

/-- The names that a statement itself declares. -/
def declared : Stmt → List String
  | .function name _ _ => [name.lexeme]
  | .declare name _ => [name.lexeme]
  | _ => []

/-- The names that a statement may declare in the scope in which it is executed, itself or by one of
its branches. -/
def gains : Stmt → List String
  | .function name _ _ => [name.lexeme]
  | .declare name _ => [name.lexeme]
  | .branch _ thenDo none => thenDo.gains
  | .branch _ thenDo (some elseDo) => thenDo.gains ++ elseDo.gains
  | .loop _ body => body.gains
  | _ => []

/-- The names that statements may declare in the scope in which they are executed. -/
def allGains (stmts : List Stmt) : List String :=
  stmts.flatMap gains

end Stmt

/-! ## Going through the parts -/

theorem Expr.sizeOf_part {e part : Expr} (h : part ∈ e.parts) : sizeOf part < sizeOf e := by
  cases e with
  | missing | literal _ | name _ => cases h
  | assign _ _ | group _ | unary _ _ =>
      rw [List.mem_singleton.mp h]
      simp only [assign.sizeOf_spec, group.sizeOf_spec, unary.sizeOf_spec]
      omega
  | binary _ _ _ | logical _ _ _ =>
      simp only [binary.sizeOf_spec, logical.sizeOf_spec]
      rcases List.mem_pair.mp h with rfl | rfl <;> omega
  | call callee paren args =>
      simp only [call.sizeOf_spec]
      rcases List.mem_cons.mp h with rfl | h
      · omega
      · have := List.sizeOf_lt_of_mem h
        omega

theorem Expr.parts_induction {motive : Expr → Prop}
    (step : ∀ e, (∀ part ∈ e.parts, motive part) → motive e) (e : Expr) : motive e :=
  step e fun part _ => parts_induction step part
termination_by sizeOf e
decreasing_by exact Expr.sizeOf_part ‹_›

theorem Expr.Like.parts {R : Likeness} {e e' : Expr} (h : e.Like R e') :
    List.Forall₂ (Expr.Like R) e.parts e'.parts := by
  cases h with
  | missing _ | literal | name _ => exact .nil
  | assign _ h | group h | unary _ h => exact .cons h .nil
  | binary hl _ hr | logical hl _ hr => exact .cons hl (.cons hr .nil)
  | call hf _ hargs => exact .cons hf hargs

theorem Expr.Inside.trans {e middle outer : Expr} (h : e.Inside middle) (h' : middle.Inside outer) :
    e.Inside outer := by
  induction h' with
  | here => exact h
  | deeper hpart _ ih => exact .deeper hpart ih

theorem Expr.Inside.like {R : Likeness} {e outer : Expr} (h : e.Inside outer)
    (hlike : outer.Like R outer) : e.Like R e := by
  induction h with
  | here => exact hlike
  | deeper hpart _ ih => exact ih (List.forall₂_same.mp hlike.parts _ hpart)

namespace Stmt

theorem forall₂_toList {α : Type} {R : α → α → Prop} {o o' : Option α} (h : Option.Rel R o o') :
    List.Forall₂ R o.toList o'.toList := by
  cases h with
  | none => exact .nil
  | some h => exact .cons h .nil

theorem Like.exprs {R : Likeness} {s s' : Stmt} (h : s.Like R s') :
    List.Forall₂ (Expr.Like R) s.exprs s'.exprs := by
  cases h with
  | missing _ | block _ | function _ _ _ => exact .nil
  | expression h | print h | branch h _ _ | loop h _ => exact .cons h .nil
  | ret _ h | declare _ h => exact forall₂_toList h

theorem Like.inner {R : Likeness} {s s' : Stmt} (h : s.Like R s') :
    List.Forall₂ (Stmt.Like R) s.inner s'.inner := by
  cases h with
  | missing _ | expression _ | print _ | ret _ _ | declare _ _ => exact .nil
  | block h | function _ _ h => exact h
  | branch _ h ho => exact .cons h (forall₂_toList ho)
  | loop _ h => exact .cons h .nil

theorem Inside.like {R : Likeness} {s : Stmt} {stmts : List Stmt} (h : s.Inside stmts)
    (hlike : List.Forall₂ (Stmt.Like R) stmts stmts) : s.Like R s := by
  induction h with
  | here hmem => exact List.forall₂_same.mp hlike _ hmem
  | deeper hmem _ ih => exact ih (List.forall₂_same.mp hlike _ hmem).inner

/-- What stands in statements that are alike to themselves is alike to itself. -/
theorem Shows.like {R : Likeness} {e : Expr} {stmts : List Stmt} (h : Shows stmts e)
    (hlike : List.Forall₂ (Stmt.Like R) stmts stmts) : e.Like R e := by
  obtain ⟨s, hs, outer, houter, he⟩ := h
  exact he.like (List.forall₂_same.mp (hs.like hlike).exprs _ houter)

end Stmt

end LoxLang
