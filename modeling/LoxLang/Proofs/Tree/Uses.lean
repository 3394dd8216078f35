import LoxLang.Proofs.Tree.Like
import LoxLang.Proofs.Tree.Parts

set_option autoImplicit false

/-! # Uses of names

A name is used where it is read or assigned to. What a use can see follows from the text alone: the
declarations that stand before it in the same list of statements or before an enclosing statement in
its list, and the names and parameters of the enclosing functions.

Tokens of one name on one line are equal, so a token does not tell at which of its uses it stands.
`Stmt.allNumbered` makes every use stand on a line of its own, which is its number among the uses, and
all other tokens on none; that is how uses can be told apart while a program runs. -/

namespace LoxLang

/-- A use of a name, with the names of the declarations that it can see. -/
structure Use where
  token : Token
  visible : List String

/-- A use that sees more, because it stands in a wider context. -/
def Use.seeing (use : Use) (names : List String) : Use :=
  { use with visible := use.visible ++ names }

mutual

/-- The uses of names in an expression. -/
def Expr.uses : Expr → List Use
  | .assign token value => ⟨token, []⟩ :: value.uses
  | .binary left _ right => left.uses ++ right.uses
  | .call callee _ args => callee.uses ++ Expr.allUses args
  | .group inner => inner.uses
  | .logical left _ right => left.uses ++ right.uses
  | .unary _ right => right.uses
  | .name token => [⟨token, []⟩]
  | .missing | .literal _ => []

/-- The uses of names in expressions. -/
def Expr.allUses : List Expr → List Use
  | [] => []
  | e :: more => e.uses ++ Expr.allUses more

end

/-- The names that are bound in the scope of a function's body and around it by its declaration. -/
def declaredBy (name : Token) (params : List Token) : List String :=
  name.lexeme :: params.map (·.lexeme)

mutual

/-- The uses of names in a statement, with the declarations inside the statement that each can see. A
variable is not declared yet where its initial value is told. -/
def Stmt.uses : Stmt → List Use
  | .block body => Stmt.allUses body
  | .expression value => value.uses
  | .function name params body => (Stmt.allUses body).map (·.seeing (declaredBy name params))
  | .branch condition thenDo none => condition.uses ++ thenDo.uses
  | .branch condition thenDo (some elseDo) => condition.uses ++ (thenDo.uses ++ elseDo.uses)
  | .print value => value.uses
  | .ret _ value => Expr.allUses value.toList
  | .declare _ initial => Expr.allUses initial.toList
  | .loop condition body => condition.uses ++ body.uses
  | .missing => []

/-- The uses of names in statements, each of which can see what the statements before it declare. -/
def Stmt.allUses : List Stmt → List Use
  | [] => []
  | s :: more => s.uses ++ (Stmt.allUses more).map (·.seeing s.declared)

end

/-! ## Parts -/

theorem Use.seeing_seeing (use : Use) (names more : List String) :
    (use.seeing names).seeing more = use.seeing (names ++ more) := by
  simp [Use.seeing]

theorem Expr.mem_allUses {use : Use} {es : List Expr} :
    use ∈ Expr.allUses es ↔ ∃ e ∈ es, use ∈ e.uses := by
  induction es with
  | nil => simp [Expr.allUses]
  | cons e more ih => simp [Expr.allUses, ih]

/-- The uses in a part of an expression are uses in the expression. -/
theorem Expr.uses_part {e e' : Expr} (h : e' ∈ e.parts) : ∀ use ∈ e'.uses, use ∈ e.uses := by
  intro use huse
  cases e with
  | call callee paren args =>
      rw [Expr.uses, List.mem_append, Expr.mem_allUses]
      rcases List.mem_cons.mp h with rfl | h
      · exact Or.inl huse
      · exact Or.inr ⟨e', h, huse⟩
  | missing => cases h
  | literal value => cases h
  | name token => cases h
  | assign token value =>
      obtain rfl : e' = value := by simpa [Expr.parts] using h
      exact List.mem_cons_of_mem _ huse
  | group inner =>
      obtain rfl : e' = inner := by simpa [Expr.parts] using h
      exact huse
  | unary op right =>
      obtain rfl : e' = right := by simpa [Expr.parts] using h
      exact huse
  | binary left op right =>
      have h' : e' = left ∨ e' = right := by simpa [Expr.parts] using h
      rw [Expr.uses, List.mem_append]
      rcases h' with rfl | rfl
      · exact Or.inl huse
      · exact Or.inr huse
  | logical left op right =>
      have h' : e' = left ∨ e' = right := by simpa [Expr.parts] using h
      rw [Expr.uses, List.mem_append]
      rcases h' with rfl | rfl
      · exact Or.inl huse
      · exact Or.inr huse

/-- The uses in an expression of a statement are uses in the statement. -/
theorem Stmt.uses_expr {s : Stmt} {e : Expr} (h : e ∈ s.exprs) : ∀ use ∈ e.uses, use ∈ s.uses := by
  intro use huse
  cases s with
  | missing => cases h
  | block body => cases h
  | function name params body => cases h
  | expression value =>
      obtain rfl : e = value := by simpa [Stmt.exprs] using h
      exact huse
  | print value =>
      obtain rfl : e = value := by simpa [Stmt.exprs] using h
      exact huse
  | ret keyword value =>
      rw [Stmt.uses, Expr.mem_allUses]
      exact ⟨e, h, huse⟩
  | declare name initial =>
      rw [Stmt.uses, Expr.mem_allUses]
      exact ⟨e, h, huse⟩
  | loop condition body =>
      obtain rfl : e = condition := by simpa [Stmt.exprs] using h
      exact List.mem_append_left _ huse
  | branch condition thenDo elseDo =>
      obtain rfl : e = condition := by simpa [Stmt.exprs] using h
      cases elseDo with
      | none => exact List.mem_append_left _ huse
      | some elseDo => exact List.mem_append_left _ huse

/-- The uses in a branch of a statement are uses in the statement. -/
theorem Stmt.uses_branch {s s' : Stmt} (h : s' ∈ s.branches) : ∀ use ∈ s'.uses, use ∈ s.uses := by
  intro use huse
  cases s with
  | loop condition body =>
      obtain rfl : s' = body := by simpa [Stmt.branches] using h
      exact List.mem_append_right _ huse
  | branch condition thenDo elseDo =>
      cases elseDo with
      | none =>
          obtain rfl : s' = thenDo := by simpa [Stmt.branches] using h
          exact List.mem_append_right _ huse
      | some elseDo =>
          have h' : s' = thenDo ∨ s' = elseDo := by simpa [Stmt.branches] using h
          rw [Stmt.uses, List.mem_append, List.mem_append]
          rcases h' with rfl | rfl
          · exact Or.inr (Or.inl huse)
          · exact Or.inr (Or.inr huse)
  | _ => cases h

/-! ## Numbering -/

/-- A token with a number for its line. -/
def Token.numbered (token : Token) (n : Nat) : Token :=
  { token with line := n }

/-- A token on a line that is no number. -/
def Token.unnumbered (token : Token) : Token :=
  { token with line := -1 }

/-- A use whose token has a number for its line. -/
def Use.numbered (use : Use) (n : Nat) : Use :=
  { use with token := use.token.numbered n }

/-- Uses that are numbered in turn. -/
def Use.numberFrom (n : Nat) (uses : List Use) : List Use :=
  uses.mapIdx fun i use => use.numbered (n + i)

mutual

/-- An expression whose uses are numbered in turn. -/
def Expr.numbered (n : Nat) : Expr → Expr
  | .assign token value => .assign (token.numbered n) (value.numbered (n + 1))
  | .binary left op right =>
    .binary (left.numbered n) op.unnumbered (right.numbered (n + left.uses.length))
  | .call callee paren args =>
    .call (callee.numbered n) paren.unnumbered (Expr.allNumbered (n + callee.uses.length) args)
  | .group inner => .group (inner.numbered n)
  | .logical left op right =>
    .logical (left.numbered n) op.unnumbered (right.numbered (n + left.uses.length))
  | .unary op right => .unary op.unnumbered (right.numbered n)
  | .name token => .name (token.numbered n)
  | .missing => .missing
  | .literal value => .literal value

/-- Expressions whose uses are numbered in turn. -/
def Expr.allNumbered (n : Nat) : List Expr → List Expr
  | [] => []
  | e :: more => e.numbered n :: Expr.allNumbered (n + e.uses.length) more

end

mutual

/-- A statement whose uses are numbered in turn. -/
def Stmt.numbered (n : Nat) : Stmt → Stmt
  | .block body => .block (Stmt.allNumbered n body)
  | .expression value => .expression (value.numbered n)
  | .function name params body =>
    .function name.unnumbered (params.map (·.unnumbered)) (Stmt.allNumbered n body)
  | .branch condition thenDo none =>
    .branch (condition.numbered n) (thenDo.numbered (n + condition.uses.length)) none
  | .branch condition thenDo (some elseDo) =>
    .branch (condition.numbered n) (thenDo.numbered (n + condition.uses.length))
      (some (elseDo.numbered (n + condition.uses.length + thenDo.uses.length)))
  | .print value => .print (value.numbered n)
  | .ret keyword value => .ret keyword.unnumbered (value.map (·.numbered n))
  | .declare name initial => .declare name.unnumbered (initial.map (·.numbered n))
  | .loop condition body =>
    .loop (condition.numbered n) (body.numbered (n + condition.uses.length))
  | .missing => .missing

/-- Statements whose uses are numbered in turn. -/
def Stmt.allNumbered (n : Nat) : List Stmt → List Stmt
  | [] => []
  | s :: more => s.numbered n :: Stmt.allNumbered (n + s.uses.length) more

end

namespace Use

theorem numberFrom_cons (n : Nat) (use : Use) (more : List Use) :
    numberFrom n (use :: more) = use.numbered n :: numberFrom (n + 1) more := by
  simp only [numberFrom, List.mapIdx_cons, Nat.add_zero]
  congr 2
  funext i u
  rw [Nat.add_right_comm, Nat.add_assoc]

theorem numberFrom_append (n : Nat) (uses more : List Use) :
    numberFrom n (uses ++ more) = numberFrom n uses ++ numberFrom (n + uses.length) more := by
  induction uses generalizing n with
  | nil => rfl
  | cons use uses ih =>
      rw [List.cons_append, numberFrom_cons, numberFrom_cons, ih, List.length_cons,
        Nat.add_right_comm, Nat.add_assoc]
      rfl

/-- What a use can see has nothing to do with its number. -/
theorem numberFrom_seeing (n : Nat) (uses : List Use) (names : List String) :
    numberFrom n (uses.map (·.seeing names)) = (numberFrom n uses).map (·.seeing names) := by
  induction uses generalizing n with
  | nil => rfl
  | cons use uses ih =>
      rw [List.map_cons, numberFrom_cons, numberFrom_cons, ih]
      rfl

end Use

mutual

theorem Expr.uses_numbered (n : Nat) : ∀ e : Expr, (e.numbered n).uses = Use.numberFrom n e.uses
  | .assign token value => by
      rw [Expr.numbered, Expr.uses, Expr.uses, value.uses_numbered, Use.numberFrom_cons]
      rfl
  | .binary left op right => by
      rw [Expr.numbered, Expr.uses, Expr.uses, left.uses_numbered, right.uses_numbered,
        Use.numberFrom_append]
  | .call callee paren args => by
      rw [Expr.numbered, Expr.uses, Expr.uses, callee.uses_numbered, Expr.allUses_numbered,
        Use.numberFrom_append]
  | .group inner => by
      rw [Expr.numbered, Expr.uses, Expr.uses, inner.uses_numbered]
  | .logical left op right => by
      rw [Expr.numbered, Expr.uses, Expr.uses, left.uses_numbered, right.uses_numbered,
        Use.numberFrom_append]
  | .unary op right => by
      rw [Expr.numbered, Expr.uses, Expr.uses, right.uses_numbered]
  | .name token => by
      rw [Expr.numbered, Expr.uses, Expr.uses, Use.numberFrom_cons]
      rfl
  | .missing => rfl
  | .literal _ => rfl

theorem Expr.allUses_numbered (n : Nat) :
    ∀ es : List Expr, Expr.allUses (Expr.allNumbered n es) = Use.numberFrom n (Expr.allUses es)
  | [] => rfl
  | e :: more => by
      rw [Expr.allNumbered, Expr.allUses, Expr.allUses, e.uses_numbered, Expr.allUses_numbered,
        Use.numberFrom_append]

end

theorem Expr.uses_numbered_option (n : Nat) (e : Option Expr) :
    Expr.allUses (e.map (·.numbered n)).toList = Use.numberFrom n (Expr.allUses e.toList) := by
  cases e with
  | none => rfl
  | some e =>
      have hone := Expr.allUses_numbered n [e]
      exact hone

theorem Stmt.declared_numbered (n : Nat) (s : Stmt) : (s.numbered n).declared = s.declared := by
  cases s with
  | branch condition thenDo elseDo => cases elseDo <;> rfl
  | _ => rfl

theorem declaredBy_unnumbered (name : Token) (params : List Token) :
    declaredBy name.unnumbered (params.map (·.unnumbered)) = declaredBy name params := by
  rw [declaredBy, declaredBy, List.map_map]
  rfl

mutual

theorem Stmt.uses_numbered (n : Nat) : ∀ s : Stmt, (s.numbered n).uses = Use.numberFrom n s.uses
  | .block body => by
      rw [Stmt.numbered, Stmt.uses, Stmt.uses, Stmt.allUses_numbered]
  | .expression value => by
      rw [Stmt.numbered, Stmt.uses, Stmt.uses, value.uses_numbered]
  | .function name params body => by
      rw [Stmt.numbered, Stmt.uses, Stmt.uses, Stmt.allUses_numbered, declaredBy_unnumbered,
        Use.numberFrom_seeing]
  | .branch condition thenDo none => by
      rw [Stmt.numbered, Stmt.uses, Stmt.uses, condition.uses_numbered, thenDo.uses_numbered,
        Use.numberFrom_append]
  | .branch condition thenDo (some elseDo) => by
      rw [Stmt.numbered, Stmt.uses, Stmt.uses, condition.uses_numbered, thenDo.uses_numbered,
        elseDo.uses_numbered, Use.numberFrom_append, Use.numberFrom_append]
  | .print value => by
      rw [Stmt.numbered, Stmt.uses, Stmt.uses, value.uses_numbered]
  | .ret keyword value => by
      rw [Stmt.numbered, Stmt.uses, Stmt.uses, Expr.uses_numbered_option]
  | .declare name initial => by
      rw [Stmt.numbered, Stmt.uses, Stmt.uses, Expr.uses_numbered_option]
  | .loop condition body => by
      rw [Stmt.numbered, Stmt.uses, Stmt.uses, condition.uses_numbered, body.uses_numbered,
        Use.numberFrom_append]
  | .missing => rfl

theorem Stmt.allUses_numbered (n : Nat) :
    ∀ ss : List Stmt, Stmt.allUses (Stmt.allNumbered n ss) = Use.numberFrom n (Stmt.allUses ss)
  | [] => rfl
  | s :: more => by
      rw [Stmt.allNumbered, Stmt.allUses, Stmt.allUses, s.uses_numbered, s.declared_numbered,
        Stmt.allUses_numbered, Use.numberFrom_append, Use.numberFrom_seeing]

end

/-! ## Numbered trees are like the trees they come from -/

/-- What numbering makes of a token: one without a number, or with that of a use where it stands. -/
def Likeness.numbering (ts : List Token) : Likeness where
  token := fun _ t u => u = t.unnumbered ∨ ∃ i, ts[i]? = some t ∧ u = t.numbered i
  holes := True

/-- The tokens of some uses are those of all uses from some number on. -/
def Use.StandAt (ts : List Token) (n : Nat) (uses : List Use) : Prop :=
  uses.map (·.token) <+: ts.drop n

namespace Use.StandAt

variable {ts : List Token} {n : Nat} {use : Use} {uses more : List Use}

theorem left (h : StandAt ts n (uses ++ more)) : StandAt ts n uses := by
  rw [StandAt, List.map_append] at h
  exact (List.prefix_append _ _).trans h

theorem right (h : StandAt ts n (uses ++ more)) : StandAt ts (n + uses.length) more := by
  obtain ⟨rest, hrest⟩ := h
  refine ⟨rest, ?_⟩
  rw [← List.drop_drop, ← hrest, List.map_append, List.append_assoc, List.drop_left' (by simp)]

theorem cons (h : StandAt ts n (use :: more)) : ts[n]? = some use.token ∧ StandAt ts (n + 1) more := by
  constructor
  · obtain ⟨rest, hrest⟩ := h
    have hhead : (ts.drop n)[0]? = some use.token := by rw [← hrest]; rfl
    simpa using hhead
  · have happend : StandAt ts n ([use] ++ more) := h
    exact happend.right

theorem of_seeing {names : List String} (h : StandAt ts n (uses.map (·.seeing names))) :
    StandAt ts n uses := by
  rw [StandAt, List.map_map] at h
  exact h

end Use.StandAt

section
variable {ts : List Token}

mutual

theorem Expr.like_numbered :
    ∀ (e : Expr) {n : Nat}, Use.StandAt ts n e.uses → e.Like (.numbering ts) (e.numbered n)
  | .assign token value, n, h => by
      rw [Expr.uses] at h
      exact .assign (Or.inr ⟨n, h.cons.1, rfl⟩) (value.like_numbered h.cons.2)
  | .binary left op right, n, h => by
      rw [Expr.uses] at h
      exact .binary (left.like_numbered h.left) (Or.inl rfl) (right.like_numbered h.right)
  | .call callee paren args, n, h => by
      rw [Expr.uses] at h
      exact .call (callee.like_numbered h.left) (Or.inl rfl) (Expr.likeAll_numbered args h.right)
  | .group inner, n, h => .group (inner.like_numbered h)
  | .logical left op right, n, h => by
      rw [Expr.uses] at h
      exact .logical (left.like_numbered h.left) (Or.inl rfl) (right.like_numbered h.right)
  | .unary op right, n, h => .unary (Or.inl rfl) (right.like_numbered h)
  | .name token, n, h => by
      rw [Expr.uses] at h
      exact .name (Or.inr ⟨n, h.cons.1, rfl⟩)
  | .missing, _, _ => .missing trivial
  | .literal _, _, _ => .literal

theorem Expr.likeAll_numbered :
    ∀ (es : List Expr) {n : Nat}, Use.StandAt ts n (Expr.allUses es) →
      List.Forall₂ (Expr.Like (.numbering ts)) es (Expr.allNumbered n es)
  | [], _, _ => .nil
  | e :: more, n, h => by
      rw [Expr.allUses] at h
      exact .cons (e.like_numbered h.left) (Expr.likeAll_numbered more h.right)

end

theorem Expr.likeOption_numbered (e : Option Expr) {n : Nat}
    (h : Use.StandAt ts n (Expr.allUses e.toList)) :
    Option.Rel (Expr.Like (.numbering ts)) e (e.map (·.numbered n)) := by
  cases e with
  | none => exact .none
  | some e => exact .some (e.like_numbered h.left)

theorem tokens_unnumbered (params : List Token) :
    List.Forall₂ ((Likeness.numbering ts).token .name) params (params.map (·.unnumbered)) := by
  induction params with
  | nil => exact .nil
  | cons param params ih => exact .cons (Or.inl rfl) ih

mutual

theorem Stmt.like_numbered :
    ∀ (s : Stmt) {n : Nat}, Use.StandAt ts n s.uses → s.Like (.numbering ts) (s.numbered n)
  | .block body, n, h => by
      rw [Stmt.uses] at h
      exact .block (Stmt.likeAll_numbered body h)
  | .expression value, n, h => .expression (value.like_numbered h)
  | .function name params body, n, h => by
      rw [Stmt.uses] at h
      exact .function (Or.inl rfl) (tokens_unnumbered params)
        (Stmt.likeAll_numbered body h.of_seeing)
  | .branch condition thenDo none, n, h => by
      rw [Stmt.uses] at h
      exact .branch (condition.like_numbered h.left) (thenDo.like_numbered h.right) .none
  | .branch condition thenDo (some elseDo), n, h => by
      rw [Stmt.uses] at h
      exact .branch (condition.like_numbered h.left) (thenDo.like_numbered h.right.left)
        (.some (elseDo.like_numbered h.right.right))
  | .print value, n, h => .print (value.like_numbered h)
  | .ret keyword value, n, h => .ret (Or.inl rfl) (Expr.likeOption_numbered value h)
  | .declare name initial, n, h => .declare (Or.inl rfl) (Expr.likeOption_numbered initial h)
  | .loop condition body, n, h => by
      rw [Stmt.uses] at h
      exact .loop (condition.like_numbered h.left) (body.like_numbered h.right)
  | .missing, _, _ => .missing trivial

theorem Stmt.likeAll_numbered :
    ∀ (ss : List Stmt) {n : Nat}, Use.StandAt ts n (Stmt.allUses ss) →
      List.Forall₂ (Stmt.Like (.numbering ts)) ss (Stmt.allNumbered n ss)
  | [], _, _ => .nil
  | s :: more, n, h => by
      rw [Stmt.allUses] at h
      exact .cons (s.like_numbered h.left) (Stmt.likeAll_numbered more h.right.of_seeing)

end

end

end LoxLang
