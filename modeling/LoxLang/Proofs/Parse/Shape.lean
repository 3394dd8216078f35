import LoxLang.Proofs.Parse.Accepts
import LoxLang.Proofs.Tree.Parts

set_option autoImplicit false

/-! # Where declarations stand

Declarations are read only as members of a list: on the top level, in a block or in the body of a
function. The branches of an `if` and the body of a loop are read by a rule that gives no declaration.
So a statement that is executed in the scope of the one around it declares nothing, in all trees that
are read, whatever has been reported (`parse?_orderly`). In such trees the names that a statement may
add to its scope are those that it declares itself (`Stmt.Orderly.gains_eq`). -/

namespace LoxLang

namespace Stmt

/-- No statement, however deep inside, has a declaration for a branch. -/
def Orderly (stmts : List Stmt) : Prop :=
  ∀ s, Inside s stmts → ∀ b ∈ s.branches, b.declared = []

theorem inside_append {s : Stmt} {stmts more : List Stmt} :
    Inside s (stmts ++ more) ↔ Inside s stmts ∨ Inside s more := by
  constructor
  · intro h
    cases h with
    | here hmem => exact (List.mem_append.1 hmem).imp .here .here
    | deeper hmem hinner =>
        exact (List.mem_append.1 hmem).imp (fun h => .deeper h hinner) fun h => .deeper h hinner
  · rintro (h | h)
    · cases h with
      | here hmem => exact .here (List.mem_append_left _ hmem)
      | deeper hmem hinner => exact .deeper (List.mem_append_left _ hmem) hinner
    · cases h with
      | here hmem => exact .here (List.mem_append_right _ hmem)
      | deeper hmem hinner => exact .deeper (List.mem_append_right _ hmem) hinner

theorem inside_singleton {s outer : Stmt} : Inside s [outer] ↔ s = outer ∨ Inside s outer.inner := by
  constructor
  · intro h
    cases h with
    | here hmem => exact Or.inl (List.mem_singleton.1 hmem)
    | deeper hmem hinner =>
        rw [List.mem_singleton.1 hmem] at hinner
        exact Or.inr hinner
  · rintro (rfl | hinner)
    · exact .here (List.mem_singleton_self _)
    · exact .deeper (List.mem_singleton_self _) hinner

theorem orderly_nil : Orderly [] := by
  intro s h
  cases h with
  | here hmem => cases hmem
  | deeper hmem _ => cases hmem

theorem orderly_append {stmts more : List Stmt} :
    Orderly (stmts ++ more) ↔ Orderly stmts ∧ Orderly more := by
  simp only [Orderly, inside_append, or_imp, forall_and]

theorem orderly_singleton {s : Stmt} :
    Orderly [s] ↔ (∀ b ∈ s.branches, b.declared = []) ∧ Orderly s.inner := by
  simp only [Orderly, inside_singleton, or_imp, forall_and, forall_eq]

theorem Orderly.inside {s : Stmt} {stmts : List Stmt} (h : Orderly stmts) (hs : Inside s stmts) :
    Orderly [s] := by
  induction hs with
  | here hmem =>
      intro t ht
      rcases inside_singleton.1 ht with rfl | hinner
      · exact h t (.here hmem)
      · exact h t (.deeper hmem hinner)
  | deeper hmem _ ih => exact ih fun t ht => h t (.deeper hmem ht)

theorem mem_inner_of_branch {s b : Stmt} (h : b ∈ s.branches) : b ∈ s.inner := by
  cases s with
  | block body => cases h
  | function name params body => cases h
  | _ => exact h

theorem Orderly.branch {s b : Stmt} (h : Orderly [s]) (hb : b ∈ s.branches) :
    b.declared = [] ∧ Orderly [b] :=
  ⟨(orderly_singleton.1 h).1 b hb, (orderly_singleton.1 h).2.inside (.here (mem_inner_of_branch hb))⟩

/-- In such trees a statement adds no names by its branches. -/
theorem Orderly.gains_eq {s : Stmt} (h : Orderly [s]) : s.gains = s.declared := by
  fun_induction Stmt.gains s with
  | case1 name params body => rfl
  | case2 name initial => rfl
  | case3 condition thenDo ih =>
      have hthen := h.branch (b := thenDo) (by simp [branches])
      rw [ih hthen.2, hthen.1]
      rfl
  | case4 condition thenDo elseDo ihThen ihElse =>
      have hthen := h.branch (b := thenDo) (by simp [branches])
      have helse := h.branch (b := elseDo) (by simp [branches])
      rw [ihThen hthen.2, ihElse helse.2, hthen.1, helse.1]
      rfl
  | case5 condition body ih =>
      have hbody := h.branch (b := body) (by simp [branches])
      rw [ih hbody.2, hbody.1]
      rfl
  | case6 s hfunction hdeclare =>
      cases s with
      | function name params body => exact (hfunction name params body rfl).elim
      | declare name initial => exact (hdeclare name initial rfl).elim
      | _ => rfl

/-- What a `for` loop can begin with. -/
inductive Begins : Stmt → Prop
  | declare (name : Token) (initial : Option Expr) : Begins (.declare name initial)
  | expression (value : Expr) : Begins (.expression value)

theorem orderly_of_flat {s : Stmt} (hbranches : s.branches = []) (hinner : s.inner = []) :
    Orderly [s] := by
  rw [orderly_singleton, hbranches, hinner]
  exact ⟨fun _ hb => absurd hb List.not_mem_nil, orderly_nil⟩

theorem Begins.orderly {s : Stmt} (h : Begins s) : Orderly [s] := by
  cases h with
  | declare name initial => exact orderly_of_flat rfl rfl
  | expression value => exact orderly_of_flat rfl rfl

end Stmt

namespace Parse

open Stmt

/-- The rule gives nothing but what is good, wherever it is applied. -/
def Gives {α : Type} (good : α → Prop) (r : Rule α) : Prop :=
  ∀ c a after, r c = .ok a after → good a

section
variable {α β : Type} {good : α → Prop} {goal : β → Prop}

theorem gives_pure {a : α} (h : good a) : Gives good (pure a) := by
  rintro c b after ⟨⟩
  exact h

theorem gives_throw (halt : Halt) : Gives good (throw halt) := by
  rintro c a after ⟨⟩

theorem Gives.bind {r : Rule α} {f : α → Rule β} (hr : Gives good r)
    (hf : ∀ a, good a → Gives goal (f a)) : Gives goal (r >>= f) := by
  intro c b after h
  rw [bind_run] at h
  cases hrun : r c with
  | ok a mid =>
      rw [hrun] at h
      exact hf a (hr c a mid hrun) mid b after h
  | error halt mid =>
      rw [hrun] at h
      cases h

/-- What a rule gives does not matter. -/
theorem gives_after {r : Rule α} {f : α → Rule β} (hf : ∀ a, Gives goal (f a)) :
    Gives goal (r >>= f) := by
  have hany : Gives (fun _ => True) r := fun _ _ _ _ => trivial
  exact hany.bind fun a _ => hf a

theorem Gives.map {r : Rule α} {f : α → β} (hr : Gives good r) (hf : ∀ a, good a → goal (f a)) :
    Gives goal (f <$> r) := by
  intro c b after h
  rw [map_run] at h
  cases hrun : r c with
  | ok a mid =>
      rw [hrun] at h
      cases h
      exact hf a (hr c a _ hrun)
  | error halt mid =>
      rw [hrun] at h
      cases h

theorem gives_behind {kind : Kind} {absent : α} {part : Rule α} (habsent : good absent)
    (hpart : Gives good part) : Gives good (behind kind absent part) := by
  refine gives_after fun taken => ?_
  cases taken with
  | true => exact hpart
  | false => exact gives_pure habsent

end

/-- A statement that declares nothing, with declarations only where they belong. -/
def Plain (s : Stmt) : Prop :=
  s.declared = [] ∧ Orderly [s]

theorem orderly_toList {o : Option Stmt} (h : ∀ s ∈ o, Orderly [s]) : Orderly o.toList := by
  cases o with
  | none => exact orderly_nil
  | some s => exact h s rfl

theorem plain_block {body : List Stmt} (h : Orderly body) : Plain (.block body) :=
  ⟨rfl, orderly_singleton.2 ⟨fun _ hb => absurd hb List.not_mem_nil, h⟩⟩

theorem plain_loop {condition : Expr} {body : Stmt} (h : Plain body) :
    Plain (.loop condition body) := by
  refine ⟨rfl, orderly_singleton.2 ⟨?_, h.2⟩⟩
  intro b hb
  rw [List.mem_singleton.1 hb]
  exact h.1

theorem plain_branch {condition : Expr} {thenDo : Stmt} {elseDo : Option Stmt} (hthen : Plain thenDo)
    (helse : ∀ s ∈ elseDo, Plain s) : Plain (.branch condition thenDo elseDo) := by
  have hbranches : ∀ b ∈ (Stmt.branch condition thenDo elseDo).branches, Plain b := by
    intro b hb
    rcases List.mem_cons.1 hb with rfl | hb
    · exact hthen
    · exact helse b (Option.mem_toList.1 hb)
  refine ⟨rfl, fun t ht => ?_⟩
  rcases inside_singleton.1 ht with rfl | hinner
  · exact fun b hb => (hbranches b hb).1
  · cases hinner with
    | here hmem => exact (hbranches t hmem).2 t (.here (List.mem_singleton_self t))
    | deeper hmem hdeeper =>
        exact (hbranches _ hmem).2 t (.deeper (List.mem_singleton_self _) hdeeper)

/-- A `for` loop is a loop, or a block with what comes before it. -/
theorem plain_forLoop {clauses : ForClauses} {body : Stmt} (hbody : Plain body)
    (hinitial : ∀ s ∈ clauses.initial, Orderly [s]) : Plain (clauses.loop body) := by
  unfold ForClauses.loop
  dsimp only
  have hturn : ∀ increment, Plain (.block [body, .expression increment]) := fun increment =>
    plain_block (orderly_append.2 ⟨hbody.2, orderly_of_flat rfl rfl⟩)
  cases hfirst : clauses.initial with
  | none =>
      cases clauses.increment with
      | none => exact plain_loop hbody
      | some increment => exact plain_loop (hturn increment)
  | some initial =>
      have hblock : ∀ loop, Plain loop → Plain (.block [initial, loop]) := fun loop hloop =>
        plain_block (orderly_append.2 ⟨hinitial initial hfirst, hloop.2⟩)
      cases clauses.increment with
      | none => exact hblock _ (plain_loop hbody)
      | some increment => exact hblock _ (plain_loop (hturn increment))

/-! ## The rules -/

theorem gives_variableDeclaration : Gives Begins variableDeclaration :=
  gives_after fun name => gives_after fun initial => gives_after fun _ =>
    gives_pure (.declare name initial)

theorem gives_forClauses : Gives (fun clauses => ∀ s ∈ clauses.initial, Begins s) forClauses := by
  have hinitial : Gives (fun initial => ∀ s ∈ initial, Begins s) forInitial := by
    refine gives_after fun token => ?_
    split
    case h_1 => exact gives_after fun _ => gives_pure fun _ hs => absurd hs (Option.not_mem_none _)
    case h_2 =>
        refine gives_after fun _ => gives_variableDeclaration.map fun s hs => ?_
        rintro s' ⟨⟩
        exact hs
    case h_3 =>
        have hvalue : Gives (fun _ => True) (exprThenSemicolon "expression") :=
          fun _ _ _ _ => trivial
        refine hvalue.map fun value _ => ?_
        rintro s' ⟨⟩
        exact .expression value
  refine gives_after fun _ => hinitial.bind fun initial h => ?_
  exact gives_after fun _ => gives_after fun _ => gives_after fun _ => gives_after fun _ =>
    gives_pure h

theorem gives_orSync {good : Stmt → Prop} {r : Rule Stmt} (h : Gives good r) :
    Gives (fun o => ∀ s ∈ o, good s) (orSync r) := by
  intro c o after hrun
  unfold orSync at hrun
  split at hrun
  case h_1 s after' hs =>
      cases hrun
      rintro s' ⟨⟩
      exact h c s after hs
  case h_2 =>
      split at hrun
      case h_1 =>
          cases hrun
          rintro s' ⟨⟩
      case h_2 => cases hrun
  case h_3 => cases hrun

/-- What the rules for statements give, with some budget. -/
structure Shapely (n : Nat) : Prop where
  declaration : ∀ inFunction, Gives (fun s => Orderly [s]) (declaration n inFunction)
  statement : ∀ inFunction, Gives Plain (statement n inFunction)
  block : ∀ inFunction, Gives Orderly (block n inFunction)

section
variable {n : Nat} (ih : Shapely n) (inFunction : Bool)

include ih

theorem gives_declaration : Gives (fun s => Orderly [s]) (declaration (n + 1) inFunction) := by
  rw [declaration]
  refine gives_after fun token => ?_
  split
  case h_1 =>
      refine gives_after fun _ => gives_after fun head => (ih.block true).bind fun body hbody => ?_
      exact gives_pure (orderly_singleton.2 ⟨fun _ hb => absurd hb List.not_mem_nil, hbody⟩)
  case h_2 =>
      refine gives_after fun _ c s after hrun => ?_
      exact (gives_variableDeclaration c s after hrun).orderly
  case h_3 =>
      intro c s after hrun
      exact (ih.statement inFunction c s after hrun).2

/-- The rule for statements never turns to the rule for declarations, but for the inside of blocks. -/
theorem gives_statement : Gives Plain (statement (n + 1) inFunction) := by
  have hbody : Gives Plain (statement n inFunction) := ih.statement inFunction
  rw [statement]
  refine gives_after fun token => ?_
  split
  case h_1 =>
      refine gives_after fun _ => gives_forClauses.bind fun clauses hclauses => ?_
      refine hbody.bind fun body hplain => gives_pure (plain_forLoop hplain fun s hs => ?_)
      exact (hclauses s hs).orderly
  case h_2 =>
      refine gives_after fun _ => gives_after fun test => hbody.bind fun thenDo hthen => ?_
      have helse : Gives (fun elseDo => ∀ s ∈ elseDo, Plain s)
          (behind .kwElse none (some <$> statement n inFunction)) := by
        refine gives_behind (fun _ hs => absurd hs (Option.not_mem_none _)) (hbody.map fun s hs => ?_)
        rintro s' ⟨⟩
        exact hs
      exact helse.bind fun elseDo helse => gives_pure (plain_branch hthen helse)
  case h_3 =>
      exact gives_after fun _ => gives_after fun _ => gives_pure ⟨rfl, orderly_of_flat rfl rfl⟩
  case h_4 =>
      exact gives_after fun _ => gives_after fun _ => gives_after fun _ => gives_after fun _ =>
        gives_pure ⟨rfl, orderly_of_flat rfl rfl⟩
  case h_5 =>
      refine gives_after fun _ => gives_after fun test => hbody.bind fun body hplain => ?_
      exact gives_pure (plain_loop hplain)
  case h_6 =>
      refine gives_after fun _ => (ih.block inFunction).bind fun body horderly => ?_
      exact gives_pure (plain_block horderly)
  case h_7 => exact gives_after fun _ => gives_pure ⟨rfl, orderly_of_flat rfl rfl⟩

theorem gives_block : Gives Orderly (block (n + 1) inFunction) := by
  rw [block]
  refine gives_after fun token => ?_
  split
  case isTrue => exact gives_after fun _ => gives_pure orderly_nil
  case isFalse =>
      refine (gives_orSync (ih.declaration inFunction)).bind fun stmt hstmt => ?_
      refine (ih.block inFunction).bind fun more hmore => gives_pure ?_
      exact orderly_append.2 ⟨orderly_toList hstmt, hmore⟩

end

theorem shapely (n : Nat) : Shapely n := by
  induction n with
  | zero =>
      constructor
      · intro inFunction
        rw [declaration]
        exact gives_throw _
      · intro inFunction
        rw [statement]
        exact gives_throw _
      · intro inFunction
        rw [block]
        exact gives_throw _
  | succ n ih => exact ⟨gives_declaration ih, gives_statement ih, gives_block ih⟩

theorem gives_program (n : Nat) : Gives Orderly (program n) := by
  induction n with
  | zero =>
      rw [program]
      exact gives_throw _
  | succ n ih =>
      rw [program]
      refine gives_after fun atEnd => ?_
      cases atEnd with
      | true => exact gives_pure orderly_nil
      | false =>
          refine (gives_orSync ((shapely n).declaration false)).bind fun stmt hstmt => ?_
          exact ih.bind fun more hmore =>
            gives_pure (orderly_append.2 ⟨orderly_toList hstmt, hmore⟩)

end Parse

/-- In all that is read, declarations stand only where they may. -/
theorem parse?_orderly {ts : List Token} {parsed : Parsed} (h : parse? ts = some parsed) :
    Stmt.Orderly parsed.statements := by
  obtain ⟨after, hrun, -⟩ := parse?_eq_some.mp h
  exact Parse.gives_program _ _ _ _ hrun

end LoxLang
