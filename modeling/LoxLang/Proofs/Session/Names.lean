import LoxLang.Proofs.Eval.Locality
import LoxLang.Proofs.Eval.Upkeep
import LoxLang.Proofs.Parse.Shape
import LoxLang.Proofs.Session.Reading

set_option autoImplicit false

/-! # Which names come about

Only declarations bind names, each of them its own name in the scope in which it is executed. All other
statements, and the evaluation of expressions, may make scopes and bind names there, but leave the
scopes that there were with the names they had, so that from these every name is found where it was
before (`Store.SameNames`). That goes for whatever is called on the way, and for every way to end
(`names_declared`).

As for statements it takes a tree that was read. One that is put together by hand may have a declaration
for a branch, which then binds its name in the scope of the statement around it. -/

namespace LoxLang

open Eval

/-- The scopes that there were bind the same names, and every name is found from them where it was. -/
structure Store.SameNames (a b : Store) : Prop where
  binds : ∀ scope < a.scopes.size, ∀ name, b.Binds scope name ↔ a.Binds scope name
  owner : ∀ scope < a.scopes.size, ∀ name, b.owner? name scope = a.owner? name scope

section
variable {may : Nat → String → Prop} {a b : Store} {scope : Nat} {name : String}

/-- A name in a scope that there was has been there, or is one that it may have gained. -/
theorem Store.Grows.gained (h : a.Grows may b) (hscope : scope < a.scopes.size)
    (hbinds : b.Binds scope name) : a.Binds scope name ∨ may scope name := by
  have hhere : a.scopes[scope]? = some a.scopes[scope] := Array.getElem?_eq_getElem hscope
  obtain ⟨later, hlater, hgrows⟩ := h scope _ hhere
  obtain ⟨found, hfound, hname⟩ := hbinds
  cases hfound.symm.trans hlater
  exact (hgrows.gains name hname).imp_left fun hold => ⟨_, hhere, hold⟩

theorem Store.Grows.sameNames (h : a.Grows nowhere b) : a.SameNames b where
  binds := fun _ hscope _ =>
    ⟨fun hbinds => (h.gained hscope hbinds).resolve_right id, h.binds⟩
  owner := fun _ hscope _ => h.same_owner hscope

end

/-- Any trees and any functions. -/
def anything (setting : Setting) : Upkeep where
  setting := setting
  closure := fun _ _ => True
  expr := fun _ _ _ => True
  stmt := fun _ _ _ => True
  stmts := fun _ _ _ => True
  stop := fun _ => True

section
variable (setting : Setting) (bound scope : Nat) (s : State)

theorem anything_lawful : (anything setting).Lawful := by
  constructor <;> intros <;> first | trivial | exact fun _ _ _ => trivial

theorem anything_ready : (anything setting).Ready s.depth s :=
  ⟨rfl, fun _ _ _ _ _ _ _ _ _ => trivial⟩

theorem anything_invoke (depth : Nat) :
    (anything setting).InvokeOk depth (invoke setting bound) :=
  Upkeep.invoke_ends (anything_lawful setting) (Or.inr trivial)

theorem Upkeep.Ends.grows {α : Type} {U : Upkeep} {may : Nat → String → Prop}
    {good : Store → α → Prop} {s : State} {result : EStateM.Result Stop State α}
    (h : U.Ends may good s result) : s.store.Grows may (final result).store := by
  cases result with
  | ok a t => exact h.1.grows
  | error stop t => exact h.1.grows

theorem eval_grows (e : Expr) :
    s.store.Grows nowhere (final (eval setting bound scope e s)).store :=
  (Upkeep.evalWith_ends (anything_lawful setting) (anything_invoke setting bound s.depth) e
    (anything_ready setting s) trivial).grows

theorem exec_ends (stmt : Stmt) :
    (anything setting).Ends (within scope stmt.gains)
      ((anything setting).Done scope stmt.declared) s (exec setting bound scope stmt s) :=
  Upkeep.execWith_ends (anything_lawful setting) (anything_invoke setting bound s.depth) bound stmt
    (anything_ready setting s) trivial

/-- A variable is bound after its value has been found, which is all that can fail. -/
theorem declare_fails {name : Token} {initial : Option Expr} {stop : Stop} {t : State}
    (h : exec setting bound scope (.declare name initial) s = .error stop t) :
    s.store.Grows nowhere t.store := by
  have hvalue : s.store.Grows nowhere
      (final (evalOptional setting (invoke setting bound) scope initial s)).store :=
    (Upkeep.evalOptional_ends (anything_lawful setting) (anything_invoke setting bound s.depth)
      initial (anything_ready setting s) fun _ _ => trivial).grows
  rw [exec, execWith, bind_run] at h
  cases hrun : evalOptional setting (invoke setting bound) scope initial s with
  | ok v r =>
      rw [hrun] at h
      cases h
  | error stop' r =>
      rw [hrun] at h hvalue
      cases h
      exact hvalue

/-- A statement without a declaration for a branch adds no names but those that it declares. -/
theorem exec_grows {stmt : Stmt} (hstmt : Stmt.Orderly [stmt]) :
    s.store.Grows (within scope stmt.declared) (final (exec setting bound scope stmt s)).store := by
  have hgrows := (exec_ends setting bound scope s stmt).grows
  rw [hstmt.gains_eq] at hgrows
  exact hgrows

theorem exec_grows_nowhere {stmt : Stmt} (hstmt : Stmt.Orderly [stmt]) (hnone : stmt.declared = []) :
    s.store.Grows nowhere (final (exec setting bound scope stmt s)).store := by
  have hgrows := exec_grows setting bound scope s hstmt
  rw [hnone] at hgrows
  exact hgrows.mono fun _ _ hname => absurd hname.2 List.not_mem_nil

/-- A statement that fails adds no names, even if it is a declaration. -/
theorem exec_fails {stmt : Stmt} (hstmt : Stmt.Orderly [stmt]) {stop : Stop} {t : State}
    (h : exec setting bound scope stmt s = .error stop t) : s.store.Grows nowhere t.store := by
  cases stmt with
  | declare name initial => exact declare_fails setting bound scope s h
  | function name params body =>
      -- declaring a function cannot fail
      rw [exec, execWith, bind_run] at h
      cases h
  | _ =>
      have hgrows := exec_grows_nowhere setting bound scope s hstmt rfl
      rw [h] at hgrows
      exact hgrows

end

/-- Expressions bind no names in the scopes that there are, and of the statements that are read only
declarations do, each its own name in the scope in which it is executed. No scope loses a name. -/
theorem names_declared {ts : List Token} {parsed : Parsed} (hparsed : parse? ts = some parsed)
    (setting : Setting) (bound scope : Nat) (s : State) :
    (∀ e, s.store.SameNames (final (eval setting bound scope e s)).store) ∧
      ∀ stmt, stmt.Inside parsed.statements →
        let result := exec setting bound scope stmt s
        let after := (final result).store
        (∀ n name, s.store.Binds n name → after.Binds n name) ∧
          (stmt.declared = [] → s.store.SameNames after) ∧
          (∀ n < s.store.scopes.size, ∀ name, after.Binds n name →
            s.store.Binds n name ∨ n = scope ∧ name ∈ stmt.declared) ∧
          (∀ stop t, result = .error stop t → s.store.SameNames t.store) ∧
          ∀ t, result = .ok .normal t → scope < s.store.scopes.size →
            ∀ name ∈ stmt.declared, t.store.Binds scope name := by
  refine ⟨fun e => (eval_grows setting bound scope s e).sameNames, ?_⟩
  intro stmt hinside result after
  have horderly : Stmt.Orderly [stmt] := (parse?_orderly hparsed).inside hinside
  have hgrows : s.store.Grows (within scope stmt.declared) after :=
    exec_grows setting bound scope s horderly
  refine ⟨fun _ _ hbinds => hgrows.binds hbinds, ?_, fun _ hn _ hbinds => hgrows.gained hn hbinds,
    fun _ _ hfails => (exec_fails setting bound scope s horderly hfails).sameNames, ?_⟩
  · intro hnone
    exact (exec_grows_nowhere setting bound scope s horderly hnone).sameNames
  · intro t hresult hscope
    have hends := exec_ends setting bound scope s stmt
    have hresult' : exec setting bound scope stmt s = .ok .normal t := hresult
    rw [hresult'] at hends
    have hsize : s.store.scopes.size ≤ t.store.scopes.size := hends.1.grows.size_le
    exact hends.2.2 rfl (by omega)

/-- A block with a declaration, and with a branch that holds another one. -/
def nested : List Char :=
  "\x7b var y = 1; if (y > 0) \x7b var z = y; y = z + 1; \x7d \x7d".toList

/-- The block makes two scopes, one of which binds `y` and the other one `z`, and neither name is found
from the global scope afterwards. -/
theorem names_declared_nested :
    let session := Session.start 2 false (fun _ => some 0)
    let stmt := (Reading.ofSource nested).statements.headD .missing
    let after := (final (exec session.setting 3 Session.globals stmt session.state)).store
    (∃ parsed, parse? (scan nested).tokens = some parsed ∧ stmt.Inside parsed.statements) ∧
      stmt.declared = [] ∧ session.state.store.SameNames after ∧
      after.owner? "y" 2 = some 1 ∧ after.owner? "z" 2 = some 2 ∧
      after.owner? "y" Session.globals = none ∧ after.owner? "z" Session.globals = none := by
  intro session stmt after
  obtain ⟨parsed, hparsed, hsource⟩ := Reading.ofSource_eq nested
  have hfacts : (Reading.ofSource nested).statements ≠ [] ∧ stmt.declared = [] ∧
      after.owner? "y" 2 = some 1 ∧ after.owner? "z" 2 = some 2 := by
    decide +kernel
  have hinside : stmt.Inside parsed.statements := by
    have hstmts : parsed.statements = (Reading.ofSource nested).statements := by rw [hsource]
    obtain ⟨first, more, hread⟩ := List.exists_cons_of_ne_nil hfacts.1
    have hfirst : stmt = first := by
      show (Reading.ofSource nested).statements.headD .missing = first
      rw [hread]
      rfl
    rw [hstmts, hread, hfirst]
    exact .here List.mem_cons_self
  have hsame : session.state.store.SameNames after :=
    ((names_declared hparsed session.setting 3 Session.globals session.state).2 stmt
      hinside).2.1 hfacts.2.1
  have hglobals : Session.globals < session.state.store.scopes.size := Nat.zero_lt_one
  refine ⟨⟨parsed, hparsed, hinside⟩, hfacts.2.1, hsame, hfacts.2.2.1, hfacts.2.2.2, ?_, ?_⟩
  · rw [hsame.owner _ hglobals]
    decide +kernel
  · rw [hsame.owner _ hglobals]
    decide +kernel

end LoxLang
