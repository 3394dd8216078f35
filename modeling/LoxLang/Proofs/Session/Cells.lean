import LoxLang.Proofs.Session.Forest
import LoxLang.Proofs.Store.Cells

set_option autoImplicit false

/-! # Reading and assigning names

To read a name and to assign to it are two walks along the same scopes. Here they are compared: both
come to the same cell or both come to none, and from then on exactly the names that stand for that cell
read as what was assigned (`Session.cells_resolved`). Whoever holds a session reads and assigns as a
running program does, so what is said about the one is said about the other, too. -/

namespace LoxLang.Session

/-- What is told about a name that is not bound. -/
def unbound (name : Token) : Diagnostic :=
  (RuntimeFault.undefinedVariable name.lexeme).located name

/-- An assignment that is refused: it tells what reading the name tells, and changes nothing. -/
structure Refuses (session : Session) (scope : Nat) (name : Token) (value : Value)
    (diagnostic : Diagnostic) : Prop where
  told : diagnostic = unbound name
  get : session.get scope name = .error diagnostic
  /-- It stops a running program in the state in which it was. -/
  stops : Eval.assign scope name value session.state = .error (.failure diagnostic) session.state

/-- An assignment that is carried out. -/
structure Assigns (session after : Session) (scope : Nat) (name : Token) (value : Value) :
    Prop where
  /-- The cell that the name stands for has the value, and every other cell what it had. -/
  cell : ∃ owner, session.state.store.Search name.lexeme scope (some owner) ∧
    session.state.store.Sets after.state.store owner name.lexeme value
  /-- No scope gains or loses a name. -/
  names : ∀ inner text, after.state.store.Binds inner text ↔ session.state.store.Binds inner text
  /-- The names that stood for that cell read as the value. -/
  same : ∀ inner other, session.state.store.SameCell scope name.lexeme inner other.lexeme →
    after.get inner other = .ok value
  /-- Every other name reads as before, also where that is a refusal. -/
  others : ∀ inner other, ¬ session.state.store.SameCell scope name.lexeme inner other.lexeme →
    after.get inner other = session.get inner other
  /-- Nothing but the store changes. -/
  rest : after = { session with state.store := after.state.store }
  runs : Eval.assign scope name value session.state = .ok () after.state

/-- A name that is bound in a scope. -/
structure Defines (session after : Session) (scope : Nat) (name : String) (value : Value) :
    Prop where
  cell : session.state.store.Sets after.state.store scope name value
  /-- From the scopes that come to this one before any other that binds it, the name reads as the
  value. -/
  reached : ∀ inner other, other.lexeme = name ∧ session.state.store.Reaches name scope inner →
    after.get inner other = .ok value
  /-- From everywhere else the name reads as before, and so do all other names. -/
  others : ∀ inner other, ¬ (other.lexeme = name ∧ session.state.store.Reaches name scope inner) →
    after.get inner other = session.get inner other
  rest : after = { session with state.store := after.state.store }
  runs : Eval.define scope name value session.state = .ok () after.state

variable {session after : Session} {scope : Nat} {name : Token} {value : Value}

/-! ## Reading -/

theorem get_eq_ok : session.get scope name = .ok value ↔
    session.state.store.get? scope name.lexeme = some value := by
  unfold get
  cases session.state.store.get? scope name.lexeme with
  | none => simp
  | some found => simp

theorem get_eq_error (h : session.state.store.get? scope name.lexeme = none) :
    session.get scope name = .error (unbound name) := by
  simp only [get, h, unbound]

/-- Reading depends on the store alone. -/
theorem get_congr
    (h : after.state.store.get? scope name.lexeme = session.state.store.get? scope name.lexeme) :
    after.get scope name = session.get scope name := by
  unfold get
  rw [h]

/-- A running program reads what whoever holds the session reads. -/
theorem get_eq_ok_iff_eval : session.get scope name = .ok value ↔
    Eval.get scope name session.state = .ok value session.state := by
  rw [get_eq_ok]
  unfold Eval.get
  cases session.state.store.get? scope name.lexeme with
  | none =>
      have hrefused : (Eval.refuse (.undefinedVariable name.lexeme) name : Eval Value) session.state
          = .error (.failure (unbound name)) session.state := rfl
      simp [hrefused]
  | some found => simp

/-! ## Assigning -/

/-- An assignment goes to the owner of the name, if there is one. -/
theorem assign_cases (session : Session) (scope : Nat) (name : Token) (value : Value) :
    (∃ owner, session.state.store.owner? name.lexeme scope = some owner ∧
      session.assign scope name value = .ok (session.define owner name.lexeme value) ∧
      Eval.assign scope name value session.state
        = .ok () (session.define owner name.lexeme value).state) ∨
    (session.state.store.owner? name.lexeme scope = none ∧
      session.assign scope name value = .error (unbound name) ∧
      Eval.assign scope name value session.state
        = .error (.failure (unbound name)) session.state) := by
  unfold Eval.assign
  cases howner : session.state.store.owner? name.lexeme scope with
  | some owner =>
      refine Or.inl ⟨owner, rfl, ?_, rfl⟩
      simp only [assign, Store.assign?_eq howner]
      rfl
  | none =>
      refine Or.inr ⟨rfl, ?_, rfl⟩
      simp only [assign, Store.assign?, howner, unbound]

theorem assigns_define (hforest : session.state.store.Forest) {owner : Nat}
    (howner : session.state.store.owner? name.lexeme scope = some owner)
    (hruns : Eval.assign scope name value session.state
      = .ok () (session.define owner name.lexeme value).state) :
    session.Assigns (session.define owner name.lexeme value) scope name value := by
  have hbinds : session.state.store.Binds owner name.lexeme := Store.owner?_binds howner
  have hlt : owner < session.state.store.scopes.size := by
    obtain ⟨here, hhere, -⟩ := hbinds
    exact (Array.getElem?_eq_some_iff.mp hhere).1
  have hsets : session.state.store.Sets (session.define owner name.lexeme value).state.store owner
      name.lexeme value := Store.define_sets hlt
  refine ⟨⟨owner, hforest.search_iff.mpr howner, hsets⟩, hsets.sameNames hbinds, ?_, ?_, rfl, hruns⟩
  · intro inner other hsame
    exact get_eq_ok.mpr ((Store.assign?_get? hforest howner inner other.lexeme).1 hsame)
  · intro inner other hdifferent
    exact get_congr ((Store.assign?_get? hforest howner inner other.lexeme).2 hdifferent)

theorem defines_define (hforest : session.state.store.Forest) (hscope : session.HasScope scope)
    (text : String) (value : Value) :
    session.Defines (session.define scope text value) scope text value := by
  refine ⟨Store.define_sets hscope, ?_, ?_, rfl, rfl⟩
  · intro inner other hreaches
    exact get_eq_ok.mpr ((Store.define_get? hforest hscope inner other.lexeme).1 hreaches)
  · intro inner other hother
    exact get_congr ((Store.define_get? hforest hscope inner other.lexeme).2 hother)

/-- To read a name gives the value of the cell it stands for, `nil` like any other, to a running program
as to whoever holds the session. To assign to it is refused exactly if reading it is, and in the same
words; otherwise it changes that cell and no other, so that the names that stand for the cell, from
whichever scope, read as the new value and all others as before. To bind a name in a scope changes only
what the name reads as from the scopes that come to this one first. -/
theorem cells_resolved (session : Session) (hforest : session.state.store.Forest) (scope : Nat)
    (hscope : session.HasScope scope) (name : Token) (value : Value) :
    (∀ old, (session.get scope name = .ok old ↔
        ∃ owner, session.state.store.Search name.lexeme scope (some owner) ∧
          session.state.store.own? owner name.lexeme = some old) ∧
      (session.get scope name = .ok old ↔
        Eval.get scope name session.state = .ok old session.state)) ∧
    ((∃ after, session.assign scope name value = .ok after) ↔
      ∃ old, session.get scope name = .ok old) ∧
    (∀ diagnostic, session.assign scope name value = .error diagnostic →
      session.Refuses scope name value diagnostic) ∧
    (∀ after, session.assign scope name value = .ok after →
      session.Assigns after scope name value) ∧
    ∀ text, session.Defines (session.define scope text value) scope text value := by
  refine ⟨fun old => ⟨get_eq_ok.trans hforest.get?_eq_some, get_eq_ok_iff_eval⟩, ?_⟩
  have hdefines := defines_define hforest hscope
  -- whether the name has an owner decides both
  have hbound : (session.state.store.owner? name.lexeme scope).isSome = true ↔
      (session.state.store.get? scope name.lexeme).isSome = true := Store.owner?_isSome_iff
  rcases assign_cases session scope name value with
    ⟨owner, howner, hassign, hruns⟩ | ⟨howner, hassign, hstops⟩
  · rw [howner] at hbound
    obtain ⟨old, hold⟩ := Option.isSome_iff_exists.mp (hbound.mp rfl)
    refine ⟨⟨fun _ => ⟨old, get_eq_ok.mpr hold⟩, fun _ => ⟨_, hassign⟩⟩, ?_, ?_,
      fun text => hdefines text value⟩
    · intro diagnostic herror
      rw [hassign] at herror
      cases herror
    · intro after hafter
      rw [hassign] at hafter
      cases hafter
      exact assigns_define hforest howner hruns
  · have hget : session.get scope name = .error (unbound name) := by
      refine get_eq_error (Option.not_isSome_iff_eq_none.mp fun hsome => ?_)
      rw [howner] at hbound
      cases hbound.mpr hsome
    refine ⟨⟨?_, ?_⟩, ?_, ?_, fun text => hdefines text value⟩
    · rintro ⟨after, hafter⟩
      rw [hassign] at hafter
      cases hafter
    · rintro ⟨old, hold⟩
      rw [hget] at hold
      cases hold
    · intro diagnostic herror
      rw [hassign] at herror
      cases herror
      exact ⟨rfl, hget, hstops⟩
    · intro after hafter
      rw [hassign] at hafter
      cases hafter

/-- The name `a` is bound to `true` globally, and to `nil` in the first scope inside. There is another
scope inside that one, and another one beside it. -/
def sheltered : Session :=
  let outside := (start 0 false (fun _ => some 0)).define globals "a" (.bool true)
  let inside := (outside.newScope (some globals)).2.define 1 "a" .nil
  ((inside.newScope (some 1)).2.newScope (some globals)).2

theorem sheltered_forest : sheltered.state.store.Forest := by
  have hplain {value : Value} {store : Store} (h : ∀ i f, value ≠ .closure i f) :
      value.Lives store := Value.lives_of_ne h
  have hinside {outer : Nat} {store : Store} (hlt : outer < store.scopes.size) :
      ∀ n, some outer = some n → n < store.scopes.size := by
    rintro n ⟨⟩
    exact hlt
  have hstart : (start 0 false (fun _ => some 0)).state.store.Forest :=
    (Holder.start_sound 0 false (fun _ => some 0)).forest
  refine Store.Forest.newScope (Store.Forest.newScope ?_ (hinside (by decide))) (hinside (by decide))
  refine Store.Forest.define (Store.Forest.newScope ?_ (hinside (by decide))) (hplain (by simp))
  exact hstart.define (hplain (by simp))

/-- From the innermost scope, the assignment goes to the cell that holds `nil`. It is not seen from the
scope beside. -/
theorem cells_resolved_sheltered :
    let name : Token := ⟨.identifier, "a", .nil, 7⟩
    let value : Value := .string "new"
    sheltered.state.store.Forest ∧ sheltered.HasScope 2 ∧ sheltered.get 2 name = .ok .nil ∧
      ∃ after, sheltered.assign 2 name value = .ok after ∧
        sheltered.Assigns after 2 name value ∧ after.get 1 name = .ok value ∧
        after.get 3 name = .ok (.bool true) := by
  intro name value
  have hscope : sheltered.HasScope 2 := by
    show 2 < 4
    decide
  have hsearch {scope owner : Nat} (h : sheltered.state.store.owner? "a" scope = some owner) :
      sheltered.state.store.Search "a" scope (some owner) := sheltered_forest.search_iff.mpr h
  have hinner : sheltered.state.store.Search "a" 2 (some 1) := hsearch (by decide +kernel)
  obtain ⟨hread, hboth, -, hassigns, -⟩ :=
    cells_resolved sheltered sheltered_forest 2 hscope name value
  have hnil : sheltered.get 2 name = .ok .nil := (hread .nil).1.mpr ⟨1, hinner, rfl⟩
  obtain ⟨after, hafter⟩ := hboth.mpr ⟨.nil, hnil⟩
  have hassigned := hassigns after hafter
  refine ⟨sheltered_forest, hscope, hnil, after, hafter, hassigned, ?_, ?_⟩
  · exact hassigned.same 1 name ⟨rfl, 1, hinner, hsearch (by decide +kernel)⟩
  · have hbeside : sheltered.state.store.Search "a" 3 (some 0) := hsearch (by decide +kernel)
    rw [hassigned.others 3 name]
    · exact get_eq_ok.mpr (sheltered_forest.get?_eq_some.mpr ⟨0, hbeside, rfl⟩)
    · rintro ⟨-, owner, hleft, hright⟩
      have hone := (sheltered_forest.search_iff.mp hinner).symm.trans
        (sheltered_forest.search_iff.mp hleft)
      have hzero := (sheltered_forest.search_iff.mp hbeside).symm.trans
        (sheltered_forest.search_iff.mp hright)
      cases hone
      cases hzero

end LoxLang.Session
