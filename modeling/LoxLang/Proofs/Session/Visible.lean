import LoxLang.Proofs.Eval.Upkeep
import LoxLang.Proofs.Session.Pieces
import LoxLang.Proofs.Session.Safe
import LoxLang.Proofs.Tree.Uses

set_option autoImplicit false

/-! # Undefined variables

Names are looked up while a program runs, in the scopes that there are at that time. Even so, a name
is found wherever the text says that it is declared: if a run fails because a variable is undefined,
then no declaration of the name is visible at the use in question (`Session.run_undefined`).

What has to be kept up is that each scope binds, itself or through those around it, all names that are
visible to the statements executed in it. A statement is reached only if the ones before it in its list
have ended normally, and then their declarations have been executed. A function keeps the scope in
which it was declared, and scopes do not lose names, so what its body can see is there whenever and
from wherever it is called. -/

namespace LoxLang

/-- The stop is not a variable that is undefined although the text says otherwise: the token is that of
one of the uses, and its name is none of those that the use can see. -/
def Stop.Justified (outside : List String) (uses : List Use) (stop : Stop) : Prop :=
  ∀ token message, stop = .failure (.runtime token .undefinedVariable message) →
    ∃ use ∈ uses, use.token = token ∧ token.lexeme ∉ outside ∧ token.lexeme ∉ use.visible

/-- Trees with some of the uses, in scopes that bind what these can see, and some names besides. -/
def visibility (setting : Setting) (outside : List String) (uses : List Use) : Upkeep where
  setting := setting
  closure := fun store f => ∃ visible, store.Finds f.scope (outside ++ f.name.lexeme :: visible) ∧
    ∀ use ∈ Stmt.allUses f.body, use.seeing (declaredBy f.name f.params ++ visible) ∈ uses
  expr := fun store scope e => ∃ visible, store.Finds scope (outside ++ visible) ∧
    ∀ use ∈ e.uses, use.seeing visible ∈ uses
  stmt := fun store scope s => ∃ visible, store.Finds scope (outside ++ visible) ∧
    ∀ use ∈ s.uses, use.seeing visible ∈ uses
  stmts := fun store scope ss => ∃ visible, store.Finds scope (outside ++ visible) ∧
    ∀ use ∈ Stmt.allUses ss, use.seeing visible ∈ uses
  stop := Stop.Justified outside uses

section
variable {setting : Setting} {outside : List String} {uses : List Use}

/-- A use whose name is not found is one that does not see it. -/
theorem justified_of_missing {store : Store} {scope : Nat} {visible : List String} {token : Token}
    (hfinds : store.Finds scope (outside ++ visible)) (huse : (⟨token, visible⟩ : Use) ∈ uses)
    (hmissing : store.owner? token.lexeme scope = none) :
    Stop.Justified outside uses
      (.failure ((RuntimeFault.undefinedVariable token.lexeme).located token)) := by
  have hnot : token.lexeme ∉ outside ++ visible := by
    intro hmem
    have hfound := hfinds.owner token.lexeme hmem
    rw [hmissing] at hfound
    cases hfound
  rw [List.mem_append, not_or] at hnot
  intro token' message heq
  cases heq
  exact ⟨⟨token, visible⟩, huse, rfl, hnot.1, hnot.2⟩

theorem bindings?_names {params : List Token} {args : List Value}
    {bindings : List (String × Value)} (h : Eval.bindings? params args = some bindings) :
    bindings.map Prod.fst = params.map (·.lexeme) := by
  induction params generalizing args bindings with
  | nil =>
      rw [Eval.bindings?] at h
      cases h
      rfl
  | cons param params ih =>
      cases args with
      | nil => simp [Eval.bindings?] at h
      | cons arg args =>
          rw [Eval.bindings?] at h
          obtain ⟨more, hmore, rfl⟩ := Option.map_eq_some_iff.mp h
          rw [List.map_cons, List.map_cons, ih hmore]

theorem visibility_function {store : Store} {scope : Nat} {name : Token} {params : List Token}
    {body : List Stmt} {value : Value}
    (h : (visibility setting outside uses).stmt store scope (.function name params body)) :
    (visibility setting outside uses).closure (store.define scope name.lexeme value)
      ⟨name, params, body, scope⟩ := by
  obtain ⟨visible, hfinds, huses⟩ := h
  refine ⟨visible, ?_, fun use huse => ?_⟩
  · -- The declaration binds the name of the function in the scope that the function keeps.
    have hname : (store.define scope name.lexeme value).Binds scope name.lexeme :=
      (Store.binds_define hfinds.isScope).mpr (Or.inl ⟨rfl, rfl⟩)
    have hlater := (Store.define_grows store scope name.lexeme value).later
    refine (hfinds.later hlater).binding fun other hother => ?_
    have hcases : other = name.lexeme ∨ other ∈ outside ++ visible := by
      simp only [List.mem_append, List.mem_cons] at hother ⊢
      tauto
    rcases hcases with rfl | hother
    · exact Or.inr hname
    · exact Or.inl hother
  · rw [← Use.seeing_seeing]
    refine huses _ ?_
    rw [Stmt.uses]
    exact List.mem_map_of_mem huse

theorem visibility_enter {store : Store} {f : Closure} {args : List Value}
    {bindings : List (String × Value)} (h : (visibility setting outside uses).closure store f)
    (hbindings : Eval.bindings? f.params args = some bindings) :
    (visibility setting outside uses).stmts
      ((store.newScope (some f.scope)).2.defineAll store.scopes.size bindings)
      store.scopes.size f.body := by
  obtain ⟨visible, hfinds, huses⟩ := h
  refine ⟨declaredBy f.name f.params ++ visible, ?_, huses⟩
  have hlater := (Store.defineAll_grows (store.newScope (some f.scope)).2 store.scopes.size
    bindings).later
  refine (hfinds.inner.later hlater).binding fun name hname => ?_
  have hcases : name ∈ f.params.map (·.lexeme) ∨ name ∈ outside ++ f.name.lexeme :: visible := by
    simp only [declaredBy, List.mem_append, List.mem_cons] at hname ⊢
    tauto
  rcases hcases with hname | hname
  · rw [← bindings?_names hbindings] at hname
    exact Or.inr (Store.defineAll_binds hfinds.inner.isScope hname)
  · exact Or.inl hname

theorem visibility_rest {a b : Store} {scope : Nat} {s : Stmt} {more : List Stmt}
    (h : (visibility setting outside uses).stmts a scope (s :: more)) (hab : a.Later b)
    (hdeclared : scope < b.scopes.size → ∀ name ∈ s.declared, b.Binds scope name) :
    (visibility setting outside uses).stmts b scope more := by
  obtain ⟨visible, hfinds, huses⟩ := h
  have hlater := hfinds.later hab
  refine ⟨s.declared ++ visible, hlater.binding fun name hname => ?_, fun use huse => ?_⟩
  · have hcases : name ∈ s.declared ∨ name ∈ outside ++ visible := by
      simp only [List.mem_append] at hname ⊢
      tauto
    rcases hcases with hname | hname
    · exact Or.inr (hdeclared hlater.isScope name hname)
    · exact Or.inl hname
  · rw [← Use.seeing_seeing]
    refine huses _ ?_
    rw [Stmt.allUses]
    exact List.mem_append_right _ (List.mem_map_of_mem huse)

theorem visibility_lawful (h : ∀ native ∈ setting.natives, native.Passive) :
    (visibility setting outside uses).Lawful where
  closureLater := fun hab ⟨visible, hfinds, huses⟩ => ⟨visible, hfinds.later hab, huses⟩
  exprLater := fun hab ⟨visible, hfinds, huses⟩ => ⟨visible, hfinds.later hab, huses⟩
  stmtLater := fun hab ⟨visible, hfinds, huses⟩ => ⟨visible, hfinds.later hab, huses⟩
  part := fun ⟨visible, hfinds, huses⟩ e' he' =>
    ⟨visible, hfinds, fun use huse => huses use (Expr.uses_part he' use huse)⟩
  name := by
    rintro store scope token ⟨visible, hfinds, huses⟩ hmissing
    have huse := huses ⟨token, []⟩ (by simp [Expr.uses])
    exact justified_of_missing hfinds huse hmissing
  assign := by
    rintro store scope token e ⟨visible, hfinds, huses⟩ hmissing
    have huse := huses ⟨token, []⟩ (by simp [Expr.uses])
    exact justified_of_missing hfinds huse hmissing
  exprIn := fun ⟨visible, hfinds, huses⟩ e he =>
    ⟨visible, hfinds, fun use huse => huses use (Stmt.uses_expr he use huse)⟩
  branch := fun ⟨visible, hfinds, huses⟩ s' hs' =>
    ⟨visible, hfinds, fun use huse => huses use (Stmt.uses_branch hs' use huse)⟩
  block := by
    rintro store scope body ⟨visible, hfinds, huses⟩
    rw [Stmt.uses] at huses
    exact ⟨visible, hfinds.inner, huses⟩
  function := visibility_function
  loop := fun _ _ _ heq => Stop.noConfusion heq
  first := by
    rintro store scope s more ⟨visible, hfinds, huses⟩
    rw [Stmt.allUses] at huses
    exact ⟨visible, hfinds, fun use huse => huses use (List.mem_append_left _ huse)⟩
  rest := visibility_rest
  enter := visibility_enter
  native := by
    rintro native hnative store n args value hargs hvalue i f rfl
    exact hargs _ (h native hnative n args i f hvalue) i f rfl
  pending := fun _ _ _ _ _ _ _ heq => Stop.noConfusion heq
  others := fun stop _ hne token message heq => absurd heq (hne token message)

end

/-! ## Runs with numbered uses -/

/-- Ways to stop that correspond: failures at tokens that do, and others that are the same. -/
inductive Stop.Rel (T : Token → Token → Prop) : Stop → Stop → Prop
  | runtime {t u : Token} (cause : Cause) (message : String) :
    T t u → Stop.Rel T (.failure (.runtime t cause message)) (.failure (.runtime u cause message))
  | plain (message : String) : Stop.Rel T (.failure (.plain message)) (.failure (.plain message))
  | defect (defect : TreeDefect) : Stop.Rel T (.defect defect) (.defect defect)
  | breakdown : Stop.Rel T .breakdown .breakdown
  | exhausted : Stop.Rel T .exhausted .exhausted

/-- Statements run as they are and with their uses numbered. -/
def numbering (setting : Setting) (ts : List Token) : Sim where
  toPairing := .everywhere (.numbering ts) Eq
  left := setting
  right := setting
  stop := Stop.Rel ((Likeness.numbering ts).token .name)
  escape := fun _ => False

theorem numbering_same {ts : List Token} {ρ : Role} {t u : Token}
    (h : (Likeness.numbering ts).token ρ t u) : u.kind = t.kind ∧ u.lexeme = t.lexeme := by
  rcases h with rfl | ⟨i, -, rfl⟩
  · exact ⟨rfl, rfl⟩
  · exact ⟨rfl, rfl⟩

theorem numbering_lawful {setting : Setting} {ts : List Token}
    (h : ∀ native ∈ setting.natives, native.Oblivious) : (numbering setting ts).Lawful where
  token := numbering_same
  fault := fun _ ht => .runtime _ _ ht
  plain := fun _ _ => .plain _
  operator := fun _ => Or.inr (.defect _)
  holes := fun _ defect => .defect defect
  print := by
    rintro o o' text rfl
    rfl
  echo := by
    rintro o o' text rfl
    rfl
  natives := Sim.natives_rel fun native hnative =>
    Sim.nativeRel_of_oblivious id (fun ht => (numbering_same ht).2) .breakdown (h native hnative)
  moment := congrArg (· + 1)
  pending := Or.inr .exhausted
  depth := Nat.le_refl _
  overflow := Or.inl rfl

namespace Session

variable {wantedDepth : Int} {echo : Bool} {readings : Readings} {bound : Nat} {stmts : List Stmt}
  {token : Token} {cause : Cause} {message : String}

/-- With its uses numbered, a program fails at the token that numbering makes of the one where it
fails as it is. -/
theorem run_numbered
    (h : ((start wantedDepth echo readings).run bound globals stmts).1
      = .finished (some (.runtime token cause message))) :
    ∃ u, (Likeness.numbering ((Stmt.allUses stmts).map (·.token))).token .name token u ∧
      ((start wantedDepth echo readings).run bound globals (Stmt.allNumbered 0 stmts)).1
        = .finished (some (.runtime u cause message)) := by
  let session := start wantedDepth echo readings
  let S := numbering session.setting ((Stmt.allUses stmts).map (·.token))
  have hlike : List.Forall₂ (Stmt.Like S.like) stmts (Stmt.allNumbered 0 stmts) :=
    Stmt.likeAll_numbered stmts (List.prefix_refl _)
  have hstate : S.StateRel session.state.depth session.state session.state := by
    refine ⟨Pairing.storeRel_self fun scope here name i f hhere hvalue => ?_, rfl, rfl, rfl, rfl⟩
    cases start_value hhere hvalue
  have hlawful : S.Lawful := numbering_lawful (start_oblivious wantedDepth echo readings)
  have hbounds : S.Bounds bound bound := Or.inl ⟨rfl, .exhausted⟩
  have hscope : S.region globals := trivial
  have hends := Sim.execAll_runs hlawful hbounds hscope hlike _ _ hstate
  obtain ⟨t, ht⟩ := run_failure_iff.1 h
  change S.Ends _ _ (Eval.execAll session.setting bound globals stmts session.state)
    (Eval.execAll session.setting bound globals (Stmt.allNumbered 0 stmts) session.state) at hends
  rw [ht] at hends
  rcases hends.cases (fun _ => id) with
    ⟨_, _, _, _, hleft, -, -, -⟩ | ⟨stop, stop', _, after, hleft, hright, hstop, -⟩
  · cases hleft
  · cases hleft
    cases hstop with
    | runtime _ _ hu =>
        refine ⟨_, hu, ?_⟩
        rw [run, hright]

/-- A new session finds the name of its native function in its only scope. -/
theorem start_finds : (start wantedDepth echo readings).state.store.Finds globals ["clock"] where
  isScope := Nat.zero_lt_one
  owner := by
    intro name hname
    have hhere : (start wantedDepth echo readings).state.store.scopes[globals]?
        = some ⟨none, [("clock", .native 0)]⟩ := rfl
    have hbinds : (⟨none, [("clock", .native 0)]⟩ : Scope).binds name = true := by
      rw [List.mem_singleton.mp hname]
      rfl
    exact Store.Binds.owner ⟨_, hhere, hbinds⟩

/-- On a new session, a variable is undefined only at a use that the text justifies. -/
theorem run_justified
    (h : ((start wantedDepth echo readings).run bound globals stmts).1
      = .finished (some (.runtime token .undefinedVariable message))) :
    ∃ use ∈ Stmt.allUses stmts, use.token = token ∧ token.lexeme ∉ ["clock"] ∧
      token.lexeme ∉ use.visible := by
  let session := start wantedDepth echo readings
  let U := visibility session.setting ["clock"] (Stmt.allUses stmts)
  have hlawful : U.Lawful := by
    refine visibility_lawful fun native hnative => ?_
    exact (start_steady native hnative).passive
  have hready : U.Ready session.state.depth session.state := by
    refine ⟨rfl, fun scope here name value hhere hvalue i f hclosure => ?_⟩
    rw [start_value hhere hvalue] at hclosure
    cases hclosure
  have hstmts : U.stmts session.state.store globals stmts := by
    refine ⟨[], start_finds, fun use huse => ?_⟩
    have hsame : use.seeing [] = use := by simp [Use.seeing]
    rw [hsame]
    exact huse
  have hbound : U.Enough session.state.depth bound := Or.inr fun _ _ heq => Stop.noConfusion heq
  have hends := Upkeep.execAll_ends hlawful hbound hready hstmts
  obtain ⟨t, ht⟩ := run_failure_iff.1 h
  change U.Ends _ _ _ (Eval.execAll session.setting bound globals stmts session.state) at hends
  rw [ht] at hends
  exact hends.2 token message rfl

/-- If a program on a new session fails because a variable is undefined, then the name is not that of
the native function, and no declaration of the name is visible at the use where it fails. The number
of that use is the line at which the program fails with its uses numbered. -/
theorem run_undefined
    (h : ((start wantedDepth echo readings).run bound globals stmts).1
      = .finished (some (.runtime token .undefinedVariable message))) :
    ∃ i use, (Stmt.allUses stmts)[i]? = some use ∧ use.token = token ∧
      ((start wantedDepth echo readings).run bound globals (Stmt.allNumbered 0 stmts)).1
        = .finished (some (.runtime (token.numbered i) .undefinedVariable message)) ∧
      token.lexeme ≠ "clock" ∧ token.lexeme ∉ use.visible := by
  obtain ⟨u, hu, hnumbered⟩ := run_numbered h
  obtain ⟨use', huse', htoken, hclock, hvisible⟩ := run_justified hnumbered
  rw [Stmt.allUses_numbered] at huse'
  obtain ⟨i, hi, rfl⟩ := List.mem_mapIdx.mp huse'
  have huse : (Stmt.allUses stmts)[i]? = some (Stmt.allUses stmts)[i] := List.getElem?_eq_getElem hi
  generalize (Stmt.allUses stmts)[i] = use at huse htoken hvisible
  have hline : u.line = i := by
    rw [← htoken]
    simp [Use.numbered, Token.numbered]
  -- The token carries a number, so it is that of a use, and of the one with this number.
  rcases hu with rfl | ⟨j, hj, rfl⟩
  · have hminus : (-1 : Int) = i := hline
    omega
  · obtain rfl : j = i := Int.ofNat_inj.mp hline
    have hsame : use.token = token := by simpa [huse] using hj
    exact ⟨j, use, huse, hsame, hnumbered, by simpa [Token.numbered] using hclock, hvisible⟩

/-- A text that uses a name twice on one line: in a function that sees its declaration, and behind the
block in which both stand. -/
def leaving : List Char :=
  "\x7b var a; fun f() \x7b return a; \x7d f(); \x7d print a;".toList

theorem run_undefined_leaving :
    let session := start 512 false (fun _ => some 0)
    let stmts := (Reading.ofSource leaving).statements
    let token : Token := ⟨.identifier, "a", .nil, 1⟩
    let failure (t : Token) : Diagnostic := .runtime t .undefinedVariable "Undefined variable 'a'."
    (session.run 3 globals stmts).1 = .finished (some (failure token)) ∧
      ∃ i use, (Stmt.allUses stmts)[i]? = some use ∧ use.token = token ∧
        (session.run 3 globals (Stmt.allNumbered 0 stmts)).1
          = .finished (some (failure (token.numbered i))) ∧
        "a" ≠ "clock" ∧ "a" ∉ use.visible := by
  intro session stmts token failure
  have hrun : (session.run 3 globals stmts).1 = .finished (some (failure token)) := by
    decide +kernel
  exact ⟨hrun, run_undefined hrun⟩

end Session

end LoxLang
