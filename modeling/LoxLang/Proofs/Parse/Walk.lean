import LoxLang.Proofs.Parse.Turns
import LoxLang.Proofs.Tree.Parts

set_option autoImplicit false

/-! # Reading by position

The rules keep the tokens that are still ahead. Here the same scripts are carried out on the whole
list and a position in it: the next token is the one at the position, the previous token is the one
before it, and asking for a token that the list does not have stops the walk. The walk also keeps a
trail of the positions it has been at and of where each turn of a loop has started and ended.

The walk ends as the rules do (`Script.Below.tracks`), it asks for a token out of range exactly if no
token ends the input, and it stays at or before the first token that does (`parse?_walk`). -/

namespace LoxLang.Parse

/-- How far a walk has got. -/
structure Place where
  position : Nat
  reported : List Diagnostic
  /-- The positions that the walk has been at, the latest first. -/
  trail : List Nat
  /-- Where the turns of loops have started and ended, the latest first. -/
  passes : List (Nat × Nat)

/-- Why a walk stops. -/
inductive Break where
  | fault (diagnostic : Diagnostic)
  /-- A token was asked for that the list does not have. -/
  | outOfRange
  | overBudget

/-- A walk over a list of tokens. -/
abbrev Walk := EStateM Break Place

namespace Walk

/-- The place behind the next token. -/
def moved (place : Place) : Place :=
  { place with position := place.position + 1, trail := (place.position + 1) :: place.trail }

section
variable (tokens : List Token)

/-- The token at a position. -/
def tokenAt (position : Nat) : Walk Token := fun place =>
  match tokens[position]? with
  | some token => .ok token place
  | none => .error .outOfRange place

/-- The next token. -/
def peek : Walk Token := fun place => tokenAt tokens place.position place

/-- The token before the position, of which there is none at the start. -/
def previous : Walk Token := fun place =>
  match place.position with
  | 0 => .error .outOfRange place
  | position + 1 => tokenAt tokens position place

/-- Whether the next token ends the input. -/
def atEnd : Walk Bool := return (← peek tokens).kind == .endOfInput

/-- Moves behind the next token, unless that ends the input, and gives the token before the position
then. -/
def advance : Walk Token := do
  let stays ← atEnd tokens
  modify fun place => if stays then place else moved place
  previous tokens

/-- Whether the next token is of a kind. The end of input is of no kind that is asked for. -/
def sees (kind : Kind) : Walk Bool := do
  if ← atEnd tokens then return false else return (← peek tokens).kind == kind

/-- Whether the next token is of one of these kinds. -/
def seesAny : List Kind → Walk Bool
  | [] => return false
  | kind :: kinds => do
    if ← sees tokens kind then return true else seesAny kinds

/-- Takes the next token if it is of one of these kinds. -/
def accept? : List Kind → Walk (Option Token)
  | [] => return none
  | kind :: kinds => do
    if ← sees tokens kind then return some (← advance tokens) else accept? kinds

/-- Moves on to the next boundary between statements. -/
def discard : Nat → Walk Unit
  | 0 => throw .overBudget
  | n + 1 => do
    if ← atEnd tokens then return ()
    else do
      let last ← previous tokens
      let next ← peek tokens
      if last.kind == .semicolon || startsStatement next.kind then return ()
      else do
        let _ ← advance tokens
        discard n

/-- Moves on, and then to the next boundary. -/
def sync : Walk Unit := do
  let _ ← advance tokens
  discard tokens (tokens.length + 1)

/-- A declaration that is given up after a fault. -/
def orSync (part : Walk Stmt) : Walk (Option Stmt) := fun place =>
  match part place with
  | .ok stmt after => .ok (some stmt) after
  | .error (.fault diagnostic) after =>
    match sync tokens { after with reported := after.reported ++ [diagnostic] } with
    | .ok _ next => .ok none next
    | .error stop next => .error stop next
  | .error stop after => .error stop after

end
end Walk

/-- A script carried out on a list of tokens. -/
def Script.walk (tokens : List Token) : {α : Type} → Script α → Walk α
  | _, done a => pure a
  | _, spent => throw .overBudget
  | _, refuse fault token => throw (.fault (fault.located token))
  | _, report fault token more => do
    modify fun place => { place with reported := place.reported ++ [fault.located token] }
    more.walk tokens
  | _, next kinds taken other => do
    match ← Walk.accept? tokens kinds with
    | some token => (taken token).walk tokens
    | none => (other (← Walk.peek tokens)).walk tokens
  | _, measure more => fun place => (more (tokens.length - place.position)).walk tokens place
  | _, turn closing part finish more => do
    if ← Walk.seesAny tokens closing then finish.walk tokens
    else do
      if ← Walk.atEnd tokens then finish.walk tokens
      else do
        let start ← get
        let stmt ← Walk.orSync tokens (part.walk tokens)
        modify fun place => { place with passes := (start.position, place.position) :: place.passes }
        (more stmt).walk tokens

/-- The walk over the declarations of a program, from the first token on. -/
def Walk.program (tokens : List Token) : EStateM.Result Break Place (List Stmt) :=
  (Script.program (budget ⟨tokens, []⟩)).walk tokens ⟨0, [], [0], []⟩

namespace Walk

/-! ## Single steps -/

section
variable {α β : Type} {tokens : List Token} {place : Place} {t : Token}

theorem bind_run (w : Walk α) (f : α → Walk β) (place : Place) :
    (w >>= f) place = match w place with
      | .ok a after => f a after
      | .error stop after => .error stop after := by
  show EStateM.bind w f place = _
  unfold EStateM.bind
  cases w place <;> rfl

theorem bind_ok {w : Walk α} {f : α → Walk β} {a : α} {after : Place} (h : w place = .ok a after) :
    (w >>= f) place = f a after := by
  rw [bind_run, h]

theorem bind_error {w : Walk α} {f : α → Walk β} {stop : Break} {after : Place}
    (h : w place = .error stop after) : (w >>= f) place = .error stop after := by
  rw [bind_run, h]

theorem peek_some (h : tokens[place.position]? = some t) : peek tokens place = .ok t place := by
  simp only [peek, tokenAt, h]

theorem peek_none (h : tokens[place.position]? = none) :
    peek tokens place = .error .outOfRange place := by
  simp only [peek, tokenAt, h]

theorem atEnd_some (h : tokens[place.position]? = some t) :
    atEnd tokens place = .ok (t.kind == .endOfInput) place := by
  rw [atEnd, bind_ok (peek_some h)]
  rfl

theorem atEnd_none (h : tokens[place.position]? = none) :
    atEnd tokens place = .error .outOfRange place :=
  bind_error (peek_none h)

theorem previous_some {i : Nat} (hi : place.position = i + 1) (h : tokens[i]? = some t) :
    previous tokens place = .ok t place := by
  simp only [previous, hi, tokenAt, h]

/-- Before the end of input, the next token is taken. -/
theorem advance_inner (h : tokens[place.position]? = some t) (ht : t.kind ≠ .endOfInput) :
    advance tokens place = .ok t (moved place) := by
  have hend : (t.kind == .endOfInput) = false := beq_false_of_ne ht
  rw [advance, bind_ok (atEnd_some h), hend]
  show previous tokens (moved place) = _
  exact previous_some rfl h

/-- At the end of input, nothing is taken. -/
theorem advance_end {u : Token} {i : Nat} (h : tokens[place.position]? = some t)
    (ht : t.kind = .endOfInput) (hi : place.position = i + 1) (hu : tokens[i]? = some u) :
    advance tokens place = .ok u place := by
  have hend : (t.kind == .endOfInput) = true := beq_iff_eq.mpr ht
  rw [advance, bind_ok (atEnd_some h), hend]
  exact previous_some hi hu

theorem sees_some (h : tokens[place.position]? = some t) (kind : Kind) :
    sees tokens kind place = .ok (t.kind != .endOfInput && t.kind == kind) place := by
  rw [sees, bind_ok (atEnd_some h)]
  by_cases ht : t.kind = .endOfInput
  · simp only [ht]
    rfl
  · have hend : (t.kind == .endOfInput) = false := beq_false_of_ne ht
    rw [hend, if_neg (by simp), bind_ok (peek_some h), bne, hend]
    rfl

theorem seesAny_some (h : tokens[place.position]? = some t) (kinds : List Kind) :
    seesAny tokens kinds place
      = .ok (t.kind != .endOfInput && kinds.contains t.kind) place := by
  induction kinds with
  | nil =>
      rw [List.contains_nil, Bool.and_false]
      rfl
  | cons kind kinds ih =>
      rw [seesAny, bind_ok (sees_some h kind), List.contains_cons, Bool.and_or_distrib_left]
      cases t.kind != .endOfInput && t.kind == kind with
      | true => rfl
      | false => exact ih

theorem accept?_some (h : tokens[place.position]? = some t) (kinds : List Kind) :
    accept? tokens kinds place =
      if t.kind != .endOfInput && kinds.contains t.kind then .ok (some t) (moved place)
      else .ok none place := by
  induction kinds with
  | nil =>
      rw [List.contains_nil, Bool.and_false]
      rfl
  | cons kind kinds ih =>
      rw [accept?, bind_ok (sees_some h kind), List.contains_cons, Bool.and_or_distrib_left]
      cases hk : t.kind != .endOfInput && t.kind == kind with
      | true =>
          have ht : t.kind ≠ .endOfInput := by
            rw [Bool.and_eq_true] at hk
            exact bne_iff_ne.mp hk.1
          rw [if_pos rfl, bind_ok (advance_inner h ht)]
          rfl
      | false => exact ih

/-- One turn of the loop that moves to the next boundary. -/
theorem discard_some {last : Token} {i : Nat} (n : Nat) (h : tokens[place.position]? = some t)
    (hi : place.position = i + 1) (hlast : tokens[i]? = some last) :
    discard tokens (n + 1) place =
      if t.kind == .endOfInput || last.kind == .semicolon || startsStatement t.kind then .ok () place
      else discard tokens n (moved place) := by
  rw [discard, bind_ok (atEnd_some h)]
  cases hend : t.kind == .endOfInput with
  | true => rfl
  | false =>
      have ht : t.kind ≠ .endOfInput := fun he => by simp [he] at hend
      show (previous tokens >>= _) place = _
      rw [bind_ok (previous_some hi hlast), bind_ok (peek_some h), Bool.false_or]
      cases last.kind == .semicolon || startsStatement t.kind with
      | true => rfl
      | false => exact bind_ok (advance_inner h ht)

theorem sees_none (h : tokens[place.position]? = none) (kind : Kind) :
    sees tokens kind place = .error .outOfRange place :=
  bind_error (atEnd_none h)

theorem advance_none (h : tokens[place.position]? = none) :
    advance tokens place = .error .outOfRange place :=
  bind_error (atEnd_none h)

end
end Walk

/-! ## Walks and rules -/

/-- The position of the first token that ends the input; without one, the position behind the last
token. -/
def limit (tokens : List Token) : Nat :=
  tokens.findIdx fun t => t.kind == .endOfInput

theorem limit_le (tokens : List Token) : limit tokens ≤ tokens.length :=
  List.findIdx_le_length

/-- A token that does not end the input, up to the limit, is before it. -/
theorem lt_limit {tokens : List Token} {i : Nat} {t : Token} (hi : i ≤ limit tokens)
    (h : tokens[i]? = some t) (ht : t.kind ≠ .endOfInput) : i < limit tokens := by
  refine Nat.lt_of_le_of_ne hi ?_
  rintro rfl
  obtain ⟨hlt, rfl⟩ := List.getElem?_eq_some_iff.mp h
  exact ht (beq_iff_eq.mp (List.findIdx_getElem (w := hlt)))

/-- The cursor at a place. -/
def Place.cursor (tokens : List Token) (place : Place) : Cursor :=
  ⟨tokens.drop place.position, place.reported⟩

/-- The walk has stayed within the limit and has left out no position, and every turn has got
somewhere. -/
structure Place.Sound (tokens : List Token) (place : Place) : Prop where
  position : place.position ≤ limit tokens
  trail : place.trail = (List.range (place.position + 1)).reverse
  passes : ∀ pass ∈ place.passes, pass.1 < pass.2

theorem drop_none {tokens : List Token} {i : Nat} (h : tokens[i]? = none) : tokens.drop i = [] :=
  List.drop_eq_nil_iff.mpr (List.getElem?_eq_none_iff.mp h)

theorem drop_some {tokens : List Token} {i : Nat} {t : Token} (h : tokens[i]? = some t) :
    tokens.drop i = t :: tokens.drop (i + 1) := by
  obtain ⟨hlt, rfl⟩ := List.getElem?_eq_some_iff.mp h
  exact List.drop_eq_getElem_cons hlt

theorem Place.Sound.moved {tokens : List Token} {place : Place} {t : Token}
    (h : place.Sound tokens) (ht : tokens[place.position]? = some t) (hend : t.kind ≠ .endOfInput) :
    (Walk.moved place).Sound tokens where
  position := lt_limit h.position ht hend
  trail := by
    show (place.position + 1) :: place.trail = (List.range (place.position + 1 + 1)).reverse
    rw [h.trail, List.range_succ (n := place.position + 1), List.reverse_append,
      List.reverse_singleton, List.singleton_append]
  passes := h.passes

/-- A walk has got from one place to another, where a rule has got to a cursor. -/
structure Reaches (tokens : List Token) (place : Place) (c : Cursor) (after : Place) : Prop where
  cursor : c = after.cursor tokens
  forward : place.position ≤ after.position
  sound : after.Sound tokens

/-- A walk ends as a rule does. -/
inductive Tracks (tokens : List Token) (place : Place) {α : Type} :
    EStateM.Result Halt Cursor α → EStateM.Result Break Place α → Prop
  | ok {a : α} {c : Cursor} {after : Place} (h : Reaches tokens place c after) :
      Tracks tokens place (.ok a c) (.ok a after)
  | fault {diagnostic : Diagnostic} {c : Cursor} {after : Place}
      (h : Reaches tokens place c after) :
      Tracks tokens place (.error (.fault diagnostic) c) (.error (.fault diagnostic) after)
  | ranOut {c : Cursor} {after : Place} (h : after.Sound tokens) :
      Tracks tokens place (.error .ranOut c) (.error .outOfRange after)
  | overBudget {c : Cursor} {after : Place} :
      Tracks tokens place (.error .overBudget c) (.error .overBudget after)

section
variable {tokens : List Token} {place : Place} {α β : Type}

theorem Reaches.refl (h : place.Sound tokens) :
    Reaches tokens place (place.cursor tokens) place :=
  ⟨rfl, Nat.le_refl _, h⟩

theorem Tracks.later {first : Place} {r : EStateM.Result Halt Cursor α}
    {w : EStateM.Result Break Place α} (h : Tracks tokens place r w)
    (hle : first.position ≤ place.position) : Tracks tokens first r w := by
  cases h with
  | ok h => exact .ok ⟨h.cursor, Nat.le_trans hle h.forward, h.sound⟩
  | fault h => exact .fault ⟨h.cursor, Nat.le_trans hle h.forward, h.sound⟩
  | ranOut h => exact .ranOut h
  | overBudget => exact .overBudget

theorem Tracks.bind {first : Place} {r : Rule α} {w : Walk α} {f : α → Rule β} {g : α → Walk β}
    {c : Cursor} (h : Tracks tokens first (r c) (w place))
    (hf : ∀ a (after : Place), first.position ≤ after.position → after.Sound tokens →
      Tracks tokens after (f a (after.cursor tokens)) (g a after)) :
    Tracks tokens first ((r >>= f) c) ((w >>= g) place) := by
  rw [Parse.bind_run, Walk.bind_run]
  cases hr : r c with
  | ok a d =>
      cases hw : w place with
      | ok b after =>
          rw [hr, hw] at h
          cases h with
          | ok h =>
              obtain ⟨rfl, hle, hsound⟩ := h
              exact (hf a after hle hsound).later hle
      | error stop after =>
          rw [hr, hw] at h
          cases h
  | error halt d =>
      cases hw : w place with
      | ok b after =>
          rw [hr, hw] at h
          cases h
      | error stop after =>
          rw [hr, hw] at h
          cases h with
          | fault h => exact .fault h
          | ranOut h => exact .ranOut h
          | overBudget => exact .overBudget

theorem Place.cursor_some {t : Token} (h : tokens[place.position]? = some t) :
    place.cursor tokens = ⟨t :: tokens.drop (place.position + 1), place.reported⟩ := by
  rw [Place.cursor, drop_some h]

theorem Place.cursor_none (h : tokens[place.position]? = none) :
    place.cursor tokens = ⟨[], place.reported⟩ := by
  rw [Place.cursor, drop_none h]

/-! ## Recovery -/

/-- A walk to a boundary ends where the tokens go on, if they do. -/
inductive Lands (tokens : List Token) (place : Place) (reported : List Diagnostic) :
    Option (List Token) → EStateM.Result Break Place Unit → Prop
  | some {rest : List Token} {after : Place} (h : Reaches tokens place ⟨rest, reported⟩ after) :
      Lands tokens place reported (some rest) (.ok () after)
  | none {after : Place} (h : after.Sound tokens) :
      Lands tokens place reported none (.error .outOfRange after)

theorem Lands.later {first : Place} {reported : List Diagnostic} {target : Option (List Token)}
    {w : EStateM.Result Break Place Unit} (h : Lands tokens place reported target w)
    (hle : first.position ≤ place.position) : Lands tokens first reported target w := by
  cases h with
  | some h => exact .some ⟨h.cursor, Nat.le_trans hle h.forward, h.sound⟩
  | none h => exact .none h

theorem discard_lands {last : Token} {i n : Nat} (hplace : place.Sound tokens)
    (hi : place.position = i + 1) (hlast : tokens[i]? = some last)
    (hn : tokens.length < n + place.position) :
    Lands tokens place place.reported (boundary? last.kind (tokens.drop place.position))
      (Walk.discard tokens n place) := by
  -- There are more steps left than tokens ahead, so the steps do not give out first.
  induction n generalizing place i last with
  | zero =>
      have := Nat.le_trans hplace.position (limit_le tokens)
      omega
  | succ n ih =>
      cases hnext : tokens[place.position]? with
      | none =>
          rw [drop_none hnext, Walk.discard, Walk.bind_error (Walk.atEnd_none hnext)]
          exact .none hplace
      | some t =>
          rw [Walk.discard_some n hnext hi hlast, drop_some hnext, boundary?]
          split
          case isTrue => exact .some ⟨(Place.cursor_some hnext).symm, Nat.le_refl _, hplace⟩
          case isFalse hstop =>
              have hend : t.kind ≠ .endOfInput := fun he => hstop (by simp [he])
              have hmoved := ih (hplace.moved hnext hend) rfl hnext (by simp only [Walk.moved]; omega)
              exact hmoved.later (Nat.le_succ _)

/-- A walk that goes to the next boundary gets on, if it has not been at the end from the start. -/
theorem sync_lands {first : Place} (hplace : place.Sound tokens)
    (hle : first.position ≤ place.position)
    (hend : ∀ t, tokens[place.position]? = some t → t.kind = .endOfInput →
      first.position < place.position) :
    Lands tokens (Walk.moved first) place.reported (resume? (tokens.drop place.position))
      (Walk.sync tokens place) := by
  rw [Walk.sync]
  cases hnext : tokens[place.position]? with
  | none =>
      rw [drop_none hnext, Walk.bind_error (Walk.advance_none hnext)]
      exact .none hplace
  | some t =>
      rw [drop_some hnext, resume?]
      split
      case isTrue ht =>
          have ht : t.kind = .endOfInput := beq_iff_eq.mp ht
          have hlt := hend t hnext ht
          -- The position is not the first one, so there is a token before it.
          obtain ⟨i, hi⟩ : ∃ i, place.position = i + 1 := ⟨place.position - 1, by omega⟩
          have hbefore : i < tokens.length := by
            have := Nat.le_trans hplace.position (limit_le tokens)
            omega
          have hlast := List.getElem?_eq_getElem hbefore
          rw [Walk.bind_ok (Walk.advance_end hnext ht hi hlast),
            Walk.discard_some _ hnext hi hlast, if_pos (by simp [ht])]
          exact .some ⟨(Place.cursor_some hnext).symm, hlt, hplace⟩
      case isFalse ht =>
          have ht : t.kind ≠ .endOfInput := fun he => ht (by simp [he])
          rw [Walk.bind_ok (Walk.advance_inner hnext ht)]
          have hn : tokens.length < tokens.length + 1 + (Walk.moved place).position := by omega
          have hlands := discard_lands (hplace.moved hnext ht) rfl hnext hn
          exact hlands.later (Nat.succ_le_succ hle)

/-- A turn tracks the rule, and gets on. -/
theorem Tracks.orSync {t : Token} {r : Rule Stmt} {w : Walk Stmt}
    (hnext : tokens[place.position]? = some t) (ht : t.kind ≠ .endOfInput) (hadvances : Advances r)
    (h : Tracks tokens place (r (place.cursor tokens)) (w place)) :
    Tracks tokens (Walk.moved place) (orSync r (place.cursor tokens))
      (Walk.orSync tokens w place) := by
  unfold Parse.orSync Walk.orSync
  generalize hr : r (place.cursor tokens) = result at h ⊢
  generalize w place = walked at h ⊢
  cases h with
  | ranOut h => exact .ranOut h
  | overBudget => exact .overBudget
  | @ok s d after h =>
      obtain ⟨rfl, hle, hsound⟩ := h
      have hlt := hadvances _ _ _ hr
      simp only [Place.cursor, List.length_drop] at hlt
      have hlt : place.position < after.position := by omega
      exact .ok ⟨rfl, hlt, hsound⟩
  | @fault diagnostic d after h =>
      obtain ⟨rfl, hle, hsound⟩ := h
      -- If the position had not changed, the same token would be next, which is not the end.
      have hend : ∀ u, tokens[after.position]? = some u → u.kind = .endOfInput →
          place.position < after.position := by
        intro u hu hk
        refine Nat.lt_of_le_of_ne hle fun heq => ht ?_
        rw [← heq, hnext] at hu
        exact Option.some.inj hu ▸ hk
      let next : Place := { after with reported := after.reported ++ [diagnostic] }
      have hnextSound : next.Sound tokens := ⟨hsound.position, hsound.trail, hsound.passes⟩
      have hlands : Lands tokens (Walk.moved place) next.reported _ _ :=
        sync_lands hnextSound hle hend
      simp only [sync_run, Place.cursor]
      generalize resume? (tokens.drop after.position) = target at hlands ⊢
      generalize Walk.sync tokens next = walked at hlands ⊢
      cases hlands with
      | some h => exact .ok h
      | none h => exact .ranOut h

end

/-! ## Every script -/

namespace Script

section
variable {α : Type} {tokens : List Token} {place : Place}

theorem walk_next_none (h : tokens[place.position]? = none) (kinds : List Kind)
    (taken other : Token → Script α) :
    (next kinds taken other).walk tokens place = .error .outOfRange place := by
  rw [walk]
  cases kinds with
  | nil =>
      have hnone : Walk.accept? tokens [] place = .ok none place := rfl
      rw [Walk.bind_ok hnone]
      exact Walk.bind_error (Walk.peek_none h)
  | cons kind kinds =>
      exact Walk.bind_error (Walk.bind_error (Walk.sees_none h kind))

theorem walk_next_some {t : Token} (h : tokens[place.position]? = some t) (kinds : List Kind)
    (taken other : Token → Script α) :
    (next kinds taken other).walk tokens place =
      if t.kind != .endOfInput && kinds.contains t.kind then
        (taken t).walk tokens (Walk.moved place)
      else (other t).walk tokens place := by
  have haccept := Walk.accept?_some h kinds
  rw [walk]
  cases hk : t.kind != .endOfInput && kinds.contains t.kind with
  | true =>
      rw [hk] at haccept
      exact Walk.bind_ok haccept
  | false =>
      rw [hk] at haccept
      rw [Walk.bind_ok haccept]
      exact Walk.bind_ok (Walk.peek_some h)

theorem walk_turn_none (h : tokens[place.position]? = none) (closing : List Kind)
    (part : Script Stmt) (finish : Script α) (more : Option Stmt → Script α) :
    (turn closing part finish more).walk tokens place = .error .outOfRange place := by
  rw [walk]
  cases closing with
  | nil =>
      have hfalse : Walk.seesAny tokens [] place = .ok false place := rfl
      rw [Walk.bind_ok hfalse]
      exact Walk.bind_error (Walk.atEnd_none h)
  | cons kind kinds =>
      exact Walk.bind_error (Walk.bind_error (Walk.sees_none h kind))

/-- The place behind a turn that has started at a position. -/
def passed (start : Nat) (place : Place) : Place :=
  { place with passes := (start, place.position) :: place.passes }

theorem walk_turn_some {t : Token} (h : tokens[place.position]? = some t) (closing : List Kind)
    (part : Script Stmt) (finish : Script α) (more : Option Stmt → Script α) :
    (turn closing part finish more).walk tokens place =
      if closing.contains t.kind || t.kind == .endOfInput then finish.walk tokens place
      else (Walk.orSync tokens (part.walk tokens) >>= fun stmt after =>
        (more stmt).walk tokens (passed place.position after)) place := by
  rw [walk, Walk.bind_ok (Walk.seesAny_some h closing)]
  by_cases hend : t.kind = .endOfInput
  · have : (t.kind == .endOfInput) = true := beq_iff_eq.mpr hend
    rw [bne, this, Bool.or_true, Bool.not_true, Bool.false_and, if_neg (by simp), if_pos rfl]
    show (Walk.atEnd tokens >>= _) place = _
    rw [Walk.bind_ok (Walk.atEnd_some h), this]
    rfl
  · have : (t.kind == .endOfInput) = false := beq_false_of_ne hend
    rw [bne, this, Bool.or_false, Bool.not_false, Bool.true_and]
    cases closing.contains t.kind with
    | true => rfl
    | false =>
        show (Walk.atEnd tokens >>= _) place = _
        rw [Walk.bind_ok (Walk.atEnd_some h), this]
        rfl

/-- The walk ends as the rule does. -/
theorem Below.tracks {P : Kind → Prop} {p q : Script α} (h : Below P p q)
    (hplace : place.Sound tokens) :
    Tracks tokens place (p.run (place.cursor tokens)) (p.walk tokens place) := by
  induction h generalizing place with
  | done a => exact .ok (.refl hplace)
  | spent p => exact .overBudget
  | refuse fault token => exact .fault (.refl hplace)
  | @report _ fault token p q _ ih =>
      let next : Place := { place with reported := place.reported ++ [fault.located token] }
      have hnext : next.Sound tokens := ⟨hplace.position, hplace.trail, hplace.passes⟩
      exact (ih hnext).later (Nat.le_refl _)
  | @next _ kinds taken _ other _ _ _ _ ihTaken ihOther =>
      cases hnext : tokens[place.position]? with
      | none =>
          rw [Place.cursor_none hnext, walk_next_none hnext]
          exact .ranOut hplace
      | some t =>
          rw [Place.cursor_some hnext, run_next_cons, walk_next_some hnext]
          split
          case isTrue ht =>
              have hend : t.kind ≠ .endOfInput := by
                rw [Bool.and_eq_true] at ht
                exact bne_iff_ne.mp ht.1
              exact (ihTaken t (hplace.moved hnext hend)).later (Nat.le_succ _)
          case isFalse =>
              rw [← Place.cursor_some hnext]
              exact ihOther t hplace
  | @measure _ more _ _ ih =>
      have hahead : (place.cursor tokens).rest.length = tokens.length - place.position :=
        List.length_drop
      rw [run_measure, hahead]
      exact ih _ _ (Nat.le_refl _) hplace
  | @turn _ closing part _ finish _ more _ _ hadvances _ _ _ ihPart ihFinish ihMore =>
      cases hnext : tokens[place.position]? with
      | none =>
          rw [Place.cursor_none hnext, walk_turn_none hnext]
          exact .ranOut hplace
      | some t =>
          rw [Place.cursor_some hnext, run_turn_cons, walk_turn_some hnext, ← Place.cursor_some hnext]
          split
          case isTrue => exact ihFinish hplace
          case isFalse hgoes =>
              have hend : t.kind ≠ .endOfInput := fun he => hgoes (by simp [he])
              have hturn := (ihPart hplace).orSync hnext hend hadvances
              refine (Tracks.bind hturn fun stmt after hlt hafter => ?_).later (Nat.le_succ _)
              have hpassed : (passed place.position after).Sound tokens :=
                ⟨hafter.position, hafter.trail, List.forall_mem_cons.mpr ⟨hlt, hafter.passes⟩⟩
              exact (ihMore stmt hpassed).later (Nat.le_refl _)

end
end Script

/-! ## Programs -/

theorem limit_front {front rest : List Token} {eof : Token} (hfront : Inner front)
    (heof : eof.kind = .endOfInput) : limit (front ++ eof :: rest) = front.length := by
  unfold limit
  induction front with
  | nil => simp [List.findIdx_cons, heof]
  | cons t ts ih =>
      obtain ⟨ht, hts⟩ := inner_cons.mp hfront
      rw [List.cons_append, List.findIdx_cons, beq_false_of_ne ht, ih hts]
      rfl

/-- A program ends before a token that ends the input, so without one it does not. -/
theorem program_ranOut {tokens : List Token} (h : Inner tokens) :
    ∃ after, program (budget ⟨tokens, []⟩) ⟨tokens, []⟩ = .error .ranOut after := by
  have hreads := reads_program (budget ⟨tokens, []⟩) ⟨tokens, []⟩
  unfold Reads at hreads
  cases hrun : program (budget ⟨tokens, []⟩) ⟨tokens, []⟩ with
  | ok stmts after =>
      rw [hrun] at hreads
      obtain ⟨us, htook, -, -, t, more, hrest, ht⟩ := hreads
      have hmem : t ∈ tokens := by
        rw [show tokens = us ++ after.rest from htook.rest, hrest]
        simp
      exact absurd ht (h t hmem)
  | error halt after =>
      rw [hrun] at hreads
      cases halt with
      | ranOut => exact ⟨after, rfl⟩
      | fault diagnostic => exact absurd hrun (faultless_program _ _ _ _)
      | overBudget =>
          have hshort := hreads.overBudget rfl
          simp only [budget] at hshort
          omega

theorem program_tracks (tokens : List Token) :
    Tracks tokens ⟨0, [], [0], []⟩ (program (budget ⟨tokens, []⟩) ⟨tokens, []⟩)
      (Walk.program tokens) := by
  have hstart : Place.Sound tokens ⟨0, [], [0], []⟩ :=
    ⟨Nat.zero_le _, rfl, fun _ h => absurd h List.not_mem_nil⟩
  rw [← Script.run_program]
  exact (Script.below_program (Nat.le_refl _)).tracks hstart

theorem walk_outOfRange {tokens : List Token} (h : Inner tokens) :
    ∃ place, Walk.program tokens = .error .outOfRange place := by
  obtain ⟨after, hrun⟩ := program_ranOut h
  have htracks := program_tracks tokens
  rw [hrun] at htracks
  generalize Walk.program tokens = walked at htracks ⊢
  cases htracks with
  | ranOut => exact ⟨_, rfl⟩

/-- With an end of input, the walk ends there and gives what is read. -/
theorem walk_ok {tokens : List Token} (h : ¬ Inner tokens) :
    ∃ stmts place, Walk.program tokens = .ok stmts place ∧
      parse? tokens = some ⟨stmts, place.reported⟩ ∧ place.Sound tokens ∧
      ∃ t, tokens[place.position]? = some t ∧ t.kind = .endOfInput := by
  obtain ⟨parsed, hparsed⟩ := Option.isSome_iff_exists.mp (parse?_isSome h)
  obtain ⟨after, hrun, hreported⟩ := parse?_eq_some.mp hparsed
  have htracks := program_tracks tokens
  have hreads := reads_program (budget ⟨tokens, []⟩) ⟨tokens, []⟩
  unfold Reads at hreads
  rw [hrun] at htracks hreads
  obtain ⟨_, _, _, _, t, more, hrest, ht⟩ := hreads
  generalize Walk.program tokens = walked at htracks ⊢
  cases htracks with
  | @ok _ _ place hreach =>
      obtain ⟨rfl, -, hsound⟩ := hreach
      refine ⟨parsed.statements, place, rfl, ?_, hsound, t, ?_, ht⟩
      · rw [hparsed]
        exact congrArg some (congrArg (Parsed.mk parsed.statements) hreported.symm)
      · rw [← List.head?_drop]
        exact congrArg List.head? hrest

/-- A token that ends the input, up to the first one, is the first one. -/
theorem position_eq {front rest : List Token} {eof t : Token} {i : Nat} (hfront : Inner front)
    (hi : i ≤ front.length) (h : (front ++ eof :: rest)[i]? = some t) (ht : t.kind = .endOfInput) :
    i = front.length := by
  refine Nat.le_antisymm hi (Nat.le_of_not_lt fun hlt => ?_)
  rw [List.getElem?_append_left hlt] at h
  exact hfront t (List.mem_of_getElem? h) ht

end LoxLang.Parse

namespace LoxLang

open Parse

/-- Reading asks for a token out of range exactly if no token ends the input. Otherwise it goes over
all positions up to the first token that does and not past it, every turn of its loops takes a token,
no statement of the result is missing, and the result does not depend on what stands behind. -/
theorem parse?_walk (tokens : List Token) :
    ((∃ place, Walk.program tokens = .error .outOfRange place) ↔
      ∀ t ∈ tokens, t.kind ≠ .endOfInput) ∧
    ((∃ stmts place, Walk.program tokens = .ok stmts place) ↔
      ∃ t ∈ tokens, t.kind = .endOfInput) ∧
    ∀ front eof rest, tokens = front ++ eof :: rest → (∀ t ∈ front, t.kind ≠ .endOfInput) →
      eof.kind = .endOfInput →
      ∃ stmts place, Walk.program tokens = .ok stmts place ∧
        place.trail = (List.range (front.length + 1)).reverse ∧
        (∀ pass ∈ place.passes, pass.1 < pass.2) ∧
        (∀ s, Stmt.Inside s stmts → s ≠ .missing) ∧
        ∀ others, parse? (front ++ eof :: others) = some ⟨stmts, place.reported⟩ := by
  have hinner : (∃ t ∈ tokens, t.kind = .endOfInput) ↔ ¬ Parse.Inner tokens := by
    simp [Parse.Inner]
  refine ⟨⟨?_, walk_outOfRange⟩, ⟨?_, ?_⟩, ?_⟩
  · rintro ⟨place, hcrash⟩
    by_contra h
    obtain ⟨stmts, place', hok, -⟩ := walk_ok h
    rw [hcrash] at hok
    cases hok
  · rintro ⟨stmts, place, hok⟩
    refine hinner.mpr fun h => ?_
    obtain ⟨place', hcrash⟩ := walk_outOfRange h
    rw [hok] at hcrash
    cases hcrash
  · intro h
    obtain ⟨stmts, place, hok, -⟩ := walk_ok (hinner.mp h)
    exact ⟨stmts, place, hok⟩
  · rintro front eof rest rfl hfront heof
    obtain ⟨stmts, place, hok, hparse, hsound, t, hnext, ht⟩ :=
      walk_ok (hinner.mp ⟨eof, by simp, heof⟩)
    have hposition : place.position = front.length :=
      position_eq hfront (limit_front hfront heof ▸ hsound.position) hnext ht
    refine ⟨stmts, place, hok, hposition ▸ hsound.trail, hsound.passes, ?_, fun others => ?_⟩
    · rintro s hs rfl
      cases hs.like (parse?_formed hparse) with
      | missing hole => exact hole
    · rw [parse?_append_end front others heof, ← parse?_append_end front rest heof, hparse]

/-- A brace that closes nothing, the end of input, and a token behind it. -/
def strayBrace : List Token :=
  [⟨.rightBrace, "\x7d", .nil, 1⟩, Scan.endToken 1, ⟨.semicolon, ";", .nil, 1⟩]

theorem parse?_walk_strayBrace :
    ∃ stmts place, Walk.program strayBrace = .ok stmts place ∧
      place.trail = [1, 0] ∧
      (∀ pass ∈ place.passes, pass.1 < pass.2) ∧
      (∀ s, Stmt.Inside s stmts → s ≠ .missing) ∧
      ∀ others, parse? ([⟨.rightBrace, "\x7d", .nil, 1⟩] ++ Scan.endToken 1 :: others)
        = some ⟨stmts, place.reported⟩ :=
  (parse?_walk strayBrace).2.2 [⟨.rightBrace, "\x7d", .nil, 1⟩] (Scan.endToken 1)
    [⟨.semicolon, ";", .nil, 1⟩] rfl (by simp) rfl

end LoxLang
