import LoxLang.Proofs.Number.ReadBack
import LoxLang.Proofs.Text.Form
import LoxLang.Proofs.Token.Joined
import LoxLang.Proofs.Tree.Like
import LoxLang.Proofs.Tree.Parts
import LoxLang.Tree.Printed

set_option autoImplicit false

/-! # What a prefix form tells

Trees that are made of scanned tokens have the same prefix form only if they are alike
(`Expr.form_inj`): same nodes, same operators, names and literals. The prefix form is the text of a
`Form`, from which the form can be read back. What is left is to read the tree off the form. The head
of a form and the number of its parts tell the sort of the node, since the heads are words of different
kinds: an operator is no name, and the two heads that look like names differ. -/

namespace LoxLang

/-! ## The form of an expression -/

mutual

/-- The form whose text is the prefix form of an expression. -/
def Expr.form : Expr → Form
  | .missing => .node [] []
  | .assign target value => .node ['='] [.word target.lexeme.toList, value.form]
  | .binary left op right => .node op.lexeme.toList [left.form, right.form]
  | .call callee _ args => .node "call".toList (callee.form :: forms args)
  | .group inner => .node "group".toList [inner.form]
  | .literal value => .word value.printed.toList
  | .logical left op right => .node op.lexeme.toList [left.form, right.form]
  | .unary op right => .node op.lexeme.toList [right.form]
  | .name token => .word token.lexeme.toList

/-- The forms of several expressions. -/
def Expr.forms : List Expr → List Form
  | [] => []
  | e :: more => e.form :: forms more

end

theorem Expr.forms_eq_map (es : List Expr) : Expr.forms es = es.map Expr.form := by
  induction es with
  | nil => rfl
  | cons e more ih => rw [forms, ih, List.map_cons]

/-- A form as a text of its own. -/
def Form.shown (f : Form) : String :=
  String.ofList f.text

theorem Form.spaced_eq (fs : List Form) :
    Form.spaced fs = (fs.map fun f => " " ++ f.shown).flatMap String.toList := by
  induction fs with
  | nil => rfl
  | cons f more ih => simp [Form.spaced, Form.shown, ih]

theorem parenthesized_eq (head : String) (fs : List Form) :
    parenthesized head (fs.map Form.shown) = (Form.node head.toList fs).shown := by
  refine String.toList_inj.mp ?_
  simp [parenthesized, Form.shown, Form.text, Form.spaced_eq, String.toList_join,
    Function.comp_def]

theorem parenthesized_assign (name : String) (value : Form) :
    parenthesized ("= " ++ name) [value.shown] =
      (Form.node ['='] [.word name.toList, value]).shown := by
  refine String.toList_inj.mp ?_
  simp [parenthesized, Form.shown, Form.text, Form.spaced]

section
variable {R : Likeness}

mutual

/-- A tree without holes has a prefix form, and that is the text of its form. -/
theorem Expr.Like.printed_eq (hR : ¬ R.holes) :
    ∀ {e e' : Expr}, e.Like R e' → e.printed = .ok e.form.shown
  | .missing, _, .missing h => absurd h hR
  | .assign _ _, _, .assign _ hv => by
      rw [Expr.printed, hv.printed_eq hR, form, ← parenthesized_assign]
      rfl
  | .binary _ _ _, _, .binary hl _ hr => by
      rw [Expr.printed, hl.printed_eq hR, hr.printed_eq hR, form, ← parenthesized_eq]
      rfl
  | .call _ _ _, _, .call hf _ hargs => by
      rw [Expr.printed, hf.printed_eq hR, Expr.likeAll_printed hR hargs, form, ← parenthesized_eq]
      rfl
  | .group _, _, .group h => by
      rw [Expr.printed, h.printed_eq hR, form, ← parenthesized_eq]
      rfl
  | .literal _, _, .literal => by
      rw [Expr.printed, form, Form.shown, Form.text, String.ofList_toList]
  | .logical _ _ _, _, .logical hl _ hr => by
      rw [Expr.printed, hl.printed_eq hR, hr.printed_eq hR, form, ← parenthesized_eq]
      rfl
  | .unary _ _, _, .unary _ h => by
      rw [Expr.printed, h.printed_eq hR, form, ← parenthesized_eq]
      rfl
  | .name _, _, .name _ => by
      rw [Expr.printed, form, Form.shown, Form.text, String.ofList_toList]

theorem Expr.likeAll_printed (hR : ¬ R.holes) : ∀ {es es' : List Expr},
    List.Forall₂ (Expr.Like R) es es' → printedAll es = .ok ((Expr.forms es).map Form.shown)
  | [], _, .nil => rfl
  | e :: more, _, .cons h hs => by
      rw [printedAll, h.printed_eq hR, Expr.likeAll_printed hR hs]
      rfl

end

end

/-! ## The words of a form -/

/-- A token of a source text: its text is a token of its kind, and its literal is read off the
text. -/
structure Token.Scanned (t : Token) : Prop where
  lexeme : Lexeme t.kind t.lexeme.toList
  literal : t.literal = literalOf t.kind t.lexeme.toList

namespace Likeness

/-- The likeness to itself of a tree that is made of tokens of source texts. -/
def scanned : Likeness where
  token := fun ρ t u => t = u ∧ ρ.fits t.kind = true ∧ t.Scanned
  holes := False

/-- The likeness of trees that differ in the lines of their tokens only. -/
def alike : Likeness where
  token := fun _ t u => t.Alike u
  holes := False

end Likeness

theorem isDigit_of_isAsciiDigit {c : Char} (h : isAsciiDigit c = true) : isDigit c = true := by
  have hlow : c.toNat < 0x100 := by
    simp only [isAsciiDigit, Bool.and_eq_true, decide_eq_true_eq] at h
    omega
  rwa [isDigit, if_pos hlow]

/-- The kind of the token that a text begins with, if it begins with one. -/
def leadingKind? : List Char → Option Kind
  | [] => none
  | c :: rest =>
    match (Piece.first c rest).shape with
    | .token kind => some kind
    | _ => none

theorem leadingKind?_lexeme {kind : Kind} {text : List Char} (h : Lexeme kind text) :
    leadingKind? text = some kind := by
  cases text with
  | nil =>
      cases h with
      | keyword hword =>
          obtain ⟨c, tail, hnil, -⟩ := keyword_text hword
          cases hnil
  | cons c rest => rw [leadingKind?, Piece.first_lexeme h]

/-- A text is a token of one kind only. -/
theorem lexeme_unique {kind kind' : Kind} {text : List Char} (h : Lexeme kind text)
    (h' : Lexeme kind' text) : kind = kind' :=
  Option.some.inj ((leadingKind?_lexeme h).symm.trans (leadingKind?_lexeme h'))

/-- Scanned tokens with the same text are alike. -/
theorem Token.Scanned.alike {t u : Token} (ht : t.Scanned) (hu : u.Scanned)
    (h : t.lexeme.toList = u.lexeme.toList) : t.Alike u := by
  have hkind : t.kind = u.kind := lexeme_unique (h ▸ ht.lexeme) hu.lexeme
  exact ⟨hkind, String.toList_inj.mp h, by rw [ht.literal, hu.literal, hkind, h]⟩

/-- Tokens are bare words, but for strings and parentheses. -/
theorem lexeme_bare {kind : Kind} {text : List Char} (h : Lexeme kind text)
    (hkind : kind ∉ [.string, .leftParen, .rightParen]) : Form.Bare text := by
  refine ⟨?_, fun c hc => ?_⟩
  · rintro rfl
    cases leadingKind?_lexeme h
  · rcases lexeme_chars h with ⟨rfl, -⟩ | ⟨d, rfl, hd⟩ | hplain
    · exact absurd (by decide) hkind
    · have hsymbols : ∀ entry ∈ symbols, entry.2 ∉ [Kind.string, .leftParen, .rightParen] →
          entry.1 ∉ Form.marks := by decide
      rw [List.mem_singleton.mp hc]
      exact hsymbols _ hd hkind
    · have hmarks : Form.marks.all (fun d => !isPlain d) = true := by decide
      intro hmem
      have hnot := List.all_eq_true.mp hmarks c hmem
      rw [hplain c hc] at hnot
      exact absurd hnot (by decide)

namespace Number

/-- The text of a magnitude is a bare word that begins with a number or a plus sign. -/
theorem IsMagnitude.printed_word {x : Float} (h : IsMagnitude x) :
    Form.Bare (printed x).toList ∧ (leadingKind? (printed x).toList = some .number ∨
      leadingKind? (printed x).toList = some .plus) := by
  rcases h.printed_cases with ⟨-, htext⟩ | ⟨-, htext⟩
  · rw [htext]
    exact ⟨by decide, Or.inr (by decide)⟩
  · obtain ⟨c, rest, hd, hc, hrest⟩ := (Decimal.ofBits (Binary64.magnitude x)).positional_text
    have hmarks : Form.marks.all (fun d => !(isAsciiDigit d || d == '.')) = true := by decide
    rw [htext, String.toList_ofList, hd]
    refine ⟨⟨List.cons_ne_nil _ _, fun d hd hmem => ?_⟩, Or.inl ?_⟩
    · have hnot : ¬ (isAsciiDigit d = true ∨ d = '.') := by
        simpa using List.all_eq_true.mp hmarks d hmem
      rcases List.mem_cons.mp hd with rfl | hd
      · exact hnot (Or.inl hc)
      · exact hnot (hrest d hd)
    · rw [leadingKind?, Piece.first_number (isDigit_of_isAsciiDigit hc)]

end Number

/-! ## The sort of a node -/

/-- The sorts of nodes that a prefix form tells apart. Literals are sorted by what they begin with. -/
inductive NodeKind where
  | missing | assign | binary | call | group | logical | unary | name
  | literal (leading : Kind)
  deriving DecidableEq

def Literal.leading : Literal → Kind
  | .nil => .kwNil
  | .bool _ => .kwTrue
  | .number _ => .number
  | .string _ => .string

def Expr.nodeKind : Expr → NodeKind
  | .missing => .missing
  | .assign _ _ => .assign
  | .binary _ _ _ => .binary
  | .call _ _ _ => .call
  | .group _ => .group
  | .literal value => .literal value.leading
  | .logical _ _ _ => .logical
  | .unary _ _ => .unary
  | .name _ => .name

/-- The sort of the node that a form shows, told by what it begins with. -/
def Form.nodeKind : Form → NodeKind
  | .word text =>
    match leadingKind? text with
    | some .identifier => .name
    | some .kwNil => .literal .kwNil
    | some .kwTrue | some .kwFalse => .literal .kwTrue
    | some .number | some .plus => .literal .number
    | _ => .literal .string
  | .node head parts =>
    if leadingKind? head = some .equal then .assign
    else if leadingKind? head = some .identifier then
      if head = "call".toList then .call else .group
    else if (leadingKind? head).any Role.logical.fits then .logical
    else if parts.length = 1 then .unary
    else .binary

/-- Two heads look like names. -/
theorem Form.nodeKind_named {head : List Char} (h : leadingKind? head = some .identifier)
    (parts : List Form) :
    (Form.node head parts).nodeKind = if head = "call".toList then .call else .group := by
  rw [Form.nodeKind, h, if_neg (by decide), if_pos rfl]

/-- A form of words that shows a node of a given sort. -/
structure Form.Tells (f : Form) (kind : NodeKind) : Prop where
  legible : f.Legible
  nodeKind : f.nodeKind = kind

theorem Literal.printed_tells {v : Literal} (h : ∀ x, v = .number x → Number.IsMagnitude x) :
    (Form.word v.printed.toList).Tells (.literal v.leading) := by
  cases v with
  | nil => exact ⟨.word (.bare (by decide)), by decide⟩
  | bool b => cases b <;> exact ⟨.word (.bare (by decide)), by decide⟩
  | number x =>
      obtain ⟨hbare, hkind⟩ := (h x rfl).printed_word
      refine ⟨.word (.bare hbare), ?_⟩
      rcases hkind with hkind | hkind <;> simp only [Form.nodeKind, printed, hkind, leading]
  | string s =>
      refine ⟨.word (.quoted s), ?_⟩
      -- Whether the string would be read to its end does not matter.
      have hquote (rest : List Char) : leadingKind? ('"' :: rest) = some .string ∨
          leadingKind? ('"' :: rest) = none := by
        have hfirst : Piece.first '"' rest = Piece.ofQuote '"' rest := rfl
        rw [leadingKind?, hfirst, Piece.ofQuote]
        cases stringTail? rest with
        | some tail => exact Or.inl rfl
        | none => exact Or.inr rfl
      rw [Form.nodeKind, printed, Quoted.toList_encode]
      rcases hquote (s.toList.flatMap Quoted.escape ++ ['"']) with hkind | hkind <;>
        rw [hkind] <;> rfl

theorem Token.Scanned.name_tells {t : Token} (ht : t.Scanned)
    (hfits : Role.name.fits t.kind = true) : (Form.word t.lexeme.toList).Tells .name := by
  have hkind : t.kind = .identifier := beq_iff_eq.mp hfits
  have hlexeme := ht.lexeme
  rw [hkind] at hlexeme
  refine ⟨.word (.bare (lexeme_bare hlexeme (by decide))), ?_⟩
  simp only [Form.nodeKind, leadingKind?_lexeme hlexeme]

theorem Token.Scanned.paren_text {t : Token} (ht : t.Scanned)
    (hfits : Role.paren.fits t.kind = true) : t.lexeme.toList = [')'] := by
  have hkind : t.kind = .rightParen := beq_iff_eq.mp hfits
  have hlexeme := ht.lexeme
  rw [hkind] at hlexeme
  exact Piece.lexeme_symbol (by decide) hlexeme

/-- Operators are neither equals signs nor names, and those of the two sorts differ. -/
theorem Role.fits_operator {ρ : Role} {kind : Kind} (hρ : ρ ∈ [Role.binary, .logical, .unary])
    (h : ρ.fits kind = true) : kind ≠ .equal ∧ kind ≠ .identifier ∧
      kind ∉ [.string, .leftParen, .rightParen] ∧ Role.logical.fits kind = decide (ρ = .logical) := by
  simp only [List.mem_cons, List.not_mem_nil, or_false] at hρ
  rcases hρ with rfl | rfl | rfl
  · have hall : ∀ kind ∈ [Kind.bangEqual, .equalEqual, .greater, .greaterEqual, .less, .lessEqual,
        .minus, .plus, .slash, .star], kind ≠ .equal ∧ kind ≠ .identifier ∧
          kind ∉ [.string, .leftParen, .rightParen] ∧ Role.logical.fits kind = false := by decide
    exact hall kind (List.contains_iff_mem.mp h)
  · rcases Bool.or_eq_true_iff.mp h with h | h <;> rw [beq_iff_eq.mp h] <;> decide
  · rcases Bool.or_eq_true_iff.mp h with h | h <;> rw [beq_iff_eq.mp h] <;> decide

theorem Token.Scanned.operator_tells {ρ : Role} {t : Token} (ht : t.Scanned)
    (hρ : ρ ∈ [Role.binary, .logical, .unary]) (hfits : ρ.fits t.kind = true) {parts : List Form}
    (hparts : ∀ part ∈ parts, part.Legible) : (Form.node t.lexeme.toList parts).Tells
      (if ρ = .logical then .logical else if parts.length = 1 then .unary else .binary) := by
  obtain ⟨hequal, hname, hbare, hlogical⟩ := Role.fits_operator hρ hfits
  refine ⟨.node (lexeme_bare ht.lexeme hbare) hparts, ?_⟩
  simp [Form.nodeKind, leadingKind?_lexeme ht.lexeme, hequal, hname, hlogical]

/-! ## Trees of scanned tokens -/

/-- A tree that is made of tokens of source texts and whose numbers are magnitudes. -/
structure Expr.Readable (e : Expr) : Prop where
  tokens : e.Like .scanned e
  numbers : ∀ x, (Expr.literal (.number x)).Inside e → Number.IsMagnitude x

theorem Expr.Readable.part {e part : Expr} (h : e.Readable) (hpart : part ∈ e.parts) :
    part.Readable where
  tokens := List.forall₂_same.mp h.tokens.parts part hpart
  numbers := fun x hx => h.numbers x (.deeper hpart hx)

/-- The form of a tree tells the sort of its node. -/
theorem Expr.Readable.form_tells {e : Expr} (h : e.Readable) : e.form.Tells e.nodeKind := by
  -- The forms of the parts are legible by induction, whatever the node; the head is looked at.
  induction e using Expr.parts_induction with
  | step e ih =>
      have hparts : ∀ f ∈ e.parts.map Expr.form, f.Legible := by
        intro f hf
        obtain ⟨part, hpart, rfl⟩ := List.mem_map.mp hf
        exact (ih part hpart (h.part hpart)).legible
      have hequal : leadingKind? ['='] = some .equal := by decide
      cases h.tokens with
      | missing hhole => exact hhole.elim
      | assign hn _ =>
          refine ⟨.node (by decide) ?_, by rw [form, Form.nodeKind, if_pos hequal]; rfl⟩
          exact List.forall_mem_cons.mpr ⟨(hn.2.2.name_tells hn.2.1).legible, hparts⟩
      | binary _ hop _ => exact hop.2.2.operator_tells (by decide) hop.2.1 hparts
      | call _ _ _ =>
          rw [form, forms_eq_map]
          refine ⟨.node (by decide) hparts, ?_⟩
          exact (Form.nodeKind_named (by decide) _).trans (if_pos rfl)
      | group _ =>
          refine ⟨.node (by decide) hparts, ?_⟩
          exact (Form.nodeKind_named (by decide) _).trans (if_neg (by decide))
      | literal => exact Literal.printed_tells fun x hx => h.numbers x (hx ▸ .here)
      | logical _ hop _ => exact hop.2.2.operator_tells (by decide) hop.2.1 hparts
      | unary hop _ => exact hop.2.2.operator_tells (by decide) hop.2.1 hparts
      | name hn => exact hn.2.2.name_tells hn.2.1

/-! ## Reading a tree off its form -/

theorem Literal.printed_inj {v w : Literal} (hv : ∀ x, v = .number x → Number.IsMagnitude x)
    (hw : ∀ x, w = .number x → Number.IsMagnitude x) (hleading : v.leading = w.leading)
    (h : v.printed = w.printed) : v = w := by
  cases v with
  | nil =>
      cases w with
      | nil => rfl
      | _ => cases hleading
  | bool b =>
      cases w with
      | bool b' =>
          have htexts : ∀ b b', boolText b = boolText b' → b = b' := by decide
          rw [htexts b b' h]
      | _ => cases hleading
  | number x =>
      cases w with
      | number y => rw [Number.printed_inj (hv x rfl) (hw y rfl) h]
      | _ => cases hleading
  | string s =>
      cases w with
      | string t =>
          have hlists := congrArg (fun text => text.toList ++ []) h
          rw [(Quoted.encode_append_inj hlists).1]
      | _ => cases hleading

theorem forall₂_of_map_eq {α β : Type} {R : α → α → Prop} {f : α → β} {as bs : List α}
    (hR : ∀ a ∈ as, ∀ b ∈ bs, f a = f b → R a b) (h : as.map f = bs.map f) :
    List.Forall₂ R as bs := by
  induction as generalizing bs with
  | nil =>
      cases bs with
      | nil => exact .nil
      | cons b bs => cases h
  | cons a as ih =>
      cases bs with
      | nil => cases h
      | cons b bs =>
          obtain ⟨hhead, htail⟩ := List.cons.inj h
          refine .cons (hR a List.mem_cons_self b List.mem_cons_self hhead) (ih ?_ htail)
          exact fun a' ha' b' hb' =>
            hR a' (List.mem_cons_of_mem _ ha') b' (List.mem_cons_of_mem _ hb')

/-- Trees with the same form are alike. -/
theorem Expr.form_inj {e e' : Expr} (h : e.Readable) (h' : e'.Readable) (hform : e.form = e'.form) :
    e.Like .alike e' := by
  induction e using Expr.parts_induction generalizing e' with
  | step e ih =>
      -- Of all pairs of nodes only those of the same sort are left.
      have hkind : e.nodeKind = e'.nodeKind := by
        rw [← h.form_tells.nodeKind, ← h'.form_tells.nodeKind, hform]
      -- The parts at corresponding places have the same forms.
      have hpart {part part' : Expr} (hp : part ∈ e.parts) (hp' : part' ∈ e'.parts)
          (heq : part.form = part'.form) : part.Like .alike part' :=
        ih part hp (h.part hp) (h'.part hp') heq
      cases h.tokens with
      | missing hhole => exact hhole.elim
      | assign hn _ =>
          cases h'.tokens with
          | assign hn' _ =>
              simp only [form, Form.node.injEq, Form.word.injEq, List.cons.injEq] at hform
              obtain ⟨-, hname, hvalue, -⟩ := hform
              refine .assign (hn.2.2.alike hn'.2.2 hname) ?_
              exact hpart List.mem_cons_self List.mem_cons_self hvalue
          | _ => cases hkind
      | binary _ hop _ =>
          cases h'.tokens with
          | binary _ hop' _ =>
              simp only [form, Form.node.injEq, List.cons.injEq] at hform
              obtain ⟨hhead, hleft, hright, -⟩ := hform
              refine .binary (hpart List.mem_cons_self List.mem_cons_self hleft)
                (hop.2.2.alike hop'.2.2 hhead) ?_
              exact hpart (by simp [Expr.parts]) (by simp [Expr.parts]) hright
          | _ => cases hkind
      | call _ hparen _ =>
          cases h'.tokens with
          | call _ hparen' _ =>
              simp only [form, forms_eq_map, Form.node.injEq, List.cons.injEq] at hform
              obtain ⟨-, hcallee, hargs⟩ := hform
              -- The parenthesis of the call is not written, but they are all alike.
              refine .call (hpart List.mem_cons_self List.mem_cons_self hcallee)
                (hparen.2.2.alike hparen'.2.2 ?_) (forall₂_of_map_eq (fun a ha b hb => ?_) hargs)
              · rw [hparen.2.2.paren_text hparen.2.1, hparen'.2.2.paren_text hparen'.2.1]
              · exact hpart (List.mem_cons_of_mem _ ha) (List.mem_cons_of_mem _ hb)
          | _ => cases hkind
      | group _ =>
          cases h'.tokens with
          | group _ =>
              simp only [form, Form.node.injEq, List.cons.injEq] at hform
              exact .group (hpart List.mem_cons_self List.mem_cons_self hform.2.1)
          | _ => cases hkind
      | @literal v =>
          cases h'.tokens with
          | @literal w =>
              simp only [form, Form.word.injEq] at hform
              simp only [nodeKind, NodeKind.literal.injEq] at hkind
              have heq : v = w := Literal.printed_inj (fun x hx => h.numbers x (hx ▸ .here))
                (fun x hx => h'.numbers x (hx ▸ .here)) hkind (String.toList_inj.mp hform)
              rw [heq]
              exact .literal
          | _ => cases hkind
      | logical _ hop _ =>
          cases h'.tokens with
          | logical _ hop' _ =>
              simp only [form, Form.node.injEq, List.cons.injEq] at hform
              obtain ⟨hhead, hleft, hright, -⟩ := hform
              refine .logical (hpart List.mem_cons_self List.mem_cons_self hleft)
                (hop.2.2.alike hop'.2.2 hhead) ?_
              exact hpart (by simp [Expr.parts]) (by simp [Expr.parts]) hright
          | _ => cases hkind
      | unary hop _ =>
          cases h'.tokens with
          | unary hop' _ =>
              simp only [form, Form.node.injEq, List.cons.injEq] at hform
              obtain ⟨hhead, hright, -⟩ := hform
              refine .unary (hop.2.2.alike hop'.2.2 hhead) ?_
              exact hpart List.mem_cons_self List.mem_cons_self hright
          | _ => cases hkind
      | name hn =>
          cases h'.tokens with
          | name hn' =>
              simp only [form, Form.word.injEq] at hform
              exact .name (hn.2.2.alike hn'.2.2 hform)
          | _ => cases hkind

mutual

/-- Trees that are alike have the same form. -/
theorem Expr.Like.form_eq : ∀ {e e' : Expr}, e.Like .alike e' → e.form = e'.form
  | .missing, _, .missing _ => rfl
  | .assign _ _, _, .assign hn hv => by simp only [form, hn.lexeme, hv.form_eq]
  | .binary _ _ _, _, .binary hl hop hr => by simp only [form, hop.lexeme, hl.form_eq, hr.form_eq]
  | .call _ _ _, _, .call hf _ hargs => by simp only [form, hf.form_eq, Expr.likeAll_forms hargs]
  | .group _, _, .group h => by simp only [form, h.form_eq]
  | .literal _, _, .literal => rfl
  | .logical _ _ _, _, .logical hl hop hr => by simp only [form, hop.lexeme, hl.form_eq, hr.form_eq]
  | .unary _ _, _, .unary hop h => by simp only [form, hop.lexeme, h.form_eq]
  | .name _, _, .name hn => by simp only [form, hn.lexeme]

theorem Expr.likeAll_forms : ∀ {es es' : List Expr}, List.Forall₂ (Expr.Like .alike) es es' →
    Expr.forms es = Expr.forms es'
  | [], _, .nil => rfl
  | _ :: _, _, .cons h hs => by simp only [forms, h.form_eq, Expr.likeAll_forms hs]

end

/-- Trees of scanned tokens have prefix forms that stand on one line, and these are equal exactly if
the trees are alike. -/
theorem Expr.Readable.printed {e : Expr} (h : e.Readable) :
    ∃ text, e.printed = .ok text ∧ '\n' ∉ text.toList ∧
      ∀ {e' : Expr} {text' : String}, e'.Readable → e'.printed = .ok text' →
        (text = text' ↔ e.Like .alike e') := by
  refine ⟨e.form.shown, h.tokens.printed_eq id, ?_, fun {e' text'} h' htext => ?_⟩
  · rw [Form.shown, String.toList_ofList]
    exact h.form_tells.legible.lineFeed
  · obtain rfl := Except.ok.inj ((h'.tokens.printed_eq id).symm.trans htext)
    refine ⟨fun hshown => form_inj h h' ?_, fun hlike => by rw [Form.shown, hlike.form_eq]; rfl⟩
    exact Form.text_inj h.form_tells.legible h'.form_tells.legible (String.ofList_injective hshown)

end LoxLang
