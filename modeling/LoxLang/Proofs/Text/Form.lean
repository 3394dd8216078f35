import LoxLang.Proofs.Text.Quoted

set_option autoImplicit false

/-! # Forms in parentheses

A `Form` is a word, or a head and parts in parentheses. Its text can be read in one way only, wherever
it stands (`Form.text_append_inj`): a bare word ends before the next blank or parenthesis, a quoted one
at its closing quote, and a form in parentheses is read part by part. -/

namespace LoxLang

/-- A word, or a head and parts in parentheses. -/
inductive Form where
  | word (text : List Char)
  | node (head : List Char) (parts : List Form)

namespace Form

mutual

/-- The text of a form. -/
def text : Form → List Char
  | .word text => text
  | .node head parts => '(' :: (head ++ (spaced parts ++ [')']))

/-- The texts of several forms, with a blank before each. -/
def spaced : List Form → List Char
  | [] => []
  | part :: more => ' ' :: (part.text ++ spaced more)

end

/-- The characters that set words off, and the line feed. -/
def marks : List Char := [' ', '(', ')', '"', '\n']

/-- A word without any of the marks. -/
structure Bare (word : List Char) : Prop where
  ne_nil : word ≠ []
  plain : ∀ c ∈ word, c ∉ marks

instance (word : List Char) : Decidable (Bare word) :=
  decidable_of_iff (word ≠ [] ∧ word.all (fun c => !marks.contains c) = true)
    ⟨fun h => ⟨h.1, by simpa using h.2⟩, fun h => ⟨h.ne_nil, by simpa using h.plain⟩⟩

/-- A bare word or a quoted text. -/
inductive Word : List Char → Prop
  | bare {word : List Char} : Bare word → Word word
  | quoted (s : String) : Word (Quoted.encode s).toList

/-- Forms that are made of words. -/
inductive Legible : Form → Prop
  | word {text : List Char} : Word text → Legible (.word text)
  | node {head : List Char} {parts : List Form} :
    Bare head → (∀ part ∈ parts, Legible part) → Legible (.node head parts)

/-- What can stand behind a form: nothing, a blank or a closing parenthesis. -/
def Ended (rest : List Char) : Prop :=
  ∀ c, rest.head? = some c → c = ' ' ∨ c = ')'

theorem ended_nil : Ended [] :=
  fun _ h => nomatch h

theorem ended_spaced (parts : List Form) (rest : List Char) :
    Ended (spaced parts ++ ')' :: rest) := by
  cases parts with
  | nil =>
      rintro c ⟨⟩
      exact Or.inr rfl
  | cons part more =>
      rintro c ⟨⟩
      exact Or.inl rfl

/-! ## Words -/

theorem Bare.head {word : List Char} (h : Bare word) :
    ∃ c more, word = c :: more ∧ c ≠ '(' ∧ c ≠ '"' := by
  obtain ⟨c, more, rfl⟩ := List.exists_cons_of_ne_nil h.ne_nil
  have hc := h.plain c List.mem_cons_self
  simp only [marks, List.mem_cons, not_or] at hc
  exact ⟨c, more, rfl, hc.2.1, hc.2.2.2.1⟩

/-- A bare word does not go on where another one has ended. -/
theorem Bare.ends {word extra rest : List Char} (h : Bare (word ++ extra))
    (hrest : Ended (extra ++ rest)) : extra = [] := by
  cases extra with
  | nil => rfl
  | cons c extra =>
      have hc := h.plain c (List.mem_append_right _ List.mem_cons_self)
      simp only [marks, List.mem_cons, not_or] at hc
      rcases hrest c rfl with rfl | rfl
      · exact absurd rfl hc.1
      · exact absurd rfl hc.2.2.1

section
variable {word word' rest rest' : List Char} (hrest : Ended rest) (hrest' : Ended rest')

include hrest hrest'

theorem Bare.append_inj (hw : Bare word) (hw' : Bare word')
    (h : word ++ rest = word' ++ rest') : word = word' ∧ rest = rest' := by
  rcases List.append_eq_append_iff.mp h with ⟨extra, rfl, rfl⟩ | ⟨extra, rfl, rfl⟩
  · rw [hw'.ends hrest]
    simp
  · rw [hw.ends hrest']
    simp

theorem Word.append_inj (hw : Word word) (hw' : Word word')
    (h : word ++ rest = word' ++ rest') : word = word' ∧ rest = rest' := by
  cases hw with
  | bare hw =>
      cases hw' with
      | bare hw' => exact hw.append_inj hrest hrest' hw' h
      | quoted s' =>
          obtain ⟨c, more, rfl, -, hquote⟩ := hw.head
          rw [Quoted.toList_encode] at h
          exact absurd (List.cons.inj h).1 hquote
  | quoted s =>
      cases hw' with
      | bare hw' =>
          obtain ⟨c, more, rfl, -, hquote⟩ := hw'.head
          rw [Quoted.toList_encode] at h
          exact absurd (List.cons.inj h).1.symm hquote
      | quoted s' =>
          obtain ⟨rfl, hbehind⟩ := Quoted.encode_append_inj h
          exact ⟨rfl, hbehind⟩

end

theorem Word.head {word : List Char} (h : Word word) : ∃ c more, word = c :: more ∧ c ≠ '(' := by
  cases h with
  | bare h =>
      obtain ⟨c, more, hword, hc, -⟩ := h.head
      exact ⟨c, more, hword, hc⟩
  | quoted s => exact ⟨'"', _, Quoted.toList_encode s, by decide⟩

/-! ## Unique reading -/

mutual

/-- A form can be told from what follows it. -/
theorem text_append_inj : ∀ {f g : Form} {rest rest' : List Char}, f.Legible → g.Legible →
    Ended rest → Ended rest' → f.text ++ rest = g.text ++ rest' → f = g ∧ rest = rest'
  | .word _, .word _, _, _, .word hw, .word hw', hrest, hrest', h => by
      obtain ⟨rfl, hbehind⟩ := hw.append_inj hrest hrest' hw' h
      exact ⟨rfl, hbehind⟩
  | .word _, .node _ _, _, _, .word hw, .node _ _, _, _, h => by
      -- A word does not begin with a parenthesis.
      obtain ⟨c, more, hword, hc⟩ := hw.head
      rw [text, hword] at h
      exact absurd (List.cons.inj h).1 hc
  | .node _ _, .word _, _, _, .node _ _, .word hw, _, _, h => by
      obtain ⟨c, more, hword, hc⟩ := hw.head
      rw [text, text, hword] at h
      exact absurd (List.cons.inj h).1.symm hc
  | .node head parts, .node head' parts', rest, rest', .node hhead hparts, .node hhead' hparts', _,
      _, h => by
      simp only [text, List.cons_append, List.append_assoc, List.nil_append] at h
      -- Behind the head there is a blank or a parenthesis, whether it has parts or not.
      obtain ⟨rfl, hspaced⟩ := hhead.append_inj (ended_spaced parts rest)
        (ended_spaced parts' rest') hhead' (List.cons.inj h).2
      obtain ⟨rfl, hbehind⟩ := spaced_append_inj hparts hparts' hspaced
      exact ⟨rfl, hbehind⟩

theorem spaced_append_inj : ∀ {fs gs : List Form} {rest rest' : List Char},
    (∀ f ∈ fs, f.Legible) → (∀ g ∈ gs, g.Legible) →
    spaced fs ++ ')' :: rest = spaced gs ++ ')' :: rest' → fs = gs ∧ rest = rest'
  | [], [], _, _, _, _, h => ⟨rfl, (List.cons.inj h).2⟩
  | [], _ :: _, _, _, _, _, h => absurd (List.cons.inj h).1 (by decide)
  | _ :: _, [], _, _, _, _, h => absurd (List.cons.inj h).1 (by decide)
  | f :: fs, g :: gs, rest, rest', hfs, hgs, h => by
      simp only [spaced, List.cons_append, List.append_assoc] at h
      rw [List.forall_mem_cons] at hfs hgs
      obtain ⟨rfl, hmore⟩ := text_append_inj hfs.1 hgs.1 (ended_spaced fs rest)
        (ended_spaced gs rest') (List.cons.inj h).2
      obtain ⟨rfl, hbehind⟩ := spaced_append_inj hfs.2 hgs.2 hmore
      exact ⟨rfl, hbehind⟩

end

/-- Forms with the same text are equal. -/
theorem text_inj {f g : Form} (hf : f.Legible) (hg : g.Legible) (h : f.text = g.text) : f = g :=
  (text_append_inj hf hg ended_nil ended_nil (congrArg (· ++ []) h)).1

/-! ## Line feeds -/

theorem Bare.lineFeed {word : List Char} (h : Bare word) : '\n' ∉ word :=
  fun hmem => h.plain '\n' hmem (by decide)

theorem spaced_lineFeed {parts : List Form} (h : ∀ part ∈ parts, '\n' ∉ part.text) :
    '\n' ∉ spaced parts := by
  induction parts with
  | nil => exact List.not_mem_nil
  | cons part more ih =>
      rw [List.forall_mem_cons] at h
      simp [spaced, h.1, ih h.2]

/-- A form stands on one line. -/
theorem Legible.lineFeed {f : Form} (h : f.Legible) : '\n' ∉ f.text := by
  induction h with
  | word hword =>
      cases hword with
      | bare hbare => exact hbare.lineFeed
      | quoted s => exact Quoted.encode_lineFeed s
  | node hhead _ ih => simp [text, hhead.lineFeed, spaced_lineFeed ih]

end Form

end LoxLang
