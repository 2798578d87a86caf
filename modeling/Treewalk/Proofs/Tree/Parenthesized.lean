import Treewalk.Proofs.Lexing.Lexeme
import Treewalk.Tree.Render

/-!
# Text between parentheses

A term is a word, or a list of terms between parentheses. Where a term ends is told by its text: a
word ends in front of a space or a closing parenthesis, and a list ends with the parenthesis that
closes it. So the parts between two parentheses can be found again, whatever they are.

## Main definitions

* `IsWord`, `IsTerm` — the texts of words and of terms
* `Laid` — a term that is a word, or has these parts

## Main results

* `IsTerm.endsHere` — no term is the beginning of another one
* `Laid.parts_unique` — the parts of a term
-/

namespace Treewalk

/-- The characters that stand in a word. -/
def joinsWord (c : Char) : Bool := c != ' ' && c != '(' && c != ')'

/-- A text without spaces and parentheses in it. -/
structure IsWord (text : String) : Prop where
  ne_empty : text ≠ ""
  joins : ∀ c ∈ text.toList, joinsWord c

theorem IsWord.of_toList {text : String} (hne : text.toList ≠ [])
    (h : ∀ c ∈ text.toList, joinsWord c) : IsWord text :=
  ⟨fun htext => hne (htext ▸ rfl), h⟩

instance (text : String) : Decidable (IsWord text) :=
  decidable_of_iff (text.toList ≠ [] ∧ text.toList.all joinsWord)
    ⟨fun h => .of_toList h.1 (List.all_eq_true.1 h.2),
      fun h => ⟨mt String.toList_eq_nil_iff.1 h.ne_empty, List.all_eq_true.2 h.joins⟩⟩

/-- A word, or terms between parentheses. -/
inductive IsTerm : String → Prop
  | word {text : String} (h : IsWord text) : IsTerm text
  | parenthesized {parts : List String} (h : ∀ part ∈ parts, IsTerm part) :
      IsTerm (parenthesized parts)

/-- What stands behind a term: the end, a space or a closing parenthesis. -/
def EndsTerm (rest : List Char) : Prop := ∀ c ∈ rest.head?, c = ' ' ∨ c = ')'

/-! ### The text of a list -/

/-- The text between the parentheses. -/
def interior (parts : List String) : List Char := (" ".intercalate parts).toList

theorem toList_parenthesized (parts : List String) :
    (parenthesized parts).toList = '(' :: (interior parts ++ [')']) := by
  rw [parenthesized, String.toList_append, String.toList_append]
  rfl

/-- What stands behind the first part. -/
def behindFirst : List String → List Char
  | [] => []
  | part :: parts => ' ' :: interior (part :: parts)

theorem interior_cons (part : String) (parts : List String) :
    interior (part :: parts) = part.toList ++ behindFirst parts := by
  cases parts with
  | nil => rw [interior, String.intercalate_singleton, behindFirst, List.append_nil]
  | cons next parts =>
    rw [interior, String.intercalate_cons_cons, String.toList_append, String.toList_append,
      List.append_assoc]
    rfl

theorem endsTerm_behindFirst (parts : List String) (rest : List Char) :
    EndsTerm (behindFirst parts ++ ')' :: rest) := by
  intro c hc
  cases parts with
  | nil => exact .inr (Option.some.inj hc).symm
  | cons part parts => exact .inl (Option.some.inj hc).symm

theorem not_joinsWord_of_endsTerm {rest : List Char} (h : EndsTerm rest) :
    ∀ c ∈ rest.head?, ¬joinsWord c := by
  intro c hc
  obtain rfl | rfl := h c hc <;> decide

/-! ### Where a term ends -/

variable {text text' : String} {rest rest' : List Char}

theorem IsWord.starts (h : IsWord text) : ∃ c cs, text.toList = c :: cs ∧ joinsWord c := by
  cases htext : text.toList with
  | nil => exact absurd (String.toList_eq_nil_iff.1 htext) h.ne_empty
  | cons c cs => exact ⟨c, cs, rfl, h.joins c (htext ▸ List.mem_cons_self)⟩

theorem IsTerm.starts (h : IsTerm text) : ∃ c cs, text.toList = c :: cs ∧ c ≠ ')' := by
  cases h with
  | word h =>
    obtain ⟨c, cs, htext, hc⟩ := h.starts
    refine ⟨c, cs, htext, ?_⟩
    rintro rfl
    exact absurd hc (by decide)
  | @parenthesized parts h => exact ⟨'(', _, toList_parenthesized parts, by decide⟩

/-- A closing parenthesis begins no term. -/
theorem IsTerm.append_ne_close (h : IsTerm text) : text.toList ++ rest ≠ ')' :: rest' := by
  obtain ⟨c, cs, htext, hc⟩ := h.starts
  rw [htext]
  exact fun heq => hc (List.cons.inj heq).1

/-- A list is no beginning of a text that begins with a word. -/
theorem IsWord.append_ne_parenthesized (h : IsWord text) (parts : List String) :
    text.toList ++ rest ≠ (parenthesized parts).toList ++ rest' := by
  obtain ⟨c, cs, htext, hc⟩ := h.starts
  rw [htext, toList_parenthesized]
  intro heq
  obtain rfl : c = '(' := (List.cons.inj heq).1
  exact absurd hc (by decide)

theorem IsWord.ne_parenthesized (h : IsWord text) (parts : List String) :
    text ≠ parenthesized parts := by
  intro heq
  have htext : text.toList ++ [] = (parenthesized parts).toList ++ [] := by rw [heq]
  exact h.append_ne_parenthesized parts htext

theorem IsWord.append_inj (h : IsWord text) (h' : IsWord text') (hrest : EndsTerm rest)
    (hrest' : EndsTerm rest') (heq : text.toList ++ rest = text'.toList ++ rest') :
    text = text' ∧ rest = rest' := by
  obtain ⟨htake, hdrop⟩ := Lexeme.span_append h.joins (not_joinsWord_of_endsTerm hrest)
  obtain ⟨htake', hdrop'⟩ := Lexeme.span_append h'.joins (not_joinsWord_of_endsTerm hrest')
  rw [heq] at htake hdrop
  exact ⟨String.toList_inj.1 (htake.symm.trans htake'), hdrop.symm.trans hdrop'⟩

/-- No other term stands at the start of a text that begins with this one. -/
def EndsHere (text : String) : Prop :=
  ∀ {text' : String} {rest rest' : List Char}, IsTerm text' → EndsTerm rest → EndsTerm rest' →
    text.toList ++ rest = text'.toList ++ rest' → text = text' ∧ rest = rest'

/-- The parts up to a closing parenthesis, if it is told where each of them ends. -/
theorem interior_append_inj {parts parts' : List String}
    (h : ∀ part ∈ parts, IsTerm part ∧ EndsHere part) (h' : ∀ part ∈ parts', IsTerm part)
    (heq : interior parts ++ ')' :: rest = interior parts' ++ ')' :: rest') :
    parts = parts' ∧ rest = rest' := by
  induction parts generalizing parts' with
  | nil =>
    cases parts' with
    | nil => exact ⟨rfl, (List.cons.inj heq).2⟩
    | cons part' parts' =>
      rw [interior_cons, List.append_assoc] at heq
      exact absurd heq.symm (h' part' List.mem_cons_self).append_ne_close
  | cons part parts ih =>
    rw [interior_cons, List.append_assoc] at heq
    obtain ⟨⟨hterm, hends⟩, hparts⟩ := List.forall_mem_cons.1 h
    cases parts' with
    | nil => exact absurd heq hterm.append_ne_close
    | cons part' parts' =>
      rw [interior_cons, List.append_assoc] at heq
      obtain ⟨hterm', hparts'⟩ := List.forall_mem_cons.1 h'
      obtain ⟨rfl, hbehind⟩ := hends hterm' (endsTerm_behindFirst parts rest)
        (endsTerm_behindFirst parts' rest') heq
      cases parts with
      | nil =>
        cases parts' with
        | nil => exact ⟨rfl, (List.cons.inj hbehind).2⟩
        | cons => exact absurd (List.cons.inj hbehind).1 (by decide)
      | cons =>
        cases parts' with
        | nil => exact absurd (List.cons.inj hbehind).1 (by decide)
        | cons =>
          obtain ⟨hrest, rfl⟩ := ih hparts hparts' (List.cons.inj hbehind).2
          exact ⟨congrArg _ hrest, rfl⟩

/-- No term is the beginning of another one: where it ends is told by its text. -/
theorem IsTerm.endsHere (h : IsTerm text) : EndsHere text := by
  induction h with
  | word h =>
    intro text' rest rest' h' hrest hrest' heq
    cases h' with
    | word h' => exact h.append_inj h' hrest hrest' heq
    | parenthesized => exact absurd heq (h.append_ne_parenthesized _)
  | @parenthesized parts h ih =>
    intro text' rest rest' h' hrest hrest' heq
    cases h' with
    | word h' => exact absurd heq.symm (h'.append_ne_parenthesized _)
    | @parenthesized parts' h' =>
      rw [toList_parenthesized, toList_parenthesized, List.cons_append, List.cons_append,
        List.append_assoc, List.append_assoc] at heq
      obtain ⟨rfl, hrest⟩ := interior_append_inj (fun part hpart => ⟨h part hpart, ih part hpart⟩)
        h' (List.cons.inj heq).2
      exact ⟨rfl, hrest⟩

/-! ### The parts of a term -/

/-- The text is a word, or that of these parts. -/
inductive Laid : String → Option (List String) → Prop
  | word {text : String} (h : IsWord text) : Laid text none
  | parts {parts : List String} (h : ∀ part ∈ parts, IsTerm part) :
      Laid (parenthesized parts) (some parts)

theorem Laid.isTerm {parts? : Option (List String)} (h : Laid text parts?) : IsTerm text := by
  cases h with
  | word h => exact .word h
  | parts h => exact .parenthesized h

theorem parenthesized_inj {parts parts' : List String} (h : ∀ part ∈ parts, IsTerm part)
    (h' : ∀ part ∈ parts', IsTerm part) (heq : parenthesized parts = parenthesized parts') :
    parts = parts' := by
  have htext := congrArg String.toList heq
  rw [toList_parenthesized, toList_parenthesized] at htext
  exact (interior_append_inj (fun part hpart => ⟨h part hpart, (h part hpart).endsHere⟩) h'
    (List.cons.inj htext).2).1

/-- The parts of a term are told by its text. -/
theorem Laid.parts_unique {parts? parts'? : Option (List String)} (h : Laid text parts?)
    (h' : Laid text' parts'?) (heq : text = text') : parts? = parts'? := by
  have htext : text.toList ++ [] = text'.toList ++ [] := by rw [heq]
  cases h with
  | word h =>
    cases h' with
    | word => rfl
    | parts => exact absurd htext (h.append_ne_parenthesized _)
  | parts h =>
    cases h' with
    | word h' => exact absurd htext.symm (h'.append_ne_parenthesized _)
    | parts h' => rw [parenthesized_inj h h' heq]

end Treewalk
