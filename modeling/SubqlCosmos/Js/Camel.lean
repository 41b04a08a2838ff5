import Mathlib.Data.List.Basic
import Mathlib.Logic.Relation

/-!
# Camel case

Words written in one, each with its first letter in upper case. Where one word ends and the next one
begins is not written down, so different words can give the same text: they are those that lead to
each other by writing a word in upper case, by joining words and by leaving out empty ones.
-/

namespace Js
namespace Camel

variable {α : Type}

/-- What is expected of the function that writes the first letter of a word in upper case. -/
structure Capitalises (capitalise : List α → List α) : Prop where
  empty : capitalise [] = []
  idempotent : ∀ word, capitalise (capitalise word) = capitalise word
  longer : ∀ word more, word ≠ [] → capitalise word = word → capitalise more = more →
    capitalise (word ++ more) = word ++ more

/-- The words in one. -/
def camel (capitalise : List α → List α) (words : List (List α)) : List α := words.flatMap capitalise

/-- A change of the words. -/
inductive Move (capitalise : List α → List α) : List (List α) → List (List α) → Prop
  /-- A word is written in upper case. -/
  | raise (front : List (List α)) (word : List α) (back : List (List α)) :
      Move capitalise (front ++ word :: back) (front ++ capitalise word :: back)
  /-- Two words that are written in upper case are joined. -/
  | join (front : List (List α)) {word more : List α} (back : List (List α)) (nonempty : word ≠ [])
      (raised : capitalise word = word) (raisedMore : capitalise more = more) :
      Move capitalise (front ++ word :: more :: back) (front ++ (word ++ more) :: back)
  /-- An empty word is left out. -/
  | drop (front back : List (List α)) : Move capitalise (front ++ [] :: back) (front ++ back)

/-- The words lead to each other. -/
def Interchangeable (capitalise : List α → List α) : List (List α) → List (List α) → Prop :=
  Relation.EqvGen (Move capitalise)

section Moves

variable {capitalise : List α → List α}

@[simp]
theorem camel_nil : camel capitalise [] = [] := rfl

@[simp]
theorem camel_cons (word : List α) (words : List (List α)) :
    camel capitalise (word :: words) = capitalise word ++ camel capitalise words := rfl

@[simp]
theorem camel_append (front back : List (List α)) :
    camel capitalise (front ++ back) = camel capitalise front ++ camel capitalise back :=
  List.flatMap_append

theorem camel_eq_of_move (laws : Capitalises capitalise) {words others : List (List α)}
    (move : Move capitalise words others) : camel capitalise words = camel capitalise others := by
  cases move with
  | raise front word back => simp [laws.idempotent word]
  | join front back nonempty raised raisedMore =>
      simp [raised, raisedMore, laws.longer _ _ nonempty raised raisedMore]
  | drop front back => simp [laws.empty]

theorem camel_eq_of_interchangeable (laws : Capitalises capitalise) {words others : List (List α)}
    (same : Interchangeable capitalise words others) :
    camel capitalise words = camel capitalise others := by
  induction same with
  | rel words others move => exact camel_eq_of_move laws move
  | refl words => rfl
  | symm words others _ induction => exact induction.symm
  | trans words between others _ _ first second => exact first.trans second

/-! ## Below a first word -/

theorem Move.cons (word : List α) {words others : List (List α)}
    (move : Move capitalise words others) : Move capitalise (word :: words) (word :: others) := by
  cases move with
  | raise front other back => exact .raise (word :: front) other back
  | join front back nonempty raised raisedMore =>
      exact .join (word :: front) back nonempty raised raisedMore
  | drop front back => exact .drop (word :: front) back

namespace Interchangeable

theorem of_move {words others : List (List α)} (move : Move capitalise words others) :
    Interchangeable capitalise words others :=
  Relation.EqvGen.rel _ _ move

theorem refl (words : List (List α)) : Interchangeable capitalise words words :=
  Relation.EqvGen.refl _

theorem symm {words others : List (List α)} (same : Interchangeable capitalise words others) :
    Interchangeable capitalise others words :=
  Relation.EqvGen.symm _ _ same

theorem trans {words between others : List (List α)}
    (first : Interchangeable capitalise words between)
    (second : Interchangeable capitalise between others) :
    Interchangeable capitalise words others :=
  Relation.EqvGen.trans _ _ _ first second

theorem cons (word : List α) {words others : List (List α)}
    (same : Interchangeable capitalise words others) :
    Interchangeable capitalise (word :: words) (word :: others) := by
  induction same with
  | rel words others move => exact of_move (move.cons word)
  | refl words => exact refl _
  | symm words others _ induction => exact induction.symm
  | trans words between others _ _ first second => exact first.trans second

end Interchangeable

/-! ## One word -/

theorem interchangeable_map (words : List (List α)) :
    Interchangeable capitalise words (words.map capitalise) := by
  induction words with
  | nil => exact .refl _
  | cons word words induction =>
      have first : Interchangeable capitalise (word :: words) (capitalise word :: words) :=
        .of_move (.raise [] word words)
      exact first.trans (induction.cons _)

/-- The text as words: one, or none if it is empty. -/
def single (text : List α) : List (List α) := [text].filter (· ≠ [])

theorem single_of_ne_nil {text : List α} (nonempty : text ≠ []) : single text = [text] := by
  simp [single, nonempty]

theorem capitalise_flatten (laws : Capitalises capitalise) {words : List (List α)}
    (raised : ∀ word ∈ words, capitalise word = word) :
    capitalise words.flatten = words.flatten := by
  induction words with
  | nil => exact laws.empty
  | cons word words induction =>
      have rest := induction fun other member => raised other (List.mem_cons_of_mem _ member)
      rw [List.flatten_cons]
      by_cases empty : word = []
      · rw [empty, List.nil_append, rest]
      · exact laws.longer _ _ empty (raised word List.mem_cons_self) rest

/-- Words that are written in upper case are joined to one. -/
theorem interchangeable_single (laws : Capitalises capitalise) {words : List (List α)}
    (raised : ∀ word ∈ words, capitalise word = word) :
    Interchangeable capitalise words (single words.flatten) := by
  induction words with
  | nil => exact .refl _
  | cons word words induction =>
      have raisedRest : ∀ other ∈ words, capitalise other = other := fun other member =>
        raised other (List.mem_cons_of_mem _ member)
      have rest := induction raisedRest
      by_cases empty : word = []
      · subst empty
        exact (Interchangeable.of_move (.drop [] words)).trans rest
      · have whole : (word :: words).flatten ≠ [] := by simp [empty]
        rw [single_of_ne_nil whole, List.flatten_cons]
        have joined := rest.cons word
        by_cases last : words.flatten = []
        · rw [last] at joined ⊢
          rw [List.append_nil]
          exact joined
        · rw [single_of_ne_nil last] at joined
          exact joined.trans (.of_move (.join [] [] empty (raised word List.mem_cons_self)
            (capitalise_flatten laws raisedRest)))

theorem interchangeable_camel (laws : Capitalises capitalise) (words : List (List α)) :
    Interchangeable capitalise words (single (camel capitalise words)) := by
  have raised : ∀ word ∈ words.map capitalise, capitalise word = word := by
    intro word member
    obtain ⟨original, -, rfl⟩ := List.mem_map.mp member
    exact laws.idempotent original
  have joined := interchangeable_single laws raised
  rw [← List.flatMap_def] at joined
  exact (interchangeable_map words).trans joined

theorem camel_eq_iff (laws : Capitalises capitalise) (words others : List (List α)) :
    camel capitalise words = camel capitalise others ↔ Interchangeable capitalise words others := by
  constructor
  · intro same
    have toText := interchangeable_camel laws words
    rw [same] at toText
    exact toText.trans (interchangeable_camel laws others).symm
  · exact camel_eq_of_interchangeable laws

end Moves

end Camel
end Js
