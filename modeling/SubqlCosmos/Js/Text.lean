import Mathlib

/-!
# Texts

Texts as lists of characters: searching for a pattern, cutting, and what splitting at a separator
does to a concatenation.
-/

namespace Js

/-! ## Searching -/

/-- The part of a text before the first occurrence of a pattern. -/
def before? (pattern : List Char) : List Char → Option (List Char)
  | [] => if pattern = [] then some [] else none
  | first :: text =>
      if pattern <+: first :: text then some [] else (before? pattern text).map (first :: ·)

theorem split_of_before? {pattern text front : List Char} (found : before? pattern text = some front) :
    ∃ back, text = front ++ pattern ++ back := by
  induction text generalizing front with
  | nil =>
      rw [before?] at found
      split at found
      · obtain rfl := Option.some.inj found
        exact ⟨[], by simp [*]⟩
      · cases found
  | cons first text induction =>
      rw [before?] at found
      split at found
      · obtain rfl := Option.some.inj found
        obtain ⟨back, same⟩ := ‹pattern <+: first :: text›
        exact ⟨back, same.symm⟩
      · obtain ⟨rest, foundRest, rfl⟩ := Option.map_eq_some_iff.mp found
        obtain ⟨back, rfl⟩ := induction foundRest
        exact ⟨back, rfl⟩

/-- A pattern that stands where its first character comes for the first time is found there. -/
theorem before?_of_first {first : Char} {pattern text : List Char}
    (leads : first :: pattern <+: text.dropWhile (· ≠ first)) :
    before? (first :: pattern) text = some (text.takeWhile (· ≠ first)) := by
  induction text with
  | nil => simp at leads
  | cons other text induction =>
      rw [before?]
      by_cases same : other = first
      · subst other
        have here : first :: pattern <+: first :: text := by simpa using leads
        rw [if_pos here]
        simp
      · have elsewhere : ¬first :: pattern <+: other :: text := fun here =>
          same (List.cons_prefix_cons.mp here).1.symm
        rw [if_neg elsewhere, induction (by simpa [same] using leads)]
        simp [same]

/-! ## Up to an item -/

section Items

variable {α : Type} [DecidableEq α] {item : α} {front : List α}

theorem all_ne_of_not_mem (absent : item ∉ front) : ∀ other ∈ front, decide (other ≠ item) = true := by
  intro other member
  have different : other ≠ item := ne_of_mem_of_not_mem member absent
  simpa using different

theorem takeWhile_ne_append (absent : item ∉ front) (rest : List α) :
    (front ++ rest).takeWhile (· ≠ item) = front ++ rest.takeWhile (· ≠ item) :=
  List.takeWhile_append_of_pos (all_ne_of_not_mem absent)

theorem takeWhile_ne_of_not_mem (absent : item ∉ front) : front.takeWhile (· ≠ item) = front :=
  List.takeWhile_eq_self_iff.mpr (all_ne_of_not_mem absent)

theorem dropWhile_ne_append (absent : item ∉ front) (rest : List α) :
    (front ++ item :: rest).dropWhile (· ≠ item) = item :: rest := by
  rw [List.dropWhile_append_of_pos (all_ne_of_not_mem absent)]
  simp

theorem dropWhile_ne_eq_nil_iff : front.dropWhile (· ≠ item) = [] ↔ item ∉ front := by
  rw [List.dropWhile_eq_nil_iff]
  refine ⟨fun all member => ?_, all_ne_of_not_mem⟩
  simpa using all item member

end Items

/-! ## Cutting off the end -/

/-- `text.slice(0, -1)`, which takes one UTF-16 unit away: of a character of two units it leaves the
first, which is read as the replacement character. -/
def dropUnit (text : List Char) : List Char :=
  match text.getLast? with
  | none => []
  | some last =>
      if last.toNat < 0x10000 then text.dropLast else text.dropLast ++ ['\uFFFD']

theorem dropUnit_concat (text : List Char) (last : Char) :
    ∃ rest, dropUnit (text ++ [last]) = text ++ rest := by
  rw [dropUnit, List.getLast?_concat, List.dropLast_concat]
  dsimp only
  split
  · exact ⟨[], (List.append_nil _).symm⟩
  · exact ⟨['\uFFFD'], rfl⟩

/-! ## Splitting -/

section Split

variable {α : Type} [DecidableEq α] {separator : α}

/-- Splitting a concatenation joins the last piece of the first part with the first piece of the
second. -/
theorem splitOn_append (separator : α) (left right : List α) :
    ∃ front last first back, left.splitOn separator = front ++ [last] ∧
      right.splitOn separator = first :: back ∧
        (left ++ right).splitOn separator = front ++ (last ++ first) :: back := by
  induction left with
  | nil =>
      obtain ⟨first, back, split⟩ :=
        List.exists_cons_of_ne_nil (List.splitOn_ne_nil separator right)
      exact ⟨[], [], first, back, rfl, split, split⟩
  | cons item left induction =>
      obtain ⟨front, last, first, back, leftSplit, rightSplit, joined⟩ := induction
      rw [List.cons_append, List.splitOn_cons_eq_if_modifyHead,
        List.splitOn_cons_eq_if_modifyHead, leftSplit, joined]
      by_cases same : item = separator
      · exact ⟨[] :: front, last, first, back, by simp [same], rightSplit, by simp [same]⟩
      · cases front with
        | nil => exact ⟨[], item :: last, first, back, by simp [same], rightSplit, by simp [same]⟩
        | cons piece front =>
            exact ⟨(item :: piece) :: front, last, first, back, by simp [same], rightSplit,
              by simp [same]⟩

theorem splitOn_head_cons {item : α} {text first : List α} {back : List (List α)}
    (different : item ≠ separator)
    (split : (item :: text).splitOn separator = first :: back) : ∃ tail, first = item :: tail := by
  obtain ⟨piece, pieces, below⟩ := List.exists_cons_of_ne_nil (List.splitOn_ne_nil separator text)
  rw [List.splitOn_cons_eq_if_modifyHead, below] at split
  obtain ⟨rfl, -⟩ := List.cons_eq_cons.mp (by simpa [different] using split)
  exact ⟨piece, rfl⟩

/-- The separator occurs in no piece. -/
theorem not_mem_of_mem_splitOn {text piece : List α} (member : piece ∈ text.splitOn separator) :
    separator ∉ piece := by
  induction text generalizing piece with
  | nil =>
      obtain rfl := List.mem_singleton.mp member
      exact List.not_mem_nil
  | cons item text induction =>
      obtain ⟨first, back, split⟩ :=
        List.exists_cons_of_ne_nil (List.splitOn_ne_nil separator text)
      rw [List.splitOn_cons_eq_if_modifyHead, split] at member
      by_cases same : item = separator
      · rw [if_pos (by simpa using same)] at member
        rcases List.mem_cons.mp member with rfl | later
        · exact List.not_mem_nil
        · exact induction (split ▸ later)
      · rw [if_neg (by simpa using same), List.modifyHead_cons] at member
        rcases List.mem_cons.mp member with rfl | later
        · have inFirst := induction (split ▸ List.mem_cons_self)
          simp [Ne.symm same, inFirst]
        · exact induction (split ▸ List.mem_cons_of_mem _ later)

theorem intercalate_append_cons {β : Type} {separator : β} (front : List (List β))
    (piece : List β) (back : List (List β)) :
    [separator].intercalate (front ++ piece :: back) =
      (front.flatMap fun earlier => earlier ++ [separator]) ++
        [separator].intercalate (piece :: back) := by
  induction front with
  | nil => rfl
  | cons first front induction =>
      have more : front ++ piece :: back ≠ [] := by simp
      rw [List.cons_append, List.intercalate_cons_of_ne_nil more, induction, List.flatMap_cons]
      simp

/-- Inside a piece the text can be cut: what stands before splits into the pieces up to there. -/
theorem cut_of_splitOn {text left right : List α} {front back : List (List α)}
    (split : text.splitOn separator = front ++ (left ++ right) :: back) :
    ∃ before after, text = before ++ right ++ after ∧
      before.splitOn separator = front ++ [left] := by
  have whole : text = [separator].intercalate (front ++ (left ++ right) :: back) := by
    rw [← split, List.intercalate_splitOn]
  obtain ⟨after, last⟩ : ∃ after,
      [separator].intercalate ((left ++ right) :: back) = left ++ right ++ after := by
    cases back with
    | nil => exact ⟨[], by simp⟩
    | cons next back => exact ⟨_, by rw [List.intercalate_cons_cons, List.append_assoc]⟩
  refine ⟨[separator].intercalate (front ++ [left]), after, ?_, ?_⟩
  · rw [whole, intercalate_append_cons, intercalate_append_cons, last]
    simp
  · refine List.splitOn_intercalate separator (fun piece member inPiece => ?_) (by simp)
    -- the pieces of the text have no separator in them, and neither has a part of one
    have clean : ∀ piece ∈ front ++ (left ++ right) :: back, separator ∉ piece :=
      fun piece member => not_mem_of_mem_splitOn (split ▸ member)
    rcases List.mem_append.mp member with inFront | isLeft
    · exact clean piece (List.mem_append_left _ inFront) inPiece
    · obtain rfl := List.mem_singleton.mp isLeft
      exact clean (piece ++ right) (by simp) (List.mem_append_left _ inPiece)

theorem mem_of_mem_splitOn {text piece : List α} (member : piece ∈ text.splitOn separator)
    {item : α} (inPiece : item ∈ piece) : item ∈ text := by
  obtain ⟨front, back, split⟩ := List.append_of_mem member
  obtain ⟨before, after, rfl, -⟩ :=
    cut_of_splitOn (show text.splitOn separator = front ++ ([] ++ piece) :: back from split)
  simp [inPiece]

end Split

end Js
