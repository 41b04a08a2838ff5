import SubqlCosmos.Js.Value

/-!
# Traversals

What a `map` returns whose function may throw, or may have no value.
-/

namespace Js

theorem map_eq_ok {ε α β : Type} {outcome : Except ε α} {f : α → β} {result : β} :
    outcome.map f = .ok result ↔ ∃ value, outcome = .ok value ∧ f value = result := by
  cases outcome <;> simp [Except.map]

/-- A traversal succeeds when each step does, and gives their values. -/
theorem mapM_eq_ok_iff {ε α β : Type} (f : α → Except ε β) (items : List α) (values : List β) :
    items.mapM f = .ok values ↔
      List.Forall₂ (fun item value => f item = .ok value) items values := by
  induction items generalizing values with
  | nil =>
      rw [List.mapM_nil, List.forall₂_nil_left_iff]
      exact ⟨fun same => (Except.ok.inj same).symm, fun same => by rw [same]; rfl⟩
  | cons item items ih =>
      simp only [List.mapM_cons, bind_eq_ok, List.forall₂_cons_left_iff]
      constructor
      · rintro ⟨value, first, rest, mapped, same⟩
        exact ⟨value, rest, first, (ih rest).mp mapped, (Except.ok.inj same).symm⟩
      · rintro ⟨value, rest, first, mapped, rfl⟩
        exact ⟨value, first, rest, (ih rest).mpr mapped, rfl⟩

theorem exists_of_mem_mapM {ε α β : Type} {f : α → Except ε β} {items : List α} {values : List β}
    (outcome : items.mapM f = .ok values) {value : β} (member : value ∈ values) :
    ∃ item ∈ items, f item = .ok value := by
  obtain ⟨position, rfl⟩ := List.get_of_mem member
  have pairs := List.forall₂_iff_get.mp ((mapM_eq_ok_iff f items values).mp outcome)
  have inside : position.val < items.length := by
    rw [pairs.1]
    exact position.isLt
  exact ⟨items.get ⟨position, inside⟩, List.get_mem _ _, pairs.2 position inside position.isLt⟩

theorem succeeds_of_mapM {ε α β : Type} {f : α → Except ε β} {items : List α} {values : List β}
    (outcome : items.mapM f = .ok values) : ∀ item ∈ items, ∃ value, f item = .ok value := by
  intro item member
  obtain ⟨position, rfl⟩ := List.get_of_mem member
  have pairs := List.forall₂_iff_get.mp ((mapM_eq_ok_iff f items values).mp outcome)
  have inside : position.val < values.length := by
    rw [← pairs.1]
    exact position.isLt
  exact ⟨values.get ⟨position, inside⟩, pairs.2 position position.isLt inside⟩

theorem mem_of_mapM {ε α β : Type} {f : α → Except ε β} {items : List α} {values : List β}
    (outcome : items.mapM f = .ok values) {item : α} (member : item ∈ items) {value : β}
    (here : f item = .ok value) : value ∈ values := by
  have pairs := (mapM_eq_ok_iff f items values).mp outcome
  clear outcome
  induction pairs with
  | nil => exact absurd member List.not_mem_nil
  | cons first _ ih =>
      rcases List.mem_cons.mp member with rfl | later
      · obtain rfl := Except.ok.inj (here.symm.trans first)
        exact List.mem_cons_self
      · exact List.mem_cons_of_mem _ (ih later)

theorem forM_eq_ok_iff {ε α : Type} (f : α → Except ε Unit) (items : List α) :
    items.forM f = .ok () ↔ ∀ item ∈ items, f item = .ok () := by
  induction items with
  | nil => exact iff_of_true rfl fun item member => absurd member List.not_mem_nil
  | cons item items ih =>
      have unfolded : (item :: items).forM f = (f item >>= fun _ => items.forM f) := List.forM_cons
      rw [unfolded, bind_eq_ok, List.forall_mem_cons, ← ih]
      constructor
      · rintro ⟨⟨⟩, here, rest⟩
        exact ⟨here, rest⟩
      · rintro ⟨here, rest⟩
        exact ⟨(), here, rest⟩

/-- An error is one of a step. -/
theorem exists_of_mapM_error {ε α β : Type} {f : α → Except ε β} {items : List α} {error : ε}
    (outcome : items.mapM f = .error error) : ∃ item ∈ items, f item = .error error := by
  induction items with
  | nil => cases outcome
  | cons item items ih =>
      rw [List.mapM_cons] at outcome
      cases first : f item with
      | error other =>
          rw [first] at outcome
          obtain rfl := Except.error.inj outcome
          exact ⟨item, List.mem_cons_self, first⟩
      | ok value =>
          cases rest : items.mapM f with
          | error other =>
              rw [first, rest] at outcome
              obtain rfl := Except.error.inj outcome
              obtain ⟨later, member, failed⟩ := ih rest
              exact ⟨later, List.mem_cons_of_mem _ member, failed⟩
          | ok values =>
              rw [first, rest] at outcome
              cases outcome

/-- A fold throws at an item, with the state the items before it lead to. -/
theorem foldlM_error_iff {ε α σ : Type} {f : σ → α → Except ε σ} {items : List α} {start : σ} :
    (∃ error, items.foldlM f start = .error error) ↔
      ∃ before item after state, items = before ++ item :: after ∧
        before.foldlM f start = .ok state ∧ ∃ error, f state item = .error error := by
  induction items generalizing start with
  | nil =>
      constructor
      · rintro ⟨error, thrown⟩
        cases thrown
      · rintro ⟨before, item, after, state, split, -⟩
        simp at split
  | cons item items induction =>
      rw [List.foldlM_cons]
      cases outcome : f start item with
      | error error =>
          refine iff_of_true ⟨error, rfl⟩ ⟨[], item, items, start, rfl, rfl, error, outcome⟩
      | ok next =>
          refine induction.trans ?_
          constructor
          · rintro ⟨before, other, after, state, rfl, reached, thrown⟩
            refine ⟨item :: before, other, after, state, rfl, ?_, thrown⟩
            rw [List.foldlM_cons, outcome]
            exact reached
          · rintro ⟨before, other, after, state, split, reached, thrown⟩
            cases before with
            | nil =>
                obtain ⟨rfl, rfl⟩ := List.cons_eq_cons.mp split
                obtain rfl : start = state := Except.ok.inj reached
                obtain ⟨error, thrown⟩ := thrown
                rw [outcome] at thrown
                cases thrown
            | cons first before =>
                obtain ⟨rfl, rfl⟩ := List.cons_eq_cons.mp split
                rw [List.foldlM_cons, outcome] at reached
                exact ⟨before, other, after, state, rfl, reached, thrown⟩

/-- A loop that adds what each turn gives adds what the traversal gives. -/
theorem foldlM_eq_mapM {ε α β σ : Type} (f : α → Except ε β) (add : σ → β → σ) (items : List α)
    (start : σ) :
    items.foldlM (fun sum item => do return add sum (← f item)) start =
      (items.mapM f).map fun values => values.foldl add start := by
  induction items generalizing start with
  | nil => rfl
  | cons item items ih =>
      rw [List.foldlM_cons, List.mapM_cons]
      cases f item with
      | error error => rfl
      | ok value =>
          refine (ih (add start value)).trans ?_
          cases items.mapM f with
          | error error => rfl
          | ok values => rfl

section Search

variable {ε α : Type} {f : α → Except ε Bool} {item : α}

theorem findM?_of_true (items : List α) (fits : f item = .ok true) :
    (item :: items).findM? f = .ok (some item) := by
  rw [List.findM?, fits]
  rfl

theorem findM?_of_false (items : List α) (unfit : f item = .ok false) :
    (item :: items).findM? f = items.findM? f := by
  rw [List.findM?, unfit]
  rfl

theorem findM?_of_error (items : List α) {error : ε} (failed : f item = .error error) :
    (item :: items).findM? f = .error error := by
  rw [List.findM?, failed]
  rfl

/-- A search finds nothing when it tries every item in vain. -/
theorem findM?_eq_none_iff (f : α → Except ε Bool) (items : List α) :
    items.findM? f = .ok none ↔ ∀ item ∈ items, f item = .ok false := by
  induction items with
  | nil => exact iff_of_true rfl fun item member => absurd member List.not_mem_nil
  | cons item items ih =>
      rw [List.forall_mem_cons, ← ih]
      cases here : f item with
      | error error =>
          rw [findM?_of_error items here]
          simp
      | ok fits =>
          cases fits with
          | true =>
              rw [findM?_of_true items here]
              simp
          | false =>
              rw [findM?_of_false items here]
              simp

end Search

theorem exists_mapM_ok {ε α β : Type} {f : α → Except ε β} {items : List α}
    (succeeds : ∀ item ∈ items, ∃ value, f item = .ok value) :
    ∃ values, items.mapM f = .ok values := by
  induction items with
  | nil => exact ⟨[], rfl⟩
  | cons item items ih =>
      obtain ⟨value, first⟩ := succeeds item List.mem_cons_self
      obtain ⟨values, rest⟩ := ih fun other member => succeeds other (List.mem_cons_of_mem _ member)
      exact ⟨value :: values, by rw [List.mapM_cons, first, rest]; rfl⟩

theorem mapM_eq_ok_of_forall {ε α β : Type} {f : α → Except ε β} {g : α → β} {items : List α}
    (each : ∀ item ∈ items, f item = .ok (g item)) : items.mapM f = .ok (items.map g) :=
  (mapM_eq_ok_iff f items _).mpr (List.forall₂_map_right_iff.mpr (List.forall₂_same.mpr each))

/-! ## Outcomes side by side -/

section Alike

variable {ε α β γ δ ι : Type}

/-- Both outcomes are errors, the same one, or both are values, and these are related. -/
def Alike (related : α → β → Prop) : Except ε α → Except ε β → Prop
  | .ok value, .ok other => related value other
  | .error error, .error other => error = other
  | .ok _, .error _ | .error _, .ok _ => False

theorem Alike.map {related : α → β → Prop} {relatedAfter : γ → δ → Prop} {f : α → γ} {g : β → δ}
    (step : ∀ value other, related value other → relatedAfter (f value) (g other))
    {outcome : Except ε α} {other : Except ε β} (alike : Alike related outcome other) :
    Alike relatedAfter (outcome.map f) (other.map g) := by
  match outcome, other, alike with
  | .ok value, .ok other, alike => exact step value other alike
  | .error error, .error other, alike => exact alike

theorem Alike.toOption {related : α → β → Prop} {outcome : Except ε α} {other : Except ε β}
    (alike : Alike related outcome other) :
    Option.Rel related outcome.toOption other.toOption := by
  cases outcome with
  | error error =>
      cases other with
      | error => exact .none
      | ok => exact alike.elim
  | ok value =>
      cases other with
      | error => exact alike.elim
      | ok other => exact .some alike

theorem Alike.mapM {related : α → β → Prop} {f : ι → Except ε α} {g : ι → Except ε β}
    (each : ∀ item, Alike related (f item) (g item)) (items : List ι) :
    Alike (List.Forall₂ related) (items.mapM f) (items.mapM g) := by
  induction items with
  | nil => exact .nil
  | cons item items ih =>
      rw [List.mapM_cons, List.mapM_cons]
      match f item, g item, each item with
      | .error error, .error other, alike => exact alike
      | .ok value, .ok other, here =>
          match items.mapM f, items.mapM g, ih with
          | .error error, .error other, alike => exact alike
          | .ok values, .ok others, rest => exact .cons here rest

theorem forall₂_flatMap {related : α → β → Prop} {f : ι → List α} {g : ι → List β}
    (each : ∀ item, List.Forall₂ related (f item) (g item)) (items : List ι) :
    List.Forall₂ related (items.flatMap f) (items.flatMap g) := by
  refine List.rel_flatten (List.forall₂_map_left_iff.mpr (List.forall₂_map_right_iff.mpr ?_))
  exact List.forall₂_same.mpr fun item _ => each item

end Alike

end Js
