import SubqlCosmos.Js.Value

/-!
# Programs that may throw

A program over a state: what it has done to the state before it throws stays done. The rules say where
sequences and `try … catch … finally` end, from where their parts end.
-/

namespace Js

variable {σ α β : Type}

/-- A program over a state that may throw. -/
abbrev Program (σ α : Type) := EStateM Error σ α

/-- A step that does not touch the state. -/
def perform (outcome : Except Error α) : Program σ α := fun state =>
  match outcome with
  | .ok value => .ok value state
  | .error error => .error error state

namespace Program

variable {program : Program σ α} {next : α → Program σ β} {before between after : σ} {value : α}
  {error thrown : Error}

@[simp]
theorem perform_ok (value : α) (state : σ) :
    (perform (.ok value) : Program σ α) state = .ok value state := rfl

@[simp]
theorem perform_error (error : Error) (state : σ) :
    (perform (.error error) : Program σ α) state = .error error state := rfl

theorem bind_of_ok (first : program before = .ok value between) :
    (program >>= next) before = next value between := by
  simp only [bind, EStateM.bind, first]

theorem bind_eq_ok_iff {result : β} :
    (program >>= next) before = .ok result after ↔
      ∃ value between, program before = .ok value between ∧ next value between = .ok result after := by
  cases first : program before with
  | ok value between => simp [bind, EStateM.bind, first]
  | error error between => simp [bind, EStateM.bind, first]

theorem bind_of_error (first : program before = .error error between) :
    (program >>= next) before = .error error between := by
  simp only [bind, EStateM.bind, first]

theorem perform_eq_ok_iff {outcome : Except Error α} :
    perform outcome before = .ok value after ↔ outcome = .ok value ∧ before = after := by
  cases outcome <;> simp [perform]

theorem tryCatch_of_ok {handler : Error → Program σ α} (body : program before = .ok value between) :
    (tryCatch program handler) before = .ok value between := by
  simp only [tryCatch, tryCatchThe, MonadExceptOf.tryCatch, EStateM.tryCatch, body]

theorem tryCatch_of_error {handler : Error → Program σ α}
    (body : program before = .error error between) :
    (tryCatch program handler) before = handler error between := by
  simp only [tryCatch, tryCatchThe, MonadExceptOf.tryCatch, EStateM.tryCatch, body]
  rfl

theorem tryCatch_eq_ok_iff {handler : Error → Program σ α} :
    (tryCatch program handler) before = .ok value after ↔
      program before = .ok value after ∨
        ∃ error between, program before = .error error between ∧
          handler error between = .ok value after := by
  cases body : program before with
  | ok other between => simp [tryCatch_of_ok body]
  | error error between => simp [tryCatch_of_error body]

theorem tryFinally_of_ok {cleanup : Program σ Unit} (body : program before = .ok value between)
    (cleaned : cleanup between = .ok () after) :
    (tryFinally program cleanup) before = .ok value after := by
  simp only [tryFinally, MonadFinally.tryFinally', Functor.map, EStateM.map, body, cleaned]

theorem tryFinally_of_error {cleanup : Program σ Unit} (body : program before = .error error between)
    (cleaned : cleanup between = .ok () after) :
    (tryFinally program cleanup) before = .error error after := by
  simp only [tryFinally, MonadFinally.tryFinally', Functor.map, EStateM.map, body, cleaned]

/-- An error of the clean-up takes the place of the one it cleans up after. -/
theorem tryFinally_of_cleanup_error {cleanup : Program σ Unit}
    (body : program before = .error error between) (cleaning : cleanup between = .error thrown after) :
    (tryFinally program cleanup) before = .error thrown after := by
  simp only [tryFinally, MonadFinally.tryFinally', Functor.map, EStateM.map, body, cleaning]

end Program
end Js
