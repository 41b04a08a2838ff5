import SubqlCosmos.Feed.Broadcast

/-!
# Programs that emit items

A program with a context of its own hands items to receivers as it goes. What it emits is a list of
items and an ending when its effect on the receivers is that of broadcasting the list; the rules
below compute the list from the parts of the program.
-/

namespace Feed

/-- A context beside the receivers. -/
structure Run (σ Item Receiver ε : Type) where
  context : σ
  feed : State Item Receiver ε

variable {σ Item Receiver ε α : Type}

/-- Read something off the context, changing it. -/
def onContext (reading : σ → EStateM.Result ε σ α) : EStateM ε (Run σ Item Receiver ε) α :=
  fun run =>
    match reading run.context with
    | .ok value context => .ok value { run with context := context }
    | .error error context => .error error { run with context := context }

/-- An outcome for the receivers, beside a context. -/
def beside (context : σ) :
    EStateM.Result ε (State Item Receiver ε) Unit → EStateM.Result ε (Run σ Item Receiver ε) Unit
  | .ok _ feed => .ok () { context := context, feed := feed }
  | .error error feed => .error error { context := context, feed := feed }

/-- Hand an item to the receiver at a position. -/
def send (item : Item) (receiver : Nat) : EStateM ε (Run σ Item Receiver ε) Unit := fun run =>
  beside run.context (deliver item receiver run.feed)

/-- Run the body for the position of every receiver, those appended meanwhile included. -/
def forReceivers (body : Nat → EStateM ε (Run σ Item Receiver ε) Unit) :
    EStateM ε (Run σ Item Receiver ε) Unit := fun run =>
  forGrowing (fun run => run.feed.size) body (run.feed.size + run.feed.pending) 0 run

/-- From a context the first condition holds of, the program does to the receivers what
broadcasting the items and then ending so does; if it does not fail, the second condition holds of
the context it leaves. -/
def Emits (before : σ → Prop) (program : EStateM ε (Run σ Item Receiver ε) Unit)
    (items : List Item) (ending : Option ε) (after : σ → Prop) : Prop :=
  ∀ run, before run.context →
    ∃ context,
      program run = beside context (broadcastAll items ending run.feed) ∧
        ∀ feed, broadcastAll items ending run.feed = .ok () feed → after context

theorem broadcastAll_append (first second : List Item) (ending : Option ε)
    (state : State Item Receiver ε) :
    broadcastAll (first ++ second) ending state =
      match broadcastAll first none state with
      | .ok _ state => broadcastAll second ending state
      | .error error state => .error error state := by
  induction first generalizing state with
  | nil => rfl
  | cons item first ih =>
      simp only [List.cons_append, broadcastAll]
      cases broadcast item state with
      | error error state => rfl
      | ok _ state => exact ih state

theorem broadcastAll_error (items : List Item) (error : ε) (state : State Item Receiver ε) :
    ∃ actual after, broadcastAll items (some error) state = .error actual after := by
  induction items generalizing state with
  | nil => exact ⟨error, state, rfl⟩
  | cons item items ih =>
      simp only [broadcastAll]
      cases broadcast item state with
      | error actual after => exact ⟨actual, after, rfl⟩
      | ok _ after => exact ih after

namespace Emits

variable {before middle after : σ → Prop}

theorem weaken {program : EStateM ε (Run σ Item Receiver ε) Unit} {items : List Item}
    {ending : Option ε} {before' after' : σ → Prop}
    (emits : Emits before program items ending after)
    (stronger : ∀ context, before' context → before context)
    (weaker : ∀ context, after context → after' context) :
    Emits before' program items ending after' := by
  intro run held
  obtain ⟨context, outcome, kept⟩ := emits run (stronger _ held)
  exact ⟨context, outcome, fun feed ended => weaker _ (kept feed ended)⟩

theorem nothing : Emits before (pure () : EStateM ε (Run σ Item Receiver ε) Unit) [] none before :=
  fun run held => ⟨run.context, rfl, fun _ _ => held⟩

/-- One program after another. -/
theorem seq {first second : EStateM ε (Run σ Item Receiver ε) Unit} {items more : List Item}
    {ending : Option ε} (one : Emits before first items none middle)
    (two : Emits middle second more ending after) :
    Emits before (do first; second) (items ++ more) ending after := by
  intro run held
  obtain ⟨context, outcome, kept⟩ := one run held
  rw [broadcastAll_append]
  cases ended : broadcastAll items none run.feed with
  | error error feed =>
      rw [ended] at outcome
      refine ⟨context, ?_, nofun⟩
      simp only [bind, EStateM.bind, outcome, beside]
  | ok _ feed =>
      rw [ended] at outcome
      obtain ⟨last, outcomeTwo, keptTwo⟩ := two ⟨context, feed⟩ (kept feed ended)
      refine ⟨last, ?_, keptTwo⟩
      simp only [bind, EStateM.bind, outcome, beside]
      exact outcomeTwo

theorem stop {first : EStateM ε (Run σ Item Receiver ε) Unit}
    (second : EStateM ε (Run σ Item Receiver ε) Unit) {items : List Item} {error : ε}
    (one : Emits before first items (some error) middle) :
    Emits before (do first; second) items (some error) after := by
  intro run held
  obtain ⟨context, outcome, -⟩ := one run held
  obtain ⟨actual, feed, failed⟩ := broadcastAll_error items error run.feed
  rw [failed] at outcome ⊢
  refine ⟨context, ?_, nofun⟩
  simp only [bind, EStateM.bind, outcome, beside]

theorem read {reading : σ → EStateM.Result ε σ α} {value : α}
    {rest : α → EStateM ε (Run σ Item Receiver ε) Unit} {items : List Item} {ending : Option ε}
    (success : ∀ context, before context →
      ∃ left, reading context = .ok value left ∧ middle left)
    (emits : Emits middle (rest value) items ending after) :
    Emits before (do let value ← onContext reading; rest value) items ending after := by
  intro run held
  obtain ⟨left, outcome, kept⟩ := success run.context held
  obtain ⟨context, rest_eq, keptRest⟩ := emits { run with context := left } kept
  refine ⟨context, ?_, keptRest⟩
  simp only [bind, EStateM.bind, onContext, outcome]
  exact rest_eq

theorem readError {reading : σ → EStateM.Result ε σ α} {error : ε}
    (rest : α → EStateM ε (Run σ Item Receiver ε) Unit)
    (failure : ∀ context, before context → ∃ left, reading context = .error error left) :
    Emits before (do let value ← onContext reading; rest value) [] (some error) after := by
  intro run held
  obtain ⟨left, outcome⟩ := failure run.context held
  refine ⟨left, ?_, nofun⟩
  simp only [bind, EStateM.bind, onContext, outcome, broadcastAll, endWith, beside]

/-- A loop over a list; the condition on the context speaks about the elements already visited. -/
theorem forM {Element : Type} {body : Element → EStateM ε (Run σ Item Receiver ε) Unit}
    {items : Element → List Item} (holds : List Element → σ → Prop) (list : List Element)
    (step : ∀ visited, ∀ element ∈ list,
      Emits (holds visited) (body element) (items element) none (holds (visited ++ [element]))) :
    Emits (holds []) (list.forM body) (list.flatMap items) none (holds list) := by
  suffices loop : ∀ visited rest, (∀ element ∈ rest, element ∈ list) →
      Emits (holds visited) (rest.forM body) (rest.flatMap items) none (holds (visited ++ rest)) by
    exact loop [] list fun _ => id
  intro visited rest inside
  induction rest generalizing visited with
  | nil =>
      rw [List.append_nil]
      exact nothing
  | cons element rest ih =>
      have later := ih (visited ++ [element]) fun other member =>
        inside other (List.mem_cons_of_mem _ member)
      rw [List.append_assoc, List.singleton_append] at later
      exact (step visited element (inside element List.mem_cons_self)).seq later

/-- A loop over the receivers whose body hands them one item is a broadcast of it. -/
theorem forReceivers {body : Nat → EStateM ε (Run σ Item Receiver ε) Unit} {item : Item}
    (step : ∀ receiver run, before run.context →
      ∃ context, body receiver run = beside context (deliver item receiver run.feed) ∧
        before context) :
    Emits before (Feed.forReceivers body) [item] none before := by
  have loop : ∀ fuel first run, before run.context →
      ∃ context,
        forGrowing (fun run => run.feed.size) body fuel first run =
            beside context (forGrowing State.size (deliver item) fuel first run.feed) ∧
          before context := by
    intro fuel
    induction fuel with
    | zero => exact fun first run held => ⟨run.context, rfl, held⟩
    | succ fuel ih =>
        intro first run held
        rcases Nat.lt_or_ge first run.feed.size with inside | outside
        · obtain ⟨context, outcome, kept⟩ := step first run held
          simp only [forGrowing, inside, if_true, outcome]
          cases deliver item first run.feed with
          | error error feed => exact ⟨context, rfl, kept⟩
          | ok _ feed => exact ih (first + 1) ⟨context, feed⟩ kept
        · refine ⟨run.context, ?_, held⟩
          simp only [forGrowing, Nat.not_lt.mpr outside, if_false, beside]
  intro run held
  obtain ⟨context, outcome, kept⟩ := loop (run.feed.size + run.feed.pending) 0 run held
  refine ⟨context, ?_, fun _ _ => kept⟩
  have whole : broadcastAll [item] none run.feed = broadcast item run.feed := by
    simp only [broadcastAll, endWith]
    cases broadcast item run.feed <;> rfl
  rw [whole]
  exact outcome

theorem broadcast (item : Item) :
    Emits before (Feed.forReceivers (send item) : EStateM ε (Run σ Item Receiver ε) Unit)
      [item] none before :=
  forReceivers fun _ run held => ⟨run.context, rfl, held⟩

end Emits
end Feed
