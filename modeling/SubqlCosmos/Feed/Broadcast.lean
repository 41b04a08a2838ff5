import Mathlib

/-!
# Broadcasting to a growing array of receivers

Items are handed one after the other to every receiver of an array. A receiver may append further
receivers to the array while it is handed an item, also during the pass that hands the item out, and
it may fail, which ends everything.
-/

namespace Feed

/-! ## Loops over growing arrays -/

/-- The state a computation ends in, failed or not. -/
def finalState {ε σ α : Type} : EStateM.Result ε σ α → σ
  | .ok _ state => state
  | .error _ state => state

/-- Run the body at the positions from `position` on, as long as the array has them; the body may
extend the array. The fuel bounds the number of rounds. -/
def forGrowing {ε σ : Type} (size : σ → Nat) (body : Nat → EStateM ε σ Unit) :
    Nat → Nat → EStateM ε σ Unit
  | 0, _, state => .ok () state
  | fuel + 1, position, state =>
      if position < size state then
        match body position state with
        | .error error state => .error error state
        | .ok _ state => forGrowing size body fuel (position + 1) state
      else
        .ok () state

/-! ## Deliveries -/

/-- How a receiver answers an item. -/
structure Reply (Receiver ε : Type) where
  appended : List Receiver := []
  error : Option ε := none

/-- One item handed to the receiver at a position, when the array held `present` receivers, and the
receivers appended in the course of it. -/
structure Delivery (Item Receiver : Type) where
  item : Item
  receiver : Nat
  present : Nat
  appended : List Receiver

/-- The array, the answers still to come and the deliveries made. Once no answer is left, receivers
neither append nor fail. -/
structure State (Item Receiver ε : Type) where
  receivers : List Receiver
  replies : List (Reply Receiver ε)
  deliveries : List (Delivery Item Receiver) := []

variable {Item Receiver ε : Type}

namespace State

/-- The length of the array. -/
def size (state : State Item Receiver ε) : Nat :=
  state.receivers.length

/-- The number of receivers the answers still to come will append. -/
def pending (state : State Item Receiver ε) : Nat :=
  (state.replies.map fun reply => reply.appended.length).sum

/-- The items handed to the receiver at a position, in order. -/
def handed (state : State Item Receiver ε) (receiver : Nat) : List Item :=
  (state.deliveries.filter fun delivery => delivery.receiver = receiver).map Delivery.item

/-- The answer to the next delivery. -/
def reply (state : State Item Receiver ε) : Reply Receiver ε :=
  state.replies.head?.getD {}

/-- The state after handing an item to a receiver. -/
def delivered (state : State Item Receiver ε) (item : Item) (receiver : Nat) :
    State Item Receiver ε where
  receivers := state.receivers ++ state.reply.appended
  replies := state.replies.tail
  deliveries :=
    state.deliveries ++
      [{ item := item
         receiver := receiver
         present := state.size
         appended := state.reply.appended }]

end State

/-- Hand an item to the receiver at a position. -/
def deliver (item : Item) (receiver : Nat) : EStateM ε (State Item Receiver ε) Unit := fun state =>
  match state.reply.error with
  | none => .ok () (state.delivered item receiver)
  | some error => .error error (state.delivered item receiver)

/-- Hand an item to every receiver, those appended meanwhile included. -/
def broadcast (item : Item) : EStateM ε (State Item Receiver ε) Unit := fun state =>
  forGrowing State.size (deliver item) (state.size + state.pending) 0 state

/-- End, or fail with an error. -/
def endWith {σ : Type} (ending : Option ε) (state : σ) : EStateM.Result ε σ Unit :=
  match ending with
  | none => .ok () state
  | some error => .error error state

/-- Broadcast items in order, then end or fail. -/
def broadcastAll (items : List Item) (ending : Option ε) :
    EStateM ε (State Item Receiver ε) Unit := fun state =>
  match items with
  | [] => endWith ending state
  | item :: items =>
      match broadcast item state with
      | .error error state => .error error state
      | .ok _ state => broadcastAll items ending state

namespace State

@[simp]
theorem size_delivered (state : State Item Receiver ε) (item : Item) (receiver : Nat) :
    (state.delivered item receiver).size = state.size + state.reply.appended.length :=
  List.length_append

/-- What the array gains, the answers to come lose. -/
theorem size_add_pending_delivered (state : State Item Receiver ε) (item : Item) (receiver : Nat) :
    (state.delivered item receiver).size + (state.delivered item receiver).pending =
      state.size + state.pending := by
  rw [size_delivered]
  cases held : state.replies with
  | nil => simp [pending, delivered, reply, held]
  | cons first rest =>
      simp only [pending, delivered, reply, held, List.head?_cons, Option.getD_some, List.tail_cons,
        List.map_cons, List.sum_cons]
      omega

end State

theorem deliver_cases (item : Item) (receiver : Nat) (state : State Item Receiver ε) :
    deliver item receiver state = .ok () (state.delivered item receiver) ∨
      ∃ error, deliver item receiver state = .error error (state.delivered item receiver) := by
  unfold deliver
  cases state.reply.error with
  | none => exact Or.inl rfl
  | some error => exact Or.inr ⟨error, rfl⟩

/-! ## One pass -/

theorem front_drop {α : Type} {first second : List α} (front : first <+: second) (count : Nat) :
    first.drop count <+: second.drop count := by
  obtain ⟨rest, rfl⟩ := front
  rw [List.drop_append]
  exact List.prefix_append _ _

/-- What handing one item to the receivers from a position on adds to the state. -/
structure Pass (item : Item) (first : Nat) (before after : State Item Receiver ε)
    (added : List (Delivery Item Receiver)) : Prop where
  deliveries : after.deliveries = before.deliveries ++ added
  items : ∀ delivery ∈ added, delivery.item = item
  receivers : added.map Delivery.receiver = List.range' first added.length
  kept : before.receivers <+: after.receivers
  placed : ∀ delivery ∈ added, delivery.appended <+: after.receivers.drop delivery.present
  reached : ∀ delivery ∈ added, delivery.receiver < after.size
  bounds : ∀ delivery ∈ added,
    before.size ≤ delivery.present ∧ delivery.present + delivery.appended.length ≤ after.size
  origin : ∀ receiver, before.size ≤ receiver → receiver < after.size →
    ∃ delivery ∈ added,
      delivery.present ≤ receiver ∧ receiver < delivery.present + delivery.appended.length

theorem Pass.stop (item : Item) (first : Nat) (state : State Item Receiver ε) :
    Pass item first state state [] where
  deliveries := (List.append_nil _).symm
  items := nofun
  receivers := rfl
  kept := List.prefix_refl _
  placed := nofun
  reached := nofun
  bounds := nofun
  origin _ before after := absurd before (Nat.not_le.mpr after)

theorem Pass.grown {item : Item} {first : Nat} {before after : State Item Receiver ε}
    {added : List (Delivery Item Receiver)} (pass : Pass item first before after added) :
    before.size ≤ after.size :=
  pass.kept.length_le

theorem Pass.next {item : Item} {first : Nat} {before after : State Item Receiver ε}
    {added : List (Delivery Item Receiver)} (reached : first < before.size)
    (rest : Pass item (first + 1) (before.delivered item first) after added) :
    Pass item first before after
      ({ item := item
         receiver := first
         present := before.size
         appended := before.reply.appended } :: added) := by
  have grown := rest.grown
  rw [State.size_delivered] at grown
  constructor
  · rw [rest.deliveries]
    exact List.append_assoc _ _ _
  · simpa using rest.items
  · simpa [List.range'_succ] using rest.receivers
  · exact (List.prefix_append _ _).trans rest.kept
  · intro delivery member
    rcases List.mem_cons.mp member with rfl | member
    · have own := front_drop rest.kept before.size
      rwa [State.delivered, State.size, List.drop_left] at own
    · exact rest.placed delivery member
  · intro delivery member
    rcases List.mem_cons.mp member with rfl | member
    · exact Nat.lt_of_lt_of_le reached (by omega)
    · exact rest.reached delivery member
  · intro delivery member
    rcases List.mem_cons.mp member with rfl | member
    · exact ⟨Nat.le_refl _, grown⟩
    · have bounds := rest.bounds delivery member
      rw [State.size_delivered] at bounds
      exact ⟨by omega, bounds.2⟩
  · intro receiver old new
    rcases Nat.lt_or_ge receiver (before.size + before.reply.appended.length) with now | later
    · exact ⟨_, List.mem_cons_self, old, now⟩
    · obtain ⟨delivery, member, inside⟩ := rest.origin receiver (by simpa using later) new
      exact ⟨delivery, List.mem_cons_of_mem _ member, inside⟩

/-- With enough fuel a pass stops for an error or after the last receiver. -/
theorem forGrowing_pass (item : Item) (fuel first : Nat) (state : State Item Receiver ε)
    (enough : state.size + state.pending ≤ fuel + first) :
    ∃ added,
      Pass item first state (finalState (forGrowing State.size (deliver item) fuel first state))
          added ∧
        ∀ after, forGrowing State.size (deliver item) fuel first state = .ok () after →
          after.size ≤ first + added.length := by
  induction fuel generalizing first state with
  | zero =>
      refine ⟨[], Pass.stop item first state, fun after outcome => ?_⟩
      cases outcome
      simp only [List.length_nil]
      omega
  | succ fuel ih =>
      rcases Nat.lt_or_ge first state.size with inside | outside
      · rcases deliver_cases item first state with outcome | ⟨error, outcome⟩
        · have balance := state.size_add_pending_delivered item first
          obtain ⟨added, pass, complete⟩ :=
            ih (first + 1) (state.delivered item first) (by omega)
          simp only [forGrowing, inside, if_true, outcome]
          refine ⟨_, pass.next inside, fun after ended => ?_⟩
          have last := complete after ended
          simp only [List.length_cons]
          omega
        · simp only [forGrowing, inside, if_true, outcome]
          refine ⟨_, (Pass.stop item (first + 1) _).next inside, fun after ended => ?_⟩
          cases ended
      · simp only [forGrowing, Nat.not_lt.mpr outside, if_false]
        refine ⟨[], Pass.stop item first state, fun after outcome => ?_⟩
        cases outcome
        exact outside

/-- A broadcast is a pass over the whole array, cut short only by an error. -/
theorem broadcast_pass (item : Item) (state : State Item Receiver ε) :
    ∃ added,
      Pass item 0 state (finalState (broadcast item state)) added ∧
        ∀ after, broadcast item state = .ok () after → after.size = added.length := by
  obtain ⟨added, pass, complete⟩ :=
    forGrowing_pass item (state.size + state.pending) 0 state (Nat.le_refl _)
  refine ⟨added, pass, fun after outcome => Nat.le_antisymm ?_ ?_⟩
  · simpa using complete after outcome
  · have final : finalState (broadcast item state) = after := by rw [outcome, finalState]
    rw [← final]
    -- the last delivery of the pass went to a receiver of the array
    by_contra! long
    have last : (finalState (broadcast item state)).size ∈ added.map Delivery.receiver := by
      rw [pass.receivers, List.mem_range'_1]
      omega
    obtain ⟨delivery, member, same⟩ := List.mem_map.mp last
    have reached := pass.reached delivery member
    exact absurd same (Nat.ne_of_lt reached)

theorem Pass.handed {item : Item} {before after : State Item Receiver ε}
    {added : List (Delivery Item Receiver)} (pass : Pass item 0 before after added)
    (complete : after.size = added.length) (receiver : Nat) :
    after.handed receiver =
      before.handed receiver ++ if receiver < after.size then [item] else [] := by
  have once :
      ∀ (first : Nat) (added : List (Delivery Item Receiver)),
        (∀ delivery ∈ added, delivery.item = item) →
          added.map Delivery.receiver = List.range' first added.length →
            (added.filter fun delivery => delivery.receiver = receiver).map Delivery.item =
              if first ≤ receiver ∧ receiver < first + added.length then [item] else [] := by
    intro first added items receivers
    induction added generalizing first with
    | nil => simp
    | cons delivery added ih =>
        simp only [List.map_cons, List.length_cons, List.range'_succ, List.cons.injEq] at receivers
        have rest := ih (first + 1)
          (fun other member => items other (List.mem_cons_of_mem _ member)) receivers.2
        have same := items delivery List.mem_cons_self
        by_cases here : delivery.receiver = receiver
        · rw [List.filter_cons_of_pos (by simpa using here), List.map_cons, rest, same,
            if_neg (by omega), if_pos (by simp only [List.length_cons]; omega)]
        · rw [List.filter_cons_of_neg (by simpa using here), rest]
          congr 1
          simp only [List.length_cons, eq_iff_iff]
          omega
  rw [State.handed, pass.deliveries, List.filter_append, List.map_append,
    once 0 added pass.items pass.receivers, complete]
  simp [State.handed]

/-! ## What receivers are handed -/

/-- The receivers that were there at first have been handed all items so far, and one appended in
the course of a delivery the items from that delivery's on. Every other receiver was appended in the
course of a delivery, and stands where the array ended then. -/
structure Fed (initial : Nat) (items : List Item) (state : State Item Receiver ε) : Prop where
  size : initial ≤ state.size
  early : ∀ receiver < initial, state.handed receiver = items
  late : ∀ delivery ∈ state.deliveries, ∀ receiver,
    delivery.present ≤ receiver → receiver < delivery.present + delivery.appended.length →
      ∃ earlier later,
        items = earlier ++ delivery.item :: later ∧
          state.handed receiver = delivery.item :: later
  origin : ∀ receiver, initial ≤ receiver → receiver < state.size →
    ∃ delivery ∈ state.deliveries,
      delivery.present ≤ receiver ∧ receiver < delivery.present + delivery.appended.length
  reached : ∀ delivery ∈ state.deliveries, delivery.receiver < state.size
  bounds : ∀ delivery ∈ state.deliveries,
    initial ≤ delivery.present ∧ delivery.present + delivery.appended.length ≤ state.size
  placed : ∀ delivery ∈ state.deliveries,
    delivery.appended <+: state.receivers.drop delivery.present

theorem fed_initial (receivers : List Receiver) (replies : List (Reply Receiver ε)) :
    Fed receivers.length []
      ({ receivers := receivers, replies := replies } : State Item Receiver ε) where
  size := Nat.le_refl _
  early _ _ := rfl
  late := nofun
  origin _ before after := absurd before (Nat.not_le.mpr after)
  reached := nofun
  bounds := nofun
  placed := nofun

theorem Fed.handed_of_le {initial : Nat} {items : List Item} {before : State Item Receiver ε}
    {receiver : Nat} (fed : Fed initial items before) (beyond : before.size ≤ receiver) :
    before.handed receiver = [] := by
  rw [State.handed, List.map_eq_nil_iff, List.filter_eq_nil_iff]
  intro other made
  have reached := fed.reached other made
  simp only [decide_eq_true_eq]
  omega

/-- A complete pass hands the item to everyone. -/
theorem Fed.pass {initial : Nat} {items : List Item} {item : Item}
    {before after : State Item Receiver ε} {added : List (Delivery Item Receiver)}
    (fed : Fed initial items before) (pass : Pass item 0 before after added)
    (complete : after.size = added.length) : Fed initial (items ++ [item]) after := by
  have handed := pass.handed complete
  have member_iff : ∀ delivery,
      delivery ∈ after.deliveries ↔ delivery ∈ before.deliveries ∨ delivery ∈ added := by
    intro delivery
    rw [pass.deliveries, List.mem_append]
  have grown := pass.grown
  have size := fed.size
  constructor
  · omega
  · intro receiver inside
    rw [handed, fed.early receiver inside, if_pos (by omega)]
  · intro delivery member receiver low high
    rcases (member_iff delivery).mp member with old | new
    · obtain ⟨earlier, later, split, taken⟩ := fed.late delivery old receiver low high
      have bounds := fed.bounds delivery old
      refine ⟨earlier, later ++ [item], by simp [split], ?_⟩
      rw [handed, taken, if_pos (by omega), List.cons_append]
    · have bounds := pass.bounds delivery new
      refine ⟨items, [], by rw [pass.items delivery new], ?_⟩
      rw [handed, fed.handed_of_le (by omega), if_pos (by omega), pass.items delivery new, List.nil_append]
  · intro receiver low high
    rcases Nat.lt_or_ge receiver before.size with old | new
    · obtain ⟨delivery, member, inside⟩ := fed.origin receiver low old
      exact ⟨delivery, (member_iff delivery).mpr (Or.inl member), inside⟩
    · obtain ⟨delivery, member, inside⟩ := pass.origin receiver new high
      exact ⟨delivery, (member_iff delivery).mpr (Or.inr member), inside⟩
  · intro delivery member
    rcases (member_iff delivery).mp member with old | new
    · exact Nat.lt_of_lt_of_le (fed.reached delivery old) grown
    · exact pass.reached delivery new
  · intro delivery member
    rcases (member_iff delivery).mp member with old | new
    · have bounds := fed.bounds delivery old
      omega
    · have bounds := pass.bounds delivery new
      omega
  · intro delivery member
    rcases (member_iff delivery).mp member with old | new
    · exact (fed.placed delivery old).trans (front_drop pass.kept _)
    · exact pass.placed delivery new

/-- A broadcast of all items that does not fail hands every receiver what is due to it. -/
theorem Fed.broadcastAll {initial : Nat} {done items : List Item} {ending : Option ε}
    {before after : State Item Receiver ε} (fed : Fed initial done before)
    (outcome : broadcastAll items ending before = .ok () after) :
    Fed initial (done ++ items) after := by
  induction items generalizing done before with
  | nil =>
      cases ending with
      | none =>
          cases outcome
          rwa [List.append_nil]
      | some error => cases outcome
  | cons item items ih =>
      obtain ⟨added, pass, complete⟩ := broadcast_pass item before
      simp only [Feed.broadcastAll] at outcome
      cases ended : broadcast item before with
      | error error state =>
          rw [ended] at outcome
          cases outcome
      | ok _ state =>
          rw [ended] at outcome pass
          have next := ih (fed.pass pass (complete state ended)) outcome
          rwa [List.append_assoc, List.singleton_append] at next

/-- No receiver is handed two items of one key. -/
def OnceEach {Key : Type} (key : Item → Key) (state : State Item Receiver ε) : Prop :=
  (state.deliveries.map fun delivery => (key delivery.item, delivery.receiver)).Nodup

theorem Pass.onceEach {Key : Type} {key : Item → Key} {item : Item}
    {before after : State Item Receiver ε} {added : List (Delivery Item Receiver)}
    (pass : Pass item 0 before after added) (once : OnceEach key before)
    (fresh : ∀ delivery ∈ before.deliveries, key delivery.item ≠ key item) :
    OnceEach key after := by
  have pairs :
      (added.map fun delivery => (key delivery.item, delivery.receiver)) =
        (List.range' 0 added.length).map fun receiver => (key item, receiver) := by
    rw [← pass.receivers, List.map_map]
    exact List.map_congr_left fun delivery member => by
      simp [pass.items delivery member]
  rw [OnceEach, pass.deliveries, List.map_append, pairs]
  have receivers : (List.range' 0 added.length).Nodup := List.nodup_range'
  refine List.Nodup.append once (receivers.map fun _ _ same => (Prod.ext_iff.mp same).2) ?_
  intro pair old new
  obtain ⟨delivery, member, rfl⟩ := List.mem_map.mp old
  obtain ⟨receiver, _, same⟩ := List.mem_map.mp new
  exact fresh delivery member (Prod.ext_iff.mp same).1.symm

/-- Items with different keys are handed at most once each, however the broadcast ends. -/
theorem onceEach_broadcastAll {Key : Type} {key : Item → Key} {items : List Item}
    {ending : Option ε} {before : State Item Receiver ε} (once : OnceEach key before)
    (distinct : (items.map key).Nodup)
    (fresh : ∀ delivery ∈ before.deliveries, key delivery.item ∉ items.map key) :
    OnceEach key (finalState (broadcastAll items ending before)) := by
  induction items generalizing before with
  | nil => cases ending <;> exact once
  | cons item items ih =>
      obtain ⟨added, pass, -⟩ := broadcast_pass item before
      rw [List.map_cons, List.nodup_cons] at distinct
      have now : OnceEach key (finalState (broadcast item before)) :=
        pass.onceEach once fun delivery member same =>
          fresh delivery member (by simp [same])
      simp only [broadcastAll]
      cases ended : broadcast item before with
      | error error state => simpa only [ended] using now
      | ok _ state =>
          rw [ended] at now pass
          refine ih now distinct.2 fun delivery member => ?_
          have made : delivery ∈ before.deliveries ++ added := pass.deliveries ▸ member
          rcases List.mem_append.mp made with old | new
          · exact fun later => fresh delivery old (List.mem_cons_of_mem _ later)
          · rw [pass.items delivery new]
            exact distinct.1

theorem OnceEach.handed {Key : Type} {key : Item → Key} {state : State Item Receiver ε}
    (once : OnceEach key state) (receiver : Nat) : ((state.handed receiver).map key).Nodup := by
  have kept := once.sublist (List.filter_sublist.map _ :
    List.Sublist ((state.deliveries.filter fun delivery => delivery.receiver = receiver).map _) _)
  have pairs :
      (state.deliveries.filter fun delivery => delivery.receiver = receiver).map
          (fun delivery => (key delivery.item, delivery.receiver)) =
        ((state.handed receiver).map key).map fun made => (made, receiver) := by
    rw [State.handed, List.map_map, List.map_map]
    refine List.map_congr_left fun delivery member => ?_
    have same : delivery.receiver = receiver := by simpa using (List.mem_filter.mp member).2
    simp [same]
  rw [pairs] at kept
  exact kept.of_map _

/-! ## Receivers that do not fail -/

/-- No answer to come is an error. -/
def Willing (state : State Item Receiver ε) : Prop :=
  ∀ reply ∈ state.replies, reply.error = none

theorem Willing.deliver {state : State Item Receiver ε} (willing : Willing state) (item : Item)
    (receiver : Nat) :
    Feed.deliver item receiver state = .ok () (state.delivered item receiver) ∧
      Willing (state.delivered item receiver) := by
  constructor
  · have fine : state.reply.error = none := by
      cases held : state.replies with
      | nil => simp [State.reply, held]
      | cons first rest => simpa [State.reply, held] using willing first (by simp [held])
    simp only [Feed.deliver, fine]
  · exact fun reply member => willing reply (List.mem_of_mem_tail member)

theorem Willing.forGrowing {state : State Item Receiver ε} (willing : Willing state) (item : Item)
    (fuel first : Nat) :
    ∃ after,
      forGrowing State.size (Feed.deliver item) fuel first state = .ok () after ∧
        Willing after := by
  induction fuel generalizing first state with
  | zero => exact ⟨state, rfl, willing⟩
  | succ fuel ih =>
      rcases Nat.lt_or_ge first state.size with inside | outside
      · have ⟨outcome, still⟩ := willing.deliver item first
        simpa only [Feed.forGrowing, inside, if_true, outcome] using ih still (first + 1)
      · exact ⟨state, by simp only [Feed.forGrowing, Nat.not_lt.mpr outside, if_false], willing⟩

theorem Willing.broadcastAll {initial : Nat} {done : List Item} {state : State Item Receiver ε}
    (willing : Willing state) (fed : Fed initial done state) (items : List Item) :
    ∃ after,
      Fed initial (done ++ items) after ∧
        ∀ ending, Feed.broadcastAll items ending state = endWith ending after := by
  induction items generalizing done state with
  | nil => exact ⟨state, by rwa [List.append_nil], fun _ => rfl⟩
  | cons item items ih =>
      obtain ⟨middle, first, still⟩ := willing.forGrowing item (state.size + state.pending) 0
      have sent : broadcast item state = .ok () middle := first
      obtain ⟨added, pass, complete⟩ := broadcast_pass item state
      rw [sent, finalState] at pass
      obtain ⟨after, fedAfter, outcome⟩ := ih still (fed.pass pass (complete middle sent))
      refine ⟨after, by simpa using fedAfter, fun ending => ?_⟩
      simpa only [Feed.broadcastAll, sent] using outcome ending

end Feed
