import SubqlCosmos.DispatchOnce
import SubqlCosmos.FilterLaws

/-!
# Lazily decoded properties

The properties `decodedTx` and `decodedMsg` of wrapped transactions and messages are getters that
delete themselves, decode, and define the property again with the value. A decoder that throws leaves
no property behind.
-/

namespace Js

/-! ## A property that replaces its getter -/

/-- The state of such a property. -/
inductive LazyProperty (α : Type)
  | getter
  | filled (content : α)
  | deleted
deriving DecidableEq, Repr

namespace LazyProperty

variable {α ι : Type} [DecidableEq ι]

/-- A read, given what decoding comes to: `delete this.decoded; return (this.decoded = decode())`.
Where the property is deleted the read gives `undefined`, here `none`. -/
def read (decode : Except Error α) : LazyProperty α → Except Error (Option α) × LazyProperty α
  | .getter =>
      match decode with
      | .error error => (.error error, .deleted)
      | .ok content => (.ok (some content), .filled content)
  | .filled content => (.ok (some content), .filled content)
  | .deleted => (.ok none, .deleted)

/-- The outcomes of reads of one property. -/
def readTimes (decode : Except Error α) : LazyProperty α → Nat → List (Except Error (Option α))
  | _, 0 => []
  | property, times + 1 =>
      let (outcome, property) := property.read decode
      outcome :: readTimes decode property times

/-- The outcomes of reads of the properties of many objects, in the order in which they are made. -/
def readAll (decode : ι → Except Error α) :
    (ι → LazyProperty α) → List ι → List (ι × Except Error (Option α))
  | _, [] => []
  | properties, object :: objects =>
      let (outcome, property) := (properties object).read (decode object)
      (object, outcome) :: readAll decode (Function.update properties object property) objects

/-- Of each object either every read gives one decoded value, or every read throws the decode
error. -/
def Stable (decode : ι → Except Error α) (objects : List ι) : Prop :=
  ∀ object,
    (∃ content, ∀ outcome, (object, outcome) ∈ readAll decode (fun _ => .getter) objects →
        outcome = .ok (some content)) ∨
      ∃ error, decode object = .error error ∧
        ∀ outcome, (object, outcome) ∈ readAll decode (fun _ => .getter) objects →
          outcome = .error error

/-- The outcomes for one object are those of its own reads, whatever else is read between. -/
theorem mem_readAll (decode : ι → Except Error α) (properties : ι → LazyProperty α)
    (objects : List ι) (object : ι) (outcome : Except Error (Option α)) :
    (object, outcome) ∈ readAll decode properties objects ↔
      outcome ∈ readTimes (decode object) (properties object) (objects.count object) := by
  induction objects generalizing properties with
  | nil => simp [readAll, readTimes]
  | cons first objects ih =>
      rw [readAll, List.mem_cons, ih]
      by_cases same : first = object
      · subst first
        rw [List.count_cons_self, readTimes, List.mem_cons, Function.update_self]
        simp
      · rw [List.count_cons_of_ne (by simpa using same),
          Function.update_of_ne (Ne.symm same)]
        simp [Ne.symm same]

theorem readTimes_filled (decode : Except Error α) (content : α) (times : Nat) :
    readTimes decode (.filled content) times = List.replicate times (.ok (some content)) := by
  induction times with
  | zero => rfl
  | succ times ih => rw [readTimes, List.replicate_succ, ← ih]; rfl

theorem readTimes_deleted (decode : Except Error α) (times : Nat) :
    readTimes decode .deleted times = List.replicate times (.ok none) := by
  induction times with
  | zero => rfl
  | succ times ih => rw [readTimes, List.replicate_succ, ← ih]; rfl

theorem readTimes_ok (content : α) (times : Nat) :
    readTimes (.ok content) .getter times = List.replicate times (.ok (some content)) := by
  cases times with
  | zero => rfl
  | succ times => rw [List.replicate_succ, ← readTimes_filled (.ok content)]; rfl

theorem readTimes_error (error : Error) (times : Nat) :
    readTimes (.error error : Except Error α) .getter (times + 1) =
      .error error :: List.replicate times (.ok none) := by
  rw [← readTimes_deleted (.error error)]
  rfl

/-- Reads are stable exactly when what fails to decode is read at most once. -/
theorem stable_iff (decode : ι → Except Error α) (objects : List ι) :
    Stable decode objects ↔
      ∀ object, (∃ content, decode object = .ok content) ∨ objects.count object ≤ 1 := by
  refine forall_congr' fun object => ?_
  simp only [mem_readAll]
  cases decode object with
  | ok content =>
      refine iff_of_true (Or.inl ⟨content, fun outcome member => ?_⟩) (Or.inl ⟨content, rfl⟩)
      rw [readTimes_ok] at member
      exact List.eq_of_mem_replicate member
  | error error =>
      rcases objects.count object with _ | _ | times
      · refine iff_of_true (Or.inr ⟨error, rfl, fun outcome member => ?_⟩) (Or.inr (by omega))
        exact absurd member List.not_mem_nil
      · refine iff_of_true (Or.inr ⟨error, rfl, fun outcome member => ?_⟩) (Or.inr (by omega))
        rw [readTimes_error] at member
        simpa using member
      · -- the first read throws and the second one gives `undefined`
        rw [readTimes_error, List.replicate_succ]
        refine iff_of_false ?_ (by simp)
        rintro (⟨content, all⟩ | ⟨thrown, -, all⟩)
        · exact absurd (all _ List.mem_cons_self) (by simp)
        · exact absurd (all _ (List.mem_cons_of_mem _ List.mem_cons_self)) (by simp)

end LazyProperty
end Js

namespace SubqlCosmos

open Js

/-! ## Wrapped transactions and messages -/

/-- The reads of `decodedMsg` of wrapped messages, given by their positions in the order in which
they are made, are stable exactly when a message that fails to decode is read at most once; and so
are the reads of `decodedTx` of the transactions of a block, whoever makes them. -/
theorem decoding_stable_iff (msgs : List CosmosMessage) (txs : List CosmosTransaction) :
    (∀ reads : List (Fin msgs.length),
        LazyProperty.Stable (fun position => (msgs.get position).msg.decodedMsg) reads ↔
          ∀ position, (∃ decoded, (msgs.get position).msg.decodedMsg = .ok decoded) ∨
            reads.count position ≤ 1) ∧
      ∀ reads : List (Fin txs.length),
        LazyProperty.Stable (fun position => (txs.get position).decodedTx) reads ↔
          ∀ position, (∃ decoded, (txs.get position).decodedTx = .ok decoded) ∨
            reads.count position ≤ 1 :=
  ⟨fun _ => LazyProperty.stable_iff _ _, fun _ => LazyProperty.stable_iff _ _⟩

/-- The registry knows no type of message. -/
def unregisteredCodec : Codec :=
  { sendCodec with
    decode := fun msg =>
      .error { name := "Error", message := "Unregistered type url: " ++ msg.typeUrl } }

/-- A message of an unregistered type: the first read throws, the second one gives `undefined`. -/
theorem unregistered_message_reads :
    ∃ msg,
      wrapCosmosMsg unregisteredCodec (emptyBlock 7 0) (txWithCode (emptyBlock 7 0) 0) 0 =
          .ok msg ∧
        LazyProperty.readTimes msg.msg.decodedMsg .getter 2 =
          [.error
              { name := "Error"
                message := "Unregistered type url: /cosmos.bank.v1beta1.MsgSend" },
            .ok none] ∧
          ¬LazyProperty.Stable (fun _ : Unit => msg.msg.decodedMsg) [(), ()] := by
  refine ⟨_, rfl, rfl, fun stable => ?_⟩
  rcases (LazyProperty.stable_iff _ _).mp stable () with ⟨decoded, same⟩ | once
  · cases same
  · exact absurd once (by decide)

end SubqlCosmos
