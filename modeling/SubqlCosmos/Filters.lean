import SubqlCosmos.Types

/-!
# Runtime filters

The functions of `utils/cosmos.ts` that decide whether a handler wants a block, a transaction, a
message or an event.
-/

namespace SubqlCosmos

open Js

/-! ## Blocks and transactions -/

/-- Whether a handler with the filter wants the block. -/
def filterBlock (data : CosmosBlock) (filter : Option CosmosBlockFilter) : Bool :=
  match filter with
  | none => true
  | some filter =>
      match filter.modulo with
      | none => true
      | some modulo => ¬(modulo ≠ 0 ∧ rem data.block.header.height modulo ≠ 0)

/-- The flag is given and set. -/
def CosmosTxFilter.IncludesFailed (filter : CosmosTxFilter) : Prop :=
  filter.includeFailedTx = some true

instance (filter : CosmosTxFilter) : Decidable filter.IncludesFailed :=
  inferInstanceAs (Decidable (_ = _))

/-- Whether a handler with the filter wants the transaction. -/
def filterTx (data : CosmosTransaction) (filter : Option CosmosTxFilter) : Bool :=
  if (filter.all fun filter => ¬filter.IncludesFailed) ∧ data.tx.code ≠ 0 then false
  else true

/-! ## Messages -/

section Decoded

variable (prototypes : Prototypes)

/-- `isLong` of the `long` package: a Long, or an object that claims to be one. -/
def isLong : Value → Bool
  | .long _ _ => true
  | value => Value.own value "__isLong__" = some (.scalar (.bool true))

/-- The call `value.toNumber()` on something `isLong` holds of. -/
def callToNumber : Value → Except Error Value
  | .long value _ => .ok (.num (toDouble value))
  | _ =>
      .error { name := "TypeError", message := "decodedMsgData.toNumber is not a function" }

/-- The call `value.toString()` on something `isLong` holds of: a field of this name hides the
inherited method, and no decoded field is a function. -/
def callToString : Value → Except Error Value
  | .long value _ => .ok (.str (toString value))
  | value =>
      if (Value.own value "toString").isSome then
        .error { name := "TypeError", message := "decodedMsgData.toString is not a function" }
      else
        .ok (.str "[object Object]")

/-- A Long in the form of the expected value, anything else as it is. -/
def convertLong (decodedMsgData : Value) (expected : Scalar) : Except Error Value :=
  if isLong decodedMsgData then
    match expected with
    | .num _ => callToNumber decodedMsgData
    | _ => callToString decodedMsgData
  else
    .ok decodedMsgData

/-- The decoded value a `values` key resolves to, ready for the equality check. -/
def readValue (decodedMsg : Value) (key : String) (expected : Scalar) : Except Error Value := do
  let decodedMsgData ← Value.walk prototypes decodedMsg (splitDots key)
  convertLong decodedMsgData expected

/-- The loop over the entries of `filter.values`: every key reads `decodedMsg` anew, and the first
one that differs ends the loop. -/
def matchValues (decodedMsg : Except Error Value) : List (String × Scalar) → Except Error Bool
  | [] => .ok true
  | (key, expected) :: entries => do
      let decoded ← decodedMsg
      let decodedMsgData ← readValue prototypes decoded key expected
      if decodedMsgData.strictEq expected then matchValues decodedMsg entries else return false

/-- lodash `isObjectLike`. -/
def isObjectLike : Value → Bool
  | .obj _ | .arr _ | .long _ _ | .bytes _ => true
  | _ => false

/-- The type URL of a contract execution. -/
def msgExecuteContract : String := "/cosmwasm.wasm.v1.MsgExecuteContract"

/-- The condition on `filter.contractCall` of a contract execution. -/
def matchContractCall (decodedMsg : Value) (contractCall : String) : Except Error Bool := do
  let msg ← Value.get prototypes decodedMsg "msg"
  return msg = .str contractCall || isObjectLike msg && msg.hasProperty prototypes contractCall

/-- The contract call a filter asks for, if any. -/
def CosmosMessageFilter.requestedCall (filter : CosmosMessageFilter) : Option String :=
  if filter.type = some msgExecuteContract then filter.contractCall.filter (· ≠ "") else none

/-- The check of `filter.values`. -/
def checkValues (data : CosmosMessage) (filter : CosmosMessageFilter) : Except Error Bool :=
  match filter.values with
  | none => .ok true
  | some values => matchValues prototypes data.msg.decodedMsg values.entries

/-- The check of `filter.contractCall`. -/
def checkContractCall (data : CosmosMessage) (filter : CosmosMessageFilter) : Except Error Bool :=
  match filter.requestedCall with
  | none => .ok true
  | some contractCall => do
      let decoded ← data.msg.decodedMsg
      matchContractCall prototypes decoded contractCall

/-- Whether a handler with the filter wants the message. -/
def filterMessageData (data : CosmosMessage) (filter : Option CosmosMessageFilter) :
    Except Error Bool :=
  match filter with
  | none => .ok true
  | some filter =>
      if ¬filterTx data.tx (some filter.toCosmosTxFilter) then .ok false
      else if filter.type ≠ some data.msg.typeUrl then .ok false
      else do
        let valuesMatch ← checkValues prototypes data filter
        if valuesMatch then checkContractCall prototypes data filter else return false

/-! ## Events -/

/-- The check of `filter.messageFilter`. -/
def checkMessageFilter (event : CosmosEvent) (filter : CosmosEventFilter) : Except Error Bool :=
  match filter.messageFilter, event.msg with
  | none, _ => .ok true
  | some _, none => .ok false
  | some messageFilter, some msg => filterMessageData prototypes msg (some messageFilter)

/-- The loop over `filter.attributes`. -/
def checkAttributes (event : CosmosEvent) (filter : CosmosEventFilter) : Bool :=
  filter.attributes.all fun attributes =>
    attributes.entries.all fun (filterKey, expected) =>
      event.event.attributes.any fun found =>
        found.key = filterKey ∧ Scalar.str found.value = expected

/-- Whether a handler with the filter wants the event. -/
def filterEvent (event : CosmosEvent) (filter : Option CosmosEventFilter) : Except Error Bool :=
  match filter with
  | none => .ok true
  | some filter =>
      if filter.type ≠ some event.event.type then .ok false
      else do
        let messageMatches ← checkMessageFilter prototypes event filter
        return messageMatches && checkAttributes event filter

/-! ## Lists of filters -/

/-- `filters.find(accepts)` as a condition: the first accepting filter, where an absent one that
accepts ends the search and still counts as nothing found. -/
def findFilter {α : Type} (accepts : Option α → Except Error Bool) :
    List (Option α) → Except Error (Option α)
  | [] => .ok none
  | filter :: filters => do
      if ← accepts filter then return filter else findFilter accepts filters

/-- `data.filter(accepts)` with a predicate that may throw. -/
def keep {α : Type} (accepts : α → Except Error Bool) : List α → Except Error (List α)
  | [] => .ok []
  | datum :: data => do
      let kept ← accepts datum
      let rest ← keep accepts data
      return if kept then datum :: rest else rest

/-- No filter, or an empty list of them. -/
def OneOrMany.isEmpty {α : Type} : OneOrMany α → Bool
  | .one filter => filter.isNone
  | .many filters => filters.isEmpty

/-- The filters as a list. -/
def OneOrMany.toList {α : Type} : OneOrMany α → List (Option α)
  | .one filter => [filter]
  | .many filters => filters

/-- The data some filter accepts, all data when there is no filter. -/
def filterAll {α β : Type} (accepts : β → Option α → Except Error Bool) (data : List β)
    (filterOrFilters : OneOrMany α) : Except Error (List β) :=
  if filterOrFilters.isEmpty then .ok data
  else
    keep (fun datum => (findFilter (accepts datum) filterOrFilters.toList).map Option.isSome) data

/-- The messages some filter wants; a missing list of messages is empty. -/
def filterMessages (messages : Option (List CosmosMessage))
    (filterOrFilters : OneOrMany CosmosMessageFilter) : Except Error (List CosmosMessage) :=
  match messages with
  | none => .ok []
  | some messages => filterAll (filterMessageData prototypes) messages filterOrFilters

/-- The events some filter wants. -/
def filterEvents (events : List CosmosEvent) (filterOrFilters : OneOrMany CosmosEventFilter) :
    Except Error (List CosmosEvent) :=
  filterAll (filterEvent prototypes) events filterOrFilters

end Decoded

/-! ## What acceptance means -/

theorem filterBlock_iff (data : CosmosBlock) (filter : CosmosBlockFilter) :
    filterBlock data (some filter) = true ↔
      ∀ modulo, filter.modulo = some modulo → modulo ≠ 0 →
        ∃ factor : ℤ, (data.block.header.height : ℚ) = factor * modulo := by
  cases given : filter.modulo with
  | none => simp [filterBlock, given]
  | some modulo =>
      by_cases zero : modulo = 0
      · simp [filterBlock, given, zero]
      · simp [filterBlock, given, zero, rem_eq_zero_iff _ zero]

theorem filterTx_iff (data : CosmosTransaction) (filter : Option CosmosTxFilter) :
    filterTx data filter = true ↔
      data.tx.code = 0 ∨ ∃ given, filter = some given ∧ given.IncludesFailed := by
  cases filter with
  | none => simp [filterTx]
  | some filter =>
      by_cases included : filter.IncludesFailed <;> simp [filterTx, included]

theorem filterMessageData_iff (prototypes : Prototypes) (data : CosmosMessage)
    (filter : CosmosMessageFilter) :
    filterMessageData prototypes data (some filter) = .ok true ↔
      filterTx data.tx (some filter.toCosmosTxFilter) = true ∧
        filter.type = some data.msg.typeUrl ∧
          checkValues prototypes data filter = .ok true ∧
            checkContractCall prototypes data filter = .ok true := by
  by_cases txAccepted : filterTx data.tx (some filter.toCosmosTxFilter) = true
  · by_cases sameType : filter.type = some data.msg.typeUrl
    · rw [filterMessageData, if_neg (by simp [txAccepted]), if_neg (by simp [sameType]), bind_eq_ok]
      constructor
      · rintro ⟨valuesMatch, values, rest⟩
        cases valuesMatch with
        | false => simp [pure, Except.pure] at rest
        | true => exact ⟨txAccepted, sameType, values, by simpa using rest⟩
      · rintro ⟨-, -, values, call⟩
        exact ⟨true, values, by simpa using call⟩
    · simp [filterMessageData, txAccepted, sameType]
  · simp [filterMessageData, txAccepted]

theorem filterEvent_iff (prototypes : Prototypes) (event : CosmosEvent)
    (filter : CosmosEventFilter) :
    filterEvent prototypes event (some filter) = .ok true ↔
      filter.type = some event.event.type ∧
        checkMessageFilter prototypes event filter = .ok true ∧
          checkAttributes event filter = true := by
  by_cases sameType : filter.type = some event.event.type
  · rw [filterEvent, if_neg (by simp [sameType]), bind_eq_ok]
    simp [sameType, pure, Except.pure]
  · simp [filterEvent, sameType]

theorem filterEvent_message {prototypes : Prototypes} {event : CosmosEvent}
    {filter : CosmosEventFilter} {messageFilter : CosmosMessageFilter}
    (accepted : filterEvent prototypes event (some filter) = .ok true)
    (given : filter.messageFilter = some messageFilter) :
    ∃ msg, event.msg = some msg ∧
      filterMessageData prototypes msg (some messageFilter) = .ok true := by
  have outcome := ((filterEvent_iff prototypes event filter).mp accepted).2.1
  rw [checkMessageFilter, given] at outcome
  cases attached : event.msg with
  | none => simp [attached] at outcome
  | some msg => exact ⟨msg, rfl, by simpa [attached] using outcome⟩

theorem mem_of_keep {α : Type} {accepts : α → Except Error Bool} {data kept : List α}
    (outcome : keep accepts data = .ok kept) {datum : α} (member : datum ∈ kept) :
    datum ∈ data ∧ accepts datum = .ok true := by
  induction data generalizing kept with
  | nil =>
      obtain rfl : [] = kept := Except.ok.inj outcome
      exact absurd member List.not_mem_nil
  | cons first data induction =>
      obtain ⟨verdict, accepted, outcome⟩ := bind_eq_ok.mp outcome
      obtain ⟨rest, restKept, outcome⟩ := bind_eq_ok.mp outcome
      obtain rfl := Except.ok.inj outcome
      cases verdict with
      | false => exact (induction restKept member).imp_left (List.mem_cons_of_mem _)
      | true =>
          rcases List.mem_cons.mp member with rfl | inRest
          · exact ⟨List.mem_cons_self, accepted⟩
          · exact (induction restKept inRest).imp_left (List.mem_cons_of_mem _)

theorem findFilter_some {α : Type} {accepts : Option α → Except Error Bool}
    {filters : List (Option α)} {found : α}
    (outcome : findFilter accepts filters = .ok (some found)) :
    some found ∈ filters ∧ accepts (some found) = .ok true := by
  induction filters with
  | nil => exact absurd (Except.ok.inj outcome) (by simp)
  | cons filter filters induction =>
      obtain ⟨verdict, accepted, outcome⟩ := bind_eq_ok.mp outcome
      cases verdict with
      | false => exact (induction outcome).imp_left (List.mem_cons_of_mem _)
      | true =>
          obtain rfl : filter = some found := Except.ok.inj outcome
          exact ⟨List.mem_cons_self, accepted⟩

/-- What a non-empty list of filters lets through is accepted by one of them. -/
theorem mem_of_filterAll {α β : Type} {accepts : β → Option α → Except Error Bool}
    {data kept : List β}
    {filterOrFilters : OneOrMany α} (given : filterOrFilters.isEmpty = false)
    (outcome : filterAll accepts data filterOrFilters = .ok kept) {datum : β}
    (member : datum ∈ kept) :
    ∃ filter, some filter ∈ filterOrFilters.toList ∧ accepts datum (some filter) = .ok true := by
  rw [filterAll, given, if_neg (by simp)] at outcome
  obtain ⟨-, accepted⟩ := mem_of_keep outcome member
  cases search : findFilter (accepts datum) filterOrFilters.toList with
  | error error => simp [search, Except.map] at accepted
  | ok result =>
      cases result with
      | none => simp [search, Except.map] at accepted
      | some filter =>
          obtain ⟨inList, acceptedBy⟩ := findFilter_some search
          exact ⟨filter, inList, acceptedBy⟩

end SubqlCosmos
