import SubqlCosmos.Dictionary
import SubqlCosmos.Wrapping

/-!
# What the dictionary leaves out

The blocks a project of runtime datasources asks for through its dictionary query, compared with the
blocks its handlers want.
-/

namespace SubqlCosmos

open Js

/-! ## Wanted blocks and queried blocks -/

/-- The filter of the handler, applied with the function of its kind, accepts the block or something
in it. -/
def CosmosRuntimeHandler.Wants (prototypes : Prototypes) (content : BlockContent) :
    CosmosRuntimeHandler → Prop
  | .block filter => filterBlock content.block filter = true
  | .transaction filter => ∃ tx ∈ content.transactions, filterTx tx filter = true
  | .message filter => ∃ msg ∈ content.messages, filterMessageData prototypes msg filter = .ok true
  | .event filter =>
      ∃ event ∈ content.beginBlockEvents ++ content.events ++ content.endBlockEvents,
        filterEvent prototypes event filter = .ok true

/-- Every condition of the entry on the field compares with the text. -/
def DictionaryQueryEntry.Holds (entry : DictionaryQueryEntry) (field text : String) : Prop :=
  ∀ condition ∈ entry.conditions, condition.field = field → condition.value.toJson = .str text

/-- The conditions of the entry on `type` and `msgType` hold for a message or event of the block. -/
def DictionaryQueryEntry.Matches (entry : DictionaryQueryEntry) (content : BlockContent) : Prop :=
  entry.entity = "messages" ∧ (∃ msg ∈ content.messages, entry.Holds "type" msg.msg.typeUrl) ∨
    entry.entity = "events" ∧
      ∃ event ∈ content.beginBlockEvents ++ content.events ++ content.endBlockEvents,
        entry.Holds "type" event.event.type ∧
          ((∃ condition ∈ entry.conditions, condition.field = "msgType") →
            ∃ msg, event.msg = some msg ∧ entry.Holds "msgType" msg.msg.typeUrl)

/-- lodash throws at some key, written after those before it. -/
def RefusesValues (lodash : Lodash) (entries : List (String × Scalar)) : Prop :=
  ∃ before key value after nested, entries = before ++ (key, value) :: after ∧
    before.foldlM (fun nested entry => Nested.setWith lodash nested entry.1 entry.2) (.obj []) =
        .ok nested ∧
      Nested.writeError lodash nested
        (lodash.castPath (nested.fields.lookup key).isSome key) value ≠ none

namespace CosmosRuntimeHandler

end CosmosRuntimeHandler

theorem toJson_eq_str {value : Value} {text : String} :
    value.toJson = .str text ↔ value = .str text := by
  cases value <;> simp [Value.toJson]

theorem DictionaryQueryCondition.toJson_eq (condition : DictionaryQueryCondition) :
    condition.toJson = .obj (("field", .str condition.field) ::
      if condition.value.Unserialisable then [("matcher", .str condition.matcher)]
      else [("value", condition.value.toJson), ("matcher", .str condition.matcher)]) := by
  have textWritten : ∀ text, ¬(Value.str text).Unserialisable := fun _ => id
  rw [toJson, Value.toJson, Value.toJsonFields, if_neg (textWritten _), Value.toJsonFields,
    Value.toJsonFields, if_neg (textWritten _)]
  rfl

/-- Conditions written alike are about the same field and compare with the same texts. -/
theorem compares_of_toJson_eq {left right : DictionaryQueryCondition}
    (same : left.toJson = right.toJson) :
    left.field = right.field ∧
      ∀ text, left.value.toJson = .str text → right.value.toJson = .str text := by
  rw [left.toJson_eq, right.toJson_eq] at same
  obtain ⟨sameField, rest⟩ := List.cons_eq_cons.mp (Value.obj.inj same)
  refine ⟨by simpa using sameField, fun text leftText => ?_⟩
  have leftWritten : ¬left.value.Unserialisable := by
    rw [toJson_eq_str.mp leftText]
    exact id
  rw [if_neg leftWritten] at rest
  split at rest
  · simp at rest
  · obtain ⟨sameValue, -⟩ :
        left.value.toJson = right.value.toJson ∧ left.matcher = right.matcher := by
      simpa using rest
    rw [← sameValue, leftText]

/-- Entries of one key match the same blocks. -/
theorem DictionaryQueryEntry.Matches.of_key_eq {left right : DictionaryQueryEntry}
    {content : BlockContent} (matched : left.Matches content) (same : right.key = left.key) :
    right.Matches content := by
  have sameEntity : right.entity = left.entity := congrArg Prod.fst same
  have counterpart : ∀ condition ∈ right.conditions, ∃ other ∈ left.conditions,
      other.toJson = condition.toJson := by
    intro condition member
    have written : condition.toJson ∈ right.key.2 :=
      List.mem_map_of_mem ((List.perm_insertionSort _ _).mem_iff.mpr member)
    rw [same] at written
    obtain ⟨other, otherMember, otherJson⟩ := List.mem_map.mp written
    exact ⟨other, (List.perm_insertionSort _ _).mem_iff.mp otherMember, otherJson⟩
  have holds : ∀ field text, left.Holds field text → right.Holds field text := by
    intro field text leftHolds condition member about
    obtain ⟨other, otherMember, otherJson⟩ := counterpart condition member
    obtain ⟨sameField, compares⟩ := compares_of_toJson_eq otherJson
    exact compares text (leftHolds other otherMember (sameField.trans about))
  rcases matched with ⟨entity, msg, member, typed⟩ | ⟨entity, event, member, typed, msgTyped⟩
  · exact Or.inl ⟨sameEntity.trans entity, msg, member, holds _ _ typed⟩
  · refine Or.inr ⟨sameEntity.trans entity, event, member, holds _ _ typed, ?_⟩
    rintro ⟨condition, conditionMember, about⟩
    obtain ⟨other, otherMember, otherJson⟩ := counterpart condition conditionMember
    obtain ⟨msg, attached, leftHolds⟩ :=
      msgTyped ⟨other, otherMember, (compares_of_toJson_eq otherJson).1.trans about⟩
    exact ⟨msg, attached, holds _ _ leftHolds⟩

/-! ## What lodash refuses -/

section Refused

variable {lodash : Lodash}

theorem setWith_eq_error_iff {nested : Nested} {key : String} {value : Scalar} :
    (∃ error, Nested.setWith lodash nested key value = .error error) ↔
      Nested.writeError lodash nested
        (lodash.castPath (nested.fields.lookup key).isSome key) value ≠ none := by
  rw [Nested.setWith]
  cases Nested.writeError lodash nested
    (lodash.castPath (nested.fields.lookup key).isSome key) value <;> simp

/-- The values are refused exactly when writing them throws. -/
theorem refusesValues_iff (entries : List (String × Scalar)) :
    RefusesValues lodash entries ↔ ∃ error, nestedValues lodash entries = .error error := by
  have written : (∃ error, nestedValues lodash entries = .error error) ↔
      ∃ error, entries.foldlM
        (fun nested entry => Nested.setWith lodash nested entry.1 entry.2) (.obj []) =
          .error error := by
    rw [nestedValues]
    cases entries.foldlM
      (fun nested entry => Nested.setWith lodash nested entry.1 entry.2) (.obj []) <;>
      simp [bind, Except.bind, pure, Except.pure]
  rw [written, foldlM_error_iff]
  simp only [setWith_eq_error_iff]
  constructor
  · rintro ⟨before, key, value, after, nested, split, reached, throws⟩
    exact ⟨before, (key, value), after, nested, split, reached, throws⟩
  · rintro ⟨before, ⟨key, value⟩, after, nested, split, reached, throws⟩
    exact ⟨before, key, value, after, nested, split, reached, throws⟩

end Refused

/-! ## What is built for runtime handlers -/

section Build

variable {lodash : Lodash}

/-- The entries one runtime handler contributes. -/
def CosmosRuntimeHandler.queryEntries (lodash : Lodash) (handler : CosmosRuntimeHandler) :
    Except Error (Option (List DictionaryQueryEntry)) :=
  filterEntries lodash handler.baseFilter

@[simp]
theorem forEachFilter_one_none {α : Type}
    (entry : α → Except Error (Option (List DictionaryQueryEntry))) :
    forEachFilter entry (.one none) = .ok none := rfl

@[simp]
theorem forEachFilter_one_some {α : Type}
    (entry : α → Except Error (Option (List DictionaryQueryEntry))) (filter : α) :
    forEachFilter entry (.one (some filter)) = entry filter := by
  have one : (OneOrMany.one (some filter)).toList.reduceOption = [filter] := rfl
  simp only [forEachFilter, one, gather]
  cases entry filter with
  | error error => rfl
  | ok part => cases part <;> simp [bind, Except.bind, pure, Except.pure]

section Gather

variable {α : Type} (entriesOf : α → Except Error (Option (List DictionaryQueryEntry)))

end Gather

end Build

/-! ## Which projects skip no block -/

section Cover

variable {prototypes : Prototypes} {lodash : Lodash} {content : BlockContent}
  {entry : DictionaryQueryEntry}

theorem field_of_mem_conditions {filter : CosmosMessageFilter}
    (built : messageFilterToQueryEntry lodash filter = .ok entry)
    {condition : DictionaryQueryCondition} (member : condition ∈ entry.conditions) :
    condition.field = "type" ∧ condition.value = optionalText filter.type ∨
      condition.field = "data" := by
  obtain ⟨-, ⟨-, single⟩ | ⟨values, nested, -, -, both⟩⟩ := messageFilterToQueryEntry_ok built
  · rw [single] at member
    obtain rfl := List.mem_singleton.mp member
    exact Or.inl ⟨rfl, rfl⟩
  · rw [both] at member
    rcases List.mem_cons.mp member with rfl | member
    · exact Or.inl ⟨rfl, rfl⟩
    · obtain rfl := List.mem_singleton.mp member
      exact Or.inr rfl

theorem messageEntry_matches {msg : CosmosMessage} {filter : CosmosMessageFilter}
    (built : messageFilterToQueryEntry lodash filter = .ok entry) (member : msg ∈ content.messages)
    (accepted : filterMessageData prototypes msg (some filter) = .ok true) :
    entry.Matches content := by
  obtain ⟨-, typed, -⟩ := (filterMessageData_iff prototypes msg filter).mp accepted
  refine Or.inl ⟨(messageFilterToQueryEntry_ok built).1, msg, member, ?_⟩
  intro condition conditionMember about
  rcases field_of_mem_conditions built conditionMember with ⟨-, value⟩ | other
  · rw [value, typed]
    rfl
  · rw [other] at about
    exact absurd about (by decide)

theorem eventEntry_matches {event : CosmosEvent} {filter : CosmosEventFilter}
    (built : eventFilterToQueryEntry lodash filter = .ok entry)
    (member : event ∈ content.beginBlockEvents ++ content.events ++ content.endBlockEvents)
    (accepted : filterEvent prototypes event (some filter) = .ok true) :
    entry.Matches content := by
  have typed := ((filterEvent_iff prototypes event filter).mp accepted).1
  obtain ⟨entity, cases⟩ := eventFilterToQueryEntry_ok built
  -- behind the first condition stand those of the message filter, if there is one
  have behind : ∀ condition ∈ entry.conditions,
      condition.field = "type" ∧ condition.value = optionalText filter.type ∨
        condition.field = "data" ∨
          ∃ messageFilter, filter.messageFilter = some messageFilter ∧
            condition.field = "msgType" ∧ condition.value = optionalText messageFilter.type := by
    intro condition conditionMember
    rcases cases with ⟨-, single⟩ | ⟨messageFilter, messageEntry, given, messageBuilt, all⟩
    · rw [single] at conditionMember
      obtain rfl := List.mem_singleton.mp conditionMember
      exact Or.inl ⟨rfl, rfl⟩
    · rw [all] at conditionMember
      rcases List.mem_cons.mp conditionMember with rfl | rest
      · exact Or.inl ⟨rfl, rfl⟩
      · obtain ⟨source, sourceMember, rfl⟩ := List.mem_map.mp rest
        refine Or.inr ?_
        rcases field_of_mem_conditions messageBuilt sourceMember with ⟨about, value⟩ | about
        · refine Or.inr ⟨messageFilter, given, ?_, ?_⟩ <;>
            simp [DictionaryQueryCondition.onMessage, about, value]
        · exact Or.inl (by simp [DictionaryQueryCondition.onMessage, about])
  refine Or.inr ⟨entity, event, member, ?_, ?_⟩
  · intro condition conditionMember about
    rcases behind condition conditionMember with ⟨-, value⟩ | other | ⟨_, -, other, -⟩
    · rw [value, typed]
      rfl
    · exact absurd (other.symm.trans about) (by decide)
    · exact absurd (other.symm.trans about) (by decide)
  · rintro ⟨condition, conditionMember, about⟩
    rcases behind condition conditionMember with ⟨other, -⟩ | other | ⟨messageFilter, given, -, -⟩
    · exact absurd (other.symm.trans about) (by decide)
    · exact absurd (other.symm.trans about) (by decide)
    · obtain ⟨msg, attached, msgAccepted⟩ := filterEvent_message accepted given
      obtain ⟨-, msgTyped, -⟩ := (filterMessageData_iff prototypes msg messageFilter).mp msgAccepted
      refine ⟨msg, attached, fun other otherMember otherAbout => ?_⟩
      rcases behind other otherMember with ⟨wrong, -⟩ | wrong | ⟨same, givenSame, -, value⟩
      · exact absurd (wrong.symm.trans otherAbout) (by decide)
      · exact absurd (wrong.symm.trans otherAbout) (by decide)
      · obtain rfl : messageFilter = same := Option.some.inj (given.symm.trans givenSame)
        rw [value, msgTyped]
        rfl

/-- Decoders under which every raw transaction holds these messages, and a message calls a contract
with no arguments. -/
def callCodec (messages : List EncodeObject) : Codec where
  sha256 _ := .ok []
  decodeTxRaw _ := .ok { body := { messages := messages } }
  parseRawLog
    | none => .ok []
    | some _ => .error { name := "SyntaxError", message := "Unexpected token in JSON" }
  fromTendermintEvent event := .ok { type := event.type, attributes := [] }
  decode _ := .ok (.obj [("sender", .str ""), ("contract", .str ""), ("msg", .bytes [123, 125])])
  decodeText _ := .ok "\x7b\x7d"
  parseJson _ := .ok (.obj [])
  prototypes _ _ := .undefined

/-- A block of one transaction, which succeeded, with these messages. -/
def blockOf (height : Nat) (messages : List EncodeObject) : BlockContent :=
  let api := callCodec messages
  let results : List TxData := [{ code := 0, log := none, events := [] }]
  let block := wrapBlock
    { blockId := { hash := [] }
      block := { header := { height := height, time := 0 }, txs := [[]] } } results
  let transactions := (wrapTx api block results).toOption.getD []
  { block := block
    transactions := transactions
    messages := (wrapMsg api block transactions).toOption.getD []
    events := wrapEvent api block transactions 0
    beginBlockEvents := []
    endBlockEvents := [] }

end Cover

/-- A block of one transaction, which executes a contract. -/
def executionBlock : BlockContent :=
  blockOf 7 [{ typeUrl := msgExecuteContract, value := [26, 2, 123, 125] }]

end SubqlCosmos
