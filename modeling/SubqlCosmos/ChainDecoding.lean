import SubqlCosmos.ChainRegistry
import SubqlCosmos.DispatchOnce

/-!
# Decoding with chain types

What the chain types of a project change in its blocks: the messages they name are decoded with their
types, and everything else is handed out as without them (`buildRegistry` and `decodeMsg` of
`indexer/api.service.ts`, and the wrappers of `utils/cosmos.ts`).
-/

namespace SubqlCosmos

open Js

/-! ## One block with two registries -/

/-- The codec with another registry. -/
def Codec.decodingWith (api : Codec) (decode : EncodeObject → Except Error Value) : Codec :=
  { api with decode }

/-- The block source with another registry. -/
def BlockSource.decodingWith (source : BlockSource) (decode : EncodeObject → Except Error Value) :
    BlockSource :=
  { source with api := source.api.decodingWith decode }

section DecodingWith

variable (api : Codec) (source : BlockSource) (decode : EncodeObject → Except Error Value)

@[simp]
theorem BlockSource.api_decodingWith : (source.decodingWith decode).api = source.api.decodingWith decode :=
  rfl

@[simp]
theorem BlockSource.results_decodingWith : (source.decodingWith decode).results = source.results := rfl

@[simp]
theorem BlockSource.block_decodingWith : (source.decodingWith decode).block = source.block := rfl

@[simp]
theorem parseRawLog_decodingWith : (api.decodingWith decode).parseRawLog = api.parseRawLog := rfl

@[simp]
theorem wrapTx_decodingWith : wrapTx (api.decodingWith decode) = wrapTx api := rfl

@[simp]
theorem wrapBlockBeginAndEndEvents_decodingWith :
    wrapBlockBeginAndEndEvents (api.decodingWith decode) = wrapBlockBeginAndEndEvents api := rfl

@[simp]
theorem planEnd_decodingWith : planEnd (source.decodingWith decode) = planEnd source := rfl

@[simp]
theorem openingItems_decodingWith :
    openingItems (source.decodingWith decode) = openingItems source := rfl

end DecodingWith

/-- The raw message a message is wrapped from. -/
def CosmosMessage.IsOf (msg : CosmosMessage) (raw : EncodeObject) : Prop :=
  ∃ decodedTx, msg.tx.decodedTx = .ok decodedTx ∧ decodedTx.body.messages[msg.idx]? = some raw

/-- The messages are one, decoded by either codec. -/
structure MessageDecoded (api other : Codec) (msg plain : CosmosMessage) : Prop where
  elsewhere : { plain with msg := msg.msg } = msg
  decoded : ∃ raw, msg.IsOf raw ∧
    msg.msg = { typeUrl := raw.typeUrl, decodedMsg := decodeMsg api raw } ∧
    plain.msg = { typeUrl := raw.typeUrl, decodedMsg := decodeMsg other raw }

/-- The events are one, its message decoded by either codec. -/
structure EventDecoded (api other : Codec) (event plain : CosmosEvent) : Prop where
  elsewhere : { plain with msg := event.msg } = event
  msg : Option.Rel (MessageDecoded api other) event.msg plain.msg

/-- The items are one, its message decoded by either codec. -/
inductive ItemDecoded (api other : Codec) : Item → Item → Prop
  | block (block : CosmosBlock) : ItemDecoded api other (.block block) (.block block)
  | transaction (tx : CosmosTransaction) : ItemDecoded api other (.transaction tx) (.transaction tx)
  | message {msg plain : CosmosMessage} (alike : MessageDecoded api other msg plain) :
      ItemDecoded api other (.message msg) (.message plain)
  | event {event plain : CosmosEvent} (alike : EventDecoded api other event plain) :
      ItemDecoded api other (.event event) (.event plain)

section Wrapping

variable (api : Codec) (decode decode' : EncodeObject → Except Error Value)

theorem wrapCosmosMsg_alike (block : CosmosBlock) (tx : CosmosTransaction) (idx : Nat) :
    Alike (MessageDecoded (api.decodingWith decode) (api.decodingWith decode'))
      (wrapCosmosMsg (api.decodingWith decode) block tx idx)
      (wrapCosmosMsg (api.decodingWith decode') block tx idx) := by
  rw [wrapCosmosMsg, wrapCosmosMsg]
  cases decodes : tx.decodedTx with
  | error error => exact rfl
  | ok decodedTx =>
      simp only [bind, Except.bind]
      cases listed : decodedTx.body.messages[idx]? with
      | none => exact rfl
      | some raw => exact ⟨rfl, raw, ⟨decodedTx, decodes, listed⟩, rfl, rfl⟩

theorem wrapMsg_alike (block : CosmosBlock) (txs : List CosmosTransaction) :
    Alike (List.Forall₂ (MessageDecoded (api.decodingWith decode) (api.decodingWith decode')))
      (wrapMsg (api.decodingWith decode) block txs)
      (wrapMsg (api.decodingWith decode') block txs) := by
  have each : ∀ tx, Alike
      (List.Forall₂ (MessageDecoded (api.decodingWith decode) (api.decodingWith decode')))
      (wrapTxMsgs (api.decodingWith decode) block tx)
      (wrapTxMsgs (api.decodingWith decode') block tx) := by
    intro tx
    rw [wrapTxMsgs, wrapTxMsgs]
    cases tx.decodedTx with
    | error error => exact rfl
    | ok decodedTx => exact Alike.mapM (wrapCosmosMsg_alike api decode decode' block tx) _
  exact (Alike.mapM each txs).map fun msgs others related => List.rel_flatten related

theorem numbered_alike {first second : Codec} {events others : List CosmosEvent} (idxOffset : Nat)
    (alike : List.Forall₂ (EventDecoded first second) events others) :
    List.Forall₂ (EventDecoded first second) (numbered idxOffset events)
      (numbered idxOffset others) := by
  induction alike generalizing idxOffset with
  | nil => exact .nil
  | @cons event plain _ _ here _ ih =>
      have renumbered : EventDecoded first second { event with idx := idxOffset }
          { plain with idx := idxOffset } :=
        ⟨congrArg (fun event : CosmosEvent => { event with idx := idxOffset }) here.elsewhere,
          here.msg⟩
      exact .cons renumbered (ih (idxOffset + 1))

/-- The events of the transactions are wrapped in the same places. -/
theorem wrapEvent_alike (block : CosmosBlock) (txs : List CosmosTransaction) (idxOffset : Nat) :
    List.Forall₂ (EventDecoded (api.decodingWith decode) (api.decodingWith decode'))
      (wrapEvent (api.decodingWith decode) block txs idxOffset)
      (wrapEvent (api.decodingWith decode') block txs idxOffset) := by
  have logged : ∀ tx log,
      List.Forall₂ (EventDecoded (api.decodingWith decode) (api.decodingWith decode'))
        (logEvents (api.decodingWith decode) block tx log)
        (logEvents (api.decodingWith decode') block tx log) := by
    intro tx log
    rw [logEvents, logEvents, List.forall₂_map_left_iff, List.forall₂_map_right_iff,
      List.forall₂_same]
    exact fun event _ => ⟨rfl, (wrapCosmosMsg_alike api decode decode' block tx log.msgIndex).toOption⟩
  rw [wrapEvent, wrapEvent]
  refine numbered_alike idxOffset (forall₂_flatMap (fun tx => ?_) txs)
  rw [txEvents, txEvents, parseRawLog_decodingWith, parseRawLog_decodingWith]
  cases api.parseRawLog tx.tx.log with
  | error error => exact .nil
  | ok logs => exact forall₂_flatMap (logged tx) logs

end Wrapping

/-! ## What a run hands out -/

section Plans

variable {first second : Codec} {messages others : List CosmosMessage}
  {events plainEvents : List CosmosEvent}

theorem MessageDecoded.tx_eq {msg plain : CosmosMessage} (alike : MessageDecoded first second msg plain) :
    msg.tx = plain.tx ∧ msg.idx = plain.idx := by
  rw [← alike.elsewhere]
  exact ⟨rfl, rfl⟩

theorem EventDecoded.owner_eq {event plain : CosmosEvent} (alike : EventDecoded first second event plain) :
    event.tx = plain.tx ∧ event.msg.map CosmosMessage.idx = plain.msg.map CosmosMessage.idx := by
  have messages := alike.msg
  constructor
  · rw [← alike.elsewhere]
  · generalize event.msg = msg?, plain.msg = other? at messages
    cases messages with
    | none => rfl
    | some same => exact congrArg some same.tx_eq.2

theorem selectMessages_alike (alike : List.Forall₂ (MessageDecoded first second) messages others)
    (tx : CosmosTransaction) :
    List.Forall₂ (MessageDecoded first second) (selectMessages messages tx)
      (selectMessages others tx) := by
  refine List.rel_filter (fun msg plain same => ?_) alike
  show decide (msg.tx.hash = tx.hash) = true ↔ decide (plain.tx.hash = tx.hash) = true
  rw [same.tx_eq.1]

theorem selectEvents_alike (alike : List.Forall₂ (EventDecoded first second) events plainEvents)
    (tx : CosmosTransaction) {msg plain : CosmosMessage}
    (same : MessageDecoded first second msg plain) :
    List.Forall₂ (EventDecoded first second) (selectEvents events tx msg)
      (selectEvents plainEvents tx plain) := by
  refine List.rel_filter (fun event plainEvent owned => ?_) alike
  dsimp only
  rw [owned.owner_eq.1, owned.owner_eq.2, same.tx_eq.2]

theorem transactionItems_alike
    (messagesAlike : List.Forall₂ (MessageDecoded first second) messages others)
    (eventsAlike : List.Forall₂ (EventDecoded first second) events plainEvents)
    (tx : CosmosTransaction) :
    List.Forall₂ (ItemDecoded first second) (transactionItems messages events tx)
      (transactionItems others plainEvents tx) := by
  refine .cons (.transaction tx) (List.rel_flatMap (selectMessages_alike messagesAlike tx) ?_)
  intro msg plain same
  exact .cons (.message same)
    (List.rel_map (fun _ _ owned => .event owned) (selectEvents_alike eventsAlike tx same))

/-- Both runs hand out the same items, and end alike. -/
structure PlanDecoded (first second : Codec) (plan other : Plan) : Prop where
  items : List.Forall₂ (ItemDecoded first second) plan.items other.items
  ending : plan.ending = other.ending

theorem PlanDecoded.after {plan other : Plan} (alike : PlanDecoded first second plan other)
    {items plainItems : List Item} (front : List.Forall₂ (ItemDecoded first second) items plainItems) :
    PlanDecoded first second (plan.after items) (other.after plainItems) :=
  ⟨List.rel_append front alike.items, alike.ending⟩

theorem forall₂_map_self {α : Type} {item : α → Item}
    (same : ∀ value, ItemDecoded first second (item value) (item value)) (values : List α) :
    List.Forall₂ (ItemDecoded first second) (values.map item) (values.map item) :=
  List.forall₂_map_left_iff.mpr
    (List.forall₂_map_right_iff.mpr (List.forall₂_same.mpr fun value _ => same value))

variable (source : BlockSource) (decode decode' : EncodeObject → Except Error Value)

theorem blockEvents_decoded {idxOffset : Nat} {raw : List TendermintEvent} {wrapped : List CosmosEvent}
    (outcome : wrapBlockBeginAndEndEvents source.api source.block raw idxOffset = .ok wrapped) :
    List.Forall₂ (ItemDecoded first second) (wrapped.map .event) (wrapped.map .event) := by
  refine List.forall₂_map_left_iff.mpr (List.forall₂_map_right_iff.mpr ?_)
  refine List.forall₂_same.mpr fun event member => .event ⟨rfl, ?_⟩
  rw [(tx_of_mem_blockEvents outcome member).2]
  exact .none

theorem endIdx_eq (messagesAlike : List.Forall₂ (MessageDecoded first second) messages others)
    (eventsAlike : List.Forall₂ (EventDecoded first second) events plainEvents)
    (begins : List CosmosEvent) (transactions : List CosmosTransaction) :
    endIdx begins transactions messages events = endIdx begins transactions others plainEvents := by
  have selected : List.Forall₂ (MessageDecoded first second)
      (selectedMessages messages transactions) (selectedMessages others transactions) :=
    forall₂_flatMap (selectMessages_alike messagesAlike) transactions
  have together : selectedMessages messages transactions = [] ↔
      selectedMessages others transactions = [] := by
    rw [← List.length_eq_zero_iff, selected.length_eq, List.length_eq_zero_iff]
  rw [endIdx, endIdx, eventsAlike.length_eq]
  simp only [together]

theorem planEnd_decoded (messagesAlike : List.Forall₂ (MessageDecoded first second) messages others)
    (eventsAlike : List.Forall₂ (EventDecoded first second) events plainEvents)
    (begins : List CosmosEvent) (transactions : List CosmosTransaction) :
    PlanDecoded first second (planEnd source begins transactions messages events)
      (planEnd source begins transactions others plainEvents) := by
  rw [planEnd, planEnd, endIdx_eq messagesAlike eventsAlike]
  split
  · exact ⟨.nil, rfl⟩
  · rename_i ends outcome
    exact ⟨blockEvents_decoded source outcome, rfl⟩

/-- What is handed out after the first events is the same with any registry. -/
theorem planTransactions_decoded (begins : List CosmosEvent) :
    PlanDecoded (source.api.decodingWith decode) (source.api.decodingWith decode')
      (planTransactions (source.decodingWith decode) begins)
      (planTransactions (source.decodingWith decode') begins) := by
  simp only [planTransactions, BlockSource.api_decodingWith, BlockSource.block_decodingWith,
    BlockSource.results_decodingWith, wrapTx_decodingWith, planEnd_decodingWith]
  cases wrapTx source.api source.block source.results.results with
  | error error => exact ⟨.nil, rfl⟩
  | ok transactions =>
      have messagesAlike := wrapMsg_alike source.api decode decode' source.block transactions
      have eventsAlike := wrapEvent_alike source.api decode decode' source.block transactions begins.length
      dsimp only
      match wrapMsg (source.api.decodingWith decode) source.block transactions,
        wrapMsg (source.api.decodingWith decode') source.block transactions, messagesAlike with
      | .error error, .error _, rfl => exact ⟨forall₂_map_self .transaction _, rfl⟩
      | .ok messages, .ok others, messagesAlike =>
          have ends := planEnd_decoded source messagesAlike eventsAlike begins transactions
          exact ends.after (forall₂_flatMap (transactionItems_alike messagesAlike eventsAlike) _)

/-- A run with one registry hands out the same items as a run with another, in the same order, and both
end alike. -/
theorem plan_decoded :
    PlanDecoded (source.api.decodingWith decode) (source.api.decodingWith decode')
      (plan (source.decodingWith decode)) (plan (source.decodingWith decode')) := by
  simp only [plan, BlockSource.api_decodingWith, BlockSource.block_decodingWith,
    BlockSource.results_decodingWith, wrapBlockBeginAndEndEvents_decodingWith,
    openingItems_decodingWith]
  cases outcome : wrapBlockBeginAndEndEvents source.api source.block
      source.results.beginBlockEvents 0 with
  | error error => exact ⟨.cons (.block _) .nil, rfl⟩
  | ok begins =>
      refine (planTransactions_decoded source decode decode' begins).after ?_
      exact .cons (.block _) (blockEvents_decoded source outcome)

end Plans

/-! ## The registry of a network -/

section Network

variable {Root GeneratedType : Type} {protobuf : Protobuf Root GeneratedType}
  {types : List (String × GeneratedType)} {network : CosmosProjectNetConfig Root}
  {registry : String → Option GeneratedType}

/-- What is registered without chain types stays, except under the names of messages of chain types. -/
theorem registry_of_unnamed (built : buildRegistry protobuf types network = .ok registry) {url : String}
    (unnamed : ∀ name ∈ messageNames network.chaintypes, url ≠ "/" ++ name) :
    registry url = register (fun _ => none) types url := by
  obtain ⟨chaintypes, registered, same⟩ := bind_eq_ok.mp built
  obtain rfl := Except.ok.inj same
  refine register_of_not_mem _ fun listed => ?_
  obtain ⟨item, member, rfl⟩ := List.mem_map.mp listed
  rw [getChainType_eq] at registered
  obtain ⟨items, looked, rfl⟩ := map_eq_ok.mp registered
  obtain ⟨-, last⟩ := (Record.mem_assignAll_iff items item).mp member
  obtain ⟨name, named, found⟩ := exists_of_mem_mapM looked last.mem
  refine unnamed name named ?_
  cases rooted : network.protoRoot with
  | none =>
      rw [rooted] at found
      cases found
  | some root =>
      rw [rooted] at found
      obtain ⟨type, -, same⟩ := bind_eq_ok.mp found
      rw [← Except.ok.inj same]

/-- Under the name of a message of a chain type, the type it is resolved to is registered. -/
theorem registry_of_named (built : buildRegistry protobuf types network = .ok registry) {name : String}
    (named : name ∈ messageNames network.chaintypes) :
    ∃ root type, network.protoRoot = some root ∧
      protobuf.lookupTypeOrEnum root (splitDots name) = .ok type ∧
        registry ("/" ++ name) = some type := by
  obtain ⟨chaintypes, registered, same⟩ := bind_eq_ok.mp built
  obtain rfl := Except.ok.inj same
  cases rooted : network.protoRoot with
  | none =>
      rw [getChainType_eq] at registered
      obtain ⟨items, looked, -⟩ := map_eq_ok.mp registered
      obtain ⟨item, found⟩ := succeeds_of_mapM looked name named
      rw [rooted] at found
      cases found
  | some root =>
      obtain ⟨type, found⟩ :=
        (exists_getChainType_iff network rooted).mp ⟨chaintypes, registered⟩ name named
      refine ⟨root, type, rfl, found, ?_⟩
      have entry := lookup_of_getChainType rooted registered named found
      exact register_of_mem _ chaintypes.keys_nodup (mem_of_lookup entry)

end Network

/-- The type of a transaction body, which a registry decodes together with the messages in it. -/
def txBody : String := "/cosmos.tx.v1beta1.TxBody"

/-- Decoding a message takes the type that is registered for it, and no other. -/
def LooksUp {GeneratedType : Type}
    (decode : (String → Option GeneratedType) → EncodeObject → Except Error Value) : Prop :=
  ∀ registry other msg, msg.typeUrl ≠ txBody → registry msg.typeUrl = other msg.typeUrl →
    decode registry msg = decode other msg

/-- The message of an item. -/
def Item.message? : Item → Option CosmosMessage
  | .block _ | .transaction _ => none
  | .message msg => some msg
  | .event evt => evt.msg

section Decoding

variable {api : Codec} {decode decode' : EncodeObject → Except Error Value} {raw : EncodeObject}

theorem decodeMsg_congr (same : decode raw = decode' raw) :
    decodeMsg (api.decodingWith decode) raw = decodeMsg (api.decodingWith decode') raw := by
  simp only [decodeMsg, Codec.decodingWith, same]

/-- A message that both codecs decode alike is the same message. -/
theorem MessageDecoded.eq {msg plain : CosmosMessage}
    (alike : MessageDecoded (api.decodingWith decode) (api.decodingWith decode') msg plain)
    (same : ∀ raw, raw.typeUrl = msg.msg.typeUrl → decode raw = decode' raw) : msg = plain := by
  obtain ⟨raw, -, here, there⟩ := alike.decoded
  have decoded : decodeMsg (api.decodingWith decode) raw = decodeMsg (api.decodingWith decode') raw :=
    decodeMsg_congr (same raw (by rw [here]))
  rw [decoded, ← there] at here
  rw [← alike.elsewhere, here]

/-- An item whose message both codecs decode alike is the same item. -/
theorem ItemDecoded.eq {item plain : Item}
    (alike : ItemDecoded (api.decodingWith decode) (api.decodingWith decode') item plain)
    (same : ∀ msg raw, item.message? = some msg → raw.typeUrl = msg.msg.typeUrl →
      decode raw = decode' raw) : item = plain := by
  cases alike with
  | block | transaction => rfl
  | message alike => rw [alike.eq fun raw typed => same _ raw rfl typed]
  | @event event plain alike =>
      have sameMsg : event.msg = plain.msg := by
        have either := alike.msg
        have owned : ∀ msg raw, event.msg = some msg → raw.typeUrl = msg.msg.typeUrl →
            decode raw = decode' raw := same
        generalize event.msg = msg?, plain.msg = other? at either owned
        cases either with
        | none => rfl
        | some inside => rw [inside.eq fun raw typed => owned _ raw rfl typed]
      rw [← alike.elsewhere, sameMsg]

/-- The message of an item is decoded with its codec. -/
theorem ItemDecoded.decoded {item plain : Item} {first second : Codec}
    (alike : ItemDecoded first second item plain) {msg : CosmosMessage}
    (held : item.message? = some msg) :
    ∃ raw, msg.IsOf raw ∧ msg.msg = { typeUrl := raw.typeUrl, decodedMsg := decodeMsg first raw } := by
  have wrapped : ∃ other, MessageDecoded first second msg other := by
    cases alike with
    | block | transaction => cases held
    | message alike =>
        obtain rfl := Option.some.inj held
        exact ⟨_, alike⟩
    | @event event plain alike =>
        have either := alike.msg
        rw [show event.msg = some msg from held] at either
        generalize plain.msg = other? at either
        cases either with
        | some inside => exact ⟨_, inside⟩
  obtain ⟨other, raw, belongs, here, -⟩ := wrapped.imp fun _ alike => alike.decoded
  exact ⟨raw, belongs, here⟩

end Decoding

section Registered

variable {Root GeneratedType : Type} {protobuf : Protobuf Root GeneratedType}
  {types : List (String × GeneratedType)} {network : CosmosProjectNetConfig Root}
  {registry : String → Option GeneratedType}
  {decode : (String → Option GeneratedType) → EncodeObject → Except Error Value}

/-- In every block the chain types of a network change nothing but the messages they name: a run hands out
the same items in the same order as without them and ends alike; a message they do not name is the same
message; and one they name is decoded with the type its name is resolved to. -/
theorem chain_types_decode (looksUp : LooksUp decode)
    (built : buildRegistry protobuf types network = .ok registry) (source : BlockSource) :
    (plan (source.decodingWith (decode registry))).ending =
        (plan (source.decodingWith (decode (register (fun _ => none) types)))).ending ∧
      List.Forall₂
        (fun item plain =>
          ItemDecoded (source.api.decodingWith (decode registry))
              (source.api.decodingWith (decode (register (fun _ => none) types))) item plain ∧
            ((∀ msg, item.message? = some msg → msg.msg.typeUrl ≠ txBody ∧
                ∀ name ∈ messageNames network.chaintypes, msg.msg.typeUrl ≠ "/" ++ name) →
              item = plain) ∧
            ∀ msg, item.message? = some msg → msg.msg.typeUrl ≠ txBody →
              ∀ name ∈ messageNames network.chaintypes, msg.msg.typeUrl = "/" ++ name →
                ∃ root type raw, network.protoRoot = some root ∧
                  protobuf.lookupTypeOrEnum root (splitDots name) = .ok type ∧ msg.IsOf raw ∧
                    msg.msg.decodedMsg =
                      decodeMsg (source.api.decodingWith (decode fun _ => some type)) raw)
        (plan (source.decodingWith (decode registry))).items
        (plan (source.decodingWith (decode (register (fun _ => none) types)))).items := by
  have alike := plan_decoded source (decode registry) (decode (register (fun _ => none) types))
  refine ⟨alike.ending, alike.items.imp fun item plain same => ⟨same, fun unnamed => ?_, ?_⟩⟩
  · refine same.eq fun msg raw held typed => ?_
    obtain ⟨single, apart⟩ := unnamed msg held
    rw [← typed] at single apart
    exact looksUp _ _ _ single (registry_of_unnamed built apart)
  · intro msg held single name named url
    obtain ⟨root, type, rooted, found, known⟩ := registry_of_named built named
    obtain ⟨raw, belongs, here⟩ := same.decoded held
    have typed : msg.msg.typeUrl = raw.typeUrl := by rw [here]
    rw [typed] at single url
    refine ⟨root, type, raw, rooted, found, belongs, ?_⟩
    rw [here]
    exact decodeMsg_congr (looksUp _ _ _ single (by rw [url, known]))

end Registered

/-- A network with its own type of transfers. -/
def bankNetwork : CosmosProjectNetConfig (List (List String)) where
  chainId := some "cosmoshub-4"
  chaintypes :=
    [("cosmos.bank",
      { file := "./proto/bank.proto"
        messages := ["MsgSend"]
        packageName := some "cosmos.bank.v1beta1"
        proto := [["cosmos", "bank", "v1beta1", "MsgSend"]] })]
  protoRoot := some [["cosmos", "bank", "v1beta1", "MsgSend"]]

/-- Decoding of an empty transfer, with the fields of the default type or as the network's own. -/
def bankDecode (registry : String → Option (List String)) (msg : EncodeObject) : Except Error Value :=
  match registry msg.typeUrl with
  | none => .error { name := "Error", message := "Unregistered type url: " ++ msg.typeUrl }
  | some ["MsgSend"] => sendCodec.decode msg
  | some _ => .ok (.obj [])

theorem bank_types_decode : ∃ registry,
    buildRegistry (Protobuf.ofPaths parseTwo) [("/cosmos.bank.v1beta1.MsgSend", ["MsgSend"])]
        bankNetwork = .ok registry ∧
      registry "/cosmos.bank.v1beta1.MsgSend" = some ["cosmos", "bank", "v1beta1", "MsgSend"] ∧
        (plan ((sendBlock replayResults).decodingWith (bankDecode registry))).items.length =
          (plan ((sendBlock replayResults).decodingWith (bankDecode (register (fun _ => none)
            [("/cosmos.bank.v1beta1.MsgSend", ["MsgSend"])])))).items.length := by
  have looksUp : LooksUp bankDecode := by
    intro registry other msg _ same
    rw [bankDecode, bankDecode, same]
  have built : ∃ registry, buildRegistry (Protobuf.ofPaths parseTwo)
      [("/cosmos.bank.v1beta1.MsgSend", ["MsgSend"])] bankNetwork = .ok registry := ⟨_, rfl⟩
  obtain ⟨registry, built⟩ := built
  have named : "cosmos.bank.v1beta1.MsgSend" ∈ messageNames bankNetwork.chaintypes := by decide
  obtain ⟨root, type, rooted, found, known⟩ := registry_of_named built named
  obtain rfl := Option.some.inj rooted
  obtain rfl : ["cosmos", "bank", "v1beta1", "MsgSend"] = type := Except.ok.inj found
  exact ⟨registry, built, known,
    (chain_types_decode looksUp built (sendBlock replayResults)).2.length_eq⟩

end SubqlCosmos
