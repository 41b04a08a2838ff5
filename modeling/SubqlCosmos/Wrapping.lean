import SubqlCosmos.Js.Record
import SubqlCosmos.Js.Traverse
import SubqlCosmos.Types

/-!
# Wrapping of chain data

The functions of `utils/cosmos.ts` that turn a block and its results into the transactions, messages
and events handlers receive.
-/

namespace SubqlCosmos

open Js

/-! ## Hashes as text -/

/-- The digit of a number below sixteen. -/
def hexDigit (digit : UInt8) : Char :=
  if digit < 10 then Char.ofNat (48 + digit.toNat) else Char.ofNat (87 + digit.toNat)

/-- `toHex`: two digits for every byte. -/
def toHex (data : Bytes) : String :=
  String.ofList (data.flatMap fun byte => [hexDigit (byte / 16), hexDigit (byte % 16)])

/-! ## Decoders -/

/-- The decoders of the packages the wrappers call. Each may throw. -/
structure Codec where
  sha256 : Option Bytes → Except Error Bytes
  decodeTxRaw : Option Bytes → Except Error DecodedTxRaw
  parseRawLog : Option String → Except Error (List Log)
  fromTendermintEvent : TendermintEvent → Except Error Event
  /-- `Registry.decode`. -/
  decode : EncodeObject → Except Error Value
  /-- `new TextDecoder().decode(…)`. -/
  decodeText : Value → Except Error String
  /-- `JSON.parse`. -/
  parseJson : String → Except Error Value
  /-- The prototypes of the decoded values. -/
  prototypes : Prototypes

/-- The messages whose field `msg` holds JSON text. -/
def jsonMessages : List String :=
  ["/cosmwasm.wasm.v1.MsgExecuteContract", "/cosmwasm.wasm.v1.MsgMigrateContract",
    "/cosmwasm.wasm.v1.MsgInstantiateContract"]

/-- `CosmosClient.decodeMsg`. -/
def decodeMsg (api : Codec) (msg : EncodeObject) : Except Error Value := do
  let decodedMsg ← api.decode msg
  if msg.typeUrl ∈ jsonMessages then
    let encoded ← Value.get api.prototypes decodedMsg "msg"
    let text ← api.decodeText encoded
    let parsed ← api.parseJson text
    return Value.put decodedMsg "msg" parsed
  else
    return decodedMsg

/-! ## Blocks, transactions and messages -/

/-- The block with its hash as text. -/
def wrapBlock (block : BlockResponse) (txs : List TxData) : CosmosBlock where
  blockId := block.blockId
  block := { block.block with id := (toHex block.blockId.hash).toUpper }
  header := block.block.header
  txs := txs

/-- One transaction result with its position, its hash and its lazily decoded content. -/
def wrapTxResult (api : Codec) (block : CosmosBlock) (tx : TxData) (idx : Nat) :
    Except Error CosmosTransaction := do
  let digest ← api.sha256 block.block.txs[idx]?
  return {
    idx := idx
    block := block
    tx := tx
    hash := (toHex digest).toUpper
    decodedTx := api.decodeTxRaw block.block.txs[idx]? }

/-- The transactions of a block. -/
def wrapTx (api : Codec) (block : CosmosBlock) (txResults : List TxData) :
    Except Error (List CosmosTransaction) :=
  txResults.zipIdx.mapM fun (tx, idx) => wrapTxResult api block tx idx

/-- A message of a transaction; throws where the transaction does not decode or has no message at
the position. -/
def wrapCosmosMsg (api : Codec) (block : CosmosBlock) (tx : CosmosTransaction) (idx : Nat) :
    Except Error CosmosMessage := do
  let decodedTx ← tx.decodedTx
  match decodedTx.body.messages[idx]? with
  | none =>
      .error
        { name := "TypeError"
          message := "Cannot read properties of undefined (reading 'typeUrl')" }
  | some rawMessage =>
      return {
        idx := idx
        block := block
        tx := tx
        msg := { typeUrl := rawMessage.typeUrl, decodedMsg := decodeMsg api rawMessage } }

/-- The messages of a transaction. -/
def wrapTxMsgs (api : Codec) (block : CosmosBlock) (tx : CosmosTransaction) :
    Except Error (List CosmosMessage) := do
  let decodedTx ← tx.decodedTx
  (List.range decodedTx.body.messages.length).mapM (wrapCosmosMsg api block tx)

/-- The messages of a block. -/
def wrapMsg (api : Codec) (block : CosmosBlock) (txs : List CosmosTransaction) :
    Except Error (List CosmosMessage) := do
  let msgs ← txs.mapM (wrapTxMsgs api block)
  return msgs.flatten

/-! ## Events -/

/-- The events with consecutive positions from the offset on. -/
def numbered (idxOffset : Nat) (events : List CosmosEvent) : List CosmosEvent :=
  (events.zipIdx idxOffset).map fun (event, idx) => { event with idx := idx }

/-- An event of the block itself. -/
def blockEvent (block : CosmosBlock) (event : Event) : CosmosEvent where
  idx := 0
  block := block
  tx := none
  msg := none
  log := none
  event := event

/-- The events of the block itself, before its transactions or after them. -/
def wrapBlockBeginAndEndEvents (api : Codec) (block : CosmosBlock) (events : List TendermintEvent)
    (idxOffset : Nat) : Except Error (List CosmosEvent) := do
  let decoded ← events.mapM api.fromTendermintEvent
  return numbered idxOffset (decoded.map (blockEvent block))

/-- The events of one log. The message the log names is undefined where it cannot be wrapped. -/
def logEvents (api : Codec) (block : CosmosBlock) (tx : CosmosTransaction) (log : Log) :
    List CosmosEvent :=
  log.events.map fun event =>
    { idx := 0
      block := block
      tx := some tx
      msg := (wrapCosmosMsg api block tx log.msgIndex).toOption
      log := some log
      event := event }

/-- The events of one transaction, none where its raw log cannot be parsed. -/
def txEvents (api : Codec) (block : CosmosBlock) (tx : CosmosTransaction) : List CosmosEvent :=
  match api.parseRawLog tx.tx.log with
  | .error _ => []
  | .ok logs => logs.flatMap (logEvents api block tx)

/-- The events of all transactions. -/
def wrapEvent (api : Codec) (block : CosmosBlock) (txs : List CosmosTransaction)
    (idxOffset : Nat) : List CosmosEvent :=
  numbered idxOffset (txs.flatMap (txEvents api block))

/-! ## Positions -/

@[simp]
theorem length_numbered (idxOffset : Nat) (events : List CosmosEvent) :
    (numbered idxOffset events).length = events.length := by
  simp [numbered]

theorem map_numbered {α : Type} (f : CosmosEvent → α)
    (ignores : ∀ (event : CosmosEvent) (idx : Nat), f { event with idx := idx } = f event)
    (idxOffset : Nat) (events : List CosmosEvent) :
    (numbered idxOffset events).map f = events.map f := by
  rw [numbered, List.map_map, ← List.zipIdx_map_fst idxOffset events, List.map_map,
    List.zipIdx_map_fst]
  exact List.map_congr_left fun pair _ => ignores pair.1 pair.2

theorem idx_numbered (idxOffset : Nat) (events : List CosmosEvent) :
    (numbered idxOffset events).map CosmosEvent.idx = List.range' idxOffset events.length := by
  have positions :
      CosmosEvent.idx ∘ (fun pair : CosmosEvent × Nat => { pair.1 with idx := pair.2 }) =
        Prod.snd := rfl
  rw [numbered, List.map_map]
  exact (congrArg (fun f => (events.zipIdx idxOffset).map f) positions).trans
    (List.zipIdx_map_snd idxOffset events)

/-- Events in a list have consecutive positions. -/
def Consecutive (events : List CosmosEvent) : Prop :=
  ∃ start, events.map CosmosEvent.idx = List.range' start events.length

theorem consecutive_numbered (idxOffset : Nat) (events : List CosmosEvent) :
    Consecutive (numbered idxOffset events) :=
  ⟨idxOffset, by rw [idx_numbered, length_numbered]⟩

theorem wrapBlockBeginAndEndEvents_numbered {api : Codec} {block : CosmosBlock}
    {events : List TendermintEvent} {idxOffset : Nat} {wrapped : List CosmosEvent}
    (outcome : wrapBlockBeginAndEndEvents api block events idxOffset = .ok wrapped) :
    ∃ decoded, wrapped = numbered idxOffset decoded := by
  obtain ⟨decoded, -, same⟩ := bind_eq_ok.mp outcome
  exact ⟨_, (Except.ok.inj same).symm⟩

theorem idx_wrapBlockBeginAndEndEvents {api : Codec} {block : CosmosBlock}
    {events : List TendermintEvent} {idxOffset : Nat} {wrapped : List CosmosEvent}
    (outcome : wrapBlockBeginAndEndEvents api block events idxOffset = .ok wrapped) :
    wrapped.map CosmosEvent.idx = List.range' idxOffset wrapped.length := by
  obtain ⟨decoded, rfl⟩ := wrapBlockBeginAndEndEvents_numbered outcome
  rw [idx_numbered, length_numbered]

theorem exists_of_mem_numbered {idxOffset : Nat} {events : List CosmosEvent} {event : CosmosEvent}
    (member : event ∈ numbered idxOffset events) :
    ∃ original ∈ events, event = { original with idx := event.idx } := by
  obtain ⟨⟨original, idx⟩, found, rfl⟩ := List.mem_map.mp member
  have first : original ∈ (events.zipIdx idxOffset).map Prod.fst := List.mem_map_of_mem found
  rw [List.zipIdx_map_fst] at first
  exact ⟨original, first, rfl⟩

theorem exists_mem_numbered {events : List CosmosEvent} {original : CosmosEvent}
    (member : original ∈ events) (idxOffset : Nat) :
    ∃ idx, { original with idx := idx } ∈ numbered idxOffset events := by
  rw [← List.zipIdx_map_fst idxOffset events] at member
  obtain ⟨⟨_, idx⟩, found, rfl⟩ := List.mem_map.mp member
  exact ⟨idx, List.mem_map_of_mem found⟩

theorem tx_of_mem_blockEvents {api : Codec} {block : CosmosBlock} {events : List TendermintEvent}
    {idxOffset : Nat} {wrapped : List CosmosEvent}
    (outcome : wrapBlockBeginAndEndEvents api block events idxOffset = .ok wrapped)
    {event : CosmosEvent} (member : event ∈ wrapped) : event.tx = none ∧ event.msg = none := by
  obtain ⟨decoded, -, same⟩ := bind_eq_ok.mp outcome
  cases same
  obtain ⟨original, found, same⟩ := exists_of_mem_numbered member
  obtain ⟨raw, -, rfl⟩ := List.mem_map.mp found
  rw [same]
  exact ⟨rfl, rfl⟩

/-! ## The elements of a transaction -/

/-- The hash of a transaction as text. -/
def txHash (api : Codec) (bytes : Option Bytes) : Except Error String := do
  let digest ← api.sha256 bytes
  return (toHex digest).toUpper

/-- The messages of a transaction, none where it does not decode. -/
def txMessages (api : Codec) (block : CosmosBlock) (tx : CosmosTransaction) : List CosmosMessage :=
  (wrapTxMsgs api block tx).toOption.getD []

theorem wrapTxResult_ok {api : Codec} {block : CosmosBlock} {result : TxData} {idx : Nat}
    {tx : CosmosTransaction} (outcome : wrapTxResult api block result idx = .ok tx) :
    tx.idx = idx ∧ tx.tx = result ∧ txHash api block.block.txs[idx]? = .ok tx.hash ∧
      tx.decodedTx = api.decodeTxRaw block.block.txs[idx]? := by
  obtain ⟨digest, hashed, same⟩ := bind_eq_ok.mp outcome
  cases same
  exact ⟨rfl, rfl, bind_eq_ok.mpr ⟨digest, hashed, rfl⟩, rfl⟩

/-- The transactions of a block are those of its results, in order. -/
theorem wrapTx_ok {api : Codec} {block : CosmosBlock} {results : List TxData}
    {txs : List CosmosTransaction} (outcome : wrapTx api block results = .ok txs) :
    txs.map CosmosTransaction.idx = List.range results.length ∧
      ∀ tx ∈ txs, results[tx.idx]? = some tx.tx ∧
        txHash api block.block.txs[tx.idx]? = .ok tx.hash ∧
          tx.decodedTx = api.decodeTxRaw block.block.txs[tx.idx]? := by
  constructor
  · have positions := ((mapM_eq_ok_iff _ _ _).mp outcome).imp fun pair tx wrapped =>
      (wrapTxResult_ok wrapped).1.symm
    have same := List.forall₂_map_right_iff.mpr positions
    rw [← List.forall₂_map_left_iff, List.forall₂_eq_eq_eq] at same
    rw [← same, List.range_eq_range']
    exact List.zipIdx_map_snd 0 results
  · intro tx member
    obtain ⟨⟨result, idx⟩, found, wrapped⟩ := exists_of_mem_mapM outcome member
    obtain ⟨rfl, rfl, hashed, decoded⟩ := wrapTxResult_ok wrapped
    exact ⟨List.mem_zipIdx_iff_getElem?.mp found, hashed, decoded⟩

theorem exists_wrapTx {api : Codec} {block : CosmosBlock} {results : List TxData}
    (hashed : ∀ idx < results.length, ∃ hash, txHash api block.block.txs[idx]? = .ok hash) :
    ∃ txs, wrapTx api block results = .ok txs := by
  refine exists_mapM_ok fun pair member => ?_
  have inside : pair.2 < results.length := by
    have bounds := List.snd_lt_of_mem_zipIdx member
    omega
  obtain ⟨hash, found⟩ := hashed pair.2 inside
  obtain ⟨digest, digested, -⟩ := bind_eq_ok.mp found
  exact ⟨_, bind_eq_ok.mpr ⟨digest, digested, rfl⟩⟩

theorem wrapCosmosMsg_of_lt (api : Codec) (block : CosmosBlock) {tx : CosmosTransaction}
    {raw : DecodedTxRaw} (decoded : tx.decodedTx = .ok raw) {idx : Nat}
    (inside : idx < raw.body.messages.length) :
    ∃ msg, wrapCosmosMsg api block tx idx = .ok msg ∧ msg.idx = idx ∧ msg.tx = tx := by
  simp only [wrapCosmosMsg, decoded, bind, Except.bind, List.getElem?_eq_getElem inside]
  exact ⟨_, rfl, rfl, rfl⟩

theorem wrapCosmosMsg_ok {api : Codec} {block : CosmosBlock} {tx : CosmosTransaction} {idx : Nat}
    {msg : CosmosMessage} (outcome : wrapCosmosMsg api block tx idx = .ok msg) :
    msg.idx = idx ∧ msg.tx = tx ∧
      ∃ raw, tx.decodedTx = .ok raw ∧ idx < raw.body.messages.length := by
  obtain ⟨raw, decoded, rest⟩ := bind_eq_ok.mp outcome
  rcases Nat.lt_or_ge idx raw.body.messages.length with inside | outside
  · obtain ⟨other, wrapped, same⟩ := wrapCosmosMsg_of_lt api block decoded inside
    rw [wrapped] at outcome
    cases outcome
    exact ⟨same.1, same.2, raw, decoded, inside⟩
  · simp only [List.getElem?_eq_none outside] at rest
    cases rest

theorem wrapTxMsgs_of_decoded (api : Codec) (block : CosmosBlock) {tx : CosmosTransaction}
    {raw : DecodedTxRaw} (decoded : tx.decodedTx = .ok raw) :
    ∃ msgs, wrapTxMsgs api block tx = .ok msgs := by
  simp only [wrapTxMsgs, decoded, bind, Except.bind]
  refine exists_mapM_ok fun idx member => ?_
  obtain ⟨msg, wrapped, -⟩ := wrapCosmosMsg_of_lt api block decoded (List.mem_range.mp member)
  exact ⟨msg, wrapped⟩

theorem txMessages_of_decoded (api : Codec) (block : CosmosBlock) {tx : CosmosTransaction}
    {raw : DecodedTxRaw} (decoded : tx.decodedTx = .ok raw) :
    (txMessages api block tx).map CosmosMessage.idx = List.range raw.body.messages.length ∧
      ∀ msg ∈ txMessages api block tx, wrapCosmosMsg api block tx msg.idx = .ok msg := by
  obtain ⟨msgs, wrapped⟩ := wrapTxMsgs_of_decoded api block decoded
  have mapped : (List.range raw.body.messages.length).mapM (wrapCosmosMsg api block tx) =
      .ok msgs := by
    simpa only [wrapTxMsgs, decoded, bind, Except.bind] using wrapped
  rw [txMessages, wrapped]
  constructor
  · have positions := ((mapM_eq_ok_iff _ _ _).mp mapped).imp fun idx msg outcome =>
      (wrapCosmosMsg_ok outcome).1.symm
    have same := List.forall₂_map_right_iff.mpr positions
    rw [List.forall₂_eq_eq_eq] at same
    exact same.symm
  · intro msg member
    obtain ⟨idx, -, outcome⟩ := exists_of_mem_mapM mapped member
    have same := (wrapCosmosMsg_ok outcome).1
    rwa [same]

theorem mem_txMessages_of_wrapped {api : Codec} {block : CosmosBlock} {tx : CosmosTransaction}
    {idx : Nat} {msg : CosmosMessage} (wrapped : wrapCosmosMsg api block tx idx = .ok msg) :
    msg ∈ txMessages api block tx := by
  obtain ⟨-, -, raw, decoded, inside⟩ := wrapCosmosMsg_ok wrapped
  have ⟨positions, contents⟩ := txMessages_of_decoded api block decoded
  have found : idx ∈ (txMessages api block tx).map CosmosMessage.idx := by
    rw [positions]
    exact List.mem_range.mpr inside
  obtain ⟨other, member, rfl⟩ := List.mem_map.mp found
  rwa [Except.ok.inj (wrapped.symm.trans (contents other member))]

theorem tx_of_mem_txMessages {api : Codec} {block : CosmosBlock} {tx : CosmosTransaction}
    {msg : CosmosMessage} (member : msg ∈ txMessages api block tx) : msg.tx = tx := by
  unfold txMessages at member
  cases wrapped : wrapTxMsgs api block tx with
  | error error =>
      rw [wrapped] at member
      exact absurd member List.not_mem_nil
  | ok msgs =>
      rw [wrapped] at member
      obtain ⟨raw, decoded, mapped⟩ := bind_eq_ok.mp wrapped
      obtain ⟨idx, -, outcome⟩ := exists_of_mem_mapM mapped member
      exact (wrapCosmosMsg_ok outcome).2.1

/-- The messages of a block, when all its transactions decode, are those of its transactions. -/
theorem wrapMsg_eq_ok_iff {api : Codec} {block : CosmosBlock} {txs : List CosmosTransaction}
    {msgs : List CosmosMessage} :
    wrapMsg api block txs = .ok msgs ↔
      (∀ tx ∈ txs, ∃ raw, tx.decodedTx = .ok raw) ∧ msgs = txs.flatMap (txMessages api block) := by
  have flattened {parts : List (List CosmosMessage)}
      (mapped : txs.mapM (wrapTxMsgs api block) = .ok parts) :
      parts.flatten = txs.flatMap (txMessages api block) := by
    have same := ((mapM_eq_ok_iff _ _ _).mp mapped).imp fun tx part outcome =>
      (by rw [txMessages, outcome]; rfl : txMessages api block tx = part)
    rw [← List.forall₂_map_left_iff, List.forall₂_eq_eq_eq] at same
    rw [List.flatMap_def, same]
  constructor
  · intro wrapped
    obtain ⟨parts, mapped, same⟩ := bind_eq_ok.mp wrapped
    refine ⟨fun tx member => ?_, (Except.ok.inj same).symm.trans (flattened mapped)⟩
    obtain ⟨part, outcome⟩ := succeeds_of_mapM mapped tx member
    obtain ⟨raw, decoded, -⟩ := bind_eq_ok.mp outcome
    exact ⟨raw, decoded⟩
  · rintro ⟨decodes, rfl⟩
    obtain ⟨parts, mapped⟩ := exists_mapM_ok fun tx member =>
      wrapTxMsgs_of_decoded api block (decodes tx member).choose_spec
    exact bind_eq_ok.mpr ⟨parts, mapped, by rw [flattened mapped]; rfl⟩

theorem idx_wrapEvent (api : Codec) (block : CosmosBlock) (txs : List CosmosTransaction)
    (idxOffset : Nat) :
    (wrapEvent api block txs idxOffset).map CosmosEvent.idx =
      List.range' idxOffset (wrapEvent api block txs idxOffset).length := by
  rw [wrapEvent, idx_numbered, length_numbered]

/-- An event of the transactions comes from a log of one of them, and its message is the one the log
names. -/
theorem exists_log {api : Codec} {block : CosmosBlock} {txs : List CosmosTransaction}
    {idxOffset : Nat} {event : CosmosEvent} (member : event ∈ wrapEvent api block txs idxOffset) :
    ∃ tx ∈ txs, event.tx = some tx ∧
      ∃ logs, api.parseRawLog tx.tx.log = .ok logs ∧
        ∃ log ∈ logs, event.event ∈ log.events ∧ event.log = some log ∧
          event.msg = (wrapCosmosMsg api block tx log.msgIndex).toOption := by
  obtain ⟨original, found, same⟩ := exists_of_mem_numbered member
  obtain ⟨tx, inside, wrapped⟩ := List.mem_flatMap.mp found
  unfold txEvents at wrapped
  cases parsed : api.parseRawLog tx.tx.log with
  | error error =>
      rw [parsed] at wrapped
      exact absurd wrapped List.not_mem_nil
  | ok logs =>
      rw [parsed] at wrapped
      obtain ⟨log, logged, made⟩ := List.mem_flatMap.mp wrapped
      obtain ⟨raw, listed, rfl⟩ := List.mem_map.mp made
      rw [same]
      exact ⟨tx, inside, rfl, logs, parsed, log, logged, listed, rfl, rfl⟩

theorem exists_event (api : Codec) (block : CosmosBlock) {txs : List CosmosTransaction}
    {tx : CosmosTransaction} (member : tx ∈ txs) {logs : List Log}
    (parsed : api.parseRawLog tx.tx.log = .ok logs) {log : Log} (logged : log ∈ logs)
    {event : Event} (listed : event ∈ log.events) (idxOffset : Nat) :
    ∃ wrapped ∈ wrapEvent api block txs idxOffset, wrapped.tx = some tx ∧
      wrapped.msg = (wrapCosmosMsg api block tx log.msgIndex).toOption := by
  obtain ⟨original, made, belongs, named⟩ : ∃ original ∈ txEvents api block tx,
      original.tx = some tx ∧
        original.msg = (wrapCosmosMsg api block tx log.msgIndex).toOption := by
    rw [txEvents, parsed]
    exact ⟨_, List.mem_flatMap.mpr ⟨log, logged, List.mem_map_of_mem listed⟩, rfl, rfl⟩
  obtain ⟨idx, found⟩ :=
    exists_mem_numbered (List.mem_flatMap.mpr ⟨tx, member, made⟩) idxOffset
  exact ⟨_, found, belongs, named⟩

end SubqlCosmos
