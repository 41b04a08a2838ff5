import SubqlCosmos.Js.Json
import SubqlCosmos.Js.Record

/-!
# Blocks, filters and datasources

The data the indexer reads from the chain (`types/src/interfaces.ts` and the Tendermint responses),
and the filters, handlers and datasources of a project manifest (`types/src/project.ts`). Fields no
modelled function reads are left out.
-/

namespace SubqlCosmos

open Js

/-! ## Chain data -/

/-- Raw bytes. -/
abbrev Bytes := List UInt8

/-- An event attribute. -/
structure Attribute where
  key : String
  value : String
deriving DecidableEq, Repr

/-- An event in cosmjs form. -/
structure Event where
  type : String
  attributes : List Attribute
deriving DecidableEq, Repr

/-- An event as Tendermint returns it, its attributes still encoded. -/
structure TendermintEvent where
  type : String
  attributes : List (Bytes × Bytes)
deriving DecidableEq, Repr

/-- One entry of a transaction's raw log. -/
structure Log where
  msgIndex : Nat
  log : String
  events : List Event
deriving DecidableEq, Repr

/-- The result of a transaction. -/
structure TxData where
  /-- `0` for success. -/
  code : Nat
  /-- The raw log text. -/
  log : Option String
  events : List TendermintEvent
deriving DecidableEq, Repr

/-- A block header; the time is in milliseconds. -/
structure Header where
  height : Nat
  time : Int
deriving DecidableEq, Repr

/-- The identifier of a block. -/
structure BlockId where
  hash : Bytes
deriving DecidableEq, Repr

/-- A block as Tendermint returns it. -/
structure Block where
  header : Header
  txs : List Bytes
deriving DecidableEq, Repr

/-- `BlockResponse`. -/
structure BlockResponse where
  blockId : BlockId
  block : Block
deriving DecidableEq, Repr

/-- `BlockResultsResponse`. -/
structure BlockResultsResponse where
  results : List TxData
  beginBlockEvents : List TendermintEvent
  endBlockEvents : List TendermintEvent
deriving DecidableEq, Repr

/-- A block with its hash as text. -/
structure IdentifiedBlock extends Block where
  id : String
deriving DecidableEq, Repr

/-- `CosmosBlock`. -/
structure CosmosBlock where
  blockId : BlockId
  block : IdentifiedBlock
  header : Header
  txs : List TxData
deriving DecidableEq, Repr

/-- A message of a decoded transaction, itself still encoded. -/
structure EncodeObject where
  typeUrl : String
  value : Bytes
deriving DecidableEq, Repr

/-- The body of a decoded transaction. -/
structure TxBody where
  messages : List EncodeObject
deriving DecidableEq, Repr

/-- `DecodedTxRaw`. -/
structure DecodedTxRaw where
  body : TxBody
deriving DecidableEq, Repr

/-- `CosmosTransaction`. The property `decodedTx` is decoded when it is read; it is kept here as the
outcome of that decoding. Where decoding throws the property is gone, and later reads of its body
throw another error. -/
structure CosmosTransaction where
  idx : Nat
  block : CosmosBlock
  tx : TxData
  hash : String
  decodedTx : Except Error DecodedTxRaw

/-- The message proper; `decodedMsg` is the outcome of decoding it when it is read. -/
structure MessageData where
  typeUrl : String
  decodedMsg : Except Error Value

/-- `CosmosMessage`. -/
structure CosmosMessage where
  idx : Nat
  block : CosmosBlock
  tx : CosmosTransaction
  msg : MessageData

/-- `CosmosEvent`. Transaction, message and log are null for the events of the block itself; the
message is undefined for an event of a transaction whose log names no message of it. -/
structure CosmosEvent where
  idx : Nat
  block : CosmosBlock
  tx : Option CosmosTransaction
  msg : Option CosmosMessage
  log : Option Log
  event : Event

/-- `BlockContent`. -/
structure BlockContent where
  block : CosmosBlock
  transactions : List CosmosTransaction
  messages : List CosmosMessage
  events : List CosmosEvent
  beginBlockEvents : List CosmosEvent
  endBlockEvents : List CosmosEvent

/-! ## Filters -/

/-- An increasing, never ending sequence of tick times, in milliseconds. -/
structure CronSchedule where
  tick : Nat → Int
  increasing : StrictMono tick

/-- `CosmosBlockFilter`, with the schedule node-core attaches to a filter that has a timestamp. -/
structure CosmosBlockFilter where
  modulo : Option ℚ := none
  timestamp : Option String := none
  cronSchedule : Option CronSchedule := none

/-- `CosmosTxFilter`. -/
structure CosmosTxFilter where
  includeFailedTx : Option Bool := none
deriving DecidableEq, Repr

/-- `CosmosMessageFilter`. The types require `type`; the query builder still checks for it. -/
structure CosmosMessageFilter extends CosmosTxFilter where
  type : Option String
  contractCall : Option String := none
  values : Option (Record Scalar) := none

/-- `CosmosEventFilter`. -/
structure CosmosEventFilter where
  type : Option String
  messageFilter : Option CosmosMessageFilter := none
  attributes : Option (Record Scalar) := none

/-! ## Handlers and datasources -/

/-- `CosmosHandlerKind`. -/
inductive CosmosHandlerKind
  | block
  | transaction
  | message
  | event
deriving DecidableEq, Repr

/-- The text of a handler kind in a manifest. -/
def CosmosHandlerKind.text : CosmosHandlerKind → String
  | .block => "cosmos/BlockHandler"
  | .transaction => "cosmos/TransactionHandler"
  | .message => "cosmos/MessageHandler"
  | .event => "cosmos/EventHandler"

/-- `CosmosRuntimeHandler`. -/
inductive CosmosRuntimeHandler
  | block (filter : Option CosmosBlockFilter)
  | transaction (filter : Option CosmosTxFilter)
  | message (filter : Option CosmosMessageFilter)
  | event (filter : Option CosmosEventFilter)

/-- `CosmosCustomHandler`: its filter is whatever its processor understands. -/
structure CosmosCustomHandler where
  kind : String
  filter : Option Value

/-- One filter or a list of filters, where a filter may be absent. -/
inductive OneOrMany (α : Type)
  | one (filter : Option α)
  | many (filters : List (Option α))

/-- The base handler kind of a processor together with its base filters. -/
inductive BaseFilter
  | block (filter : OneOrMany CosmosBlockFilter)
  | transaction (filter : OneOrMany CosmosTxFilter)
  | message (filter : OneOrMany CosmosMessageFilter)
  | event (filter : OneOrMany CosmosEventFilter)

/-- `CosmosRuntimeDatasource`. -/
structure CosmosRuntimeDatasource where
  handlers : List CosmosRuntimeHandler

/-- `CosmosCustomDatasource`, its processor named by the file it is loaded from. -/
structure CosmosCustomDatasource where
  kind : String
  processor : String
  handlers : List CosmosCustomHandler

/-- `CosmosDatasource`. -/
inductive CosmosDatasource
  | runtime (datasource : CosmosRuntimeDatasource)
  | custom (datasource : CosmosCustomDatasource)

end SubqlCosmos
