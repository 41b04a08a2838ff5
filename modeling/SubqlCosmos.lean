import SubqlCosmos.Js.Json
import SubqlCosmos.Js.Lodash
import SubqlCosmos.Js.SetWith
import SubqlCosmos.Js.Record
import SubqlCosmos.Types
import SubqlCosmos.Filters
import SubqlCosmos.FilterLaws
import SubqlCosmos.MessagePaths
import SubqlCosmos.Dictionary
import SubqlCosmos.DictionaryCover
import SubqlCosmos.Js.Writes
import SubqlCosmos.DictionaryData
import SubqlCosmos.Js.Graft
import SubqlCosmos.DictionaryContainment
import SubqlCosmos.LazyBlockContent
import SubqlCosmos.Feed.Broadcast
import SubqlCosmos.Feed.Emits
import SubqlCosmos.Dispatch
import SubqlCosmos.DispatchOnce
import SubqlCosmos.DispatchAll
import SubqlCosmos.DispatchOrder
import SubqlCosmos.Alignment
import SubqlCosmos.Codegen
import SubqlCosmos.CustomHandlers
import SubqlCosmos.DictionaryOrder
import SubqlCosmos.EventAttributes
import SubqlCosmos.HttpClient
import SubqlCosmos.Js.Camel
import SubqlCosmos.LazyDecoding
import SubqlCosmos.ProtoNames
import SubqlCosmos.ChainRegistry
import SubqlCosmos.CosmwasmAssets
import SubqlCosmos.CosmwasmCodegen
import SubqlCosmos.ProtoGeneration
import SubqlCosmos.Js.JsonText
import SubqlCosmos.RpcErrors
import SubqlCosmos.WebsocketClient
import SubqlCosmos.DictionaryCustom
import SubqlCosmos.DictionaryKeys
import SubqlCosmos.ContractMessages
import SubqlCosmos.UnfinalizedBlocks
import SubqlCosmos.Feed.Pool
import SubqlCosmos.Sandbox
import SubqlCosmos.Js.Heap
import SubqlCosmos.DynamicDatasources
import SubqlCosmos.ChainDecoding
