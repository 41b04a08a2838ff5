import SubqlCosmos.Feed.Emits
import SubqlCosmos.LazyBlockContent

/-!
# Dispatch of block contents

The methods `indexBlockData`, `indexBlockContent`, `indexTransaction`, `indexMessage` and
`indexEvent` of `indexer.manager.ts`, which hand the elements of a block content to the datasources,
and the list of items such a run hands out.
-/

namespace SubqlCosmos

open Js Feed

/-! ## Accepted blocks -/

/-- `fetchBlocksBatches`, from the blocks fetched on: a block is accepted when it has one result for
every transaction. -/
def fetchBlocksBatches (api : Codec) (blocks : List (BlockResponse × BlockResultsResponse)) :
    Except Error (List BlockSource) :=
  blocks.mapM fun (blockInfo, blockResults) =>
    if blockResults.results.length = blockInfo.block.txs.length then
      .ok { blockInfo := blockInfo, results := blockResults, api := api }
    else
      .error
        { name := "AssertionError"
          message :=
            "txInfos doesn't match up with block (" ++ toString blockInfo.block.header.height ++
              ") transactions expected " ++ toString blockInfo.block.txs.length ++
                ", received: " ++ toString blockResults.results.length }

/-! ## The run of the indexer -/

/-- What `indexData` is handed; the constructor is the handler kind. -/
inductive Item
  | block (block : CosmosBlock)
  | transaction (tx : CosmosTransaction)
  | message (message : CosmosMessage)
  | event (event : CosmosEvent)

/-- What the handlers of a datasource do in one call of `indexData`: they may append datasources to
the array that is being iterated over, and they may throw. -/
abbrev Handling := Reply CosmosDatasource Error

/-- The block content, the array of datasources, the conduct of the handlers in the calls to come,
and the calls made. -/
abbrev IndexRun := Run LazyBlockContent Item CosmosDatasource Error

/-- A step of the indexer. -/
abbrev Indexing (α : Type) := EStateM Error IndexRun α

/-- The start of a run. -/
def startRun (dataSources : List CosmosDatasource) (handlings : List Handling) : IndexRun where
  context := {}
  feed := { receivers := dataSources, replies := handlings }

/-- `indexData` for the datasource at a position of the array. -/
def indexData (data : Item) (dataSource : Nat) : Indexing Unit :=
  send data dataSource

/-- `indexTransaction`. -/
def indexTransaction (tx : CosmosTransaction) : Indexing Unit :=
  forReceivers (indexData (.transaction tx))

/-- `indexMessage`. -/
def indexMessage (message : CosmosMessage) : Indexing Unit :=
  forReceivers (indexData (.message message))

/-- `indexEvent`. -/
def indexEvent (event : CosmosEvent) : Indexing Unit :=
  forReceivers (indexData (.event event))

/-- `blockContent.messages.filter(…)`, as the indexer selects the messages of a transaction. -/
def selectMessages (messages : List CosmosMessage) (tx : CosmosTransaction) : List CosmosMessage :=
  messages.filter fun msg => msg.tx.hash = tx.hash

/-- `blockContent.events.filter(…)`, as the indexer selects the events of a message. Events of the
block itself, which have no transaction, are not in the list it selects from. -/
def selectEvents (events : List CosmosEvent) (tx : CosmosTransaction) (msg : CosmosMessage) :
    List CosmosEvent :=
  events.filter fun event =>
    event.tx.map CosmosTransaction.hash = some tx.hash ∧
      event.msg.map CosmosMessage.idx = some msg.idx

variable (source : BlockSource)

/-- `indexBlockContent`. -/
def indexBlockContent : Indexing Unit :=
  forReceivers fun dataSource => do
    let block ← onContext fun content => .ok (content.block source).1 (content.block source).2
    indexData (.block block) dataSource

/-- The loop body of `indexBlockData` for a message. -/
def indexMessageData (tx : CosmosTransaction) (msg : CosmosMessage) : Indexing Unit := do
  indexMessage msg
  let events ← onContext (LazyBlockContent.events source)
  (selectEvents events tx msg).forM indexEvent

/-- The loop body of `indexBlockData` for a transaction. -/
def indexTransactionData (tx : CosmosTransaction) : Indexing Unit := do
  indexTransaction tx
  let messages ← onContext (LazyBlockContent.messages source)
  (selectMessages messages tx).forM (indexMessageData source tx)

/-- `indexBlockData`. -/
def indexBlockData : Indexing Unit := do
  indexBlockContent source
  let beginBlockEvents ← onContext (LazyBlockContent.beginBlockEvents source)
  beginBlockEvents.forM indexEvent
  let transactions ← onContext (LazyBlockContent.transactions source)
  transactions.forM (indexTransactionData source)
  let endBlockEvents ← onContext (LazyBlockContent.endBlockEvents source)
  endBlockEvents.forM indexEvent

/-! ## The items of a run -/

/-- The items a run hands out and the error it ends with when no handler throws. -/
structure Plan where
  items : List Item
  ending : Option Error

/-- The block with its hash. -/
def BlockSource.block : CosmosBlock :=
  wrapBlock source.blockInfo source.results.results

/-- The items of a message. -/
def messageItems (events : List CosmosEvent) (tx : CosmosTransaction) (msg : CosmosMessage) :
    List Item :=
  .message msg :: (selectEvents events tx msg).map .event

/-- The items of a transaction. -/
def transactionItems (messages : List CosmosMessage) (events : List CosmosEvent)
    (tx : CosmosTransaction) : List Item :=
  .transaction tx :: (selectMessages messages tx).flatMap (messageItems events tx)

/-- The messages the run goes through. -/
def selectedMessages (messages : List CosmosMessage) (transactions : List CosmosTransaction) :
    List CosmosMessage :=
  transactions.flatMap (selectMessages messages)

/-- The number of the first event after the transactions: the events of the transactions are
numbered only when a message asks for them. -/
def endIdx (begins : List CosmosEvent) (transactions : List CosmosTransaction)
    (messages : List CosmosMessage) (events : List CosmosEvent) : Nat :=
  begins.length + if selectedMessages messages transactions = [] then 0 else events.length

/-- The items of the block and of its first events. -/
def openingItems (begins : List CosmosEvent) : List Item :=
  .block source.block :: begins.map .event

/-- The items come first. -/
def Plan.after (plan : Plan) (items : List Item) : Plan :=
  { plan with items := items ++ plan.items }

/-- What a run hands out after the transactions. -/
def planEnd (begins : List CosmosEvent) (transactions : List CosmosTransaction)
    (messages : List CosmosMessage) (events : List CosmosEvent) : Plan :=
  match wrapBlockBeginAndEndEvents source.api source.block source.results.endBlockEvents
    (endIdx begins transactions messages events) with
  | .error error => ⟨[], some error⟩
  | .ok ends => ⟨ends.map .event, none⟩

/-- What a run hands out after the first events. -/
def planTransactions (begins : List CosmosEvent) : Plan :=
  match wrapTx source.api source.block source.results.results with
  | .error error => ⟨[], some error⟩
  | .ok transactions =>
      match wrapMsg source.api source.block transactions with
      | .error error => ⟨(transactions.take 1).map .transaction, some error⟩
      | .ok messages =>
          let events := wrapEvent source.api source.block transactions begins.length
          (planEnd source begins transactions messages events).after
            (transactions.flatMap (transactionItems messages events))

/-- What a run hands out. -/
def plan : Plan :=
  match wrapBlockBeginAndEndEvents source.api source.block source.results.beginBlockEvents 0 with
  | .error error => ⟨[.block source.block], some error⟩
  | .ok begins => (planTransactions source begins).after (openingItems source begins)

/-! ## The contents along a run -/

/-- The content once the first events are read. -/
def afterBegin (begins : List CosmosEvent) : LazyBlockContent where
  wrappedBlock := some source.block
  wrappedBeginBlockEvents := some begins
  eventIdx := begins.length

/-- The content once the transactions are read. -/
def afterTransactions (begins : List CosmosEvent) (transactions : List CosmosTransaction) :
    LazyBlockContent :=
  { afterBegin source begins with wrappedTransaction := some transactions }

/-- The content once the messages are read. -/
def afterMessages (begins : List CosmosEvent) (transactions : List CosmosTransaction)
    (messages : List CosmosMessage) : LazyBlockContent :=
  { afterTransactions source begins transactions with wrappedMessage := some messages }

/-- The content once the events of the transactions are read. -/
def afterEvents (begins : List CosmosEvent) (transactions : List CosmosTransaction)
    (messages : List CosmosMessage) : LazyBlockContent :=
  (afterMessages source begins transactions messages).addEvents
    (wrapEvent source.api source.block transactions begins.length) .events

section Stages

variable {source} {begins : List CosmosEvent} {transactions : List CosmosTransaction}
  {messages : List CosmosMessage}

/-- The content when the messages have been read and some of them gone through: the events are read
with the first message. -/
def MessageStage (source : BlockSource) (begins : List CosmosEvent)
    (transactions : List CosmosTransaction) (messages gone : List CosmosMessage)
    (content : LazyBlockContent) : Prop :=
  (gone = [] ∧ content = afterMessages source begins transactions messages) ∨
    (gone ≠ [] ∧ content = afterEvents source begins transactions messages)

/-- The content between two transactions: before the first one the messages may be unread. -/
def TransactionStage (source : BlockSource) (begins : List CosmosEvent)
    (transactions : List CosmosTransaction) (messages gone : List CosmosMessage)
    (content : LazyBlockContent) : Prop :=
  (gone = [] ∧ content = afterTransactions source begins transactions) ∨
    MessageStage source begins transactions messages gone content

theorem block_initial {content : LazyBlockContent}
    (early : content = {} ∨ content = { wrappedBlock := some source.block }) :
    (content.block source).1 = source.block ∧
      (content.block source).2 = { wrappedBlock := some source.block } := by
  rcases early with rfl | rfl <;> exact ⟨rfl, rfl⟩

theorem indexBlockContent_emits :
    Emits (fun content => content = {} ∨ content = { wrappedBlock := some source.block })
      (indexBlockContent source) [.block source.block] none
      (fun content => content = {} ∨ content = { wrappedBlock := some source.block }) := by
  refine Emits.forReceivers fun dataSource run early => ?_
  have ⟨value, left⟩ := block_initial early
  refine ⟨{ wrappedBlock := some source.block }, ?_, Or.inr rfl⟩
  simp only [bind, EStateM.bind, onContext, value, left, indexData, send]

theorem beginBlockEvents_initial {content : LazyBlockContent}
    (early : content = {} ∨ content = { wrappedBlock := some source.block }) :
    content.beginBlockEvents source =
      match wrapBlockBeginAndEndEvents source.api source.block
        source.results.beginBlockEvents 0 with
      | .error error => .error error { wrappedBlock := some source.block }
      | .ok begins => .ok begins (afterBegin source begins) := by
  have ⟨value, left⟩ := block_initial early
  rcases early with rfl | rfl <;>
    simp only [LazyBlockContent.beginBlockEvents, value, left] <;>
    cases wrapBlockBeginAndEndEvents source.api source.block source.results.beginBlockEvents 0 <;>
      simp [afterBegin]

theorem transactions_afterBegin :
    (afterBegin source begins).transactions source =
      match wrapTx source.api source.block source.results.results with
      | .error error => .error error (afterBegin source begins)
      | .ok transactions => .ok transactions (afterTransactions source begins transactions) :=
  rfl

theorem messages_afterTransactions :
    (afterTransactions source begins transactions).messages source =
      match wrapMsg source.api source.block transactions with
      | .error error => .error error (afterTransactions source begins transactions)
      | .ok messages => .ok messages (afterMessages source begins transactions messages) :=
  rfl

theorem messages_stage {gone : List CosmosMessage} {content : LazyBlockContent}
    (wrapped : wrapMsg source.api source.block transactions = .ok messages)
    (stage : TransactionStage source begins transactions messages gone content) :
    ∃ left, content.messages source = .ok messages left ∧
      MessageStage source begins transactions messages gone left := by
  rcases stage with ⟨empty, rfl⟩ | ⟨empty, rfl⟩ | ⟨filled, rfl⟩
  · refine ⟨_, ?_, Or.inl ⟨empty, rfl⟩⟩
    rw [messages_afterTransactions, wrapped]
  · exact ⟨_, rfl, Or.inl ⟨empty, rfl⟩⟩
  · exact ⟨_, rfl, Or.inr ⟨filled, rfl⟩⟩

theorem events_stage {gone : List CosmosMessage} {content : LazyBlockContent}
    (stage : MessageStage source begins transactions messages gone content) :
    content.events source =
      .ok (wrapEvent source.api source.block transactions begins.length)
        (afterEvents source begins transactions messages) := by
  rcases stage with ⟨-, rfl⟩ | ⟨-, rfl⟩ <;> rfl

theorem eventIdx_stage {gone : List CosmosMessage} {content : LazyBlockContent}
    (stage : TransactionStage source begins transactions messages gone content) :
    content.eventIdx =
      begins.length +
        if gone = [] then 0
        else (wrapEvent source.api source.block transactions begins.length).length := by
  rcases stage with ⟨empty, rfl⟩ | ⟨empty, rfl⟩ | ⟨filled, rfl⟩
  · rw [if_pos empty]; rfl
  · rw [if_pos empty]; rfl
  · rw [if_neg filled]; rfl

theorem block_stage {gone : List CosmosMessage} {content : LazyBlockContent}
    (stage : TransactionStage source begins transactions messages gone content) :
    content.wrappedBlock = some source.block ∧ content.wrappedEndBlockEvents = none := by
  rcases stage with ⟨-, rfl⟩ | ⟨-, rfl⟩ | ⟨-, rfl⟩ <;> exact ⟨rfl, rfl⟩

theorem endBlockEvents_stage {gone : List CosmosMessage} {content : LazyBlockContent}
    (stage : TransactionStage source begins transactions messages gone content) :
    content.endBlockEvents source =
      match wrapBlockBeginAndEndEvents source.api source.block source.results.endBlockEvents
        (begins.length +
          if gone = [] then 0
          else (wrapEvent source.api source.block transactions begins.length).length) with
      | .error error => .error error content
      | .ok ends => .ok ends (content.addEvents ends .endBlockEvents) := by
  have ⟨held, empty⟩ := block_stage stage
  cases wrapped : wrapBlockBeginAndEndEvents source.api source.block source.results.endBlockEvents
      (begins.length +
        if gone = [] then 0
        else (wrapEvent source.api source.block transactions begins.length).length) with
  | error error =>
      simp only [LazyBlockContent.endBlockEvents, LazyBlockContent.block, held, empty,
        eventIdx_stage stage, wrapped]
  | ok ends =>
      simp only [LazyBlockContent.endBlockEvents, LazyBlockContent.block, held, empty,
        LazyBlockContent.addEvents, eventIdx_stage stage, wrapped]

/-! ## What each part of a run emits -/

theorem forM_indexEvent_emits (holds : LazyBlockContent → Prop) (events : List CosmosEvent) :
    Emits holds (events.forM indexEvent) (events.map Item.event) none holds := by
  rw [← List.flatMap_singleton' (events.map Item.event), List.flatMap_map]
  exact Emits.forM (fun _ => holds) events fun _ event _ => Emits.broadcast (Item.event event)

theorem indexMessageData_emits (tx : CosmosTransaction) (gone : List CosmosMessage)
    (msg : CosmosMessage) :
    Emits (MessageStage source begins transactions messages gone) (indexMessageData source tx msg)
      (messageItems (wrapEvent source.api source.block transactions begins.length) tx msg) none
      (MessageStage source begins transactions messages (gone ++ [msg])) := by
  refine (Emits.broadcast (Item.message msg)).seq
    (Emits.read (fun content stage => ?_)
      (forM_indexEvent_emits _ (selectEvents _ tx msg)))
  exact ⟨_, events_stage stage, Or.inr ⟨by simp, rfl⟩⟩

theorem indexTransactionData_emits
    (wrapped : wrapMsg source.api source.block transactions = .ok messages)
    (gone : List CosmosMessage) (tx : CosmosTransaction) :
    Emits (TransactionStage source begins transactions messages gone)
      (indexTransactionData source tx)
      (transactionItems messages (wrapEvent source.api source.block transactions begins.length) tx)
      none
      (TransactionStage source begins transactions messages
        (gone ++ selectMessages messages tx)) := by
  refine (Emits.broadcast (Item.transaction tx)).seq (Emits.read
    (fun content => messages_stage wrapped) ?_)
  have loop := Emits.forM
    (fun visited => MessageStage source begins transactions messages (gone ++ visited))
    (selectMessages messages tx) fun visited msg _ => by
      rw [← List.append_assoc]
      exact indexMessageData_emits tx (gone ++ visited) msg
  rw [List.append_nil] at loop
  exact loop.weaken (fun _ => id) fun _ => Or.inr

/-- The transactions loop when every transaction decodes. -/
theorem transactions_emits
    (wrapped : wrapMsg source.api source.block transactions = .ok messages) :
    Emits (fun content => content = afterTransactions source begins transactions)
      (transactions.forM (indexTransactionData source))
      (transactions.flatMap (transactionItems messages
        (wrapEvent source.api source.block transactions begins.length)))
      none
      (TransactionStage source begins transactions messages
        (selectedMessages messages transactions)) := by
  have loop := Emits.forM
    (fun visited => TransactionStage source begins transactions messages
      (selectedMessages messages visited))
    transactions fun visited tx _ => by
      rw [selectedMessages, selectedMessages, List.flatMap_append, List.flatMap_singleton]
      exact indexTransactionData_emits wrapped _ tx
  exact loop.weaken (fun _ start => Or.inl ⟨rfl, start⟩) fun _ => id

/-- The transactions loop when some transaction does not decode: it ends in its first round. -/
theorem transactions_emits_error {error : Error}
    (failed : wrapMsg source.api source.block transactions = .error error)
    (after : LazyBlockContent → Prop) :
    Emits (fun content => content = afterTransactions source begins transactions)
      (transactions.forM (indexTransactionData source))
      ((transactions.take 1).map .transaction) (some error) after := by
  cases transactions with
  | nil => cases failed
  | cons tx rest =>
      have first : Emits
          (fun content => content = afterTransactions source begins (tx :: rest))
          (indexTransactionData source tx) [.transaction tx] (some error) after :=
        (Emits.broadcast (Item.transaction tx)).seq (Emits.readError _ fun content start => by
          rw [start, messages_afterTransactions, failed]
          exact ⟨_, rfl⟩)
      exact first.stop _

/-- Everything of the block decodes, to these elements. -/
structure Decoded (source : BlockSource) (begins : List CosmosEvent)
    (transactions : List CosmosTransaction) (messages : List CosmosMessage)
    (ends : List CosmosEvent) : Prop where
  wrapBegin :
    wrapBlockBeginAndEndEvents source.api source.block source.results.beginBlockEvents 0 =
      .ok begins
  wrapTx : wrapTx source.api source.block source.results.results = .ok transactions
  wrapMsg : wrapMsg source.api source.block transactions = .ok messages
  wrapEnd :
    wrapBlockBeginAndEndEvents source.api source.block source.results.endBlockEvents
      (endIdx begins transactions messages
        (wrapEvent source.api source.block transactions begins.length)) = .ok ends

/-- The content at the end of a run. -/
def Finished (source : BlockSource) (content : LazyBlockContent) : Prop :=
  ∃ begins transactions messages ends stage,
    Decoded source begins transactions messages ends ∧
      TransactionStage source begins transactions messages
        (selectedMessages messages transactions) stage ∧
        content = stage.addEvents ends .endBlockEvents

theorem end_emits
    (began : wrapBlockBeginAndEndEvents source.api source.block source.results.beginBlockEvents 0 =
      .ok begins)
    (hashed : wrapTx source.api source.block source.results.results = .ok transactions)
    (wrapped : wrapMsg source.api source.block transactions = .ok messages) :
    Emits
      (TransactionStage source begins transactions messages
        (selectedMessages messages transactions))
      (do
        let endBlockEvents ← onContext (LazyBlockContent.endBlockEvents source)
        endBlockEvents.forM indexEvent)
      (planEnd source begins transactions messages
        (wrapEvent source.api source.block transactions begins.length)).items
      (planEnd source begins transactions messages
        (wrapEvent source.api source.block transactions begins.length)).ending
      (Finished source) := by
  unfold planEnd
  cases ended : wrapBlockBeginAndEndEvents source.api source.block source.results.endBlockEvents
      (endIdx begins transactions messages
        (wrapEvent source.api source.block transactions begins.length)) with
  | error error =>
      refine Emits.readError _ fun content stage => ?_
      rw [endIdx] at ended
      rw [endBlockEvents_stage stage, ended]
      exact ⟨content, rfl⟩
  | ok ends =>
      refine Emits.read (fun content stage => ?_) (forM_indexEvent_emits _ ends)
      have decoded : Decoded source begins transactions messages ends :=
        ⟨began, hashed, wrapped, ended⟩
      rw [endIdx] at ended
      rw [endBlockEvents_stage stage, ended]
      exact ⟨_, rfl, begins, transactions, messages, ends, content, decoded, stage, rfl⟩

theorem indexTransactions_emits
    (began : wrapBlockBeginAndEndEvents source.api source.block source.results.beginBlockEvents 0 =
      .ok begins) :
    Emits (fun content => content = afterBegin source begins)
      (do
        let transactions ← onContext (LazyBlockContent.transactions source)
        transactions.forM (indexTransactionData source)
        let endBlockEvents ← onContext (LazyBlockContent.endBlockEvents source)
        endBlockEvents.forM indexEvent)
      (planTransactions source begins).items (planTransactions source begins).ending
      (Finished source) := by
  unfold planTransactions
  cases hashed : wrapTx source.api source.block source.results.results with
  | error error =>
      refine Emits.readError _ fun content start => ?_
      rw [start, transactions_afterBegin, hashed]
      exact ⟨_, rfl⟩
  | ok transactions =>
      have read : ∀ content, content = afterBegin source begins →
          ∃ left, LazyBlockContent.transactions source content = .ok transactions left ∧
            left = afterTransactions source begins transactions := by
        intro content start
        rw [start, transactions_afterBegin, hashed]
        exact ⟨_, rfl, rfl⟩
      cases wrapped : wrapMsg source.api source.block transactions with
      | error error =>
          simp only [wrapped]
          exact Emits.read read ((transactions_emits_error wrapped (Finished source)).stop _)
      | ok messages =>
          simp only [wrapped]
          exact Emits.read read ((transactions_emits wrapped).seq (end_emits began hashed wrapped))

/-- A run does to the datasources what broadcasting its items does. -/
theorem indexBlockData_emits :
    Emits (fun content => content = {}) (indexBlockData source) (plan source).items
      (plan source).ending (Finished source) := by
  suffices emits : Emits
      (fun content => content = {} ∨ content = { wrappedBlock := some source.block })
      (indexBlockData source) (plan source).items (plan source).ending (Finished source) by
    exact emits.weaken (fun _ => Or.inl) fun _ => id
  unfold plan
  cases began : wrapBlockBeginAndEndEvents source.api source.block
      source.results.beginBlockEvents 0 with
  | error error =>
      refine indexBlockContent_emits.seq (Emits.readError _ fun content early => ?_)
      rw [beginBlockEvents_initial early, began]
      exact ⟨_, rfl⟩
  | ok begins =>
      refine indexBlockContent_emits.seq (Emits.read (fun content early => ?_)
        ((forM_indexEvent_emits _ begins).seq (indexTransactions_emits began)))
      rw [beginBlockEvents_initial early, began]
      exact ⟨_, rfl, rfl⟩

end Stages

end SubqlCosmos
