import SubqlCosmos.DispatchOnce

/-!
# Elements never handed out

The indexer reaches the events of a transaction through the messages they name. Every element of the
block content is handed to every datasource exactly when every log with events names a message.
-/

namespace SubqlCosmos

open Js Feed

variable {source : BlockSource} {begins ends : List CosmosEvent}
  {transactions : List CosmosTransaction} {messages : List CosmosMessage}

/-! ## Runs that do not fail -/

/-- The items of a block that decodes. -/
def decodedItems (source : BlockSource) (begins : List CosmosEvent)
    (transactions : List CosmosTransaction) (messages : List CosmosMessage)
    (ends : List CosmosEvent) : List Item :=
  openingItems source begins ++
    (transactions.flatMap (transactionItems messages
        (wrapEvent source.api source.block transactions begins.length)) ++
      ends.map .event)

theorem plan_of_decoded (decoded : Decoded source begins transactions messages ends) :
    plan source = ⟨decodedItems source begins transactions messages ends, none⟩ := by
  simp only [plan, planTransactions, planEnd, decoded.wrapBegin, decoded.wrapTx, decoded.wrapMsg,
    decoded.wrapEnd, Plan.after, decodedItems]

/-- A run that does not fail has handed out the items of a block that decodes. -/
theorem finished_run {dataSources : List CosmosDatasource} {handlings : List Handling}
    {final : IndexRun}
    (outcome : indexBlockData source (startRun dataSources handlings) = .ok () final) :
    Finished source final.context ∧
      ∀ begins transactions messages ends, Decoded source begins transactions messages ends →
        Fed dataSources.length (decodedItems source begins transactions messages ends)
          final.feed := by
  obtain ⟨context, same, finished⟩ := indexBlockData_emits (startRun dataSources handlings) rfl
  rw [outcome] at same
  cases ended : broadcastAll (plan source).items (plan source).ending
      (startRun dataSources handlings).feed with
  | error error feed =>
      rw [ended] at same
      cases same
  | ok _ feed =>
      rw [ended] at same
      cases same
      refine ⟨finished feed ended, fun begins transactions messages ends decoded => ?_⟩
      rw [plan_of_decoded decoded] at ended
      exact (fed_initial dataSources handlings).broadcastAll ended

theorem exists_final (decoded : Decoded source begins transactions messages ends)
    (dataSources : List CosmosDatasource) (handlings : List Handling)
    (harmless : ∀ handling ∈ handlings, handling.error = none) :
    ∃ final, indexBlockData source (startRun dataSources handlings) = .ok () final := by
  obtain ⟨context, same, -⟩ := indexBlockData_emits (startRun dataSources handlings) rfl
  have willing : Willing (startRun dataSources handlings).feed := harmless
  obtain ⟨after, -, outcome⟩ :=
    willing.broadcastAll (fed_initial _ _) (decodedItems source begins transactions messages ends)
  rw [plan_of_decoded decoded, outcome none] at same
  exact ⟨_, same⟩

/-- The events the getter gives after a run: those the run went through, and if it went through none
the events with other numbers. -/
def finalEvents (source : BlockSource) (begins : List CosmosEvent)
    (transactions : List CosmosTransaction) (messages : List CosmosMessage)
    (content : LazyBlockContent) : List CosmosEvent :=
  if selectedMessages messages transactions = [] then
    wrapEvent source.api source.block transactions content.eventIdx
  else
    wrapEvent source.api source.block transactions begins.length

/-- What the getters give after a run. -/
def finalContent (source : BlockSource) (begins : List CosmosEvent)
    (transactions : List CosmosTransaction) (messages : List CosmosMessage)
    (ends : List CosmosEvent) (content : LazyBlockContent) : BlockContent where
  block := source.block
  transactions := transactions
  messages := messages
  events := finalEvents source begins transactions messages content
  beginBlockEvents := begins
  endBlockEvents := ends

/-- The value of a getter in a block content. -/
def BlockContent.get (content : BlockContent) : Getter → Content
  | .block => .block content.block
  | .transactions => .transactions content.transactions
  | .messages => .messages content.messages
  | .events => .events content.events
  | .beginBlockEvents => .events content.beginBlockEvents
  | .endBlockEvents => .events content.endBlockEvents

/-- After a run every getter gives its value. -/
theorem read_finished {stage : LazyBlockContent}
    (decoded : Decoded source begins transactions messages ends)
    (reached : TransactionStage source begins transactions messages
      (selectedMessages messages transactions) stage) (getter : Getter) :
    ∃ after,
      (stage.addEvents ends .endBlockEvents).read source getter =
        .ok ((finalContent source begins transactions messages ends
          (stage.addEvents ends .endBlockEvents)).get getter) after := by
  rcases reached with ⟨empty, rfl⟩ | ⟨empty, rfl⟩ | ⟨filled, rfl⟩
  · cases getter with
    | messages =>
        have block :
            ((afterTransactions source begins transactions).addEvents ends
              .endBlockEvents).block source =
                (source.block, (afterTransactions source begins transactions).addEvents ends
                  .endBlockEvents) := rfl
        have cached :
            ((afterTransactions source begins transactions).addEvents ends
              .endBlockEvents).transactions source =
                .ok transactions ((afterTransactions source begins transactions).addEvents ends
                  .endBlockEvents) := rfl
        have unread :
            ((afterTransactions source begins transactions).addEvents ends
              .endBlockEvents).wrappedMessage = none := rfl
        simp only [LazyBlockContent.read, LazyBlockContent.messages, unread, block, cached,
          decoded.wrapMsg]
        exact ⟨_, rfl⟩
    | events =>
        simp only [finalContent, BlockContent.get, finalEvents, if_pos empty]
        exact ⟨_, rfl⟩
    | block | transactions | beginBlockEvents | endBlockEvents => exact ⟨_, rfl⟩
  · cases getter with
    | events =>
        simp only [finalContent, BlockContent.get, finalEvents, if_pos empty]
        exact ⟨_, rfl⟩
    | block | transactions | messages | beginBlockEvents | endBlockEvents => exact ⟨_, rfl⟩
  · cases getter with
    | events =>
        simp only [finalContent, BlockContent.get, finalEvents, if_neg filled]
        exact ⟨_, rfl⟩
    | block | transactions | messages | beginBlockEvents | endBlockEvents => exact ⟨_, rfl⟩

/-! ## Events that name a message -/

/-- The items a value of a getter stands for. -/
def Content.items : Content → List Item
  | .block value => [.block value]
  | .transactions values => values.map .transaction
  | .messages values => values.map .message
  | .events values => values.map .event

/-- Everything the getters can be asked for decodes. -/
structure Decodes (source : BlockSource) : Prop extends OpeningDecodes source where
  endBlockEvents : ∀ event ∈ source.results.endBlockEvents,
    ∃ decoded, source.api.fromTendermintEvent event = .ok decoded

/-- Every log with events names a message of its transaction. -/
def LogsNameMessages (source : BlockSource) : Prop :=
  ∀ idx result, source.results.results[idx]? = some result →
    ∀ raw, source.decodedTx idx = .ok raw →
      ∀ logs, source.api.parseRawLog result.log = .ok logs →
        ∀ log ∈ logs, log.events ≠ [] → log.msgIndex < raw.body.messages.length

theorem decodes_iff :
    Decodes source ↔
      ∃ begins transactions messages ends, Decoded source begins transactions messages ends := by
  constructor
  · intro decodes
    obtain ⟨begins, transactions, messages, began, hashed, wrapped⟩ :=
      openingDecodes_iff.mp decodes.toOpeningDecodes
    obtain ⟨ends, ended⟩ := wrapBlockEvents_iff.mpr decodes.endBlockEvents
    exact ⟨begins, transactions, messages, ends, began, hashed, wrapped, ended⟩
  · rintro ⟨begins, transactions, messages, ends, decoded⟩
    refine ⟨openingDecodes_iff.mpr ⟨begins, transactions, messages, decoded.wrapBegin,
      decoded.wrapTx, decoded.wrapMsg⟩, wrapBlockEvents_iff.mp ⟨ends, decoded.wrapEnd⟩⟩

/-- Where the logs name messages, every event has a message of its transaction. -/
theorem exists_message (decoded : Decoded source begins transactions messages ends)
    (named : LogsNameMessages source) {idxOffset : Nat} {event : CosmosEvent}
    (member : event ∈ wrapEvent source.api source.block transactions idxOffset) :
    ∃ tx ∈ transactions, ∃ msg ∈ messages,
      event.tx = some tx ∧ event.msg = some msg ∧ msg.tx = tx := by
  obtain ⟨tx, memberTx, belongs, logs, parsed, log, logged, listed, -, names⟩ := exists_log member
  obtain ⟨raw, decodedTx⟩ := (wrapMsg_eq_ok_iff.mp decoded.wrapMsg).1 tx memberTx
  have result := ((wrapTx_ok decoded.wrapTx).2 tx memberTx).1
  have inside : log.msgIndex < raw.body.messages.length :=
    named tx.idx tx.tx result raw ((tx_data decoded.wrapTx memberTx).2.2.symm.trans decodedTx) logs
      parsed log logged (List.ne_nil_of_mem listed)
  obtain ⟨msg, wrapped, idx, own⟩ := wrapCosmosMsg_of_lt source.api source.block decodedTx inside
  rw [wrapped] at names
  have listed := (mem_messages_iff decoded.wrapMsg).mpr
    ⟨tx, memberTx, mem_txMessages_of_wrapped wrapped⟩
  exact ⟨tx, memberTx, msg, listed, belongs, names, own⟩

theorem event_selected (decoded : Decoded source begins transactions messages ends)
    (named : LogsNameMessages source) {idxOffset : Nat} {event : CosmosEvent}
    (member : event ∈ wrapEvent source.api source.block transactions idxOffset) :
    ∃ tx ∈ transactions, ∃ msg ∈ selectMessages messages tx,
      event ∈ selectEvents (wrapEvent source.api source.block transactions idxOffset) tx msg := by
  obtain ⟨tx, memberTx, msg, listed, belongs, names, own⟩ := exists_message decoded named member
  refine ⟨tx, memberTx, msg, ?_, ?_⟩
  · simp [selectMessages, listed, own]
  · simp [selectEvents, member, belongs, names]

/-! ## Runs -/

/-- A run that does not fail hands every element of the block content, as the getters give it
afterwards, to every datasource of the initial list. -/
def NothingLost (source : BlockSource) : Prop :=
  ∀ dataSources handlings final,
    indexBlockData source (startRun dataSources handlings) = .ok () final →
      ∀ getter, ∃ value after, final.context.read source getter = .ok value after ∧
        ∀ item ∈ value.items, ∀ dataSource < dataSources.length,
          item ∈ final.feed.handed dataSource

theorem mem_decodedItems {item : Item} :
    item ∈ decodedItems source begins transactions messages ends ↔
      item = .block source.block ∨ (∃ event ∈ begins, item = .event event) ∨
        (∃ tx ∈ transactions, item = .transaction tx ∨
          ∃ msg ∈ selectMessages messages tx, item = .message msg ∨
            ∃ event ∈ selectEvents
              (wrapEvent source.api source.block transactions begins.length) tx msg,
                item = .event event) ∨
          ∃ event ∈ ends, item = .event event := by
  simp only [decodedItems, openingItems, transactionItems, messageItems, List.cons_append,
    List.mem_cons, List.mem_append, List.mem_map, List.mem_flatMap, eq_comm]

/-- Where the logs name messages, every element of a block that decodes is among its items. -/
theorem items_covered {stage : LazyBlockContent}
    (decoded : Decoded source begins transactions messages ends)
    (named : LogsNameMessages source) (getter : Getter) {item : Item}
    (member : item ∈ ((finalContent source begins transactions messages ends stage).get
      getter).items) :
    item ∈ decodedItems source begins transactions messages ends := by
  rw [mem_decodedItems]
  cases getter with
  | block => exact Or.inl (List.mem_singleton.mp member)
  | transactions =>
      obtain ⟨tx, inside, rfl⟩ := List.mem_map.mp member
      exact Or.inr (Or.inr (Or.inl ⟨tx, inside, Or.inl rfl⟩))
  | messages =>
      obtain ⟨msg, listed, rfl⟩ := List.mem_map.mp member
      have inside : msg ∈ messages := listed
      obtain ⟨tx, memberTx, own⟩ := (mem_messages_iff decoded.wrapMsg).mp inside
      have chosen : msg ∈ selectMessages messages tx := by
        simp [selectMessages, inside, tx_of_mem_txMessages own]
      exact Or.inr (Or.inr (Or.inl ⟨tx, memberTx, Or.inr ⟨msg, chosen, Or.inl rfl⟩⟩))
  | events =>
      obtain ⟨event, inside, rfl⟩ := List.mem_map.mp member
      simp only [finalContent, finalEvents] at inside
      split at inside
      · rename_i empty
        obtain ⟨tx, memberTx, msg, chosen, -⟩ := event_selected decoded named inside
        have gone : msg ∈ selectedMessages messages transactions :=
          List.mem_flatMap.mpr ⟨tx, memberTx, chosen⟩
        rw [empty] at gone
        exact absurd gone List.not_mem_nil
      · obtain ⟨tx, memberTx, msg, chosen, taken⟩ := event_selected decoded named inside
        exact Or.inr (Or.inr (Or.inl
          ⟨tx, memberTx, Or.inr ⟨msg, chosen, Or.inr ⟨event, taken, rfl⟩⟩⟩))
  | beginBlockEvents =>
      obtain ⟨event, inside, rfl⟩ := List.mem_map.mp member
      exact Or.inr (Or.inl ⟨event, inside, rfl⟩)
  | endBlockEvents =>
      obtain ⟨event, inside, rfl⟩ := List.mem_map.mp member
      exact Or.inr (Or.inr (Or.inr ⟨event, inside, rfl⟩))

/-- An event handed out belongs to no transaction or has a message. -/
theorem event_named (decoded : Decoded source begins transactions messages ends)
    {event : CosmosEvent}
    (member : Item.event event ∈ decodedItems source begins transactions messages ends) :
    event.tx = none ∨ event.msg ≠ none := by
  rw [mem_decodedItems] at member
  rcases member with impossible | ⟨other, inside, same⟩ | ⟨tx, memberTx, inner⟩ |
    ⟨other, inside, same⟩
  · cases impossible
  · cases same
    exact Or.inl (tx_of_mem_blockEvents decoded.wrapBegin inside).1
  · rcases inner with impossible | ⟨msg, chosen, impossible | ⟨other, taken, same⟩⟩
    · cases impossible
    · cases impossible
    · cases same
      have matched := (List.mem_filter.mp taken).2
      rw [decide_eq_true_iff] at matched
      refine Or.inr fun none => ?_
      rw [none] at matched
      exact absurd matched.2 (by simp)
  · cases same
    exact Or.inl (tx_of_mem_blockEvents decoded.wrapEnd inside).1

theorem exists_tx_of_result
    (hashed : wrapTx source.api source.block source.results.results = .ok transactions) {idx : Nat}
    {result : TxData} (there : source.results.results[idx]? = some result) :
    ∃ tx ∈ transactions, tx.idx = idx ∧ tx.tx = result := by
  obtain ⟨inside, -⟩ := List.getElem?_eq_some_iff.mp there
  obtain ⟨tx, member, rfl⟩ := exists_tx hashed inside
  have own := ((wrapTx_ok hashed).2 tx member).1
  exact ⟨tx, member, rfl, Option.some.inj (own.symm.trans there)⟩

/-- No element is ever lost exactly when the block does not decode, or else every log with events
names a message. -/
theorem nothingLost_iff :
    NothingLost source ↔ (Decodes source → LogsNameMessages source) := by
  constructor
  · intro kept decodes idx result there raw decodedTx logs parsed log logged events
    by_contra outside
    obtain ⟨_, _, _, _, decodable⟩ := decodes_iff.mp decodes
    -- one datasource whose handlers do nothing misses the event
    obtain ⟨final, outcome⟩ :=
      exists_final decodable [.runtime { handlers := [] }] [] fun _ => nofun
    obtain ⟨⟨begins, transactions, messages, ends, stage, decoded, reached, same⟩, fed⟩ :=
      finished_run outcome
    obtain ⟨value, after, read, handed⟩ := kept _ _ final outcome .events
    obtain ⟨after', read'⟩ := read_finished decoded reached .events
    rw [same, read'] at read
    cases read
    obtain ⟨tx, memberTx, rfl, rfl⟩ := exists_tx_of_result decoded.wrapTx there
    obtain ⟨event, listed⟩ := List.exists_mem_of_ne_nil _ events
    have ⟨idxOffset, numbers⟩ : ∃ idxOffset,
        finalEvents source begins transactions messages (stage.addEvents ends .endBlockEvents) =
          wrapEvent source.api source.block transactions idxOffset := by
      unfold finalEvents
      split <;> exact ⟨_, rfl⟩
    obtain ⟨lost, inside, belongs, names⟩ :=
      exists_event source.api source.block memberTx parsed logged listed idxOffset
    rw [← numbers] at inside
    have delivered := handed (.event lost) (List.mem_map_of_mem inside) 0 Nat.one_pos
    rw [(fed _ _ _ _ decoded).early 0 Nat.one_pos] at delivered
    rcases event_named decoded delivered with noTx | named
    · rw [belongs] at noTx
      cases noTx
    · apply named
      rw [names]
      cases wrapped : wrapCosmosMsg source.api source.block tx log.msgIndex with
      | error error => rfl
      | ok msg =>
          obtain ⟨-, -, raw', decodedTx', within⟩ := wrapCosmosMsg_ok wrapped
          rw [(tx_data decoded.wrapTx memberTx).2.2, decodedTx] at decodedTx'
          cases decodedTx'
          exact absurd within outside
  · intro named dataSources handlings final outcome getter
    obtain ⟨⟨begins, transactions, messages, ends, stage, decoded, reached, same⟩, fed⟩ :=
      finished_run outcome
    obtain ⟨after, read⟩ := read_finished decoded reached getter
    rw [← same] at read
    refine ⟨_, after, read, fun item member dataSource inside => ?_⟩
    have decodes := decodes_iff.mpr ⟨begins, transactions, messages, ends, decoded⟩
    rw [(fed _ _ _ _ decoded).early dataSource inside]
    exact items_covered decoded (named decodes) getter member

/-- A successful result whose log has two entries, of a transaction that has only one message. -/
def strayResults : List TxData :=
  [{ code := 0, log := some (sendLog 2), events := [] }]

/-- The event of a log entry without a message is not handed out. -/
theorem stray_event_lost :
    fetchBlocksBatches sendCodec
        [((sendBlock strayResults).blockInfo, (sendBlock strayResults).results)] =
      .ok [sendBlock strayResults] ∧
    ¬NothingLost (sendBlock strayResults) := by
  refine ⟨rfl, fun kept => ?_⟩
  have ended : (match indexBlockData (sendBlock strayResults)
      (startRun [.runtime { handlers := [] }] []) with
      | .ok _ final =>
          ((final.feed.handed 0).map Item.place,
            match final.context.read (sendBlock strayResults) .events with
            | .ok value _ => value.items.map Item.place
            | .error _ _ => [])
      | .error _ _ => ([], [])) =
        ([.block, .transaction 0, .message 0 0, .event 0], [.event 0, .event 1]) := by
    decide +kernel
  cases outcome : indexBlockData (sendBlock strayResults)
      (startRun [.runtime { handlers := [] }] []) with
  | error error final => simp [outcome] at ended
  | ok _ final =>
      obtain ⟨value, after, read, handed⟩ := kept _ _ final outcome .events
      simp only [outcome, read, Prod.mk.injEq] at ended
      obtain ⟨item, member, place⟩ := List.mem_map.mp
        (ended.2 ▸ List.mem_cons_of_mem _ (List.mem_singleton_self (Place.event 1)) :
          Place.event 1 ∈ value.items.map Item.place)
      have delivered : item.place ∈ (final.feed.handed 0).map Item.place :=
        List.mem_map_of_mem (handed item member 0 Nat.one_pos)
      rw [ended.1, place] at delivered
      exact absurd delivered (by decide)

end SubqlCosmos
