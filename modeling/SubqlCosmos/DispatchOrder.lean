import SubqlCosmos.DispatchAll

/-!
# The order of dispatch

Blocks in which transactions have different hashes and logs are numbered like the messages are
handed out in chain order, and a datasource appended on the way is handed the rest.
-/

namespace SubqlCosmos

open Js Feed

/-! ## The canonical list -/

/-- The block, its first events, every transaction followed by its messages, each followed by its
events, and the last events. -/
def BlockContent.canonical (content : BlockContent) : List Item :=
  .block content.block :: content.beginBlockEvents.map .event ++
    (content.transactions.flatMap (fun tx =>
        .transaction tx ::
          (content.messages.filter fun msg => msg.tx.idx = tx.idx).flatMap fun msg =>
            .message msg ::
              (content.events.filter fun event =>
                event.msg.map CosmosMessage.position = some msg.position).map .event) ++
      content.endBlockEvents.map .event)

/-- The number of an event. -/
def Item.eventIdx : Item → Option Nat
  | .event evt => some evt.idx
  | _ => none

/-- Everything decodes, transactions have different hashes, and the logs of a transaction are
numbered from zero on and name messages of it. -/
structure ChainOrdered (source : BlockSource) : Prop extends Decodes source where
  distinctHashes : ∀ idx < source.count, ∀ other < source.count, ∀ hash,
    source.hash idx = .ok hash → source.hash other = .ok hash → idx = other
  numberedLogs : ∀ (idx : Nat) (result : TxData), source.results.results[idx]? = some result →
    ∀ logs, source.api.parseRawLog result.log = .ok logs →
      logs.map Log.msgIndex = List.range logs.length
  namedMessages : ∀ (idx : Nat) (result : TxData), source.results.results[idx]? = some result →
    ∀ raw, source.decodedTx idx = .ok raw →
      ∀ logs, source.api.parseRawLog result.log = .ok logs →
        ∀ log ∈ logs, log.msgIndex < raw.body.messages.length

/-! ## Sorted lists -/

/-- Lists sorted by an asymmetric relation with the same members are equal. -/
theorem eq_of_sorted {α : Type} {relation : α → α → Prop} {first second : List α}
    (asymmetric : ∀ a b, relation a b → ¬relation b a) (sorted : first.Pairwise relation)
    (sortedToo : second.Pairwise relation) (same : ∀ a, a ∈ first ↔ a ∈ second) :
    first = second := by
  have nodup {list : List α} (sorted : list.Pairwise relation) : list.Nodup :=
    sorted.imp fun {a b} related same => by
      rw [same] at related
      exact asymmetric b b related related
  refine List.Perm.eq_of_pairwise (fun a b _ _ related back => ?_) sorted sortedToo
    ((List.perm_ext_iff_of_nodup (nodup sorted) (nodup sortedToo)).mpr same)
  exact absurd back (asymmetric a b related)

theorem related_of_mem {α : Type} {relation : α → α → Prop} {list : List α}
    (pairwise : list.Pairwise relation) {a b : α} (memberA : a ∈ list) (memberB : b ∈ list) :
    a = b ∨ relation a b ∨ relation b a := by
  have symmetric : Std.Symm fun a b => relation a b ∨ relation b a := ⟨fun _ _ => Or.symm⟩
  have closed : list.Pairwise fun a b => relation a b ∨ relation b a := pairwise.imp Or.inl
  by_cases same : a = b
  · exact Or.inl same
  · exact Or.inr (closed.forall memberA memberB same)

/-! ## Messages and events in chain order -/

variable {source : BlockSource} {begins ends : List CosmosEvent}
  {transactions : List CosmosTransaction} {messages : List CosmosMessage}

/-- The first message comes before the second in the block. -/
def Before (msg other : CosmosMessage) : Prop :=
  msg.tx.idx < other.tx.idx ∨ (msg.tx.idx = other.tx.idx ∧ msg.idx < other.idx)

theorem sorted_transactions
    (hashed : wrapTx source.api source.block source.results.results = .ok transactions) :
    transactions.Pairwise fun tx other => tx.idx < other.idx := by
  rw [← List.pairwise_map, (wrapTx_ok hashed).1]
  exact List.pairwise_lt_range

theorem sorted_messages
    (hashed : wrapTx source.api source.block source.results.results = .ok transactions)
    (wrapped : wrapMsg source.api source.block transactions = .ok messages) :
    messages.Pairwise Before := by
  obtain ⟨decodes, rfl⟩ := wrapMsg_eq_ok_iff.mp wrapped
  rw [List.pairwise_flatMap]
  constructor
  · intro tx member
    obtain ⟨raw, decoded⟩ := decodes tx member
    have positions := (txMessages_of_decoded source.api source.block decoded).1
    have sorted : ((txMessages source.api source.block tx).map CosmosMessage.idx).Pairwise
        (· < ·) := by
      rw [positions]
      exact List.pairwise_lt_range
    refine (List.pairwise_map.mp sorted).imp_of_mem fun {msg other} here there less => ?_
    rw [Before, tx_of_mem_txMessages here, tx_of_mem_txMessages there]
    exact Or.inr ⟨rfl, less⟩
  · refine (sorted_transactions hashed).imp fun {tx other} less msg here msg' there => ?_
    rw [Before, tx_of_mem_txMessages here, tx_of_mem_txMessages there]
    exact Or.inl less

/-- The first message, where there is one, does not come after the second. -/
def NotAfter (msg other : Option CosmosMessage) : Prop :=
  ∀ m ∈ msg, ∀ m' ∈ other, ¬Before m' m

theorem msg_numbered (idxOffset : Nat) (events : List CosmosEvent) :
    (numbered idxOffset events).map CosmosEvent.msg = events.map CosmosEvent.msg :=
  map_numbered CosmosEvent.msg (fun _ _ => rfl) idxOffset events

theorem of_mem_named {tx : CosmosTransaction} {idx : Nat} {msg : CosmosMessage}
    (named : msg ∈ (wrapCosmosMsg source.api source.block tx idx).toOption) :
    msg.idx = idx ∧ msg.tx = tx := by
  cases wrapped : wrapCosmosMsg source.api source.block tx idx with
  | error error =>
      rw [wrapped] at named
      cases named
  | ok other =>
      rw [wrapped] at named
      cases named
      have ⟨sameIdx, own, _⟩ := wrapCosmosMsg_ok wrapped
      exact ⟨sameIdx, own⟩

/-- The events of a transaction come in the order of their messages. -/
theorem sorted_txEvents {tx : CosmosTransaction}
    (increasing : ∀ logs, source.api.parseRawLog tx.tx.log = .ok logs →
      logs.Pairwise fun log other => log.msgIndex < other.msgIndex) :
    (txEvents source.api source.block tx).Pairwise fun event other =>
      NotAfter event.msg other.msg := by
  unfold txEvents
  cases parsed : source.api.parseRawLog tx.tx.log with
  | error error => exact List.Pairwise.nil
  | ok logs =>
      rw [List.pairwise_flatMap]
      constructor
      · intro log _
        rw [logEvents, List.pairwise_map]
        refine List.pairwise_of_forall fun _ _ msg here msg' there less => ?_
        rw [Option.mem_unique here there, Before] at less
        omega
      · refine (increasing logs parsed).imp fun {log other} less event here event' there => ?_
        obtain ⟨_, _, rfl⟩ := List.mem_map.mp here
        obtain ⟨_, _, rfl⟩ := List.mem_map.mp there
        intro msg named msg' named' before
        have ⟨idx, own⟩ := of_mem_named named
        have ⟨idx', own'⟩ := of_mem_named named'
        rw [Before, own, own', idx, idx'] at before
        omega

theorem tx_of_named {tx : CosmosTransaction} {event : CosmosEvent}
    (member : event ∈ txEvents source.api source.block tx) {msg : CosmosMessage}
    (named : msg ∈ event.msg) : msg.tx = tx := by
  unfold txEvents at member
  cases parsed : source.api.parseRawLog tx.tx.log with
  | error error =>
      rw [parsed] at member
      exact absurd member List.not_mem_nil
  | ok logs =>
      rw [parsed] at member
      obtain ⟨log, -, made⟩ := List.mem_flatMap.mp member
      obtain ⟨_, _, rfl⟩ := List.mem_map.mp made
      exact (of_mem_named named).2

theorem notAfter_events (chain : ChainOrdered source)
    (hashed : wrapTx source.api source.block source.results.results = .ok transactions)
    (idxOffset : Nat) :
    (wrapEvent source.api source.block transactions idxOffset).Pairwise fun event other =>
      NotAfter event.msg other.msg := by
  rw [← List.pairwise_map, wrapEvent, msg_numbered, List.pairwise_map, List.pairwise_flatMap]
  constructor
  · intro tx member
    refine sorted_txEvents fun logs parsed => ?_
    have result := ((wrapTx_ok hashed).2 tx member).1
    rw [← List.pairwise_map, chain.numberedLogs tx.idx tx.tx result logs parsed]
    exact List.pairwise_lt_range
  · refine (sorted_transactions hashed).imp fun {tx other} less event here event' there => ?_
    intro msg named msg' named' before
    rw [Before, tx_of_named here named, tx_of_named there named'] at before
    omega

theorem sorted_events (idxOffset : Nat) :
    (wrapEvent source.api source.block transactions idxOffset).Pairwise fun event other =>
      event.idx < other.idx := by
  rw [← List.pairwise_map, idx_wrapEvent]
  exact List.pairwise_lt_range'

/-! ## The run and the canonical list -/

/-- The events of a message. -/
def eventsOf (events : List CosmosEvent) (msg : CosmosMessage) : List CosmosEvent :=
  events.filter fun event => event.msg.map CosmosMessage.position = some msg.position

theorem ChainOrdered.logsNameMessages (chain : ChainOrdered source) : LogsNameMessages source :=
  fun idx result there raw decoded logs parsed log logged _ =>
    chain.namedMessages idx result there raw decoded logs parsed log logged

theorem before_of_positions {msg other msg' other' : CosmosMessage}
    (same : msg.position = msg'.position) (sameOther : other.position = other'.position)
    (before : Before msg other) : Before msg' other' := by
  have ⟨txs, idxs⟩ := Prod.ext_iff.mp same
  have ⟨otherTxs, otherIdxs⟩ := Prod.ext_iff.mp sameOther
  simp only [CosmosMessage.position] at txs idxs otherTxs otherIdxs
  rw [Before] at before ⊢
  omega

theorem exists_of_mem_eventsOf {events : List CosmosEvent} {msg : CosmosMessage}
    {event : CosmosEvent} (member : event ∈ eventsOf events msg) :
    event ∈ events ∧ ∃ named ∈ event.msg, named.position = msg.position := by
  obtain ⟨inside, matched⟩ := List.mem_filter.mp member
  obtain ⟨named, held, same⟩ := Option.map_eq_some_iff.mp (of_decide_eq_true matched)
  exact ⟨inside, named, held, same⟩

/-- The events in chain order are those of one message after the other. -/
theorem flatMap_eventsOf (chain : ChainOrdered source)
    (decoded : Decoded source begins transactions messages ends) (idxOffset : Nat) :
    messages.flatMap
        (eventsOf (wrapEvent source.api source.block transactions idxOffset)) =
      wrapEvent source.api source.block transactions idxOffset := by
  have sorted := @sorted_events source transactions idxOffset
  refine eq_of_sorted (fun a b less more => Nat.lt_asymm less more) ?_ sorted fun event => ?_
  · rw [List.pairwise_flatMap]
    refine ⟨fun msg _ => sorted.sublist List.filter_sublist, ?_⟩
    refine (sorted_messages decoded.wrapTx decoded.wrapMsg).imp
      fun {msg other} before event here event' there => ?_
    obtain ⟨inside, named, held, same⟩ := exists_of_mem_eventsOf here
    obtain ⟨inside', named', held', same'⟩ := exists_of_mem_eventsOf there
    have order : Before named named' := before_of_positions same.symm same'.symm before
    rcases related_of_mem (sorted.and (notAfter_events chain decoded.wrapTx idxOffset)) inside
      inside' with rfl | ⟨less, -⟩ | ⟨-, notAfter⟩
    · rw [Option.mem_unique held held', Before] at order
      omega
    · exact less
    · exact absurd order (notAfter named' held' named held)
  · constructor
    · intro member
      obtain ⟨msg, -, taken⟩ := List.mem_flatMap.mp member
      exact (List.mem_filter.mp taken).1
    · intro member
      obtain ⟨tx, -, msg, listed, -, names, -⟩ :=
        exists_message decoded chain.logsNameMessages member
      refine List.mem_flatMap.mpr ⟨msg, listed, ?_⟩
      simp [eventsOf, member, names]

theorem ChainOrdered.eq_of_hash (chain : ChainOrdered source)
    (hashed : wrapTx source.api source.block source.results.results = .ok transactions)
    {tx other : CosmosTransaction} (member : tx ∈ transactions)
    (memberOther : other ∈ transactions) : tx.hash = other.hash ↔ tx.idx = other.idx := by
  constructor
  · intro same
    have ⟨inside, hash, _⟩ := tx_data hashed member
    have ⟨outside, otherHash, _⟩ := tx_data hashed memberOther
    exact chain.distinctHashes tx.idx inside other.idx outside tx.hash hash (same ▸ otherHash)
  · intro same
    rw [List.inj_on_of_nodup_map (nodup_idx_of_wrapTx hashed) member memberOther same]

theorem selectMessages_eq (chain : ChainOrdered source)
    (decoded : Decoded source begins transactions messages ends) {tx : CosmosTransaction}
    (member : tx ∈ transactions) :
    selectMessages messages tx = messages.filter fun msg => msg.tx.idx = tx.idx := by
  refine List.filter_congr fun msg listed => ?_
  obtain ⟨origin, memberOrigin, own⟩ := (mem_messages_iff decoded.wrapMsg).mp listed
  rw [tx_of_mem_txMessages own, decide_eq_decide]
  exact chain.eq_of_hash decoded.wrapTx memberOrigin member

theorem selectEvents_eq (chain : ChainOrdered source)
    (decoded : Decoded source begins transactions messages ends) {tx : CosmosTransaction}
    (member : tx ∈ transactions) {msg : CosmosMessage} (own : msg.tx.idx = tx.idx)
    (idxOffset : Nat) :
    selectEvents (wrapEvent source.api source.block transactions idxOffset) tx msg =
      eventsOf (wrapEvent source.api source.block transactions idxOffset) msg := by
  refine List.filter_congr fun event inside => ?_
  obtain ⟨origin, memberOrigin, named, -, belongs, names, ofOrigin⟩ :=
    exists_message decoded chain.logsNameMessages inside
  rw [decide_eq_decide, belongs, names]
  simp only [Option.map_some, Option.some.injEq, CosmosMessage.position, Prod.mk.injEq, ofOrigin,
    own]
  rw [chain.eq_of_hash decoded.wrapTx memberOrigin member]

/-- Every message is gone through, in order. -/
theorem selectedMessages_eq (chain : ChainOrdered source)
    (decoded : Decoded source begins transactions messages ends) :
    selectedMessages messages transactions = messages := by
  have sorted := sorted_messages decoded.wrapTx decoded.wrapMsg
  refine eq_of_sorted (fun a b before after => ?_) ?_ sorted fun msg => ?_
  · rw [Before] at before after
    omega
  · rw [selectedMessages, List.pairwise_flatMap]
    refine ⟨fun tx _ => sorted.sublist List.filter_sublist, ?_⟩
    refine (sorted_transactions decoded.wrapTx).imp_of_mem
      fun {tx other} member memberOther less msg here msg' there => ?_
    rw [selectMessages_eq chain decoded member] at here
    rw [selectMessages_eq chain decoded memberOther] at there
    have own := of_decide_eq_true (List.mem_filter.mp here).2
    have own' := of_decide_eq_true (List.mem_filter.mp there).2
    exact Or.inl (own.trans_lt (less.trans_eq own'.symm))
  · constructor
    · intro chosen
      obtain ⟨tx, -, found⟩ := List.mem_flatMap.mp chosen
      exact (List.mem_filter.mp found).1
    · intro listed
      obtain ⟨tx, member, own⟩ := (mem_messages_iff decoded.wrapMsg).mp listed
      refine List.mem_flatMap.mpr ⟨tx, member, ?_⟩
      simp [selectMessages, listed, tx_of_mem_txMessages own]

/-- Every event is gone through, in order. -/
theorem selectedEvents_eq (chain : ChainOrdered source)
    (decoded : Decoded source begins transactions messages ends) (idxOffset : Nat) :
    selectedEvents messages (wrapEvent source.api source.block transactions idxOffset)
        transactions =
      wrapEvent source.api source.block transactions idxOffset := by
  calc
    transactions.flatMap (fun tx => (selectMessages messages tx).flatMap
        (selectEvents (wrapEvent source.api source.block transactions idxOffset) tx))
    _ = transactions.flatMap (fun tx => (selectMessages messages tx).flatMap
        (eventsOf (wrapEvent source.api source.block transactions idxOffset))) := by
      refine List.flatMap_congr fun tx member => List.flatMap_congr fun msg chosen => ?_
      rw [selectMessages_eq chain decoded member] at chosen
      exact selectEvents_eq chain decoded member (of_decide_eq_true (List.mem_filter.mp chosen).2) _
    _ = (selectedMessages messages transactions).flatMap
        (eventsOf (wrapEvent source.api source.block transactions idxOffset)) :=
      List.flatMap_assoc.symm
    _ = wrapEvent source.api source.block transactions idxOffset := by
      rw [selectedMessages_eq chain decoded, flatMap_eventsOf chain decoded]

/-- The getter gives the events the run went through. -/
theorem finalEvents_eq (chain : ChainOrdered source)
    (decoded : Decoded source begins transactions messages ends) (content : LazyBlockContent) :
    finalEvents source begins transactions messages content =
      wrapEvent source.api source.block transactions begins.length := by
  unfold finalEvents
  split
  · rename_i empty
    -- without messages there are no events to number
    rw [selectedMessages_eq chain decoded] at empty
    rw [← flatMap_eventsOf chain decoded, ← flatMap_eventsOf chain decoded begins.length, empty]
    rfl
  · rfl

/-- A run hands out the canonical list. -/
theorem canonical_eq (chain : ChainOrdered source)
    (decoded : Decoded source begins transactions messages ends) (content : LazyBlockContent) :
    (finalContent source begins transactions messages ends content).canonical =
      decodedItems source begins transactions messages ends := by
  have parts : ∀ tx ∈ transactions,
      transactionItems messages (wrapEvent source.api source.block transactions begins.length) tx =
        .transaction tx ::
          (messages.filter fun msg => msg.tx.idx = tx.idx).flatMap fun msg =>
            .message msg ::
              (eventsOf (wrapEvent source.api source.block transactions begins.length)
                msg).map .event := by
    intro tx member
    rw [transactionItems, selectMessages_eq chain decoded member]
    congr 1
    refine List.flatMap_congr fun msg chosen => ?_
    rw [messageItems, selectEvents_eq chain decoded member
      (of_decide_eq_true (List.mem_filter.mp chosen).2)]
  rw [decodedItems, List.flatMap_congr parts, BlockContent.canonical, finalContent,
    finalEvents_eq chain decoded]
  rfl

/-! ## Numbers -/

theorem eventIdx_events (events : List CosmosEvent) :
    (events.map Item.event).filterMap Item.eventIdx = events.map CosmosEvent.idx := by
  rw [List.filterMap_map]
  exact congrFun List.filterMap_eq_map events

theorem eventIdx_transactionItems (messages : List CosmosMessage) (events : List CosmosEvent)
    (transactions : List CosmosTransaction) :
    (transactions.flatMap (transactionItems messages events)).filterMap Item.eventIdx =
      (selectedEvents messages events transactions).map CosmosEvent.idx := by
  have perMessage (tx : CosmosTransaction) (msg : CosmosMessage) :
      (messageItems events tx msg).filterMap Item.eventIdx =
        (selectEvents events tx msg).map CosmosEvent.idx := by
    rw [messageItems, List.filterMap_cons_none rfl, eventIdx_events]
  have perTransaction (tx : CosmosTransaction) :
      (transactionItems messages events tx).filterMap Item.eventIdx =
        ((selectMessages messages tx).flatMap (selectEvents events tx)).map CosmosEvent.idx := by
    rw [transactionItems, List.filterMap_cons_none rfl, List.filterMap_flatMap, List.map_flatMap]
    simp only [perMessage]
  rw [List.filterMap_flatMap, selectedEvents, List.map_flatMap]
  simp only [perTransaction]

/-- The events are numbered in the order they are handed out. -/
theorem eventIdx_decodedItems (chain : ChainOrdered source)
    (decoded : Decoded source begins transactions messages ends) :
    (decodedItems source begins transactions messages ends).filterMap Item.eventIdx =
      List.range (begins.length +
        (wrapEvent source.api source.block transactions begins.length).length + ends.length) := by
  have last : endIdx begins transactions messages
      (wrapEvent source.api source.block transactions begins.length) =
        begins.length + (wrapEvent source.api source.block transactions begins.length).length := by
    rw [endIdx, selectedMessages_eq chain decoded]
    split
    · rename_i empty
      rw [← flatMap_eventsOf chain decoded, empty]
      rfl
    · rfl
  rw [decodedItems, openingItems, List.filterMap_append, List.filterMap_cons_none rfl,
    List.filterMap_append, eventIdx_events, eventIdx_events, eventIdx_transactionItems,
    selectedEvents_eq chain decoded, idx_wrapEvent,
    idx_wrapBlockBeginAndEndEvents decoded.wrapBegin,
    idx_wrapBlockBeginAndEndEvents decoded.wrapEnd, last, List.range_eq_range', Nat.add_assoc,
    ← List.range'_append_1, ← List.range'_append_1, Nat.zero_add]

/-! ## Runs -/

/-- When no handler throws the run does not fail. When it does not fail, the items of the canonical
list are different and its events are numbered from zero on; a datasource of the initial list is
handed the canonical list, and one appended during a call the rest of the list from the item of that
call on. -/
theorem dispatched_in_order (chain : ChainOrdered source) (dataSources : List CosmosDatasource)
    (handlings : List Handling) :
    ((∀ handling ∈ handlings, handling.error = none) →
      ∃ final, indexBlockData source (startRun dataSources handlings) = .ok () final) ∧
    ∀ final, indexBlockData source (startRun dataSources handlings) = .ok () final →
      ∃ content : BlockContent,
        (∀ getter, ∃ after,
          final.context.read source getter = .ok (content.get getter) after) ∧
        (content.canonical.map Item.place).Nodup ∧
        content.canonical.filterMap Item.eventIdx =
          List.range (content.beginBlockEvents.length + content.events.length +
            content.endBlockEvents.length) ∧
        (∀ dataSource < dataSources.length,
          final.feed.handed dataSource = content.canonical) ∧
        (∀ dataSource, dataSources.length ≤ dataSource → dataSource < final.feed.size →
          ∃ call ∈ final.feed.deliveries,
            call.present ≤ dataSource ∧ dataSource < call.present + call.appended.length) ∧
        ∀ call ∈ final.feed.deliveries,
          call.appended <+: final.feed.receivers.drop call.present ∧
            ∀ dataSource, call.present ≤ dataSource →
              dataSource < call.present + call.appended.length →
                ∃ earlier later,
                  content.canonical = earlier ++ call.item :: later ∧
                    final.feed.handed dataSource = call.item :: later := by
  constructor
  · intro harmless
    obtain ⟨_, _, _, _, decoded⟩ := decodes_iff.mp chain.toDecodes
    exact exists_final decoded dataSources handlings harmless
  · intro final outcome
    obtain ⟨⟨begins, transactions, messages, ends, stage, decoded, reached, same⟩, fed⟩ :=
      finished_run outcome
    have handed := fed _ _ _ _ decoded
    have items := canonical_eq chain decoded (stage.addEvents ends .endBlockEvents)
    have events := finalEvents_eq chain decoded (stage.addEvents ends .endBlockEvents)
    refine ⟨finalContent source begins transactions messages ends
      (stage.addEvents ends .endBlockEvents), fun getter => ?_, ?_, ?_, ?_, handed.origin, ?_⟩
    · rw [same]
      exact read_finished decoded reached getter
    · have once : SelectsOnce source := selectsOnce_iff.mpr fun _ =>
        fun idx inside other outside different hash here there =>
          absurd (chain.distinctHashes idx inside other outside hash here there) different
      rw [items]
      simpa only [plan_of_decoded decoded] using nodup_plan_iff.mpr once
    · rw [items, eventIdx_decodedItems chain decoded]
      simp only [finalContent, events]
    · intro dataSource inside
      rw [items]
      exact handed.early dataSource inside
    · intro call member
      rw [items]
      exact ⟨handed.placed call member, handed.late call member⟩

/-- A block with one successful transfer, an event before it and one after it. -/
def transferBlock : BlockSource :=
  let block := sendBlock [{ code := 0, log := some (sendLog 1), events := [] }]
  { block with
    results :=
      { block.results with
        beginBlockEvents := [{ type := "coin_spent", attributes := [] }]
        endBlockEvents := [{ type := "coin_received", attributes := [] }] } }

theorem chainOrdered_transferBlock : ChainOrdered transferBlock := by
  have only {idx : Nat} (inside : idx < transferBlock.count) : idx = 0 := Nat.lt_one_iff.mp inside
  have logged {idx : Nat} {result : TxData}
      (there : transferBlock.results.results[idx]? = some result) {logs : List Log}
      (parsed : transferBlock.api.parseRawLog result.log = .ok logs) :
      idx = 0 ∧ logs =
        [{ msgIndex := 0, log := "", events := [{ type := "transfer", attributes := [] }] }] := by
    obtain ⟨inside, found⟩ := List.getElem?_eq_some_iff.mp there
    obtain rfl := only inside
    cases found
    have whole : transferBlock.api.parseRawLog (some (sendLog 1)) =
        .ok
          [{ msgIndex := 0, log := "", events := [{ type := "transfer", attributes := [] }] }] := by
      simp [transferBlock, sendBlock, sendCodec]
    exact ⟨rfl, Except.ok.inj (parsed.symm.trans whole)⟩
  refine ⟨⟨⟨fun _ _ => ⟨_, rfl⟩, fun idx inside => ?_, fun idx inside => ?_⟩,
    fun _ _ => ⟨_, rfl⟩⟩, fun idx inside other outside _ _ _ => ?_,
    fun idx result there logs parsed => ?_, fun idx result there raw decoded logs parsed => ?_⟩
  · obtain rfl := only inside
    exact ⟨_, rfl⟩
  · obtain rfl := only inside
    exact ⟨_, rfl⟩
  · exact (only inside).trans (only outside).symm
  · rw [(logged there parsed).2]
    rfl
  · obtain ⟨rfl, rfl⟩ := logged there parsed
    cases decoded
    simp

/-- A datasource appended while the transaction is handed out gets the transaction, its message, its
event and the last event. -/
theorem transferBlock_in_order :
    ∃ (final : IndexRun) (content : BlockContent),
      indexBlockData transferBlock (startRun [.runtime { handlers := [] }]
          [{}, {}, { appended := [.runtime { handlers := [] }] }]) = .ok () final ∧
        final.feed.handed 0 = content.canonical ∧
        content.canonical.map Item.place =
          [.block, .event 0, .transaction 0, .message 0 0, .event 1, .event 2] ∧
        (final.feed.handed 1).map Item.place =
          [.transaction 0, .message 0 0, .event 1, .event 2] := by
  obtain ⟨total, each⟩ := dispatched_in_order chainOrdered_transferBlock
    [.runtime { handlers := [] }] [{}, {}, { appended := [.runtime { handlers := [] }] }]
  obtain ⟨final, outcome⟩ := total (by simp)
  obtain ⟨content, -, -, -, early, -⟩ := each final outcome
  have ended : (match indexBlockData transferBlock (startRun [.runtime { handlers := [] }]
      [{}, {}, { appended := [.runtime { handlers := [] }] }]) with
      | .ok _ final =>
          ((final.feed.handed 0).map Item.place, (final.feed.handed 1).map Item.place)
      | .error _ _ => ([], [])) =
        ([.block, .event 0, .transaction 0, .message 0 0, .event 1, .event 2],
          [.transaction 0, .message 0 0, .event 1, .event 2]) := by
    decide +kernel
  have all := early 0 Nat.one_pos
  simp only [outcome, Prod.mk.injEq] at ended
  rw [all] at ended
  exact ⟨final, content, outcome, all, ended⟩

end SubqlCosmos
