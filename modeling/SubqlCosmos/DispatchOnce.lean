import SubqlCosmos.Dispatch

/-!
# Elements handed out twice

The indexer finds the messages and the events of a transaction by its hash. No element is handed to
a datasource twice exactly when transactions of one hash hold no messages.
-/

namespace SubqlCosmos

open Js Feed

/-! ## Places -/

/-- The place of an element in its block content: the block, a transaction by its position, a
message by its transaction's and its own, an event by its number. -/
inductive Place
  | block
  | transaction (idx : Nat)
  | message (tx : Nat) (idx : Nat)
  | event (idx : Nat)
deriving DecidableEq, Repr

/-- The place of an item. -/
def Item.place : Item → Place
  | .block _ => .block
  | .transaction tx => .transaction tx.idx
  | .message msg => .message msg.tx.idx msg.idx
  | .event evt => .event evt.idx

/-- The place of a message among the messages of its block. -/
def CosmosMessage.position (msg : CosmosMessage) : Nat × Nat :=
  (msg.tx.idx, msg.idx)

/-- Items sorted by their kind have different places when those of each kind have. -/
theorem nodup_places_sorted (block : CosmosBlock) (transactions : List CosmosTransaction)
    (messages : List CosmosMessage) (events : List CosmosEvent) :
    ((Item.block block :: (transactions.map .transaction ++ messages.map .message ++
          events.map .event)).map Item.place).Nodup ↔
      (transactions.map CosmosTransaction.idx).Nodup ∧
        (messages.map CosmosMessage.position).Nodup ∧ (events.map CosmosEvent.idx).Nodup := by
  have transactionPlaces :
      (transactions.map Item.transaction).map Item.place =
        (transactions.map CosmosTransaction.idx).map Place.transaction := by simp [Item.place]
  have messagePlaces :
      (messages.map Item.message).map Item.place =
        (messages.map CosmosMessage.position).map fun position =>
          Place.message position.1 position.2 := by
    simp [Item.place, CosmosMessage.position]
  have eventPlaces :
      (events.map Item.event).map Item.place = (events.map CosmosEvent.idx).map Place.event := by
    simp [Item.place]
  rw [List.map_cons, List.map_append, List.map_append, transactionPlaces, messagePlaces,
    eventPlaces]
  have transactionInjective : Function.Injective Place.transaction := fun _ _ => by simp
  have messageInjective :
      Function.Injective fun position : Nat × Nat => Place.message position.1 position.2 :=
    fun _ _ => by simp [Prod.ext_iff]
  have eventInjective : Function.Injective Place.event := fun _ _ => by simp
  rw [List.nodup_cons, List.nodup_append, List.nodup_append,
    List.nodup_map_iff transactionInjective, List.nodup_map_iff messageInjective,
    List.nodup_map_iff eventInjective]
  constructor
  · rintro ⟨-, ⟨first, second, -⟩, third, -⟩
    exact ⟨first, second, third⟩
  · rintro ⟨first, second, third⟩
    refine ⟨by simp [Item.place], ⟨first, second, ?_⟩, third, ?_⟩
    · simp only [List.mem_map]
      rintro _ ⟨_, _, rfl⟩ _ ⟨_, _, rfl⟩
      nofun
    · simp only [List.mem_append, List.mem_map]
      rintro _ (⟨_, _, rfl⟩ | ⟨_, _, rfl⟩) _ ⟨_, _, rfl⟩ <;> nofun

/-! ## The items of a run, sorted -/

/-- The events the run goes through between the first and the last events. -/
def selectedEvents (messages : List CosmosMessage) (events : List CosmosEvent)
    (transactions : List CosmosTransaction) : List CosmosEvent :=
  transactions.flatMap fun tx => (selectMessages messages tx).flatMap (selectEvents events tx)

/-- The items of the transactions are the transactions, the messages and the events gone through. -/
theorem transactionItems_perm (messages : List CosmosMessage) (events : List CosmosEvent)
    (transactions : List CosmosTransaction) :
    (transactions.flatMap (transactionItems messages events)).Perm
      (transactions.map .transaction ++ (selectedMessages messages transactions).map .message ++
        (selectedEvents messages events transactions).map .event) := by
  have inner (tx : CosmosTransaction) :
      ((selectMessages messages tx).flatMap (messageItems events tx)).Perm
        ((selectMessages messages tx).map .message ++
          ((selectMessages messages tx).flatMap (selectEvents events tx)).map .event) := by
    rw [List.map_flatMap]
    exact (List.map_append_flatMap_perm _ Item.message _).symm
  have outer := (List.map_append_flatMap_perm transactions Item.transaction fun tx =>
    (selectMessages messages tx).flatMap (messageItems events tx)).symm
  have split := (List.Perm.flatMap_left transactions fun tx _ => inner tx).trans
    (List.flatMap_append_perm transactions _ _).symm
  rw [← List.map_flatMap, ← List.map_flatMap] at split
  rw [List.append_assoc]
  exact outer.trans (split.append_left _)

/-- The numbers of the first and of the last events are apart from those between. -/
theorem nodup_idx_iff {begins middle ends : List CosmosEvent} {last : Nat}
    (first : begins.map CosmosEvent.idx = List.range' 0 begins.length)
    (between : ∀ event ∈ middle, begins.length ≤ event.idx ∧ event.idx < last)
    (order : begins.length ≤ last)
    (final : ends.map CosmosEvent.idx = List.range' last ends.length) :
    ((begins ++ middle ++ ends).map CosmosEvent.idx).Nodup ↔
      (middle.map CosmosEvent.idx).Nodup := by
  rw [List.map_append, List.map_append, first, final, List.nodup_append, List.nodup_append]
  constructor
  · rintro ⟨⟨-, inner, -⟩, -⟩
    exact inner
  · intro inner
    refine ⟨⟨List.nodup_range', inner, ?_⟩, List.nodup_range', ?_⟩
    · intro idx low other inside
      obtain ⟨event, member, rfl⟩ := List.mem_map.mp inside
      have bounds := between event member
      rw [List.mem_range'_1] at low
      omega
    · intro idx inside other high
      rw [List.mem_range'_1] at high
      rcases List.mem_append.mp inside with low | inside
      · rw [List.mem_range'_1] at low
        omega
      · obtain ⟨event, member, rfl⟩ := List.mem_map.mp inside
        have bounds := between event member
        omega

theorem bounds_of_mem_wrapEvent {api : Codec} {block : CosmosBlock} {txs : List CosmosTransaction}
    {idxOffset : Nat} {event : CosmosEvent} (member : event ∈ wrapEvent api block txs idxOffset) :
    idxOffset ≤ event.idx ∧
      event.idx < idxOffset + (wrapEvent api block txs idxOffset).length := by
  rw [← List.mem_range'_1, ← idx_wrapEvent]
  exact List.mem_map_of_mem member

variable {source : BlockSource} {begins ends : List CosmosEvent}
  {transactions : List CosmosTransaction} {messages : List CosmosMessage}

theorem mem_of_mem_selectedEvents {events : List CosmosEvent} {event : CosmosEvent}
    (member : event ∈ selectedEvents messages events transactions) : event ∈ events := by
  obtain ⟨tx, -, inner⟩ := List.mem_flatMap.mp member
  obtain ⟨msg, -, chosen⟩ := List.mem_flatMap.mp inner
  exact (List.mem_filter.mp chosen).1

/-- Events are gone through only with messages. -/
theorem selectedEvents_of_no_messages {events : List CosmosEvent}
    (empty : selectedMessages messages transactions = []) :
    selectedEvents messages events transactions = [] := by
  rw [selectedMessages, List.flatMap_eq_nil_iff] at empty
  rw [selectedEvents, List.flatMap_eq_nil_iff]
  intro tx member
  rw [empty tx member, List.flatMap_nil]

/-- Nothing is handed out twice when no message and no event is gone through twice. -/
theorem nodup_items_iff {items : List Item} {middle : List CosmosEvent} {last : Nat}
    (first : begins.map CosmosEvent.idx = List.range' 0 begins.length)
    (between : ∀ event ∈ middle, begins.length ≤ event.idx ∧ event.idx < last)
    (order : begins.length ≤ last)
    (final : ends.map CosmosEvent.idx = List.range' last ends.length)
    (sorted : items.Perm (transactions.map Item.transaction ++ messages.map Item.message ++
      middle.map Item.event)) :
    ((openingItems source begins ++ (items ++ ends.map Item.event)).map Item.place).Nodup ↔
      (transactions.map CosmosTransaction.idx).Nodup ∧
        (messages.map CosmosMessage.position).Nodup ∧ (middle.map CosmosEvent.idx).Nodup := by
  have whole :
      (openingItems source begins ++ (items ++ ends.map Item.event)).Perm
        (.block source.block :: (transactions.map Item.transaction ++ messages.map Item.message ++
          (begins ++ middle ++ ends).map Item.event)) := by
    have inside := (sorted.append_right (ends.map Item.event)).append_left (begins.map Item.event)
    have moved := List.perm_append_comm_assoc (begins.map Item.event)
      (transactions.map Item.transaction ++ messages.map Item.message)
      (middle.map Item.event ++ ends.map Item.event)
    rw [List.append_assoc _ (middle.map _)] at inside
    simp only [List.map_append, List.append_assoc] at inside moved ⊢
    exact (inside.trans moved).cons _
  rw [(whole.map Item.place).nodup_iff, nodup_places_sorted,
    nodup_idx_iff first between order final]

/-- Whatever decodes, no message and no event of the transactions is gone through twice. -/
def SelectsOnce (source : BlockSource) : Prop :=
  ∀ begins transactions messages,
    wrapBlockBeginAndEndEvents source.api source.block source.results.beginBlockEvents 0 =
        .ok begins →
      wrapTx source.api source.block source.results.results = .ok transactions →
        wrapMsg source.api source.block transactions = .ok messages →
          ((selectedMessages messages transactions).map CosmosMessage.position).Nodup ∧
            ((selectedEvents messages
              (wrapEvent source.api source.block transactions begins.length)
                transactions).map CosmosEvent.idx).Nodup

theorem nodup_idx_of_wrapTx
    (hashed : wrapTx source.api source.block source.results.results = .ok transactions) :
    (transactions.map CosmosTransaction.idx).Nodup := by
  rw [(wrapTx_ok hashed).1]
  exact List.nodup_range

/-- The items of a run that goes through all transactions. -/
theorem nodup_full_iff
    (first : begins.map CosmosEvent.idx = List.range' 0 begins.length)
    (hashed : wrapTx source.api source.block source.results.results = .ok transactions)
    (final : ends.map CosmosEvent.idx =
      List.range' (endIdx begins transactions messages
        (wrapEvent source.api source.block transactions begins.length)) ends.length) :
    ((openingItems source begins ++
          (transactions.flatMap (transactionItems messages
              (wrapEvent source.api source.block transactions begins.length)) ++
            ends.map Item.event)).map Item.place).Nodup ↔
      ((selectedMessages messages transactions).map CosmosMessage.position).Nodup ∧
        ((selectedEvents messages (wrapEvent source.api source.block transactions begins.length)
          transactions).map CosmosEvent.idx).Nodup := by
  have between : ∀ event ∈ selectedEvents messages
      (wrapEvent source.api source.block transactions begins.length) transactions,
      begins.length ≤ event.idx ∧
        event.idx < endIdx begins transactions messages
          (wrapEvent source.api source.block transactions begins.length) := by
    intro event member
    rw [endIdx]
    split
    · rename_i empty
      rw [selectedEvents_of_no_messages empty] at member
      exact absurd member List.not_mem_nil
    · exact bounds_of_mem_wrapEvent (mem_of_mem_selectedEvents member)
  rw [nodup_items_iff first between (Nat.le_add_right _ _) final (transactionItems_perm _ _ _)]
  exact and_iff_right (nodup_idx_of_wrapTx hashed)

theorem exists_ends (source : BlockSource) (begins : List CosmosEvent)
    (transactions : List CosmosTransaction) (messages : List CosmosMessage) :
    ∃ ends : List CosmosEvent,
      (planEnd source begins transactions messages
          (wrapEvent source.api source.block transactions begins.length)).items =
        ends.map Item.event ∧
      ends.map CosmosEvent.idx =
        List.range' (endIdx begins transactions messages
          (wrapEvent source.api source.block transactions begins.length)) ends.length := by
  unfold planEnd
  cases ended : wrapBlockBeginAndEndEvents source.api source.block source.results.endBlockEvents
      (endIdx begins transactions messages
        (wrapEvent source.api source.block transactions begins.length)) with
  | error error => exact ⟨[], rfl, rfl⟩
  | ok ends => exact ⟨ends, rfl, idx_wrapBlockBeginAndEndEvents ended⟩

theorem nodup_early (first : begins.map CosmosEvent.idx = List.range' 0 begins.length)
    (distinct : (transactions.map CosmosTransaction.idx).Nodup) :
    ((openingItems source begins ++ transactions.map Item.transaction).map Item.place).Nodup := by
  have nothing : ∀ event ∈ ([] : List CosmosEvent),
      begins.length ≤ event.idx ∧ event.idx < begins.length :=
    fun _ member => absurd member List.not_mem_nil
  have sorted : (transactions.map Item.transaction).Perm
      (transactions.map Item.transaction ++ ([] : List CosmosMessage).map Item.message ++
        ([] : List CosmosEvent).map Item.event) := by
    simp
  have cut := (@nodup_items_iff source begins [] transactions [] _ [] begins.length first nothing
    (Nat.le_refl _) rfl sorted).mpr ⟨distinct, List.nodup_nil, List.nodup_nil⟩
  rwa [List.map_nil, List.append_nil] at cut

/-- A run hands out no element twice exactly when it goes through none twice. -/
theorem nodup_plan_iff : ((plan source).items.map Item.place).Nodup ↔ SelectsOnce source := by
  unfold plan SelectsOnce
  cases began : wrapBlockBeginAndEndEvents source.api source.block
      source.results.beginBlockEvents 0 with
  | error error => exact iff_of_true (List.nodup_singleton _) nofun
  | ok begins =>
      have first := idx_wrapBlockBeginAndEndEvents began
      unfold planTransactions
      cases hashed : wrapTx source.api source.block source.results.results with
      | error error =>
          have distinct : (([] : List CosmosTransaction).map CosmosTransaction.idx).Nodup :=
            List.nodup_nil
          exact iff_of_true (nodup_early first distinct) fun _ _ _ _ other =>
            absurd other (by simp)
      | ok transactions =>
          cases wrapped : wrapMsg source.api source.block transactions with
          | error error =>
              simp only [wrapped]
              refine iff_of_true (nodup_early first ?_) ?_
              · exact (nodup_idx_of_wrapTx hashed).sublist ((List.take_sublist 1 _).map _)
              · intro _ _ _ _ same other
                cases same
                rw [wrapped] at other
                cases other
          | ok messages =>
              obtain ⟨ends, same, final⟩ := exists_ends source begins transactions messages
              simp only [wrapped, Plan.after, same]
              rw [nodup_full_iff first hashed final]
              constructor
              · intro once _ _ _ sameBegins sameTransactions other
                cases sameBegins
                cases sameTransactions
                rw [wrapped] at other
                cases other
                exact once
              · exact fun once => once begins transactions messages rfl rfl wrapped

/-! ## Transactions of one hash -/

/-- Transactions at different positions with one hash hold no messages. -/
def Apart (source : BlockSource) (transactions : List CosmosTransaction) : Prop :=
  ∀ tx ∈ transactions, ∀ other ∈ transactions, tx.idx ≠ other.idx → tx.hash = other.hash →
    txMessages source.api source.block tx = []

theorem nodup_positions {chosen : CosmosTransaction → List CosmosMessage}
    (distinct : (transactions.map CosmosTransaction.idx).Nodup)
    (own : ∀ tx ∈ transactions, ∀ msg ∈ chosen tx, msg.tx = tx)
    (each : ∀ tx ∈ transactions, ((chosen tx).map CosmosMessage.position).Nodup) :
    ((transactions.flatMap chosen).map CosmosMessage.position).Nodup := by
  rw [List.map_flatMap, List.nodup_flatMap]
  refine ⟨each, (List.pairwise_map.mp distinct).imp_of_mem
    fun {tx other} inside outside apart => ?_⟩
  intro position here there
  obtain ⟨msg, member, rfl⟩ := List.mem_map.mp here
  obtain ⟨msg', member', same⟩ := List.mem_map.mp there
  apply apart
  rw [← own tx inside msg member, ← own other outside msg' member']
  exact (Prod.ext_iff.mp same).1.symm

section SelectedOnce

variable (hashed : wrapTx source.api source.block source.results.results = .ok transactions)
  (wrapped : wrapMsg source.api source.block transactions = .ok messages)

include wrapped in
theorem mem_messages_iff {msg : CosmosMessage} :
    msg ∈ messages ↔ ∃ tx ∈ transactions, msg ∈ txMessages source.api source.block tx := by
  rw [(wrapMsg_eq_ok_iff.mp wrapped).2, List.mem_flatMap]

include hashed wrapped in
theorem nodup_position_messages : (messages.map CosmosMessage.position).Nodup := by
  obtain ⟨decodes, rfl⟩ := wrapMsg_eq_ok_iff.mp wrapped
  refine nodup_positions (nodup_idx_of_wrapTx hashed) (fun tx _ msg => tx_of_mem_txMessages)
    fun tx member => ?_
  obtain ⟨raw, decoded⟩ := decodes tx member
  have positions : ((txMessages source.api source.block tx).map CosmosMessage.position).map
      Prod.snd = List.range raw.body.messages.length := by
    rw [List.map_map]
    exact (txMessages_of_decoded source.api source.block decoded).1
  exact List.Nodup.of_map Prod.snd (positions ▸ List.nodup_range)

include wrapped in
/-- A message gone through twice is a message of a transaction whose hash occurs twice. -/
theorem apart_of_nodup
    (once : ((selectedMessages messages transactions).map CosmosMessage.position).Nodup) :
    Apart source transactions := by
  intro tx member other memberOther different sameHash
  rw [selectedMessages, List.map_flatMap, List.nodup_flatMap] at once
  by_contra filled
  obtain ⟨msg, own⟩ := List.exists_mem_of_ne_nil _ filled
  have listed : msg ∈ messages := (mem_messages_iff wrapped).mpr ⟨tx, member, own⟩
  have belongs : msg.tx = tx := tx_of_mem_txMessages own
  have chosen : msg ∈ selectMessages messages tx := by
    simp [selectMessages, listed, belongs]
  have chosenToo : msg ∈ selectMessages messages other := by
    simp [selectMessages, listed, belongs, sameHash]
  have symmetric : Std.Symm (Function.onFun List.Disjoint fun tx =>
      (selectMessages messages tx).map CosmosMessage.position) :=
    ⟨fun _ _ apart _ here there => apart there here⟩
  have apart := once.2.forall member memberOther fun same => different (congrArg _ same)
  exact apart (List.mem_map_of_mem chosen) (List.mem_map_of_mem chosenToo)

include hashed wrapped in
theorem tx_of_mem_selectMessages (apart : Apart source transactions) {tx : CosmosTransaction}
    (member : tx ∈ transactions) {msg : CosmosMessage} (chosen : msg ∈ selectMessages messages tx) :
    msg.tx = tx ∧ msg ∈ txMessages source.api source.block tx := by
  obtain ⟨listed, sameHash⟩ := List.mem_filter.mp chosen
  obtain ⟨origin, memberOrigin, own⟩ := (mem_messages_iff wrapped).mp listed
  have belongs : msg.tx = origin := tx_of_mem_txMessages own
  rw [belongs, decide_eq_true_iff] at sameHash
  have same : origin = tx := by
    by_contra different
    have idx : origin.idx ≠ tx.idx := fun sameIdx =>
      different (List.inj_on_of_nodup_map (nodup_idx_of_wrapTx hashed) memberOrigin member sameIdx)
    rw [apart origin memberOrigin tx member idx sameHash] at own
    exact absurd own List.not_mem_nil
  rw [← same]
  exact ⟨belongs, own⟩

include hashed wrapped in
/-- When transactions of one hash hold no messages, every message is gone through once. -/
theorem nodup_selectedMessages (apart : Apart source transactions) :
    ((selectedMessages messages transactions).map CosmosMessage.position).Nodup := by
  refine nodup_positions (nodup_idx_of_wrapTx hashed) (fun tx member msg chosen => ?_)
    fun tx _ => ?_
  · exact (tx_of_mem_selectMessages hashed wrapped apart member chosen).1
  · exact (nodup_position_messages hashed wrapped).sublist (List.filter_sublist.map _)

theorem eq_of_idx_eq {idxOffset : Nat} {event other : CosmosEvent}
    (member : event ∈ wrapEvent source.api source.block transactions idxOffset)
    (memberOther : other ∈ wrapEvent source.api source.block transactions idxOffset)
    (same : event.idx = other.idx) : event = other := by
  have distinct : ((wrapEvent source.api source.block transactions idxOffset).map
      CosmosEvent.idx).Nodup := by
    rw [idx_wrapEvent]
    exact List.nodup_range'
  exact List.inj_on_of_nodup_map distinct member memberOther same

include hashed wrapped in
theorem nodup_selectedEvents (apart : Apart source transactions) (idxOffset : Nat) :
    ((selectedEvents messages (wrapEvent source.api source.block transactions idxOffset)
      transactions).map CosmosEvent.idx).Nodup := by
  have distinct : ((wrapEvent source.api source.block transactions idxOffset).map
      CosmosEvent.idx).Nodup := by
    rw [idx_wrapEvent]
    exact List.nodup_range'
  rw [selectedEvents, List.map_flatMap, List.nodup_flatMap]
  constructor
  · intro tx member
    rw [List.map_flatMap, List.nodup_flatMap]
    refine ⟨fun msg _ => distinct.sublist (List.filter_sublist.map _), ?_⟩
    have positions : ((selectMessages messages tx).map CosmosMessage.position).Nodup :=
      (nodup_position_messages hashed wrapped).sublist (List.filter_sublist.map _)
    refine (List.pairwise_map.mp positions).imp_of_mem fun {msg other} here there different => ?_
    intro idx taken takenToo
    obtain ⟨event, chosen, rfl⟩ := List.mem_map.mp taken
    obtain ⟨event', chosenToo, same⟩ := List.mem_map.mp takenToo
    obtain ⟨listed, matched⟩ := List.mem_filter.mp chosen
    obtain ⟨listed', matched'⟩ := List.mem_filter.mp chosenToo
    rw [eq_of_idx_eq listed' listed same] at matched'
    rw [decide_eq_true_iff] at matched matched'
    apply different
    have sameIdx := Option.some.inj (matched.2.symm.trans matched'.2)
    rw [CosmosMessage.position, CosmosMessage.position, sameIdx,
      (tx_of_mem_selectMessages hashed wrapped apart member here).1,
      (tx_of_mem_selectMessages hashed wrapped apart member there).1]
  · refine (List.pairwise_map.mp (nodup_idx_of_wrapTx hashed)).imp_of_mem
      fun {tx other} here there different => ?_
    intro idx taken takenToo
    obtain ⟨event, chosen, rfl⟩ := List.mem_map.mp taken
    obtain ⟨event', chosenToo, same⟩ := List.mem_map.mp takenToo
    obtain ⟨msg, selected, chosen⟩ := List.mem_flatMap.mp chosen
    obtain ⟨msg', selected', chosenToo⟩ := List.mem_flatMap.mp chosenToo
    obtain ⟨listed, matched⟩ := List.mem_filter.mp chosen
    obtain ⟨listed', matched'⟩ := List.mem_filter.mp chosenToo
    rw [eq_of_idx_eq listed' listed same] at matched'
    rw [decide_eq_true_iff] at matched matched'
    have sameHash := Option.some.inj (matched.1.symm.trans matched'.1)
    have own := (tx_of_mem_selectMessages hashed wrapped apart here selected).2
    rw [apart tx here other there different sameHash] at own
    exact absurd own List.not_mem_nil

end SelectedOnce

/-! ## Blocks that decode -/

/-- The hash of the transaction at a position. -/
def BlockSource.hash (source : BlockSource) (idx : Nat) : Except Error String :=
  txHash source.api source.blockInfo.block.txs[idx]?

/-- The decoded transaction at a position. -/
def BlockSource.decodedTx (source : BlockSource) (idx : Nat) : Except Error DecodedTxRaw :=
  source.api.decodeTxRaw source.blockInfo.block.txs[idx]?

/-- The number of transactions with a result. -/
def BlockSource.count (source : BlockSource) : Nat :=
  source.results.results.length

/-- The first events and the transactions decode. -/
structure OpeningDecodes (source : BlockSource) : Prop where
  beginBlockEvents : ∀ event ∈ source.results.beginBlockEvents,
    ∃ decoded, source.api.fromTendermintEvent event = .ok decoded
  hash : ∀ idx < source.count, ∃ hash, source.hash idx = .ok hash
  decodedTx : ∀ idx < source.count, ∃ raw, source.decodedTx idx = .ok raw

/-- Different transactions with one hash hold no messages. -/
def RepeatsAreEmpty (source : BlockSource) : Prop :=
  ∀ idx < source.count, ∀ other < source.count, idx ≠ other →
    ∀ hash, source.hash idx = .ok hash → source.hash other = .ok hash →
      ∀ raw, source.decodedTx idx = .ok raw → raw.body.messages = []

section Decoding

variable (hashed : wrapTx source.api source.block source.results.results = .ok transactions)

include hashed in
theorem exists_tx {idx : Nat} (inside : idx < source.count) :
    ∃ tx ∈ transactions, tx.idx = idx := by
  rw [← List.mem_map, (wrapTx_ok hashed).1]
  exact List.mem_range.mpr inside

include hashed in
theorem tx_data {tx : CosmosTransaction} (member : tx ∈ transactions) :
    tx.idx < source.count ∧ source.hash tx.idx = .ok tx.hash ∧
      tx.decodedTx = source.decodedTx tx.idx := by
  have ⟨positions, contents⟩ := wrapTx_ok hashed
  have inside : tx.idx ∈ transactions.map CosmosTransaction.idx := List.mem_map_of_mem member
  rw [positions] at inside
  exact ⟨List.mem_range.mp inside, (contents tx member).2⟩

end Decoding

theorem wrapBlockEvents_iff {block : CosmosBlock} {events : List TendermintEvent} {idx : Nat} :
    (∃ wrapped, wrapBlockBeginAndEndEvents source.api block events idx = .ok wrapped) ↔
      ∀ event ∈ events, ∃ decoded, source.api.fromTendermintEvent event = .ok decoded := by
  constructor
  · rintro ⟨wrapped, outcome⟩
    obtain ⟨decoded, mapped, -⟩ := bind_eq_ok.mp outcome
    exact succeeds_of_mapM mapped
  · intro decodes
    obtain ⟨decoded, mapped⟩ := exists_mapM_ok decodes
    exact ⟨_, bind_eq_ok.mpr ⟨decoded, mapped, rfl⟩⟩

/-- The opening decodes when the wrappers succeed. -/
theorem openingDecodes_iff :
    OpeningDecodes source ↔
      ∃ begins transactions messages,
        wrapBlockBeginAndEndEvents source.api source.block source.results.beginBlockEvents 0 =
            .ok begins ∧
          wrapTx source.api source.block source.results.results = .ok transactions ∧
            wrapMsg source.api source.block transactions = .ok messages := by
  constructor
  · intro decodes
    obtain ⟨begins, began⟩ := wrapBlockEvents_iff.mpr decodes.beginBlockEvents
    obtain ⟨transactions, hashed⟩ :
        ∃ transactions, wrapTx source.api source.block source.results.results = .ok transactions :=
      exists_wrapTx decodes.hash
    refine ⟨begins, transactions, _, began, hashed,
      wrapMsg_eq_ok_iff.mpr ⟨fun tx member => ?_, rfl⟩⟩
    obtain ⟨inside, -, same⟩ := tx_data hashed member
    rw [same]
    exact decodes.decodedTx tx.idx inside
  · rintro ⟨begins, transactions, messages, began, hashed, wrapped⟩
    refine ⟨wrapBlockEvents_iff.mp ⟨begins, began⟩, fun idx inside => ?_, fun idx inside => ?_⟩
    · obtain ⟨tx, member, rfl⟩ := exists_tx hashed inside
      exact ⟨tx.hash, (tx_data hashed member).2.1⟩
    · obtain ⟨tx, member, rfl⟩ := exists_tx hashed inside
      rw [← (tx_data hashed member).2.2]
      exact (wrapMsg_eq_ok_iff.mp wrapped).1 tx member

theorem txMessages_eq_nil_iff {tx : CosmosTransaction} {raw : DecodedTxRaw}
    (decoded : tx.decodedTx = .ok raw) :
    txMessages source.api source.block tx = [] ↔ raw.body.messages = [] := by
  have positions := (txMessages_of_decoded source.api source.block decoded).1
  rw [← List.map_eq_nil_iff, positions, List.range_eq_nil, List.length_eq_zero_iff]

theorem apart_iff
    (hashed : wrapTx source.api source.block source.results.results = .ok transactions)
    (wrapped : wrapMsg source.api source.block transactions = .ok messages) :
    Apart source transactions ↔ RepeatsAreEmpty source := by
  constructor
  · intro apart idx inside other outside different hash here there raw decoded
    obtain ⟨tx, member, rfl⟩ := exists_tx hashed inside
    obtain ⟨otherTx, memberOther, rfl⟩ := exists_tx hashed outside
    have ⟨_, ownHash, ownDecoded⟩ := tx_data hashed member
    have ⟨_, otherHash, _⟩ := tx_data hashed memberOther
    have sameHash : tx.hash = otherTx.hash :=
      (Except.ok.inj (ownHash.symm.trans here)).trans (Except.ok.inj (there.symm.trans otherHash))
    exact (txMessages_eq_nil_iff (ownDecoded.trans decoded)).mp
      (apart tx member otherTx memberOther different sameHash)
  · intro empty tx member other memberOther different sameHash
    have ⟨inside, ownHash, ownDecoded⟩ := tx_data hashed member
    have ⟨outside, otherHash, _⟩ := tx_data hashed memberOther
    obtain ⟨raw, decoded⟩ := (wrapMsg_eq_ok_iff.mp wrapped).1 tx member
    exact (txMessages_eq_nil_iff decoded).mpr
      (empty tx.idx inside other.idx outside different tx.hash ownHash (sameHash ▸ otherHash) raw
        (ownDecoded.symm.trans decoded))

theorem selectsOnce_iff :
    SelectsOnce source ↔ (OpeningDecodes source → RepeatsAreEmpty source) := by
  constructor
  · intro once decodes
    obtain ⟨begins, transactions, messages, began, hashed, wrapped⟩ := openingDecodes_iff.mp decodes
    exact (apart_iff hashed wrapped).mp
      (apart_of_nodup wrapped (once begins transactions messages began hashed wrapped).1)
  · intro empty begins transactions messages began hashed wrapped
    have decodes := openingDecodes_iff.mpr
      ⟨begins, transactions, messages, began, hashed, wrapped⟩
    have apart := (apart_iff hashed wrapped).mpr (empty decodes)
    exact ⟨nodup_selectedMessages hashed wrapped apart,
      nodup_selectedEvents hashed wrapped apart begins.length⟩

/-! ## Runs -/

/-- No element of the block content is handed to one datasource twice, whatever the datasources are
and whatever the handlers do. -/
def NeverTwice (source : BlockSource) : Prop :=
  ∀ dataSources handlings,
    OnceEach Item.place (finalState (indexBlockData source (startRun dataSources handlings))).feed

/-- What a run does to the datasources. -/
theorem feed_indexBlockData (dataSources : List CosmosDatasource) (handlings : List Handling) :
    (finalState (indexBlockData source (startRun dataSources handlings))).feed =
      finalState (broadcastAll (plan source).items (plan source).ending
        (startRun dataSources handlings).feed) := by
  obtain ⟨context, outcome, -⟩ := indexBlockData_emits (startRun dataSources handlings) rfl
  rw [outcome]
  cases broadcastAll (plan source).items (plan source).ending
    (startRun dataSources handlings).feed <;> rfl

theorem neverTwice_iff_nodup :
    NeverTwice source ↔ ((plan source).items.map Item.place).Nodup := by
  constructor
  · intro once
    -- one datasource whose handlers do nothing is handed all items
    have alone := once [.runtime { handlers := [] }] []
    have willing : Willing (startRun [.runtime { handlers := [] }] []).feed := fun _ => nofun
    obtain ⟨after, fed, outcome⟩ :=
      willing.broadcastAll (fed_initial _ _) (plan source).items
    have last : finalState (endWith (plan source).ending after) = after := by
      cases (plan source).ending <;> rfl
    rw [feed_indexBlockData, outcome, last] at alone
    have handed := alone.handed 0
    rwa [fed.early 0 Nat.one_pos] at handed
  · intro distinct dataSources handlings
    rw [feed_indexBlockData]
    exact onceEach_broadcastAll List.nodup_nil distinct fun _ => nofun

/-- No element is ever handed out twice exactly when the block does not decode, or else different
transactions with one hash hold no messages. -/
theorem neverTwice_iff :
    NeverTwice source ↔ (OpeningDecodes source → RepeatsAreEmpty source) := by
  rw [neverTwice_iff_nodup, nodup_plan_iff, selectsOnce_iff]

/-! ### A replayed transaction -/

/-- A raw transaction that holds one empty transfer. -/
def sendBytes : Bytes :=
  [10, 32, 10, 30, 10, 28, 47, 99, 111, 115, 109, 111, 115, 46, 98, 97, 110, 107, 46, 118, 49, 98,
    101, 116, 97, 49, 46, 77, 115, 103, 83, 101, 110, 100, 18, 0]

/-- The digest of that transaction. -/
def sendDigest : Bytes :=
  [92, 247, 186, 84, 157, 213, 18, 210, 103, 128, 149, 153, 66, 21, 99, 255, 56, 123, 232, 146, 75,
    223, 161, 142, 212, 44, 126, 5, 29, 8, 52, 122]

/-- A raw log of so many entries, each with one event. -/
def sendLog (entries : Nat) : String :=
  "[" ++ ",".intercalate (List.replicate entries
    "\x7b\"events\":[\x7b\"type\":\"transfer\",\"attributes\":[]\x7d]\x7d") ++ "]"

/-- The decoders on that transaction, its logs and events without attributes. The entries of a log are
numbered by their position. -/
def sendCodec : Codec where
  sha256
    | some _ => .ok sendDigest
    | none => .error { name := "TypeError", message := "Expected Uint8Array" }
  decodeTxRaw
    | some _ =>
        .ok { body := { messages := [{ typeUrl := "/cosmos.bank.v1beta1.MsgSend", value := [] }] } }
    | none => .error { name := "TypeError", message := "illegal buffer" }
  parseRawLog
    | none => .ok []
    | some text =>
        let logAt (msgIndex : Nat) : Log :=
          { msgIndex := msgIndex, log := "", events := [{ type := "transfer", attributes := [] }] }
        if text = sendLog 1 then .ok [logAt 0]
        else if text = sendLog 2 then .ok [logAt 0, logAt 1]
        else .error { name := "SyntaxError", message := "Unexpected token in JSON" }
  fromTendermintEvent event := .ok { type := event.type, attributes := [] }
  decode _ :=
    .ok (.obj [("fromAddress", .scalar (.str "")), ("toAddress", .scalar (.str "")),
      ("amount", .arr [])])
  decodeText _ := .error { name := "TypeError", message := "not a buffer" }
  parseJson _ := .error { name := "SyntaxError", message := "Unexpected end of JSON input" }
  prototypes _ _ := .undefined

/-- The block that holds the transaction once for every result. -/
def sendBlock (results : List TxData) : BlockSource where
  blockInfo :=
    { blockId := { hash := [] }
      block := { header := { height := 7, time := 0 }, txs := results.map fun _ => sendBytes } }
  results := { results := results, beginBlockEvents := [], endBlockEvents := [] }
  api := sendCodec

/-- A successful result, and the failure of the same bytes replayed. -/
def replayResults : List TxData :=
  [{ code := 0, log := some (sendLog 1), events := [] },
    { code := 32, log := some "account sequence mismatch, expected 8, got 7", events := [] }]

/-- The message of a transaction that occurs twice in its block is handed out with each. -/
theorem replayed_message_handed_twice :
    fetchBlocksBatches sendCodec
        [((sendBlock replayResults).blockInfo, (sendBlock replayResults).results)] =
      .ok [sendBlock replayResults] ∧
    ¬NeverTwice (sendBlock replayResults) := by
  refine ⟨rfl, fun once => ?_⟩
  have alone := once [.runtime { handlers := [] }] []
  unfold OnceEach at alone
  revert alone
  decide +kernel

end SubqlCosmos
