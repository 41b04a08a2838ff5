import SubqlCosmos.DispatchOnce
import SubqlCosmos.FilterLaws

/-!
# Alignment of wrapped data

Which transactions the events of a block come from, and how the transactions, messages and events of
a fetched block line up with its results, its raw bytes and its logs.
-/

namespace SubqlCosmos

open Js

/-! ## Events and failure -/

/-- The raw log of a result can be parsed and lists an event. -/
def LogsEvents (api : Codec) (result : TxData) : Prop :=
  ∃ logs, api.parseRawLog result.log = .ok logs ∧ ∃ log ∈ logs, log.events ≠ []

/-- A failed transaction has no event, and a successful one whose result carries events has some. -/
def OnlyFailureSilences (api : Codec) (block : CosmosBlock) (txs : List CosmosTransaction)
    (idxOffset : Nat) : Prop :=
  ∀ tx ∈ txs,
    (tx.tx.code ≠ 0 → ∀ event ∈ wrapEvent api block txs idxOffset, event.tx ≠ some tx) ∧
      (tx.tx.code = 0 → tx.tx.events ≠ [] →
        ∃ event ∈ wrapEvent api block txs idxOffset, event.tx = some tx)

theorem exists_event_iff (api : Codec) (block : CosmosBlock) {txs : List CosmosTransaction}
    {tx : CosmosTransaction} (member : tx ∈ txs) (idxOffset : Nat) :
    (∃ event ∈ wrapEvent api block txs idxOffset, event.tx = some tx) ↔ LogsEvents api tx.tx := by
  constructor
  · rintro ⟨event, wrapped, belongs⟩
    obtain ⟨other, -, otherBelongs, logs, parsed, log, logged, listed, -⟩ := exists_log wrapped
    obtain rfl : tx = other := Option.some.inj (belongs.symm.trans otherBelongs)
    exact ⟨logs, parsed, log, logged, List.ne_nil_of_mem listed⟩
  · rintro ⟨logs, parsed, log, logged, nonempty⟩
    obtain ⟨event, listed⟩ := List.exists_mem_of_ne_nil _ nonempty
    obtain ⟨wrapped, found, belongs, -⟩ :=
      exists_event api block member parsed logged listed idxOffset
    exact ⟨wrapped, found, belongs⟩

/-- Only failure silences the events of transactions exactly when the raw logs agree with the result
codes: `wrapEvent` looks at the log alone. -/
theorem onlyFailureSilences_iff (api : Codec) (block : CosmosBlock) (txs : List CosmosTransaction)
    (idxOffset : Nat) :
    OnlyFailureSilences api block txs idxOffset ↔
      ∀ tx ∈ txs,
        (tx.tx.code ≠ 0 → ¬LogsEvents api tx.tx) ∧
          (tx.tx.code = 0 → tx.tx.events ≠ [] → LogsEvents api tx.tx) := by
  refine forall₂_congr fun tx member => ?_
  rw [← exists_event_iff api block member idxOffset]
  simp only [not_exists, not_and]

/-- A successful transaction whose log the chain has left empty. -/
def successWithoutLog : CosmosTransaction :=
  { txWithCode (emptyBlock 7 0) 0 with
    tx := { code := 0, log := some "", events := [{ type := "transfer", attributes := [] }] } }

/-- A failed transaction with a log. -/
def failureWithLog : CosmosTransaction :=
  { txWithCode (emptyBlock 7 0) 5 with
    tx := { code := 5, log := some (sendLog 1), events := [] } }

theorem events_follow_the_log :
    wrapEvent sendCodec (emptyBlock 7 0) [successWithoutLog] 0 = [] ∧
      ¬OnlyFailureSilences sendCodec (emptyBlock 7 0) [successWithoutLog] 0 ∧
        ¬OnlyFailureSilences sendCodec (emptyBlock 7 0) [failureWithLog] 0 := by
  have silent : wrapEvent sendCodec (emptyBlock 7 0) [successWithoutLog] 0 = [] := by
    simp [wrapEvent, txEvents, sendCodec, successWithoutLog, sendLog, numbered]
  have loud : LogsEvents sendCodec failureWithLog.tx :=
    ⟨_, rfl, _, List.mem_cons_self, by simp⟩
  refine ⟨silent, fun only => ?_, fun only => ?_⟩
  · obtain ⟨event, wrapped, -⟩ := (only _ List.mem_cons_self).2 rfl (by simp [successWithoutLog])
    rw [silent] at wrapped
    exact absurd wrapped List.not_mem_nil
  · obtain ⟨event, wrapped, belongs⟩ :=
      (exists_event_iff sendCodec (emptyBlock 7 0) List.mem_cons_self 0).mpr loud
    exact (only _ List.mem_cons_self).1 (by decide) event wrapped belongs

/-! ## Fetched blocks -/

/-- The requests for one height and what they are answered with. -/
structure HeightRequest where
  height : Nat
  blockInfo : Except Error BlockResponse
  blockResults : Except Error BlockResultsResponse

/-- `getBlockByHeight`: both answers, or the error of a request. -/
def getBlockByHeight (request : HeightRequest) :
    Except Error (BlockResponse × BlockResultsResponse) := do
  let blockInfo ← request.blockInfo
  let blockResults ← request.blockResults
  return (blockInfo, blockResults)

/-- `fetchCosmosBlocksArray`. -/
def fetchCosmosBlocksArray (blockArray : List HeightRequest) :
    Except Error (List (BlockResponse × BlockResultsResponse)) :=
  blockArray.mapM getBlockByHeight

/-- `fetchBlocksBatches` with its requests. -/
def fetchHeights (api : Codec) (blockArray : List HeightRequest) :
    Except Error (List BlockSource) := do
  let blocks ← fetchCosmosBlocksArray blockArray
  fetchBlocksBatches api blocks

/-- The content is made from the answers for a height, with one result for every transaction. -/
structure FetchedContent (api : Codec) (request : HeightRequest) (source : BlockSource) : Prop where
  blockInfo : request.blockInfo = .ok source.blockInfo
  blockResults : request.blockResults = .ok source.results
  api : source.api = api
  counts : source.results.results.length = source.blockInfo.block.txs.length

theorem fetchBlocksBatches_ok {api : Codec} {blocks : List (BlockResponse × BlockResultsResponse)}
    {sources : List BlockSource} (outcome : fetchBlocksBatches api blocks = .ok sources) :
    List.Forall₂
      (fun block source =>
        source = { blockInfo := block.1, results := block.2, api := api } ∧
          block.2.results.length = block.1.block.txs.length)
      blocks sources := by
  refine ((mapM_eq_ok_iff _ _ _).mp outcome).imp fun block source accepted => ?_
  dsimp only at accepted
  split at accepted
  · exact ⟨(Except.ok.inj accepted).symm, ‹_›⟩
  · cases accepted

/-- Every height has its content, in order. -/
theorem fetched_of_fetchHeights {api : Codec} {blockArray : List HeightRequest}
    {sources : List BlockSource} (outcome : fetchHeights api blockArray = .ok sources) :
    List.Forall₂ (FetchedContent api) blockArray sources := by
  obtain ⟨blocks, answered, accepted⟩ := bind_eq_ok.mp outcome
  have answers := (mapM_eq_ok_iff _ _ _).mp answered
  have contents := fetchBlocksBatches_ok accepted
  clear outcome answered accepted
  induction answers generalizing sources with
  | nil =>
      cases contents
      exact .nil
  | cons answer _ ih =>
      cases contents with
      | cons content rest =>
          refine .cons ?_ (ih rest)
          obtain ⟨rfl, counts⟩ := content
          obtain ⟨blockInfo, info, next⟩ := bind_eq_ok.mp answer
          obtain ⟨blockResults, results, same⟩ := bind_eq_ok.mp next
          cases same
          exact ⟨info, results, rfl, counts⟩

/-! ## What the getters give -/

/-- The value of a getter is what the wrappers make of the block, with events numbered from
somewhere. -/
def Gives (source : BlockSource) : Getter → Content → Prop
  | .block, .block block => block = source.block
  | .transactions, .transactions txs =>
      wrapTx source.api source.block source.results.results = .ok txs
  | .messages, .messages msgs =>
      ∃ txs, wrapTx source.api source.block source.results.results = .ok txs ∧
        wrapMsg source.api source.block txs = .ok msgs
  | .events, .events events =>
      ∃ txs idxOffset, wrapTx source.api source.block source.results.results = .ok txs ∧
        events = wrapEvent source.api source.block txs idxOffset
  | .beginBlockEvents, .events events =>
      ∃ idxOffset, wrapBlockBeginAndEndEvents source.api source.block
        source.results.beginBlockEvents idxOffset = .ok events
  | .endBlockEvents, .events events =>
      ∃ idxOffset, wrapBlockBeginAndEndEvents source.api source.block
        source.results.endBlockEvents idxOffset = .ok events
  | _, _ => False

/-- Every cache that is filled holds what its getter should give. -/
def Sound (source : BlockSource) (content : LazyBlockContent) : Prop :=
  ∀ getter value, content.cached getter = some value → Gives source getter value

namespace Sound

variable {source : BlockSource} {content : LazyBlockContent}

theorem initial : Sound source {} := by
  intro getter value held
  cases getter <;> exact absurd held (by simp [LazyBlockContent.cached])

theorem fill (sound : Sound source content) {after : LazyBlockContent} (getter : Getter)
    (value : Content) (right : Gives source getter value)
    (held : after.cached getter = some value)
    (others : ∀ other, other ≠ getter → after.cached other = content.cached other) :
    Sound source after := by
  intro other found cached
  by_cases same : other = getter
  · subst other
    rwa [← Option.some.inj (held.symm.trans cached)]
  · exact sound other found (others other same ▸ cached)

theorem block (sound : Sound source content) :
    (content.block source).1 = source.block ∧ Sound source (content.block source).2 := by
  unfold LazyBlockContent.block
  cases held : content.wrappedBlock with
  | some block =>
      exact ⟨sound .block (.block block) (by simp [LazyBlockContent.cached, held]), sound⟩
  | none =>
      refine ⟨rfl, sound.fill .block (.block source.block) rfl rfl ?_⟩
      intro other different
      cases other <;> first | rfl | exact absurd rfl different

theorem transactions (sound : Sound source content) :
    ∃ after, Sound source after ∧
      content.transactions source =
        match wrapTx source.api source.block source.results.results with
        | .error error => .error error after
        | .ok txs => .ok txs after := by
  unfold LazyBlockContent.transactions
  cases held : content.wrappedTransaction with
  | some txs =>
      have given : wrapTx source.api source.block source.results.results = .ok txs :=
        sound .transactions (.transactions txs) (by simp [LazyBlockContent.cached, held])
      exact ⟨content, sound, by rw [given]⟩
  | none =>
      obtain ⟨same, soundBlock⟩ := sound.block
      simp only [same]
      cases wrapped : wrapTx source.api source.block source.results.results with
      | error error => exact ⟨_, soundBlock, rfl⟩
      | ok txs =>
          refine ⟨_, soundBlock.fill .transactions (.transactions txs) wrapped rfl ?_, rfl⟩
          intro other different
          cases other <;> first | rfl | exact absurd rfl different

theorem messages (sound : Sound source content) :
    ∃ after, Sound source after ∧
      content.messages source =
        match wrapTx source.api source.block source.results.results >>=
          wrapMsg source.api source.block with
        | .error error => .error error after
        | .ok msgs => .ok msgs after := by
  unfold LazyBlockContent.messages
  cases held : content.wrappedMessage with
  | some msgs =>
      obtain ⟨txs, hashed, wrapped⟩ :=
        sound .messages (.messages msgs) (by simp [LazyBlockContent.cached, held])
      exact ⟨content, sound, by rw [bind_eq_ok.mpr ⟨txs, hashed, wrapped⟩]⟩
  | none =>
      obtain ⟨same, soundBlock⟩ := sound.block
      obtain ⟨after, soundAfter, read⟩ := soundBlock.transactions
      simp only [same, read]
      cases hashed : wrapTx source.api source.block source.results.results with
      | error error => exact ⟨after, soundAfter, rfl⟩
      | ok txs =>
          simp only [bind, Except.bind]
          cases wrapped : wrapMsg source.api source.block txs with
          | error error => exact ⟨after, soundAfter, rfl⟩
          | ok msgs =>
              refine ⟨_, soundAfter.fill .messages (.messages msgs)
                ⟨txs, hashed, wrapped⟩ rfl ?_, rfl⟩
              intro other different
              cases other <;> first | rfl | exact absurd rfl different

theorem events (sound : Sound source content) :
    ∃ after idxOffset, Sound source after ∧
      content.events source =
        match wrapTx source.api source.block source.results.results with
        | .error error => .error error after
        | .ok txs => .ok (wrapEvent source.api source.block txs idxOffset) after := by
  unfold LazyBlockContent.events
  cases held : content.wrappedEvent with
  | some events =>
      obtain ⟨txs, idxOffset, hashed, rfl⟩ :=
        sound .events (.events events) (by simp [LazyBlockContent.cached, held])
      exact ⟨content, idxOffset, sound, by rw [hashed]⟩
  | none =>
      obtain ⟨same, soundBlock⟩ := sound.block
      obtain ⟨after, soundAfter, read⟩ := soundBlock.transactions
      simp only [same, read]
      cases hashed : wrapTx source.api source.block source.results.results with
      | error error => exact ⟨after, 0, soundAfter, rfl⟩
      | ok txs =>
          refine ⟨_, after.eventIdx, soundAfter.fill .events
            (.events (wrapEvent source.api source.block txs after.eventIdx))
            ⟨txs, after.eventIdx, hashed, rfl⟩ rfl ?_, rfl⟩
          intro other different
          cases other <;> first | rfl | exact absurd rfl different

theorem addEvents (sound : Sound source content) (getter : Getter)
    (isEvents : LazyBlockContent.IsEventGetter getter) {events : List TendermintEvent}
    (right : ∀ wrapped idxOffset,
      wrapBlockBeginAndEndEvents source.api source.block events idxOffset = .ok wrapped →
        Gives source getter (.events wrapped)) :
    Sound source (LazyBlockContent.after (LazyBlockContent.mapReading Content.events
      (match wrapBlockBeginAndEndEvents source.api source.block events content.eventIdx with
      | .error error => .error error content
      | .ok events => .ok events (content.addEvents events getter)))) := by
  cases wrapped : wrapBlockBeginAndEndEvents source.api source.block events content.eventIdx with
  | error error => exact sound
  | ok list =>
      refine sound.fill getter (.events list) (right list _ wrapped)
        (LazyBlockContent.cached_addEvents_self content list isEvents) fun other different => ?_
      exact LazyBlockContent.cached_addEvents_of_ne content list different

/-- Reading any getter keeps the content sound. -/
theorem read (sound : Sound source content) (getter : Getter) :
    Sound source (LazyBlockContent.after (content.read source getter)) := by
  cases getter with
  | block => exact sound.block.2
  | transactions =>
      obtain ⟨after, soundAfter, outcome⟩ := sound.transactions
      simp only [LazyBlockContent.read, outcome]
      cases wrapTx source.api source.block source.results.results <;> exact soundAfter
  | messages =>
      obtain ⟨after, soundAfter, outcome⟩ := sound.messages
      simp only [LazyBlockContent.read, outcome]
      cases wrapTx source.api source.block source.results.results >>=
        wrapMsg source.api source.block <;> exact soundAfter
  | events =>
      obtain ⟨after, idxOffset, soundAfter, outcome⟩ := sound.events
      simp only [LazyBlockContent.read, outcome]
      cases wrapTx source.api source.block source.results.results <;> exact soundAfter
  | beginBlockEvents =>
      rw [LazyBlockContent.read, LazyBlockContent.beginBlockEvents]
      cases content.wrappedBeginBlockEvents with
      | some events => exact sound
      | none =>
          obtain ⟨same, soundBlock⟩ := sound.block
          simp only [same]
          exact soundBlock.addEvents .beginBlockEvents trivial
            fun _ idxOffset wrapped => ⟨idxOffset, wrapped⟩
  | endBlockEvents =>
      rw [LazyBlockContent.read, LazyBlockContent.endBlockEvents]
      cases content.wrappedEndBlockEvents with
      | some events => exact sound
      | none =>
          obtain ⟨same, soundBlock⟩ := sound.block
          simp only [same]
          exact soundBlock.addEvents .endBlockEvents trivial
            fun _ idxOffset wrapped => ⟨idxOffset, wrapped⟩

theorem run (sound : Sound source content) (getters : List Getter) :
    Sound source (LazyBlockContent.run source content getters) := by
  induction getters generalizing content with
  | nil => exact sound
  | cons getter _ ih => exact ih (sound.read getter)

end Sound

/-! ## Alignment -/

/-- Every raw transaction can be hashed and decoded. -/
structure TransactionsDecode (source : BlockSource) : Prop where
  hash : ∀ idx < source.count, ∃ hash, source.hash idx = .ok hash
  decodedTx : ∀ idx < source.count, ∃ raw, source.decodedTx idx = .ok raw

/-- The number of messages of a transaction. -/
def messageCount (tx : CosmosTransaction) : Nat :=
  match tx.decodedTx with
  | .error _ => 0
  | .ok raw => raw.body.messages.length

/-- The logs of a transaction, none where its raw log cannot be parsed. -/
def parsedLogs (api : Codec) (tx : CosmosTransaction) : List Log :=
  (api.parseRawLog tx.tx.log).toOption.getD []

/-- The transactions, messages and events of a block line up with its results, its raw bytes and its
logs. -/
structure Aligned (source : BlockSource) (txs : List CosmosTransaction)
    (msgs : List CosmosMessage) (events : List CosmosEvent) : Prop where
  /-- There is one transaction for every result. -/
  positions : txs.map CosmosTransaction.idx = List.range source.count
  /-- Each carries the result and decodes the bytes at its position. -/
  contents : ∀ tx ∈ txs, ∃ bytes,
    source.results.results[tx.idx]? = some tx.tx ∧
      source.blockInfo.block.txs[tx.idx]? = some bytes ∧
        txHash source.api (some bytes) = .ok tx.hash ∧
          tx.decodedTx = source.api.decodeTxRaw (some bytes)
  /-- Every transaction has its messages, numbered from zero. -/
  messages : msgs.map (fun msg : CosmosMessage => (msg.tx, msg.idx)) =
    txs.flatMap fun tx => (List.range (messageCount tx)).map fun idx => (tx, idx)
  /-- The events are those of the logs, in order and without omission. -/
  logged : events.map (fun event => (event.tx, event.log, event.event)) =
    txs.flatMap fun tx => (parsedLogs source.api tx).flatMap fun log =>
      log.events.map fun event => (some tx, some log, event)
  /-- An event has the message its own log names, if the transaction has that message. -/
  named : ∀ event ∈ events, ∃ tx ∈ txs, ∃ log, event.tx = some tx ∧ event.log = some log ∧
    (event.msg.isSome ↔ log.msgIndex < messageCount tx) ∧
      ∀ msg ∈ event.msg, msg.tx = tx ∧ msg.idx = log.msgIndex

theorem aligned_messages (api : Codec) (block : CosmosBlock) {txs : List CosmosTransaction}
    (decode : ∀ tx ∈ txs, ∃ raw, tx.decodedTx = .ok raw) :
    (txs.flatMap (txMessages api block)).map (fun msg => (msg.tx, msg.idx)) =
      txs.flatMap fun tx => (List.range (messageCount tx)).map fun idx => (tx, idx) := by
  rw [List.map_flatMap]
  refine List.flatMap_congr fun tx member => ?_
  obtain ⟨raw, decoded⟩ := decode tx member
  rw [messageCount, decoded, ← (txMessages_of_decoded api block decoded).1, List.map_map]
  refine List.map_congr_left fun msg listed => ?_
  rw [tx_of_mem_txMessages listed]
  rfl

theorem aligned_events (api : Codec) (block : CosmosBlock) (txs : List CosmosTransaction)
    (idxOffset : Nat) :
    (wrapEvent api block txs idxOffset).map (fun event => (event.tx, event.log, event.event)) =
      txs.flatMap fun tx => (parsedLogs api tx).flatMap fun log =>
        log.events.map fun event => (some tx, some log, event) := by
  rw [wrapEvent, map_numbered _ fun _ _ => rfl, List.map_flatMap]
  refine List.flatMap_congr fun tx _ => ?_
  rw [txEvents, parsedLogs]
  cases api.parseRawLog tx.tx.log with
  | error error => rfl
  | ok logs =>
      rw [List.map_flatMap]
      refine List.flatMap_congr fun log _ => ?_
      rw [logEvents, List.map_map]
      rfl

theorem aligned_named {api : Codec} {block : CosmosBlock} {txs : List CosmosTransaction}
    {idxOffset : Nat} {event : CosmosEvent} (member : event ∈ wrapEvent api block txs idxOffset) :
    ∃ tx ∈ txs, ∃ log, event.tx = some tx ∧ event.log = some log ∧
      (event.msg.isSome ↔ log.msgIndex < messageCount tx) ∧
        ∀ msg ∈ event.msg, msg.tx = tx ∧ msg.idx = log.msgIndex := by
  obtain ⟨tx, inside, belongs, logs, -, log, -, -, logged, names⟩ := exists_log member
  refine ⟨tx, inside, log, belongs, logged, ?_, fun msg named => ?_⟩
  · rw [names, messageCount]
    cases decoded : tx.decodedTx with
    | error error => simp [wrapCosmosMsg, decoded, bind, Except.bind, Except.toOption]
    | ok raw =>
        rcases Nat.lt_or_ge log.msgIndex raw.body.messages.length with within | outside
        · obtain ⟨msg, wrapped, -⟩ := wrapCosmosMsg_of_lt api block decoded within
          simp [wrapped, Except.toOption, within]
        · simp [wrapCosmosMsg, decoded, bind, Except.bind, Except.toOption, outside]
  · rw [names] at named
    cases wrapped : wrapCosmosMsg api block tx log.msgIndex with
    | error error => simp [wrapped, Except.toOption] at named
    | ok other =>
        obtain rfl : other = msg := by simpa [wrapped, Except.toOption] using named
        exact ⟨(wrapCosmosMsg_ok wrapped).2.1, (wrapCosmosMsg_ok wrapped).1⟩

/-- A fetched block that decodes gives aligned data, whatever has been read before. -/
theorem exists_aligned {source : BlockSource}
    (counts : source.results.results.length = source.blockInfo.block.txs.length)
    (decode : TransactionsDecode source) {content : LazyBlockContent}
    (sound : Sound source content) :
    ∃ txs msgs events, Aligned source txs msgs events ∧
      (∃ after, content.read source .transactions = .ok (.transactions txs) after) ∧
        (∃ after, content.read source .messages = .ok (.messages msgs) after) ∧
          ∃ after, content.read source .events = .ok (.events events) after := by
  obtain ⟨txs, hashed⟩ : ∃ txs,
      wrapTx source.api source.block source.results.results = .ok txs :=
    exists_wrapTx decode.hash
  obtain ⟨positions, contents⟩ := wrapTx_ok hashed
  have inside : ∀ tx ∈ txs, tx.idx < source.count := by
    intro tx member
    rw [← List.mem_range, BlockSource.count, ← positions]
    exact List.mem_map_of_mem member
  have decoded : ∀ tx ∈ txs, ∃ raw, tx.decodedTx = .ok raw := by
    intro tx member
    rw [(contents tx member).2.2]
    exact decode.decodedTx tx.idx (inside tx member)
  have wrapped : wrapMsg source.api source.block txs =
      .ok (txs.flatMap (txMessages source.api source.block)) :=
    wrapMsg_eq_ok_iff.mpr ⟨decoded, rfl⟩
  obtain ⟨afterTxs, -, readTxs⟩ := sound.transactions
  obtain ⟨afterMsgs, -, readMsgs⟩ := sound.messages
  obtain ⟨afterEvents, idxOffset, -, readEvents⟩ := sound.events
  refine ⟨txs, txs.flatMap (txMessages source.api source.block),
    wrapEvent source.api source.block txs idxOffset, ?_, ⟨afterTxs, ?_⟩, ⟨afterMsgs, ?_⟩,
    ⟨afterEvents, ?_⟩⟩
  case refine_2 => rw [LazyBlockContent.read, readTxs, hashed]; rfl
  case refine_3 =>
    rw [LazyBlockContent.read, readMsgs, bind_eq_ok.mpr ⟨txs, hashed, wrapped⟩]
    rfl
  case refine_4 => rw [LazyBlockContent.read, readEvents, hashed]; rfl
  refine ⟨positions, fun tx member => ?_, aligned_messages _ _ decoded, aligned_events _ _ _ _,
    fun event => aligned_named⟩
  have within : tx.idx < source.blockInfo.block.txs.length := counts ▸ inside tx member
  have found := List.getElem?_eq_getElem within
  obtain ⟨result, hash, decodes⟩ := contents tx member
  exact ⟨_, result, found, found ▸ hash, found ▸ decodes⟩

/-- Fetching a batch fails, or gives the contents for its heights in order; and in each content that
decodes the transactions, messages and events are aligned, whatever getters have been read before. -/
theorem fetched_aligned (api : Codec) (blockArray : List HeightRequest) :
    match fetchHeights api blockArray with
    | .error _ => True
    | .ok sources =>
        List.Forall₂ (FetchedContent api) blockArray sources ∧
          ∀ source ∈ sources, TransactionsDecode source → ∀ before,
            let content := LazyBlockContent.run source {} before
            ∃ txs msgs events, Aligned source txs msgs events ∧
              (∃ after, content.read source .transactions = .ok (.transactions txs) after) ∧
                (∃ after, content.read source .messages = .ok (.messages msgs) after) ∧
                  ∃ after, content.read source .events = .ok (.events events) after := by
  cases outcome : fetchHeights api blockArray with
  | error error => trivial
  | ok sources =>
      have fetched := fetched_of_fetchHeights outcome
      refine ⟨fetched, fun source member decode before => ?_⟩
      obtain ⟨position, rfl⟩ := List.get_of_mem member
      obtain ⟨lengths, each⟩ := List.forall₂_iff_get.mp fetched
      have within : position.val < blockArray.length := by
        rw [lengths]
        exact position.isLt
      have counts := (each position within position.isLt).counts
      exact exists_aligned counts decode (Sound.initial.run before)

/-- A block of one transfer. -/
def oneTransfer : BlockSource := sendBlock [{ code := 0, log := some (sendLog 1), events := [] }]

theorem fetched_aligned_one_transfer :
    fetchHeights sendCodec
        [{ height := 7, blockInfo := .ok oneTransfer.blockInfo,
           blockResults := .ok oneTransfer.results }] = .ok [oneTransfer] ∧
      ∃ txs msgs events, Aligned oneTransfer txs msgs events ∧ txs.length = 1 := by
  have outcome : fetchHeights sendCodec
      [{ height := 7, blockInfo := .ok oneTransfer.blockInfo,
         blockResults := .ok oneTransfer.results }] = .ok [oneTransfer] := rfl
  have decode : TransactionsDecode oneTransfer := by
    have only {idx : Nat} (inside : idx < oneTransfer.count) : idx = 0 := Nat.lt_one_iff.mp inside
    refine ⟨fun idx inside => ?_, fun idx inside => ?_⟩
    · obtain rfl := only inside
      exact ⟨_, rfl⟩
    · obtain rfl := only inside
      exact ⟨_, rfl⟩
  have fetched := fetched_aligned sendCodec
    [{ height := 7, blockInfo := .ok oneTransfer.blockInfo,
       blockResults := .ok oneTransfer.results }]
  rw [outcome] at fetched
  obtain ⟨txs, msgs, events, aligned, -⟩ :=
    fetched.2 oneTransfer List.mem_cons_self decode []
  refine ⟨outcome, txs, msgs, events, aligned, ?_⟩
  have lengths := congrArg List.length aligned.positions
  rw [List.length_map, List.length_range] at lengths
  exact lengths

end SubqlCosmos
