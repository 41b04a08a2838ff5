import SubqlCosmos.Wrapping

/-!
# Lazy block contents

The class `LazyBlockContent` of `utils/cosmos.ts`: six getters that fill a cache when they are first
read, and one counter the event lists take their positions from.
-/

namespace SubqlCosmos

open Js

/-! ## The state and its getters -/

/-- What a lazy block content is made from. -/
structure BlockSource where
  blockInfo : BlockResponse
  results : BlockResultsResponse
  api : Codec

/-- The caches and the event counter. -/
structure LazyBlockContent where
  wrappedBlock : Option CosmosBlock := none
  wrappedTransaction : Option (List CosmosTransaction) := none
  wrappedMessage : Option (List CosmosMessage) := none
  wrappedEvent : Option (List CosmosEvent) := none
  wrappedBeginBlockEvents : Option (List CosmosEvent) := none
  wrappedEndBlockEvents : Option (List CosmosEvent) := none
  eventIdx : Nat := 0

/-- What reading a getter gives: a value or an error, and the state it leaves behind. -/
abbrev Reading (α : Type) := EStateM.Result Error LazyBlockContent α

/-- The six getters. -/
inductive Getter
  | block
  | transactions
  | messages
  | events
  | beginBlockEvents
  | endBlockEvents
deriving DecidableEq, Repr

/-- The value of a getter. -/
inductive Content
  | block (block : CosmosBlock)
  | transactions (transactions : List CosmosTransaction)
  | messages (messages : List CosmosMessage)
  | events (events : List CosmosEvent)

namespace LazyBlockContent

variable (source : BlockSource)

/-- `get block`, which cannot fail. -/
def block (content : LazyBlockContent) : CosmosBlock × LazyBlockContent :=
  match content.wrappedBlock with
  | some block => (block, content)
  | none =>
      let block := wrapBlock source.blockInfo source.results.results
      (block, { content with wrappedBlock := some block })

/-- `get transactions`. -/
def transactions (content : LazyBlockContent) : Reading (List CosmosTransaction) :=
  match content.wrappedTransaction with
  | some transactions => .ok transactions content
  | none =>
      let (block, content) := content.block source
      match wrapTx source.api block source.results.results with
      | .error error => .error error content
      | .ok transactions =>
          .ok transactions { content with wrappedTransaction := some transactions }

/-- `get messages`. -/
def messages (content : LazyBlockContent) : Reading (List CosmosMessage) :=
  match content.wrappedMessage with
  | some messages => .ok messages content
  | none =>
      let (block, content) := content.block source
      match content.transactions source with
      | .error error content => .error error content
      | .ok transactions content =>
          match wrapMsg source.api block transactions with
          | .error error => .error error content
          | .ok messages => .ok messages { content with wrappedMessage := some messages }

/-- `get events`. -/
def events (content : LazyBlockContent) : Reading (List CosmosEvent) :=
  match content.wrappedEvent with
  | some events => .ok events content
  | none =>
      let (block, content) := content.block source
      match content.transactions source with
      | .error error content => .error error content
      | .ok transactions content =>
          let events := wrapEvent source.api block transactions content.eventIdx
          .ok events
            { content with
              wrappedEvent := some events
              eventIdx := content.eventIdx + events.length }

/-- `get beginBlockEvents`. -/
def beginBlockEvents (content : LazyBlockContent) : Reading (List CosmosEvent) :=
  match content.wrappedBeginBlockEvents with
  | some events => .ok events content
  | none =>
      let (block, content) := content.block source
      match wrapBlockBeginAndEndEvents source.api block source.results.beginBlockEvents
        content.eventIdx with
      | .error error => .error error content
      | .ok events =>
          .ok events
            { content with
              wrappedBeginBlockEvents := some events
              eventIdx := content.eventIdx + events.length }

/-- `get endBlockEvents`. -/
def endBlockEvents (content : LazyBlockContent) : Reading (List CosmosEvent) :=
  match content.wrappedEndBlockEvents with
  | some events => .ok events content
  | none =>
      let (block, content) := content.block source
      match wrapBlockBeginAndEndEvents source.api block source.results.endBlockEvents
        content.eventIdx with
      | .error error => .error error content
      | .ok events =>
          .ok events
            { content with
              wrappedEndBlockEvents := some events
              eventIdx := content.eventIdx + events.length }

/-- The value of a reading under a name. -/
def mapReading {α β : Type} (f : α → β) : Reading α → Reading β
  | .ok value content => .ok (f value) content
  | .error error content => .error error content

/-- Reading one of the getters. -/
def read (content : LazyBlockContent) : Getter → Reading Content
  | .block => let (block, content) := content.block source; .ok (.block block) content
  | .transactions => mapReading .transactions (content.transactions source)
  | .messages => mapReading .messages (content.messages source)
  | .events => mapReading .events (content.events source)
  | .beginBlockEvents => mapReading .events (content.beginBlockEvents source)
  | .endBlockEvents => mapReading .events (content.endBlockEvents source)

/-- The state after a reading, whether it failed or not. -/
def after {α : Type} : Reading α → LazyBlockContent
  | .ok _ content => content
  | .error _ content => content

/-- The state after reading getters in order, going on after failures. -/
def run (content : LazyBlockContent) (getters : List Getter) : LazyBlockContent :=
  getters.foldl (fun content getter => after (content.read source getter)) content

/-- The cached value of a getter. -/
def cached (content : LazyBlockContent) : Getter → Option Content
  | .block => content.wrappedBlock.map .block
  | .transactions => content.wrappedTransaction.map .transactions
  | .messages => content.wrappedMessage.map .messages
  | .events => content.wrappedEvent.map .events
  | .beginBlockEvents => content.wrappedBeginBlockEvents.map .events
  | .endBlockEvents => content.wrappedEndBlockEvents.map .events

/-- The event lists built so far. -/
def eventLists (content : LazyBlockContent) : List (List CosmosEvent) :=
  content.wrappedBeginBlockEvents.toList ++ content.wrappedEvent.toList ++
    content.wrappedEndBlockEvents.toList

/-- A new event list goes into its cache and the counter past its end. -/
def addEvents (content : LazyBlockContent) (events : List CosmosEvent) :
    Getter → LazyBlockContent
  | .events =>
      { content with wrappedEvent := some events, eventIdx := content.eventIdx + events.length }
  | .beginBlockEvents =>
      { content with
        wrappedBeginBlockEvents := some events
        eventIdx := content.eventIdx + events.length }
  | .endBlockEvents =>
      { content with
        wrappedEndBlockEvents := some events
        eventIdx := content.eventIdx + events.length }
  | _ => content

/-- The getter gives a list of events. -/
def IsEventGetter : Getter → Prop
  | .events | .beginBlockEvents | .endBlockEvents => True
  | _ => False

/-! ## What one reading can do -/

/-- The second state has the event lists and the counter of the first, and whatever else the first
has cached. -/
structure Keeps (before after : LazyBlockContent) : Prop where
  wrappedEvent : after.wrappedEvent = before.wrappedEvent
  wrappedBeginBlockEvents : after.wrappedBeginBlockEvents = before.wrappedBeginBlockEvents
  wrappedEndBlockEvents : after.wrappedEndBlockEvents = before.wrappedEndBlockEvents
  eventIdx : after.eventIdx = before.eventIdx
  cached : ∀ getter value, before.cached getter = some value → after.cached getter = some value

theorem Keeps.refl (content : LazyBlockContent) : Keeps content content :=
  ⟨rfl, rfl, rfl, rfl, fun _ _ => id⟩

theorem Keeps.trans {first second third : LazyBlockContent} (before : Keeps first second)
    (next : Keeps second third) : Keeps first third where
  wrappedEvent := next.wrappedEvent.trans before.wrappedEvent
  wrappedBeginBlockEvents := next.wrappedBeginBlockEvents.trans before.wrappedBeginBlockEvents
  wrappedEndBlockEvents := next.wrappedEndBlockEvents.trans before.wrappedEndBlockEvents
  eventIdx := next.eventIdx.trans before.eventIdx
  cached getter value held := next.cached getter value (before.cached getter value held)

/-- A cache that was empty may be filled on top. -/
theorem Keeps.fill {before filled after : LazyBlockContent} (keeps : Keeps before filled)
    (getter : Getter) (empty : before.cached getter = none)
    (same : after.wrappedEvent = filled.wrappedEvent ∧
      after.wrappedBeginBlockEvents = filled.wrappedBeginBlockEvents ∧
        after.wrappedEndBlockEvents = filled.wrappedEndBlockEvents ∧
          after.eventIdx = filled.eventIdx)
    (others : ∀ other, other ≠ getter → after.cached other = filled.cached other) :
    Keeps before after where
  wrappedEvent := same.1.trans keeps.wrappedEvent
  wrappedBeginBlockEvents := same.2.1.trans keeps.wrappedBeginBlockEvents
  wrappedEndBlockEvents := same.2.2.1.trans keeps.wrappedEndBlockEvents
  eventIdx := same.2.2.2.trans keeps.eventIdx
  cached other value held := by
    have different : other ≠ getter := by
      rintro rfl
      rw [empty] at held
      exact absurd held (by simp)
    rw [others other different]
    exact keeps.cached other value held

theorem keeps_block (content : LazyBlockContent) :
    Keeps content (content.block source).2 ∧
      (content.block source).2.wrappedBlock = some (content.block source).1 := by
  unfold block
  cases held : content.wrappedBlock with
  | some block => exact ⟨Keeps.refl content, held⟩
  | none =>
      refine ⟨(Keeps.refl content).fill .block (by simp [cached, held]) ⟨rfl, rfl, rfl, rfl⟩
        fun other different => ?_, rfl⟩
      cases other <;> first | rfl | exact absurd rfl different

/-- Reading the transactions gives them and caches them, or fails; no event list changes. -/
theorem transactions_cases (content : LazyBlockContent) :
    (∃ transactions after, content.transactions source = .ok transactions after ∧
        Keeps content after ∧ after.wrappedTransaction = some transactions) ∨
      ∃ error after, content.transactions source = .error error after ∧ Keeps content after := by
  unfold transactions
  cases held : content.wrappedTransaction with
  | some transactions => exact Or.inl ⟨transactions, content, rfl, Keeps.refl content, held⟩
  | none =>
      have keeps := (keeps_block source content).1
      cases wrapped : wrapTx source.api (content.block source).1 source.results.results with
      | error error => exact Or.inr ⟨error, _, by simp only [wrapped], keeps⟩
      | ok transactions =>
          refine Or.inl ⟨transactions, _, by simp only [wrapped]; rfl, ?_, rfl⟩
          refine keeps.fill .transactions (by simp [cached, held]) ⟨rfl, rfl, rfl, rfl⟩
            fun other different => ?_
          cases other <;> first | rfl | exact absurd rfl different

/-- Reading the messages gives them and caches them, or fails; no event list changes. -/
theorem messages_cases (content : LazyBlockContent) :
    (∃ messages after, content.messages source = .ok messages after ∧
        Keeps content after ∧ after.wrappedMessage = some messages) ∨
      ∃ error after, content.messages source = .error error after ∧ Keeps content after := by
  unfold messages
  cases held : content.wrappedMessage with
  | some messages => exact Or.inl ⟨messages, content, rfl, Keeps.refl content, held⟩
  | none =>
      have keeps := (keeps_block source content).1
      rcases transactions_cases source (content.block source).2 with
        ⟨transactions, after, read, keepsAfter, -⟩ | ⟨error, after, read, keepsAfter⟩
      · cases wrapped : wrapMsg source.api (content.block source).1 transactions with
        | error error =>
            exact Or.inr ⟨error, after, by simp only [read, wrapped], keeps.trans keepsAfter⟩
        | ok messages =>
            refine Or.inl ⟨messages, _, by simp only [read, wrapped]; rfl, ?_, rfl⟩
            refine (keeps.trans keepsAfter).fill .messages (by simp [cached, held])
              ⟨rfl, rfl, rfl, rfl⟩ fun other different => ?_
            cases other <;> first | rfl | exact absurd rfl different
      · exact Or.inr ⟨error, after, by simp only [read], keeps.trans keepsAfter⟩

/-- Reading a getter gives what its cache then holds and changes no event list; or it builds an
event list, numbered from the counter on; or it fails and changes no event list. -/
inductive Step (content : LazyBlockContent) (getter : Getter) : Reading Content → Prop
  | kept (value : Content) (after : LazyBlockContent) (keeps : Keeps content after)
      (held : after.cached getter = some value) :
      Step content getter (.ok value after)
  | built (raw : List CosmosEvent) (filled : LazyBlockContent) (keeps : Keeps content filled)
      (empty : content.cached getter = none) (isEvents : IsEventGetter getter) :
      Step content getter
        (.ok (.events (numbered content.eventIdx raw))
          (filled.addEvents (numbered content.eventIdx raw) getter))
  | failed (error : Error) (filled : LazyBlockContent) (keeps : Keeps content filled) :
      Step content getter (.error error filled)

theorem events_step (content : LazyBlockContent) :
    Step content .events (mapReading .events (content.events source)) := by
  unfold events
  cases held : content.wrappedEvent with
  | some events => exact .kept _ content (Keeps.refl content) (by simp [cached, held])
  | none =>
      have keeps := (keeps_block source content).1
      rcases transactions_cases source (content.block source).2 with
        ⟨transactions, after, read, keepsAfter, -⟩ | ⟨error, after, read, keepsAfter⟩
      · have sameIdx : after.eventIdx = content.eventIdx := (keeps.trans keepsAfter).eventIdx
        simp only [read, wrapEvent, sameIdx]
        have built : Step content .events _ :=
          .built (transactions.flatMap (txEvents source.api (content.block source).1)) after
            (keeps.trans keepsAfter) (by simp [cached, held]) trivial
        simpa only [addEvents, sameIdx, mapReading] using built
      · simp only [read]
        exact .failed error after (keeps.trans keepsAfter)

theorem wrapped_step {content filled : LazyBlockContent} (keeps : Keeps content filled)
    (getter : Getter) (empty : content.cached getter = none) (isEvents : IsEventGetter getter)
    (block : CosmosBlock) (events : List TendermintEvent) :
    Step content getter
      (mapReading .events
        (match wrapBlockBeginAndEndEvents source.api block events filled.eventIdx with
        | .error error => .error error filled
        | .ok events => .ok events (filled.addEvents events getter))) := by
  rw [keeps.eventIdx]
  cases wrapped : wrapBlockBeginAndEndEvents source.api block events content.eventIdx with
  | error error => exact .failed error filled keeps
  | ok list =>
      obtain ⟨raw, rfl⟩ := wrapBlockBeginAndEndEvents_numbered wrapped
      exact .built raw filled keeps empty isEvents

theorem beginBlockEvents_step (content : LazyBlockContent) :
    Step content .beginBlockEvents (mapReading .events (content.beginBlockEvents source)) := by
  unfold beginBlockEvents
  cases held : content.wrappedBeginBlockEvents with
  | some events => exact .kept _ content (Keeps.refl content) (by simp [cached, held])
  | none =>
      have keeps := (keeps_block source content).1
      exact wrapped_step source keeps .beginBlockEvents (by simp [cached, held]) trivial _ _

theorem endBlockEvents_step (content : LazyBlockContent) :
    Step content .endBlockEvents (mapReading .events (content.endBlockEvents source)) := by
  unfold endBlockEvents
  cases held : content.wrappedEndBlockEvents with
  | some events => exact .kept _ content (Keeps.refl content) (by simp [cached, held])
  | none =>
      have keeps := (keeps_block source content).1
      exact wrapped_step source keeps .endBlockEvents (by simp [cached, held]) trivial _ _

/-- What reading any getter can do. -/
theorem read_step (content : LazyBlockContent) (getter : Getter) :
    Step content getter (content.read source getter) := by
  cases getter with
  | block =>
      have ⟨keeps, held⟩ := keeps_block source content
      exact .kept _ _ keeps (congrArg (Option.map Content.block) held)
  | transactions =>
      rcases transactions_cases source content with
        ⟨transactions, after, read, keeps, held⟩ | ⟨error, after, read, keeps⟩
      · simp only [LazyBlockContent.read, read]
        exact .kept _ after keeps (by simp [cached, held])
      · simp only [LazyBlockContent.read, read]
        exact .failed error after keeps
  | messages =>
      rcases messages_cases source content with
        ⟨messages, after, read, keeps, held⟩ | ⟨error, after, read, keeps⟩
      · simp only [LazyBlockContent.read, read]
        exact .kept _ after keeps (by simp [cached, held])
      · simp only [LazyBlockContent.read, read]
        exact .failed error after keeps
  | events => exact events_step source content
  | beginBlockEvents => exact beginBlockEvents_step source content
  | endBlockEvents => exact endBlockEvents_step source content

/-! ## Cached values stay -/

theorem cached_addEvents_self (content : LazyBlockContent) (events : List CosmosEvent)
    {getter : Getter} (isEvents : IsEventGetter getter) :
    (content.addEvents events getter).cached getter = some (.events events) := by
  cases getter <;> first | rfl | exact absurd isEvents id

theorem cached_addEvents_of_ne (content : LazyBlockContent) (events : List CosmosEvent)
    {getter other : Getter} (different : other ≠ getter) :
    (content.addEvents events getter).cached other = content.cached other := by
  cases getter <;> cases other <;> first | rfl | exact absurd rfl different

theorem read_of_cached {content : LazyBlockContent} {getter : Getter} {value : Content}
    (held : content.cached getter = some value) :
    content.read source getter = .ok value content := by
  cases getter <;> (
    obtain ⟨_, filled, rfl⟩ := Option.map_eq_some_iff.mp held
    simp [read, block, transactions, messages, events, beginBlockEvents, endBlockEvents, filled,
      mapReading])

/-- No reading empties or changes a filled cache. -/
theorem Step.cached {content : LazyBlockContent} {getter other : Getter} {value : Content}
    {reading : Reading Content} (step : Step content getter reading)
    (held : content.cached other = some value) : (after reading).cached other = some value := by
  cases step with
  | kept _ _ keeps _ => exact keeps.cached other value held
  | failed _ _ keeps => exact keeps.cached other value held
  | built raw filled keeps empty _ =>
      have different : other ≠ getter := by
        rintro rfl
        rw [empty] at held
        exact absurd held (by simp)
      exact (cached_addEvents_of_ne filled _ different).trans (keeps.cached other value held)

/-- No sequence of readings does. -/
theorem cached_run {content : LazyBlockContent} {getter : Getter} {value : Content}
    (held : content.cached getter = some value) (getters : List Getter) :
    (run source content getters).cached getter = some value := by
  induction getters generalizing content with
  | nil => exact held
  | cons next _ ih => exact ih ((read_step source content next).cached held)

theorem cached_of_read {content after : LazyBlockContent} {getter : Getter} {value : Content}
    (outcome : content.read source getter = .ok value after) :
    after.cached getter = some value := by
  have step := read_step source content getter
  rw [outcome] at step
  cases step with
  | kept _ _ _ held => exact held
  | built raw filled _ _ isEvents => exact cached_addEvents_self filled _ isEvents

/-! ## Positions -/

/-- The positions of the events built so far are those below the counter, each once, and every list
has consecutive ones. -/
structure Numbered (content : LazyBlockContent) : Prop where
  positions :
    (content.eventLists.flatten.map CosmosEvent.idx).Perm (List.range content.eventIdx)
  consecutive : ∀ list ∈ content.eventLists, Consecutive list

theorem Keeps.eventLists {before after : LazyBlockContent} (keeps : Keeps before after) :
    after.eventLists = before.eventLists := by
  simp only [LazyBlockContent.eventLists, keeps.wrappedEvent, keeps.wrappedBeginBlockEvents,
    keeps.wrappedEndBlockEvents]

theorem Keeps.keepsNumbered {before after : LazyBlockContent} (keeps : Keeps before after)
    (held : Numbered before) : Numbered after :=
  ⟨by rw [keeps.eventLists, keeps.eventIdx]; exact held.positions,
    by rw [keeps.eventLists]; exact held.consecutive⟩

theorem numbered_initial : Numbered {} :=
  ⟨List.Perm.nil, fun _ => nofun⟩

/-- A list stored in an empty cache joins the lists built so far. -/
theorem eventLists_addEvents {content : LazyBlockContent} {getter : Getter}
    (isEvents : IsEventGetter getter) (empty : content.cached getter = none)
    (events : List CosmosEvent) :
    (content.addEvents events getter).eventLists.Perm (events :: content.eventLists) := by
  cases getter with
  | block | transactions | messages => exact absurd isEvents id
  | beginBlockEvents =>
      have unfilled : content.wrappedBeginBlockEvents = none := Option.map_eq_none_iff.mp empty
      simp [eventLists, addEvents, unfilled]
  | events =>
      have unfilled : content.wrappedEvent = none := Option.map_eq_none_iff.mp empty
      simp [eventLists, addEvents, unfilled]
  | endBlockEvents =>
      have unfilled : content.wrappedEndBlockEvents = none := Option.map_eq_none_iff.mp empty
      simpa only [eventLists, addEvents, unfilled, Option.toList_some, Option.toList_none,
        List.append_nil] using List.perm_append_singleton events _

theorem eventIdx_addEvents (content : LazyBlockContent) (events : List CosmosEvent)
    {getter : Getter} (isEvents : IsEventGetter getter) :
    (content.addEvents events getter).eventIdx = content.eventIdx + events.length := by
  cases getter <;> first | rfl | exact absurd isEvents id

theorem Keeps.cached_events {before after : LazyBlockContent} (keeps : Keeps before after)
    {getter : Getter} (isEvents : IsEventGetter getter) :
    after.cached getter = before.cached getter := by
  cases getter with
  | block | transactions | messages => exact absurd isEvents id
  | events => exact congrArg (Option.map Content.events) keeps.wrappedEvent
  | beginBlockEvents => exact congrArg (Option.map Content.events) keeps.wrappedBeginBlockEvents
  | endBlockEvents => exact congrArg (Option.map Content.events) keeps.wrappedEndBlockEvents

/-- A list numbered from the counter on joins the others. -/
theorem numbered_addEvents {content : LazyBlockContent} {getter : Getter}
    (isEvents : IsEventGetter getter) (empty : content.cached getter = none)
    (held : Numbered content) (raw : List CosmosEvent) :
    Numbered (content.addEvents (numbered content.eventIdx raw) getter) := by
  have lists := eventLists_addEvents isEvents empty (numbered content.eventIdx raw)
  constructor
  · rw [eventIdx_addEvents content _ isEvents, length_numbered]
    have added := lists.flatten.map CosmosEvent.idx
    rw [List.flatten_cons, List.map_append, idx_numbered] at added
    have joined :
        List.range content.eventIdx ++ List.range' content.eventIdx raw.length =
          List.range (content.eventIdx + raw.length) := by
      have adjacent := @List.range'_append_1 0 content.eventIdx raw.length
      rwa [Nat.zero_add, ← List.range_eq_range', ← List.range_eq_range'] at adjacent
    rw [← joined]
    exact added.trans ((held.positions.append_left _).trans List.perm_append_comm)
  · intro list member
    rcases List.mem_cons.mp (lists.mem_iff.mp member) with rfl | old
    · exact consecutive_numbered _ raw
    · exact held.consecutive list old

/-- A reading keeps the numbering, failures included. -/
theorem Step.keepsNumbered {content : LazyBlockContent} {getter : Getter}
    {reading : Reading Content} (step : Step content getter reading) (held : Numbered content) :
    Numbered (after reading) := by
  cases step with
  | kept _ _ keeps _ => exact keeps.keepsNumbered held
  | failed _ _ keeps => exact keeps.keepsNumbered held
  | built raw filled keeps empty isEvents =>
      have emptyFilled : filled.cached getter = none := (keeps.cached_events isEvents).trans empty
      rw [← keeps.eventIdx]
      exact numbered_addEvents isEvents emptyFilled (keeps.keepsNumbered held) raw

/-- So does every sequence of readings. -/
theorem numbered_run {content : LazyBlockContent} (held : Numbered content)
    (getters : List Getter) : Numbered (run source content getters) := by
  induction getters generalizing content with
  | nil => exact held
  | cons next _ ih => exact ih ((read_step source content next).keepsNumbered held)

/-- Whatever has been read before: the events built so far are numbered without gap or overlap, a
reading that throws changes no event list, and what a getter has given it gives ever after. -/
theorem events_numbered (before : List Getter) :
    let content := run source {} before
    Numbered content ∧
      ∀ getter,
        match content.read source getter with
        | .error _ after =>
            after.eventIdx = content.eventIdx ∧
              after.wrappedBeginBlockEvents = content.wrappedBeginBlockEvents ∧
                after.wrappedEvent = content.wrappedEvent ∧
                  after.wrappedEndBlockEvents = content.wrappedEndBlockEvents
        | .ok value after =>
            ∀ later,
              (run source after later).read source getter =
                .ok value (run source after later) := by
  intro content
  refine ⟨numbered_run source numbered_initial before, fun getter => ?_⟩
  have step := read_step source content getter
  cases outcome : content.read source getter with
  | error error after =>
      rw [outcome] at step
      cases step with
      | failed _ _ keeps =>
          exact ⟨keeps.eventIdx, keeps.wrappedBeginBlockEvents, keeps.wrappedEvent,
            keeps.wrappedEndBlockEvents⟩
  | ok value after =>
      intro later
      exact read_of_cached source (cached_run source (cached_of_read source outcome) later)

end LazyBlockContent
end SubqlCosmos
