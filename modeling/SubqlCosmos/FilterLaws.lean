import SubqlCosmos.Filters

/-!
# Failed transactions and block schedules

Which calls of the transaction and message filters keep failed transactions out, and what the
timestamp of a block filter means to `filterBlock`.
-/

namespace SubqlCosmos

open Js

/-! ## Failed transactions -/

/-- An empty block. -/
def emptyBlock (height : Nat) (time : Int) : CosmosBlock :=
  let header : Header := { height := height, time := time }
  { blockId := { hash := [] }
    block := { id := "", header := header, txs := [] }
    header := header
    txs := [] }

/-- A transaction of the block at position zero, with the given code. -/
def txWithCode (block : CosmosBlock) (code : Nat) : CosmosTransaction where
  idx := 0
  block := block
  tx := { code := code, log := none, events := [] }
  hash := "AA"
  decodedTx :=
    .ok { body := { messages := [{ typeUrl := "/cosmos.bank.v1beta1.MsgSend", value := [] }] } }

/-- The first message of a transaction, an empty transfer. -/
def transferOf (tx : CosmosTransaction) : CosmosMessage where
  idx := 0
  block := tx.block
  tx := tx
  msg := { typeUrl := "/cosmos.bank.v1beta1.MsgSend", decodedMsg := .ok (.obj []) }

/-- A call of one of the filters that look at a transaction's code. -/
inductive FilterCall
  | filterTx (data : CosmosTransaction) (filter : Option CosmosTxFilter)
  | filterMessageData (data : CosmosMessage) (filter : Option CosmosMessageFilter)
  | filterMessages (messages : List CosmosMessage)
      (filterOrFilters : OneOrMany CosmosMessageFilter)

namespace FilterCall

/-- The call lets a failed transaction, or a message of one, through only where a filter is given
that asks for failed ones. -/
def KeepsFailedOut (prototypes : Prototypes) : FilterCall → Prop
  | filterTx data filter =>
      data.tx.code ≠ 0 → SubqlCosmos.filterTx data filter = true →
        ∃ given, filter = some given ∧ given.IncludesFailed
  | filterMessageData data filter =>
      data.tx.tx.code ≠ 0 → SubqlCosmos.filterMessageData prototypes data filter = .ok true →
        ∃ given, filter = some given ∧ given.IncludesFailed
  | filterMessages messages filterOrFilters =>
      ∀ kept, SubqlCosmos.filterMessages prototypes (some messages) filterOrFilters = .ok kept →
        ∀ data ∈ kept, data.tx.tx.code ≠ 0 →
          ∃ given, some given ∈ filterOrFilters.toList ∧ given.IncludesFailed

/-- The call is about a transaction, or has a filter, or has no failed message to decide about. -/
def Screened : FilterCall → Prop
  | filterTx _ _ => True
  | filterMessageData data filter => filter.isSome ∨ data.tx.tx.code = 0
  | filterMessages messages filterOrFilters =>
      filterOrFilters.isEmpty = false ∨ ∀ data ∈ messages, data.tx.tx.code = 0

end FilterCall

theorem includesFailed_of_accepted {prototypes : Prototypes} {data : CosmosMessage}
    {filter : CosmosMessageFilter} (failed : data.tx.tx.code ≠ 0)
    (accepted : filterMessageData prototypes data (some filter) = .ok true) :
    filter.IncludesFailed := by
  have txAccepted := ((filterMessageData_iff prototypes data filter).mp accepted).1
  rcases (filterTx_iff data.tx (some filter.toCosmosTxFilter)).mp txAccepted with
    succeeded | ⟨given, same, included⟩
  · exact absurd succeeded failed
  · obtain rfl := Option.some.inj same
    exact included

/-- Failed transactions stay out of a call exactly when it is screened: a message handler without a
filter, or with an empty list of filters, receives the messages of failed transactions. -/
theorem keepsFailedOut_iff (prototypes : Prototypes) (call : FilterCall) :
    call.KeepsFailedOut prototypes ↔ call.Screened := by
  cases call with
  | filterTx data filter =>
      refine iff_of_true (fun failed accepted => ?_) trivial
      exact ((filterTx_iff data filter).mp accepted).resolve_left failed
  | filterMessageData data filter =>
      cases filter with
      | none => simp [FilterCall.KeepsFailedOut, FilterCall.Screened, filterMessageData]
      | some filter =>
          refine iff_of_true (fun failed accepted => ?_) (Or.inl rfl)
          exact ⟨filter, rfl, includesFailed_of_accepted failed accepted⟩
  | filterMessages messages filterOrFilters =>
      cases empty : filterOrFilters.isEmpty with
      | false =>
          refine iff_of_true (fun kept outcome data member failed => ?_) (Or.inl empty)
          obtain ⟨filter, inList, accepted⟩ := mem_of_filterAll empty outcome member
          exact ⟨filter, inList, includesFailed_of_accepted failed accepted⟩
      | true =>
          have everything : filterMessages prototypes (some messages) filterOrFilters =
              .ok messages := by
            rw [filterMessages, filterAll, empty, if_pos rfl]
          have noneIncluded : ¬∃ given : CosmosMessageFilter,
              some given ∈ filterOrFilters.toList ∧ given.IncludesFailed := by
            rintro ⟨given, inList, -⟩
            cases filterOrFilters with
            | one filter => cases filter <;> simp_all [OneOrMany.isEmpty, OneOrMany.toList]
            | many filters => cases filters <;> simp_all [OneOrMany.isEmpty, OneOrMany.toList]
          constructor
          · intro keepsOut
            refine Or.inr fun data member => ?_
            by_contra failed
            exact noneIncluded (keepsOut messages everything data member failed)
          · rintro (given | succeeded) kept outcome data member failed
            · simp [empty] at given
            · obtain rfl : messages = kept := Except.ok.inj (everything.symm.trans outcome)
              exact absurd (succeeded data member) failed

theorem unfiltered_handler_receives_failed_message :
    (transferOf (txWithCode (emptyBlock 7 0) 5)).tx.tx.code ≠ 0 ∧
      filterMessageData (fun _ _ => .undefined) (transferOf (txWithCode (emptyBlock 7 0) 5)) none =
        .ok true ∧
      ¬(FilterCall.filterMessageData
        (transferOf (txWithCode (emptyBlock 7 0) 5)) none).KeepsFailedOut
          fun _ _ => .undefined := by
  refine ⟨by decide, rfl, fun keepsOut => ?_⟩
  obtain ⟨given, absent, -⟩ := keepsOut (by decide) rfl
  exact absurd absent (by simp)

/-! ## Block schedules -/

/-- A block filter with a timestamp and the schedule attached for it. -/
structure ScheduledFilter extends CosmosBlockFilter where
  schedule : CronSchedule
  /-- The filter carries a timestamp. -/
  timed : timestamp.isSome
  /-- The schedule is the one attached to the filter. -/
  attached : cronSchedule = some schedule

/-- Blocks in chain order: heights and times increase. -/
def Advancing (blocks : List CosmosBlock) : Prop :=
  blocks.Pairwise fun earlier later =>
    earlier.block.header.height < later.block.header.height ∧
      earlier.block.header.time < later.block.header.time

/-- A time lies between the `n`-th tick and the next one. -/
def CronSchedule.InTick (schedule : CronSchedule) (n : Nat) (time : Int) : Prop :=
  schedule.tick n ≤ time ∧ time < schedule.tick (n + 1)

instance (schedule : CronSchedule) (n : Nat) (time : Int) : Decidable (schedule.InTick n time) :=
  inferInstanceAs (Decidable (_ ∧ _))

namespace ScheduledFilter

/-- Of the blocks the filter accepts, none comes before the first tick and at most one between any
two consecutive ticks. -/
def Honoured (filter : ScheduledFilter) (blocks : List CosmosBlock) : Prop :=
  let accepted := blocks.filter fun block => filterBlock block (some filter.toCosmosBlockFilter)
  (∀ block ∈ accepted, filter.schedule.tick 0 ≤ block.block.header.time) ∧
    ∀ n, (accepted.filter fun block =>
      filter.schedule.InTick n block.block.header.time).length ≤ 1

/-- The height of the block is a multiple of the modulo; without one, or with zero, every height
counts as one. -/
def PassesModulo (filter : ScheduledFilter) (block : CosmosBlock) : Prop :=
  ∀ modulo, filter.modulo = some modulo → modulo ≠ 0 →
    ∃ factor : ℤ, (block.block.header.height : ℚ) = factor * modulo

/-- The modulo alone thins the blocks as the schedule demands. -/
def Thinned (filter : ScheduledFilter) (blocks : List CosmosBlock) : Prop :=
  (∀ block ∈ blocks, filter.PassesModulo block →
      filter.schedule.tick 0 ≤ block.block.header.time) ∧
    blocks.Pairwise fun earlier later => filter.PassesModulo earlier → filter.PassesModulo later →
      ∀ n, ¬(filter.schedule.InTick n earlier.block.header.time ∧
        filter.schedule.InTick n later.block.header.time)

end ScheduledFilter

theorem length_filter_le_one_iff {α : Type} (keeps : α → Bool) (items : List α) :
    (items.filter keeps).length ≤ 1 ↔
      items.Pairwise fun earlier later => ¬(keeps earlier = true ∧ keeps later = true) := by
  induction items with
  | nil => simp
  | cons item items induction =>
      rw [List.pairwise_cons, ← induction]
      by_cases kept : keeps item = true
      · have none_left : items.filter keeps = [] ↔ ∀ other ∈ items, ¬keeps other = true :=
          List.filter_eq_nil_iff
        simp only [List.filter_cons_of_pos kept, List.length_cons, kept, true_and]
        constructor
        · intro short
          have empty : items.filter keeps = [] := List.length_eq_zero_iff.mp (by omega)
          exact ⟨none_left.mp empty, by simp [empty]⟩
        · rintro ⟨others, -⟩
          simp [none_left.mpr others]
      · simp [List.filter_cons_of_neg kept, kept]

/-- A run of blocks honours the schedule exactly when the modulo alone thins it enough. -/
theorem ScheduledFilter.honoured_iff (filter : ScheduledFilter) (blocks : List CosmosBlock) :
    filter.Honoured blocks ↔ filter.Thinned blocks := by
  refine and_congr ?_ ?_
  · simp only [List.mem_filter, filterBlock_iff, PassesModulo, and_imp]
  · simp only [List.filter_filter, length_filter_le_one_iff, Bool.and_eq_true, decide_eq_true_eq,
      filterBlock_iff]
    constructor
    · intro sparse
      rw [List.pairwise_iff_getElem]
      intro i j iBound jBound before iPasses jPasses n ⟨iTick, jTick⟩
      exact List.pairwise_iff_getElem.mp (sparse n) i j iBound jBound before
        ⟨⟨iTick, iPasses⟩, jTick, jPasses⟩
    · intro thinned n
      refine thinned.imp fun apart => ?_
      rintro ⟨⟨earlierTick, earlierPasses⟩, laterTick, laterPasses⟩
      exact apart earlierPasses laterPasses n ⟨earlierTick, laterTick⟩

/-- Every modulo divides some height. -/
theorem ScheduledFilter.exists_passing (filter : ScheduledFilter) (time : Int) :
    ∃ height, 0 < height ∧ filter.PassesModulo (emptyBlock height time) := by
  cases given : filter.modulo with
  | none => exact ⟨1, by omega, fun modulo same => by simp [given] at same⟩
  | some modulo =>
      by_cases zero : modulo = 0
      · refine ⟨1, by omega, fun other same nonzero => ?_⟩
        obtain rfl : modulo = other := by simpa [given] using same
        exact absurd zero nonzero
      · refine ⟨modulo.num.natAbs, Int.natAbs_pos.mpr (Rat.num_ne_zero.mpr zero), ?_⟩
        intro other same _
        obtain rfl : modulo = other := by simpa [given] using same
        refine ⟨modulo.num.sign * modulo.den, ?_⟩
        have magnitude : ((modulo.num.natAbs : ℤ) : ℚ) = modulo.num.sign * modulo.num := by
          rw [← Int.sign_mul_self_eq_natAbs]
          push_cast
          ring
        have whole : (modulo.den : ℚ) * modulo = modulo.num := Rat.den_mul_eq_num modulo
        calc ((emptyBlock modulo.num.natAbs time).block.header.height : ℚ)
            = modulo.num.sign * modulo.num := by rw [← magnitude]; rfl
          _ = modulo.num.sign * (modulo.den * modulo) := by rw [whole]
          _ = ((modulo.num.sign * modulo.den : ℤ) : ℚ) * modulo := by push_cast; ring

/-- `filterBlock` never looks at the schedule: every filter with a timestamp accepts some block
before its first tick, and a run of blocks honours the schedule exactly when the modulo happens to
thin it enough. -/
theorem schedule_ignored (filter : ScheduledFilter) :
    (∃ blocks, Advancing blocks ∧ ¬filter.Honoured blocks) ∧
      ∀ blocks, filter.Honoured blocks ↔ filter.Thinned blocks := by
  refine ⟨?_, filter.honoured_iff⟩
  obtain ⟨height, -, passes⟩ := filter.exists_passing (filter.schedule.tick 0 - 1)
  refine ⟨[emptyBlock height (filter.schedule.tick 0 - 1)], List.pairwise_singleton _ _, ?_⟩
  intro honoured
  have inTime := ((filter.honoured_iff _).mp honoured).1 _ List.mem_cons_self passes
  have early : (emptyBlock height (filter.schedule.tick 0 - 1)).block.header.time <
      filter.schedule.tick 0 := by
    change filter.schedule.tick 0 - 1 < filter.schedule.tick 0
    omega
  omega

/-- A tick at every full minute. -/
def minutes : CronSchedule where
  tick n := 60000 * n
  increasing _ _ before := by simpa using before

/-- A handler that asks for one block a minute. -/
def everyMinute : ScheduledFilter where
  timestamp := some "* * * * *"
  cronSchedule := some minutes
  schedule := minutes
  timed := rfl
  attached := rfl

theorem schedule_ignored_within_a_minute :
    Advancing [emptyBlock 10 6000, emptyBlock 11 12000] ∧
      ¬everyMinute.Honoured [emptyBlock 10 6000, emptyBlock 11 12000] := by
  refine ⟨by simp [Advancing, emptyBlock], ?_⟩
  rintro ⟨-, atMostOne⟩
  have within := atMostOne 0
  simp [filterBlock, everyMinute, minutes, emptyBlock, CronSchedule.InTick] at within

end SubqlCosmos
