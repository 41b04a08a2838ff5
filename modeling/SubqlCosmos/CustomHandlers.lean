import SubqlCosmos.FilterLaws

/-!
# Base filters of custom handlers

`IndexerManager.baseCustomHandlerFilter`, which decides with the base filters of a datasource
processor whether a custom handler is given a block, transaction, message or event.
-/

namespace SubqlCosmos

open Js

/-! ## Base filters -/

/-- Base filters as a processor may declare them: one filter, or a non-empty list of filters. -/
inductive BaseFilters (α : Type)
  | one (filter : α)
  | many (first : α) (rest : List α)

namespace BaseFilters

variable {α : Type}

/-- The filters as a list. -/
def toList : BaseFilters α → List α
  | .one filter => [filter]
  | .many first rest => first :: rest

/-- The filters as an argument of `filterMessages` and `filterEvents`. -/
def toOneOrMany : BaseFilters α → OneOrMany α
  | .one filter => .one (some filter)
  | .many first rest => .many ((first :: rest).map some)

/-- The filters as an argument of a function that expects one filter: an array has none of the
fields of a filter. -/
def asOne (bare : α) : BaseFilters α → α
  | .one filter => filter
  | .many _ _ => bare

end BaseFilters

/-- The arguments of `baseCustomHandlerFilter`; the constructor is the handler kind. -/
inductive BaseCall
  | block (data : CosmosBlock) (baseFilter : BaseFilters CosmosBlockFilter)
  | transaction (data : CosmosTransaction) (baseFilter : BaseFilters CosmosTxFilter)
  | message (data : CosmosMessage) (baseFilter : BaseFilters CosmosMessageFilter)
  | event (data : CosmosEvent) (baseFilter : BaseFilters CosmosEventFilter)

variable (prototypes : Prototypes)

/-- `baseCustomHandlerFilter`. -/
def baseCustomHandlerFilter : BaseCall → Except Error Bool
  | .block data baseFilter => .ok (filterBlock data (some (baseFilter.asOne {})))
  | .transaction data baseFilter => .ok (filterTx data (some (baseFilter.asOne {})))
  | .message data baseFilter => do
      let kept ← filterMessages prototypes (some [data]) baseFilter.toOneOrMany
      return kept.length ≠ 0
  | .event data baseFilter => do
      let kept ← filterEvents prototypes [data] baseFilter.toOneOrMany
      return kept.length ≠ 0

namespace BaseCall

/-- What the function `FilterTypeMap` has for the kind says with each single filter. -/
def verdicts : BaseCall → List (Except Error Bool)
  | .block data baseFilter =>
      baseFilter.toList.map fun filter => .ok (filterBlock data (some filter))
  | .transaction data baseFilter =>
      baseFilter.toList.map fun filter => .ok (filterTx data (some filter))
  | .message data baseFilter =>
      baseFilter.toList.map fun filter => filterMessageData prototypes data (some filter)
  | .event data baseFilter =>
      baseFilter.toList.map fun filter => filterEvent prototypes data (some filter)

/-- The data are accepted exactly when some filter accepts them. -/
def MeansSome (call : BaseCall) : Prop :=
  baseCustomHandlerFilter prototypes call = .ok true ↔ .ok true ∈ call.verdicts prototypes

/-- No filter that throws comes before the first one that accepts. -/
def AcceptsFirst (verdicts : List (Except Error Bool)) : Prop :=
  ∀ before error after, verdicts = before ++ .error error :: after →
    .ok true ∈ after → .ok true ∈ before

/-- One filter is given; or of a list some filter accepts the block, no filter asks for failed
transactions when the transaction failed, or no filter throws before one accepts. -/
def Uniform : BaseCall → Prop
  | .block data (.many first rest) =>
      ∃ filter ∈ first :: rest, filterBlock data (some filter) = true
  | .transaction data (.many first rest) =>
      data.tx.code = 0 ∨ ∀ filter ∈ first :: rest, ¬filter.IncludesFailed
  | .message data (.many first rest) =>
      AcceptsFirst ((first :: rest).map fun filter =>
        filterMessageData prototypes data (some filter))
  | .event data (.many first rest) =>
      AcceptsFirst ((first :: rest).map fun filter => filterEvent prototypes data (some filter))
  | .block _ (.one _) | .transaction _ (.one _) | .message _ (.one _) | .event _ (.one _) => True

end BaseCall

/-! ## Lists of filters -/

theorem acceptsFirst_cons (verdict : Except Error Bool) (verdicts : List (Except Error Bool)) :
    BaseCall.AcceptsFirst (verdict :: verdicts) ↔
      match verdict with
      | .ok true => True
      | .ok false => BaseCall.AcceptsFirst verdicts
      | .error _ => .ok true ∉ verdicts := by
  constructor
  · intro first
    match verdict with
    | .ok true => trivial
    | .ok false =>
        intro before error after split accepted
        have earlier := first (.ok false :: before) error after (by rw [split]; rfl) accepted
        simpa using earlier
    | .error error =>
        intro accepted
        exact absurd (first [] error verdicts rfl accepted) List.not_mem_nil
  · intro condition before error after split accepted
    cases before with
    | nil =>
        obtain ⟨rfl, rfl⟩ := List.cons_eq_cons.mp split
        exact absurd accepted condition
    | cons earlier before =>
        obtain ⟨rfl, rfl⟩ := List.cons_eq_cons.mp split
        match verdict, condition with
        | .ok true, _ => exact List.mem_cons_self
        | .ok false, condition =>
            exact List.mem_cons_of_mem _ (condition before error after rfl accepted)
        | .error thrown, condition =>
            exact absurd (List.mem_append_right _ (List.mem_cons_of_mem _ accepted)) condition

/-- The search finds a filter where one accepts, exactly when none throws before it. -/
theorem findFilter_iff {α : Type} (accepts : Option α → Except Error Bool) (filters : List α) :
    ((findFilter accepts (filters.map some)).map Option.isSome = .ok true ↔
        .ok true ∈ filters.map fun filter => accepts (some filter)) ↔
      BaseCall.AcceptsFirst (filters.map fun filter => accepts (some filter)) := by
  induction filters with
  | nil =>
      have nothing : BaseCall.AcceptsFirst [] := fun before error after split => by simp at split
      refine iff_of_true ?_ nothing
      simp [findFilter, Except.map]
  | cons filter filters ih =>
      rw [List.map_cons, List.map_cons, acceptsFirst_cons, findFilter]
      match accepts (some filter) with
      | .ok true => simp [bind, Except.bind, pure, Except.pure, Except.map]
      | .ok false => simpa [bind, Except.bind] using ih
      | .error error => simp [bind, Except.bind, Except.map]

theorem keep_singleton {β : Type} (accepts : β → Except Error Bool) (datum : β) :
    (do
      let kept ← keep accepts [datum]
      return kept.length ≠ 0 : Except Error Bool) = accepts datum := by
  rw [keep]
  match accepts datum with
  | .ok true => rfl
  | .ok false => rfl
  | .error error => rfl

theorem filterAll_singleton {α β : Type} (accepts : β → Option α → Except Error Bool) (datum : β)
    (baseFilter : BaseFilters α) :
    (do
      let kept ← filterAll accepts [datum] baseFilter.toOneOrMany
      return kept.length ≠ 0 : Except Error Bool) =
      (findFilter (accepts datum) (baseFilter.toList.map some)).map Option.isSome := by
  have given : baseFilter.toOneOrMany.isEmpty = false := by cases baseFilter <;> rfl
  have same : baseFilter.toOneOrMany.toList = baseFilter.toList.map some := by
    cases baseFilter <;> rfl
  rw [filterAll, given, if_neg (by simp), keep_singleton, same]

/-! ## Some filter accepts -/

theorem acceptsFirst_singleton (verdict : Except Error Bool) :
    BaseCall.AcceptsFirst [verdict] := by
  rw [acceptsFirst_cons]
  match verdict with
  | .ok true => trivial
  | .ok false => exact fun before error after split => by simp at split
  | .error error => simp

theorem meansSome_search {α : Type} (accepts : Option α → Except Error Bool)
    (baseFilter : BaseFilters α) :
    ((findFilter accepts (baseFilter.toList.map some)).map Option.isSome = .ok true ↔
        .ok true ∈ baseFilter.toList.map fun filter => accepts (some filter)) ↔
      match baseFilter with
      | .one _ => True
      | .many first rest =>
          BaseCall.AcceptsFirst ((first :: rest).map fun filter => accepts (some filter)) := by
  rw [findFilter_iff]
  cases baseFilter with
  | one filter => exact iff_of_true (acceptsFirst_singleton _) trivial
  | many first rest => rfl

/-- A list is a block filter without a modulo, which accepts every block. -/
theorem meansSome_blocks (data : CosmosBlock) (first : CosmosBlockFilter)
    (rest : List CosmosBlockFilter) :
    (BaseCall.block data (.many first rest)).MeansSome prototypes ↔
      ∃ filter ∈ first :: rest, filterBlock data (some filter) = true := by
  have whole : baseCustomHandlerFilter prototypes (.block data (.many first rest)) = .ok true := rfl
  simp only [BaseCall.MeansSome, whole, BaseCall.verdicts, BaseFilters.toList, List.mem_map,
    Except.ok.injEq, true_iff]

/-- A list is a transaction filter that does not ask for failed transactions. -/
theorem meansSome_transactions (data : CosmosTransaction) (first : CosmosTxFilter)
    (rest : List CosmosTxFilter) :
    (BaseCall.transaction data (.many first rest)).MeansSome prototypes ↔
      data.tx.code = 0 ∨ ∀ filter ∈ first :: rest, ¬filter.IncludesFailed := by
  have whole : baseCustomHandlerFilter prototypes (.transaction data (.many first rest)) =
      .ok true ↔ data.tx.code = 0 := by
    have unflagged : ¬CosmosTxFilter.IncludesFailed {} := by decide
    rw [baseCustomHandlerFilter, Except.ok.injEq, filterTx_iff]
    simp [BaseFilters.asOne, unflagged]
  have each : ∀ filter, filterTx data (some filter) = true ↔
      data.tx.code = 0 ∨ filter.IncludesFailed := fun filter => by
    rw [filterTx_iff]
    simp
  simp only [BaseCall.MeansSome, whole, BaseCall.verdicts, BaseFilters.toList, List.mem_map,
    Except.ok.injEq, each]
  by_cases succeeded : data.tx.code = 0
  · refine iff_of_true (iff_of_true succeeded ?_) (Or.inl succeeded)
    exact ⟨first, List.mem_cons_self, Or.inl succeeded⟩
  · simp only [succeeded, false_or, false_iff, not_exists, not_and]

/-- Base filters mean that some filter accepts exactly when a single one is given or the list is
uniform: a list takes the place of one filter for blocks and transactions, and a filter that throws
ends the search for messages and events. -/
theorem meansSome_iff (call : BaseCall) : call.MeansSome prototypes ↔ call.Uniform prototypes := by
  cases call with
  | block data baseFilter =>
      cases baseFilter with
      | one filter =>
          refine iff_of_true ?_ trivial
          simp [BaseCall.MeansSome, baseCustomHandlerFilter, BaseFilters.asOne,
            BaseCall.verdicts, BaseFilters.toList, Except.ok.injEq]
      | many first rest => exact meansSome_blocks prototypes data first rest
  | transaction data baseFilter =>
      cases baseFilter with
      | one filter =>
          refine iff_of_true ?_ trivial
          simp [BaseCall.MeansSome, baseCustomHandlerFilter, BaseFilters.asOne,
            BaseCall.verdicts, BaseFilters.toList, Except.ok.injEq]
      | many first rest => exact meansSome_transactions prototypes data first rest
  | message data baseFilter =>
      rw [BaseCall.MeansSome, baseCustomHandlerFilter, filterMessages, filterAll_singleton]
      refine (meansSome_search (filterMessageData prototypes data) baseFilter).trans ?_
      cases baseFilter <;> rfl
  | event data baseFilter =>
      rw [BaseCall.MeansSome, baseCustomHandlerFilter, filterEvents, filterAll_singleton]
      refine (meansSome_search (filterEvent prototypes data) baseFilter).trans ?_
      cases baseFilter <;> rfl

/-- A list of one block filter accepts a block the filter rejects, and a list of one transaction
filter rejects a transaction the filter accepts. -/
theorem blockList_accepts_and_transactionList_rejects :
    baseCustomHandlerFilter (fun _ _ => .undefined)
        (.block (emptyBlock 7 0) (.many { modulo := some 2 } [])) = .ok true ∧
      filterBlock (emptyBlock 7 0) (some { modulo := some 2 }) = false ∧
      ¬(BaseCall.block (emptyBlock 7 0) (.many { modulo := some 2 } [])).MeansSome
        (fun _ _ => .undefined) ∧
      baseCustomHandlerFilter (fun _ _ => .undefined)
        (.transaction (txWithCode (emptyBlock 7 0) 5) (.many { includeFailedTx := some true } [])) =
          .ok false ∧
      filterTx (txWithCode (emptyBlock 7 0) 5) (some { includeFailedTx := some true }) = true ∧
      ¬(BaseCall.transaction (txWithCode (emptyBlock 7 0) 5)
        (.many { includeFailedTx := some true } [])).MeansSome (fun _ _ => .undefined) := by
  have rejected : filterBlock (emptyBlock 7 0) (some { modulo := some 2 }) = false := by
    rw [Bool.eq_false_iff]
    intro accepted
    obtain ⟨factor, product⟩ := (filterBlock_iff _ _).mp accepted 2 rfl (by norm_num)
    have odd : (7 : ℤ) = factor * 2 := by exact_mod_cast product
    omega
  have accepted : filterTx (txWithCode (emptyBlock 7 0) 5)
      (some { includeFailedTx := some true }) = true := rfl
  refine ⟨rfl, rejected, fun meansSome => ?_, rfl, accepted, fun meansSome => ?_⟩
  · have some := meansSome.mp rfl
    simp [BaseCall.verdicts, BaseFilters.toList, rejected] at some
  · have kept := meansSome.mpr (by simp [BaseCall.verdicts, BaseFilters.toList, accepted])
    simp [baseCustomHandlerFilter, BaseFilters.asOne, filterTx, txWithCode,
      CosmosTxFilter.IncludesFailed] at kept

end SubqlCosmos
