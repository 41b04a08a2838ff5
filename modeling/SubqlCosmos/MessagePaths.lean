import SubqlCosmos.FilterLaws

/-!
# Paths of message filters

What a message filter does with the paths of its `values`: which of them can be read in a decoded
message, how an unreadable one ends the loop, and when the verdict does not depend on the order of
the keys.
-/

namespace SubqlCosmos

open Js

/-! ## One key -/

/-- The form in which a found value is compared with the expected one. -/
def comparedAs (expected : Scalar) : Value → Value
  | .long value _ =>
      match expected with
      | .num _ => .num (toDouble value)
      | _ => .str (toString value)
  | found => if isLong found then .str "[object Object]" else found

/-- The value passes for a Long and lacks the conversion the loop calls on it. -/
def Inconvertible (expected : Scalar) (found : Value) : Prop :=
  (∀ value unsigned, found ≠ .long value unsigned) ∧ isLong found = true ∧
    ((∃ number, expected = .num number) ∨ (Value.own found "toString").isSome)

theorem convertLong_of_convertible {expected : Scalar} {found : Value}
    (convertible : ¬Inconvertible expected found) :
    convertLong found expected = .ok (comparedAs expected found) := by
  unfold convertLong
  by_cases claims : isLong found = true
  · rw [if_pos claims]
    cases found with
    | long value unsigned => cases expected <;> rfl
    | undefined | scalar | bytes | arr | obj | builtin =>
        obtain ⟨notNumber, notNamed⟩ :=
          not_or.mp (not_and.mp (not_and.mp convertible (by simp)) claims)
        cases expected with
        | num number => exact absurd ⟨number, rfl⟩ notNumber
        | null | bool | str =>
            simp [callToString, notNamed, comparedAs, claims, -Value.own_obj]
  · rw [if_neg claims]
    cases found with
    | long value unsigned => exact absurd rfl claims
    | undefined | scalar | bytes | arr | obj | builtin => simp [comparedAs, claims]

theorem convertLong_of_inconvertible {expected : Scalar} {found : Value}
    (inconvertible : Inconvertible expected found) :
    ∃ error, convertLong found expected = .error error := by
  obtain ⟨notLong, claims, noConversion⟩ := inconvertible
  unfold convertLong
  rw [if_pos claims]
  cases found with
  | long value unsigned => exact absurd rfl (notLong value unsigned)
  | undefined | scalar | bytes | arr | obj | builtin =>
      cases expected with
      | num => exact ⟨_, rfl⟩
      | null | bool | str =>
          have named := noConversion.resolve_left (by simp)
          simp [callToString, named, -Value.own_obj]

section Key

variable (prototypes : Prototypes) (decoded : Value)

/-- Reading the key throws: its path is missing, or ends at a value that cannot be converted. -/
def Unreadable (entry : String × Scalar) : Prop :=
  Value.PathMissing prototypes decoded (splitDots entry.1) ∨
    ∃ found, Value.walk prototypes decoded (splitDots entry.1) = .ok found ∧
      Inconvertible entry.2 found

/-- The key can be read, and what it holds compares with the expected value as told. -/
def Reads (entry : String × Scalar) (compares : Value → Prop) : Prop :=
  ∃ found, Value.walk prototypes decoded (splitDots entry.1) = .ok found ∧
    ¬Inconvertible entry.2 found ∧ compares (comparedAs entry.2 found)

/-- The key holds the expected value. -/
def Agrees (entry : String × Scalar) : Prop :=
  Reads prototypes decoded entry fun compared => compared = .scalar entry.2

/-- The key can be read and holds something else. -/
def Differs (entry : String × Scalar) : Prop :=
  Reads prototypes decoded entry fun compared => compared ≠ .scalar entry.2

variable {prototypes decoded}

theorem readValue_of_unreadable {entry : String × Scalar}
    (unreadable : Unreadable prototypes decoded entry) :
    ∃ error, readValue prototypes decoded entry.1 entry.2 = .error error := by
  rcases unreadable with missing | ⟨found, walked, inconvertible⟩
  · obtain ⟨error, thrown⟩ := (Value.walk_error_iff prototypes decoded _).mpr missing
    exact ⟨error, by rw [readValue, thrown]; rfl⟩
  · obtain ⟨error, thrown⟩ := convertLong_of_inconvertible inconvertible
    exact ⟨error, by rw [readValue, walked]; exact thrown⟩

theorem readValue_of_reads {entry : String × Scalar} {compares : Value → Prop}
    (reads : Reads prototypes decoded entry compares) :
    ∃ value, readValue prototypes decoded entry.1 entry.2 = .ok value ∧ compares value := by
  obtain ⟨found, walked, convertible, holds⟩ := reads
  refine ⟨comparedAs entry.2 found, ?_, holds⟩
  rw [readValue, walked]
  exact convertLong_of_convertible convertible

/-- A key throws, holds the expected value, or holds another one. -/
theorem unreadable_or_agrees_or_differs (prototypes : Prototypes) (decoded : Value)
    (entry : String × Scalar) :
    Unreadable prototypes decoded entry ∨ Agrees prototypes decoded entry ∨
      Differs prototypes decoded entry := by
  cases walked : Value.walk prototypes decoded (splitDots entry.1) with
  | error error =>
      exact Or.inl (Or.inl ((Value.walk_error_iff prototypes decoded _).mp ⟨error, walked⟩))
  | ok found =>
      by_cases inconvertible : Inconvertible entry.2 found
      · exact Or.inl (Or.inr ⟨found, walked, inconvertible⟩)
      · by_cases same : comparedAs entry.2 found = .scalar entry.2
        · exact Or.inr (Or.inl ⟨found, walked, inconvertible, same⟩)
        · exact Or.inr (Or.inr ⟨found, walked, inconvertible, same⟩)

theorem Unreadable.not_reads {entry : String × Scalar} {compares : Value → Prop}
    (unreadable : Unreadable prototypes decoded entry) :
    ¬Reads prototypes decoded entry compares := by
  intro reads
  obtain ⟨error, thrown⟩ := readValue_of_unreadable unreadable
  obtain ⟨value, read, -⟩ := readValue_of_reads reads
  rw [thrown] at read
  exact absurd read (by simp)

theorem matchValues_of_unreadable {entry : String × Scalar} (entries : List (String × Scalar))
    (unreadable : Unreadable prototypes decoded entry) :
    ∃ error, matchValues prototypes (.ok decoded) (entry :: entries) = .error error := by
  obtain ⟨error, thrown⟩ := readValue_of_unreadable unreadable
  refine ⟨error, ?_⟩
  change (readValue prototypes decoded entry.1 entry.2 >>= _) = _
  rw [thrown]
  rfl

theorem matchValues_of_agrees {entry : String × Scalar} (entries : List (String × Scalar))
    (agrees : Agrees prototypes decoded entry) :
    matchValues prototypes (.ok decoded) (entry :: entries) =
      matchValues prototypes (.ok decoded) entries := by
  obtain ⟨value, read, rfl⟩ := readValue_of_reads agrees
  change (readValue prototypes decoded entry.1 entry.2 >>= _) = _
  rw [read]
  exact if_pos (by simp [Value.strictEq])

theorem matchValues_of_differs {entry : String × Scalar} (entries : List (String × Scalar))
    (differs : Differs prototypes decoded entry) :
    matchValues prototypes (.ok decoded) (entry :: entries) = .ok false := by
  obtain ⟨value, read, different⟩ := readValue_of_reads differs
  change (readValue prototypes decoded entry.1 entry.2 >>= _) = _
  rw [read]
  exact if_neg (by simpa [Value.strictEq] using different)

theorem matchValues_append {front : List (String × Scalar)} (back : List (String × Scalar))
    (agree : ∀ entry ∈ front, Agrees prototypes decoded entry) :
    matchValues prototypes (.ok decoded) (front ++ back) =
      matchValues prototypes (.ok decoded) back := by
  induction front with
  | nil => rfl
  | cons entry front induction =>
      rw [List.cons_append, matchValues_of_agrees _ (agree entry List.mem_cons_self)]
      exact induction fun other member => agree other (List.mem_cons_of_mem _ member)

/-- All keys agree, or the first one that does not ends the loop. -/
theorem all_agree_or_first (prototypes : Prototypes) (decoded : Value)
    (entries : List (String × Scalar)) :
    (∀ entry ∈ entries, Agrees prototypes decoded entry) ∨
      ∃ front entry back, entries = front ++ entry :: back ∧
        (∀ other ∈ front, Agrees prototypes decoded other) ∧
          (Unreadable prototypes decoded entry ∨ Differs prototypes decoded entry) := by
  induction entries with
  | nil => exact Or.inl (by simp)
  | cons entry entries induction =>
      have ends : Unreadable prototypes decoded entry ∨ Differs prototypes decoded entry →
          ∃ front other back, entry :: entries = front ++ other :: back ∧
            (∀ earlier ∈ front, Agrees prototypes decoded earlier) ∧
              (Unreadable prototypes decoded other ∨ Differs prototypes decoded other) :=
        fun stops => ⟨[], entry, entries, rfl, by simp, stops⟩
      rcases unreadable_or_agrees_or_differs prototypes decoded entry with
        unreadable | agrees | differs
      · exact Or.inr (ends (Or.inl unreadable))
      · rcases induction with all | ⟨front, other, back, rfl, agree, stops⟩
        · exact Or.inl (List.forall_mem_cons.mpr ⟨agrees, all⟩)
        · exact Or.inr ⟨entry :: front, other, back, rfl,
            List.forall_mem_cons.mpr ⟨agrees, agree⟩, stops⟩
      · exact Or.inr (ends (Or.inr differs))

theorem matchValues_ok_true_iff (entries : List (String × Scalar)) :
    matchValues prototypes (.ok decoded) entries = .ok true ↔
      ∀ entry ∈ entries, Agrees prototypes decoded entry := by
  rcases all_agree_or_first prototypes decoded entries with
    all | ⟨front, entry, back, rfl, agree, stops⟩
  · refine iff_of_true ?_ all
    calc matchValues prototypes (.ok decoded) entries
        = matchValues prototypes (.ok decoded) (entries ++ []) := by rw [List.append_nil]
      _ = .ok true := matchValues_append [] all
  · have notAll : ¬∀ other ∈ front ++ entry :: back, Agrees prototypes decoded other := by
      intro all
      have agrees := all entry (by simp)
      rcases stops with unreadable | ⟨found, walked, -, different⟩
      · exact unreadable.not_reads agrees
      · obtain ⟨other, walkedOther, -, same⟩ := agrees
        obtain rfl : found = other := Except.ok.inj (walked.symm.trans walkedOther)
        exact different same
    refine iff_of_false ?_ notAll
    rw [matchValues_append _ agree]
    rcases stops with unreadable | differs
    · obtain ⟨error, thrown⟩ := matchValues_of_unreadable back unreadable
      simp [thrown]
    · simp [matchValues_of_differs back differs]

end Key

/-! ## The verdict on a message -/

/-- A message that can be decoded. -/
structure DecodedMessage extends CosmosMessage where
  decoded : Value
  /-- Reading `decodedMsg` gives the decoded value. -/
  decodes : msg.decodedMsg = .ok decoded

namespace CosmosMessageFilter

/-- The entries of `values`, none without it. -/
def entries (filter : CosmosMessageFilter) : List (String × Scalar) :=
  match filter.values with
  | none => []
  | some values => values.entries

/-- The same filter with the keys of `values` inserted in another order. -/
def Reordered (filter other : CosmosMessageFilter) : Prop :=
  ∃ values, other = { filter with values := values } ∧
    Option.Rel Record.Reordered filter.values values

/-- A failed transaction the filter does not ask for, or a message of another type. -/
def ScreensOut (filter : CosmosMessageFilter) (data : CosmosMessage) : Prop :=
  data.tx.tx.code ≠ 0 ∧ ¬filter.IncludesFailed ∨ filter.type ≠ some data.msg.typeUrl

end CosmosMessageFilter

section Verdict

variable {prototypes : Prototypes} {filter : CosmosMessageFilter}

theorem filterMessageData_of_screensOut {data : CosmosMessage} (out : filter.ScreensOut data) :
    filterMessageData prototypes data (some filter) = .ok false := by
  by_cases txAccepted : filterTx data.tx (some filter.toCosmosTxFilter) = true
  · have otherType : filter.type ≠ some data.msg.typeUrl := by
      refine out.resolve_left ?_
      rintro ⟨failed, notIncluded⟩
      rcases (filterTx_iff _ _).mp txAccepted with succeeded | ⟨given, same, included⟩
      · exact failed succeeded
      · obtain rfl := Option.some.inj same
        exact notIncluded included
    simp [filterMessageData, txAccepted, otherType]
  · simp [filterMessageData, txAccepted]

theorem filterMessageData_of_not_screensOut {data : DecodedMessage}
    (stays : ¬filter.ScreensOut data.toCosmosMessage) :
    filterMessageData prototypes data.toCosmosMessage (some filter) = (do
      let valuesMatch ← matchValues prototypes (.ok data.decoded) filter.entries
      if valuesMatch then checkContractCall prototypes data.toCosmosMessage filter
      else return false) := by
  obtain ⟨notFailed, sameType⟩ := not_or.mp stays
  have txAccepted : filterTx data.tx (some filter.toCosmosTxFilter) = true := by
    refine (filterTx_iff _ _).mpr ?_
    by_cases failed : data.tx.tx.code = 0
    · exact Or.inl failed
    · exact Or.inr ⟨_, rfl, not_not.mp (not_and.mp notFailed failed)⟩
  have values : checkValues prototypes data.toCosmosMessage filter =
      matchValues prototypes (.ok data.decoded) filter.entries := by
    rw [checkValues, CosmosMessageFilter.entries, data.decodes]
    cases filter.values <;> rfl
  rw [filterMessageData, if_neg (by simp [txAccepted]), if_neg (by simpa using sameType), values]

end Verdict

/-- A message of a successful transaction that decodes to the given value. -/
def messageOf (typeUrl : String) (decoded : Value) : DecodedMessage where
  idx := 0
  block := emptyBlock 7 0
  tx := txWithCode (emptyBlock 7 0) 0
  msg := { typeUrl := typeUrl, decodedMsg := .ok decoded }
  decoded := decoded
  decodes := rfl

/-- A filter on one field of a swap. -/
def swapFilter : CosmosMessageFilter where
  type := some msgExecuteContract
  values := some ⟨[("msg.swap.input_token", .str "Token2")], by decide⟩

end SubqlCosmos
