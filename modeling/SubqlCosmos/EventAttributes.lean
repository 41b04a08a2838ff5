import SubqlCosmos.FilterLaws

/-!
# Attributes of event filters

What `filterEvent` makes of the attributes of a filter, whose values are texts or numbers, on events,
whose attribute values are always texts.
-/

namespace SubqlCosmos

open Js

/-! ## Filters on attributes -/

/-- An event filter with a type, without a message filter, its attribute values texts or integers. -/
structure AttributeFilter extends CosmosEventFilter where
  /-- The filter has a type. -/
  typed : type.isSome
  /-- There is no message filter. -/
  alone : messageFilter = none
  /-- Every attribute value is a text or an integer. -/
  admitted : ∀ record, attributes = some record → ∀ entry ∈ record.entries,
    (∃ text, entry.2 = .str text) ∨ ∃ number : ℤ, entry.2 = .num number

/-- A text as it is, an integer in decimal notation. -/
def decimalText : Scalar → String
  | .str text => text
  | .num value => toString value.num
  | .null => "null"
  | .bool value => toString value

/-- The attribute has the name and the value of the entry. -/
def Attribute.Meets (item : Attribute) (entry : String × Scalar) : Prop :=
  item.key = entry.1 ∧ item.value = decimalText entry.2

namespace AttributeFilter

/-- The entries of the attributes, none when there are no attributes. -/
def entries (filter : AttributeFilter) : List (String × Scalar) :=
  match filter.attributes with
  | none => []
  | some record => record.entries

/-- The types are equal, and each entry is met by some attribute of the event. -/
def Wants (filter : AttributeFilter) (event : CosmosEvent) : Prop :=
  filter.type = some event.event.type ∧
    ∀ entry ∈ filter.entries, ∃ item ∈ event.event.attributes, item.Meets entry

/-- The filter is accepted on the events it wants, whatever the order of its attributes and of the
event's, and whatever other attributes the event has. -/
structure Honoured (prototypes : Prototypes) (filter : AttributeFilter) (event : CosmosEvent) :
    Prop where
  accepts : filterEvent prototypes event (some filter.toCosmosEventFilter) = .ok true ↔
    filter.Wants event
  order : ∀ (other : AttributeFilter) (attributes : List Attribute), other.type = filter.type →
    filter.entries.Perm other.entries → event.event.attributes.Perm attributes →
      filterEvent prototypes
          { event with event := { event.event with attributes := attributes } }
          (some other.toCosmosEventFilter) =
        filterEvent prototypes event (some filter.toCosmosEventFilter)
  others : ∀ attributes : List Attribute,
    (∀ item ∈ attributes, ∀ entry ∈ filter.entries, ¬item.Meets entry) →
      filterEvent prototypes
          { event with
            event := { event.event with attributes := event.event.attributes ++ attributes } }
          (some filter.toCosmosEventFilter) =
        filterEvent prototypes event (some filter.toCosmosEventFilter)

/-- Every attribute value is a text. -/
def Textual (filter : AttributeFilter) : Prop :=
  ∀ entry ∈ filter.entries, ∃ text, entry.2 = .str text

/-! ## What is accepted -/

/-- The strict comparison finds an attribute for the entry. -/
def Found (attributes : List Attribute) (entry : String × Scalar) : Prop :=
  ∃ item ∈ attributes, item.key = entry.1 ∧ Scalar.str item.value = entry.2

theorem filterEvent_eq (prototypes : Prototypes) (filter : AttributeFilter) (event : CosmosEvent) :
    (filterEvent prototypes event (some filter.toCosmosEventFilter) = .ok true ↔
        filter.type = some event.event.type ∧
          ∀ entry ∈ filter.entries, Found event.event.attributes entry) ∧
      (filterEvent prototypes event (some filter.toCosmosEventFilter) = .ok true ∨
        filterEvent prototypes event (some filter.toCosmosEventFilter) = .ok false) := by
  have unasked : checkMessageFilter prototypes event filter.toCosmosEventFilter = .ok true := by
    rw [checkMessageFilter, filter.alone]
  have attributes : checkAttributes event filter.toCosmosEventFilter = true ↔
      ∀ entry ∈ filter.entries, Found event.event.attributes entry := by
    rw [checkAttributes, entries]
    cases filter.attributes with
    | none => simp
    | some record => simp [Found, List.all_eq_true, List.any_eq_true]
  constructor
  · rw [filterEvent_iff, attributes]
    simp [unasked]
  · rw [filterEvent]
    split
    · exact Or.inr rfl
    · rw [unasked]
      cases checkAttributes event filter.toCosmosEventFilter
      · exact Or.inr rfl
      · exact Or.inl rfl

theorem filterEvent_congr (prototypes : Prototypes) {filter other : AttributeFilter}
    {event after : CosmosEvent}
    (together : filterEvent prototypes after (some other.toCosmosEventFilter) = .ok true ↔
      filterEvent prototypes event (some filter.toCosmosEventFilter) = .ok true) :
    filterEvent prototypes after (some other.toCosmosEventFilter) =
      filterEvent prototypes event (some filter.toCosmosEventFilter) := by
  rcases (filterEvent_eq prototypes filter event).2 with accepted | rejected
  · rw [accepted, together.mpr accepted]
  · rcases (filterEvent_eq prototypes other after).2 with accepted | rejected'
    · have contrary := together.mp accepted
      simp [rejected] at contrary
    · rw [rejected, rejected']

theorem meets_of_found {attributes : List Attribute} {entry : String × Scalar}
    (found : Found attributes entry) : ∃ item ∈ attributes, item.Meets entry := by
  obtain ⟨item, member, key, value⟩ := found
  exact ⟨item, member, key, by rw [← value]; rfl⟩

theorem found_of_meets {attributes : List Attribute} {entry : String × Scalar}
    (text : ∃ text, entry.2 = .str text)
    (meets : ∃ item ∈ attributes, item.Meets entry) : Found attributes entry := by
  obtain ⟨item, member, key, value⟩ := meets
  obtain ⟨text, given⟩ := text
  refine ⟨item, member, key, ?_⟩
  rw [value, given]
  rfl

theorem text_of_found {attributes : List Attribute} {entry : String × Scalar}
    (found : Found attributes entry) : ∃ text, entry.2 = .str text := by
  obtain ⟨item, -, -, value⟩ := found
  exact ⟨item.value, value.symm⟩

theorem honoured_iff (prototypes : Prototypes) (filter : AttributeFilter) (event : CosmosEvent) :
    filter.Honoured prototypes event ↔ filter.Textual ∨ ¬filter.Wants event := by
  have accepted := (filterEvent_eq prototypes filter event).1
  constructor
  · intro honoured
    by_cases wanted : filter.Wants event
    · have found := (accepted.mp (honoured.accepts.mpr wanted)).2
      exact Or.inl fun entry member => text_of_found (found entry member)
    · exact Or.inr wanted
  · intro condition
    refine ⟨?_, ?_, ?_⟩
    · rw [accepted]
      constructor
      · rintro ⟨sameType, found⟩
        exact ⟨sameType, fun entry member => meets_of_found (found entry member)⟩
      · intro wanted
        have textual := condition.resolve_right fun unwanted => unwanted wanted
        exact ⟨wanted.1, fun entry member =>
          found_of_meets (textual entry member) (wanted.2 entry member)⟩
    · intro other attributes sameType sameEntries permuted
      apply filterEvent_congr
      rw [accepted, (filterEvent_eq prototypes other _).1, sameType]
      refine and_congr_right fun _ => forall_congr' fun entry => ?_
      rw [sameEntries.mem_iff]
      simp only [Found, permuted.mem_iff]
    · intro attributes unmet
      apply filterEvent_congr
      rw [accepted, (filterEvent_eq prototypes filter _).1]
      refine and_congr_right fun _ => forall₂_congr fun entry member => ?_
      constructor
      · rintro ⟨item, listed, key, value⟩
        rcases List.mem_append.mp listed with own | extra
        · exact ⟨item, own, key, value⟩
        · exact absurd ⟨key, by rw [← value]; rfl⟩ (unmet item extra entry member)
      · rintro ⟨item, own, key, value⟩
        exact ⟨item, List.mem_append_left _ own, key, value⟩

/-- An event with exactly the attributes the filter asks for. -/
def asked (filter : AttributeFilter) : CosmosEvent where
  idx := 0
  block := emptyBlock 7 0
  tx := none
  msg := none
  log := none
  event :=
    { type := filter.type.get filter.typed
      attributes := filter.entries.map fun entry =>
        { key := entry.1, value := decimalText entry.2 } }

theorem wants_asked (filter : AttributeFilter) : filter.Wants filter.asked :=
  ⟨(Option.some_get filter.typed).symm, fun entry member =>
    ⟨{ key := entry.1, value := decimalText entry.2 }, List.mem_map_of_mem member, rfl, rfl⟩⟩

/-- A filter is honoured on an event exactly when its values are texts or it does not want the event,
and on all events exactly when its values are texts: a number equals no attribute value. -/
theorem honoured_iff_textual (prototypes : Prototypes) (filter : AttributeFilter) :
    (∀ event, filter.Honoured prototypes event ↔ filter.Textual ∨ ¬filter.Wants event) ∧
      ((∀ event, filter.Honoured prototypes event) ↔ filter.Textual) := by
  refine ⟨filter.honoured_iff prototypes, fun honoured => ?_, fun textual event => ?_⟩
  · have condition := (filter.honoured_iff prototypes filter.asked).mp (honoured filter.asked)
    exact condition.resolve_right fun unwanted => unwanted filter.wants_asked
  · exact (filter.honoured_iff prototypes event).mpr (Or.inl textual)

end AttributeFilter

/-- A filter for transfers whose amount is written without quotes. -/
def fiveTransferred : AttributeFilter where
  type := some "transfer"
  attributes := some { entries := [("amount", .num 5)], ordered := List.pairwise_singleton _ _ }
  typed := rfl
  alone := rfl
  admitted := by
    intro record given entry member
    obtain rfl := Option.some.inj given
    obtain rfl := List.mem_singleton.mp member
    exact Or.inr ⟨5, rfl⟩

theorem number_never_found :
    fiveTransferred.asked.event =
        { type := "transfer", attributes := [{ key := "amount", value := "5" }] } ∧
      filterEvent (fun _ _ => .undefined) fiveTransferred.asked
          (some fiveTransferred.toCosmosEventFilter) = .ok false ∧
        ¬fiveTransferred.Honoured (fun _ _ => .undefined) fiveTransferred.asked := by
  have rejected : filterEvent (fun _ _ => .undefined) fiveTransferred.asked
      (some fiveTransferred.toCosmosEventFilter) = .ok false := rfl
  refine ⟨rfl, rejected, fun honoured => ?_⟩
  have accepted := honoured.accepts.mpr fiveTransferred.wants_asked
  simp [rejected] at accepted

end SubqlCosmos
