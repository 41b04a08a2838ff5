import SubqlCosmos.DispatchOnce
import SubqlCosmos.FilterLaws
import SubqlCosmos.Js.JsonText

/-!
# Messages to contracts

A message to a contract holds a JSON text in UTF-8, which `CosmosClient.decodeMsg` reads back, so that
handlers and filters see the value that was sent.
-/

namespace SubqlCosmos

open Js

/-- `toUtf8`. -/
def toUtf8 (text : List Char) : Bytes :=
  text.flatMap String.utf8EncodeChar

/-- A mark at the start of a text, which `TextDecoder` takes away. -/
def byteOrderMark : Char := Char.ofNat 0xFEFF

/-- The codec reads UTF-8 and JSON texts. -/
structure Codec.ReadsJson (api : Codec) (numbers : NumberFormat) : Prop where
  text : ∀ text : List Char, text.head? ≠ some byteOrderMark →
    api.decodeText (.bytes (toUtf8 text)) = .ok (String.ofList text)
  json : ∀ (text : List Char) (value : Value), Json.parse numbers text = some value →
    api.parseJson (String.ofList text) = .ok value

/-- The message is of a type that holds JSON, and decodes to an object whose field `msg` holds the text
of a value. -/
structure Sends (api : Codec) (numbers : NumberFormat) (msg : EncodeObject)
    (fields : List (String × Value)) (call : Value) : Prop where
  typed : msg.typeUrl ∈ jsonMessages
  decodes : api.decode msg = .ok (.obj fields)
  holds : fields.lookup "msg" = some (.bytes (toUtf8 (Json.write numbers call)))

variable {api : Codec} {numbers : NumberFormat} {msg : EncodeObject}
  {fields : List (String × Value)} {call : Value}

theorem head_write_ne (portable : Json.Portable call) :
    (Json.write numbers call).head? ≠ some byteOrderMark := by
  cases portable with
  | null | str text | arr items each | obj fields ordered each =>
      exact fun same => absurd (Option.some.inj same) (by decide)
  | bool value => cases value <;> exact fun same => absurd (Option.some.inj same) (by decide)
  | num number safe =>
      obtain ⟨first, rest, split, numeral⟩ := Json.isDigit_or_sign_writeNumber numbers safe
      have written : Json.write numbers (.num number) = first :: rest := split
      rw [written]
      rintro same
      obtain rfl : first = byteOrderMark := Option.some.inj same
      revert numeral
      decide

theorem decodeMsg_eq (reads : api.ReadsJson numbers) (portable : Json.Portable call)
    (sends : Sends api numbers msg fields call) :
    decodeMsg api msg = .ok (.obj (Record.putEntry "msg" call fields)) := by
  have held : Value.get api.prototypes (.obj fields) "msg" =
      .ok (.bytes (toUtf8 (Json.write numbers call))) := by
    rw [Value.get_of_not_nullish _ _ id, Value.member, Value.own, sends.holds]
    rfl
  have text := reads.text (Json.write numbers call) (head_write_ne portable)
  have parsed := reads.json (Json.write numbers call) call (Json.parse_write portable)
  simp only [decodeMsg, sends.decodes, bind, Except.bind, if_pos sends.typed, held, text, parsed]
  rfl

theorem get_seen (prototypes : Prototypes) (key : String) :
    Value.get prototypes (.obj (Record.putEntry "msg" call fields)) key =
      if key = "msg" then .ok call else Value.get prototypes (.obj fields) key := by
  rw [Value.get_of_not_nullish _ _ id, Value.get_of_not_nullish _ _ id, Value.member, Value.member,
    Value.own, Value.own, Record.lookup_putEntry]
  split <;> rfl

/-- The value sent to a contract is what handlers read under `msg`, where the contract call of a filter is
looked up in it; the other fields of the message stay. -/
theorem contract_call_seen (reads : api.ReadsJson numbers) (portable : Json.Portable call)
    (sends : Sends api numbers msg fields call) :
    ∃ seen, decodeMsg api msg = .ok seen ∧
      (∀ prototypes path,
        Value.walk prototypes seen ("msg" :: path) = Value.walk prototypes call path) ∧
      (∀ prototypes key path, key ≠ "msg" →
        Value.walk prototypes seen (key :: path) =
          Value.walk prototypes (.obj fields) (key :: path)) ∧
      ∀ prototypes (data : CosmosMessage) (contractCall : String),
        data.msg = { typeUrl := msg.typeUrl, decodedMsg := decodeMsg api msg } →
        contractCall ≠ "" →
        (filterMessageData prototypes data
            (some { type := some msgExecuteContract, contractCall := some contractCall }) =
            .ok true ↔
          data.tx.tx.code = 0 ∧ msg.typeUrl = msgExecuteContract ∧
            (call = .str contractCall ∨
              isObjectLike call = true ∧ call.hasProperty prototypes contractCall = true)) := by
  have decoded := decodeMsg_eq reads portable sends
  refine ⟨_, decoded, fun prototypes path => ?_, fun prototypes key path other => ?_, ?_⟩
  · rw [Value.walk_cons, get_seen, if_pos rfl]
    rfl
  · rw [Value.walk_cons, Value.walk_cons, get_seen, if_neg other]
  · intro prototypes data contractCall wrapped given
    have requested : CosmosMessageFilter.requestedCall
        { type := some msgExecuteContract, contractCall := some contractCall } = some contractCall := by
      rw [CosmosMessageFilter.requestedCall, if_pos rfl]
      simp [given]
    have checked : checkContractCall prototypes data
        { type := some msgExecuteContract, contractCall := some contractCall } =
          .ok (call = .str contractCall ||
            isObjectLike call && call.hasProperty prototypes contractCall) := by
      rw [checkContractCall, requested, wrapped, decoded]
      simp only [bind, Except.bind, matchContractCall, get_seen, if_pos]
      rfl
    have unflagged : ¬CosmosTxFilter.IncludesFailed {} := by decide
    rw [filterMessageData_iff, checked, wrapped, filterTx_iff]
    simp only [Option.some.injEq, checkValues, Except.ok.injEq, Bool.or_eq_true, Bool.and_eq_true,
      decide_eq_true_eq, true_and, exists_eq_left', unflagged, or_false, @eq_comm _ msg.typeUrl]

/-- A swap of nothing. -/
def emptySwap : Value := .obj [("swap", .obj [])]

/-- A codec that decodes every message to that swap, from well-formed texts. -/
def swapCodec : Codec :=
  { sendCodec with
    decode := fun _ =>
      .ok (.obj [("contract", .str "juno1"), ("msg", .bytes (toUtf8 (Json.write .integersOnly emptySwap)))])
    decodeText := fun
      | .bytes data =>
          match data.toByteArray.utf8Decode? with
          | some text =>
              .ok (String.ofList
                (if text.toList.head? = some byteOrderMark then text.toList.tail else text.toList))
          | none => .ok (String.singleton (Char.ofNat 0xFFFD))
      | _ => .error { name := "TypeError", message := "not a buffer" }
    parseJson := fun text =>
      match Json.parse .integersOnly text.toList with
      | some value => .ok value
      | none => .error { name := "SyntaxError", message := "Unexpected token in JSON" } }

theorem swapCodec_reads : swapCodec.ReadsJson .integersOnly where
  text text unmarked := by
    have decoded : (toUtf8 text).toByteArray.utf8Decode? = some text.toArray :=
      List.utf8Decode?_utf8Encode
    simp only [swapCodec, decoded, if_neg unmarked]
  json text value parsed := by
    simp only [swapCodec, String.toList_ofList, parsed]

theorem portable_emptySwap : Json.Portable emptySwap := by
  refine .obj _ (by decide) fun field listed => ?_
  obtain rfl := List.mem_singleton.mp listed
  exact .obj [] List.Pairwise.nil nofun

theorem emptySwap_accepted :
    filterMessageData (fun _ _ => .undefined)
        { transferOf (txWithCode (emptyBlock 7 0) 0) with
          msg :=
            { typeUrl := msgExecuteContract
              decodedMsg := decodeMsg swapCodec { typeUrl := msgExecuteContract, value := [] } } }
        (some { type := some msgExecuteContract, contractCall := some "swap" }) = .ok true := by
  have sends : Sends swapCodec .integersOnly { typeUrl := msgExecuteContract, value := [] }
      [("contract", .str "juno1"), ("msg", .bytes (toUtf8 (Json.write .integersOnly emptySwap)))]
      emptySwap := ⟨by decide, rfl, rfl⟩
  obtain ⟨seen, -, -, -, accepted⟩ := contract_call_seen swapCodec_reads portable_emptySwap sends
  refine (accepted (fun _ _ => .undefined) _ "swap" rfl (by decide)).mpr ⟨rfl, rfl, Or.inr ?_⟩
  decide

end SubqlCosmos
