import SubqlCosmos.Alignment
import SubqlCosmos.Js.JsonText

/-!
# Errors of the node

What becomes of the error a node answers with: `execute` throws it as a text, `CosmosClient.handleError`
reads the text, and `CosmosClientConnection.handleError` sorts it for the connection pool
(`rpc-clients/HttpClient.ts`, `api.service.ts`, `cosmosClient.connection.ts`).
-/

namespace SubqlCosmos

open Js

/-! ## Responses -/

/-- `JsonRpcId`. -/
inductive JsonRpcId
  | num (number : Int)
  | str (text : String)
deriving DecidableEq, Repr

/-- The error of an error response. -/
structure JsonRpcError where
  code : Int
  message : String
  data : Option Value := none
deriving DecidableEq

/-- `JsonRpcResponse`. An error response may come without the id of a request. -/
inductive JsonRpcResponse
  | success (id : JsonRpcId) (result : Value)
  | error (id : Option JsonRpcId) (error : JsonRpcError)
deriving DecidableEq

/-- The id of the request a response answers. -/
def JsonRpcResponse.id : JsonRpcResponse → Option JsonRpcId
  | .success id _ => some id
  | .error id _ => id

/-- The error as an object. -/
def JsonRpcError.value (error : JsonRpcError) : Value :=
  match error.data with
  | none => .obj [("code", .num error.code), ("message", .str error.message)]
  | some data => .obj [("code", .num error.code), ("message", .str error.message), ("data", data)]

/-- `JSON.stringify(response.error)`. -/
def JsonRpcError.text (numbers : NumberFormat) (error : JsonRpcError) : String :=
  String.ofList (Json.write numbers error.value.toJson)

/-- The end of `execute`, of either client: an error response is thrown as a text. -/
def successOrThrow (numbers : NumberFormat) : JsonRpcResponse → Except Error JsonRpcResponse
  | .success id result => .ok (.success id result)
  | .error _ error => .error { name := "Error", message := error.text numbers }

/-- `HttpClient.execute`, given what the request over HTTP ends with. -/
def HttpClient.execute (numbers : NumberFormat)
    (parseJsonRpcResponse : Value → Except Error JsonRpcResponse)
    (httpRequest : Except Error Value) : Except Error JsonRpcResponse := do
  let data ← httpRequest
  let response ← parseJsonRpcResponse data
  successOrThrow numbers response

/-! ## Errors as the client reports them -/

/-- What the reading of error messages takes from the language: how it writes and reads numbers,
what values inherit, and the text of an array. -/
structure MessageReader where
  numbers : NumberFormat
  prototypes : Prototypes
  arrayText : List Value → String

/-- The text by which the error of a pruned node is known. -/
def unavailable : String := "is not available, lowest height is"

/-- The hint added to the error of a pruned node. -/
def prunedHint : String :=
  "\nINFO: This most likely means the provided endpoint is a pruned node. An archive/full node is needed to access historical data"

/-- A value that passes for false. -/
def Falsy : Value → Prop
  | .undefined | .scalar .null | .scalar (.bool false) => True
  | .scalar (.num number) => number = 0
  | .scalar (.str text) => text = ""
  | _ => False

instance : DecidablePred Falsy
  | .undefined | .scalar .null | .scalar (.bool false) => inferInstanceAs (Decidable True)
  | .scalar (.num _) | .scalar (.str _) => inferInstanceAs (Decidable (_ = _))
  | .scalar (.bool true) | .long _ _ | .bytes _ | .arr _ | .obj _ | .builtin _ =>
      inferInstanceAs (Decidable False)

variable (reader : MessageReader)

/-- `data.includes(…)` of a text or an array, and for a hit the text of `data`. Other values have no
such method. -/
def includesUnavailable : Value → Except Error (Option String)
  | .scalar (.str text) =>
      .ok (if unavailable.toList <:+: text.toList then some text else none)
  | .arr items =>
      .ok (if .str unavailable ∈ items then some (reader.arrayText items) else none)
  | _ =>
      .error { name := "TypeError", message := "message.data.includes is not a function" }

/-- The body of the `try` of `CosmosClient.handleError`: the text of `data` where it tells of a
pruned node. -/
def prunedData (message : String) : Except Error (Option String) :=
  match Json.parse reader.numbers message.toList with
  | none => .error { name := "SyntaxError", message := "Unexpected token in JSON" }
  | some parsed => do
      let data ← Value.get reader.prototypes parsed "data"
      if Falsy data then return none else includesUnavailable reader data

/-- `CosmosClient.handleError`. -/
def CosmosClient.handleError (e : Error) : Error :=
  match prunedData reader e.message with
  | .ok none => e
  | .ok (some data) => { e with message := data ++ prunedHint }
  | .error _ =>
      if e.message = "Request failed with status code 429" then { e with name := "RateLimitError" }
      else if e.message = "Request failed with status code 403" then { e with name := "Forbidden" }
      else e

/-! ## Errors as the connection reports them -/

/-- `ApiErrorType`. -/
inductive ApiErrorType
  | timeout
  | connection
  | rateLimit
  | default
deriving DecidableEq, Repr

/-- `ApiConnectionError`. -/
structure ApiConnectionError extends Error where
  errorType : ApiErrorType
deriving DecidableEq, Repr

namespace CosmosClientConnection

/-- `handleRateLimitError`. -/
def handleRateLimitError (e : Error) : ApiConnectionError :=
  { name := "RateLimit", message := e.message, errorType := .rateLimit }

/-- `handleTimeoutError`. -/
def handleTimeoutError (e : Error) : ApiConnectionError :=
  { name := "TimeoutError", message := e.message, errorType := .timeout }

/-- `handleDisconnectionError`. -/
def handleDisconnectionError (e : Error) : ApiConnectionError :=
  { name := "ConnectionError", message := e.message, errorType := .connection }

/-- What is put before the message of a large response. -/
def oversized : String :=
  "Oversized RPC node response. This issue is related to the network's RPC nodes configuration, not your application. You may report it to the network's maintainers or try a different RPC node.\n\n"

/-- `handleLargeResponseError`. -/
def handleLargeResponseError (e : Error) : ApiConnectionError :=
  { name := "RpcInternalError", message := oversized ++ e.message, errorType := .default }

/-- `handleError`. -/
def handleError (e : Error) : ApiConnectionError :=
  if "No response received from RPC endpoint in".toList <+: e.message.toList then
    handleTimeoutError e
  else if "disconnected from ".toList <+: e.message.toList then handleDisconnectionError e
  else if "Request failed with status code 429".toList <+: e.message.toList then
    handleRateLimitError e
  else if "Exceeded max limit of".toList <:+: e.message.toList then handleLargeResponseError e
  else { name := e.name, message := e.message, errorType := .default }

end CosmosClientConnection

/-! ## Error responses -/

/-- What the data of an error response tells of a pruned node. -/
def JsonRpcError.prunedData? (error : JsonRpcError) : Option String :=
  error.data.bind fun data =>
    if Falsy data then none else (includesUnavailable reader data).toOption.join

/-- An error response that is a JSON value, in a language whose objects inherit no property
`data`. -/
structure JsonRpcError.Plain (error : JsonRpcError) : Prop where
  portable : Json.Portable error.value
  bare : reader.prototypes .object "data" = .undefined

variable {reader} {error : JsonRpcError}

theorem text_toList (plain : error.Plain reader) :
    (error.text reader.numbers).toList = Json.write reader.numbers error.value := by
  rw [JsonRpcError.text, (Json.toJson_of_portable plain.portable).2, String.toList_ofList]

/-- An error response is read back from the text it is thrown as. -/
theorem parse_text (plain : error.Plain reader) :
    Json.parse reader.numbers (error.text reader.numbers).toList = some error.value := by
  rw [text_toList plain]
  exact Json.parse_write plain.portable

theorem text_starts (plain : error.Plain reader) :
    ∃ rest, (error.text reader.numbers).toList = '\x7b' :: rest := by
  rw [text_toList plain, JsonRpcError.value]
  split <;> exact ⟨_, rfl⟩

theorem get_data (plain : error.Plain reader) :
    Value.get reader.prototypes error.value "data" = .ok (error.data.getD .undefined) := by
  have bare := plain.bare
  rw [JsonRpcError.value]
  cases held : error.data with
  | none =>
      rw [Value.get_of_not_nullish _ _ id]
      simp [Value.member, lookup_cons_if, Value.kind, bare]
  | some data =>
      rw [Value.get_of_not_nullish _ _ id]
      simp [Value.member, lookup_cons_if]

theorem prunedData_text (plain : error.Plain reader) :
    (prunedData reader (error.text reader.numbers)).toOption.join = error.prunedData? reader := by
  rw [prunedData, parse_text plain]
  simp only [get_data plain, JsonRpcError.prunedData?]
  cases held : error.data with
  | none => rfl
  | some data =>
      simp only [Option.getD_some, Option.bind_some, bind, Except.bind]
      split <;> rfl

/-- The text of an error response is not the message of a failed HTTP request. -/
theorem handleError_text (plain : error.Plain reader) (name : String) :
    CosmosClient.handleError reader { name := name, message := error.text reader.numbers } =
      match error.prunedData? reader with
      | none => { name := name, message := error.text reader.numbers }
      | some data => { name := name, message := data ++ prunedHint } := by
  obtain ⟨rest, starts⟩ := text_starts plain
  have noStatus : ∀ status : String, status.toList.head? = some 'R' →
      error.text reader.numbers ≠ status := by
    rintro status head rfl
    rw [starts] at head
    cases head
  rw [← prunedData_text plain, CosmosClient.handleError]
  simp only
  cases read : prunedData reader (error.text reader.numbers) with
  | ok told => cases told <;> rfl
  | error raised =>
      simp only [if_neg (noStatus "Request failed with status code 429" rfl),
        if_neg (noStatus "Request failed with status code 403" rfl)]
      rfl

theorem execute_of_error (numbers : NumberFormat)
    (parseJsonRpcResponse : Value → Except Error JsonRpcResponse) {body : Value}
    {id : Option JsonRpcId} (answered : parseJsonRpcResponse body = .ok (.error id error)) :
    HttpClient.execute numbers parseJsonRpcResponse (.ok body) =
      .error { name := "Error", message := error.text numbers } := by
  simp only [HttpClient.execute, answered, bind, Except.bind, successOrThrow]

/-- The text of an error response starts like no other error the connection knows. -/
theorem connection_handleError_text (plain : error.Plain reader) :
    CosmosClientConnection.handleError
        { name := "Error", message := error.text reader.numbers } =
      if "Exceeded max limit of".toList <:+: (error.text reader.numbers).toList then
        CosmosClientConnection.handleLargeResponseError
          { name := "Error", message := error.text reader.numbers }
      else { name := "Error", message := error.text reader.numbers, errorType := .default } := by
  obtain ⟨rest, starts⟩ := text_starts plain
  have apart : ∀ front : String, front.toList.head?.any (· ≠ '\x7b') = true →
      ¬front.toList <+: (error.text reader.numbers).toList := by
    rintro front different ⟨more, whole⟩
    rw [starts] at whole
    cases letters : front.toList with
    | nil => simp [letters] at different
    | cons first others =>
        rw [letters] at whole different
        simp [(List.cons_eq_cons.mp whole).1] at different
  rw [CosmosClientConnection.handleError]
  simp only
  rw [if_neg (apart "No response received from RPC endpoint in" rfl),
    if_neg (apart "disconnected from " rfl),
    if_neg (apart "Request failed with status code 429" rfl)]

/-- An error response is thrown as its text. One that tells of a pruned node reaches the caller as what
it tells, with a hint. Any other reaches the connection pool with its whole content, which can be read
back from the message, and is taken for no timeout, disconnection or rate limit. -/
theorem error_response_reported (plain : error.Plain reader)
    (parseJsonRpcResponse : Value → Except Error JsonRpcResponse) {body : Value}
    {id : Option JsonRpcId} (answered : parseJsonRpcResponse body = .ok (.error id error)) :
    HttpClient.execute reader.numbers parseJsonRpcResponse (.ok body) =
        .error { name := "Error", message := error.text reader.numbers } ∧
      (∀ data, error.prunedData? reader = some data →
        CosmosClient.handleError reader
            { name := "Error", message := error.text reader.numbers } =
          { name := "Error", message := data ++ prunedHint }) ∧
      (error.prunedData? reader = none →
        ∃ reported front text,
          CosmosClientConnection.handleError (CosmosClient.handleError reader
              { name := "Error", message := error.text reader.numbers }) = reported ∧
            reported.errorType = .default ∧ reported.message = front ++ text ∧
            Json.parse reader.numbers text.toList = some error.value ∧
            (front = "" ∧ reported.name = "Error" ∨
              front = CosmosClientConnection.oversized ∧ reported.name = "RpcInternalError")) := by
  refine ⟨execute_of_error reader.numbers _ answered, fun data told => ?_, fun silent => ?_⟩
  · rw [handleError_text plain, told]
  · rw [handleError_text plain, silent]
    simp only [connection_handleError_text plain]
    split
    · exact ⟨_, _, _, rfl, rfl, rfl, parse_text plain, Or.inr ⟨rfl, rfl⟩⟩
    · exact ⟨_, "", _, rfl, rfl, (String.empty_append ..).symm, parse_text plain,
        Or.inl ⟨rfl, rfl⟩⟩

/-- A language without numbers other than safe integers and without inherited properties. -/
def plainReader : MessageReader where
  numbers := .integersOnly
  prototypes := fun _ _ => .undefined
  arrayText := fun _ => ""

/-- The answer of a node that has no block of height 1. -/
def prunedError : JsonRpcError where
  code := -32603
  message := "Internal error"
  data := some (.str "height 1 is not available, lowest height is 5")

theorem plain_prunedError : prunedError.Plain plainReader := by
  refine ⟨.obj _ (by decide) ?_, rfl⟩
  simp only [List.mem_cons, List.not_mem_nil, or_false, forall_eq_or_imp, forall_eq]
  exact ⟨.num (-32603) (by decide), .str _, .str _⟩

theorem prunedData_prunedError :
    prunedError.prunedData? plainReader =
      some "height 1 is not available, lowest height is 5" := by
  have told : unavailable.toList <:+: "height 1 is not available, lowest height is 5".toList := by
    decide
  have filled : ¬Falsy (.str "height 1 is not available, lowest height is 5") := by decide
  simp only [JsonRpcError.prunedData?, prunedError, Option.bind_some, if_neg filled,
    includesUnavailable, if_pos told]
  rfl

theorem prunedError_reported :
    HttpClient.execute plainReader.numbers (fun _ => .ok (.error none prunedError)) (.ok .null) =
        .error { name := "Error", message := prunedError.text plainReader.numbers } ∧
      CosmosClient.handleError plainReader
          { name := "Error", message := prunedError.text plainReader.numbers } =
        { name := "Error"
          message := "height 1 is not available, lowest height is 5" ++ prunedHint } := by
  obtain ⟨thrown, told, -⟩ := error_response_reported plain_prunedError
    (fun _ => .ok (.error none prunedError)) rfl
  exact ⟨thrown, told _ prunedData_prunedError⟩

/-! ## Batches -/

/-- How the Tendermint client decodes the responses for a block. -/
structure Tendermint37Client where
  decodeBlock : JsonRpcResponse → Except Error BlockResponse
  decodeBlockResults : JsonRpcResponse → Except Error BlockResultsResponse

/-- What the two requests for a height are answered with. -/
structure HeightAnswers where
  height : Nat
  block : Except Error JsonRpcResponse
  blockResults : Except Error JsonRpcResponse

/-- A request of the Tendermint client: an answer is executed, then decoded. -/
def ask {α : Type} (numbers : NumberFormat) (decode : JsonRpcResponse → Except Error α)
    (answer : Except Error JsonRpcResponse) : Except Error α := do
  let response ← answer
  let success ← successOrThrow numbers response
  decode success

/-- The requests of `getBlockByHeight`, with their errors as `CosmosClient.handleError` gives them. -/
def HeightAnswers.request (reader : MessageReader) (client : Tendermint37Client)
    (answers : HeightAnswers) : HeightRequest where
  height := answers.height
  blockInfo := (ask reader.numbers client.decodeBlock answers.block).mapError
    (CosmosClient.handleError reader)
  blockResults := (ask reader.numbers client.decodeBlockResults answers.blockResults).mapError
    (CosmosClient.handleError reader)

/-- The node answers with an error that tells of a pruned node. -/
def TellsPruned (reader : MessageReader) (answer : Except Error JsonRpcResponse) (data : String) :
    Prop :=
  ∃ id error, answer = .ok (.error id error) ∧ error.Plain reader ∧
    error.prunedData? reader = some data

/-- The request succeeds, or else the node tells that it is pruned. -/
def SucceedsUnlessPruned {α : Type} (reader : MessageReader)
    (decode : JsonRpcResponse → Except Error α) (answer : Except Error JsonRpcResponse) : Prop :=
  (∃ value, ask reader.numbers decode answer = .ok value) ∨ ∃ data, TellsPruned reader answer data

theorem ask_pruned {α : Type} {answer : Except Error JsonRpcResponse} {data : String}
    (told : TellsPruned reader answer data) (decode : JsonRpcResponse → Except Error α) :
    (ask reader.numbers decode answer).mapError (CosmosClient.handleError reader) =
      .error { name := "Error", message := data ++ prunedHint } := by
  obtain ⟨id, error, rfl, plain, pruned⟩ := told
  have handled := handleError_text plain "Error"
  rw [pruned] at handled
  simp only [ask, bind, Except.bind, successOrThrow, Except.mapError, handled]

theorem ask_error {α : Type} {answer : Except Error JsonRpcResponse}
    {decode : JsonRpcResponse → Except Error α} {error : Error}
    (only : SucceedsUnlessPruned reader decode answer)
    (failed : (ask reader.numbers decode answer).mapError (CosmosClient.handleError reader) =
      .error error) :
    ∃ data, TellsPruned reader answer data ∧
      error = { name := "Error", message := data ++ prunedHint } := by
  rcases only with ⟨value, succeeded⟩ | ⟨data, told⟩
  · rw [succeeded] at failed
    cases failed
  · rw [ask_pruned told] at failed
    exact ⟨data, told, (Except.error.inj failed).symm⟩

/-- When the node is pruned of some heights of a batch and answers the others, fetching the batch fails
with what it tells of one of them, and with the hint. -/
theorem pruned_batch (api : Codec) (client : Tendermint37Client) (batch : List HeightAnswers)
    (only : ∀ answers ∈ batch,
      SucceedsUnlessPruned reader client.decodeBlock answers.block ∧
        SucceedsUnlessPruned reader client.decodeBlockResults answers.blockResults)
    (pruned : ∃ answers ∈ batch, ∃ data,
      TellsPruned reader answers.block data ∨ TellsPruned reader answers.blockResults data) :
    ∃ answers ∈ batch, ∃ data,
      (TellsPruned reader answers.block data ∨ TellsPruned reader answers.blockResults data) ∧
        fetchHeights api (batch.map (HeightAnswers.request reader client)) =
          .error { name := "Error", message := data ++ prunedHint } := by
  cases fetched : fetchCosmosBlocksArray (batch.map (HeightAnswers.request reader client)) with
  | ok blocks =>
      obtain ⟨answers, member, data, told⟩ := pruned
      obtain ⟨block, answered⟩ := succeeds_of_mapM fetched _ (List.mem_map_of_mem member)
      obtain ⟨info, first, next⟩ := bind_eq_ok.mp answered
      obtain ⟨results, second, -⟩ := bind_eq_ok.mp next
      rcases told with told | told
      · rw [HeightAnswers.request, ask_pruned told] at first
        cases first
      · rw [HeightAnswers.request, ask_pruned told] at second
        cases second
  | error error =>
      have whole : fetchHeights api (batch.map (HeightAnswers.request reader client)) =
          .error error := by
        rw [fetchHeights, fetched]
        rfl
      obtain ⟨request, listed, failed⟩ := exists_of_mapM_error fetched
      obtain ⟨answers, member, rfl⟩ := List.mem_map.mp listed
      obtain ⟨first, second⟩ := only answers member
      rw [whole]
      rw [getBlockByHeight] at failed
      cases info : (HeightAnswers.request reader client answers).blockInfo with
      | error raised =>
          rw [info] at failed
          cases failed
          obtain ⟨data, told, rfl⟩ := ask_error first info
          exact ⟨answers, member, data, Or.inl told, rfl⟩
      | ok value =>
          rw [info] at failed
          cases results : (HeightAnswers.request reader client answers).blockResults with
          | error raised =>
              rw [results] at failed
              cases failed
              obtain ⟨data, told, rfl⟩ := ask_error second results
              exact ⟨answers, member, data, Or.inr told, rfl⟩
          | ok value =>
              rw [results] at failed
              cases failed

/-- A node that answers every request with that error. -/
theorem pruned_node_batch :
    ∃ data : String, fetchHeights sendCodec
        ([{ height := 1
            block := .ok (.error none prunedError)
            blockResults := .ok (.error none prunedError) }].map
          (HeightAnswers.request plainReader
            { decodeBlock := fun _ => .error { name := "Error", message := "" }
              decodeBlockResults := fun _ => .error { name := "Error", message := "" } })) =
      .error { name := "Error", message := data ++ prunedHint } := by
  have told : TellsPruned plainReader (.ok (.error none prunedError))
      "height 1 is not available, lowest height is 5" :=
    ⟨none, prunedError, rfl, plain_prunedError, prunedData_prunedError⟩
  obtain ⟨answers, -, data, -, failed⟩ := pruned_batch sendCodec
    { decodeBlock := fun _ => .error { name := "Error", message := "" }
      decodeBlockResults := fun _ => .error { name := "Error", message := "" } }
    [{ height := 1
       block := .ok (.error none prunedError)
       blockResults := .ok (.error none prunedError) }]
    (fun answers member => by
      rw [List.mem_singleton.mp member]
      exact ⟨Or.inr ⟨_, told⟩, Or.inr ⟨_, told⟩⟩)
    ⟨_, List.mem_cons_self, _, Or.inl told⟩
  exact ⟨data, failed⟩

end SubqlCosmos
