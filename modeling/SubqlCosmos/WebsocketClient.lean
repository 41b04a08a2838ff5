import SubqlCosmos.RpcErrors
import SubqlCosmos.Js.Program

/-!
# The client over a websocket

Subscriptions and the messages of one socket, in any interleaving (`rpc-clients/WebsocketClient.ts`). A run
takes the client through calls of `execute` and `listen`, through the starts and stops of the streams that
`listen` gives, and through what the socket tells.
-/

namespace SubqlCosmos

open Js

/-! ## What the socket tells -/

/-- `JsonRpcRequest`. -/
structure JsonRpcRequest where
  id : JsonRpcId
  method : String
  params : Value
deriving DecidableEq

/-- `SocketWrapperMessageEvent`. -/
structure SocketWrapperMessageEvent where
  type : String
  data : String
deriving DecidableEq

/-- An event of the socket's stream. -/
inductive SocketEvent
  | next (message : SocketWrapperMessageEvent)
  | error (error : Error)
  | complete
deriving DecidableEq

/-- What a stream of responses tells. -/
inductive Signal
  | response (response : JsonRpcResponse)
  | failure (error : Error)
  | complete
deriving DecidableEq

/-- What the listener of a producer is told. -/
inductive Notice
  | next (event : Value)
  | errorText (text : String)
  | error (error : Error)
  | complete
deriving DecidableEq

/-! ## Streams -/

/-- `idSubscription`, `idEventSubscription` and `nonResponseSubscription`. -/
inductive SubscriptionKind
  | id
  | idEvent
  | nonResponse
deriving DecidableEq, Repr

/-- A subscription, until it is unsubscribed. -/
structure Subscription where
  kind : SubscriptionKind
  active : Bool := true
deriving DecidableEq, Repr

/-- What a subscription does when it hears something: nothing, tell the listener, unsubscribe itself, or
close all subscriptions and tell the listener why. -/
inductive Reaction
  | ignore
  | tell (notice : Notice)
  | leave
  | close (notice : Notice)
deriving DecidableEq

/-- What is done at the end of a stream, which lets go of its listeners. -/
def Reaction.atEnd : Reaction → Reaction
  | .ignore => .leave
  | reaction => reaction

/-- What is subscribed to a stream of responses, with the filter in front of it. -/
structure ResponseListener where
  filter : JsonRpcResponse → Bool
  next : JsonRpcResponse → Reaction := fun _ => .ignore
  error : Error → Reaction := fun _ => .ignore
  complete : Reaction := .ignore

/-- The streams of `xstream`. -/
structure Xstream where
  /-- What `events.map(project)` tells of an event. -/
  map : (SocketWrapperMessageEvent → Except Error JsonRpcResponse) → SocketEvent → Signal
  map_ok : ∀ project message response, project message = .ok response →
    map project (.next message) = .response response
  /-- What the projection throws is an error of the stream. -/
  map_throws : ∀ project message raised, project message = .error raised →
    map project (.next message) = .failure raised
  map_error : ∀ project raised, map project (.error raised) = .failure raised
  map_complete : ∀ project, map project .complete = .complete
  /-- What a listener does that is told something. -/
  tell : ResponseListener → Signal → Reaction
  tell_kept : ∀ listener response, listener.filter response = true →
    tell listener (.response response) = listener.next response
  tell_left : ∀ listener response, listener.filter response = false →
    tell listener (.response response) = .ignore
  tell_failure : ∀ listener error, tell listener (.failure error) = (listener.error error).atEnd
  tell_complete : ∀ listener, tell listener .complete = listener.complete.atEnd
  /-- Subscriptions hear something one after the other: what is told by them, and what is left of them
  unless one closes all. -/
  inTurn : (SubscriptionKind → Reaction) → List Subscription →
    List Notice × Option (List Subscription)
  inTurn_nil : ∀ react, inTurn react [] = ([], some [])
  inTurn_ignore : ∀ react subscription others,
    (subscription.active = true → react subscription.kind = .ignore) →
      inTurn react (subscription :: others) =
        ((inTurn react others).1, (inTurn react others).2.map (subscription :: ·))
  inTurn_tell : ∀ react subscription others notice, subscription.active = true →
    react subscription.kind = .tell notice →
      inTurn react (subscription :: others) =
        (notice :: (inTurn react others).1, (inTurn react others).2.map (subscription :: ·))
  inTurn_leave : ∀ react subscription others, subscription.active = true →
    react subscription.kind = .leave →
      inTurn react (subscription :: others) =
        ((inTurn react others).1,
          (inTurn react others).2.map ({ subscription with active := false } :: ·))
  /-- Once all are closed, none hears it still. -/
  inTurn_close : ∀ react subscription others notice, subscription.active = true →
    react subscription.kind = .close notice →
      inTurn react (subscription :: others) = ([notice], none)
  /-- What `stream.filter(passes)` tells of what the stream tells. -/
  filter : (Value → Except Error Bool) → List Notice → List Notice
  filter_nil : ∀ passes, filter passes [] = []
  filter_passed : ∀ passes event later, passes event = .ok true →
    filter passes (.next event :: later) = .next event :: filter passes later
  filter_held : ∀ passes event later, passes event = .ok false →
    filter passes (.next event :: later) = filter passes later
  /-- What the filter throws is an error of its stream, and the end of it. -/
  filter_throws : ∀ passes event later raised, passes event = .error raised →
    filter passes (.next event :: later) = [.error raised]
  filter_end : ∀ passes notice later, (∀ event, notice ≠ .next event) →
    filter passes (notice :: later) = [notice]

/-- What the client takes from outside: the streams, the reading and writing of JSON, the responses it
stands for, what values inherit, and for which errors of the socket `onError` ends the process. -/
structure SocketSurroundings where
  xstream : Xstream
  numbers : NumberFormat
  prototypes : Prototypes
  parse : String → Except Error Value
  parseJsonRpcResponse : Value → Except Error JsonRpcResponse
  endsProcess : Error → Bool

variable (surroundings : SocketSurroundings)

/-- `toJsonRpcResponse`. -/
def toJsonRpcResponse (message : SocketWrapperMessageEvent) : Except Error JsonRpcResponse :=
  if message.type ≠ "message" then
    .error
      { name := "Error"
        message := "Unexcepted message type on websocket: " ++ message.type }
  else do
    let data ← surroundings.parse message.data
    surroundings.parseJsonRpcResponse data

/-- What `socket.events.map(toJsonRpcResponse)` tells of an event: a message that cannot be read is an error
of the stream. -/
def SocketEvent.signal : SocketEvent → Signal
  | .error raised => .failure raised
  | .complete => .complete
  | .next message =>
      match toJsonRpcResponse surroundings message with
      | .ok response => .response response
      | .error raised => .failure raised

theorem map_toJsonRpcResponse (event : SocketEvent) :
    surroundings.xstream.map (toJsonRpcResponse surroundings) event = event.signal surroundings := by
  cases event with
  | error raised => exact surroundings.xstream.map_error _ raised
  | complete => exact surroundings.xstream.map_complete _
  | next message =>
      rw [SocketEvent.signal]
      cases read : toJsonRpcResponse surroundings message with
      | ok response => exact surroundings.xstream.map_ok _ message response read
      | error raised => exact surroundings.xstream.map_throws _ message raised read

/-! ## Producers -/

/-- `RpcEventProducer`, with the requests it queued and what it told its listener. -/
structure RpcEventProducer where
  request : JsonRpcRequest
  running : Bool := false
  subscriptions : List Subscription := []
  sent : List JsonRpcRequest := []
  told : List Notice := []
deriving DecidableEq

/-- What `connectToClient` subscribes. -/
def SubscriptionKind.listener (numbers : NumberFormat) (request : JsonRpcRequest) :
    SubscriptionKind → ResponseListener
  | .id =>
      { filter := fun response => response.id = some request.id
        next := fun
          | .error _ error => .close (.errorText (error.text numbers))
          | .success _ _ => .leave }
  | .idEvent =>
      { filter := fun response => response.id = some request.id
        next := fun
          | .error _ error => .close (.errorText (error.text numbers))
          | .success _ result => .tell (.next result) }
  | .nonResponse =>
      { filter := fun _ => true
        error := fun error => .close (.error error)
        complete := .close .complete }

namespace RpcEventProducer

/-- `connectToClient`. -/
def connectToClient : Program RpcEventProducer Unit :=
  modify fun producer =>
    { producer with
      subscriptions :=
        producer.subscriptions ++ [{ kind := .id }, { kind := .idEvent }, { kind := .nonResponse }] }

/-- `socket.queueRequest(JSON.stringify(request))`. -/
def queueRequest (request : JsonRpcRequest) (queued : Except Error Unit) :
    Program RpcEventProducer Unit := do
  perform queued
  modify fun producer => { producer with sent := producer.sent ++ [request] }

/-- `start`. -/
def start (queued : Except Error Unit) : Program RpcEventProducer Unit := do
  let producer ← get
  if producer.running then
    throw { name := "Error", message := "Already started. Please stop first before restarting." }
  modify fun producer => { producer with running := true }
  connectToClient
  queueRequest producer.request queued

/-- `error.message.match(/socket has disconnected/i)`. -/
def HasDisconnected (error : Error) : Prop :=
  "socket has disconnected".toList <:+: error.message.toList.map Char.toLower

instance : DecidablePred HasDisconnected := fun _ =>
  inferInstanceAs (Decidable (_ <:+: _))

/-- `stop`. -/
def stop (queued : Except Error Unit) : Program RpcEventProducer Unit := do
  modify fun producer => { producer with running := false }
  let producer ← get
  tryCatch (queueRequest { producer.request with method := "unsubscribe" } queued) fun error =>
    if HasDisconnected error then pure () else throw error

/-- What the stream of responses tells reaches the subscriptions. -/
def hear (xstream : Xstream) (numbers : NumberFormat) (signal : Signal)
    (producer : RpcEventProducer) : RpcEventProducer :=
  let (notices, left) :=
    xstream.inTurn (fun kind => xstream.tell (kind.listener numbers producer.request) signal)
      producer.subscriptions
  { producer with subscriptions := left.getD [], told := producer.told ++ notices }

end RpcEventProducer

/-! ## The client -/

/-- `WebsocketClient`: the producers of `subscriptionStreams`, and whether `errorSubscription` still
listens. -/
structure WebsocketClient where
  subscriptionStreams : List (String × RpcEventProducer) := []
  errorSubscribed : Bool := true

/-- What happens to a client. The stream of a query starts its producer when it gets its first listener,
and stops it when it has lost the last one or has ended. `execute` queues a request and awaits the first
response with its id; the streams hear nothing of it. -/
inductive Move
  | execute (request : JsonRpcRequest)
  | listen (request : JsonRpcRequest)
  | start (query : String) (queued : Except Error Unit)
  | stop (query : String) (queued : Except Error Unit)
  | event (event : SocketEvent)

/-- The checks of `listen`, which give the query. -/
def listenQuery (request : JsonRpcRequest) : Except Error String :=
  if request.method ≠ "subscribe" then
    .error
      { name := "Error"
        message := "Request method must be \"subscribe\" to start event listening" }
  else do
    match ← Value.get surroundings.prototypes request.params "query" with
    | .scalar (.str query) => .ok query
    | _ => .error { name := "Error", message := "request.params.query must be a string" }

/-- The filter of the stream that `listen` gives: `response.query !== undefined`. -/
def hasQuery (response : Value) : Except Error Bool := do
  let query ← Value.get surroundings.prototypes response "query"
  return query ≠ .undefined

namespace WebsocketClient

/-- `listen`: a query has one stream, with the request that asked for it first. What is given is that
stream, filtered by `hasQuery`. -/
def listen (request : JsonRpcRequest) : Program WebsocketClient String := do
  let query ← perform (listenQuery surroundings request)
  modify fun client =>
    if (client.subscriptionStreams.lookup query).isSome then client
    else
      { client with
        subscriptionStreams := client.subscriptionStreams ++ [(query, { request := request })] }
  return query

/-- Something happens to the producer of a query. -/
def atQuery (query : String) (change : RpcEventProducer → RpcEventProducer)
    (client : WebsocketClient) : WebsocketClient :=
  { client with
    subscriptionStreams := client.subscriptionStreams.map fun stream =>
        (stream.1, if stream.1 = query then change stream.2 else stream.2) }

/-- The socket tells something to all that listen. -/
def hear (event : SocketEvent) (client : WebsocketClient) : WebsocketClient where
  subscriptionStreams := client.subscriptionStreams.map fun stream =>
    (stream.1, stream.2.hear surroundings.xstream surroundings.numbers
      (surroundings.xstream.map (toJsonRpcResponse surroundings) event))
  errorSubscribed :=
    match event with
    | .next _ => client.errorSubscribed
    | _ => false

/-- `onError` is handed the first error of the socket. -/
def EndsProcess (client : WebsocketClient) : SocketEvent → Prop
  | .error error => client.errorSubscribed = true ∧ surroundings.endsProcess error = true
  | _ => False

instance (client : WebsocketClient) : DecidablePred (client.EndsProcess surroundings)
  | .error _ => inferInstanceAs (Decidable (_ ∧ _))
  | .next _ | .complete => inferInstanceAs (Decidable False)

/-- The client after something happened to it, if the process goes on. -/
def advance (client : WebsocketClient) : Move → Option WebsocketClient
  | .execute _ => some client
  | .listen request => some (Feed.finalState (listen surroundings request client))
  | .start query queued =>
      some (client.atQuery query fun producer => Feed.finalState (RpcEventProducer.start queued producer))
  | .stop query queued =>
      some (client.atQuery query fun producer => Feed.finalState (RpcEventProducer.stop queued producer))
  | .event event =>
      if client.EndsProcess surroundings event then none else some (client.hear surroundings event)

/-- A new client goes through what happens to it. -/
def run (moves : List Move) : Option WebsocketClient :=
  moves.foldlM (advance surroundings) {}

end WebsocketClient

/-! ## Producers as counters -/

/-- What ends every subscription of a request, and what the listener is then told. -/
def closing (numbers : NumberFormat) (request : JsonRpcRequest) : Signal → Option Notice
  | .response (.success _ _) => none
  | .response (.error id error) =>
      if id = some request.id then some (.errorText (error.text numbers)) else none
  | .failure error => some (.error error)
  | .complete => some .complete

/-- The result of an answer to the request. -/
def ownResult (request : JsonRpcRequest) : Signal → Option Value
  | .response (.success id result) => if id = request.id then some result else none
  | _ => none

/-- What a subscription of a request tells the listener. -/
def news (request : JsonRpcRequest) (signal : Signal) : List Notice :=
  (ownResult request signal).toList.map .next

/-- What a producer does: how many times it has been started since its subscriptions were last closed, what
it sent and what it told. -/
structure Watch where
  request : JsonRpcRequest
  running : Bool := false
  listens : Nat := 0
  sent : List JsonRpcRequest := []
  told : List Notice := []
deriving DecidableEq

namespace Watch

/-- What is sent when a request is queued. -/
def sending (request : JsonRpcRequest) : Except Error Unit → List JsonRpcRequest
  | .ok () => [request]
  | .error _ => []

/-- A start that is not refused listens once more. -/
def start (queued : Except Error Unit) (watch : Watch) : Watch :=
  if watch.running then watch
  else
    { watch with
      running := true
      listens := watch.listens + 1
      sent := watch.sent ++ sending watch.request queued }

/-- A stop goes on listening. -/
def stop (queued : Except Error Unit) (watch : Watch) : Watch :=
  { watch with
    running := false
    sent := watch.sent ++ sending { watch.request with method := "unsubscribe" } queued }

/-- Each listening tells the news, and the first thing that ends them all is told once. -/
def hear (numbers : NumberFormat) (signal : Signal) (watch : Watch) : Watch :=
  match closing numbers watch.request signal with
  | none =>
      { watch with
        told := watch.told ++ (List.replicate watch.listens (news watch.request signal)).flatten }
  | some notice =>
      if watch.listens = 0 then watch
      else { watch with listens := 0, told := watch.told ++ [notice] }

/-- What happens to the producer of a query, if it is there. The first `listen` that asks for the query
creates it. -/
def step (query : String) : Option Watch → Move → Option Watch
  | none, .listen request =>
      match listenQuery surroundings request with
      | .ok asked => if asked = query then some { request := request } else none
      | .error _ => none
  | none, _ => none
  | some watch, .start started queued =>
      some (if started = query then watch.start queued else watch)
  | some watch, .stop stopped queued =>
      some (if stopped = query then watch.stop queued else watch)
  | some watch, .event event =>
      some (watch.hear surroundings.numbers (event.signal surroundings))
  | some watch, .execute _ | some watch, .listen _ => some watch

end Watch

/-- The subscriptions of one start; the first leaves at the first answer. -/
def subscriptionsOf (fresh : Bool) : List Subscription :=
  [{ kind := .id, active := fresh }, { kind := .idEvent }, { kind := .nonResponse }]

namespace RpcEventProducer

/-- The producer as a counter. -/
def watch (producer : RpcEventProducer) : Watch where
  request := producer.request
  running := producer.running
  listens := producer.subscriptions.countP fun subscription => subscription.kind = .nonResponse
  sent := producer.sent
  told := producer.told

/-- The subscriptions are those of some starts. -/
def Complete (producer : RpcEventProducer) : Prop :=
  ∃ fresh : List Bool, producer.subscriptions = fresh.flatMap subscriptionsOf

end RpcEventProducer

theorem countP_subscriptionsOf (fresh : List Bool) :
    (fresh.flatMap subscriptionsOf).countP (fun subscription => subscription.kind = .nonResponse) =
      fresh.length := by
  induction fresh with
  | nil => rfl
  | cons first fresh ih =>
      rw [List.flatMap_cons, List.countP_append, ih, List.length_cons, Nat.add_comm]
      rfl

section Hearing

variable (xstream : Xstream) {react : SubscriptionKind → Reaction}

theorem inTurn_ignored (ignored : ∀ kind, react kind = .ignore) (subscriptions : List Subscription) :
    xstream.inTurn react subscriptions = ([], some subscriptions) := by
  induction subscriptions with
  | nil => exact xstream.inTurn_nil react
  | cons subscription others ih =>
      rw [xstream.inTurn_ignore _ _ _ fun _ => ignored subscription.kind, ih]
      rfl

/-- Each start tells its listener. -/
theorem inTurn_told {notice : Notice} (leaves : react .id = .leave)
    (tells : react .idEvent = .tell notice) (ignores : react .nonResponse = .ignore)
    (fresh : List Bool) :
    xstream.inTurn react (fresh.flatMap subscriptionsOf) =
      (List.replicate fresh.length notice,
        some ((List.replicate fresh.length false).flatMap subscriptionsOf)) := by
  induction fresh with
  | nil => exact xstream.inTurn_nil react
  | cons first fresh ih =>
      rw [List.flatMap_cons, subscriptionsOf, List.cons_append, List.cons_append, List.cons_append,
        List.nil_append]
      have last := xstream.inTurn_ignore react { kind := .nonResponse }
        (fresh.flatMap subscriptionsOf) fun _ => ignores
      have middle := xstream.inTurn_tell react { kind := .idEvent }
        ({ kind := .nonResponse } :: fresh.flatMap subscriptionsOf) notice rfl tells
      rw [last, ih] at middle
      cases first with
      | true =>
          rw [xstream.inTurn_leave _ _ _ rfl leaves, middle]
          rfl
      | false =>
          rw [xstream.inTurn_ignore _ _ _ fun active => absurd active Bool.false_ne_true, middle]
          rfl

/-- The first start that closes everything is the last one heard of. -/
theorem inTurn_closed {notice : Notice}
    (closes : react .id = .close notice ∧ react .idEvent = .close notice ∨
      react .id = .leave ∧ react .idEvent = .leave ∧ react .nonResponse = .close notice)
    (first : Bool) (fresh : List Bool) :
    xstream.inTurn react ((first :: fresh).flatMap subscriptionsOf) = ([notice], none) := by
  rw [List.flatMap_cons, subscriptionsOf, List.cons_append, List.cons_append, List.cons_append,
    List.nil_append]
  rcases closes with ⟨id, idEvent⟩ | ⟨id, idEvent, nonResponse⟩
  · have middle := xstream.inTurn_close react { kind := .idEvent }
      ({ kind := .nonResponse } :: fresh.flatMap subscriptionsOf) notice rfl idEvent
    cases first with
    | true => exact xstream.inTurn_close _ _ _ _ rfl id
    | false =>
        rw [xstream.inTurn_ignore _ _ _ fun active => absurd active Bool.false_ne_true, middle]
        rfl
  · have last := xstream.inTurn_close react { kind := .nonResponse }
      (fresh.flatMap subscriptionsOf) notice rfl nonResponse
    have middle := xstream.inTurn_leave react { kind := .idEvent }
      ({ kind := .nonResponse } :: fresh.flatMap subscriptionsOf) rfl idEvent
    rw [last] at middle
    cases first with
    | true =>
        rw [xstream.inTurn_leave _ _ _ rfl id, middle]
        rfl
    | false =>
        rw [xstream.inTurn_ignore _ _ _ fun active => absurd active Bool.false_ne_true, middle]
        rfl

variable {numbers : NumberFormat} {request : JsonRpcRequest} {signal : Signal}

/-- What ends the subscriptions of a request is told once, however many they are. -/
theorem inTurn_closing {notice : Notice} (ending : closing numbers request signal = some notice)
    (first : Bool) (fresh : List Bool) :
    xstream.inTurn (fun kind => xstream.tell (kind.listener numbers request) signal)
        ((first :: fresh).flatMap subscriptionsOf) = ([notice], none) := by
  apply inTurn_closed
  cases signal with
  | failure error =>
      obtain rfl := Option.some.inj ending
      exact Or.inr
        ⟨xstream.tell_failure _ error, xstream.tell_failure _ error, xstream.tell_failure _ error⟩
  | complete =>
      obtain rfl := Option.some.inj ending
      exact Or.inr ⟨xstream.tell_complete _, xstream.tell_complete _, xstream.tell_complete _⟩
  | response response =>
      cases response with
      | success id result => cases ending
      | error id error =>
          simp only [closing, Option.ite_none_right_eq_some, Option.some.injEq] at ending
          obtain ⟨own, rfl⟩ := ending
          exact Or.inl ⟨xstream.tell_kept _ _ (decide_eq_true own),
            xstream.tell_kept _ _ (decide_eq_true own)⟩

/-- Anything else is told once for each start. -/
theorem inTurn_news (going : closing numbers request signal = none) (fresh : List Bool) :
    ∃ still : List Bool, still.length = fresh.length ∧
      xstream.inTurn (fun kind => xstream.tell (kind.listener numbers request) signal)
          (fresh.flatMap subscriptionsOf) =
        ((List.replicate fresh.length (news request signal)).flatten,
          some (still.flatMap subscriptionsOf)) := by
  cases signal with
  | failure error => cases going
  | complete => cases going
  | response response =>
      have ignores : xstream.tell (SubscriptionKind.nonResponse.listener numbers request)
          (.response response) = .ignore := xstream.tell_kept _ response rfl
      by_cases own : response.id = some request.id
      · cases response with
        | error id error =>
            rw [JsonRpcResponse.id] at own
            rw [closing, if_pos own] at going
            cases going
        | success id result =>
            have told : news request (.response (.success id result)) = [.next result] := by
              rw [news, ownResult, if_pos (Option.some.inj own)]
              rfl
            refine ⟨List.replicate fresh.length false, List.length_replicate, ?_⟩
            rw [told, List.flatten_replicate_singleton]
            exact inTurn_told xstream (xstream.tell_kept _ _ (decide_eq_true own))
              (xstream.tell_kept _ _ (decide_eq_true own)) ignores fresh
      · have silent : news request (.response response) = [] := by
          cases response with
          | error id error => rfl
          | success id result =>
              rw [news, ownResult, if_neg fun same => own (congrArg some same)]
              rfl
        refine ⟨fresh, rfl, ?_⟩
        rw [silent, List.flatten_replicate_nil]
        refine inTurn_ignored xstream (fun kind => ?_) _
        cases kind with
        | id | idEvent => exact xstream.tell_left _ _ (decide_eq_false own)
        | nonResponse => exact ignores

end Hearing

namespace RpcEventProducer

variable {producer : RpcEventProducer}

theorem complete_new (request : JsonRpcRequest) : Complete { request := request } := ⟨[], rfl⟩

/-- Hearing something does to the producer what it does to the counter. -/
theorem Complete.hear (complete : producer.Complete) (xstream : Xstream) (numbers : NumberFormat)
    (signal : Signal) :
    (producer.hear xstream numbers signal).Complete ∧
      (producer.hear xstream numbers signal).watch = producer.watch.hear numbers signal := by
  obtain ⟨fresh, subscribed⟩ := complete
  cases ending : closing numbers producer.request signal with
  | none =>
      obtain ⟨still, same, heard⟩ := inTurn_news xstream ending fresh
      simp only [RpcEventProducer.hear, subscribed, heard, Option.getD_some]
      refine ⟨⟨still, rfl⟩, ?_⟩
      simp only [watch, Watch.hear, ending, subscribed, countP_subscriptionsOf, same]
  | some notice =>
      cases fresh with
      | nil =>
          rw [List.flatMap_nil] at subscribed
          simp only [RpcEventProducer.hear, subscribed, xstream.inTurn_nil, Option.getD_some,
            List.append_nil]
          refine ⟨⟨[], rfl⟩, ?_⟩
          simp only [watch, Watch.hear, ending, subscribed, List.countP_nil, if_pos]
      | cons first fresh =>
          simp only [RpcEventProducer.hear, subscribed, inTurn_closing xstream ending,
            Option.getD_none]
          refine ⟨⟨[], rfl⟩, ?_⟩
          simp only [watch, Watch.hear, ending, subscribed, countP_subscriptionsOf, List.length_cons,
            if_neg (Nat.succ_ne_zero fresh.length), List.countP_nil]

/-- A start that is not refused subscribes, even when its request cannot be queued. -/
theorem finalState_start (queued : Except Error Unit) :
    Feed.finalState (start queued producer) =
      if producer.running then producer
      else
        { producer with
          running := true
          subscriptions := producer.subscriptions ++ subscriptionsOf true
          sent := producer.sent ++ Watch.sending producer.request queued } := by
  obtain ⟨request, running, subscriptions, sent, told⟩ := producer
  cases running with
  | true => rfl
  | false =>
      cases queued with
      | ok done => rfl
      | error error =>
          rw [Watch.sending, List.append_nil]
          rfl

/-- A stop leaves the subscriptions. -/
theorem finalState_stop (queued : Except Error Unit) :
    Feed.finalState (stop queued producer) =
      { producer with
        running := false
        sent :=
          producer.sent ++ Watch.sending { producer.request with method := "unsubscribe" } queued } := by
  cases queued with
  | ok done => rfl
  | error error =>
      rw [Watch.sending, List.append_nil]
      have refused :
          queueRequest { producer.request with method := "unsubscribe" } (.error error)
              { producer with running := false } =
            .error error { producer with running := false } := rfl
      have ended : stop (.error error) producer =
          (if HasDisconnected error then pure () else throw error : Program RpcEventProducer Unit)
            { producer with running := false } := by
        change tryCatch (queueRequest { producer.request with method := "unsubscribe" } (.error error))
          (fun error => if HasDisconnected error then pure () else throw error)
          { producer with running := false } = _
        exact Program.tryCatch_of_error refused
      rw [ended]
      split <;> rfl

theorem Complete.start (complete : producer.Complete) (queued : Except Error Unit) :
    (Feed.finalState (RpcEventProducer.start queued producer)).Complete ∧
      (Feed.finalState (RpcEventProducer.start queued producer)).watch =
        producer.watch.start queued := by
  obtain ⟨fresh, subscribed⟩ := complete
  rw [finalState_start]
  by_cases running : producer.running = true
  · rw [if_pos running]
    exact ⟨⟨fresh, subscribed⟩, (if_pos running).symm⟩
  · rw [if_neg running]
    refine ⟨⟨fresh ++ [true], by simp [subscribed]⟩, ?_⟩
    simp only [watch, Watch.start, running, subscribed, countP_subscriptionsOf, List.countP_append]
    rfl

theorem Complete.stop (complete : producer.Complete) (queued : Except Error Unit) :
    (Feed.finalState (RpcEventProducer.stop queued producer)).Complete ∧
      (Feed.finalState (RpcEventProducer.stop queued producer)).watch =
        producer.watch.stop queued := by
  rw [finalState_stop]
  exact ⟨complete, rfl⟩

end RpcEventProducer

/-! ## Runs -/

namespace WebsocketClient

/-- What the socket tells. -/
def signals : List Move → List Signal
  | [] => []
  | .event event :: later => event.signal surroundings :: signals later
  | _ :: later => signals later

variable {surroundings} {client next : WebsocketClient}

theorem finalState_listen (request : JsonRpcRequest) :
    Feed.finalState (listen surroundings request client) =
      match listenQuery surroundings request with
      | .error _ => client
      | .ok query =>
          if (client.subscriptionStreams.lookup query).isSome then client
          else
            { client with
              subscriptionStreams :=
                client.subscriptionStreams ++ [(query, { request := request })] } := by
  rw [listen]
  cases listenQuery surroundings request with
  | error error => rfl
  | ok query => rfl

/-! ### Streams -/

theorem lookup_map_value {α : Type} (change : String → α → α) (entries : List (String × α))
    (key : String) :
    (entries.map fun entry => (entry.1, change entry.1 entry.2)).lookup key =
      (entries.lookup key).map (change key) := by
  induction entries with
  | nil => rfl
  | cons entry entries ih =>
      obtain ⟨first, value⟩ := entry
      rw [List.map_cons, lookup_cons_if, lookup_cons_if, ih]
      by_cases same : key = first
      · simp [same]
      · simp [same]

theorem lookup_atQuery (query other : String) (change : RpcEventProducer → RpcEventProducer) :
    (client.atQuery query change).subscriptionStreams.lookup other =
      (client.subscriptionStreams.lookup other).map fun producer =>
        if other = query then change producer else producer :=
  lookup_map_value (fun name producer => if name = query then change producer else producer) _ other

theorem lookup_hear (event : SocketEvent) (query : String) :
    (client.hear surroundings event).subscriptionStreams.lookup query =
      (client.subscriptionStreams.lookup query).map
        (RpcEventProducer.hear surroundings.xstream surroundings.numbers
          (event.signal surroundings)) := by
  rw [← map_toJsonRpcResponse]
  exact lookup_map_value
    (fun _ (producer : RpcEventProducer) =>
      producer.hear surroundings.xstream surroundings.numbers
        (surroundings.xstream.map (toJsonRpcResponse surroundings) event)) _ query

/-- What is there of a producer is what is there of the counter. -/
inductive Shown : Option RpcEventProducer → Option Watch → Prop
  | absent : Shown none none
  | present {producer : RpcEventProducer} (complete : producer.Complete) :
      Shown (some producer) (some producer.watch)

theorem shown_iff {producer? : Option RpcEventProducer} {watch? : Option Watch} :
    Shown producer? watch? ↔
      producer?.map RpcEventProducer.watch = watch? ∧ ∀ producer ∈ producer?, producer.Complete := by
  constructor
  · rintro (_ | complete)
    · exact ⟨rfl, nofun⟩
    · exact ⟨rfl, fun producer member => Option.some.inj member ▸ complete⟩
  · rintro ⟨rfl, complete⟩
    cases producer? with
    | none => exact .absent
    | some producer => exact .present (complete producer rfl)

theorem Shown.map {producer? : Option RpcEventProducer} {watch? : Option Watch}
    (shown : Shown producer? watch?) {change : RpcEventProducer → RpcEventProducer}
    {follow : Watch → Watch}
    (follows : ∀ producer : RpcEventProducer, producer.Complete →
      (change producer).Complete ∧ (change producer).watch = follow producer.watch) :
    Shown (producer?.map change) (watch?.map follow) := by
  cases shown with
  | absent => exact .absent
  | present complete =>
      obtain ⟨still, same⟩ := follows _ complete
      rw [Option.map_some, Option.map_some, ← same]
      exact .present still

/-- A listen creates the stream of its query when there is none. -/
theorem Shown.listen {query : String} {watch? : Option Watch} (request : JsonRpcRequest)
    (shown : Shown (client.subscriptionStreams.lookup query) watch?) :
    Shown
      ((Feed.finalState (WebsocketClient.listen surroundings request client)).subscriptionStreams.lookup
        query)
      (Watch.step surroundings query watch? (.listen request)) := by
  rw [finalState_listen]
  cases asking : listenQuery surroundings request with
  | error error =>
      cases watch? with
      | none => simpa [Watch.step, asking] using shown
      | some watch => exact shown
  | ok asked =>
      simp only
      by_cases held : (client.subscriptionStreams.lookup asked).isSome
      · rw [if_pos held]
        cases watch? with
        | some watch => exact shown
        | none =>
            have other : asked ≠ query := by
              rintro rfl
              generalize client.subscriptionStreams.lookup asked = found at held shown
              cases shown
              cases held
            simpa [Watch.step, asking, other] using shown
      · rw [if_neg held]
        simp only [List.lookup_append]
        generalize client.subscriptionStreams.lookup query = found at shown ⊢
        cases shown with
        | present complete => exact .present complete
        | absent =>
            rw [lookup_cons_if, Watch.step, asking]
            by_cases own : asked = query
            · simp only [if_pos own, if_pos own.symm]
              exact .present (RpcEventProducer.complete_new request)
            · simp only [if_neg own, if_neg (Ne.symm own)]
              exact .absent

theorem Shown.atQuery {query : String} (changed : String) {watch? : Option Watch}
    (shown : Shown (client.subscriptionStreams.lookup query) watch?)
    {change : RpcEventProducer → RpcEventProducer} {follow : Watch → Watch}
    (follows : ∀ producer : RpcEventProducer, producer.Complete →
      (change producer).Complete ∧ (change producer).watch = follow producer.watch) :
    Shown ((client.atQuery changed change).subscriptionStreams.lookup query)
      (watch?.map fun watch => if changed = query then follow watch else watch) := by
  rw [lookup_atQuery]
  apply shown.map
  intro producer complete
  by_cases own : query = changed
  · rw [if_pos own, if_pos own.symm]
    exact follows producer complete
  · rw [if_neg own, if_neg (Ne.symm own)]
    exact ⟨complete, rfl⟩

/-- What happens to a client does to the producer of a query what it does to the counter. -/
theorem Shown.advance {query : String} {watch? : Option Watch} {move : Move}
    (shown : Shown (client.subscriptionStreams.lookup query) watch?)
    (step : client.advance surroundings move = some next) :
    Shown (next.subscriptionStreams.lookup query) (Watch.step surroundings query watch? move) := by
  cases move with
  | execute request =>
      obtain rfl := Option.some.inj step
      cases watch? <;> exact shown
  | listen request =>
      obtain rfl := Option.some.inj step
      exact shown.listen request
  | start started queued =>
      obtain rfl := Option.some.inj step
      have changed := shown.atQuery started fun producer complete => complete.start queued
      cases watch? <;> exact changed
  | stop stopped queued =>
      obtain rfl := Option.some.inj step
      have changed := shown.atQuery stopped fun producer complete => complete.stop queued
      cases watch? <;> exact changed
  | event event =>
      rw [WebsocketClient.advance] at step
      split at step
      · cases step
      · obtain rfl := Option.some.inj step
        have heard := shown.map fun producer complete =>
          complete.hear surroundings.xstream surroundings.numbers (event.signal surroundings)
        rw [lookup_hear]
        cases watch? <;> exact heard

/-- What happens to a client does to the producer of a query what it does to the counter. -/
theorem Shown.foldlM {query : String} {watch? : Option Watch} {moves : List Move}
    (shown : Shown (client.subscriptionStreams.lookup query) watch?)
    (ran : moves.foldlM (WebsocketClient.advance surroundings) client = some next) :
    Shown (next.subscriptionStreams.lookup query)
      (moves.foldl (Watch.step surroundings query) watch?) := by
  induction moves generalizing client watch? with
  | nil =>
      obtain rfl := Option.some.inj ran
      exact shown
  | cons move moves ih =>
      rw [List.foldlM_cons] at ran
      obtain ⟨between, step, ran⟩ := Option.bind_eq_some_iff.mp ran
      exact ih (shown.advance step) ran

theorem shown_run {moves : List Move} (ran : run surroundings moves = some client) (query : String) :
    Shown (client.subscriptionStreams.lookup query)
      (moves.foldl (Watch.step surroundings query) none) := by
  have new : Shown (({} : WebsocketClient).subscriptionStreams.lookup query) none := .absent
  exact new.foldlM ran

/-- In every run the producer of each query counts: the requests it sends, and what it tells its
listener, are those of a counter of the starts since the last closing, whatever the requests and the
other queries do meanwhile. -/
theorem streams_shown {moves : List Move} (ran : run surroundings moves = some client)
    (query : String) :
    (client.subscriptionStreams.lookup query).map RpcEventProducer.watch =
      moves.foldl (Watch.step surroundings query) none :=
  (shown_iff.mp (shown_run ran query)).1

/-- Subscriptions that hear something one after the other. -/
def hearInTurn (react : SubscriptionKind → Reaction) :
    List Subscription → List Notice × Option (List Subscription)
  | [] => ([], some [])
  | subscription :: others =>
      let (notices, left) := hearInTurn react others
      match if subscription.active then react subscription.kind else .ignore with
      | .ignore => (notices, left.map (subscription :: ·))
      | .tell notice => (notice :: notices, left.map (subscription :: ·))
      | .leave => (notices, left.map ({ subscription with active := false } :: ·))
      | .close notice => ([notice], none)

/-- The events that pass, up to an error or the end. -/
def filterNotices (passes : Value → Except Error Bool) : List Notice → List Notice
  | [] => []
  | .next event :: later =>
      match passes event with
      | .ok true => .next event :: filterNotices passes later
      | .ok false => filterNotices passes later
      | .error raised => [.error raised]
  | notice :: _ => [notice]

/-- The streams of `xstream`, computed. -/
def inOrder : Xstream where
  map project
    | .error raised => .failure raised
    | .complete => .complete
    | .next message =>
        match project message with
        | .ok response => .response response
        | .error raised => .failure raised
  map_ok _ _ _ read := by simp only [read]
  map_throws _ _ _ read := by simp only [read]
  map_error _ _ := rfl
  map_complete _ := rfl
  tell listener
    | .response response => if listener.filter response then listener.next response else .ignore
    | .failure error => (listener.error error).atEnd
    | .complete => listener.complete.atEnd
  tell_kept _ _ kept := if_pos kept
  tell_left _ _ left := if_neg (Bool.eq_false_iff.mp left)
  tell_failure _ _ := rfl
  tell_complete _ := rfl
  inTurn := hearInTurn
  inTurn_nil _ := rfl
  inTurn_ignore react subscription others ignores := by
    have ignored : (if subscription.active then react subscription.kind else .ignore) =
        .ignore := ite_eq_right_iff.mpr ignores
    simp only [hearInTurn, ignored]
  inTurn_tell _ _ _ _ active tells := by simp only [hearInTurn, active, tells, if_pos]
  inTurn_leave _ _ _ active leaves := by simp only [hearInTurn, active, leaves, if_pos]
  inTurn_close _ _ _ _ active closes := by simp only [hearInTurn, active, closes, if_pos]
  filter := filterNotices
  filter_nil _ := rfl
  filter_passed _ _ _ passed := by simp only [filterNotices, passed]
  filter_held _ _ _ held := by simp only [filterNotices, held]
  filter_throws _ _ _ _ throws := by simp only [filterNotices, throws]
  filter_end _ notice _ ends := by
    cases notice with
    | next event => exact absurd rfl (ends event)
    | errorText | error | complete => rfl

/-- An event of a new block, and the answer that tells it. -/
def blockEvent : Value := .obj [("query", .str "tm.event='NewBlock'")]

def blockAnswer : Value := .obj [("jsonrpc", .str "2.0"), ("id", .num 1), ("result", blockEvent)]

def blockAnswerText : String :=
  "\x7b\"jsonrpc\":\"2.0\",\"id\":1,\"result\":\x7b\"query\":\"tm.event='NewBlock'\"\x7d\x7d"

/-- Surroundings in which the node knows no other answer. -/
def quietSurroundings : SocketSurroundings where
  xstream := inOrder
  numbers := plainReader.numbers
  prototypes := fun _ _ => .undefined
  parse text :=
    if text = blockAnswerText then .ok blockAnswer
    else .error { name := "SyntaxError", message := "Unexpected token in JSON" }
  parseJsonRpcResponse data :=
    if data = blockAnswer then .ok (.success (.num 1) blockEvent)
    else .error { name := "Error", message := "Invalid JSON-RPC response" }
  endsProcess _ := true

/-- A request for the events of new blocks. -/
def newBlocks : JsonRpcRequest where
  id := .num 1
  method := "subscribe"
  params := .obj [("query", .str "tm.event='NewBlock'")]

/-- The socket tells the answer. -/
def answered : Move :=
  .event (.next { type := "message", data := blockAnswerText })

/-- A stream that is stopped and started again tells each event twice. -/
theorem newBlocks_told_twice :
    ∃ client,
      run quietSurroundings
          [.listen newBlocks, .start "tm.event='NewBlock'" (.ok ()), answered,
            .stop "tm.event='NewBlock'" (.ok ()), .start "tm.event='NewBlock'" (.ok ()), answered] =
        some client ∧
        ((client.subscriptionStreams.lookup "tm.event='NewBlock'").map RpcEventProducer.watch).map
            Watch.told =
          some [.next blockEvent, .next blockEvent, .next blockEvent] := by
  have ran : ∃ client,
      run quietSurroundings
          [.listen newBlocks, .start "tm.event='NewBlock'" (.ok ()), answered,
            .stop "tm.event='NewBlock'" (.ok ()), .start "tm.event='NewBlock'" (.ok ()), answered] =
        some client := ⟨_, rfl⟩
  obtain ⟨client, ran⟩ := ran
  refine ⟨client, ran, ?_⟩
  rw [streams_shown ran]
  rfl

/-- What is due to the listener of a request that is listened to once: the news, up to what ends it. -/
def dueNotices (numbers : NumberFormat) (request : JsonRpcRequest) : List Signal → List Notice
  | [] => []
  | signal :: later =>
      match closing numbers request signal with
      | some notice => [notice]
      | none => news request signal ++ dueNotices numbers request later

/-- What of that passes the filter of `listen`: the results with a `query`, up to what ends it or a result
of which none can be read. -/
def dueEvents (surroundings : SocketSurroundings) (request : JsonRpcRequest) : List Signal → List Notice
  | [] => []
  | signal :: later =>
      match closing surroundings.numbers request signal with
      | some notice => [notice]
      | none =>
          match (ownResult request signal).map fun result => (result, hasQuery surroundings result) with
          | none | some (_, .ok false) => dueEvents surroundings request later
          | some (result, .ok true) => .next result :: dueEvents surroundings request later
          | some (_, .error raised) => [.error raised]

theorem closing_ne_next {numbers : NumberFormat} {request : JsonRpcRequest} {signal : Signal}
    {notice : Notice} (ending : closing numbers request signal = some notice) (event : Value) :
    notice ≠ .next event := by
  rintro rfl
  cases signal with
  | failure | complete => cases ending
  | response response =>
      cases response with
      | success id result => cases ending
      | error id error =>
          rw [closing] at ending
          split at ending <;> cases ending

/-- The filter of `listen` lets through what is due. -/
theorem filter_dueNotices (request : JsonRpcRequest) (signals : List Signal) :
    surroundings.xstream.filter (hasQuery surroundings)
        (dueNotices surroundings.numbers request signals) =
      dueEvents surroundings request signals := by
  induction signals with
  | nil => exact surroundings.xstream.filter_nil _
  | cons signal signals ih =>
      rw [dueNotices, dueEvents]
      cases ending : closing surroundings.numbers request signal with
      | some notice => exact surroundings.xstream.filter_end _ notice [] (closing_ne_next ending)
      | none =>
          simp only [news]
          cases own : ownResult request signal with
          | none => exact ih
          | some result =>
              simp only [Option.toList_some, List.map_singleton, List.singleton_append,
                Option.map_some]
              cases passes : hasQuery surroundings result with
              | error raised => exact surroundings.xstream.filter_throws _ result _ raised passes
              | ok passed =>
                  cases passed with
                  | true => rw [surroundings.xstream.filter_passed _ _ _ passes, ih]
                  | false => rw [surroundings.xstream.filter_held _ _ _ passes, ih]

/-- The query is not started. -/
def Unstarted (query : String) (moves : List Move) : Prop :=
  ∀ queued, .start query queued ∉ moves

theorem Unstarted.of_cons {query : String} {move : Move} {moves : List Move}
    (unstarted : Unstarted query (move :: moves)) : Unstarted query moves :=
  fun queued member => unstarted queued (List.mem_cons_of_mem _ member)

theorem Watch.hear_of_silent {watch : Watch} (silent : watch.listens = 0) (numbers : NumberFormat)
    (signal : Signal) : watch.hear numbers signal = watch := by
  obtain ⟨request, running, listens, sent, told⟩ := watch
  obtain rfl : listens = 0 := silent
  rw [Watch.hear]
  cases closing numbers request signal with
  | none => rw [List.replicate_zero, List.flatten_nil, List.append_nil]
  | some notice => rfl

/-- Without a start, a producer that listens at most once tells what is due, and does not begin to
listen. -/
theorem told_of_unstarted {query : String} {moves : List Move} (unstarted : Unstarted query moves)
    (watch : Watch) (once : watch.listens ≤ 1) :
    ∃ after : Watch,
      moves.foldl (Watch.step surroundings query) (some watch) = some after ∧
        after.request = watch.request ∧
        (watch.running = false → after.running = false) ∧
        (watch.listens = 0 → after.listens = 0) ∧
        after.told =
          watch.told ++
            if watch.listens = 0 then []
            else dueNotices surroundings.numbers watch.request (signals surroundings moves) := by
  induction moves generalizing watch with
  | nil => exact ⟨watch, rfl, rfl, id, id, by split <;> simp [signals, dueNotices]⟩
  | cons move moves ih =>
      have later := ih unstarted.of_cons
      rw [List.foldl_cons]
      cases move with
      | execute request => exact later watch once
      | listen request => exact later watch once
      | start started queued =>
          have other : started ≠ query := by
            rintro rfl
            exact unstarted queued List.mem_cons_self
          rw [Watch.step, if_neg other]
          exact later watch once
      | stop stopped queued =>
          rw [Watch.step]
          by_cases own : stopped = query
          · rw [if_pos own]
            obtain ⟨after, ended, request, running, listens, told⟩ := later (watch.stop queued) once
            exact ⟨after, ended, request, fun _ => running rfl, listens, told⟩
          · rw [if_neg own]
            exact later watch once
      | event event =>
          rw [Watch.step, signals]
          obtain silent | single : watch.listens = 0 ∨ watch.listens = 1 := by omega
          · rw [Watch.hear_of_silent silent]
            simpa only [if_pos silent] using later watch once
          · have listening : watch.listens ≠ 0 := by omega
            rw [if_neg listening, dueNotices]
            cases ending : closing surroundings.numbers watch.request (event.signal surroundings) with
            | none =>
                obtain ⟨after, ended, request, running, listens, told⟩ :=
                  later (watch.hear surroundings.numbers (event.signal surroundings))
                    (by simpa only [Watch.hear, ending] using once)
                simp only [Watch.hear, ending, if_neg listening] at ended request running listens told
                refine ⟨after, by simpa only [Watch.hear, ending] using ended, request, running,
                  listens, ?_⟩
                rw [told, single, List.replicate_one, List.flatten_singleton, List.append_assoc]
            | some notice =>
                obtain ⟨after, ended, request, running, listens, told⟩ :=
                  later { watch with listens := 0, told := watch.told ++ [notice] } (Nat.zero_le 1)
                refine ⟨after, by simpa only [Watch.hear, ending, if_neg listening] using ended, request,
                  running, fun none => absurd none listening, ?_⟩
                simpa only [if_pos, List.append_nil] using told

/-- A query that is not asked for has no producer. -/
theorem absent_of_unasked {query : String} {moves : List Move}
    (unasked : ∀ request, .listen request ∈ moves → listenQuery surroundings request ≠ .ok query) :
    moves.foldl (Watch.step surroundings query) none = none := by
  induction moves with
  | nil => rfl
  | cons move moves ih =>
      have still := ih fun request member => unasked request (List.mem_cons_of_mem _ member)
      rw [List.foldl_cons]
      cases move with
      | listen request =>
          have other := unasked request List.mem_cons_self
          rw [Watch.step]
          cases asking : listenQuery surroundings request with
          | error error => exact still
          | ok asked =>
              have apart : asked ≠ query := by
                rintro rfl
                exact other asking
              simpa only [if_neg apart] using still
      | execute request | start started queued | stop stopped queued | event event =>
          exact still

/-- A stream that is started once tells, for the request that asked for its query first, each event once
and in order up to the first error or end, and that once; nothing before the start and nothing after. Who
listens to what `listen` gives is told what of it passes its filter. -/
theorem told_once_started {asked between later : List Move} {request : JsonRpcRequest}
    {query : String} {queued : Except Error Unit}
    (ran : run surroundings (asked ++ .listen request :: between ++ .start query queued :: later) =
      some client)
    (asks : listenQuery surroundings request = .ok query)
    (first : ∀ other, .listen other ∈ asked → listenQuery surroundings other ≠ .ok query)
    (before : Unstarted query between) (after : Unstarted query later) :
    ∃ producer,
      client.subscriptionStreams.lookup query = some producer ∧ producer.request = request ∧
        producer.told = dueNotices surroundings.numbers request (signals surroundings later) ∧
          surroundings.xstream.filter (hasQuery surroundings) producer.told =
            dueEvents surroundings request (signals surroundings later) := by
  have shown := shown_run ran query
  have created : Watch.step surroundings query none (.listen request) =
      some { request := request } := by
    simp only [Watch.step, asks, if_pos]
  rw [List.append_assoc, List.foldl_append, absent_of_unasked first, List.cons_append, List.foldl_cons,
    created, List.foldl_append] at shown
  obtain ⟨waiting, waited, own, running, listens, told⟩ :=
    told_of_unstarted before { request := request } (Nat.zero_le 1)
  have idle : waiting.running = false := running rfl
  have unheard : waiting.listens = 0 := listens rfl
  have started : Watch.step surroundings query (some waiting) (.start query queued) =
      some
        { waiting with
          running := true
          listens := 1
          sent := waiting.sent ++ Watch.sending waiting.request queued } := by
    simp only [Watch.step, if_pos, Watch.start, idle, unheard]
    rfl
  obtain ⟨final, ended, kept, -, -, due⟩ :=
    told_of_unstarted after
      { waiting with
        running := true
        listens := 1
        sent := waiting.sent ++ Watch.sending waiting.request queued } (Nat.le_refl 1)
  rw [waited, List.foldl_cons, started, ended] at shown
  generalize client.subscriptionStreams.lookup query = found at shown ⊢
  obtain ⟨same, -⟩ := shown_iff.mp shown
  obtain ⟨producer, rfl, rfl⟩ := Option.map_eq_some_iff.mp same
  have fresh : waiting.told = [] := by simpa using told
  rw [own, fresh] at due
  have heard : producer.told = dueNotices surroundings.numbers request (signals surroundings later) :=
    due
  exact ⟨producer, rfl, kept.trans own, heard, heard ▸ filter_dueNotices request _⟩

theorem newBlocks_told :
    ∃ client producer,
      run quietSurroundings
          ([] ++ .listen newBlocks :: [] ++ .start "tm.event='NewBlock'" (.ok ()) :: [answered]) =
        some client ∧
        client.subscriptionStreams.lookup "tm.event='NewBlock'" = some producer ∧
        inOrder.filter (hasQuery quietSurroundings) producer.told = [.next blockEvent] := by
  have ran : ∃ client,
      run quietSurroundings
          ([] ++ .listen newBlocks :: [] ++ .start "tm.event='NewBlock'" (.ok ()) :: [answered]) =
        some client := ⟨_, rfl⟩
  obtain ⟨client, ran⟩ := ran
  obtain ⟨producer, found, -, -, told⟩ :=
    told_once_started ran rfl nofun nofun (fun queued member => nomatch List.mem_singleton.mp member)
  exact ⟨client, producer, ran, found, told⟩

end WebsocketClient

end SubqlCosmos
