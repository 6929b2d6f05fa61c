import MeetServer.Rest.Routes

/-!
# Calls on another machine

`SfuClientService` turns a call of `MediaRoomsService` into an HTTP request, and
`MediaRoomsController` turns the request back into the call.  A failure crosses
the network as the body of Nest's own exception filter; `WsExceptionFilter` shows
the socket what it would show if the service were in the same process.
-/

namespace MeetServer.Rest

/-! ## Requests -/

/-- The calls of `SfuClientService`, each on a given node. -/
inductive Operation where
  | getStats
  | createOrGetMediaRoom (roomId : RoomId)
  | createTransport (roomId : RoomId) (peerId : PeerId) (direction : TransportDirection)
  | connectTransport (roomId : RoomId) (peerId : PeerId) (transportId dtlsParameters : String)
  | produce (roomId : RoomId) (peerId : PeerId) (transportId : String) (kind : MediaKind)
      (rtpParameters : String)
  | consume (roomId : RoomId) (peerId : PeerId) (producerId : String)
      (rtpCapabilities : RtpCapabilities)
  | resumeConsumer (roomId : RoomId) (peerId : PeerId) (consumerId : String)
  | pauseProducer (roomId : RoomId) (peerId : PeerId) (producerId : String)
  | resumeProducer (roomId : RoomId) (peerId : PeerId) (producerId : String)
  | removePeer (roomId : RoomId) (peerId : PeerId)
  | closeRoom (roomId : RoomId)
  | startRecording (roomId : RoomId) (peers : List (PeerId × String))
  | stopRecording (roomId : RoomId)
  deriving DecidableEq

/-- The fields of a JSON body; a field that is missing is `undefined`. -/
structure Body where
  direction : Option TransportDirection := none
  dtlsParameters : Option String := none
  kind : Option MediaKind := none
  rtpParameters : Option String := none
  producerId : Option String := none
  rtpCapabilities : Option RtpCapabilities := none
  peers : Option (List (PeerId × String)) := none
  deriving DecidableEq

structure Request where
  method : Method
  path : String
  body : Body := {}

namespace Operation

def route : Operation → Route
  | getStats => .stats
  | createOrGetMediaRoom _ => .createOrGetRoom
  | createTransport _ _ _ => .createTransport
  | connectTransport _ _ _ _ => .connectTransport
  | produce _ _ _ _ _ => .produce
  | consume _ _ _ _ => .consume
  | resumeConsumer _ _ _ => .resumeConsumer
  | pauseProducer _ _ _ => .pauseProducer
  | resumeProducer _ _ _ => .resumeProducer
  | removePeer _ _ => .removePeer
  | closeRoom _ => .closeRoom
  | startRecording _ _ => .startRecording
  | stopRecording _ => .stopRecording

/-- The values of the path's tokens, in their order. -/
def values : Operation → List (String × String)
  | getStats => []
  | createOrGetMediaRoom roomId | closeRoom roomId | startRecording roomId _
  | stopRecording roomId => [("roomId", roomId)]
  | createTransport roomId peerId _ | consume roomId peerId _ _ | removePeer roomId peerId =>
      [("roomId", roomId), ("peerId", peerId)]
  | connectTransport roomId peerId transportId _ | produce roomId peerId transportId _ _ =>
      [("roomId", roomId), ("peerId", peerId), ("transportId", transportId)]
  | resumeConsumer roomId peerId consumerId =>
      [("roomId", roomId), ("peerId", peerId), ("consumerId", consumerId)]
  | pauseProducer roomId peerId producerId | resumeProducer roomId peerId producerId =>
      [("roomId", roomId), ("peerId", peerId), ("producerId", producerId)]

def params (op : Operation) : Params := fun key => (op.values.lookup key).getD ""

def body : Operation → Body
  | createTransport _ _ direction => { direction := some direction }
  | connectTransport _ _ _ dtlsParameters => { dtlsParameters := some dtlsParameters }
  | produce _ _ _ kind rtpParameters =>
      { kind := some kind, rtpParameters := some rtpParameters }
  | consume _ _ producerId rtpCapabilities =>
      { producerId := some producerId, rtpCapabilities := some rtpCapabilities }
  | startRecording _ peers => { peers := some peers }
  | _ => {}

/-- The request of `SfuClientService`, without the url of the node. -/
def request (op : Operation) : Request where
  method := op.route.method
  path := buildMediaRoomPath op.route.pattern op.params
  body := op.body

end Operation

/-- The call that a handler of `MediaRoomsController` makes. -/
def handler (route : Route) (values : List (String × String)) (body : Body) :
    Option Operation :=
  match route with
  | .stats => some .getStats
  | .createOrGetRoom => do
      let roomId ← values.lookup "roomId"
      some (.createOrGetMediaRoom roomId)
  | .createTransport => do
      let roomId ← values.lookup "roomId"
      let peerId ← values.lookup "peerId"
      let direction ← body.direction
      some (.createTransport roomId peerId direction)
  | .connectTransport => do
      let roomId ← values.lookup "roomId"
      let peerId ← values.lookup "peerId"
      let transportId ← values.lookup "transportId"
      let dtlsParameters ← body.dtlsParameters
      some (.connectTransport roomId peerId transportId dtlsParameters)
  | .produce => do
      let roomId ← values.lookup "roomId"
      let peerId ← values.lookup "peerId"
      let transportId ← values.lookup "transportId"
      let kind ← body.kind
      let rtpParameters ← body.rtpParameters
      some (.produce roomId peerId transportId kind rtpParameters)
  | .consume => do
      let roomId ← values.lookup "roomId"
      let peerId ← values.lookup "peerId"
      let producerId ← body.producerId
      let rtpCapabilities ← body.rtpCapabilities
      some (.consume roomId peerId producerId rtpCapabilities)
  | .resumeConsumer => do
      let roomId ← values.lookup "roomId"
      let peerId ← values.lookup "peerId"
      let consumerId ← values.lookup "consumerId"
      some (.resumeConsumer roomId peerId consumerId)
  | .pauseProducer => do
      let roomId ← values.lookup "roomId"
      let peerId ← values.lookup "peerId"
      let producerId ← values.lookup "producerId"
      some (.pauseProducer roomId peerId producerId)
  | .resumeProducer => do
      let roomId ← values.lookup "roomId"
      let peerId ← values.lookup "peerId"
      let producerId ← values.lookup "producerId"
      some (.resumeProducer roomId peerId producerId)
  | .removePeer => do
      let roomId ← values.lookup "roomId"
      let peerId ← values.lookup "peerId"
      some (.removePeer roomId peerId)
  | .closeRoom => do
      let roomId ← values.lookup "roomId"
      some (.closeRoom roomId)
  | .startRecording => do
      let roomId ← values.lookup "roomId"
      let peers ← body.peers
      some (.startRecording roomId peers)
  | .stopRecording => do
      let roomId ← values.lookup "roomId"
      some (.stopRecording roomId)

/-- The call that the node makes for a request. -/
def MediaRoomsController (request : Request) : Option Operation := do
  let (route, values) ← dispatch request.method (requestPath request.path)
  handler route values request.body

/-! ## Which call is made -/

theorem handler_values (op : Operation) : handler op.route op.values op.body = some op := by
  cases op <;> rfl

theorem tokens_route (op : Operation) : op.route.tokens = op.values.map Prod.fst := by
  cases op <;> simp only [Operation.route, Operation.values, List.map_cons, List.map_nil] <;>
    decide +kernel

/-- A handler makes one kind of call, from the values of its tokens. -/
theorem handler_eq_some {route : Route} {values : List (String × String)} {body : Body}
    {op : Operation} (h : handler route values body = some op) :
    op.route = route ∧
      ∀ key ∈ op.values.map Prod.fst, values.lookup key = op.values.lookup key := by
  cases route <;>
    simp only [handler, Option.bind_eq_bind, Option.bind_eq_some_iff, Option.some.injEq] at h <;>
    grind [Operation.route, Operation.values]

theorem keys_readParams {pattern : List PatternSegment} {segments : List (List Char)}
    {values : List (String × String)} (haccepts : accepts pattern segments)
    (hread : readParams pattern segments = some values) :
    values.map Prod.fst = Rest.tokens pattern := by
  induction pattern generalizing segments values with
  | nil =>
      cases segments with
      | nil =>
          cases hread
          rfl
      | cons => exact absurd haccepts Bool.false_ne_true
  | cons p pattern ih =>
      cases segments with
      | nil => exact absurd haccepts (by cases p <;> simp [accepts])
      | cons segment segments =>
          have htail : accepts pattern segments := (Bool.and_eq_true_iff.1 haccepts).2
          cases p with
          | literal text => exact ih htail hread
          | token key =>
              simp only [readParams, Option.bind_eq_bind, Option.bind_eq_some_iff,
                Option.pure_def, Option.some.injEq] at hread
              obtain ⟨value, -, rest, hrest, rfl⟩ := hread
              rw [List.map_cons, ih htail hrest, Rest.tokens]

/-- A list of values is what is looked up under its keys. -/
theorem map_lookup_keys {values : List (String × String)}
    (hnodup : (values.map Prod.fst).Nodup) :
    ((values.map Prod.fst).map fun key => (key, (values.lookup key).getD "")) = values := by
  induction values with
  | nil => rfl
  | cons entry values ih =>
      obtain ⟨key, value⟩ := entry
      rw [List.map_cons, List.nodup_cons] at hnodup
      rw [List.map_cons, List.map_cons, List.lookup_cons_self, Option.getD_some]
      refine congrArg _ (Eq.trans ?_ (ih hnodup.2))
      refine List.map_congr_left fun key' hkey' => ?_
      have hne : key' ≠ key := fun heq => hnodup.1 (heq ▸ hkey')
      have hbeq : (key' == key) = false := beq_eq_false_iff_ne.2 hne
      simp only [List.lookup_cons, hbeq]

theorem nodup_values (op : Operation) : (op.values.map Prod.fst).Nodup := by
  cases op <;> simp [Operation.values]

theorem map_params (op : Operation) :
    (op.route.tokens.map fun key => (key, op.params key)) = op.values := by
  rw [tokens_route]
  exact map_lookup_keys (nodup_values op)

/-- The node makes the call that was asked for exactly when the path's values survive. -/
theorem mediaRoomsController_request_iff (op : Operation) :
    MediaRoomsController op.request = some op ↔ Survives op.route op.params := by
  constructor
  · intro h
    simp only [MediaRoomsController, Option.bind_eq_bind, Option.bind_eq_some_iff] at h
    obtain ⟨⟨route, values⟩, hdispatch, hhandler⟩ := h
    obtain ⟨rfl, hlookup⟩ := handler_eq_some hhandler
    obtain ⟨-, haccepts, hread⟩ := dispatch_eq_some.1 hdispatch
    have hkeys : values.map Prod.fst = op.values.map Prod.fst :=
      (keys_readParams haccepts hread).trans (tokens_route op)
    have hvalues : values = op.values := by
      have hnodup : (values.map Prod.fst).Nodup := hkeys ▸ nodup_values op
      refine (map_lookup_keys hnodup).symm.trans (Eq.trans ?_ (map_lookup_keys (nodup_values op)))
      rw [hkeys]
      exact List.map_congr_left fun key hkey => by rw [hlookup key hkey]
    rw [hvalues, ← map_params op] at hdispatch
    exact RoundTrips.survives hdispatch
  · intro h
    have hdispatch := h.roundTrips
    rw [RoundTrips, map_params] at hdispatch
    simp only [MediaRoomsController, Operation.request, hdispatch, Option.bind_eq_bind,
      Option.bind_some]
    exact handler_values op

/-! ## Answers -/

/-- What `MediaRoomsService` throws: an `HttpException` or anything else. -/
inductive Failure where
  | http (status : Nat) (message : String)
  | other (message : String)
  deriving DecidableEq, Repr

/-- What a gateway's handler throws. -/
inductive Thrown where
  | ws (message : String)
  | failure (failure : Failure)

/-- `HttpExceptionBody`. -/
structure ErrorBody where
  statusCode : Option Nat
  message : Option String

/-- What arrives at `SfuClientService`. -/
inductive Reply (ρ : Type) where
  | success (data : ρ)
  | error (status : Nat) (body : ErrorBody)
  | unreachable (message : String)

variable {σ ρ : Type}

/-- Nest's exception filter answers for the node. -/
def respond : Except Failure ρ → Reply ρ
  | .ok data => .success data
  | .error (.http status message) => .error status ⟨some status, some message⟩
  | .error (.other _) => .error 500 ⟨some 500, some "Internal server error"⟩

/-- `SfuClientService.request`. -/
def receive : Reply ρ → Except Failure ρ
  | .success data => .ok data
  | .error status body =>
      .error (.http (body.statusCode.getD status)
        (body.message.getD ("Request failed with status code " ++ toString status)))
  | .unreachable message => .error (.http 503 ("apps/sfu is unreachable: " ++ message))

/-- `WsExceptionFilter.catch`: the text that the socket gets. -/
def WsExceptionFilter : Thrown → String
  | .ws message => message
  | .failure (.http _ message) => message
  | .failure (.other _) => "Internal server error"

/-- The result of a call, or the text of its failure. -/
def shown (outcome : Except Failure ρ) : Except String ρ :=
  outcome.mapError fun failure => WsExceptionFilter (.failure failure)

theorem shown_receive_respond (outcome : Except Failure ρ) :
    shown (receive (respond outcome)) = shown outcome := by
  rcases outcome with (_ | _) | _ <;> rfl

/-! ## Runs -/

/-- `MediaRoomsService`, with whatever it does. -/
abbrev Service (σ ρ : Type) := Operation → σ → σ × Except Failure ρ

/-- The service in the same process. -/
def Service.inProcess (service : Service σ ρ) (op : Operation) (s : σ) :
    σ × Except String ρ :=
  let (s, outcome) := service op s
  (s, shown outcome)

/-- The service on a node; `unhandled` answers requests that no handler takes. -/
def Service.onNode (service : Service σ ρ) (unhandled : Request → Failure) (op : Operation)
    (s : σ) : σ × Except String ρ :=
  match MediaRoomsController op.request with
  | some op =>
      let (s, outcome) := service op s
      (s, shown (receive (respond outcome)))
  | none => (s, shown (receive (respond (.error (unhandled op.request)))))

/-- The calls one after the other, and what the sockets get. -/
def serveAll {α : Type} (serve : Operation → σ → σ × α) : List Operation → σ → σ × List α
  | [], s => (s, [])
  | op :: ops, s =>
      let (s, a) := serve op s
      let (s, rest) := serveAll serve ops s
      (s, a :: rest)

/-- Nobody can tell whether the service is on a node. -/
def Transparent (ops : List Operation) : Prop :=
  ∀ (σ ρ : Type) (service : Service σ ρ) (unhandled : Request → Failure) (s : σ),
    serveAll (service.onNode unhandled) ops s = serveAll service.inProcess ops s

theorem onNode_eq_inProcess {op : Operation} (h : MediaRoomsController op.request = some op)
    (service : Service σ ρ) (unhandled : Request → Failure) (s : σ) :
    service.onNode unhandled op s = service.inProcess op s := by
  simp only [Service.onNode, h, Service.inProcess, shown_receive_respond]

theorem serveAll_onNode {ops : List Operation}
    (h : ∀ op ∈ ops, MediaRoomsController op.request = some op) (service : Service σ ρ)
    (unhandled : Request → Failure) (s : σ) :
    serveAll (service.onNode unhandled) ops s = serveAll service.inProcess ops s := by
  induction ops generalizing s with
  | nil => rfl
  | cons op ops ih =>
      simp only [serveAll, onNode_eq_inProcess (h op List.mem_cons_self),
        ih fun other hother => h other (List.mem_cons_of_mem op hother)]

/-- A service that keeps the calls it gets. -/
def recorder : Service (List Operation) Unit := fun op calls => (calls ++ [op], .ok ())

theorem serveAll_recorder_inProcess (ops calls : List Operation) :
    (serveAll recorder.inProcess ops calls).1 = calls ++ ops := by
  induction ops generalizing calls with
  | nil => simp [serveAll]
  | cons op ops ih =>
      rw [serveAll]
      exact (ih (calls ++ [op])).trans (by simp)

theorem serveAll_recorder_onNode (unhandled : Request → Failure) (ops calls : List Operation) :
    (serveAll (recorder.onNode unhandled) ops calls).1 =
      calls ++ ops.filterMap fun op => MediaRoomsController op.request := by
  induction ops generalizing calls with
  | nil => simp [serveAll]
  | cons op ops ih =>
      rw [serveAll, List.filterMap_cons]
      cases hcall : MediaRoomsController op.request with
      | none =>
          simp only [Service.onNode, hcall]
          exact ih calls
      | some made =>
          simp only [Service.onNode, hcall]
          exact (ih (calls ++ [made])).trans (by simp)

theorem filterMap_eq_self {α : Type} {f : α → Option α} {l : List α}
    (h : l.filterMap f = l) : ∀ a ∈ l, f a = some a := by
  induction l with
  | nil => simp
  | cons a l ih =>
      rw [List.filterMap_cons] at h
      cases ha : f a with
      | none =>
          have hlength := List.length_filterMap_le f l
          rw [ha] at h
          simp only at h
          rw [h, List.length_cons] at hlength
          omega
      | some b =>
          rw [ha] at h
          obtain ⟨rfl, hrest⟩ := List.cons.inj h
          intro c hc
          rcases List.mem_cons.1 hc with rfl | hc
          · exact ha
          · exact ih hrest c hc

/-- In a run of calls that the node answers, nobody can tell whether `MediaRoomsService` is
in the same process or on a node, exactly when the values of every path survive. -/
theorem transparent_iff (ops : List Operation) :
    Transparent ops ↔ ∀ op ∈ ops, Survives op.route op.params := by
  constructor
  · intro h op hop
    have hsame := congrArg Prod.fst (h _ _ recorder (fun _ => .http 404 "Not Found") [])
    rw [serveAll_recorder_inProcess, serveAll_recorder_onNode, List.nil_append,
      List.nil_append] at hsame
    exact (mediaRoomsController_request_iff op).1 (filterMap_eq_self hsame op hop)
  · intro h σ ρ service unhandled s
    exact serveAll_onNode (fun op hop => (mediaRoomsController_request_iff op).2 (h op hop))
      service unhandled s

end MeetServer.Rest
