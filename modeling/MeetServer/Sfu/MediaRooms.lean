import MeetServer.Sfu.MediaRoom

/-!
# `MediaRoomsService`

Each method of `apps/sfu/src/media-rooms/media-rooms.service.ts` is given by
its suspension points; a step runs the code from one `await` on a worker or on
the disk to the next.  `ok` says whether the awaited operation resolves.  The
recording taps themselves work on other objects than these and appear here only
as suspensions.
-/

namespace MeetServer.Sfu

open MeetServer.Foundation

variable {Ref : Type} [DecidableEq Ref]

/-! ## State changes -/

namespace State

/-- `reserveWorker` has answered with `pool`; the promise goes into the map. -/
def beginCreation (s : State Ref) (roomId : RoomId) (i : Ref)
    (pool : WorkerPool) : State Ref :=
  { s with
    workerPool := pool
    pendingRooms := Function.update s.pendingRooms roomId (some i) }

/-- The promise settles, and `finally` drops it from the map. -/
def settleCreation (s : State Ref) (roomId : RoomId) (i : Ref)
    (outcome : Settlement Ref) : State Ref :=
  { s with
    creation := Function.update s.creation i (some outcome)
    pendingRooms := Function.update s.pendingRooms roomId none }

/-- `new MediaRoom(roomId, router, worker)` and `this.rooms.set`. -/
def addRoom (s : State Ref) (roomId : RoomId) (i : Ref) (worker : Worker) :
    State Ref :=
  { s with
    rooms := s.rooms.insert roomId i
    room := Function.update s.room i { id := roomId, worker := worker }
    routerOpen := Function.update s.routerOpen i true }

def releaseWorker (s : State Ref) (worker : Worker) : State Ref :=
  { s with workerPool := s.workerPool.trackRouterClosed worker }

/-- The last three statements of `closeRoom`. -/
def finishClose (s : State Ref) (roomId : RoomId) (r : Ref) : State Ref :=
  { (s.closeRouter r).releaseWorker (s.room r).worker with
    rooms := s.rooms.erase roomId }

def setRecording (s : State Ref) (r : Ref) (recording : Bool) : State Ref :=
  s.setRoom r { s.room r with recording := recording }

/-- A transport the worker has just created on the router of `r`. -/
def openTransport (s : State Ref) (i r : Ref) : State Ref :=
  { s with transport := Function.update s.transport i (some { router := r }) }

end State

def MediaPeer.transportFor (peer : MediaPeer Ref) : TransportDirection → Option Ref
  | .send => peer.sendTransport
  | .recv => peer.recvTransport

def MediaPeer.setTransport (peer : MediaPeer Ref) (t : Ref) :
    TransportDirection → MediaPeer Ref
  | .send => { peer with sendTransport := some t }
  | .recv => { peer with recvTransport := some t }

/-- The loop over the named peers in `startRoomRecording`. -/
def MediaRoom.setDisplayNames (room : MediaRoom Ref)
    (peers : List (PeerId × String)) : MediaRoom Ref :=
  peers.foldl (fun room named =>
    match room.getPeer named.1 with
    | none => room
    | some peer => room.setPeer { peer with displayName := some named.2 }) room

/-! ## Suspension points -/

inductive GetOrCreateRoom (Ref : Type) where
  | call
  | pending (creation : Ref)
  | createRouter (worker : Worker)
  | returned (room : Ref)
  | threw
  deriving DecidableEq, Repr

inductive CreateTransport (Ref : Type) where
  | call
  | createWebRtcTransport (room peer : Ref) (peerExisted : Bool)
  | returned (transport : Ref)
  | threw
  deriving DecidableEq, Repr

/-- `startRecording` and `stopRecording` suspend on their files in between. -/
inductive Recording (Ref : Type) where
  | call
  | files (room : Ref)
  | returned
  | threw
  deriving DecidableEq, Repr

inductive CloseRoom (Ref : Type) where
  | call
  | stopRecording (room : Ref)
  | returned (closed : Bool)
  | threw
  deriving DecidableEq, Repr

/-- `createRoom` up to its `await`, with the promise put into the map. -/
def createRoom (i : Ref) (roomId : RoomId) (s : State Ref) :
    State Ref × GetOrCreateRoom Ref :=
  match s.workerPool.reserveWorker with
  | none => (s, .threw)
  | some (worker, pool) => (s.beginCreation roomId i pool, .createRouter worker)

def GetOrCreateRoom.step (i : Ref) (roomId : RoomId) (ok : Bool)
    (s : State Ref) : GetOrCreateRoom Ref → Option (State Ref × GetOrCreateRoom Ref)
  | .call =>
      match s.rooms.lookup roomId, s.pendingRooms roomId with
      | some room, _ => some (s, .returned room)
      | none, some creation => some (s, .pending creation)
      | none, none => some (createRoom i roomId s)
  | .pending creation =>
      match s.creation creation with
      | none => none
      | some (.fulfilled room) => some (s, .returned room)
      | some .rejected => some (s, .threw)
  | .createRouter worker =>
      if ok then
        some ((s.addRoom roomId i worker).settleCreation roomId i (.fulfilled i),
          .returned i)
      else
        some ((s.releaseWorker worker).settleCreation roomId i .rejected, .threw)
  | .returned _ | .threw => none

/--
After the await: the transport exists on the worker and is registered, unless
the peer object that asked for it is no longer the one in the room.
-/
def assignTransport (i : Ref) (peerId : PeerId) (direction : TransportDirection)
    (r object : Ref) (s : State Ref) : State Ref × CreateTransport Ref :=
  match (s.room r).getPeer peerId with
  | none => (s.closeTransport (some i), .threw)
  | some peer =>
      if peer.object = object then
        ((s.closeTransport (peer.transportFor direction)).setRoom r
          ((s.room r).setPeer (peer.setTransport i direction)), .returned i)
      else (s.closeTransport (some i), .threw)

/-- mediasoup rejects a creation that is pending on a closed router. -/
def CreateTransport.step (i : Ref) (roomId : RoomId) (peerId : PeerId)
    (direction : TransportDirection) (ok : Bool) (s : State Ref) :
    CreateTransport Ref → Option (State Ref × CreateTransport Ref)
  | .call =>
      match s.rooms.lookup roomId with
      | none => some (s, .threw)
      | some r =>
          let (room, peer) := (s.room r).getOrCreatePeer peerId i
          some (s.setRoom r room,
            .createWebRtcTransport r peer.object ((s.room r).hasPeer peerId))
  | .createWebRtcTransport r object peerExisted =>
      if ok then
        if s.routerOpen r then
          some (assignTransport i peerId direction r object (s.openTransport i r))
        else none
      else if peerExisted then some (s, .threw)
      else some (s.removePeerOf r peerId, .threw)
  | .returned _ | .threw => none

/-- `removePeer` does not suspend. -/
def State.removePeer (s : State Ref) (roomId : RoomId) (peerId : PeerId) :
    State Ref :=
  match s.rooms.lookup roomId with
  | none => s
  | some r => s.removePeerOf r peerId

def startRecordingStep (roomId : RoomId) (peers : List (PeerId × String))
    (ok : Bool) (s : State Ref) :
    Recording Ref → Option (State Ref × Recording Ref)
  | .call =>
      match s.rooms.lookup roomId with
      | none => some (s, .threw)
      | some r =>
          let s := s.setRecording r true
          some (s.setRoom r ((s.room r).setDisplayNames peers), .files r)
  | .files _ => some (s, if ok then .returned else .threw)
  | .returned | .threw => none

def stopRecordingStep (roomId : RoomId) (ok : Bool) (s : State Ref) :
    Recording Ref → Option (State Ref × Recording Ref)
  | .call =>
      match s.rooms.lookup roomId with
      | none => some (s, .threw)
      | some r => some (s.setRecording r false, .files r)
  | .files _ => some (s, if ok then .returned else .threw)
  | .returned | .threw => none

def CloseRoom.step (roomId : RoomId) (ok : Bool) (s : State Ref) :
    CloseRoom Ref → Option (State Ref × CloseRoom Ref)
  | .call =>
      match s.rooms.lookup roomId with
      | none => some (s, .returned true)
      | some r =>
          if !(s.room r).isEmpty then some (s, .returned false)
          else if (s.room r).recording then
            some (s.setRecording r false, .stopRecording r)
          else some (s.finishClose roomId r, .returned true)
  | .stopRecording r =>
      if ok then some (s.finishClose roomId r, .returned true)
      else some (s, .threw)
  | .returned _ | .threw => none

/-! ## The calls of one process -/

/-- A call with its arguments and the point it has reached. -/
inductive Call (Ref : Type) where
  | getOrCreateRoom (roomId : RoomId) (point : GetOrCreateRoom Ref)
  | createTransport (roomId : RoomId) (peerId : PeerId)
      (direction : TransportDirection) (point : CreateTransport Ref)
  | removePeer (roomId : RoomId) (peerId : PeerId) (done : Bool)
  | startRecording (roomId : RoomId) (peers : List (PeerId × String))
      (point : Recording Ref)
  | stopRecording (roomId : RoomId) (point : Recording Ref)
  | closeRoom (roomId : RoomId) (point : CloseRoom Ref)
  deriving DecidableEq, Repr

/-- A call as it is issued. -/
inductive Request where
  | getOrCreateRoom (roomId : RoomId)
  | createTransport (roomId : RoomId) (peerId : PeerId)
      (direction : TransportDirection)
  | removePeer (roomId : RoomId) (peerId : PeerId)
  | startRecording (roomId : RoomId) (peers : List (PeerId × String))
  | stopRecording (roomId : RoomId)
  | closeRoom (roomId : RoomId)
  deriving DecidableEq, Repr

def Request.call : Request → Call Ref
  | .getOrCreateRoom roomId => .getOrCreateRoom roomId .call
  | .createTransport roomId peerId direction =>
      .createTransport roomId peerId direction .call
  | .removePeer roomId peerId => .removePeer roomId peerId false
  | .startRecording roomId peers => .startRecording roomId peers .call
  | .stopRecording roomId => .stopRecording roomId .call
  | .closeRoom roomId => .closeRoom roomId .call

namespace Call

def step (i : Ref) (ok : Bool) (s : State Ref) :
    Call Ref → Option (State Ref × Call Ref)
  | .getOrCreateRoom roomId point =>
      (point.step i roomId ok s).map fun r => (r.1, .getOrCreateRoom roomId r.2)
  | .createTransport roomId peerId direction point =>
      (point.step i roomId peerId direction ok s).map fun r =>
        (r.1, .createTransport roomId peerId direction r.2)
  | .removePeer roomId peerId done =>
      if done then none
      else some (s.removePeer roomId peerId, .removePeer roomId peerId true)
  | .startRecording roomId peers point =>
      (startRecordingStep roomId peers ok s point).map fun r =>
        (r.1, .startRecording roomId peers r.2)
  | .stopRecording roomId point =>
      (stopRecordingStep roomId ok s point).map fun r =>
        (r.1, .stopRecording roomId r.2)
  | .closeRoom roomId point =>
      (point.step roomId ok s).map fun r => (r.1, .closeRoom roomId r.2)

end Call

/-- One sfu process with all its calls. -/
abbrev Process (Ref : Type) := Pool Ref (State Ref) (Call Ref)

/-- Any interleaving of the calls; the flag is the awaited outcome. -/
def service : System (Process Ref) (Ref × Bool) :=
  Pool.system Call.step

/-- A freshly spawned process, and the calls that are going to be issued. -/
def Process.spawned (workers : List Worker) (requests : Ref → Request) :
    Process Ref :=
  ⟨State.spawned workers, fun i => (requests i).call⟩

end MeetServer.Sfu
