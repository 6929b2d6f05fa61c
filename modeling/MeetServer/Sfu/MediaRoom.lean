import MeetServer.Contracts
import MeetServer.Foundation.Dict
import MeetServer.Foundation.Pool
import MeetServer.Sfu.WorkerPool

/-!
# `MediaRoom`, `MediaPeer` and the state of one sfu process

Objects are named by the call that creates them, since a call of
`MediaRoomsService` creates at most one object of each kind: a `MediaRoom` and
its router by a `getOrCreateRoom` call, a transport and possibly a `MediaPeer`
by a `createTransport` call, a producer by a `produce` call.  `Ref` is the type
of these names.
-/

namespace MeetServer.Sfu

open MeetServer.Foundation

structure Transport (Ref : Type) where
  router : Ref
  closed : Bool := false
  deriving DecidableEq, Repr

structure Producer (Ref : Type) where
  kind : MediaKind
  transport : Ref
  paused : Bool := false
  deriving DecidableEq, Repr

structure MediaPeer (Ref : Type) where
  id : PeerId
  object : Ref
  displayName : Option String := none
  sendTransport : Option Ref := none
  recvTransport : Option Ref := none
  producers : Dict Ref (Producer Ref) := ∅

/-- The room's router has the room's own name. -/
structure MediaRoom (Ref : Type) where
  id : RoomId
  worker : Worker
  recording : Bool := false
  peers : Dict PeerId (MediaPeer Ref) := ∅

namespace MediaRoom

variable {Ref : Type} (room : MediaRoom Ref)

def getPeer (peerId : PeerId) : Option (MediaPeer Ref) := room.peers.lookup peerId

def hasPeer (peerId : PeerId) : Bool := (room.getPeer peerId).isSome

def isEmpty : Bool := Dict.size room.peers = 0

/-- `this.peers.set(peer.id, peer)`. -/
def setPeer (peer : MediaPeer Ref) : MediaRoom Ref :=
  { room with peers := room.peers.insert peer.id peer }

/-- `this.peers.delete(peerId)`. -/
def deletePeer (peerId : PeerId) : MediaRoom Ref :=
  { room with peers := room.peers.erase peerId }

/-- A peer that does not exist yet is created as the object `object`. -/
def getOrCreatePeer (peerId : PeerId) (object : Ref) :
    MediaRoom Ref × MediaPeer Ref :=
  match room.getPeer peerId with
  | some peer => (room, peer)
  | none =>
      let peer : MediaPeer Ref := { id := peerId, object := object }
      (room.setPeer peer, peer)

theorem isEmpty_iff : room.isEmpty = true ↔ ∀ peerId, peerId ∉ room.peers := by
  simp [isEmpty, Dict.size_eq_zero_iff]

end MediaRoom

/--
The state of one sfu process: the fields of `MediaRoomsService` and
`WorkerPoolService`, and the objects they refer to.  `creation` holds the
promises of `pendingRooms`, each named by the call that created it.
-/
structure State (Ref : Type) where
  rooms : Dict RoomId Ref
  pendingRooms : RoomId → Option Ref
  creation : Ref → Option (Settlement Ref)
  workerPool : WorkerPool
  room : Ref → MediaRoom Ref
  routerOpen : Ref → Bool
  transport : Ref → Option (Transport Ref)
  rtpCapabilities : RtpCapabilities

namespace State

variable {Ref : Type}

/-- A process that has just spawned its workers. -/
def spawned (workers : List Worker) : State Ref where
  rooms := ∅
  pendingRooms _ := none
  creation _ := none
  workerPool := .spawned workers
  room _ := { id := "", worker := 0 }
  routerOpen _ := false
  transport _ := none
  rtpCapabilities := ""

/-- `get roomCount`. -/
def roomCount (s : State Ref) : Nat := Dict.size s.rooms

/-- mediasoup: a transport is closed by `close()` or with its router. -/
def transportOpen (s : State Ref) (t : Ref) : Bool :=
  match s.transport t with
  | none => false
  | some transport => !transport.closed && s.routerOpen transport.router

/-- mediasoup: closing a transport closes its producers. -/
def producerOpen (s : State Ref) (producer : Producer Ref) : Bool :=
  s.transportOpen producer.transport

variable [DecidableEq Ref]

def setRoom (s : State Ref) (r : Ref) (room : MediaRoom Ref) : State Ref :=
  { s with room := Function.update s.room r room }

/-- `transport?.close()`. -/
def closeTransport (s : State Ref) (transport : Option Ref) : State Ref :=
  { s with
    transport := match transport with
      | none => s.transport
      | some t => Function.update s.transport t
          ((s.transport t).map fun transport =>
            { transport with closed := true }) }

/-- `MediaRoom.removePeer` on the room object `r`. -/
def removePeerOf (s : State Ref) (r : Ref) (peerId : PeerId) : State Ref :=
  match (s.room r).getPeer peerId with
  | none => s
  | some peer =>
      ((s.closeTransport peer.sendTransport).closeTransport
        peer.recvTransport).setRoom r ((s.room r).deletePeer peerId)

/-- `MediaRoom.close`. -/
def closeRouter (s : State Ref) (r : Ref) : State Ref :=
  { s with routerOpen := Function.update s.routerOpen r false }

section RemovePeerOf

variable (s : State Ref) (r : Ref) (peerId : PeerId)

@[simp] theorem rooms_removePeerOf : (s.removePeerOf r peerId).rooms = s.rooms := by
  unfold removePeerOf; split <;> rfl

@[simp] theorem pendingRooms_removePeerOf :
    (s.removePeerOf r peerId).pendingRooms = s.pendingRooms := by
  unfold removePeerOf; split <;> rfl

@[simp] theorem routerOpen_removePeerOf :
    (s.removePeerOf r peerId).routerOpen = s.routerOpen := by
  unfold removePeerOf; split <;> rfl

@[simp] theorem room_removePeerOf :
    (s.removePeerOf r peerId).room =
      Function.update s.room r ((s.room r).deletePeer peerId) := by
  unfold removePeerOf
  cases h : (s.room r).getPeer peerId with
  | none =>
      have hdelete : (s.room r).deletePeer peerId = s.room r := by
        rw [MediaRoom.deletePeer,
          Dict.erase_of_notMem (AList.lookup_eq_none.1 h)]
      simp [hdelete]
  | some peer => rfl

end RemovePeerOf

end State

end MeetServer.Sfu
