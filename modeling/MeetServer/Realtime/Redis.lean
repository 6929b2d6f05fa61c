import MeetServer.Contracts
import MeetServer.Foundation.Dict

/-!
# The Redis keys of one room

`room:r`, `room:r:peers`, `peer:r:p:producers` for every peer `p`, and
`chat:r`.  Redis has no empty hashes, so an absent hash key is an empty one
here; values stand for their JSON.  Each function is one atomic command.
-/

namespace MeetServer.Realtime

open MeetServer.Foundation

structure Room where
  id : RoomId
  rtpCapabilities : RtpCapabilities
  sfuNodeUrl : Url
  deriving DecidableEq, Repr

structure Peer where
  id : PeerId
  displayName : String
  deriving DecidableEq, Repr

/-- Producers carry the names that the sfu gives them. -/
structure ExistingProducer (Ref : Type) where
  peerId : PeerId
  producerId : Ref
  kind : MediaKind
  deriving DecidableEq, Repr

structure RoomKeys (Ref : Type) where
  room : Option Room := none
  peers : Dict PeerId Peer := ∅
  producers : PeerId → Dict Ref MediaKind := fun _ => ∅
  chat : List String := []

namespace RoomKeys

variable {Ref : Type} (keys : RoomKeys Ref)

def set (room : Room) : RoomKeys Ref :=
  { keys with room := some room }

def hset (peer : Peer) : RoomKeys Ref :=
  { keys with peers := keys.peers.insert peer.id peer }

def hdel (peerId : PeerId) : RoomKeys Ref :=
  { keys with peers := keys.peers.erase peerId }

def delProducers (peerId : PeerId) : RoomKeys Ref :=
  { keys with producers := Function.update keys.producers peerId ∅ }

def hsetProducer [DecidableEq Ref] (peerId : PeerId) (producerId : Ref)
    (kind : MediaKind) : RoomKeys Ref :=
  { keys with
    producers := Function.update keys.producers peerId
      ((keys.producers peerId).insert producerId kind) }

def delChat : RoomKeys Ref :=
  { keys with chat := [] }

def hlen : Nat := Dict.size keys.peers

def hkeys : List PeerId := keys.peers.keys

/-- `CLOSE_ROOM_IF_EMPTY_SCRIPT`. -/
def closeRoomIfEmpty : RoomKeys Ref × Bool :=
  if keys.hlen = 0 then ({ keys with room := none, peers := ∅ }, true)
  else (keys, false)

def getOtherPeers (excludePeerId : PeerId) : List Peer :=
  (keys.peers.entries.filter fun entry => entry.1 ≠ excludePeerId).map Sigma.snd

def getProducers (peerId : PeerId) : List (ExistingProducer Ref) :=
  (keys.producers peerId).entries.map fun entry =>
    { peerId := peerId, producerId := entry.1, kind := entry.2 }

theorem hlen_eq_zero_iff : keys.hlen = 0 ↔ ∀ p, p ∉ keys.peers :=
  Dict.size_eq_zero_iff

end RoomKeys

end MeetServer.Realtime
