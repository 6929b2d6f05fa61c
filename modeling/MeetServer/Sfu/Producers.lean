import MeetServer.Sfu.MediaRooms

/-!
# Producers

`produce`, `pauseProducer` and `resumeProducer` of `MediaRoomsService`.  The
call keeps its `MediaPeer` over the await, so the producer is lost to the room
when the peer has been removed or replaced meanwhile.
-/

namespace MeetServer.Sfu

open MeetServer.Foundation

variable {Ref : Type} [DecidableEq Ref]

/-- A change to the `MediaPeer` that a call has got hold of. -/
def State.updatePeer (s : State Ref) (r : Ref) (peerId : PeerId) (object : Ref)
    (f : MediaPeer Ref → MediaPeer Ref) : State Ref :=
  match (s.room r).getPeer peerId with
  | none => s
  | some peer =>
      if peer.object = object then s.setRoom r ((s.room r).setPeer (f peer)) else s

/-- `peer.producers.set(producer.id, producer)`. -/
def MediaPeer.addProducer (peer : MediaPeer Ref) (i : Ref)
    (producer : Producer Ref) : MediaPeer Ref :=
  { peer with producers := peer.producers.insert i producer }

/-- The producer object is in the map under its own id. -/
def MediaPeer.setPaused (peer : MediaPeer Ref) (producerId : Ref)
    (paused : Bool) : MediaPeer Ref :=
  match peer.producers.lookup producerId with
  | none => peer
  | some producer => peer.addProducer producerId { producer with paused := paused }

inductive Produce (Ref : Type) where
  | call
  | transportProduce (room peer transport : Ref)
  | tapProducer (producer : Ref)
  | returned (producer : Ref)
  | threw
  deriving DecidableEq, Repr

/-- `tapProducerIfRecording` suspends for an audio producer only. -/
def afterProduce (i : Ref) (roomId : RoomId) (kind : MediaKind) (s : State Ref) :
    Produce Ref :=
  match s.rooms.lookup roomId with
  | none => .threw
  | some r =>
      if (s.room r).recording && kind = .audio then .tapProducer i
      else .returned i

/-- mediasoup rejects a producer on a closed transport. -/
def Produce.step (i : Ref) (roomId : RoomId) (peerId : PeerId) (transportId : Ref)
    (kind : MediaKind) (ok : Bool) (s : State Ref) :
    Produce Ref → Option (State Ref × Produce Ref)
  | .call =>
      match s.rooms.lookup roomId with
      | none => some (s, .threw)
      | some r =>
          match (s.room r).getPeer peerId with
          | none => some (s, .threw)
          | some peer =>
              if peer.sendTransport = some transportId then
                some (s, .transportProduce r peer.object transportId)
              else some (s, .threw)
  | .transportProduce r object transport =>
      if ok then
        if s.transportOpen transport then
          let s := s.updatePeer r peerId object fun peer =>
            peer.addProducer i { kind := kind, transport := transport }
          some (s, afterProduce i roomId kind s)
        else none
      else some (s, .threw)
  | .tapProducer producer => some (s, if ok then .returned producer else .threw)
  | .returned _ | .threw => none

/-- `pauseProducer` and `resumeProducer`. -/
inductive SetPaused (Ref : Type) where
  | call
  | producerSetPaused (room peer : Ref)
  | returned
  | threw
  deriving DecidableEq, Repr

def SetPaused.step (roomId : RoomId) (peerId : PeerId) (producerId : Ref)
    (paused ok : Bool) (s : State Ref) :
    SetPaused Ref → Option (State Ref × SetPaused Ref)
  | .call =>
      match s.rooms.lookup roomId with
      | none => some (s, .threw)
      | some r =>
          match (s.room r).getPeer peerId with
          | none => some (s, .threw)
          | some peer =>
              if (peer.producers.lookup producerId).any s.producerOpen then
                some (s, .producerSetPaused r peer.object)
              else some (s, .threw)
  | .producerSetPaused r object =>
      if ok then
        some (s.updatePeer r peerId object fun peer =>
          peer.setPaused producerId paused, .returned)
      else some (s, .threw)
  | .returned | .threw => none

end MeetServer.Sfu
