import MeetServer.Sfu.Producers

/-!
# Consumers and connected transports

The methods of `MediaRoomsService` for the media of one peer, beside those of
`MediaRooms` and `Producers`: `connectTransport`, `produce`, `consume`,
`resumeConsumer`, `pauseProducer` and `resumeProducer`.  A consumer is named by
the `consume` call that creates it.  mediasoup rejects what is pending on a
closed object.
-/

namespace MeetServer.Sfu

open MeetServer.Foundation

variable {Ref : Type} [DecidableEq Ref]

/-- `producerTransport` is the transport of the producer that is consumed. -/
structure Consumer (Ref : Type) where
  producerId : Ref
  producerTransport : Ref
  transport : Ref
  paused : Bool
  producerPaused : Bool
  deriving DecidableEq, Repr

/-- The rooms, and the consumers of each `MediaPeer` object by their ids. -/
structure Media (Ref : Type) where
  rooms : State Ref
  consumers : Ref → Finset Ref
  consumer : Ref → Option (Consumer Ref)
  connected : Ref → Bool

/-- The open producer of the router, whichever peer of the room it is of. -/
def State.routerProducer (s : State Ref) (r producerId : Ref) : Option (Producer Ref) :=
  (Dict.values (s.room r).peers).findSome? fun peer =>
    (peer.producers.lookup producerId).filter s.producerOpen

namespace Media

def spawned (workers : List Worker) : Media Ref where
  rooms := .spawned workers
  consumers _ := ∅
  consumer _ := none
  connected _ := false

variable (m : Media Ref)

/-- mediasoup: a consumer closes with its transport and with its producer. -/
def consumerOpen (k : Ref) : Bool :=
  match m.consumer k with
  | none => false
  | some consumer =>
      m.rooms.transportOpen consumer.transport && m.rooms.transportOpen consumer.producerTransport

/-- `peer.consumers.set(consumer.id, consumer)` on the peer object. -/
def addConsumer (i object : Ref) (consumer : Consumer Ref) : Media Ref :=
  { m with
    consumers := Function.update m.consumers object (insert i (m.consumers object))
    consumer := Function.update m.consumer i (some consumer) }

def setConsumerPaused (k : Ref) (paused : Bool) : Media Ref :=
  { m with
    consumer := Function.update m.consumer k
      ((m.consumer k).map fun consumer => { consumer with paused := paused }) }

/-- The open consumers of the producer hear that it has been paused or resumed. -/
def mirrorPaused (producerId : Ref) (paused : Bool) : Media Ref :=
  { m with
    consumer := fun k => (m.consumer k).map fun consumer =>
      if consumer.producerId = producerId ∧ m.consumerOpen k then
        { consumer with producerPaused := paused }
      else consumer }

/-- The peer object is in the room and has the open producer. -/
def holdsProducer (r : Ref) (peerId : PeerId) (object producerId : Ref) : Bool :=
  match (m.rooms.room r).getPeer peerId with
  | none => false
  | some peer =>
      peer.object = object && (peer.producers.lookup producerId).any m.rooms.producerOpen

end Media

/-! ## The methods -/

inductive ConnectTransport (Ref : Type) where
  | call
  | transportConnect (room transport : Ref)
  | returned
  | threw
  deriving DecidableEq, Repr

inductive Consume (Ref : Type) where
  | call
  | transportConsume (room peer transport : Ref)
  | returned (consumer : Ref)
  | threw
  deriving DecidableEq, Repr

inductive ResumeConsumer (Ref : Type) where
  | call
  | consumerResume (room peer consumer : Ref)
  | returned
  | threw
  deriving DecidableEq, Repr

def ConnectTransport.step (roomId : RoomId) (peerId : PeerId) (transportId : Ref) (ok : Bool)
    (m : Media Ref) : ConnectTransport Ref → Option (Media Ref × ConnectTransport Ref)
  | .call =>
      match m.rooms.rooms.lookup roomId with
      | none => some (m, .threw)
      | some r =>
          match (m.rooms.room r).getPeer peerId with
          | none => some (m, .threw)
          | some peer =>
              if peer.sendTransport = some transportId ∨ peer.recvTransport = some transportId then
                some (m, .transportConnect r transportId)
              else some (m, .threw)
  | .transportConnect _ transport =>
      if ok then
        if m.rooms.transportOpen transport then
          some ({ m with connected := Function.update m.connected transport true }, .returned)
        else none
      else some (m, .threw)
  | .returned | .threw => none

/-- At the first step the flag says whether `canConsume` finds a common codec. -/
def Consume.step (i : Ref) (roomId : RoomId) (peerId : PeerId) (producerId : Ref) (ok : Bool)
    (m : Media Ref) : Consume Ref → Option (Media Ref × Consume Ref)
  | .call =>
      match m.rooms.rooms.lookup roomId with
      | none => some (m, .threw)
      | some r =>
          match (m.rooms.room r).getPeer peerId with
          | none => some (m, .threw)
          | some peer =>
              if ok && (m.rooms.routerProducer r producerId).isSome then
                match peer.recvTransport with
                | none => some (m, .threw)
                | some transport => some (m, .transportConsume r peer.object transport)
              else some (m, .threw)
  | .transportConsume r object transport =>
      if ok then
        match m.rooms.routerProducer r producerId with
        | none => none
        | some producer =>
            if m.rooms.transportOpen transport then
              some (m.addConsumer i object
                { producerId := producerId, producerTransport := producer.transport,
                  transport := transport, paused := true, producerPaused := producer.paused },
                .returned i)
            else none
      else some (m, .threw)
  | .returned _ | .threw => none

def ResumeConsumer.step (roomId : RoomId) (peerId : PeerId) (consumerId : Ref) (ok : Bool)
    (m : Media Ref) : ResumeConsumer Ref → Option (Media Ref × ResumeConsumer Ref)
  | .call =>
      match m.rooms.rooms.lookup roomId with
      | none => some (m, .threw)
      | some r =>
          match (m.rooms.room r).getPeer peerId with
          | none => some (m, .threw)
          | some peer =>
              if consumerId ∈ m.consumers peer.object ∧ m.consumerOpen consumerId then
                some (m, .consumerResume r peer.object consumerId)
              else some (m, .threw)
  | .consumerResume _ _ consumer =>
      if ok then
        if m.consumerOpen consumer then some (m.setConsumerPaused consumer false, .returned)
        else none
      else some (m, .threw)
  | .returned | .threw => none

/-- `pauseProducer` and `resumeProducer`, heard by the consumers of the producer. -/
def SetPaused.mediaStep (roomId : RoomId) (peerId : PeerId) (producerId : Ref)
    (paused ok : Bool) (m : Media Ref) (point : SetPaused Ref) :
    Option (Media Ref × SetPaused Ref) :=
  match point with
  | .producerSetPaused r object =>
      if ok && !m.holdsProducer r peerId object producerId then none
      else
        (point.step roomId peerId producerId paused ok m.rooms).map fun result =>
          ({ (if ok then m.mirrorPaused producerId paused else m) with rooms := result.1 },
            result.2)
  | _ =>
      (point.step roomId peerId producerId paused ok m.rooms).map fun result =>
        ({ m with rooms := result.1 }, result.2)

/-! ## The calls of one process -/

inductive MediaCall (Ref : Type) where
  | rooms (call : Call Ref)
  | connectTransport (roomId : RoomId) (peerId : PeerId) (transportId : Ref)
      (point : ConnectTransport Ref)
  | produce (roomId : RoomId) (peerId : PeerId) (transportId : Ref) (kind : MediaKind)
      (point : Produce Ref)
  | consume (roomId : RoomId) (peerId : PeerId) (producerId : Ref) (point : Consume Ref)
  | resumeConsumer (roomId : RoomId) (peerId : PeerId) (consumerId : Ref)
      (point : ResumeConsumer Ref)
  | setPaused (roomId : RoomId) (peerId : PeerId) (producerId : Ref) (paused : Bool)
      (point : SetPaused Ref)
  deriving DecidableEq, Repr

inductive MediaRequest (Ref : Type) where
  | rooms (request : Request)
  | connectTransport (roomId : RoomId) (peerId : PeerId) (transportId : Ref)
  | produce (roomId : RoomId) (peerId : PeerId) (transportId : Ref) (kind : MediaKind)
  | consume (roomId : RoomId) (peerId : PeerId) (producerId : Ref)
  | resumeConsumer (roomId : RoomId) (peerId : PeerId) (consumerId : Ref)
  | pauseProducer (roomId : RoomId) (peerId : PeerId) (producerId : Ref)
  | resumeProducer (roomId : RoomId) (peerId : PeerId) (producerId : Ref)

omit [DecidableEq Ref] in
def MediaRequest.call : MediaRequest Ref → MediaCall Ref
  | .rooms request => .rooms request.call
  | .connectTransport roomId peerId transportId =>
      .connectTransport roomId peerId transportId .call
  | .produce roomId peerId transportId kind => .produce roomId peerId transportId kind .call
  | .consume roomId peerId producerId => .consume roomId peerId producerId .call
  | .resumeConsumer roomId peerId consumerId => .resumeConsumer roomId peerId consumerId .call
  | .pauseProducer roomId peerId producerId => .setPaused roomId peerId producerId true .call
  | .resumeProducer roomId peerId producerId => .setPaused roomId peerId producerId false .call

def MediaCall.step (i : Ref) (ok : Bool) (m : Media Ref) :
    MediaCall Ref → Option (Media Ref × MediaCall Ref)
  | .rooms call =>
      (call.step i ok m.rooms).map fun result => ({ m with rooms := result.1 }, .rooms result.2)
  | .connectTransport roomId peerId transportId point =>
      (point.step roomId peerId transportId ok m).map fun result =>
        (result.1, .connectTransport roomId peerId transportId result.2)
  | .produce roomId peerId transportId kind point =>
      (point.step i roomId peerId transportId kind ok m.rooms).map fun result =>
        ({ m with rooms := result.1 }, .produce roomId peerId transportId kind result.2)
  | .consume roomId peerId producerId point =>
      (point.step i roomId peerId producerId ok m).map fun result =>
        (result.1, .consume roomId peerId producerId result.2)
  | .resumeConsumer roomId peerId consumerId point =>
      (point.step roomId peerId consumerId ok m).map fun result =>
        (result.1, .resumeConsumer roomId peerId consumerId result.2)
  | .setPaused roomId peerId producerId paused point =>
      (point.mediaStep roomId peerId producerId paused ok m).map fun result =>
        (result.1, .setPaused roomId peerId producerId paused result.2)

abbrev MediaProcess (Ref : Type) := Pool Ref (Media Ref) (MediaCall Ref)

/-- Any interleaving of the calls; the flag is the awaited outcome. -/
def mediaService : System (MediaProcess Ref) (Ref × Bool) :=
  Pool.system MediaCall.step

omit [DecidableEq Ref] in
def MediaProcess.spawned (workers : List Worker) (requests : Ref → MediaRequest Ref) :
    MediaProcess Ref :=
  ⟨.spawned workers, fun i => (requests i).call⟩

end MeetServer.Sfu
