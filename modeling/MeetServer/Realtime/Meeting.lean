import MeetServer.Realtime.Backfill

/-!
# Meetings

What the service is for, without instances, Redis and nodes: a meeting has
members, they get transports, and over a send transport they send media that
the others are told of.  `World.meeting` reads a meeting off the room's record
and the node that it names.
-/

namespace MeetServer.Realtime

open MeetServer.Foundation

/-! ## The abstract meeting -/

structure Meeting (Ref : Type) where
  members : PeerId → Option Peer
  transports : PeerId → TransportDirection → Option Ref
  sends : PeerId → Ref → Option MediaKind

namespace Meeting

variable {Ref : Type} (m : Meeting Ref)

def empty : Meeting Ref where
  members _ := none
  transports _ _ := none
  sends _ _ := none

def join (peer : Peer) : Meeting Ref :=
  { m with members := Function.update m.members peer.id (some peer) }

/-- Nothing of the peer stays behind. -/
def leave (peerId : PeerId) : Meeting Ref where
  members := Function.update m.members peerId none
  transports := Function.update m.transports peerId fun _ => none
  sends := Function.update m.sends peerId fun _ => none

def give (peerId : PeerId) (direction : TransportDirection) (t : Ref) : Meeting Ref :=
  { m with
    transports := Function.update m.transports peerId
      (Function.update (m.transports peerId) direction (some t)) }

def send [DecidableEq Ref] (peerId : PeerId) (producerId : Ref) (kind : MediaKind) :
    Meeting Ref :=
  { m with
    sends := Function.update m.sends peerId
      (Function.update (m.sends peerId) producerId (some kind)) }

/-- Only members have transports and send. -/
structure Sound : Prop where
  transports : ∀ p direction, m.members p = none → m.transports p direction = none
  sends : ∀ p producerId, m.members p = none → m.sends p producerId = none

/-- The members other than `peerId`, and what they send. -/
structure Lists (peerId : PeerId) (existingPeers : List Peer)
    (existingProducers : List (ExistingProducer Ref)) : Prop where
  peers : ∀ q, q ∈ existingPeers ↔ m.members q.id = some q ∧ q.id ≠ peerId
  producers : ∀ e, e ∈ existingProducers ↔
    m.sends e.peerId e.producerId = some e.kind ∧ e.peerId ≠ peerId

variable {m}

theorem ext {m' : Meeting Ref} (hmembers : ∀ p, m.members p = m'.members p)
    (htransports : ∀ p direction, m.transports p direction = m'.transports p direction)
    (hsends : ∀ p producerId, m.sends p producerId = m'.sends p producerId) : m = m' := by
  obtain ⟨members, transports, sends⟩ := m
  obtain ⟨members', transports', sends'⟩ := m'
  obtain rfl : members = members' := funext hmembers
  obtain rfl : transports = transports' := funext fun p => funext (htransports p)
  obtain rfl : sends = sends' := funext fun p => funext (hsends p)
  rfl

theorem Sound.eq_empty (h : m.Sound) (hnobody : ∀ p, m.members p = none) : m = empty :=
  ext hnobody (fun p direction => h.transports p direction (hnobody p))
    fun p producerId => h.sends p producerId (hnobody p)

theorem Lists.of_join {peer : Peer} {existingPeers : List Peer}
    {existingProducers : List (ExistingProducer Ref)}
    (h : (m.join peer).Lists peer.id existingPeers existingProducers) :
    m.Lists peer.id existingPeers existingProducers where
  peers q := by
    refine (h.peers q).trans (and_congr_left fun hne => ?_)
    have hsame : (m.join peer).members q.id = m.members q.id := Function.update_of_ne hne _ _
    rw [hsame]
  producers := h.producers

/-- Who is not there can leave once more. -/
theorem Sound.leave_eq (h : m.Sound) {peerId : PeerId} (hnone : m.members peerId = none) :
    m.leave peerId = m := by
  refine ext (fun p => ?_) (fun p direction => ?_) fun p producerId => ?_ <;>
    simp only [leave, Function.update_apply] <;> split
  · next heq => rw [heq, hnone]
  · rfl
  · next heq => rw [heq, h.transports peerId direction hnone]
  · rfl
  · next heq => rw [heq, h.sends peerId producerId hnone]
  · rfl

end Meeting

/--
What a call that has ended has done to the meeting, where `i` is the name of what
it has created.  Only a join to an empty meeting can fail: it needs a node and a
worker.
-/
inductive Meeting.Follows {κ : Type} [DecidableEq κ] (i : Nat ⊕ κ) (m : Meeting (Nat ⊕ κ)) :
    MediaCall κ → Meeting (Nat ⊕ κ) → Prop
  | joined {instanceId : Instance} {peer : Peer} {existingPeers : List Peer}
      {existingProducers : List (ExistingProducer (Nat ⊕ κ))} :
      m.Lists peer.id existingPeers existingProducers →
      Follows i m
        (.signaling (.join instanceId peer (.returned existingPeers existingProducers)))
        (m.join peer)
  | unserved {instanceId : Instance} {peer : Peer} : (∀ p, m.members p = none) →
      Follows i m (.signaling (.join instanceId peer .threw)) m
  | left {peerId : PeerId} {point : Leave Nat κ} : point ≠ .threw →
      Follows i m (.signaling (.leave peerId point)) (m.leave peerId)
  | given {peerId : PeerId} {direction : TransportDirection} : m.members peerId ≠ none →
      Follows i m (.signaling (.createWebRtcTransport peerId direction (.returned i)))
        (m.give peerId direction i)
  | refused {peerId : PeerId} {direction : TransportDirection} : m.members peerId = none →
      Follows i m (.signaling (.createWebRtcTransport peerId direction .threw)) m
  | sent {peerId : PeerId} {t : Nat ⊕ κ} {kind : MediaKind} :
      m.transports peerId .send = some t →
      Follows i m (.produce peerId t kind (.returned i)) (m.send peerId i kind)
  | unsent {peerId : PeerId} {t : Nat ⊕ κ} {kind : MediaKind} :
      m.transports peerId .send ≠ some t → Follows i m (.produce peerId t kind .threw) m
  | paused {peerId : PeerId} {producerId : Nat ⊕ κ} {paused : Bool} :
      m.sends peerId producerId ≠ none →
      Follows i m (.setPaused peerId producerId paused .returned) m
  | unpaused {peerId : PeerId} {producerId : Nat ⊕ κ} {paused : Bool} :
      m.sends peerId producerId = none →
      Follows i m (.setPaused peerId producerId paused .threw) m

/-! ## The meeting of a world -/

section World

variable {ι κ : Type} [DecidableEq ι] [DecidableEq κ] (roomId : RoomId) (w : World ι κ)

/-- The MediaRoom on the node that the record names. -/
def World.mediaRoom : Option (Sfu.State (ι ⊕ κ) × (ι ⊕ κ)) :=
  w.redis.url.bind fun url =>
    ((w.sfu url).rooms.lookup roomId).map fun r => (w.sfu url, r)

def World.transports (p : PeerId) (direction : TransportDirection) : Option (ι ⊕ κ) :=
  (w.mediaRoom roomId).bind fun room =>
    ((room.1.room room.2).getPeer p).bind fun peer => peer.transportFor direction

def World.meeting : Meeting (ι ⊕ κ) where
  members p := w.redis.peers.lookup p
  transports := w.transports roomId
  sends p producerId :=
    (w.mediaRoom roomId).bind fun room => room.1.openProducer room.2 p producerId

/-- The meeting as Redis announces it. -/
def World.announced : Meeting (ι ⊕ κ) where
  members p := w.redis.peers.lookup p
  transports := w.transports roomId
  sends p producerId := (w.redis.producers p).lookup producerId

end World

end MeetServer.Realtime
