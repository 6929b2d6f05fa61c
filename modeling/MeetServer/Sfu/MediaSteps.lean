import MeetServer.Sfu.Consumers

/-!
# The steps of the calls for media

What a call of `Consumers` keeps over its await, and the transitions of
`MediaCall.step`.  The transitions that look nothing up and make nothing are one.
-/

namespace MeetServer.Sfu

open MeetServer.Foundation

variable {Ref : Type} [DecidableEq Ref]

namespace MediaCall

/-- The part of a call that `MediaRooms` knows; the other calls are finished there. -/
def roomCall : MediaCall Ref → Call Ref
  | .rooms call => call
  | _ => .removePeer "" "" true

/-- A transport with the peer it was looked up in. -/
def heldTransport : MediaCall Ref → Option (Ref × PeerId × Ref)
  | .connectTransport _ peerId _ (.transportConnect r t)
  | .produce _ peerId _ _ (.transportProduce r _ t)
  | .consume _ peerId _ (.transportConsume r _ t) => some (r, peerId, t)
  | _ => none

def heldObject : MediaCall Ref → Option (Ref × PeerId × Ref)
  | .consume _ peerId _ (.transportConsume r object _)
  | .resumeConsumer _ peerId _ (.consumerResume r object _) => some (r, peerId, object)
  | _ => none

/-- A consumer with the peer object that has it. -/
def heldConsumer : MediaCall Ref → Option (Ref × Ref)
  | .resumeConsumer _ _ _ (.consumerResume _ object k) => some (object, k)
  | _ => none

/-- The call has still to make its peer, its producer or its consumer. -/
def making : MediaCall Ref → Bool
  | .rooms (.createTransport _ _ _ .call) => true
  | .produce _ _ _ _ .call | .produce _ _ _ _ (.transportProduce ..) => true
  | .consume _ _ _ .call | .consume _ _ _ (.transportConsume ..) => true
  | _ => false

/-- Nothing is looked up any more and nothing is going to be made. -/
structure Settled (c : MediaCall Ref) : Prop where
  roomCall : c.roomCall = .removePeer "" "" true
  transport : c.heldTransport = none
  object : c.heldObject = none
  consumer : c.heldConsumer = none
  making : c.making = false

inductive Step (i : Ref) (m : Media Ref) :
    MediaCall Ref → Media Ref → MediaCall Ref → Prop
  | rooms {ok : Bool} {call call' : Call Ref} {s' : State Ref} :
      call.step i ok m.rooms = some (s', call') →
      Step i m (.rooms call) { m with rooms := s' } (.rooms call')
  | quiet {c c' : MediaCall Ref} : c.roomCall = .removePeer "" "" true → c'.Settled →
      Step i m c m c'
  | connecting {roomId : RoomId} {peerId : PeerId} {t r : Ref} {peer : MediaPeer Ref} :
      m.rooms.rooms.lookup roomId = some r → (m.rooms.room r).getPeer peerId = some peer →
      (peer.sendTransport = some t ∨ peer.recvTransport = some t) →
      Step i m (.connectTransport roomId peerId t .call) m
        (.connectTransport roomId peerId t (.transportConnect r t))
  | connected {roomId : RoomId} {peerId : PeerId} {transportId r t : Ref} :
      m.rooms.transportOpen t = true →
      Step i m (.connectTransport roomId peerId transportId (.transportConnect r t))
        { m with connected := Function.update m.connected t true }
        (.connectTransport roomId peerId transportId .returned)
  | producing {roomId : RoomId} {peerId : PeerId} {t r : Ref} {kind : MediaKind}
      {peer : MediaPeer Ref} :
      m.rooms.rooms.lookup roomId = some r → (m.rooms.room r).getPeer peerId = some peer →
      peer.sendTransport = some t →
      Step i m (.produce roomId peerId t kind .call) m
        (.produce roomId peerId t kind (.transportProduce r peer.object t))
  | produced {roomId : RoomId} {peerId : PeerId} {transportId r object t : Ref}
      {kind : MediaKind} {point' : Produce Ref} :
      m.rooms.transportOpen t = true →
      (MediaCall.produce roomId peerId transportId kind point').Settled →
      Step i m (.produce roomId peerId transportId kind (.transportProduce r object t))
        { m with rooms := m.rooms.updatePeer r peerId object fun peer =>
            peer.addProducer i { kind := kind, transport := t } }
        (.produce roomId peerId transportId kind point')
  | consuming {roomId : RoomId} {peerId : PeerId} {producerId t r : Ref}
      {peer : MediaPeer Ref} :
      m.rooms.rooms.lookup roomId = some r → (m.rooms.room r).getPeer peerId = some peer →
      peer.recvTransport = some t →
      Step i m (.consume roomId peerId producerId .call) m
        (.consume roomId peerId producerId (.transportConsume r peer.object t))
  | consumed {roomId : RoomId} {peerId : PeerId} {producerId r object t : Ref}
      {producer : Producer Ref} :
      m.rooms.routerProducer r producerId = some producer → m.rooms.transportOpen t = true →
      Step i m (.consume roomId peerId producerId (.transportConsume r object t))
        (m.addConsumer i object
          { producerId := producerId, producerTransport := producer.transport,
            transport := t, paused := true, producerPaused := producer.paused })
        (.consume roomId peerId producerId (.returned i))
  | resuming {roomId : RoomId} {peerId : PeerId} {k r : Ref} {peer : MediaPeer Ref} :
      m.rooms.rooms.lookup roomId = some r → (m.rooms.room r).getPeer peerId = some peer →
      k ∈ m.consumers peer.object →
      Step i m (.resumeConsumer roomId peerId k .call) m
        (.resumeConsumer roomId peerId k (.consumerResume r peer.object k))
  | resumed {roomId : RoomId} {peerId : PeerId} {consumerId r object k : Ref} :
      m.consumerOpen k = true →
      Step i m (.resumeConsumer roomId peerId consumerId (.consumerResume r object k))
        (m.setConsumerPaused k false) (.resumeConsumer roomId peerId consumerId .returned)
  | paused {roomId : RoomId} {peerId : PeerId} {producerId r object : Ref} {paused : Bool} :
      m.holdsProducer r peerId object producerId = true →
      Step i m (.setPaused roomId peerId producerId paused (.producerSetPaused r object))
        { m.mirrorPaused producerId paused with
          rooms := m.rooms.updatePeer r peerId object fun peer =>
            peer.setPaused producerId paused }
        (.setPaused roomId peerId producerId paused .returned)

variable {i : Ref} {m m' : Media Ref} {c c' : MediaCall Ref} {ok : Bool} {roomId : RoomId}
  {peerId : PeerId}

theorem connectTransport_cases {transportId : Ref} {point : ConnectTransport Ref}
    (h : (MediaCall.connectTransport roomId peerId transportId point).step i ok m =
      some (m', c')) :
    Step i m (.connectTransport roomId peerId transportId point) m' c' := by
  obtain ⟨⟨m', point'⟩, hstep, hr⟩ := Option.map_eq_some_iff.1 h
  cases hr
  cases point with
  | call =>
      simp only [ConnectTransport.step] at hstep
      split at hstep
      · cases hstep
        exact .quiet rfl ⟨rfl, rfl, rfl, rfl, rfl⟩
      · next r hr =>
        split at hstep
        · cases hstep
          exact .quiet rfl ⟨rfl, rfl, rfl, rfl, rfl⟩
        · next peer hpeer =>
          split at hstep
          · next hown =>
            cases hstep
            exact .connecting hr hpeer hown
          · cases hstep
            exact .quiet rfl ⟨rfl, rfl, rfl, rfl, rfl⟩
  | transportConnect r t =>
      simp only [ConnectTransport.step] at hstep
      split at hstep
      · split at hstep
        · next hopen =>
          cases hstep
          exact .connected hopen
        · cases hstep
      · cases hstep
        exact .quiet rfl ⟨rfl, rfl, rfl, rfl, rfl⟩
  | returned => cases hstep
  | threw => cases hstep

theorem produce_cases {transportId : Ref} {kind : MediaKind} {point : Produce Ref}
    (h : (MediaCall.produce roomId peerId transportId kind point).step i ok m =
      some (m', c')) :
    Step i m (.produce roomId peerId transportId kind point) m' c' := by
  obtain ⟨⟨s', point'⟩, hstep, hr⟩ := Option.map_eq_some_iff.1 h
  cases hr
  cases point with
  | call =>
      simp only [Produce.step] at hstep
      split at hstep
      · cases hstep
        exact .quiet rfl ⟨rfl, rfl, rfl, rfl, rfl⟩
      · next r hr =>
        split at hstep
        · cases hstep
          exact .quiet rfl ⟨rfl, rfl, rfl, rfl, rfl⟩
        · next peer hpeer =>
          split at hstep
          · next hown =>
            cases hstep
            exact .producing hr hpeer hown
          · cases hstep
            exact .quiet rfl ⟨rfl, rfl, rfl, rfl, rfl⟩
  | transportProduce r object t =>
      simp only [Produce.step] at hstep
      split at hstep
      · split at hstep
        · next hopen =>
          cases hstep
          refine .produced hopen ?_
          unfold afterProduce
          split
          · exact ⟨rfl, rfl, rfl, rfl, rfl⟩
          · split <;> exact ⟨rfl, rfl, rfl, rfl, rfl⟩
        · cases hstep
      · cases hstep
        exact .quiet rfl ⟨rfl, rfl, rfl, rfl, rfl⟩
  | tapProducer producer =>
      cases hstep
      refine .quiet rfl ?_
      split <;> exact ⟨rfl, rfl, rfl, rfl, rfl⟩
  | returned => cases hstep
  | threw => cases hstep

theorem consume_cases {producerId : Ref} {point : Consume Ref}
    (h : (MediaCall.consume roomId peerId producerId point).step i ok m = some (m', c')) :
    Step i m (.consume roomId peerId producerId point) m' c' := by
  obtain ⟨⟨m', point'⟩, hstep, hr⟩ := Option.map_eq_some_iff.1 h
  cases hr
  cases point with
  | call =>
      simp only [Consume.step] at hstep
      split at hstep
      · cases hstep
        exact .quiet rfl ⟨rfl, rfl, rfl, rfl, rfl⟩
      · next r hr =>
        split at hstep
        · cases hstep
          exact .quiet rfl ⟨rfl, rfl, rfl, rfl, rfl⟩
        · next peer hpeer =>
          split at hstep
          · split at hstep
            · cases hstep
              exact .quiet rfl ⟨rfl, rfl, rfl, rfl, rfl⟩
            · next t ht =>
              cases hstep
              exact .consuming hr hpeer ht
          · cases hstep
            exact .quiet rfl ⟨rfl, rfl, rfl, rfl, rfl⟩
  | transportConsume r object t =>
      simp only [Consume.step] at hstep
      split at hstep
      · split at hstep
        · cases hstep
        · next producer hproducer =>
          split at hstep
          · next hopen =>
            cases hstep
            exact .consumed hproducer hopen
          · cases hstep
      · cases hstep
        exact .quiet rfl ⟨rfl, rfl, rfl, rfl, rfl⟩
  | returned => cases hstep
  | threw => cases hstep

theorem resumeConsumer_cases {consumerId : Ref} {point : ResumeConsumer Ref}
    (h : (MediaCall.resumeConsumer roomId peerId consumerId point).step i ok m =
      some (m', c')) :
    Step i m (.resumeConsumer roomId peerId consumerId point) m' c' := by
  obtain ⟨⟨m', point'⟩, hstep, hr⟩ := Option.map_eq_some_iff.1 h
  cases hr
  cases point with
  | call =>
      simp only [ResumeConsumer.step] at hstep
      split at hstep
      · cases hstep
        exact .quiet rfl ⟨rfl, rfl, rfl, rfl, rfl⟩
      · next r hr =>
        split at hstep
        · cases hstep
          exact .quiet rfl ⟨rfl, rfl, rfl, rfl, rfl⟩
        · next peer hpeer =>
          split at hstep
          · next hown =>
            cases hstep
            exact .resuming hr hpeer hown.1
          · cases hstep
            exact .quiet rfl ⟨rfl, rfl, rfl, rfl, rfl⟩
  | consumerResume r object k =>
      simp only [ResumeConsumer.step] at hstep
      split at hstep
      · split at hstep
        · next hopen =>
          cases hstep
          exact .resumed hopen
        · cases hstep
      · cases hstep
        exact .quiet rfl ⟨rfl, rfl, rfl, rfl, rfl⟩
  | returned => cases hstep
  | threw => cases hstep

theorem setPaused_cases {producerId : Ref} {paused : Bool} {point : SetPaused Ref}
    (h : (MediaCall.setPaused roomId peerId producerId paused point).step i ok m =
      some (m', c')) :
    Step i m (.setPaused roomId peerId producerId paused point) m' c' := by
  obtain ⟨⟨m', point'⟩, hstep, hr⟩ := Option.map_eq_some_iff.1 h
  cases hr
  cases point with
  | call =>
      obtain ⟨⟨s', point'⟩, hpoint, hr⟩ := Option.map_eq_some_iff.1 hstep
      cases hr
      simp only [SetPaused.step] at hpoint
      split at hpoint
      · cases hpoint
        exact .quiet rfl ⟨rfl, rfl, rfl, rfl, rfl⟩
      · split at hpoint
        · cases hpoint
          exact .quiet rfl ⟨rfl, rfl, rfl, rfl, rfl⟩
        · split at hpoint <;> cases hpoint <;>
            exact .quiet rfl ⟨rfl, rfl, rfl, rfl, rfl⟩
  | producerSetPaused r object =>
      simp only [SetPaused.mediaStep, SetPaused.step] at hstep
      cases ok with
      | false =>
          cases hstep
          exact .quiet rfl ⟨rfl, rfl, rfl, rfl, rfl⟩
      | true =>
          split at hstep
          · cases hstep
          · next hholds =>
            cases hstep
            exact .paused (by simpa using hholds)
  | returned => cases hstep
  | threw => cases hstep

theorem step_cases (h : c.step i ok m = some (m', c')) : Step i m c m' c' := by
  cases c with
  | rooms call =>
      obtain ⟨⟨s', call'⟩, hstep, hr⟩ := Option.map_eq_some_iff.1 h
      cases hr
      exact .rooms hstep
  | connectTransport => exact connectTransport_cases h
  | produce => exact produce_cases h
  | consume => exact consume_cases h
  | resumeConsumer => exact resumeConsumer_cases h
  | setPaused => exact setPaused_cases h

end MediaCall

end MeetServer.Sfu
