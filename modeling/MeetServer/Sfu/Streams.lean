import MeetServer.Sfu.FailedTransports
import MeetServer.Sfu.PeerIsolation
import MeetServer.Sfu.RoomIsolation

/-!
# Media stays in the room

The ids of `consume` and `produce` come from clients, and the objects that a call
has looked up may be gone when mediasoup answers.  Still, an open consumer leads
from a peer of a room to the peer of this room that has asked for it.
-/

namespace MeetServer.Sfu

open MeetServer.Foundation

variable {Ref : Type}

namespace State

/-- The transport was created, and unless it is closed it is the peer's for this direction. -/
def Assigned (s : State Ref) (r : Ref) (peerId : PeerId) (direction : TransportDirection)
    (t : Ref) : Prop :=
  s.transport t ≠ none ∧ (s.Live t → s.registered r peerId direction = some t)

/-- The object of the peer, as long as the transport is not closed. -/
def HeldBy (s : State Ref) (r : Ref) (peerId : PeerId) (object t : Ref) : Prop :=
  s.Live t → ((s.room r).getPeer peerId).map MediaPeer.object = some object

variable {s : State Ref} {r : Ref} {peerId : PeerId}

theorem Wired.assigned (h : s.Wired) {peer : MediaPeer Ref} {direction : TransportDirection}
    {t : Ref} (hpeer : (s.room r).getPeer peerId = some peer)
    (ht : peer.transportFor direction = some t) : s.Assigned r peerId direction t := by
  have hregistered : s.registered r peerId direction = some t :=
    Option.bind_eq_some_iff.2 ⟨peer, hpeer, ht⟩
  exact ⟨by simp [h.live r peerId direction t hregistered], fun _ => hregistered⟩

variable [DecidableEq Ref]

/-- A step keeps the transports of a peer in their places, and the peer while it has them. -/
structure Sustains (s s' : State Ref) : Prop where
  created : ∀ t, s.transport t ≠ none → s'.transport t ≠ none
  live : ∀ t, s.transport t ≠ none → s'.Live t → s.Live t
  registered : ∀ r peerId direction t, s.registered r peerId direction = some t → s'.Live t →
    s'.registered r peerId direction = some t
  producer : ∀ r peerId k t, s.HasProducer r peerId k t →
    (∃ direction t', s'.registered r peerId direction = some t') → s'.HasProducer r peerId k t
  object : ∀ r peerId direction t, s.registered r peerId direction = some t → s'.Live t →
    s.KeepsObject s' r peerId

namespace Sustains

variable {s' : State Ref} {direction : TransportDirection} {object t k : Ref}

theorem assigned (h : s.Sustains s') (hassigned : s.Assigned r peerId direction t) :
    s'.Assigned r peerId direction t :=
  ⟨h.created t hassigned.1, fun hlive' =>
    h.registered r peerId direction t (hassigned.2 (h.live t hassigned.1 hlive')) hlive'⟩

theorem heldBy (h : s.Sustains s') (hassigned : s.Assigned r peerId direction t)
    (hheld : s.HeldBy r peerId object t) : s'.HeldBy r peerId object t := by
  intro hlive'
  have hlive := h.live t hassigned.1 hlive'
  exact h.object r peerId direction t (hassigned.2 hlive) hlive' object (hheld hlive)

/-- A producer is there as long as its transport is. -/
theorem hasProducer (h : s.Sustains s') (hassigned : s.Assigned r peerId direction t)
    (hproducer : s.Live t → s.HasProducer r peerId k t) (hlive' : s'.Live t) :
    s'.HasProducer r peerId k t := by
  have hlive := h.live t hassigned.1 hlive'
  exact h.producer r peerId k t (hproducer hlive)
    ⟨direction, t, h.registered r peerId direction t (hassigned.2 hlive) hlive'⟩

theorem of_evolves {i : Ref} {entry : Option (Ref × PeerId)} (h : Evolves i entry s s')
    (hobject : ∀ r peerId direction t, s.registered r peerId direction = some t →
      s'.registered r peerId direction = some t → s.KeepsObject s' r peerId) : s.Sustains s' :=
  ⟨h.created, h.live, h.registered, h.producer, fun r peerId direction t hregistered hlive' =>
    hobject r peerId direction t hregistered (h.registered r peerId direction t hregistered hlive')⟩

theorem refl (s : State Ref) : s.Sustains s :=
  ⟨fun _ => id, fun _ _ => id, fun _ _ _ _ h _ => h, fun _ _ _ _ h _ => h,
    fun _ _ _ _ _ _ _ => id⟩

theorem updatePeer {i : Ref} {f : MediaPeer Ref → MediaPeer Ref}
    (h : Evolves i none s (s.updatePeer r peerId object f)) (hkeyed : s.Keyed)
    (hid : ∀ peer, (f peer).id = peer.id) (hobject : ∀ peer, (f peer).object = peer.object) :
    s.Sustains (s.updatePeer r peerId object f) := by
  refine .of_evolves h fun v q _ _ _ _ object' => ?_
  rw [getPeer_updatePeer hkeyed hid, Option.map_map]
  cases (s.room v).getPeer q with
  | none => exact id
  | some peer =>
      intro hpeer
      simp only [Option.map_some, Function.comp_apply] at hpeer ⊢
      split
      · rw [hobject, hpeer]
      · exact hpeer

end Sustains

end State

section Calls

variable [DecidableEq Ref] {i : Ref} {ok : Bool} {s s' : State Ref} {c c' : Call Ref}

theorem Call.sustains (hwired : s.Wired)
    (hunmade : c.creatingTransport = true → s.transport i = none)
    (hnew : ∀ t transport, s.transport t = some transport → transport.router ≠ i)
    (h : c.step i ok s = some (s', c')) : s.Sustains s' := by
  refine .of_evolves (Call.evolves hwired hunmade hnew h)
    fun r peerId direction t hregistered hregistered' => ?_
  have hremoved (v : Ref) (q : PeerId) (heq : s' = s.removePeerOf v q) :
      s.KeepsObject s' r peerId := by
    subst heq
    refine .removePeerOf ?_
    rintro ⟨rfl, rfl⟩
    simp [State.registered_removePeerOf] at hregistered'
  by_cases hother : ∀ roomId peerId direction point,
      c ≠ .createTransport roomId peerId direction point
  · rcases c.step_apart hwired.keyed h hother with ⟨v, q, -, heq⟩ | ⟨-, hpeers⟩
    · exact hremoved v q heq
    · rcases hpeers r peerId with hsame | ⟨-, hnone⟩
      · exact .of_unnamed hsame
      · simp [State.registered, hnone] at hregistered'
  · simp only [not_forall, not_not] at hother
    obtain ⟨roomId, q, direction', point, rfl⟩ := hother
    obtain ⟨point', rfl, hstep⟩ := Call.createTransport_cases h
    by_cases hundone : ∃ v, s' = s.removePeerOf v q
    · obtain ⟨v, heq⟩ := hundone
      exact hremoved v q heq
    · refine hstep.keepsObject hwired.keyed ?_
      rintro v object rfl rfl -
      cases hstep
      exact hundone ⟨v, rfl⟩

theorem State.hasProducer_updatePeer {r object v k t : Ref} {peerId q : PeerId}
    {f : MediaPeer Ref → MediaPeer Ref} (hkeyed : s.Keyed)
    (hproducer : (s.updatePeer r peerId object f).HasProducer v q k t)
    (hid : ∀ peer, (f peer).id = peer.id) :
    s.HasProducer v q k t ∨ v = r ∧ q = peerId ∧ ∃ peer producer,
      (s.room r).getPeer peerId = some peer ∧ (f peer).producers.lookup k = some producer ∧
        producer.transport = t := by
  obtain ⟨peer', producer, hpeer', hlookup, ht⟩ := hasProducer_iff.1 hproducer
  rw [getPeer_updatePeer hkeyed hid] at hpeer'
  obtain ⟨peer, hpeer, rfl⟩ := Option.map_eq_some_iff.1 hpeer'
  split at hlookup
  · next hplace =>
    obtain ⟨rfl, rfl, -⟩ := hplace
    exact .inr ⟨rfl, rfl, peer, producer, hpeer, hlookup, ht⟩
  · exact .inl (hasProducer_iff.2 ⟨peer, producer, hpeer, hlookup, ht⟩)

theorem State.hasProducer_addProducer {r object v k t t' : Ref} {peerId q : PeerId}
    {kind : MediaKind} (hkeyed : s.Keyed)
    (h : (s.updatePeer r peerId object fun peer =>
      peer.addProducer i { kind := kind, transport := t }).HasProducer v q k t') :
    s.HasProducer v q k t' ∨ v = r ∧ q = peerId ∧ t = t' := by
  rcases hasProducer_updatePeer hkeyed h fun _ => rfl with
    hold | ⟨rfl, rfl, peer, producer, hpeer, hlookup, rfl⟩
  · exact .inl hold
  · rw [MediaPeer.addProducer, Dict.lookup_insert_ite] at hlookup
    split at hlookup
    · obtain rfl := Option.some.inj hlookup
      exact .inr ⟨rfl, rfl, rfl⟩
    · exact .inl (hasProducer_iff.2 ⟨peer, producer, hpeer, hlookup, rfl⟩)

theorem State.hasProducer_setPaused {r object v k t producerId : Ref} {peerId q : PeerId}
    {paused : Bool} (hkeyed : s.Keyed)
    (h : (s.updatePeer r peerId object fun peer =>
      peer.setPaused producerId paused).HasProducer v q k t) : s.HasProducer v q k t := by
  rcases hasProducer_updatePeer hkeyed h fun peer =>
    (peer.setPaused_fields producerId paused).1 with
    hold | ⟨rfl, rfl, peer, producer, hpeer, hlookup, rfl⟩
  · exact hold
  · rw [MediaPeer.lookup_setPaused] at hlookup
    obtain ⟨producer', hold, rfl⟩ := Option.map_eq_some_iff.1 hlookup
    refine hasProducer_iff.2 ⟨peer, producer', hpeer, hold, ?_⟩
    split <;> rfl

omit [DecidableEq Ref] in
theorem State.producers_of_peers {v : Ref} {q : PeerId}
    (h : ∀ peer', (s'.room v).getPeer q = some peer' →
      ∃ peer, (s.room v).getPeer q = some peer ∧ peer'.producers = peer.producers) :
    s'.producers v q = s.producers v q ∨ s'.producers v q = ∅ := by
  unfold producers
  cases hpeer' : (s'.room v).getPeer q with
  | none => exact .inr rfl
  | some peer' =>
      obtain ⟨peer, hpeer, hsame⟩ := h peer' hpeer'
      rw [hpeer]
      exact .inl hsame

/-- The calls of `MediaRooms` add no producer. -/
theorem Call.producers_of_step (hkeyed : s.Keyed) (h : c.step i ok s = some (s', c')) (v : Ref)
    (q : PeerId) : s'.producers v q = s.producers v q ∨ s'.producers v q = ∅ := by
  by_cases hother : ∀ roomId peerId direction point,
      c ≠ .createTransport roomId peerId direction point
  · rcases c.step_apart hkeyed h hother with ⟨r, peerId, -, rfl⟩ | ⟨-, hpeers⟩
    · exact State.producers_of_peers fun peer' hpeer' => ⟨peer', peers_removePeerOf hpeer', rfl⟩
    · refine State.producers_of_peers fun peer' hpeer' => ?_
      rcases hpeers v q with hsame | ⟨-, hnone⟩
      · rw [hpeer'] at hsame
        obtain ⟨peer, hpeer, hunnamed⟩ := Option.map_eq_some_iff.1 hsame.symm
        simp only [MediaPeer.unnamed, MediaPeer.mk.injEq] at hunnamed
        exact ⟨peer, hpeer, hunnamed.2.2.2.2.2.symm⟩
      · cases hnone.symm.trans hpeer'
  · simp only [not_forall, not_not] at hother
    obtain ⟨roomId, peerId, direction, point, rfl⟩ := hother
    obtain ⟨point', rfl, hstep⟩ := Call.createTransport_cases h
    cases hstep with
    | noRoom | failed | overtaken => exact .inl rfl
    | @undone r object =>
        exact State.producers_of_peers fun peer' hpeer' => ⟨peer', peers_removePeerOf hpeer', rfl⟩
    | @entered ok r hr =>
        by_cases hv : v = r
        · subst hv
          exact .inl (State.producers_getOrCreatePeer peerId q i)
        · exact .inl (by simp [State.producers, State.setRoom, hv])
    | @assigned r existed peer hopen hpeer =>
        refine .inl ?_
        by_cases hv : v = r
        · subst hv
          refine (State.producers_setPeer ((s.openTransport i v).closeTransport
            (peer.transportFor direction)) v (peer.setTransport i direction) q).trans ?_
          rw [MediaPeer.id_setTransport, MediaPeer.producers_setTransport,
            hkeyed v peerId peer hpeer]
          split
          · next heq => simp [State.producers, heq, hpeer]
          · rfl
        · simp [State.producers, State.setRoom, hv]

end Calls

/-! ## What a call holds -/

namespace MediaCall

/-- The transport that the call is going to produce or to consume on. -/
def heldFor : MediaCall Ref → Option (Ref × PeerId × TransportDirection × Ref)
  | .produce _ peerId _ _ (.transportProduce r _ t) => some (r, peerId, .send, t)
  | .consume _ peerId _ (.transportConsume r _ t) => some (r, peerId, .recv, t)
  | _ => none

/-- The peer object that the call is going to give a consumer. -/
def heldBy : MediaCall Ref → Option (Ref × PeerId × Ref × Ref)
  | .consume _ peerId _ (.transportConsume r object t) => some (r, peerId, object, t)
  | _ => none

variable {c : MediaCall Ref}

theorem heldFor_of_heldBy {r object t : Ref} {peerId : PeerId}
    (h : c.heldBy = some (r, peerId, object, t)) : c.heldFor = some (r, peerId, .recv, t) := by
  unfold heldBy at h
  split at h
  · cases h
    rfl
  · cases h

theorem heldFor_of_transport (h : c.heldTransport = none) : c.heldFor = none := by
  cases c with
  | produce roomId peerId transportId kind point => cases point <;> first | rfl | cases h
  | consume roomId peerId producerId point => cases point <;> first | rfl | cases h
  | rooms | connectTransport | resumeConsumer | setPaused => rfl

end MediaCall

/-! ## The invariant -/

variable [DecidableEq Ref]

/-- The consumer `k` leads from the peer `q` of the room to the object of the peer `peerId`. -/
structure Media.Leads (m : Media Ref) (r : Ref) (q peerId : PeerId) (object k : Ref)
    (consumer : Consumer Ref) : Prop where
  transport : m.rooms.Assigned r peerId .recv consumer.transport
  held : m.rooms.HeldBy r peerId object consumer.transport
  listed : k ∈ m.consumers object
  producerTransport : m.rooms.Assigned r q .send consumer.producerTransport
  producer : m.rooms.Live consumer.producerTransport →
    m.rooms.HasProducer r q consumer.producerId consumer.producerTransport

/-- The room object that a call has returned, and its id. -/
def MediaProcess.Has (p : MediaProcess Ref) (roomId : RoomId) (r : Ref) : Prop :=
  (p.world.rooms.room r).id = roomId ∧ (p.rooms.proc r).gotRoom = some r

/-- What the call has looked up before it waits for mediasoup. -/
structure MediaProcess.Found (p : MediaProcess Ref) (c : MediaCall Ref) : Prop where
  heldFor : ∀ r peerId direction t, c.heldFor = some (r, peerId, direction, t) →
    p.world.rooms.Assigned r peerId direction t
  heldBy : ∀ r peerId object t, c.heldBy = some (r, peerId, object, t) →
    p.world.rooms.HeldBy r peerId object t
  asked : ∀ roomId peerId producerId r object t,
    c = .consume roomId peerId producerId (.transportConsume r object t) → p.Has roomId r

/-- Where the transports of the producers and of the consumers are. -/
structure Streams (p : MediaProcess Ref) : Prop extends MediaRegistry p where
  found : ∀ i, p.Found (p.proc i)
  sends : ∀ r peerId k t, p.world.rooms.HasProducer r peerId k t →
    p.world.rooms.Assigned r peerId .send t
  leads : ∀ k consumer, p.world.consumer k = some consumer → ∃ roomId peerId r q object,
    p.proc k = .consume roomId peerId consumer.producerId (.returned k) ∧ p.Has roomId r ∧
      p.world.Leads r q peerId object k consumer

theorem Media.Leads.sustained {m m' : Media Ref} {r object k : Ref} {q peerId : PeerId}
    {consumer consumer' : Consumer Ref} (h : m.Leads r q peerId object k consumer)
    (hs : m.rooms.Sustains m'.rooms) (hlisted : k ∈ m'.consumers object)
    (hunpaused : consumer'.unpaused = consumer.unpaused) :
    m'.Leads r q peerId object k consumer' := by
  simp only [Consumer.unpaused, Consumer.mk.injEq] at hunpaused
  obtain ⟨hid, hsender, hreceiver, -⟩ := hunpaused
  refine ⟨?_, ?_, hlisted, ?_, ?_⟩
  · rw [hreceiver]
    exact hs.assigned h.transport
  · rw [hreceiver]
    exact hs.heldBy h.transport h.held
  · rw [hsender]
    exact hs.assigned h.producerTransport
  · rw [hsender, hid]
    exact hs.hasProducer h.producerTransport h.producer

theorem Step.id_room {i r : Ref} {ok : Bool} {s s' : State Ref} {c c' : Call Ref}
    (h : Step i s ok c s' c') (hr : r ≠ i) : (s'.room r).id = (s.room r).id := by
  cases h with
  | «local» _ _ hframe => exact hframe.id r
  | created => simp [State.addRoom, State.settleCreation, hr]
  | closeSuspended => exact (Frame.setRecording s _ false).id r
  | _ => rfl

theorem MediaProcess.Has.step {p : MediaProcess Ref} {i r : Ref} {ok : Bool} {m' : Media Ref}
    {c' : MediaCall Ref} {roomId : RoomId} (h : p.Has roomId r)
    (hstep : (p.proc i).step i ok p.world = some (m', c')) :
    MediaProcess.Has (p.set i m' c') roomId r := by
  obtain ⟨hid, hgot⟩ := h
  have hkept (hne : r ≠ i) (hid' : (m'.rooms.room r).id = (p.world.rooms.room r).id) :
      MediaProcess.Has (p.set i m' c') roomId r := by
    refine ⟨hid'.trans hid, ?_⟩
    rw [MediaProcess.rooms_set, Pool.set_proc, if_neg hne]
    exact hgot
  have hs := MediaCall.step_cases hstep
  have hsame : (p.rooms.proc i) = (p.proc i).roomCall := rfl
  generalize hc : p.proc i = c at hs hsame
  have hapart (hroom : c.roomCall = .removePeer "" "" true) : r ≠ i := by
    rintro rfl
    rw [hsame, hroom] at hgot
    cases hgot
  cases hs with
  | rooms hcall =>
      refine hkept ?_ ((Call.step_cases hcall).id_room ?_) <;>
      · rintro rfl
        rw [hsame] at hgot
        cases (Call.gotRoom_step hcall).symm.trans hgot
  | quiet hroom => exact hkept (hapart hroom) rfl
  | produced | paused => exact hkept (hapart rfl) (State.frame_updatePeer.id r)
  | connecting | connected | producing | consuming | consumed | resuming | resumed =>
      exact hkept (hapart rfl) rfl

namespace MediaProcess.Found

variable {p : MediaProcess Ref} {c : MediaCall Ref}

omit [DecidableEq Ref] in
theorem of_none (hnone : c.heldFor = none) : p.Found c := by
  refine ⟨fun r peerId direction t h => ?_, fun r peerId object t h => ?_,
    fun roomId peerId producerId r object t h => ?_⟩
  · cases hnone.symm.trans h
  · cases hnone.symm.trans (MediaCall.heldFor_of_heldBy h)
  · subst h
    cases hnone

theorem sustained (h : p.Found c) {p' : MediaProcess Ref}
    (hhas : ∀ roomId r, p.Has roomId r → p'.Has roomId r)
    (hs : p.world.rooms.Sustains p'.world.rooms) : p'.Found c where
  heldFor r peerId direction t hc := hs.assigned (h.heldFor r peerId direction t hc)
  heldBy r peerId object t hc :=
    hs.heldBy (h.heldFor r peerId .recv t (MediaCall.heldFor_of_heldBy hc))
      (h.heldBy r peerId object t hc)
  asked roomId peerId producerId r object t hc :=
    hhas roomId r (h.asked roomId peerId producerId r object t hc)

end MediaProcess.Found

namespace Streams

variable {p : MediaProcess Ref} {i : Ref} {m' : Media Ref} {c' : MediaCall Ref}

theorem sustained (h : Streams p) (hregistry : MediaRegistry (p.set i m' c'))
    (hhas : ∀ roomId r, p.Has roomId r → MediaProcess.Has (p.set i m' c') roomId r)
    (hreturned : ∀ roomId peerId producerId,
      p.proc i ≠ .consume roomId peerId producerId (.returned i))
    (hs : p.world.rooms.Sustains m'.rooms) (hsame : p.world.Repauses m')
    (hproduced : ∀ r peerId k t, m'.rooms.HasProducer r peerId k t →
      p.world.rooms.HasProducer r peerId k t ∨ p.world.rooms.Assigned r peerId .send t)
    (hfound : p.Found c') :
    Streams (p.set i m' c') where
  toMediaRegistry := hregistry
  found j := by
    rw [Pool.set_proc]
    split
    · exact hfound.sustained hhas hs
    · exact (h.found j).sustained hhas hs
  sends r peerId k t hproducer :=
    hs.assigned ((hproduced r peerId k t hproducer).elim (h.sends r peerId k t) id)
  leads k consumer' hconsumer' := by
    obtain ⟨consumer, hconsumer, hunpaused⟩ := hsame.consumer k consumer' hconsumer'
    obtain ⟨roomId, peerId, r, q, object, hproc, hroom, hleads⟩ := h.leads k consumer hconsumer
    refine ⟨roomId, peerId, r, q, object, ?_, hhas roomId r hroom,
      hleads.sustained hs (hsame.consumers ▸ hleads.listed) hunpaused⟩
    have hne : k ≠ i := by
      rintro rfl
      exact hreturned roomId peerId consumer.producerId hproc
    simp only [Consumer.unpaused, Consumer.mk.injEq] at hunpaused
    rw [Pool.set_proc, if_neg hne, hproc, hunpaused.1]

/-- A step after which the rooms and the consumers are as before. -/
theorem quiet (h : Streams p) (hregistry : MediaRegistry (p.set i m' c'))
    (hhas : ∀ roomId r, p.Has roomId r → MediaProcess.Has (p.set i m' c') roomId r)
    (hreturned : ∀ roomId peerId producerId,
      p.proc i ≠ .consume roomId peerId producerId (.returned i))
    (hrooms : m'.rooms = p.world.rooms) (hsame : p.world.Repauses m')
    (hfound : p.Found c') :
    Streams (p.set i m' c') := by
  refine h.sustained hregistry hhas hreturned ?_ hsame (fun r peerId k t hproducer => .inl ?_)
    hfound
  · rw [hrooms]
    exact .refl _
  · rwa [hrooms] at hproducer

theorem consumed (h : Streams p) {roomId : RoomId} {peerId : PeerId} {producerId r object t : Ref}
    {producer : Producer Ref}
    (hregistry : MediaRegistry (p.set i (p.world.addConsumer i object
      { producerId := producerId, producerTransport := producer.transport,
        transport := t, paused := true, producerPaused := producer.paused })
      (.consume roomId peerId producerId (.returned i))))
    (hhas : ∀ roomId' v, p.Has roomId' v → MediaProcess.Has (p.set i (p.world.addConsumer i object
      { producerId := producerId, producerTransport := producer.transport,
        transport := t, paused := true, producerPaused := producer.paused })
      (.consume roomId peerId producerId (.returned i))) roomId' v)
    (hc : p.proc i = .consume roomId peerId producerId (.transportConsume r object t))
    (hproducer : p.world.rooms.routerProducer r producerId = some producer) :
    Streams (p.set i (p.world.addConsumer i object
      { producerId := producerId, producerTransport := producer.transport,
        transport := t, paused := true, producerPaused := producer.paused })
      (.consume roomId peerId producerId (.returned i))) where
  toMediaRegistry := hregistry
  found j := by
    rw [Pool.set_proc]
    split
    · exact .of_none rfl
    · exact (h.found j).sustained hhas (.refl _)
  sends := h.sends
  leads k consumer hconsumer := by
    by_cases hk : k = i
    · subst hk
      simp only [Pool.set_world, Media.addConsumer, Function.update_self, Option.some.injEq]
        at hconsumer
      subst hconsumer
      obtain ⟨-, q, hproduced⟩ := State.routerProducer_cases hproducer
      refine ⟨roomId, peerId, r, q, object, by rw [Pool.set_proc_self],
        hhas roomId r ((h.found k).asked roomId peerId producerId r object t hc), ?_⟩
      exact ⟨(h.found k).heldFor r peerId .recv t (by rw [hc]; rfl),
        (h.found k).heldBy r peerId object t (by rw [hc]; rfl),
        by simp [Media.addConsumer], h.sends r q _ _ hproduced, fun _ => hproduced⟩
    · simp only [Pool.set_world, Media.addConsumer, Function.update_of_ne hk] at hconsumer
      obtain ⟨roomId', peerId', v, q, object', hproc, hroom, hleads⟩ :=
        h.leads k consumer hconsumer
      refine ⟨roomId', peerId', v, q, object', ?_, hhas roomId' v hroom,
        hleads.sustained (.refl _) ?_ rfl⟩
      · rw [Pool.set_proc, if_neg hk, hproc]
      · by_cases ho : object' = object
        · subst ho
          simp [Media.addConsumer, hleads.listed]
        · simpa [Media.addConsumer, ho] using hleads.listed

theorem step {ok : Bool} (h : Streams p)
    (hstep : (p.proc i).step i ok p.world = some (m', c')) : Streams (p.set i m' c') := by
  have hregistry := h.toMediaRegistry.step hstep
  have hhas roomId r (hhas : p.Has roomId r) : MediaProcess.Has (p.set i m' c') roomId r :=
    hhas.step hstep
  have hwired := h.arranged.wired
  have hreturned roomId peerId producerId :
      p.proc i ≠ .consume roomId peerId producerId (.returned i) := by
    intro heq
    rw [heq] at hstep
    cases hstep
  have hs := MediaCall.step_cases hstep
  generalize hc : p.proc i = c at hs
  cases hs with
  | @rooms ok call call' s' hcall =>
      have hproc : p.rooms.proc i = call := by simp [MediaProcess.rooms, hc, MediaCall.roomCall]
      have hunmade : call.creatingTransport = true → p.world.rooms.transport i = none :=
        fun hcreating => h.rooms.unmade i (by rwa [hproc])
      have hnew := h.rooms.router_ne (i := i) (by rwa [hproc])
      have he := Call.evolves hwired hunmade hnew hcall
      refine h.sustained hregistry hhas hreturned (Call.sustains hwired hunmade hnew hcall)
        (.of_eq rfl rfl) (fun r peerId k t hproducer => .inl ?_) (.of_none rfl)
      obtain ⟨producer, hlookup, ht⟩ := hproducer
      rcases Call.producers_of_step hwired.keyed hcall r peerId with hsame | hempty
      · exact ⟨producer, hsame ▸ hlookup, ht⟩
      · rw [hempty] at hlookup
        cases hlookup
  | quiet hroom hsettled =>
      exact h.quiet hregistry hhas hreturned rfl (.of_eq rfl rfl)
        (.of_none (MediaCall.heldFor_of_transport hsettled.transport))
  | connecting hr hpeer hown =>
      exact h.quiet hregistry hhas hreturned rfl (.of_eq rfl rfl) (.of_none rfl)
  | connected hopen =>
      exact h.quiet hregistry hhas hreturned rfl (.of_eq rfl rfl) (.of_none rfl)
  | producing hr hpeer hown =>
      refine h.quiet hregistry hhas hreturned rfl (.of_eq rfl rfl)
        ⟨fun _ _ _ _ heq => ?_, fun _ _ _ _ heq => ?_, fun _ _ _ _ _ _ heq => ?_⟩
      · cases heq
        exact hwired.assigned hpeer hown
      · cases heq
      · cases heq
  | @produced roomId peerId transportId r object t kind point' hopen hsettled =>
      have hfresh := h.unmade i (by rw [hc]; rfl)
      have hassigned := (h.found i).heldFor r peerId .send t (by rw [hc]; rfl)
      have hbelongs := h.transport i r peerId t (by rw [hc]; rfl)
      refine h.sustained hregistry hhas hreturned
        (.updatePeer (.addProducer hwired (hfresh.producer r peerId) hbelongs kind)
          hwired.keyed (fun _ => rfl) fun _ => rfl)
        (.of_eq rfl rfl) (fun v q k t' hproducer => ?_)
        (.of_none (MediaCall.heldFor_of_transport hsettled.transport))
      rcases State.hasProducer_addProducer hwired.keyed hproducer with hold | ⟨rfl, rfl, rfl⟩
      · exact .inl hold
      · exact .inr hassigned
  | consuming hr hpeer hown =>
      refine h.quiet hregistry hhas hreturned rfl (.of_eq rfl rfl)
        ⟨fun _ _ _ _ heq => ?_, fun _ _ _ _ heq => ?_, fun _ _ _ _ _ _ heq => ?_⟩
      · cases heq
        exact hwired.assigned hpeer hown
      · cases heq
        intro _
        rw [hpeer]
        rfl
      · cases heq
        exact h.rooms.stored _ _ hr
  | consumed hproducer hopen => exact h.consumed hregistry hhas hc hproducer
  | resuming hr hpeer hk =>
      exact h.quiet hregistry hhas hreturned rfl (.of_eq rfl rfl) (.of_none rfl)
  | resumed hopen =>
      exact h.quiet hregistry hhas hreturned rfl (p.world.repauses_setConsumerPaused _ false)
        (.of_none rfl)
  | @paused roomId peerId producerId r object paused hholds =>
      have he := State.Evolves.setPaused (i := i) hwired r object peerId producerId paused
      refine h.sustained hregistry hhas hreturned (.updatePeer he hwired.keyed
        (fun peer => (peer.setPaused_fields producerId paused).1)
        fun peer => (peer.setPaused_fields producerId paused).2.1)
        (p.world.repauses_mirrorPaused _ producerId paused)
        (fun _ _ _ _ hproducer => .inl (State.hasProducer_setPaused hwired.keyed hproducer))
        (.of_none rfl)

theorem spawned (workers : List Worker) (requests : Ref → MediaRequest Ref) :
    Streams (MediaProcess.spawned workers requests) := by
  have hheld i : (requests i).call.heldFor = none := by cases requests i <;> rfl
  refine ⟨.spawned workers requests, fun i => .of_none (hheld i), fun r peerId k t h => ?_,
    fun k consumer h => ?_⟩
  · obtain ⟨peer, producer, hpeer, -⟩ := State.hasProducer_iff.1 h
    cases hpeer
  · cases h

theorem preserves :
    (mediaService : System (MediaProcess Ref) _).Preserves (fun _ _ => True) Streams := by
  rintro p ⟨i, ok⟩ p' h - hstep
  obtain ⟨m', c', hcall, rfl⟩ := Pool.step_eq_some.1 hstep
  exact h.step hcall

end Streams

/-- An open consumer was asked for by a peer of the room in which the call asked for it, and it
is on this peer's recv transport; its producer is an open one of a peer of the same room, on
this peer's send transport. -/
def MediaProcess.StaysInRoom (p : MediaProcess Ref) : Prop :=
  ∀ k, p.world.consumerOpen k = true → ∃ consumer r receiver sender producer,
    p.world.consumer k = some consumer ∧
      p.proc k = .consume (p.world.rooms.room r).id receiver.id consumer.producerId
        (.returned k) ∧
      receiver ∈ Dict.values (p.world.rooms.room r).peers ∧
      receiver.recvTransport = some consumer.transport ∧
      k ∈ p.world.consumers receiver.object ∧
      sender ∈ Dict.values (p.world.rooms.room r).peers ∧
      sender.sendTransport = some consumer.producerTransport ∧
      sender.producers.lookup consumer.producerId = some producer ∧
      p.world.rooms.producerOpen producer = true

theorem Streams.staysInRoom {p : MediaProcess Ref} (h : Streams p) : p.StaysInRoom := by
  intro k hopen
  unfold Media.consumerOpen at hopen
  cases hconsumer : p.world.consumer k with
  | none => simp [hconsumer] at hopen
  | some consumer =>
      rw [hconsumer] at hopen
      obtain ⟨hreceives, hsends⟩ := Bool.and_eq_true_iff.1 hopen
      obtain ⟨roomId, peerId, r, q, object, hproc, ⟨rfl, -⟩, hleads⟩ :=
        h.leads k consumer hconsumer
      have hlive := State.live_of_transportOpen hreceives
      have hlive' := State.live_of_transportOpen hsends
      obtain ⟨receiver, hreceiver, htransport⟩ :=
        Option.bind_eq_some_iff.1 (hleads.transport.2 hlive)
      obtain ⟨sender, hsender, hsending⟩ :=
        Option.bind_eq_some_iff.1 (hleads.producerTransport.2 hlive')
      obtain ⟨sender', producer, hsender', hlookup, hproducer⟩ :=
        State.hasProducer_iff.1 (hleads.producer hlive')
      obtain rfl := Option.some.inj (hsender.symm.trans hsender')
      have hobject : receiver.object = object := by
        simpa [hreceiver] using hleads.held hlive
      refine ⟨consumer, r, receiver, sender, producer, rfl, ?_,
        Dict.mem_values_iff.2 ⟨peerId, hreceiver⟩, htransport, ?_,
        Dict.mem_values_iff.2 ⟨q, hsender⟩, hsending, hlookup, ?_⟩
      · rw [h.arranged.wired.keyed r peerId receiver hreceiver]
        exact hproc
      · rw [hobject]
        exact hleads.listed
      · rw [State.producerOpen, hproducer]
        exact hsends

/-- In every run, whatever ids the calls are given, no object leads from one room into
another, and media goes from peer to peer within one room and only to whom has asked for it. -/
theorem holds_staysInRoom (workers : List Worker) (requests : Ref → MediaRequest Ref)
    (schedule : List (Ref × Bool)) :
    mediaService.Holds
      (fun p => p.Separated (fun i => (requests i).roomId) ∧ p.StaysInRoom)
      (MediaProcess.spawned workers requests) schedule := by
  have hpreserves : (mediaService : System (MediaProcess Ref) _).Preserves
      (fun _ _ => True)
      (fun p => p.Separated (fun i => (requests i).roomId) ∧ Streams p) :=
    fun _ _ _ h _ hstep => ⟨MediaProcess.Separated.preserves h.1 trivial hstep,
      Streams.preserves h.2 trivial hstep⟩
  exact System.Meets.holds hpreserves (fun _ h => ⟨h.1, h.2.staysInRoom⟩)
    ⟨.spawned workers requests, .spawned workers requests⟩
    (System.meets_of_forall fun _ _ _ => trivial)

end MeetServer.Sfu
