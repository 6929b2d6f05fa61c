import MeetServer.Sfu.Producers
import MeetServer.Sfu.Transports

/-!
# What a step keeps of peers, transports and producers

`Evolves` says what any step does to the places where transports and producers
are held: nothing moves from one peer to another.  `Confined` says that a step
works on the fields and the transports of one peer only.
-/

namespace MeetServer.Sfu

open MeetServer.Foundation

variable {Ref : Type}

namespace State

/-- Neither the peer nor the room has closed it; its router may be closed. -/
def Live (s : State Ref) (t : Ref) : Prop :=
  ∃ transport, s.transport t = some transport ∧ transport.closed = false

/-- The transport was created, and unless it is closed it is one of the peer's. -/
def Belongs (s : State Ref) (r : Ref) (peerId : PeerId) (t : Ref) : Prop :=
  s.transport t ≠ none ∧ (s.Live t → ∃ direction, s.registered r peerId direction = some t)

variable [DecidableEq Ref]

/-- A producer of the peer, up to its pause. -/
def HasProducer (s : State Ref) (r : Ref) (peerId : PeerId) (k t : Ref) : Prop :=
  ∃ producer, (s.producers r peerId).lookup k = some producer ∧ producer.transport = t

/-- What every step of a call `i` does to transports, peers and producers; `entry` is
the place of a peer that it may create. -/
structure Evolves (i : Ref) (entry : Option (Ref × PeerId)) (s s' : State Ref) : Prop where
  created : ∀ t, s.transport t ≠ none → s'.transport t ≠ none
  live : ∀ t, s.transport t ≠ none → s'.Live t → s.Live t
  registered : ∀ r peerId direction t, s.registered r peerId direction = some t → s'.Live t →
    s'.registered r peerId direction = some t
  object : ∀ r peerId peer', (s'.room r).getPeer peerId = some peer' →
    (∃ peer, (s.room r).getPeer peerId = some peer ∧ peer'.object = peer.object) ∨
      entry = some (r, peerId) ∧ peer'.object = i
  produced : ∀ r peerId k t, s'.HasProducer r peerId k t →
    s.HasProducer r peerId k t ∨ k = i ∧ s.Belongs r peerId t
  producer : ∀ r peerId k t, s.HasProducer r peerId k t →
    (∃ direction t', s'.registered r peerId direction = some t') → s'.HasProducer r peerId k t

/-- The peer that is found under `peerId` has the object and the producers that it had, or is
a new one of the call `i`. -/
def Inherits (i : Ref) (entry : Option (Ref × PeerId)) (s : State Ref) (r : Ref)
    (peerId : PeerId) (peer' : MediaPeer Ref) : Prop :=
  (∃ peer, (s.room r).getPeer peerId = some peer ∧ peer'.object = peer.object ∧
    peer'.producers = peer.producers) ∨
  entry = some (r, peerId) ∧ peer'.object = i ∧ peer'.producers = ∅ ∧
    ∀ direction, peer'.transportFor direction = none

theorem Evolves.refl (i : Ref) (s : State Ref) : Evolves i none s s where
  created _ h := h
  live _ _ h := h
  registered _ _ _ _ h _ := h
  object _ _ peer h := .inl ⟨peer, h, rfl⟩
  produced _ _ _ _ h := .inl h
  producer _ _ _ _ h _ := h

theorem Evolves.belongs {i : Ref} {entry : Option (Ref × PeerId)} {s s' : State Ref}
    (h : Evolves i entry s s') {r : Ref} {peerId : PeerId} {t : Ref}
    (hbelongs : s.Belongs r peerId t) : s'.Belongs r peerId t := by
  obtain ⟨hcreated, hlive⟩ := hbelongs
  refine ⟨h.created t hcreated, fun hlive' => ?_⟩
  obtain ⟨direction, hregistered⟩ := hlive (h.live t hcreated hlive')
  exact ⟨direction, h.registered r peerId direction t hregistered hlive'⟩

omit [DecidableEq Ref] in
theorem registered_of_makes {i : Ref} {s s' : State Ref} {c c' : Call Ref} (hwired : s.Wired)
    (hwired' : s'.Wired) (hmakes : Call.Makes i s s' c c')
    (hback : ∀ r peerId direction t, s'.registered r peerId direction = some t →
      s.registered r peerId direction = some t ∨ s.transport t = none)
    {r : Ref} {peerId : PeerId} {direction : TransportDirection} {t : Ref}
    (hregistered : s.registered r peerId direction = some t) (hlive : s'.Live t) :
    s'.registered r peerId direction = some t := by
  have hold := hwired.live r peerId direction t hregistered
  obtain ⟨transport', hkept, hrouter, -⟩ := hmakes.kept t _ hold
  obtain ⟨transport'', hlive, hclosed⟩ := hlive
  obtain rfl := Option.some.inj (hkept.symm.trans hlive)
  obtain ⟨peerId', direction', hheld⟩ := hwired'.held t transport' hkept hclosed
  rw [hrouter] at hheld
  rcases hback r peerId' direction' t hheld with hsame | hnone
  · obtain ⟨rfl, rfl⟩ := hwired.owner r peerId direction peerId' direction' t hregistered hsame
    exact hheld
  · rw [hold] at hnone
    cases hnone

theorem Evolves.of_makes {i : Ref} {entry : Option (Ref × PeerId)} {s s' : State Ref}
    {c c' : Call Ref} (hwired : s.Wired) (hwired' : s'.Wired) (hmakes : Call.Makes i s s' c c')
    (hback : ∀ r peerId direction t, s'.registered r peerId direction = some t →
      s.registered r peerId direction = some t ∨ s.transport t = none)
    (hpeers : ∀ r peerId peer', (s'.room r).getPeer peerId = some peer' →
      s.Inherits i entry r peerId peer') : Evolves i entry s s' where
  created t ht := by
    obtain ⟨transport, htransport⟩ := Option.ne_none_iff_exists'.1 ht
    obtain ⟨transport', hkept, -⟩ := hmakes.kept t transport htransport
    simp [hkept]
  live t ht hlive := by
    obtain ⟨transport, htransport⟩ := Option.ne_none_iff_exists'.1 ht
    obtain ⟨transport', hkept, -, hclosed⟩ := hmakes.kept t transport htransport
    obtain ⟨transport'', hlive, hopen⟩ := hlive
    obtain rfl := Option.some.inj (hkept.symm.trans hlive)
    exact ⟨transport, htransport, hclosed hopen⟩
  registered r peerId direction t hregistered hlive :=
    registered_of_makes hwired hwired' hmakes hback hregistered hlive
  object r peerId peer' hpeer' := by
    rcases hpeers r peerId peer' hpeer' with ⟨peer, hpeer, hobject, -⟩ | ⟨hentry, hobject, -⟩
    · exact .inl ⟨peer, hpeer, hobject⟩
    · exact .inr ⟨hentry, hobject⟩
  produced r peerId k t hproducer := by
    obtain ⟨producer, hlookup, ht⟩ := hproducer
    refine .inl ⟨producer, ?_, ht⟩
    unfold producers at hlookup ⊢
    cases hpeer' : (s'.room r).getPeer peerId with
    | none => simp [hpeer'] at hlookup
    | some peer' =>
        rw [hpeer'] at hlookup
        rcases hpeers r peerId peer' hpeer' with ⟨peer, hpeer, -, hsame⟩ | ⟨-, -, hempty, -⟩
        · rw [hpeer]
          simpa only [hsame] using hlookup
        · simp [hempty] at hlookup
  producer r peerId k t hproducer hregistered := by
    obtain ⟨producer, hlookup, ht⟩ := hproducer
    refine ⟨producer, ?_, ht⟩
    obtain ⟨direction, t', hregistered⟩ := hregistered
    obtain ⟨peer', hpeer', hfor⟩ := Option.bind_eq_some_iff.1 hregistered
    rcases hpeers r peerId peer' hpeer' with ⟨peer, hpeer, -, hsame⟩ | ⟨-, -, -, hnone⟩
    · simpa only [producers, hpeer, hpeer', hsame] using hlookup
    · rw [hnone direction] at hfor
      cases hfor

end State

/-! ## The calls for rooms -/

/-- The peer that a call is about to look up or to create. -/
def Call.beginning (s : State Ref) : Call Ref → Option (Ref × PeerId)
  | .createTransport roomId peerId _ .call =>
      (s.rooms.lookup roomId).map fun r => (r, peerId)
  | _ => none

section Rooms

variable [DecidableEq Ref] {i r : Ref} {s s' : State Ref} {peerId : PeerId}

theorem peers_removePeerOf {peer' : MediaPeer Ref} {v : Ref} {q : PeerId}
    (h : ((s.removePeerOf r peerId).room v).getPeer q = some peer') :
    (s.room v).getPeer q = some peer' := by
  rw [State.room_removePeerOf] at h
  by_cases hv : v = r
  · subst hv
    rw [Function.update_self, MediaRoom.getPeer_deletePeer] at h
    split at h
    · cases h
    · exact h
  · rwa [Function.update_of_ne hv] at h

theorem registered_removePeerOf_back {v : Ref} {q : PeerId} {direction : TransportDirection}
    {t : Ref} (h : (s.removePeerOf r peerId).registered v q direction = some t) :
    s.registered v q direction = some t := by
  rw [State.registered_removePeerOf] at h
  split at h
  · cases h
  · exact h

theorem CreateTransport.Step.inherits {roomId : RoomId} {direction : TransportDirection}
    {ok : Bool} {point point' : CreateTransport Ref} (hkeyed : s.Keyed)
    (h : CreateTransport.Step i roomId peerId direction s ok point s' point') {v : Ref}
    {q : PeerId} {peer' : MediaPeer Ref} (hpeer' : (s'.room v).getPeer q = some peer') :
    s.Inherits i ((Call.createTransport roomId peerId direction point).beginning s) v q peer' := by
  have hsame (hpeer' : (s.room v).getPeer q = some peer') : s.Inherits i
      ((Call.createTransport roomId peerId direction point).beginning s) v q peer' :=
    .inl ⟨peer', hpeer', rfl, rfl⟩
  cases h with
  | noRoom | failed | overtaken => exact hsame hpeer'
  | undone => exact hsame (peers_removePeerOf hpeer')
  | @entered ok r hr =>
      by_cases hv : v = r
      · subst hv
        rw [State.room_setRoom, MediaRoom.getPeer_getOrCreatePeer] at hpeer'
        split at hpeer'
        · next heq =>
          subst heq
          cases hpeer : (s.room v).getPeer q with
          | some peer =>
              simp only [MediaRoom.getOrCreatePeer, hpeer, Option.some.injEq] at hpeer'
              exact .inl ⟨peer, hpeer, by rw [← hpeer'], by rw [← hpeer']⟩
          | none =>
              simp only [MediaRoom.getOrCreatePeer, hpeer, Option.some.injEq] at hpeer'
              subst hpeer'
              refine .inr ⟨by simp [Call.beginning, hr], rfl, rfl, fun direction => ?_⟩
              cases direction <;> rfl
        · exact hsame hpeer'
      · exact hsame (by simpa [State.setRoom, hv] using hpeer')
  | @assigned r existed peer hopen hpeer =>
      by_cases hv : v = r
      · subst hv
        rw [State.room_setRoom, MediaRoom.getPeer_setPeer, MediaPeer.id_setTransport,
          hkeyed v peerId peer hpeer] at hpeer'
        split at hpeer'
        · next heq =>
          obtain rfl := Option.some.inj hpeer'
          subst heq
          exact .inl ⟨peer, hpeer, by cases direction <;> rfl,
            MediaPeer.producers_setTransport peer i direction⟩
        · exact hsame hpeer'
      · exact hsame (by simpa [State.setRoom, hv] using hpeer')

/-- What a call for rooms leaves of the objects and of the producers. -/
theorem Call.inherits {ok : Bool} {c c' : Call Ref} (hkeyed : s.Keyed)
    (h : c.step i ok s = some (s', c')) {v : Ref} {q : PeerId} {peer' : MediaPeer Ref}
    (hpeer' : (s'.room v).getPeer q = some peer') :
    s.Inherits i (c.beginning s) v q peer' := by
  by_cases hother : ∀ roomId peerId direction point,
      c ≠ .createTransport roomId peerId direction point
  · rcases c.step_apart hkeyed h hother with ⟨r, peerId, -, rfl⟩ | ⟨-, hpeers⟩
    · exact .inl ⟨peer', peers_removePeerOf hpeer', rfl, rfl⟩
    · rcases hpeers v q with hpeer | ⟨-, hnone⟩
      · rw [hpeer'] at hpeer
        obtain ⟨peer, hfound, hunnamed⟩ := Option.map_eq_some_iff.1 hpeer.symm
        simp only [MediaPeer.unnamed, MediaPeer.mk.injEq] at hunnamed
        exact .inl ⟨peer, hfound, hunnamed.2.1.symm, hunnamed.2.2.2.2.2.symm⟩
      · rw [hnone] at hpeer'
        cases hpeer'
  · simp only [not_forall, not_not] at hother
    obtain ⟨roomId, peerId, direction, point, rfl⟩ := hother
    obtain ⟨point', rfl, hstep⟩ := Call.createTransport_cases h
    exact hstep.inherits hkeyed hpeer'

theorem CreateTransport.Step.registered_back {roomId : RoomId} {direction : TransportDirection}
    {ok : Bool} {point point' : CreateTransport Ref} (hkeyed : s.Keyed)
    (hi : s.transport i = none)
    (h : CreateTransport.Step i roomId peerId direction s ok point s' point') {v : Ref}
    {q : PeerId} {direction' : TransportDirection} {t : Ref}
    (hback : s'.registered v q direction' = some t) :
    s.registered v q direction' = some t ∨ s.transport t = none := by
  cases h with
  | noRoom | failed | overtaken => exact .inl hback
  | undone => exact .inl (registered_removePeerOf_back hback)
  | entered =>
      rw [State.registered_getOrCreatePeer] at hback
      exact .inl hback
  | @assigned r existed peer hopen hpeer =>
      rw [s.registered_assigned r hpeer (hkeyed r peerId peer hpeer)] at hback
      split at hback
      · obtain rfl := Option.some.inj hback
        exact .inr hi
      · exact .inl hback

theorem Call.evolves {ok : Bool} {c c' : Call Ref} (hwired : s.Wired)
    (hunmade : c.creatingTransport = true → s.transport i = none)
    (hnew : ∀ t transport, s.transport t = some transport → transport.router ≠ i)
    (h : c.step i ok s = some (s', c')) : State.Evolves i (c.beginning s) s s' := by
  have hwired' := hwired.step hunmade hnew h
  have hmakes := Call.makes_step hwired.keyed hunmade h
  refine .of_makes hwired hwired' hmakes (fun v q direction t hback => ?_)
    fun v q peer' hpeer' => c.inherits hwired.keyed h hpeer'
  by_cases hother : ∀ roomId peerId direction point,
      c ≠ .createTransport roomId peerId direction point
  · refine .inl ?_
    rcases c.step_apart hwired.keyed h hother with ⟨r, peerId, -, rfl⟩ | ⟨hsame, hpeers⟩
    · exact registered_removePeerOf_back hback
    · rcases hpeers v q with hpeer | ⟨-, hnone⟩
      · rwa [State.registered_of_unnamed hpeer] at hback
      · simp [State.registered, hnone] at hback
  · simp only [not_forall, not_not] at hother
    obtain ⟨roomId, peerId, direction, point, rfl⟩ := hother
    obtain ⟨point', rfl, hstep⟩ := Call.createTransport_cases h
    exact hstep.registered_back hwired.keyed (hunmade hstep.creating) hback

theorem Call.startRecording_of_step {ok : Bool} {call : Call Ref} {roomId : RoomId}
    {peers : List (PeerId × String)} {point : Recording Ref}
    (h : call.step i ok s = some (s', .startRecording roomId peers point)) :
    point ≠ .call ∧ ∀ r, point = .files r → call = .startRecording roomId peers .call := by
  cases call with
  | startRecording roomId' peers' before =>
      obtain ⟨⟨s₁, after⟩, hstep, heq⟩ := Option.map_eq_some_iff.1 h
      cases heq
      cases before with
      | call =>
          refine ⟨?_, fun _ _ => rfl⟩
          simp only [startRecordingStep] at hstep
          split at hstep <;> cases hstep <;> simp
      | files r =>
          cases hstep
          cases ok <;> exact ⟨by simp, by simp⟩
      | returned | threw => cases hstep
  | removePeer roomId peerId done => cases done <;> cases h
  | getOrCreateRoom | createTransport | stopRecording | closeRoom =>
      obtain ⟨r, -, heq⟩ := Option.map_eq_some_iff.1 h
      cases heq

/-- A `produce` call comes to its transport in its first step; all that it does to the rooms
is to add its producer. -/
theorem Produce.step_cases {roomId : RoomId} {transportId : Ref} {kind : MediaKind} {ok : Bool}
    {point point' : Produce Ref}
    (h : point.step i roomId peerId transportId kind ok s = some (s', point')) :
    point' ≠ .call ∧ (∀ r object t, point' = .transportProduce r object t → point = .call) ∧
      (s' = s ∨ ∃ r object transport, s' = s.updatePeer r peerId object fun peer =>
        peer.addProducer i { kind := kind, transport := transport }) := by
  cases point with
  | call =>
      simp only [Produce.step] at h
      split at h
      · cases h
        exact ⟨by simp, by simp, .inl rfl⟩
      · split at h
        · cases h
          exact ⟨by simp, by simp, .inl rfl⟩
        · split at h <;> cases h
          · exact ⟨by simp, fun _ _ _ _ => rfl, .inl rfl⟩
          · exact ⟨by simp, by simp, .inl rfl⟩
  | transportProduce r object transport =>
      simp only [Produce.step] at h
      split at h
      · split at h <;> cases h
        refine ⟨?_, ?_, .inr ⟨r, object, transport, rfl⟩⟩
        all_goals
          unfold afterProduce
          split
          · simp
          · split <;> simp
      · cases h
        exact ⟨by simp, by simp, .inl rfl⟩
  | tapProducer producer =>
      cases h
      cases ok <;> exact ⟨by simp, by simp, .inl rfl⟩
  | returned | threw => cases h

end Rooms

/-! ## A change to one peer -/

namespace State

section UpdatePeer

variable [DecidableEq Ref] {s : State Ref} {i r object : Ref} {peerId : PeerId}
  {f : MediaPeer Ref → MediaPeer Ref}

theorem transport_updatePeer : (s.updatePeer r peerId object f).transport = s.transport := by
  unfold updatePeer
  split
  · rfl
  · split <;> rfl

theorem frame_updatePeer : Frame s (s.updatePeer r peerId object f) := by
  unfold updatePeer
  split
  · exact .refl s
  · split
    · exact .setRoom s r _ rfl rfl
    · exact .refl s

theorem getPeer_updatePeer (hkeyed : s.Keyed) (hid : ∀ peer, (f peer).id = peer.id) (v : Ref)
    (q : PeerId) : ((s.updatePeer r peerId object f).room v).getPeer q =
      ((s.room v).getPeer q).map fun peer =>
        if v = r ∧ q = peerId ∧ peer.object = object then f peer else peer := by
  have hother (h : ¬ (v = r ∧ q = peerId)) : ((s.room v).getPeer q).map (fun peer =>
      if v = r ∧ q = peerId ∧ peer.object = object then f peer else peer) =
        (s.room v).getPeer q := by
    have hnot (peer : MediaPeer Ref) : ¬ (v = r ∧ q = peerId ∧ peer.object = object) :=
      fun hall => h ⟨hall.1, hall.2.1⟩
    simp [hnot]
  unfold updatePeer
  cases hpeer : (s.room r).getPeer peerId with
  | none =>
      by_cases hv : v = r ∧ q = peerId
      · obtain ⟨rfl, rfl⟩ := hv
        simp [hpeer]
      · exact (hother hv).symm
  | some peer =>
      by_cases hobject : peer.object = object
      · simp only [hobject, if_true]
        by_cases hv : v = r
        · subst hv
          rw [room_setRoom, MediaRoom.getPeer_setPeer, hid, hkeyed v peerId peer hpeer]
          split
          · next heq =>
            subst heq
            simp [hpeer, hobject]
          · next hne => exact (hother fun hall => hne hall.2).symm
        · rw [hother fun hall => hv hall.1]
          simp [setRoom, hv]
      · simp only [hobject, if_false]
        by_cases hv : v = r ∧ q = peerId
        · obtain ⟨rfl, rfl⟩ := hv
          simp [hpeer, hobject]
        · exact (hother hv).symm

theorem registered_updatePeer (hkeyed : s.Keyed) (hid : ∀ peer, (f peer).id = peer.id)
    (hfor : ∀ peer direction, (f peer).transportFor direction = peer.transportFor direction)
    (v : Ref) (q : PeerId) (direction : TransportDirection) :
    (s.updatePeer r peerId object f).registered v q direction = s.registered v q direction := by
  rw [registered, registered, getPeer_updatePeer hkeyed hid]
  cases (s.room v).getPeer q with
  | none => rfl
  | some peer =>
      simp only [Option.map_some, Option.bind_some]
      split
      · exact hfor peer direction
      · rfl

theorem Wired.updatePeer (hwired : s.Wired) (hid : ∀ peer, (f peer).id = peer.id)
    (hfor : ∀ peer direction, (f peer).transportFor direction = peer.transportFor direction) :
    (s.updatePeer r peerId object f).Wired := by
  refine hwired.congr (fun v q peer hpeer => ?_) (registered_updatePeer hwired.keyed hid hfor)
    transport_updatePeer
  rw [getPeer_updatePeer hwired.keyed hid] at hpeer
  obtain ⟨peer', hfound, rfl⟩ := Option.map_eq_some_iff.1 hpeer
  split
  · rw [hid, hwired.keyed v q peer' hfound]
  · exact hwired.keyed v q peer' hfound

theorem hasProducer_iff {k t : Ref} : s.HasProducer r peerId k t ↔
    ∃ peer producer, (s.room r).getPeer peerId = some peer ∧
      peer.producers.lookup k = some producer ∧ producer.transport = t := by
  unfold HasProducer producers
  cases (s.room r).getPeer peerId with
  | none => simp
  | some peer => simp

/-- The peer keeps its producers, up to their pause, and new ones are on its transports. -/
theorem Evolves.updatePeer {entry : Option (Ref × PeerId)} (hwired : s.Wired)
    (hid : ∀ peer, (f peer).id = peer.id) (hobject : ∀ peer, (f peer).object = peer.object)
    (hfor : ∀ peer direction, (f peer).transportFor direction = peer.transportFor direction)
    (hproduced : ∀ peer k producer, (f peer).producers.lookup k = some producer →
      (∃ producer', peer.producers.lookup k = some producer' ∧
        producer'.transport = producer.transport) ∨
      k = i ∧ s.Belongs r peerId producer.transport)
    (hkept : ∀ peer k producer, (s.room r).getPeer peerId = some peer →
      peer.producers.lookup k = some producer → ∃ producer',
        (f peer).producers.lookup k = some producer' ∧
        producer'.transport = producer.transport) :
    Evolves i entry s (s.updatePeer r peerId object f) where
  created t ht := by rwa [transport_updatePeer]
  live t _ hlive := by rwa [Live, transport_updatePeer] at hlive
  registered v q direction t hregistered _ := by
    rwa [registered_updatePeer hwired.keyed hid hfor]
  object v q peer' hpeer' := by
    rw [getPeer_updatePeer hwired.keyed hid] at hpeer'
    obtain ⟨peer, hpeer, rfl⟩ := Option.map_eq_some_iff.1 hpeer'
    refine .inl ⟨peer, hpeer, ?_⟩
    split
    · exact hobject peer
    · rfl
  produced v q k t hproducer := by
    obtain ⟨peer', producer, hpeer', hlookup, rfl⟩ := hasProducer_iff.1 hproducer
    rw [getPeer_updatePeer hwired.keyed hid] at hpeer'
    obtain ⟨peer, hpeer, rfl⟩ := Option.map_eq_some_iff.1 hpeer'
    split at hlookup
    · next hplace =>
      obtain ⟨rfl, rfl, -⟩ := hplace
      rcases hproduced peer k producer hlookup with ⟨producer', hold, htransport⟩ | hbelongs
      · exact .inl (hasProducer_iff.2 ⟨peer, producer', hpeer, hold, htransport⟩)
      · exact .inr hbelongs
    · exact .inl (hasProducer_iff.2 ⟨peer, producer, hpeer, hlookup, rfl⟩)
  producer v q k t hproducer _ := by
    obtain ⟨peer, producer, hpeer, hlookup, rfl⟩ := hasProducer_iff.1 hproducer
    rw [hasProducer_iff, getPeer_updatePeer hwired.keyed hid, hpeer, Option.map_some]
    by_cases hplace : v = r ∧ q = peerId ∧ peer.object = object
    · rw [if_pos hplace]
      obtain ⟨rfl, rfl, -⟩ := hplace
      obtain ⟨producer', hnew, htransport⟩ := hkept peer k producer hpeer hlookup
      exact ⟨f peer, producer', rfl, hnew, htransport⟩
    · rw [if_neg hplace]
      exact ⟨peer, producer, rfl, hlookup, rfl⟩

end UpdatePeer

end State

/-! ## Steps that work on one peer -/

/-- The peer on which the next step of a call works. -/
def Call.target (s : State Ref) : Call Ref → Option (Ref × PeerId)
  | .createTransport roomId peerId _ .call | .removePeer roomId peerId false =>
      (s.rooms.lookup roomId).map fun r => (r, peerId)
  | .createTransport _ peerId _ (.createWebRtcTransport r _ _) => some (r, peerId)
  | _ => none

def Call.forPeer : Call Ref → Bool
  | .createTransport .. | .removePeer .. => true
  | _ => false

namespace State

/-- Outside the peer `target` no field of a peer and no transport changes. -/
structure Confined (target : Option (Ref × PeerId)) (s s' : State Ref) : Prop where
  routerOpen : s'.routerOpen = s.routerOpen
  peer : ∀ r peerId, target ≠ some (r, peerId) →
    (s'.room r).getPeer peerId = (s.room r).getPeer peerId
  transport : ∀ r peerId direction t, target ≠ some (r, peerId) →
    s.registered r peerId direction = some t → s'.transport t = s.transport t

theorem Confined.refl (target : Option (Ref × PeerId)) (s : State Ref) : Confined target s s :=
  ⟨rfl, fun _ _ _ => rfl, fun _ _ _ _ _ _ => rfl⟩

theorem Wired.place {s : State Ref} (h : s.Wired) {r v : Ref} {peerId q : PeerId}
    {direction direction' : TransportDirection} {t : Ref}
    (ht : s.registered r peerId direction = some t)
    (ht' : s.registered v q direction' = some t) : r = v ∧ peerId = q := by
  have hlive := (h.live r peerId direction t ht).symm.trans (h.live v q direction' t ht')
  simp only [Option.some.injEq, Transport.mk.injEq, and_true] at hlive
  subst hlive
  exact ⟨rfl, (h.owner r peerId direction q direction' t ht ht').1⟩

variable [DecidableEq Ref] {s : State Ref} {r : Ref} {peerId : PeerId}

theorem Confined.setRoom (s : State Ref) {room : MediaRoom Ref}
    (hother : ∀ q, q ≠ peerId → room.getPeer q = (s.room r).getPeer q) :
    Confined (some (r, peerId)) s (s.setRoom r room) := by
  refine ⟨rfl, fun v q hne => ?_, fun _ _ _ _ _ _ => rfl⟩
  by_cases hv : v = r
  · subst hv
    rw [room_setRoom]
    exact hother q fun heq => hne (by rw [heq])
  · simp [State.setRoom, hv]

theorem Confined.updatePeer {object : Ref} {f : MediaPeer Ref → MediaPeer Ref}
    (hkeyed : s.Keyed) (hid : ∀ peer, (f peer).id = peer.id) :
    Confined (some (r, peerId)) s (s.updatePeer r peerId object f) := by
  refine ⟨frame_updatePeer.routerOpen, fun v q hne => ?_, fun _ _ _ _ _ _ => by
    rw [transport_updatePeer]⟩
  rw [getPeer_updatePeer hkeyed hid]
  have hnot (peer : MediaPeer Ref) : ¬ (v = r ∧ q = peerId ∧ peer.object = object) := by
    rintro ⟨rfl, rfl, -⟩
    exact hne rfl
  simp [hnot]

theorem Confined.removePeerOf (hwired : s.Wired) :
    Confined (some (r, peerId)) s (s.removePeerOf r peerId) := by
  refine ⟨s.routerOpen_removePeerOf r peerId, fun v q hne => ?_, fun v q direction t hne ht => ?_⟩
  · rw [room_removePeerOf]
    by_cases hv : v = r
    · subst hv
      rw [Function.update_self, MediaRoom.getPeer_deletePeer, if_neg]
      rintro rfl
      exact hne rfl
    · rw [Function.update_of_ne hv]
  · rw [transport_removePeerOf, if_neg]
    rintro (hown | hown) <;>
    · obtain ⟨rfl, rfl⟩ := hwired.place hown ht
      exact hne rfl

end State

theorem CreateTransport.Step.confined [DecidableEq Ref] {i : Ref} {roomId : RoomId}
    {peerId : PeerId} {direction : TransportDirection} {ok : Bool} {s s' : State Ref}
    {point point' : CreateTransport Ref} (hwired : s.Wired) (hi : s.transport i = none)
    (h : CreateTransport.Step i roomId peerId direction s ok point s' point') :
    State.Confined ((Call.createTransport roomId peerId direction point).target s) s s' := by
  cases h with
  | noRoom | failed => exact .refl _ s
  | @entered ok r hr =>
      simp only [Call.target, hr, Option.map_some]
      exact .setRoom s fun q hq => by rw [MediaRoom.getPeer_getOrCreatePeer, if_neg hq]
  | undone => exact .removePeerOf hwired
  | @overtaken r object peerExisted hopen hobject =>
      refine ⟨rfl, fun _ _ _ => rfl, fun v q direction' t hne ht => ?_⟩
      have hold := hwired.not_registered hi v q direction'
      have hti : t ≠ i := fun heq => hold (heq ▸ ht)
      rw [State.transport_closeTransport, State.transport_openTransport, if_neg hti, if_neg]
      simpa using hti.symm
  | @assigned r peerExisted peer hopen hpeer =>
      have hid : (peer.setTransport i direction).id = peerId := by
        rw [MediaPeer.id_setTransport, hwired.keyed r peerId peer hpeer]
      refine ⟨rfl, fun v q hne => ?_, fun v q direction' t hne ht => ?_⟩
      · refine (@State.Confined.setRoom _ _ r peerId _ _ fun q hq => ?_).peer v q hne
        rw [MediaRoom.getPeer_setPeer, hid, if_neg hq]
        rfl
      · have hti : t ≠ i := fun heq => hwired.not_registered hi v q direction' (heq ▸ ht)
        have hown : s.registered r peerId direction = peer.transportFor direction := by
          rw [State.registered, hpeer, Option.bind_some]
        change ((s.openTransport i r).closeTransport (peer.transportFor direction)).transport t = _
        rw [State.transport_closeTransport, State.transport_openTransport, if_neg hti, if_neg]
        intro hclosing
        obtain ⟨rfl, rfl⟩ := hwired.place (hown.trans hclosing) ht
        exact hne rfl

theorem Call.confined [DecidableEq Ref] {i : Ref} {ok : Bool} {s s' : State Ref}
    {c c' : Call Ref} (hwired : s.Wired)
    (hunmade : c.creatingTransport = true → s.transport i = none) (hfor : c.forPeer = true)
    (h : c.step i ok s = some (s', c')) : State.Confined (c.target s) s s' := by
  cases c with
  | createTransport roomId peerId direction point =>
      obtain ⟨point', rfl, hstep⟩ := Call.createTransport_cases h
      exact hstep.confined hwired (hunmade hstep.creating)
  | removePeer roomId peerId done =>
      cases done <;> cases h
      unfold State.removePeer
      cases hr : s.rooms.lookup roomId with
      | none => exact .refl _ s
      | some r =>
          rw [Call.target, hr, Option.map_some]
          exact .removePeerOf hwired
  | getOrCreateRoom | startRecording | stopRecording | closeRoom => cases hfor

end MeetServer.Sfu
