import MeetServer.Recording.Peers
import MeetServer.Sfu.Registry

/-!
# Transports and their peers

A `WebRtcTransport` belongs to one peer of one room and to one direction from
the moment its creation resolves until it is closed.  `Wired` states this for
the room objects and the transports of a process.
-/

namespace MeetServer.Sfu

open MeetServer.Foundation

variable {Ref : Type}

/-- A peer without the name that a recording gives it. -/
def MediaPeer.unnamed (peer : MediaPeer Ref) : MediaPeer Ref := { peer with displayName := none }

theorem MediaRoom.getPeer_setDisplayNames {room : MediaRoom Ref} (hkeyed : room.Keyed)
    (peers : List (PeerId × String)) (peerId : PeerId) :
    ((room.setDisplayNames peers).getPeer peerId).map MediaPeer.unnamed =
      (room.getPeer peerId).map MediaPeer.unnamed := by
  unfold setDisplayNames
  induction peers generalizing room with
  | nil => rfl
  | cons named peers ih =>
      rw [List.foldl_cons]
      split
      · exact ih hkeyed
      · next peer hpeer =>
        have hid := hkeyed named.1 peer hpeer
        have hkeeps : room.Keeps (room.setPeer { peer with displayName := some named.2 }) :=
          .changePeer room hpeer rfl rfl
        rw [ih (hkeeps.keyed hkeyed), getPeer_setPeer]
        split
        · next heq =>
          obtain rfl : peerId = named.1 := heq.trans hid
          rw [hpeer]
          rfl
        · rfl

namespace State

/-- The transport in the field of a peer for the direction. -/
def registered (s : State Ref) (r : Ref) (peerId : PeerId)
    (direction : TransportDirection) : Option Ref :=
  ((s.room r).getPeer peerId).bind fun peer => peer.transportFor direction

/-- The registered transports are those that have not been closed, each in one
place and on the router of its room. -/
structure Wired (s : State Ref) : Prop where
  keyed : s.Keyed
  live : ∀ r peerId direction t, s.registered r peerId direction = some t →
    s.transport t = some { router := r }
  owner : ∀ r peerId direction peerId' direction' t,
    s.registered r peerId direction = some t →
    s.registered r peerId' direction' = some t → peerId = peerId' ∧ direction = direction'
  held : ∀ t transport, s.transport t = some transport → transport.closed = false →
    ∃ peerId direction, s.registered transport.router peerId direction = some t

theorem registered_of_unnamed {s s' : State Ref} {r : Ref} {peerId : PeerId}
    (h : ((s'.room r).getPeer peerId).map MediaPeer.unnamed =
      ((s.room r).getPeer peerId).map MediaPeer.unnamed) (direction : TransportDirection) :
    s'.registered r peerId direction = s.registered r peerId direction := by
  have hfield (peer : Option (MediaPeer Ref)) :
      (peer.bind fun peer => peer.transportFor direction) =
        (peer.map MediaPeer.unnamed).bind fun peer => peer.transportFor direction := by
    cases peer <;> cases direction <;> rfl
  rw [registered, registered, hfield, h, ← hfield]

theorem Wired.congr {s s' : State Ref} (h : s.Wired) (hkeyed : s'.Keyed)
    (hregistered : ∀ r peerId direction,
      s'.registered r peerId direction = s.registered r peerId direction)
    (htransport : s'.transport = s.transport) : s'.Wired := by
  refine ⟨hkeyed, ?_, ?_, ?_⟩
  · simpa only [hregistered, htransport] using h.live
  · simpa only [hregistered] using h.owner
  · simpa only [hregistered, htransport] using h.held

variable [DecidableEq Ref]

/-! ## What the operations do to the fields and to the transports -/

section Operations

variable (s : State Ref) (r : Ref)

theorem transport_closeTransport (transport : Option Ref) (t : Ref) :
    (s.closeTransport transport).transport t =
      if transport = some t then
        (s.transport t).map fun transport => { transport with closed := true }
      else s.transport t := by
  cases transport with
  | none => rfl
  | some t' =>
      by_cases h : t = t'
      · simp [closeTransport, h]
      · simp [closeTransport, h, Ne.symm h]

theorem transport_openTransport (i t : Ref) :
    (s.openTransport i r).transport t =
      if t = i then some { router := r } else s.transport t := by
  simp only [openTransport, Function.update_apply]

theorem registered_setRoom (room : MediaRoom Ref) (v : Ref) (peerId : PeerId)
    (direction : TransportDirection) :
    (s.setRoom r room).registered v peerId direction =
      if v = r then (room.getPeer peerId).bind fun peer => peer.transportFor direction
      else s.registered v peerId direction := by
  by_cases h : v = r <;> simp [registered, setRoom, h]

theorem registered_getOrCreatePeer (peerId : PeerId) (object v : Ref) (peerId' : PeerId)
    (direction : TransportDirection) :
    (s.setRoom r ((s.room r).getOrCreatePeer peerId object).1).registered v peerId'
        direction = s.registered v peerId' direction := by
  rw [registered_setRoom]
  split
  next h =>
    subst h
    rw [registered, MediaRoom.getPeer_getOrCreatePeer, MediaRoom.getOrCreatePeer]
    split
    next hpeer =>
      subst hpeer
      cases hfound : (s.room v).getPeer peerId' with
      | none => cases direction <;> rfl
      | some peer => rfl
    · rfl
  · rfl

theorem registered_setTransport {peerId : PeerId} {peer : MediaPeer Ref}
    (hpeer : (s.room r).getPeer peerId = some peer) (hid : peer.id = peerId) (i v : Ref)
    (direction : TransportDirection) (peerId' : PeerId) (direction' : TransportDirection) :
    (s.setRoom r ((s.room r).setPeer (peer.setTransport i direction))).registered v peerId'
        direction' =
      if v = r ∧ peerId' = peerId ∧ direction' = direction then some i
      else s.registered v peerId' direction' := by
  have hid' : (peer.setTransport i direction).id = peerId := by
    rw [MediaPeer.id_setTransport, hid]
  rw [registered_setRoom, MediaRoom.getPeer_setPeer, hid', registered]
  by_cases hv : v = r
  · by_cases hp : peerId' = peerId
    · subst hv hp
      simp [hpeer, MediaPeer.transportFor_setTransport]
    · simp [hv, hp]
  · simp [hv]

theorem registered_assigned {peerId : PeerId} {peer : MediaPeer Ref}
    (hpeer : (s.room r).getPeer peerId = some peer) (hid : peer.id = peerId) (i v : Ref)
    (direction : TransportDirection) (peerId' : PeerId) (direction' : TransportDirection) :
    (((s.openTransport i r).closeTransport (peer.transportFor direction)).setRoom r
        ((s.room r).setPeer (peer.setTransport i direction))).registered v peerId' direction' =
      if v = r ∧ peerId' = peerId ∧ direction' = direction then some i
      else s.registered v peerId' direction' :=
  registered_setTransport ((s.openTransport i r).closeTransport (peer.transportFor direction)) r
    hpeer hid i v direction peerId' direction'

theorem registered_removePeerOf (peerId : PeerId) (v : Ref) (peerId' : PeerId)
    (direction : TransportDirection) :
    (s.removePeerOf r peerId).registered v peerId' direction =
      if v = r ∧ peerId' = peerId then none else s.registered v peerId' direction := by
  rw [registered, registered, room_removePeerOf]
  by_cases hv : v = r
  · subst hv
    rw [Function.update_self, MediaRoom.getPeer_deletePeer]
    by_cases hp : peerId' = peerId <;> simp [hp]
  · simp [hv]

theorem transport_removePeerOf (peerId : PeerId) (t : Ref) :
    (s.removePeerOf r peerId).transport t =
      if s.registered r peerId .send = some t ∨ s.registered r peerId .recv = some t then
        (s.transport t).map fun transport => { transport with closed := true }
      else s.transport t := by
  unfold removePeerOf registered
  cases hpeer : (s.room r).getPeer peerId with
  | none => simp
  | some peer =>
      have hsend : peer.transportFor .send = peer.sendTransport := rfl
      have hrecv : peer.transportFor .recv = peer.recvTransport := rfl
      simp only [Option.bind_some, hsend, hrecv]
      change ((s.closeTransport peer.sendTransport).closeTransport
        peer.recvTransport).transport t = _
      rw [transport_closeTransport, transport_closeTransport]
      by_cases hs : peer.sendTransport = some t <;> by_cases hr : peer.recvTransport = some t <;>
        simp [hs, hr, Function.comp_def]

theorem unnamed_setDisplayNames (peers : List (PeerId × String)) (v : Ref)
    (peerId : PeerId) (hkeyed : (s.room r).Keyed) :
    (((s.setRoom r ((s.room r).setDisplayNames peers)).room v).getPeer peerId).map
        MediaPeer.unnamed = ((s.room v).getPeer peerId).map MediaPeer.unnamed := by
  by_cases h : v = r
  · subst h
    rw [room_setRoom]
    exact MediaRoom.getPeer_setDisplayNames hkeyed peers peerId
  · simp [setRoom, h]

end Operations

/-! ## Wiring under each operation -/

section Wiring

variable {s : State Ref} {r i : Ref} {peerId : PeerId}

theorem Wired.getOrCreatePeer (h : s.Wired) (r : Ref) (peerId : PeerId) (object : Ref)
    (hkeyed : (s.setRoom r ((s.room r).getOrCreatePeer peerId object).1).Keyed) :
    (s.setRoom r ((s.room r).getOrCreatePeer peerId object).1).Wired :=
  h.congr hkeyed (s.registered_getOrCreatePeer r peerId object) rfl

omit [DecidableEq Ref] in
theorem Wired.not_registered (h : s.Wired) (hi : s.transport i = none) (r : Ref)
    (peerId : PeerId) (direction : TransportDirection) :
    s.registered r peerId direction ≠ some i := by
  intro hregistered
  have hlive := h.live r peerId direction i hregistered
  rw [hi] at hlive
  cases hlive

/-- The new transport takes the place of the old one, which is closed. -/
theorem Wired.setTransport (h : s.Wired) {peer : MediaPeer Ref}
    (hpeer : (s.room r).getPeer peerId = some peer) (hi : s.transport i = none)
    {direction : TransportDirection}
    (hkeyed : (((s.openTransport i r).closeTransport (peer.transportFor direction)).setRoom r
      ((s.room r).setPeer (peer.setTransport i direction))).Keyed) :
    (((s.openTransport i r).closeTransport (peer.transportFor direction)).setRoom r
      ((s.room r).setPeer (peer.setTransport i direction))).Wired := by
  have hfresh := h.not_registered hi
  have hold : s.registered r peerId direction = peer.transportFor direction := by
    rw [registered, hpeer, Option.bind_some]
  have hregistered v peerId' direction' := s.registered_assigned r hpeer
    (h.keyed r peerId peer hpeer) i v direction peerId' direction'
  have htransport t : (((s.openTransport i r).closeTransport
      (peer.transportFor direction)).setRoom r ((s.room r).setPeer
        (peer.setTransport i direction))).transport t =
      if s.registered r peerId direction = some t then
        (if t = i then some { router := r } else s.transport t).map
          fun transport => { transport with closed := true }
      else if t = i then some { router := r } else s.transport t := by
    rw [hold, ← transport_openTransport, ← transport_closeTransport]
    rfl
  obtain ⟨-, hlive, howner, hheld⟩ := h
  refine ⟨hkeyed, ?_, ?_, ?_⟩ <;> simp only [hregistered, htransport]
  · grind
  · grind
  · grind

theorem Wired.removePeerOf (h : s.Wired) (r : Ref) (peerId : PeerId)
    (hkeyed : (s.removePeerOf r peerId).Keyed) : (s.removePeerOf r peerId).Wired := by
  obtain ⟨-, hlive, howner, hheld⟩ := h
  refine ⟨hkeyed, ?_, ?_, ?_⟩ <;>
    simp only [registered_removePeerOf, transport_removePeerOf]
  · grind
  · grind
  · intro t transport htransport hopen
    have hnot : ¬ (s.registered r peerId .send = some t ∨
        s.registered r peerId .recv = some t) := by
      intro hregistered
      rw [if_pos hregistered] at htransport
      grind
    rw [if_neg hnot] at htransport
    obtain ⟨peerId', direction, hregistered⟩ := hheld t transport htransport hopen
    refine ⟨peerId', direction, ?_⟩
    rw [if_neg, hregistered]
    rintro ⟨heq, rfl⟩
    rw [heq] at hregistered
    cases direction
    · exact hnot (.inl hregistered)
    · exact hnot (.inr hregistered)

/-- A creation that has been overtaken closes its own transport. -/
theorem Wired.closeOwn (h : s.Wired) (hi : s.transport i = none) (r : Ref) :
    ((s.openTransport i r).closeTransport (some i)).Wired := by
  have hfresh := h.not_registered hi
  have hsame v peerId direction : ((s.openTransport i r).closeTransport
      (some i)).registered v peerId direction = s.registered v peerId direction := rfl
  obtain ⟨hkeyed, hlive, howner, hheld⟩ := h
  refine ⟨hkeyed, ?_, ?_, ?_⟩ <;>
    simp only [hsame, transport_closeTransport, transport_openTransport]
  · grind
  · exact howner
  · grind

end Wiring

end State

/-! ## The steps of `createTransport` -/

variable [DecidableEq Ref]

inductive CreateTransport.Step (i : Ref) (roomId : RoomId) (peerId : PeerId)
    (direction : TransportDirection) (s : State Ref) :
    Bool → CreateTransport Ref → State Ref → CreateTransport Ref → Prop
  | noRoom {ok : Bool} : s.rooms.lookup roomId = none →
      Step i roomId peerId direction s ok .call s .threw
  | entered {ok : Bool} {r : Ref} : s.rooms.lookup roomId = some r →
      Step i roomId peerId direction s ok .call
        (s.setRoom r ((s.room r).getOrCreatePeer peerId i).1)
        (.createWebRtcTransport r ((s.room r).getOrCreatePeer peerId i).2.object
          ((s.room r).hasPeer peerId))
  | assigned {r : Ref} {peerExisted : Bool} {peer : MediaPeer Ref} :
      s.routerOpen r = true → (s.room r).getPeer peerId = some peer →
      Step i roomId peerId direction s true
        (.createWebRtcTransport r peer.object peerExisted)
        (((s.openTransport i r).closeTransport (peer.transportFor direction)).setRoom r
          ((s.room r).setPeer (peer.setTransport i direction)))
        (.returned i)
  | overtaken {r object : Ref} {peerExisted : Bool} :
      s.routerOpen r = true →
      (∀ peer, (s.room r).getPeer peerId = some peer → peer.object ≠ object) →
      Step i roomId peerId direction s true (.createWebRtcTransport r object peerExisted)
        ((s.openTransport i r).closeTransport (some i)) .threw
  | failed {r object : Ref} :
      Step i roomId peerId direction s false (.createWebRtcTransport r object true) s .threw
  | undone {r object : Ref} :
      Step i roomId peerId direction s false (.createWebRtcTransport r object false)
        (s.removePeerOf r peerId) .threw

theorem CreateTransport.step_cases {i : Ref} {roomId : RoomId} {peerId : PeerId}
    {direction : TransportDirection} {ok : Bool} {s s' : State Ref}
    {point point' : CreateTransport Ref}
    (h : point.step i roomId peerId direction ok s = some (s', point')) :
    Step i roomId peerId direction s ok point s' point' := by
  cases point with
  | call =>
      simp only [step] at h
      split at h
      · next hnone =>
        cases h
        exact .noRoom hnone
      · next r hr =>
        cases h
        exact .entered hr
  | createWebRtcTransport r object peerExisted =>
      cases ok with
      | false =>
          cases peerExisted <;> cases h
          · exact .undone
          · exact .failed
      | true =>
          simp only [step, if_true] at h
          split at h
          case isFalse => cases h
          next hopen =>
            simp only [assignTransport, Option.some.injEq] at h
            split at h
            · next hnone =>
              have hnone : (s.room r).getPeer peerId = none := hnone
              cases h
              exact .overtaken hopen fun peer hpeer => by simp [hnone] at hpeer
            · next peer hpeer =>
              have hpeer : (s.room r).getPeer peerId = some peer := hpeer
              split at h
              · next hobject =>
                subst hobject
                cases h
                exact .assigned hopen hpeer
              · next hobject =>
                cases h
                refine .overtaken hopen fun peer' hpeer' => ?_
                obtain rfl := Option.some.inj (hpeer.symm.trans hpeer')
                exact hobject
  | returned => cases h
  | threw => cases h

theorem Call.createTransport_cases {i : Ref} {ok : Bool} {s s' : State Ref} {c' : Call Ref}
    {roomId : RoomId} {peerId : PeerId} {direction : TransportDirection}
    {point : CreateTransport Ref}
    (h : (Call.createTransport roomId peerId direction point).step i ok s = some (s', c')) :
    ∃ point', c' = .createTransport roomId peerId direction point' ∧
      CreateTransport.Step i roomId peerId direction s ok point s' point' := by
  simp only [step, Option.map_eq_some_iff, Prod.mk.injEq] at h
  obtain ⟨⟨s', point'⟩, hstep, rfl, rfl⟩ := h
  exact ⟨point', rfl, CreateTransport.step_cases hstep⟩

/-! ## Wiring in every run -/

namespace Call

/-- The creation of a transport that the call is still going to await. -/
def creatingTransport : Call Ref → Bool
  | .createTransport _ _ _ .call | .createTransport _ _ _ (.createWebRtcTransport ..) => true
  | _ => false

/-- The room on whose router the creation is pending. -/
def askedRoom : Call Ref → Option Ref
  | .createTransport _ _ _ (.createWebRtcTransport r _ _) => some r
  | _ => none

end Call

/-- Transports are created for rooms that exist, and under new names. -/
structure TransportRegistry (p : Process Ref) : Prop extends Registry p where
  wired : p.world.Wired
  unmade : ∀ i, (p.proc i).creatingTransport = true → p.world.transport i = none
  router : ∀ t transport, p.world.transport t = some transport →
    (p.proc transport.router).gotRoom = some transport.router
  asked : ∀ i r, (p.proc i).askedRoom = some r → (p.proc r).gotRoom = some r

omit [DecidableEq Ref] in
theorem TransportRegistry.spawned (workers : List Worker) (requests : Ref → Request) :
    TransportRegistry (Process.spawned workers requests) where
  toRegistry := .spawned workers requests
  wired := by
    constructor <;> simp [Process.spawned, State.spawned, State.registered, MediaRoom.getPeer,
      State.Keyed, MediaRoom.Keyed]
  unmade i _ := rfl
  router t transport h := by cases h
  asked i r h := by
    cases hr : requests i <;> simp [Process.spawned, Request.call, hr, Call.askedRoom] at h

theorem Call.gotRoom_step {i : Ref} {ok : Bool} {s s' : State Ref} {c c' : Call Ref}
    (h : c.step i ok s = some (s', c')) : c.gotRoom = none := by
  cases c with
  | getOrCreateRoom roomId point =>
      cases point with
      | returned room => cases h
      | _ => rfl
  | _ => rfl

/-! ### Calls other than `createTransport` -/

omit [DecidableEq Ref] in
/-- The peer that a `removePeer` call is about to remove. -/
def Call.removing (s : State Ref) : Call Ref → Option (Ref × PeerId)
  | .removePeer roomId peerId false => (s.rooms.lookup roomId).map fun r => (r, peerId)
  | _ => none

omit [DecidableEq Ref] in
/-- The calls for recordings and `closeRoom`. -/
def Call.forRoom : Call Ref → Bool
  | .startRecording _ _ _ | .stopRecording _ _ | .closeRoom _ _ => true
  | _ => false

/-- They leave peers and transports alone, up to the names. -/
theorem Call.step_forRoom {i : Ref} {ok : Bool} {s s' : State Ref} {c c' : Call Ref}
    (hkeyed : s.Keyed) (h : c.step i ok s = some (s', c')) (hroom : c.forRoom) :
    s'.transport = s.transport ∧ ∀ v q, ((s'.room v).getPeer q).map MediaPeer.unnamed =
      ((s.room v).getPeer q).map MediaPeer.unnamed := by
  have hpeers {s s' : State Ref} (hsame : ∀ v, (s'.room v).peers = (s.room v).peers) (v : Ref)
      (q : PeerId) : ((s'.room v).getPeer q).map MediaPeer.unnamed =
        ((s.room v).getPeer q).map MediaPeer.unnamed := by
    rw [MediaRoom.getPeer, MediaRoom.getPeer, hsame]
  cases c with
  | createTransport | removePeer | getOrCreateRoom => cases hroom
  | startRecording roomId peers point =>
      obtain ⟨⟨s', point'⟩, hstep, hr⟩ := Option.map_eq_some_iff.1 h
      cases hr
      unfold startRecordingStep at hstep
      split at hstep
      · split at hstep <;> cases hstep
        · exact ⟨rfl, fun _ _ => rfl⟩
        · next r hr =>
          have hstarted := fun v => s.peers_setRecording r v true
          have hkeyed' : (s.setRecording r true).Keyed :=
            hkeyed.of_peers fun v => .inl (hstarted v)
          refine ⟨rfl, fun v q => ?_⟩
          rw [State.unnamed_setDisplayNames _ r peers v q (hkeyed' r)]
          exact hpeers hstarted v q
      · cases hstep
        exact ⟨rfl, fun _ _ => rfl⟩
      · cases hstep
      · cases hstep
  | stopRecording roomId point =>
      obtain ⟨⟨s', point'⟩, hstep, hr⟩ := Option.map_eq_some_iff.1 h
      cases hr
      unfold stopRecordingStep at hstep
      split at hstep
      · split at hstep <;> cases hstep
        · exact ⟨rfl, fun _ _ => rfl⟩
        · exact ⟨rfl, hpeers (s.peers_setRecording _ · false)⟩
      · cases hstep
        exact ⟨rfl, fun _ _ => rfl⟩
      · cases hstep
      · cases hstep
  | closeRoom roomId point =>
      cases Call.step_cases h with
      | «local» hlocal => exact hlocal.elim
      | closeSuspended => exact ⟨rfl, hpeers (s.peers_setRecording _ · false)⟩
      | _ => exact ⟨rfl, fun _ _ => rfl⟩

/-- The calls other than `createTransport` and `removePeer` leave peers and
transports alone, up to a new room without peers. -/
theorem Call.step_apart {i : Ref} {ok : Bool} {s s' : State Ref} {c c' : Call Ref}
    (hkeyed : s.Keyed) (h : c.step i ok s = some (s', c'))
    (hother : ∀ roomId peerId direction point, c ≠ .createTransport roomId peerId direction point) :
    (∃ r peerId, c.removing s = some (r, peerId) ∧ s' = s.removePeerOf r peerId) ∨
      s'.transport = s.transport ∧ ∀ v q,
        ((s'.room v).getPeer q).map MediaPeer.unnamed =
          ((s.room v).getPeer q).map MediaPeer.unnamed ∨
        v = i ∧ (s'.room v).getPeer q = none := by
  cases c with
  | createTransport roomId peerId direction point => exact (hother _ _ _ _ rfl).elim
  | removePeer roomId peerId done =>
      cases done <;> cases h
      unfold State.removePeer
      cases hr : s.rooms.lookup roomId with
      | none => exact .inr ⟨rfl, fun _ _ => .inl rfl⟩
      | some r => exact .inl ⟨r, peerId, by simp [removing, hr], rfl⟩
  | startRecording | stopRecording | closeRoom =>
      obtain ⟨htransport, hpeers⟩ := Call.step_forRoom hkeyed h rfl
      exact .inr ⟨htransport, fun v q => .inl (hpeers v q)⟩
  | getOrCreateRoom roomId point =>
      refine .inr ?_
      cases Call.step_cases h with
      | «local» hlocal => exact hlocal.elim
      | created =>
          refine ⟨rfl, fun v q => ?_⟩
          by_cases hv : v = i
          · subst hv
            exact .inr ⟨rfl, by simp [State.addRoom, State.settleCreation, MediaRoom.getPeer]⟩
          · exact .inl (by simp [State.addRoom, State.settleCreation, hv])
      | _ => exact ⟨rfl, fun _ _ => .inl rfl⟩

/-! ### What becomes of the transports -/

omit [DecidableEq Ref] in
/-- Transports stay on their router and closed, and a new one is the call's own. -/
structure Call.Makes (i : Ref) (s s' : State Ref) (c c' : Call Ref) : Prop where
  kept : ∀ t transport, s.transport t = some transport → ∃ transport',
    s'.transport t = some transport' ∧ transport'.router = transport.router ∧
      (transport'.closed = false → transport.closed = false)
  made : ∀ t transport', s'.transport t = some transport' → s.transport t ≠ none ∨
    t = i ∧ c.askedRoom = some transport'.router ∧ c'.creatingTransport = false

namespace Call.Makes

variable {i r : Ref} {s s' : State Ref} {c c' : Call Ref}

omit [DecidableEq Ref] in
theorem of_eq (h : s'.transport = s.transport) : Call.Makes i s s' c c' := by
  refine ⟨fun t transport htransport => ?_, fun t transport' htransport => .inl ?_⟩
  · rw [h]
    exact ⟨transport, htransport, rfl, fun hclosed => hclosed⟩
  · rw [h] at htransport
    simp [htransport]

omit [DecidableEq Ref] in
theorem congr {s'' : State Ref} (h : Call.Makes i s s' c c')
    (hsame : s''.transport = s'.transport) : Call.Makes i s s'' c c' :=
  ⟨hsame ▸ h.kept, hsame ▸ h.made⟩

theorem closeTransport (h : Call.Makes i s s' c c') (closing : Option Ref) :
    Call.Makes i s (s'.closeTransport closing) c c' := by
  refine ⟨fun t transport htransport => ?_, fun t transport' htransport => ?_⟩
  · obtain ⟨transport', hkept, hrouter, hclosed⟩ := h.kept t transport htransport
    rw [State.transport_closeTransport, hkept]
    split
    · exact ⟨_, rfl, hrouter, nofun⟩
    · exact ⟨transport', rfl, hrouter, hclosed⟩
  · rw [State.transport_closeTransport] at htransport
    split at htransport
    · obtain ⟨transport, hmade, rfl⟩ := Option.map_eq_some_iff.1 htransport
      exact h.made t transport hmade
    · exact h.made t transport' htransport

theorem removePeerOf (s : State Ref) (r : Ref) (peerId : PeerId) :
    Call.Makes i s (s.removePeerOf r peerId) c c' := by
  unfold State.removePeerOf
  split
  · exact .of_eq rfl
  · next peer hpeer =>
    have hsame : Call.Makes i s s c c' := .of_eq rfl
    exact ((hsame.closeTransport peer.sendTransport).closeTransport peer.recvTransport).congr rfl

theorem openTransport (hi : s.transport i = none) (hasked : c.askedRoom = some r)
    (hdone : c'.creatingTransport = false) : Call.Makes i s (s.openTransport i r) c c' := by
  refine ⟨fun t transport htransport => ?_, fun t transport' htransport => ?_⟩
  · rw [State.transport_openTransport, if_neg]
    · exact ⟨transport, htransport, rfl, fun hclosed => hclosed⟩
    · rintro rfl
      rw [hi] at htransport
      cases htransport
  · rw [State.transport_openTransport] at htransport
    split at htransport
    · next heq =>
      obtain rfl := Option.some.inj htransport
      exact .inr ⟨heq, hasked, hdone⟩
    · exact .inl (by simp [htransport])

end Call.Makes

theorem CreateTransport.Step.makes {i : Ref} {roomId : RoomId} {peerId : PeerId}
    {direction : TransportDirection} {ok : Bool} {s s' : State Ref}
    {point point' : CreateTransport Ref} (hi : s.transport i = none)
    (h : CreateTransport.Step i roomId peerId direction s ok point s' point') :
    Call.Makes i s s' (.createTransport roomId peerId direction point)
      (.createTransport roomId peerId direction point') := by
  cases h with
  | noRoom | failed => exact .of_eq rfl
  | entered => exact .of_eq rfl
  | undone => exact .removePeerOf s _ peerId
  | @assigned r peerExisted peer hopen hpeer =>
      have hopened : Call.Makes i s (s.openTransport i r)
          (.createTransport roomId peerId direction
            (.createWebRtcTransport r peer.object peerExisted))
          (.createTransport roomId peerId direction (.returned i)) := .openTransport hi rfl rfl
      exact (hopened.closeTransport (peer.transportFor direction)).congr rfl
  | @overtaken r object peerExisted hopen hobject =>
      have hopened : Call.Makes i s (s.openTransport i r)
          (.createTransport roomId peerId direction (.createWebRtcTransport r object peerExisted))
          (.createTransport roomId peerId direction .threw) := .openTransport hi rfl rfl
      exact hopened.closeTransport (some i)

theorem CreateTransport.Step.creating {i : Ref} {roomId : RoomId} {peerId : PeerId}
    {direction : TransportDirection} {ok : Bool} {s s' : State Ref}
    {point point' : CreateTransport Ref}
    (h : CreateTransport.Step i roomId peerId direction s ok point s' point') :
    (Call.createTransport roomId peerId direction point).creatingTransport = true := by
  cases h <;> rfl

theorem Call.makes_step {i : Ref} {ok : Bool} {s s' : State Ref} {c c' : Call Ref}
    (hkeyed : s.Keyed) (hunmade : c.creatingTransport = true → s.transport i = none)
    (h : c.step i ok s = some (s', c')) : Call.Makes i s s' c c' := by
  by_cases hother : ∀ roomId peerId direction point,
      c ≠ .createTransport roomId peerId direction point
  · rcases c.step_apart hkeyed h hother with ⟨r, peerId, -, rfl⟩ | ⟨hsame, -⟩
    · exact .removePeerOf s r peerId
    · exact .of_eq hsame
  · simp only [not_forall, not_not] at hother
    obtain ⟨roomId, peerId, direction, point, rfl⟩ := hother
    obtain ⟨point', rfl, hstep⟩ := Call.createTransport_cases h
    exact hstep.makes (hunmade hstep.creating)

theorem CreateTransport.Step.wired {i : Ref} {roomId : RoomId} {peerId : PeerId}
    {direction : TransportDirection} {ok : Bool} {s s' : State Ref}
    {point point' : CreateTransport Ref} (hwired : s.Wired) (hkeyed : s'.Keyed)
    (hi : s.transport i = none)
    (h : CreateTransport.Step i roomId peerId direction s ok point s' point') : s'.Wired := by
  cases h with
  | noRoom | failed => exact hwired
  | @entered ok r hr => exact hwired.getOrCreatePeer r peerId i hkeyed
  | assigned hopen hpeer => exact hwired.setTransport hpeer hi hkeyed
  | @overtaken r object peerExisted hopen hobject => exact hwired.closeOwn hi r
  | @undone r object => exact hwired.removePeerOf r peerId hkeyed

theorem State.Wired.step {i : Ref} {ok : Bool} {s s' : State Ref} {c c' : Call Ref}
    (h : s.Wired) (hunmade : c.creatingTransport = true → s.transport i = none)
    (hnew : ∀ t transport, s.transport t = some transport → transport.router ≠ i)
    (hcall : c.step i ok s = some (s', c')) : s'.Wired := by
  have hkeyed := h.keyed.step hcall
  by_cases hother : ∀ roomId peerId direction point,
      c ≠ .createTransport roomId peerId direction point
  · rcases c.step_apart h.keyed hcall hother with ⟨r, peerId, -, rfl⟩ | ⟨hsame, hpeers⟩
    · exact h.removePeerOf r peerId hkeyed
    · refine h.congr hkeyed (fun r peerId direction => ?_) hsame
      rcases hpeers r peerId with hpeer | ⟨rfl, hnone⟩
      · exact registered_of_unnamed hpeer direction
      · rw [registered, hnone, Option.bind_none]
        cases hregistered : s.registered r peerId direction with
        | none => rfl
        | some t => exact (hnew t _ (h.live r peerId direction t hregistered) rfl).elim
  · simp only [not_forall, not_not] at hother
    obtain ⟨roomId, peerId, direction, point, rfl⟩ := hother
    obtain ⟨point', rfl, hstep⟩ := Call.createTransport_cases hcall
    exact hstep.wired h hkeyed (hunmade hstep.creating)

theorem Call.asked_step {i : Ref} {ok : Bool} {s s' : State Ref} {c c' : Call Ref}
    (h : c.step i ok s = some (s', c')) {r : Ref} (hasked : c'.askedRoom = some r) :
    ∃ roomId, s.rooms.lookup roomId = some r := by
  cases c with
  | createTransport roomId peerId direction point =>
      obtain ⟨point', rfl, hstep⟩ := Call.createTransport_cases h
      cases hstep with
      | @entered ok v hv =>
          obtain rfl : v = r := by simpa [askedRoom] using hasked
          exact ⟨roomId, hv⟩
      | _ => cases hasked
  | removePeer roomId peerId done =>
      cases done <;> cases h
      cases hasked
  | getOrCreateRoom | startRecording | stopRecording | closeRoom =>
      obtain ⟨result, -, hr⟩ := Option.map_eq_some_iff.1 h
      cases hr
      cases hasked

theorem Call.creatingTransport_step {i : Ref} {ok : Bool} {s s' : State Ref}
    {c c' : Call Ref} (h : c.step i ok s = some (s', c'))
    (hcreating : c'.creatingTransport = true) : c.creatingTransport = true := by
  cases c with
  | createTransport roomId peerId direction point =>
      obtain ⟨point', rfl, hstep⟩ := Call.createTransport_cases h
      cases hstep <;> rfl
  | removePeer roomId peerId done =>
      cases done <;> cases h
      cases hcreating
  | getOrCreateRoom | startRecording | stopRecording | closeRoom =>
      obtain ⟨result, -, hr⟩ := Option.map_eq_some_iff.1 h
      cases hr
      cases hcreating

/-- A call that can still take a step has not made a router. -/
theorem TransportRegistry.router_ne {p : Process Ref} (h : TransportRegistry p) {i : Ref}
    {ok : Bool} {s' : State Ref} {c' : Call Ref}
    (hcall : (p.proc i).step i ok p.world = some (s', c')) (t : Ref) (transport : Transport Ref)
    (htransport : p.world.transport t = some transport) : transport.router ≠ i := by
  intro heq
  have hgot := h.router t transport htransport
  rw [heq, Call.gotRoom_step hcall] at hgot
  cases hgot

theorem TransportRegistry.preserves :
    (service : System (Process Ref) _).Preserves (fun _ _ => True) TransportRegistry := by
  rintro p ⟨i, ok⟩ p' h - hstep
  obtain ⟨s', c', hcall, rfl⟩ := Pool.step_eq_some.1 hstep
  have hs := Call.step_cases hcall
  have hnew := h.router_ne hcall
  obtain ⟨hreg, hwired, hunmade, hrouter, hasked⟩ := h
  have hgot : ∀ v, (p.proc v).gotRoom = some v →
      ((p.set i s' c').proc v).gotRoom = some v := by
    intro v hv
    rw [Pool.set_proc]
    split
    · next heq =>
      rw [heq, Call.gotRoom_step hcall] at hv
      cases hv
    · exact hv
  have hmakes := Call.makes_step hwired.keyed (hunmade i) hcall
  refine ⟨hreg.step hs, ?_, ?_, ?_, ?_⟩
  · exact hwired.step (hunmade i) hnew hcall
  · intro j hcreating
    have hbefore : (p.proc j).creatingTransport = true := by
      rw [Pool.set_proc] at hcreating
      split at hcreating
      · next heq =>
        rw [heq]
        exact Call.creatingTransport_step hcall hcreating
      · exact hcreating
    cases htransport : s'.transport j with
    | none => exact htransport
    | some transport' =>
        rcases hmakes.made j transport' htransport with hold | ⟨rfl, -, hdone⟩
        · exact (hold (hunmade j hbefore)).elim
        · rw [Pool.set_proc_self, hdone] at hcreating
          cases hcreating
  · intro t transport htransport
    rcases hmakes.made t transport htransport with hold | ⟨rfl, hown, -⟩
    · obtain ⟨old, hold⟩ := Option.ne_none_iff_exists'.1 hold
      obtain ⟨transport', hkept, hsame, -⟩ := hmakes.kept t old hold
      obtain rfl := Option.some.inj (hkept.symm.trans htransport)
      rw [hsame]
      exact hgot _ (hrouter t old hold)
    · exact hgot _ (hasked t _ hown)
  · intro j r hr
    rw [Pool.set_proc] at hr
    split at hr
    · obtain ⟨roomId, hlookup⟩ := Call.asked_step hcall hr
      exact hgot r (hreg.stored roomId r hlookup).2
    · exact hgot r (hasked j r hr)

/-! ## No leak, and nothing dangling -/

omit [DecidableEq Ref] in
/-- Every open transport whose creation has finished is that of a peer in the room
whose router created it, and the peers of a room whose router is open have open
transports. -/
structure NoTransportLost (p : Process Ref) : Prop where
  leak : ∀ t transport, p.world.transport t = some transport → p.world.transportOpen t = true →
    (p.proc t).creatingTransport = false →
    ∃ peerId peer direction, (p.world.room transport.router).getPeer peerId = some peer ∧
      peer.transportFor direction = some t
  dangling : ∀ r peerId peer direction t, p.world.routerOpen r = true →
    (p.world.room r).getPeer peerId = some peer → peer.transportFor direction = some t →
    p.world.transportOpen t = true

omit [DecidableEq Ref] in
theorem State.Wired.noTransportLost {p : Process Ref} (h : p.world.Wired) :
    NoTransportLost p where
  leak t transport htransport hopen _ := by
    have hclosed : transport.closed = false := by
      simp only [State.transportOpen, htransport, Bool.and_eq_true] at hopen
      simpa using hopen.1
    obtain ⟨peerId, direction, hregistered⟩ := h.held t transport htransport hclosed
    obtain ⟨peer, hpeer, hfor⟩ := Option.bind_eq_some_iff.1 hregistered
    exact ⟨peerId, peer, direction, hpeer, hfor⟩
  dangling r peerId peer direction t hrouter hpeer hfor := by
    have hregistered : p.world.registered r peerId direction = some t :=
      Option.bind_eq_some_iff.2 ⟨peer, hpeer, hfor⟩
    simp [State.transportOpen, h.live r peerId direction t hregistered, hrouter]

/-- No interleaving of the calls leaks a transport or leaves a closed one with a peer. -/
theorem holds_noTransportLost (workers : List Worker) (requests : Ref → Request)
    (schedule : List (Ref × Bool)) :
    service.Holds NoTransportLost (Process.spawned workers requests) schedule :=
  (System.meets_of_forall fun _ _ _ => trivial).holds TransportRegistry.preserves
    (fun _ h => h.wired.noTransportLost) (.spawned workers requests)

end MeetServer.Sfu
