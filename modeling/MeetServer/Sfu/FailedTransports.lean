import MeetServer.Sfu.OccupiedClose
import MeetServer.Sfu.Transports

/-!
# Failed transport creations

`discardPeerIfJustCreated` decides by a flag from before the await and removes
by id after it.  A call is on track while its peer is still the one it asked
for, and afterwards while its transport is open and in the peer's field.
-/

namespace MeetServer.Sfu

open MeetServer.Foundation

variable {Ref : Type}

namespace Call

/-- The room, the peer and the peer object of a pending creation. -/
def pendingOn : Call Ref → Option (Ref × PeerId × Ref)
  | .createTransport _ peerId _ (.createWebRtcTransport r object _) => some (r, peerId, object)
  | _ => none

/-- The field that the call is going to set or has set. -/
def place (s : State Ref) : Call Ref → Option (Ref × PeerId × TransportDirection)
  | .createTransport _ peerId direction (.createWebRtcTransport r _ _) =>
      some (r, peerId, direction)
  | .createTransport _ peerId direction (.returned t) =>
      (s.transport t).map fun transport => (transport.router, peerId, direction)
  | _ => none

/-- The field that the call sets in its next step, unless it has been overtaken. -/
def resolving (ok : Bool) : Call Ref → Option (Ref × PeerId × TransportDirection)
  | .createTransport _ peerId direction (.createWebRtcTransport r _ _) =>
      if ok then some (r, peerId, direction) else none
  | _ => none

end Call

def OnTrack (p : Process Ref) (j : Ref) : Prop :=
  match p.proc j with
  | .createTransport _ peerId _ (.createWebRtcTransport r object _) =>
      ((p.world.room r).getPeer peerId).map MediaPeer.object = some object
  | .createTransport _ peerId direction (.returned t) =>
      p.world.transportOpen t = true ∧ ∃ r, p.world.registered r peerId direction = some t
  | _ => False

/-- The step removes the peer, closes the room, or puts a later transport into the field. -/
def Displaced (p : Process Ref) (a : Ref × Bool) (j : Ref) : Prop :=
  ∃ r peerId direction, (p.proc j).place p.world = some (r, peerId, direction) ∧
    ((p.proc a.1).removing p.world = some (r, peerId) ∨
      (p.proc a.1).closing a.2 p.world = some r ∨
      (p.proc j).creatingTransport = false ∧
        (p.proc a.1).resolving a.2 = some (r, peerId, direction))

/-- The peer has no transport, and no call but `i` is creating one for it. -/
def Unused (p : Process Ref) (i r : Ref) (peerId : PeerId) (peer : MediaPeer Ref) : Prop :=
  (∀ direction, peer.transportFor direction = none) ∧
    ∀ j, j ≠ i → (p.proc j).pendingOn ≠ some (r, peerId, peer.object)

/-- A peer that goes with a failed creation was created by it and is unused. -/
structure Undoes (p p' : Process Ref) (i : Ref) : Prop where
  transport : p'.world.transport = p.world.transport
  peers : ∀ r peerId, (p'.world.room r).getPeer peerId = (p.world.room r).getPeer peerId ∨
    ∃ peer, (p.world.room r).getPeer peerId = some peer ∧
      (p'.world.room r).getPeer peerId = none ∧ peer.object = i ∧ Unused p i r peerId peer

variable [DecidableEq Ref]

/-- What the step does to the creations of transports. -/
structure HarmsNobody (p : Process Ref) (a : Ref × Bool) : Prop where
  begins : ((service.next p a).proc a.1).creatingTransport = true →
    OnTrack (service.next p a) a.1
  stays : ∀ j, OnTrack p j → (j = a.1 → a.2 = true) → ¬ Displaced p a j →
    OnTrack (service.next p a) j
  undoes : a.2 = false → (p.proc a.1).pendingOn.isSome → Undoes p (service.next p a) a.1

omit [DecidableEq Ref] in
/-- Where a creation fails that did not find the peer, the peer that is there by
then is unused. -/
def FailsUnused (p : Process Ref) (a : Ref × Bool) : Prop :=
  ∀ roomId peerId direction r object, a.2 = false →
    p.proc a.1 = .createTransport roomId peerId direction
      (.createWebRtcTransport r object false) →
    ∀ peer, (p.world.room r).getPeer peerId = some peer → Unused p a.1 r peerId peer

/-! ## What a step leaves of the peers -/

namespace State

def KeepsObject (s s' : State Ref) (r : Ref) (peerId : PeerId) : Prop :=
  ∀ object, ((s.room r).getPeer peerId).map MediaPeer.object = some object →
    ((s'.room r).getPeer peerId).map MediaPeer.object = some object

def KeepsTransport (s s' : State Ref) (r : Ref) (peerId : PeerId)
    (direction : TransportDirection) : Prop :=
  ∀ t, s.registered r peerId direction = some t → s.transportOpen t = true →
    s'.registered r peerId direction = some t ∧ s'.transportOpen t = true

variable {s s' : State Ref} {r v i : Ref} {peerId q : PeerId}
  {direction : TransportDirection}

omit [DecidableEq Ref] in
theorem KeepsObject.of_unnamed (h : ((s'.room r).getPeer peerId).map MediaPeer.unnamed =
    ((s.room r).getPeer peerId).map MediaPeer.unnamed) : s.KeepsObject s' r peerId := by
  intro object hobject
  have hsame (peer : Option (MediaPeer Ref)) :
      peer.map MediaPeer.object = (peer.map MediaPeer.unnamed).map MediaPeer.object := by
    cases peer <;> rfl
  rw [hsame, h, ← hsame, hobject]

theorem KeepsObject.removePeerOf (hne : ¬ (r = v ∧ peerId = q)) :
    s.KeepsObject (s.removePeerOf v q) r peerId := by
  refine .of_unnamed ?_
  rw [room_removePeerOf]
  by_cases hr : r = v
  · subst hr
    have hq : peerId ≠ q := fun heq => hne ⟨rfl, heq⟩
    simp [MediaRoom.getPeer_deletePeer, hq]
  · simp [hr]

theorem KeepsObject.setPeer {peer peer' : MediaPeer Ref} (hpeer : (s.room v).getPeer q = some peer)
    (hid : peer'.id = q) (hobject : peer'.object = peer.object) (hroom : s'.room = s.room) :
    s.KeepsObject (s'.setRoom v ((s.room v).setPeer peer')) r peerId := by
  intro object h
  by_cases hr : r = v
  · subst hr
    rw [room_setRoom, MediaRoom.getPeer_setPeer, hid]
    split
    · next heq =>
      rw [heq, hpeer] at h
      simpa [hobject] using h
    · exact h
  · simpa [setRoom, hr, hroom] using h

theorem KeepsTransport.removePeerOf (hwired : s.Wired) (hne : ¬ (r = v ∧ peerId = q)) :
    s.KeepsTransport (s.removePeerOf v q) r peerId direction := by
  intro t hregistered hopen
  rw [registered_removePeerOf, if_neg hne]
  refine ⟨hregistered, ?_⟩
  have hsame : (s.removePeerOf v q).transport t = s.transport t := by
    rw [transport_removePeerOf, if_neg]
    have hother direction' : s.registered v q direction' ≠ some t := by
      intro hother
      have hrouter := hwired.live v q direction' t hother
      rw [hwired.live r peerId direction t hregistered] at hrouter
      obtain rfl : r = v := congrArg Transport.router (Option.some.inj hrouter)
      exact hne ⟨rfl, (hwired.owner r peerId direction q direction' t hregistered hother).1⟩
    rintro (hother' | hother')
    · exact hother .send hother'
    · exact hother .recv hother'
  rw [transportOpen, hsame, routerOpen_removePeerOf]
  exact hopen

end State

/-! ### Calls other than `createTransport` -/

section Keeps

variable {i r : Ref} {ok : Bool} {s s' : State Ref} {c c' : Call Ref} {peerId q : PeerId}
  {direction : TransportDirection}

theorem Call.keepsObject_apart (hkeyed : s.Keyed) (h : c.step i ok s = some (s', c'))
    (hother : ∀ roomId peerId direction point,
      c ≠ .createTransport roomId peerId direction point) (hr : r ≠ i)
    (hremoving : c.removing s ≠ some (r, peerId)) : s.KeepsObject s' r peerId := by
  rcases c.step_apart hkeyed h hother with ⟨v, q, hremoved, rfl⟩ | ⟨-, hpeers⟩
  · refine .removePeerOf ?_
    rintro ⟨rfl, rfl⟩
    exact hremoving hremoved
  · rcases hpeers r peerId with hsame | ⟨heq, -⟩
    · exact .of_unnamed hsame
    · exact (hr heq).elim

theorem Call.keepsTransport_apart (hwired : s.Wired) (h : c.step i ok s = some (s', c'))
    (hother : ∀ roomId peerId direction point,
      c ≠ .createTransport roomId peerId direction point) (hr : r ≠ i)
    (hremoving : c.removing s ≠ some (r, peerId)) (hclosing : c.closing ok s ≠ some r) :
    s.KeepsTransport s' r peerId direction := by
  rcases c.step_apart hwired.keyed h hother with ⟨v, q, hremoved, rfl⟩ | ⟨htransport, hpeers⟩
  · refine .removePeerOf hwired ?_
    rintro ⟨rfl, rfl⟩
    exact hremoving hremoved
  · intro t hregistered hopen
    have hsame : s'.registered r peerId direction = s.registered r peerId direction := by
      rcases hpeers r peerId with hsame | ⟨heq, -⟩
      · exact State.registered_of_unnamed hsame direction
      · exact (hr heq).elim
    have hlive := hwired.live r peerId direction t hregistered
    have hrouter : s.routerOpen r = true := by simpa [State.transportOpen, hlive] using hopen
    have hrouter' : s'.routerOpen r = true := by
      by_contra hclosed
      exact hclosing (closing_of_routerOpen h hrouter (by simpa using hclosed))
    refine ⟨hsame.trans hregistered, ?_⟩
    simp [State.transportOpen, htransport, hlive, hrouter']

/-! ### `createTransport` -/

theorem CreateTransport.Step.keepsObject {roomId : RoomId} {point point' : CreateTransport Ref}
    (hkeyed : s.Keyed)
    (h : CreateTransport.Step i roomId q direction s ok point s' point')
    (hundone : ∀ v object, ok = false → point = .createWebRtcTransport v object false →
      ¬ (r = v ∧ peerId = q)) : s.KeepsObject s' r peerId := by
  cases h with
  | noRoom | failed => exact .of_unnamed rfl
  | overtaken => exact .of_unnamed rfl
  | @entered ok v hv =>
      intro object hobject
      by_cases hr : r = v
      · subst hr
        rw [State.room_setRoom, MediaRoom.getPeer_getOrCreatePeer]
        split
        · next heq =>
          subst heq
          cases hpeer : (s.room r).getPeer peerId with
          | none =>
              rw [hpeer] at hobject
              cases hobject
          | some peer =>
              rw [hpeer] at hobject
              simpa [MediaRoom.getOrCreatePeer, hpeer] using hobject
        · exact hobject
      · simpa [State.setRoom, hr] using hobject
  | @assigned v peerExisted peer hopen hpeer =>
      have hid : (peer.setTransport i direction).id = q := by
        rw [MediaPeer.id_setTransport, hkeyed v q peer hpeer]
      exact .setPeer hpeer hid (by cases direction <;> rfl) rfl
  | @undone v object => exact .removePeerOf (hundone v object rfl rfl)

theorem CreateTransport.Step.keepsTransport {roomId : RoomId} {direction' : TransportDirection}
    {point point' : CreateTransport Ref} (hwired : s.Wired) (hi : s.transport i = none)
    (h : CreateTransport.Step i roomId q direction' s ok point s' point')
    (hundone : ∀ v object, ok = false → point = .createWebRtcTransport v object false →
      ¬ (r = v ∧ peerId = q))
    (hresolving : (Call.createTransport roomId q direction' point).resolving ok ≠
      some (r, peerId, direction)) : s.KeepsTransport s' r peerId direction := by
  have hfresh := hwired.not_registered hi
  cases h with
  | noRoom | failed => exact fun t hregistered hopen => ⟨hregistered, hopen⟩
  | @entered ok v hv =>
      intro t hregistered hopen
      rw [State.registered_getOrCreatePeer]
      exact ⟨hregistered, hopen⟩
  | @overtaken v object peerExisted hopen hobject =>
      intro t hregistered htransport
      refine ⟨hregistered, ?_⟩
      have hne : t ≠ i := by
        rintro rfl
        exact hfresh r peerId direction hregistered
      rw [State.transportOpen_closeTransport, State.transportOpen_openTransport, if_neg,
        if_neg hne]
      · exact htransport
      · rintro heq
        exact hne (Option.some.inj heq).symm
  | @assigned v peerExisted peer hopen hpeer =>
      intro t hregistered htransport
      have hne : t ≠ i := by
        rintro rfl
        exact hfresh r peerId direction hregistered
      have hold : s.registered v q direction' = peer.transportFor direction' := by
        rw [State.registered, hpeer, Option.bind_some]
      have hother : ¬ (r = v ∧ peerId = q ∧ direction = direction') := by
        rintro ⟨rfl, rfl, rfl⟩
        exact hresolving rfl
      have hkept : peer.transportFor direction' ≠ some t := by
        intro hclosed
        rw [← hold] at hclosed
        have hrouter := hwired.live v q direction' t hclosed
        rw [hwired.live r peerId direction t hregistered] at hrouter
        obtain rfl : r = v := congrArg Transport.router (Option.some.inj hrouter)
        exact hother ⟨rfl, hwired.owner r peerId direction q direction' t hregistered hclosed⟩
      have hfield := s.registered_assigned v hpeer (hwired.keyed v q peer hpeer) i r direction'
        peerId direction
      refine ⟨(hfield.trans (if_neg hother)).trans hregistered, ?_⟩
      rw [State.transportOpen_setRoom, State.transportOpen_closeTransport, if_neg hkept,
        State.transportOpen_openTransport, if_neg hne]
      exact htransport
  | @undone v object => exact .removePeerOf hwired (hundone v object rfl rfl)

end Keeps

/-! ## Every peer is in use or being created -/

/-- A peer without a transport is still waiting for the creation it was made for. -/
def Justified (p : Process Ref) : Prop :=
  ∀ r peerId peer, (p.world.room r).getPeer peerId = some peer →
    (∃ direction, peer.transportFor direction ≠ none) ∨
      ∃ roomId direction, p.proc peer.object = .createTransport roomId peerId direction
        (.createWebRtcTransport r peer.object false)

theorem Justified.keeps {p : Process Ref} (h : Justified p) {i : Ref} {s' : State Ref}
    {c' : Call Ref} {r : Ref} {peerId : PeerId} {peer : MediaPeer Ref}
    (hpeer : (p.world.room r).getPeer peerId = some peer)
    (hdone : ∀ roomId direction, p.proc i = .createTransport roomId peerId direction
      (.createWebRtcTransport r i false) → peer.object ≠ i) :
    (∃ direction, peer.transportFor direction ≠ none) ∨
      ∃ roomId direction, (p.set i s' c').proc peer.object = .createTransport roomId peerId
        direction (.createWebRtcTransport r peer.object false) := by
  rcases h r peerId peer hpeer with hhas | ⟨roomId, direction, hproc⟩
  · exact .inl hhas
  · refine .inr ⟨roomId, direction, ?_⟩
    have hne : peer.object ≠ i := by
      intro heq
      rw [heq] at hproc
      exact hdone roomId direction hproc heq
    rwa [Pool.set_proc_ne _ _ _ hne]

theorem CreateTransport.Step.justified {p : Process Ref} {i : Ref} {roomId : RoomId}
    {q : PeerId} {direction : TransportDirection} {ok : Bool} {s' : State Ref}
    {point point' : CreateTransport Ref} (hjust : Justified p) (hkeyed : p.world.Keyed)
    (hproc : p.proc i = .createTransport roomId q direction point)
    (h : CreateTransport.Step i roomId q direction p.world ok point s' point') :
    Justified (p.set i s' (.createTransport roomId q direction point')) := by
  intro r peerId peer' hpeer'
  rw [Pool.set_world] at hpeer'
  have hown roomId' direction' (hpending : p.proc i =
      .createTransport roomId' peerId direction' (.createWebRtcTransport r i false)) :
      peerId = q ∧ point = .createWebRtcTransport r i false := by
    rw [hproc] at hpending
    cases hpending
    exact ⟨rfl, rfl⟩
  cases h with
  | noRoom => exact hjust.keeps hpeer' fun _ _ hpending => nomatch (hown _ _ hpending).2
  | failed => exact hjust.keeps hpeer' fun _ _ hpending => nomatch (hown _ _ hpending).2
  | @entered ok v hv =>
      have hnotPending {peer : MediaPeer Ref} roomId' direction' (hpending : p.proc i =
          .createTransport roomId' peerId direction' (.createWebRtcTransport r i false)) :
          peer.object ≠ i := nomatch (hown _ _ hpending).2
      by_cases hr : r = v
      · subst hr
        rw [State.room_setRoom, MediaRoom.getPeer_getOrCreatePeer] at hpeer'
        split at hpeer'
        · next heq =>
          subst heq
          cases hold : (p.world.room r).getPeer peerId with
          | some peer =>
              simp only [MediaRoom.getOrCreatePeer, hold, Option.some.injEq] at hpeer'
              subst hpeer'
              exact hjust.keeps hold hnotPending
          | none =>
              simp only [MediaRoom.getOrCreatePeer, hold, Option.some.injEq] at hpeer'
              subst hpeer'
              refine .inr ⟨roomId, direction, ?_⟩
              simp [MediaRoom.getOrCreatePeer, MediaRoom.hasPeer, hold]
        · exact hjust.keeps hpeer' hnotPending
      · have hold : (p.world.room r).getPeer peerId = some peer' := by
          simpa [State.setRoom, hr] using hpeer'
        exact hjust.keeps hold hnotPending
  | @overtaken v object peerExisted hopen hobject =>
      refine hjust.keeps hpeer' fun roomId' direction' hpending => ?_
      obtain ⟨rfl, heq⟩ := hown roomId' direction' hpending
      cases heq
      exact hobject peer' hpeer'
  | @assigned v peerExisted peer hopen hpeer =>
      by_cases hplace : r = v ∧ peerId = q
      · obtain ⟨rfl, rfl⟩ := hplace
        rw [State.room_setRoom, MediaRoom.getPeer_setPeer, MediaPeer.id_setTransport,
          hkeyed r peerId peer hpeer, if_pos rfl] at hpeer'
        obtain rfl := Option.some.inj hpeer'
        refine .inl ⟨direction, ?_⟩
        simp [MediaPeer.transportFor_setTransport]
      · have hold : (p.world.room r).getPeer peerId = some peer' := by
          by_cases hr : r = v
          · subst hr
            have hq : peerId ≠ q := fun heq => hplace ⟨rfl, heq⟩
            rwa [State.room_setRoom, MediaRoom.getPeer_setPeer, MediaPeer.id_setTransport,
              hkeyed r q peer hpeer, if_neg hq] at hpeer'
          · simpa [State.setRoom, hr] using hpeer'
        refine hjust.keeps hold fun roomId' direction' hpending => ?_
        obtain ⟨rfl, heq⟩ := hown roomId' direction' hpending
        cases heq
        exact (hplace ⟨rfl, rfl⟩).elim
  | @undone v object =>
      rw [State.room_removePeerOf] at hpeer'
      by_cases hr : r = v
      · subst hr
        rw [Function.update_self, MediaRoom.getPeer_deletePeer] at hpeer'
        split at hpeer'
        · cases hpeer'
        · next hne =>
          exact hjust.keeps hpeer' fun _ _ hpending => (hne (hown _ _ hpending).1).elim
      · rw [Function.update_of_ne hr] at hpeer'
        refine hjust.keeps hpeer' fun roomId' direction' hpending => ?_
        cases (hown roomId' direction' hpending).2
        exact (hr rfl).elim

theorem Justified.preserves :
    (service : System (Process Ref) _).Preserves (fun _ _ => True)
      (fun p => TransportRegistry p ∧ Justified p) := by
  rintro p ⟨i, ok⟩ p' ⟨h, hjust⟩ - hstep
  refine ⟨TransportRegistry.preserves h trivial hstep, ?_⟩
  obtain ⟨s', c', hcall, rfl⟩ := Pool.step_eq_some.1 hstep
  have hkeyed := h.wired.keyed
  by_cases hother : ∀ roomId peerId direction point,
      p.proc i ≠ .createTransport roomId peerId direction point
  · intro r peerId peer' hpeer'
    rw [Pool.set_world] at hpeer'
    have hnone {peer : MediaPeer Ref} roomId direction (hpending : p.proc i =
        .createTransport roomId peerId direction (.createWebRtcTransport r i false)) :
        peer.object ≠ i := (hother _ _ _ _ hpending).elim
    rcases (p.proc i).step_apart hkeyed hcall hother with ⟨v, q, -, rfl⟩ | ⟨-, hpeers⟩
    · rw [State.room_removePeerOf] at hpeer'
      by_cases hr : r = v
      · subst hr
        rw [Function.update_self, MediaRoom.getPeer_deletePeer] at hpeer'
        split at hpeer'
        · cases hpeer'
        · exact hjust.keeps hpeer' hnone
      · rw [Function.update_of_ne hr] at hpeer'
        exact hjust.keeps hpeer' hnone
    · rcases hpeers r peerId with hsame | ⟨-, hgone⟩
      · rw [hpeer'] at hsame
        obtain ⟨peer, hpeer, hunnamed⟩ := Option.map_eq_some_iff.1 hsame.symm
        have hobject : peer.unnamed.object = peer'.unnamed.object := by rw [hunnamed]
        change peer.object = peer'.object at hobject
        have hfor direction : peer.transportFor direction = peer'.transportFor direction := by
          have hfields := congrArg (fun peer => peer.transportFor direction) hunnamed
          cases direction <;> exact hfields
        have hkept := @Justified.keeps _ _ p hjust i s' c' _ _ _ hpeer hnone
        simpa only [hobject, hfor] using hkept
      · rw [hgone] at hpeer'
        cases hpeer'
  · simp only [not_forall, not_not] at hother
    obtain ⟨roomId, q, direction, point, hproc⟩ := hother
    rw [hproc] at hcall
    obtain ⟨point', rfl, hpoint⟩ := Call.createTransport_cases hcall
    exact hpoint.justified hjust hkeyed hproc

/-! ## Failed creations -/

section OnTrack

variable {p : Process Ref} {i j r : Ref} {peerId : PeerId} {direction : TransportDirection}

omit [DecidableEq Ref] in
theorem OnTrack.cases (h : OnTrack p j) (hwired : p.world.Wired) :
    (∃ r peerId object direction, (p.proc j).pendingOn = some (r, peerId, object) ∧
      (p.proc j).place p.world = some (r, peerId, direction) ∧
      ((p.world.room r).getPeer peerId).map MediaPeer.object = some object) ∨
    ∃ roomId r peerId direction t, p.proc j = .createTransport roomId peerId direction
        (.returned t) ∧ (p.proc j).place p.world = some (r, peerId, direction) ∧
      p.world.registered r peerId direction = some t ∧ p.world.transportOpen t = true := by
  unfold OnTrack at h
  split at h
  · next roomId peerId direction r object existed hproc =>
    exact .inl ⟨r, peerId, object, direction, by rw [hproc]; rfl, by rw [hproc]; rfl, h⟩
  · next roomId peerId direction t hproc =>
    obtain ⟨hopen, r, hregistered⟩ := h
    refine .inr ⟨roomId, r, peerId, direction, t, hproc, ?_, hregistered, hopen⟩
    simp [hproc, Call.place, hwired.live r peerId direction t hregistered]
  · exact h.elim

omit [DecidableEq Ref] in
theorem OnTrack.of_pending {object : Ref}
    (hpending : (p.proc j).pendingOn = some (r, peerId, object))
    (h : ((p.world.room r).getPeer peerId).map MediaPeer.object = some object) :
    OnTrack p j := by
  unfold Call.pendingOn at hpending
  split at hpending
  · next hproc =>
    cases hpending
    simpa [OnTrack, hproc] using h
  · cases hpending

omit [DecidableEq Ref] in
theorem OnTrack.of_returned {roomId : RoomId} {t : Ref}
    (hproc : p.proc j = .createTransport roomId peerId direction (.returned t))
    (hregistered : p.world.registered r peerId direction = some t)
    (hopen : p.world.transportOpen t = true) : OnTrack p j := by
  simp only [OnTrack, hproc]
  exact ⟨hopen, r, hregistered⟩

theorem OnTrack.set {s' : State Ref} {c' : Call Ref} (h : OnTrack p j) (hji : j ≠ i)
    (hreg : TransportRegistry p)
    (hobject : ∀ r peerId object direction, (p.proc j).pendingOn = some (r, peerId, object) →
      (p.proc j).place p.world = some (r, peerId, direction) →
      (p.proc r).gotRoom = some r →
      ((p.world.room r).getPeer peerId).map MediaPeer.object = some object →
      p.world.KeepsObject s' r peerId)
    (htransport : ∀ r peerId direction t, (p.proc j).creatingTransport = false →
      (p.proc j).place p.world = some (r, peerId, direction) →
      (p.proc r).gotRoom = some r → p.world.registered r peerId direction = some t →
      p.world.KeepsTransport s' r peerId direction) :
    OnTrack (p.set i s' c') j := by
  rcases h.cases hreg.wired with ⟨r, peerId, object, direction, hpending, hplace, hpeer⟩ |
    ⟨roomId, r, peerId, direction, t, hproc, hplace, hregistered, hopen⟩
  · have hasked : (p.proc j).askedRoom = some r := by
      unfold Call.pendingOn at hpending
      split at hpending
      · next hproc =>
        cases hpending
        rw [hproc]
        rfl
      · cases hpending
    refine .of_pending (by rwa [Pool.set_proc_ne _ _ _ hji]) ?_
    exact hobject r peerId object direction hpending hplace (hreg.asked j r hasked) hpeer object
      hpeer
  · have hgot := hreg.router t _ (hreg.wired.live r peerId direction t hregistered)
    obtain ⟨hregistered', hopen'⟩ := htransport r peerId direction t (by rw [hproc]; rfl) hplace
      hgot hregistered t hregistered hopen
    exact .of_returned ((Pool.set_proc_ne _ _ _ hji).trans hproc) hregistered' hopen'

end OnTrack

theorem harmsNobody_apart {p : Process Ref} {i : Ref} {ok : Bool} {s' : State Ref}
    {c' : Call Ref} (hreg : TransportRegistry p)
    (hother : ∀ roomId peerId direction point,
      p.proc i ≠ .createTransport roomId peerId direction point)
    (hcall : (p.proc i).step i ok p.world = some (s', c')) : HarmsNobody p (i, ok) := by
  have hnext : service.next p (i, ok) = p.set i s' c' := Pool.next_of_step hcall
  have hidle : (p.proc i).creatingTransport = false ∧ (p.proc i).pendingOn = none ∧
      ∀ s, (p.proc i).place s = none := by
    cases hproc : p.proc i with
    | createTransport roomId peerId direction point => exact (hother _ _ _ _ hproc).elim
    | _ => exact ⟨rfl, rfl, fun _ => rfl⟩
  have hgot : ∀ r, (p.proc r).gotRoom = some r → r ≠ i := by
    rintro r hr rfl
    rw [Call.gotRoom_step hcall] at hr
    cases hr
  refine ⟨fun hcreating => ?_, fun j htrack _ hdisplaced => ?_, fun _ hpending => ?_⟩
  · rw [hnext, Pool.set_proc_self] at hcreating
    have hbefore := Call.creatingTransport_step hcall hcreating
    rw [hidle.1] at hbefore
    cases hbefore
  · have hji : j ≠ i := by
      rintro rfl
      rcases htrack.cases hreg.wired with ⟨_, _, _, _, -, hplace, -⟩ | ⟨_, _, _, _, _, -, hplace, -⟩
      · exact nomatch (hidle.2.2 _).symm.trans hplace
      · exact nomatch (hidle.2.2 _).symm.trans hplace
    rw [hnext]
    refine htrack.set hji hreg (fun r peerId object direction _ hplace hr _ => ?_)
      fun r peerId direction t hcreating hplace hr _ => ?_
    · refine Call.keepsObject_apart hreg.wired.keyed hcall hother (hgot r hr) fun hremoving => ?_
      exact hdisplaced ⟨r, peerId, direction, hplace, .inl hremoving⟩
    · refine Call.keepsTransport_apart hreg.wired hcall hother (hgot r hr)
        (fun hremoving => ?_) fun hclosing => ?_
      · exact hdisplaced ⟨r, peerId, direction, hplace, .inl hremoving⟩
      · exact hdisplaced ⟨r, peerId, direction, hplace, .inr (.inl hclosing)⟩
  · simp [hidle.2.1] at hpending

theorem CreateTransport.Step.onTrack {p : Process Ref} {i : Ref} {roomId : RoomId} {q : PeerId}
    {direction : TransportDirection} {ok : Bool} {s' : State Ref}
    {point point' : CreateTransport Ref} (hreg : TransportRegistry p)
    (hproc : p.proc i = .createTransport roomId q direction point)
    (h : CreateTransport.Step i roomId q direction p.world ok point s' point')
    (hentered : point = .call → point' ≠ .threw) (hok : point ≠ .call → ok = true ∧ OnTrack p i) :
    OnTrack (p.set i s' (.createTransport roomId q direction point')) i := by
  cases h with
  | noRoom => exact (hentered rfl rfl).elim
  | @entered ok r hr =>
      have hpending (object : Ref) (peerExisted : Bool) :
          (Call.createTransport roomId q direction
            (.createWebRtcTransport r object peerExisted)).pendingOn = some (r, q, object) := rfl
      refine .of_pending ((congrArg Call.pendingOn (Pool.set_proc_self ..)).trans
        (hpending _ _)) ?_
      simp [MediaRoom.getPeer_getOrCreatePeer]
  | @assigned r peerExisted peer hopen hpeer =>
      have hfield := p.world.registered_assigned r hpeer (hreg.wired.keyed r q peer hpeer) i r
        direction q direction
      rw [if_pos ⟨rfl, rfl, rfl⟩] at hfield
      refine .of_returned (Pool.set_proc_self ..) hfield ?_
      have hfresh : p.world.transport i = none := hreg.unmade i (by rw [hproc]; rfl)
      have hold : peer.transportFor direction ≠ some i := by
        have hnot := hreg.wired.not_registered hfresh r q direction
        rwa [State.registered, hpeer, Option.bind_some] at hnot
      rw [Pool.set_world, State.transportOpen_setRoom, State.transportOpen_closeTransport,
        if_neg hold, State.transportOpen_openTransport, if_pos rfl, hopen]
  | @overtaken r object peerExisted hopen hobject =>
      have htrack := (hok (by simp)).2
      simp only [OnTrack, hproc] at htrack
      obtain ⟨peer, hpeer, heq⟩ := Option.map_eq_some_iff.1 htrack
      exact (hobject peer hpeer heq).elim
  | failed | undone => cases (hok (by simp)).1

theorem Undoes.of_undone {p : Process Ref} {i r : Ref} {roomId : RoomId} {q : PeerId}
    {direction : TransportDirection} {c' : Call Ref} {object : Ref} (hjust : Justified p)
    (hproc : p.proc i = .createTransport roomId q direction
      (.createWebRtcTransport r object false))
    (hunused : ∀ peer, (p.world.room r).getPeer q = some peer → Unused p i r q peer) :
    Undoes p (p.set i (p.world.removePeerOf r q) c') i := by
  constructor
  · funext t
    have hnone direction : p.world.registered r q direction = none := by
      cases hpeer : (p.world.room r).getPeer q with
      | none => simp [State.registered, hpeer]
      | some peer => simp [State.registered, hpeer, (hunused peer hpeer).1 direction]
    rw [Pool.set_world, State.transport_removePeerOf, hnone, hnone]
    simp
  · intro v q'
    by_cases hplace : v = r ∧ q' = q
    · obtain ⟨rfl, rfl⟩ := hplace
      cases hpeer : (p.world.room v).getPeer q' with
      | none => exact .inl (by simp [MediaRoom.getPeer_deletePeer])
      | some peer =>
          have hfree := hunused peer hpeer
          refine .inr ⟨peer, rfl, by simp [MediaRoom.getPeer_deletePeer], ?_, hfree⟩
          rcases hjust v q' peer hpeer with ⟨direction', hhas⟩ | ⟨roomId', direction', hcreator⟩
          · exact (hhas (hfree.1 direction')).elim
          · by_contra hne
            exact hfree.2 peer.object hne (by rw [hcreator]; rfl)
    · refine .inl ?_
      rw [Pool.set_world, State.room_removePeerOf]
      by_cases hv : v = r
      · subst hv
        have hq : q' ≠ q := fun heq => hplace ⟨rfl, heq⟩
        simp [MediaRoom.getPeer_deletePeer, hq]
      · rw [Function.update_of_ne hv]

theorem FailsUnused.harmsNobody {p p' : Process Ref} {a : Ref × Bool}
    (h : TransportRegistry p ∧ Justified p) (hunused : FailsUnused p a)
    (hstep : service.step p a = some p') : HarmsNobody p a := by
  obtain ⟨i, ok⟩ := a
  obtain ⟨hreg, hjust⟩ := h
  obtain ⟨s', c', hcall, rfl⟩ := Pool.step_eq_some.1 hstep
  by_cases hother : ∀ roomId peerId direction point,
      p.proc i ≠ .createTransport roomId peerId direction point
  · exact harmsNobody_apart hreg hother hcall
  simp only [not_forall, not_not] at hother
  obtain ⟨roomId, q, direction, point, hproc⟩ := hother
  have hnext : service.next p (i, ok) = p.set i s' c' := Pool.next_of_step hcall
  rw [hproc] at hcall
  obtain ⟨point', rfl, hpoint⟩ := Call.createTransport_cases hcall
  have hcreating : (p.proc i).creatingTransport = true := by
    rw [hproc]
    cases hpoint <;> rfl
  have hundone : ∀ v object, ok = false → point = .createWebRtcTransport v object false →
      ∀ peer, (p.world.room v).getPeer q = some peer → Unused p i v q peer := by
    rintro v object rfl rfl
    exact hunused roomId q direction v object rfl hproc
  refine ⟨fun hcreating' => ?_, fun j htrack hown hdisplaced => ?_, fun hfails hpending => ?_⟩
  · rw [hnext, Pool.set_proc_self] at hcreating'
    rw [hnext]
    refine hpoint.onTrack hreg hproc (fun _ hthrew => ?_) fun hnot => ?_
    · rw [hthrew] at hcreating'
      cases hcreating'
    · cases hpoint <;> first | exact (hnot rfl).elim | cases hcreating'
  · rw [hnext]
    by_cases hji : j = i
    · subst hji
      refine hpoint.onTrack hreg hproc (fun hcalled => ?_) fun _ => ⟨hown rfl, htrack⟩
      subst hcalled
      simp [OnTrack, hproc] at htrack
    · refine htrack.set hji hreg (fun r peerId object direction' hpending hplace _ hpeer => ?_)
        fun r peerId direction' t hdone hplace _ hregistered => ?_
      · refine hpoint.keepsObject hreg.wired.keyed fun v object' hfails hpoint' => ?_
        rintro ⟨rfl, rfl⟩
        obtain ⟨peer, hfound, rfl⟩ := Option.map_eq_some_iff.1 hpeer
        exact (hundone r object' hfails hpoint' peer hfound).2 j hji hpending
      · refine hpoint.keepsTransport hreg.wired (hreg.unmade i hcreating)
          (fun v object' hfails hpoint' => ?_) fun hresolving => ?_
        · rintro ⟨rfl, rfl⟩
          obtain ⟨peer, hpeer, hfor⟩ := Option.bind_eq_some_iff.1 hregistered
          rw [(hundone r object' hfails hpoint' peer hpeer).1 direction'] at hfor
          cases hfor
        · refine hdisplaced ⟨r, peerId, direction', hplace, .inr (.inr ⟨hdone, ?_⟩)⟩
          simpa only [hproc] using hresolving
  · simp only at hfails
    subst hfails
    rw [hnext]
    cases hpoint with
    | noRoom => simp [hproc, Call.pendingOn] at hpending
    | entered => simp [hproc, Call.pendingOn] at hpending
    | failed => exact ⟨rfl, fun _ _ => .inl rfl⟩
    | @undone r object => exact .of_undone hjust hproc (hundone r object rfl rfl)

theorem HarmsNobody.failsUnused {p p' : Process Ref} {a : Ref × Bool}
    (h : HarmsNobody p a) (hstep : service.step p a = some p') : FailsUnused p a := by
  intro roomId peerId direction r object hfails hproc peer hpeer
  obtain ⟨i, ok⟩ := a
  obtain ⟨s', c', hcall, rfl⟩ := Pool.step_eq_some.1 hstep
  have hundoes := h.undoes hfails (by simp only [hproc]; rfl)
  obtain rfl : ok = false := hfails
  simp only at hproc
  rw [hproc] at hcall
  obtain ⟨point', rfl, hpoint⟩ := Call.createTransport_cases hcall
  cases hpoint with
  | undone =>
      rw [System.next_of_step hstep] at hundoes
      have hgone : (((p.world.removePeerOf r peerId).room r).getPeer peerId) = none := by
        simp [MediaRoom.getPeer_deletePeer]
      rcases hundoes.peers r peerId with hsame | ⟨peer', hpeer', -, -, hunused⟩
      · rw [hpeer] at hsame
        exact absurd (hsame.symm.trans hgone) (by simp)
      · rw [hpeer] at hpeer'
        obtain rfl := Option.some.inj hpeer'
        exact hunused

/-- A run whose failed creations find the peer unused disturbs no other creation,
and no other run does. -/
theorem meets_harmsNobody_iff (workers : List Worker) (requests : Ref → Request)
    (schedule : List (Ref × Bool)) :
    service.Meets HarmsNobody (Process.spawned workers requests) schedule ↔
      service.Meets FailsUnused (Process.spawned workers requests) schedule := by
  have hstart : TransportRegistry (Process.spawned workers requests) ∧
      Justified (Process.spawned workers requests) :=
    ⟨.spawned workers requests, fun _ _ _ => nofun⟩
  constructor
  · refine System.Meets.along (fun s a s' hs _ => Justified.preserves hs trivial) ?_ hstart
    exact fun s a s' _ h hstep => h.failsUnused hstep
  · refine System.Meets.along (fun s a s' hs _ => Justified.preserves hs trivial) ?_ hstart
    exact fun s a s' hs h hstep => h.harmsNobody hs hstep

/-! A creation for a peer that was there joins one that fails. -/

def failsBesideAnother : Fin 3 → Request
  | 0 => .getOrCreateRoom "r"
  | 1 => .createTransport "r" "a" .send
  | 2 => .createTransport "r" "a" .recv

def failsBesideAnotherSchedule (create send recv : Ref) : List (Ref × Bool) :=
  [(create, true), (create, true), (send, true), (recv, true), (recv, true)]

/-- Call 2 has returned its transport; the failure of call 1 closes it. -/
theorem not_harmsNobody_failsBesideAnother :
    ¬ service.Meets HarmsNobody (Process.spawned [0] failsBesideAnother)
      (failsBesideAnotherSchedule 0 1 2 ++ [(1, false)]) := by
  intro h
  generalize hp : service.run (Process.spawned [0] failsBesideAnother)
    (failsBesideAnotherSchedule 0 1 2) = p at *
  have hlast : HarmsNobody p (1, false) := by
    subst hp
    exact h.last (by decide)
  have hproc : p.proc 2 = .createTransport "r" "a" .recv (.returned 2) := by
    subst hp
    decide
  have htrack : OnTrack p 2 := by
    refine .of_returned (r := 0) hproc ?_ ?_
    · subst hp
      decide
    · subst hp
      decide
  have hquiet : (p.proc 1).removing p.world = none ∧ (p.proc 1).closing false p.world = none ∧
      (p.proc 1).resolving false = none := by
    subst hp
    decide
  have hafter := hlast.stays 2 htrack (by decide) (by
    rintro ⟨r, peerId, direction, -, hremoving | hclosing | ⟨-, hresolving⟩⟩
    · exact nomatch hquiet.1.symm.trans hremoving
    · exact nomatch hquiet.2.1.symm.trans hclosing
    · exact nomatch hquiet.2.2.symm.trans hresolving)
  have hclosed : (service.next p (1, false)).world.transportOpen 2 = false ∧
      (service.next p (1, false)).proc 2 = .createTransport "r" "a" .recv (.returned 2) := by
    subst hp
    decide
  simp [OnTrack, hclosed] at hafter

end MeetServer.Sfu
