import MeetServer.Sfu.OpenProducers
import MeetServer.Sfu.Steps
import MeetServer.Recording.Service

/-!
# The peer objects of a recording room

Which peer objects stay in a room that is being recorded when a call of
`MediaRoomsService` goes on.
-/

namespace MeetServer.Sfu

open MeetServer.Foundation

variable {Ref : Type}

namespace MediaRoom

/-- Peers are stored under their ids. -/
def Keyed (room : MediaRoom Ref) : Prop :=
  ∀ peerId peer, room.getPeer peerId = some peer → peer.id = peerId

theorem keyed_iff {room : MediaRoom Ref} :
    room.Keyed ↔ ∀ entry ∈ room.peers.entries, entry.2.id = entry.1 :=
  ⟨fun h entry hentry => h entry.1 entry.2 (Dict.mem_entries_iff.1 hentry),
    fun h peerId peer hpeer => h ⟨peerId, peer⟩ (Dict.mem_entries_iff.2 hpeer)⟩

/-- The peer object is in `room.peers`. -/
def HasObject (room : MediaRoom Ref) (object : Ref) : Prop :=
  ∃ peer ∈ Dict.values room.peers, peer.object = object

instance [DecidableEq Ref] (room : MediaRoom Ref) (object : Ref) :
    Decidable (room.HasObject object) :=
  inferInstanceAs (Decidable (∃ peer ∈ _, _))

theorem hasObject_iff {room : MediaRoom Ref} {object : Ref} :
    room.HasObject object ↔
      ∃ peerId peer, room.getPeer peerId = some peer ∧ peer.object = object := by
  simp only [HasObject, Dict.mem_values_iff, MediaRoom.getPeer]
  constructor
  · rintro ⟨peer, ⟨peerId, hpeer⟩, hobject⟩
    exact ⟨peerId, peer, hpeer, hobject⟩
  · rintro ⟨peerId, peer, hpeer, hobject⟩
    exact ⟨peer, ⟨peerId, hpeer⟩, hobject⟩

/-- Peers may be added and may change, but none is replaced. -/
structure Keeps (room room' : MediaRoom Ref) : Prop where
  recording : room'.recording = room.recording
  keyed : room.Keyed → room'.Keyed
  hasObject : room.Keyed → ∀ object, room.HasObject object → room'.HasObject object

theorem Keeps.refl (room : MediaRoom Ref) : room.Keeps room :=
  ⟨rfl, fun h => h, fun _ _ h => h⟩

theorem Keeps.trans {room room' room'' : MediaRoom Ref} (h : room.Keeps room')
    (h' : room'.Keeps room'') : room.Keeps room'' :=
  ⟨h'.recording.trans h.recording, fun hkeyed => h'.keyed (h.keyed hkeyed),
    fun hkeyed object hobject =>
      h'.hasObject (h.keyed hkeyed) object (h.hasObject hkeyed object hobject)⟩

theorem Keeps.setPeer (room : MediaRoom Ref) (peer : MediaPeer Ref)
    (hpeer : room.Keyed → ∀ old, room.getPeer peer.id = some old →
      old.object = peer.object) : room.Keeps (room.setPeer peer) := by
  refine ⟨rfl, fun hkeyed peerId found hfound => ?_, fun hkeyed object hobject => ?_⟩
  · rw [getPeer_setPeer] at hfound
    split at hfound
    · next heq =>
      obtain rfl := Option.some.inj hfound
      exact heq.symm
    · exact hkeyed peerId found hfound
  · obtain ⟨peerId, old, hold, rfl⟩ := hasObject_iff.1 hobject
    rw [hasObject_iff]
    by_cases heq : peerId = peer.id
    · subst heq
      exact ⟨peer.id, peer, by rw [getPeer_setPeer, if_pos rfl],
        (hpeer hkeyed old hold).symm⟩
    · exact ⟨peerId, old, by rw [getPeer_setPeer, if_neg heq, hold], rfl⟩

theorem Keeps.changePeer (room : MediaRoom Ref) {peerId : PeerId}
    {peer peer' : MediaPeer Ref} (hpeer : room.getPeer peerId = some peer)
    (hid : peer'.id = peer.id) (hobject : peer'.object = peer.object) :
    room.Keeps (room.setPeer peer') := by
  refine .setPeer room peer' fun hkeyed old hold => ?_
  rw [hid, hkeyed peerId peer hpeer, hpeer] at hold
  obtain rfl := Option.some.inj hold
  exact hobject.symm

theorem Keeps.getOrCreatePeer (room : MediaRoom Ref) (peerId : PeerId) (object : Ref) :
    room.Keeps (room.getOrCreatePeer peerId object).1 := by
  unfold MediaRoom.getOrCreatePeer
  split
  · exact .refl room
  · next hnone =>
    refine .setPeer room _ fun _ old hold => ?_
    cases hnone.symm.trans hold

theorem Keeps.setDisplayNames (room : MediaRoom Ref) (peers : List (PeerId × String)) :
    room.Keeps (room.setDisplayNames peers) := by
  unfold MediaRoom.setDisplayNames
  induction peers generalizing room with
  | nil => exact .refl room
  | cons named peers ih =>
      refine trans ?_ (ih _)
      dsimp only
      split
      · exact .refl room
      · next peer hpeer => exact .changePeer room hpeer rfl rfl

end MediaRoom

namespace State

def Keyed (s : State Ref) : Prop := ∀ r, (s.room r).Keyed

/-- The room is recording, and the peer object is in it. -/
def RecordsPeer (s : State Ref) (r object : Ref) : Prop :=
  (s.room r).recording = true ∧ (s.room r).HasObject object

instance [DecidableEq Ref] (s : State Ref) (r object : Ref) :
    Decidable (s.RecordsPeer r object) :=
  inferInstanceAs (Decidable (_ ∧ _))

/-- Peers stay in their room unless their object is `gone`, and rooms that are
recording go on unless they `stop`. -/
structure KeepsPeers (gone stops : Ref → Prop) (s s' : State Ref) : Prop where
  routerOpen : s'.routerOpen = s.routerOpen
  recording : ∀ r, (s.room r).recording = true → ¬ stops r → (s'.room r).recording = true
  keyed : s.Keyed → s'.Keyed
  hasObject : s.Keyed → ∀ r object, (s.room r).HasObject object → ¬ gone object →
    (s'.room r).HasObject object

namespace KeepsPeers

variable {gone stops : Ref → Prop} {s s' s'' : State Ref}

theorem recordsPeer (h : KeepsPeers gone stops s s') (hkeyed : s.Keyed) {r object : Ref}
    (hrecords : s.RecordsPeer r object) (hgone : ¬ gone object) (hstops : ¬ stops r) :
    s'.RecordsPeer r object := by
  obtain ⟨hrecording, hobject⟩ := hrecords
  exact ⟨h.recording r hrecording hstops, h.hasObject hkeyed r object hobject hgone⟩

theorem of_room (hroom : s'.room = s.room) (hrouter : s'.routerOpen = s.routerOpen) :
    KeepsPeers gone stops s s' := by
  refine ⟨hrouter, ?_, ?_, ?_⟩
  · rw [hroom]
    exact fun _ h _ => h
  · rw [Keyed, Keyed, hroom]
    exact fun h => h
  · rw [hroom]
    exact fun _ _ _ h _ => h

theorem refl (s : State Ref) : KeepsPeers gone stops s s := of_room rfl rfl

theorem trans (h : KeepsPeers gone stops s s') (h' : KeepsPeers gone stops s' s'') :
    KeepsPeers gone stops s s'' where
  routerOpen := h'.routerOpen.trans h.routerOpen
  recording r hrecording hstops :=
    h'.recording r (h.recording r hrecording hstops) hstops
  keyed hkeyed := h'.keyed (h.keyed hkeyed)
  hasObject hkeyed r object hobject hgone :=
    h'.hasObject (h.keyed hkeyed) r object (h.hasObject hkeyed r object hobject hgone) hgone

variable [DecidableEq Ref]

theorem of_update {r : Ref} {room : MediaRoom Ref} (hrouter : s'.routerOpen = s.routerOpen)
    (hroom : s'.room = Function.update s.room r room)
    (hrecording : (s.room r).recording = true → ¬ stops r → room.recording = true)
    (hkeyed : (s.room r).Keyed → room.Keyed)
    (hobject : (s.room r).Keyed → ∀ object, (s.room r).HasObject object → ¬ gone object →
      room.HasObject object) : KeepsPeers gone stops s s' := by
  have hself : s'.room r = room := by rw [hroom, Function.update_self]
  have hother {v : Ref} (hv : v ≠ r) : s'.room v = s.room v := by
    rw [hroom, Function.update_of_ne hv]
  refine ⟨hrouter, fun v => ?_, fun hold v => ?_, fun hold v => ?_⟩
  · by_cases hv : v = r
    · subst hv
      rwa [hself]
    · rw [hother hv]
      exact fun h _ => h
  · by_cases hv : v = r
    · subst hv
      rw [hself]
      exact hkeyed (hold v)
    · rw [hother hv]
      exact hold v
  · by_cases hv : v = r
    · subst hv
      rw [hself]
      exact hobject (hold v)
    · rw [hother hv]
      exact fun _ h _ => h

theorem setRoom (s : State Ref) {r : Ref} {room : MediaRoom Ref}
    (h : (s.room r).Keeps room) : KeepsPeers gone stops s (s.setRoom r room) :=
  of_update rfl rfl (fun hrecording _ => h.recording.trans hrecording) h.keyed
    fun hkeyed object hobject _ => h.hasObject hkeyed object hobject

theorem setRecording (s : State Ref) (r : Ref) (recording : Bool)
    (hstops : recording = false → stops r) :
    KeepsPeers gone stops s (s.setRecording r recording) := by
  refine of_update rfl rfl (fun _ hr => ?_) (fun h => h) fun _ _ h _ => h
  exact Bool.eq_true_of_not_eq_false fun hfalse => hr (hstops hfalse)

theorem removePeerOf (s : State Ref) (r : Ref) (peerId : PeerId)
    (hgone : ∀ peer, (s.room r).getPeer peerId = some peer → gone peer.object) :
    KeepsPeers gone stops s (s.removePeerOf r peerId) := by
  refine of_update (s.routerOpen_removePeerOf r peerId) (s.room_removePeerOf r peerId)
    (fun h _ => h) (fun hkeyed peerId' peer hpeer => ?_) fun _ object hobject hne => ?_
  · rw [MediaRoom.getPeer_deletePeer] at hpeer
    split at hpeer
    · cases hpeer
    · exact hkeyed peerId' peer hpeer
  · obtain ⟨peerId', peer, hpeer, rfl⟩ := MediaRoom.hasObject_iff.1 hobject
    refine MediaRoom.hasObject_iff.2 ⟨peerId', peer, ?_, rfl⟩
    rw [MediaRoom.getPeer_deletePeer, if_neg, hpeer]
    rintro rfl
    exact hne (hgone peer hpeer)

end KeepsPeers

end State

/-! ## The calls -/

/-- The calls that work on a room: none of them creates or closes one. -/
def Call.onRoom : Call Ref → Bool
  | .getOrCreateRoom _ _ | .closeRoom _ _ => false
  | _ => true

variable [DecidableEq Ref] {s s' : State Ref}

theorem keepsPeers_assignTransport {gone stops : Ref → Prop} (s : State Ref) (i : Ref)
    (peerId : PeerId) (direction : TransportDirection) (r object : Ref) :
    State.KeepsPeers gone stops s (assignTransport i peerId direction r object s).1 := by
  unfold assignTransport
  split
  · exact .of_room rfl rfl
  · next peer hpeer =>
    split
    · have hclosed : State.KeepsPeers gone stops s
          (s.closeTransport (peer.transportFor direction)) := .of_room rfl rfl
      refine hclosed.trans (.setRoom _ ?_)
      exact .changePeer (s.room r) hpeer (peer.id_setTransport i direction)
        (by cases direction <;> rfl)
    · exact .of_room rfl rfl

theorem CreateTransport.step_keepsPeers {i : Ref} {ok : Bool} {roomId : RoomId}
    {peerId : PeerId} {direction : TransportDirection} {stops : Ref → Prop}
    {point point' : CreateTransport Ref}
    (h : point.step i roomId peerId direction ok s = some (s', point')) :
    State.KeepsPeers (fun object => Recording.removing ok s
      (.createTransport roomId peerId direction point) = some object) stops s s' := by
  cases point with
  | call =>
      simp only [step] at h
      split at h <;> cases h
      · exact .refl s
      · exact .setRoom s (.getOrCreatePeer _ peerId i)
  | createWebRtcTransport r object peerExisted =>
      simp only [step] at h
      split at h
      · split at h
        case isFalse => cases h
        obtain rfl := congrArg Prod.fst (Option.some.inj h)
        have hopened : State.KeepsPeers (fun object' => Recording.removing ok s
            (.createTransport roomId peerId direction
              (.createWebRtcTransport r object peerExisted)) = some object') stops s
            (s.openTransport i r) := .of_room rfl rfl
        exact hopened.trans (keepsPeers_assignTransport _ i peerId direction r object)
      · next hok =>
        cases peerExisted <;> cases h
        · refine .removePeerOf s r peerId fun peer hpeer => ?_
          simp [Recording.removing, hok, hpeer]
        · exact .refl s
  | returned => cases h
  | threw => cases h

/-- A peer object leaves a recording room only when it is removed or when the
recording stops. -/
theorem Call.step_keepsPeers {i : Ref} {ok : Bool} {c c' : Call Ref} (hroom : c.onRoom)
    (h : c.step i ok s = some (s', c')) :
    State.KeepsPeers (fun object => Recording.removing ok s c = some object)
      (fun r => ∃ roomId, c' = .stopRecording roomId (.files r)) s s' := by
  cases c with
  | getOrCreateRoom roomId point => cases hroom
  | createTransport roomId peerId direction point =>
      obtain ⟨⟨s', point'⟩, hstep, hr⟩ := Option.map_eq_some_iff.1 h
      cases hr
      exact CreateTransport.step_keepsPeers hstep
  | removePeer roomId peerId done =>
      cases done <;> cases h
      unfold State.removePeer
      split
      · exact .refl s
      · next r hr =>
        refine .removePeerOf s r peerId fun peer hpeer => ?_
        simp [Recording.removing, hr, hpeer]
  | startRecording roomId peers point =>
      obtain ⟨⟨s', point'⟩, hstep, hr⟩ := Option.map_eq_some_iff.1 h
      cases hr
      cases point with
      | call =>
          simp only [startRecordingStep] at hstep
          split at hstep <;> cases hstep
          · exact .refl s
          · next r hr =>
            have hstarted : State.KeepsPeers
                (fun object => Recording.removing ok s
                  (.startRecording roomId peers .call) = some object)
                (fun v => ∃ roomId', Call.startRecording roomId peers (.files r) =
                  .stopRecording roomId' (.files v)) s (s.setRecording r true) :=
              .setRecording s r true (by rintro ⟨⟩)
            exact hstarted.trans (.setRoom _ (.setDisplayNames _ peers))
      | files r => cases hstep; exact .refl s
      | returned => cases hstep
      | threw => cases hstep
  | stopRecording roomId point =>
      obtain ⟨⟨s', point'⟩, hstep, hr⟩ := Option.map_eq_some_iff.1 h
      cases hr
      cases point with
      | call =>
          simp only [stopRecordingStep] at hstep
          split at hstep <;> cases hstep
          · exact .refl s
          · exact .setRecording s _ false fun _ => ⟨roomId, rfl⟩
      | files r => cases hstep; exact .refl s
      | returned => cases hstep
      | threw => cases hstep
  | closeRoom roomId point => cases hroom

theorem Call.step_onRoom {i : Ref} {ok : Bool} {c c' : Call Ref} (hroom : c.onRoom)
    (h : c.step i ok s = some (s', c')) : c'.onRoom := by
  cases c with
  | removePeer roomId peerId done =>
      cases done <;> cases h
      rfl
  | getOrCreateRoom | closeRoom => cases hroom
  | createTransport | startRecording | stopRecording =>
      obtain ⟨r, -, hr⟩ := Option.map_eq_some_iff.1 h
      cases hr
      rfl

theorem Produce.step_keepsPeers {i : Ref} {ok : Bool} {roomId : RoomId}
    {peerId : PeerId} {transportId : Ref} {kind : MediaKind} {gone stops : Ref → Prop}
    {point point' : Produce Ref}
    (h : point.step i roomId peerId transportId kind ok s = some (s', point')) :
    State.KeepsPeers gone stops s s' := by
  cases point with
  | call =>
      simp only [step] at h
      split at h
      · cases h
        exact .refl s
      · split at h
        · cases h
          exact .refl s
        · split at h <;> cases h <;> exact .refl s
  | transportProduce r object transport =>
      simp only [step] at h
      split at h
      · split at h <;> cases h
        unfold State.updatePeer
        split
        · exact .refl s
        · next peer hpeer =>
          split
          · exact .setRoom s (.changePeer _ hpeer rfl rfl)
          · exact .refl s
      · cases h
        exact .refl s
  | tapProducer producer =>
      cases h
      exact .refl s
  | returned => cases h
  | threw => cases h

omit [DecidableEq Ref] in
theorem State.Keyed.of_peers (h : s.Keyed)
    (hpeers : ∀ v, (s'.room v).peers = (s.room v).peers ∨ (s'.room v).peers = ∅) :
    s'.Keyed := by
  intro v peerId peer hpeer
  rw [MediaRoom.getPeer] at hpeer
  rcases hpeers v with hsame | hempty
  · rw [hsame] at hpeer
    exact h v peerId peer hpeer
  · rw [hempty] at hpeer
    cases hpeer

/-- A call that creates or closes a room changes no peer; a new room has none. -/
theorem Call.peers_of_not_onRoom {i : Ref} {ok : Bool} {c c' : Call Ref} (hroom : ¬ c.onRoom)
    (h : c.step i ok s = some (s', c')) (v : Ref) :
    (s'.room v).peers = (s.room v).peers ∨ (s'.room v).peers = ∅ := by
  cases Call.step_cases h with
  | «local» hlocal => cases c <;> first | exact hlocal.elim | exact (hroom rfl).elim
  | created =>
      by_cases hv : v = i
      · subst hv
        exact .inr (by simp [State.addRoom, State.settleCreation])
      · exact .inl (by simp [State.addRoom, State.settleCreation, hv])
  | closeSuspended => exact .inl (s.peers_setRecording _ v false)
  | _ => exact .inl rfl

theorem State.Keyed.step {i : Ref} {ok : Bool} {c c' : Call Ref} (hkeyed : s.Keyed)
    (h : c.step i ok s = some (s', c')) : s'.Keyed := by
  by_cases hroom : c.onRoom
  · exact (Call.step_keepsPeers hroom h).keyed hkeyed
  · exact hkeyed.of_peers (Call.peers_of_not_onRoom hroom h)

/-- The sfu stores peers under their ids in every run. -/
theorem keyed_of_reachable {workers : List Worker} {requests : Ref → Request}
    {p : Process Ref} (h : service.Reachable (Process.spawned workers requests) p) :
    p.world.Keyed := by
  refine h.invariant (I := fun p => p.world.Keyed) ?_ fun v peerId peer => nofun
  rintro p ⟨i, ok⟩ p' hkeyed - hstep
  obtain ⟨s', c', hcall, rfl⟩ := Pool.step_eq_some.1 hstep
  exact hkeyed.step hcall

end MeetServer.Sfu
