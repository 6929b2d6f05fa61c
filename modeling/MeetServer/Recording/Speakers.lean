import MeetServer.Recording.SessionFiles
import MeetServer.Recording.FailedStarts
import MeetServer.Sfu.Evolution

/-!
# Peers and their names

Which steps leave a peer object in its place in a room, and which leave its
display name alone: it leaves only where it is removed, and only
`startRoomRecording` names it.
-/

namespace MeetServer.Sfu

open MeetServer.Foundation

variable {Ref : Type}

/-- The object of the peer that is stored under the id. -/
def State.objectAt (s : State Ref) (r : Ref) (peerId : PeerId) : Option Ref :=
  ((s.room r).getPeer peerId).map MediaPeer.object

theorem State.objectAt_eq_some_iff {s : State Ref} {r object : Ref} {peerId : PeerId} :
    s.objectAt r peerId = some object ↔
      ∃ peer, (s.room r).getPeer peerId = some peer ∧ peer.object = object :=
  Option.map_eq_some_iff

theorem State.objectAt_of_unnamed {s s' : State Ref} {r : Ref} {peerId : PeerId}
    (h : ((s'.room r).getPeer peerId).map MediaPeer.unnamed =
      ((s.room r).getPeer peerId).map MediaPeer.unnamed) :
    s'.objectAt r peerId = s.objectAt r peerId := by
  have hobject := congrArg (Option.map MediaPeer.object) h
  simpa [Option.map_map, Function.comp_def, MediaPeer.unnamed, objectAt] using hobject

variable [DecidableEq Ref] {s s' : State Ref} {i r object : Ref} {peerId : PeerId}

theorem State.objectAt_setRoom {room : MediaRoom Ref} (v : Ref) (q : PeerId) :
    (s.setRoom r room).objectAt v q =
      if v = r then (room.getPeer q).map MediaPeer.object else s.objectAt v q := by
  unfold objectAt
  split
  · next heq => rw [heq, room_setRoom]
  · next hne => simp [setRoom, hne]

theorem State.objectAt_removePeerOf {v : Ref} {q : PeerId}
    (hat : s.objectAt r peerId = some object)
    (hgone : ∀ peer, (s.room v).getPeer q = some peer → peer.object ≠ object) :
    (s.removePeerOf v q).objectAt r peerId = some object := by
  obtain ⟨peer, hpeer, rfl⟩ := objectAt_eq_some_iff.1 hat
  refine objectAt_eq_some_iff.2 ⟨peer, ?_, rfl⟩
  rw [room_removePeerOf]
  by_cases hv : r = v
  · subst hv
    rw [Function.update_self, MediaRoom.getPeer_deletePeer, if_neg, hpeer]
    rintro rfl
    exact hgone peer hpeer rfl
  · rw [Function.update_of_ne hv, hpeer]

theorem CreateTransport.Step.objectAt {roomId : RoomId} {q : PeerId}
    {direction : TransportDirection} {ok : Bool} {point point' : CreateTransport Ref}
    (hkeyed : s.Keyed) (h : CreateTransport.Step i roomId q direction s ok point s' point')
    (hat : s.objectAt r peerId = some object)
    (hstays : Recording.removing ok s (.createTransport roomId q direction point) ≠ some object) :
    s'.objectAt r peerId = some object := by
  obtain ⟨peer, hpeer, rfl⟩ := State.objectAt_eq_some_iff.1 hat
  cases h with
  | noRoom | overtaken | failed => exact hat
  | @entered _ v hv =>
      rw [State.objectAt_setRoom]
      split
      · next heq =>
        subst heq
        rw [MediaRoom.getPeer_getOrCreatePeer]
        split
        · next heq =>
          subst heq
          simp [MediaRoom.getOrCreatePeer, hpeer]
        · rw [hpeer]
          rfl
      · exact hat
  | @assigned v _ other _ hother =>
      rw [State.objectAt_setRoom]
      split
      · next heq =>
        subst heq
        rw [MediaRoom.getPeer_setPeer, MediaPeer.id_setTransport, hkeyed r q other hother]
        split
        · next heq =>
          subst heq
          obtain rfl := Option.some.inj (hother.symm.trans hpeer)
          cases direction <;> rfl
        · rw [hpeer]
          rfl
      · exact hat
  | @undone v held =>
      refine State.objectAt_removePeerOf hat fun gone hgone heq => hstays ?_
      simp [Recording.removing, hgone, heq]

/-- A peer object leaves its place only where it is removed. -/
theorem Call.objectAt_step {ok : Bool} {c c' : Call Ref} (hkeyed : s.Keyed)
    (hcreates : ∀ roomId point, c ≠ .getOrCreateRoom roomId point)
    (h : c.step i ok s = some (s', c')) (hat : s.objectAt r peerId = some object)
    (hstays : Recording.removing ok s c ≠ some object) :
    s'.objectAt r peerId = some object := by
  cases c with
  | getOrCreateRoom roomId point => exact (hcreates roomId point rfl).elim
  | createTransport roomId q direction point =>
      obtain ⟨point', -, hstep⟩ := Call.createTransport_cases h
      exact hstep.objectAt hkeyed hat hstays
  | removePeer roomId q done =>
      cases done <;> cases h
      unfold State.removePeer
      split
      · exact hat
      · next v hv =>
        refine State.objectAt_removePeerOf hat fun gone hgone heq => hstays ?_
        simp [Recording.removing, hv, hgone, heq]
  | startRecording | stopRecording | closeRoom =>
      have hpeers := (Call.step_forRoom hkeyed h rfl).2
      rwa [State.objectAt_of_unnamed (hpeers r peerId)]

theorem State.objectAt_updatePeer {held : Ref} {q : PeerId} {f : MediaPeer Ref → MediaPeer Ref}
    (hkeyed : s.Keyed) (hid : ∀ peer, (f peer).id = peer.id)
    (hobject : ∀ peer, (f peer).object = peer.object) (v : Ref) :
    (s.updatePeer r q held f).objectAt v peerId = s.objectAt v peerId := by
  rw [objectAt, getPeer_updatePeer hkeyed hid, Option.map_map]
  refine congrArg (Option.map · _) (funext fun peer => ?_)
  simp only [Function.comp_apply]
  split
  · exact hobject peer
  · rfl

theorem Produce.objectAt_step {ok : Bool} {roomId : RoomId} {q : PeerId} {transportId : Ref}
    {kind : MediaKind} {point point' : Produce Ref} (hkeyed : s.Keyed)
    (h : point.step i roomId q transportId kind ok s = some (s', point')) :
    s'.objectAt r peerId = s.objectAt r peerId := by
  obtain rfl | ⟨v, held, transport, rfl⟩ := (step_cases h).2.2
  · rfl
  · exact State.objectAt_updatePeer (f := fun peer => peer.addProducer i { kind, transport })
      hkeyed (fun _ => rfl) (fun _ => rfl) r

theorem Produce.rooms_step {ok : Bool} {roomId : RoomId} {q : PeerId} {transportId : Ref}
    {kind : MediaKind} {point point' : Produce Ref}
    (h : point.step i roomId q transportId kind ok s = some (s', point')) :
    s'.rooms = s.rooms := by
  obtain rfl | ⟨v, held, transport, rfl⟩ := (step_cases h).2.2
  · rfl
  · exact State.frame_updatePeer.rooms

/-- The first step of a `produce` call finds a peer of its room, or the call throws. -/
theorem Produce.step_call {ok : Bool} {roomId : RoomId} {q : PeerId} {transportId : Ref}
    {kind : MediaKind} {point' : Produce Ref}
    (h : Produce.call.step i roomId q transportId kind ok s = some (s', point')) :
    s' = s ∧ (point' = .threw ∨ ∃ v held, s.rooms.lookup roomId = some v ∧
      s.objectAt v q = some held ∧ point' = .transportProduce v held transportId) := by
  simp only [step] at h
  split at h
  · cases h
    exact ⟨rfl, .inl rfl⟩
  · next v hv =>
    split at h
    · cases h
      exact ⟨rfl, .inl rfl⟩
    · next peer hpeer =>
      split at h <;> cases h
      · have hat := State.objectAt_eq_some_iff.2 ⟨peer, hpeer, rfl⟩
        exact ⟨rfl, .inr ⟨v, peer.object, hv, hat, rfl⟩⟩
      · exact ⟨rfl, .inl rfl⟩

end MeetServer.Sfu

namespace MeetServer.Recording

open MeetServer.Foundation

variable {Ref δ : Type}

/-! ## The names of the peers -/

/-- The name that a peer is recorded under. -/
def State.speakerName (s : State Ref δ) (object : Ref) (peerId : PeerId) : String :=
  (s.peer object).displayName.getD peerId

/-- No peer gets another name. -/
def State.SameNames (s s' : State Ref δ) : Prop :=
  ∀ object, (s'.peer object).displayName = (s.peer object).displayName

/-- A peer of the room bears the name. -/
def State.Bears (s : State Ref δ) (r : Ref) (name : String) : Prop :=
  ∃ peer ∈ Dict.values (s.sfu.room r).peers, s.speakerName peer.object peer.id = name

theorem State.mem_participants_iff {s : State Ref δ} {r : Ref} {name : String} :
    name ∈ s.participants r ↔ s.Bears r name := by
  simp only [participants, List.mem_map, Bears, speakerName]

instance (s : State Ref δ) (r : Ref) (name : String) : Decidable (s.Bears r name) :=
  decidable_of_iff _ State.mem_participants_iff

theorem State.bears_of_objectAt {s : State Ref δ} (hkeyed : s.sfu.Keyed) {r object : Ref}
    {peerId : PeerId} (hat : s.sfu.objectAt r peerId = some object) :
    s.Bears r (s.speakerName object peerId) := by
  obtain ⟨peer, hpeer, rfl⟩ := Sfu.State.objectAt_eq_some_iff.1 hat
  have hid := hkeyed r peerId peer hpeer
  exact ⟨peer, Dict.mem_values_iff.2 ⟨peerId, hpeer⟩, by rw [hid]⟩

namespace State.SameNames

variable {s s' s'' : State Ref δ}

theorem trans (h : s.SameNames s') (h' : s'.SameNames s'') : s.SameNames s'' :=
  fun object => (h' object).trans (h object)

theorem speakerName (h : s.SameNames s') (object : Ref) (peerId : PeerId) :
    s'.speakerName object peerId = s.speakerName object peerId := by
  rw [State.speakerName, h object, State.speakerName]

theorem participants (h : s.SameNames s') (hsfu : s'.sfu = s.sfu) (r : Ref) :
    s'.participants r = s.participants r := by
  unfold State.participants
  simp only [hsfu, h _]

variable [DecidableEq Ref]

theorem updatePeer (s : State Ref δ) (object : Ref) {f : TappedPeer Ref → TappedPeer Ref}
    (hf : ∀ peer, (f peer).displayName = peer.displayName) :
    s.SameNames (s.updatePeer object f) := by
  intro other
  by_cases heq : other = object
  · subst heq
    rw [State.peer_updatePeer_self, hf]
  · rw [State.peer_updatePeer_of_ne _ _ heq]

theorem closeRecordingSession (s : State Ref δ) (t : TapId Ref) :
    s.SameNames (s.closeRecordingSession t).1 := by
  intro object
  rw [(s.closeRecordingSession_frame t).2]

theorem stopPeerRecording (s : State Ref δ) (object : Ref) :
    s.SameNames (s.stopPeerRecording object).1 := by
  have hclosed : s.SameNames (s.closeTap object) := by
    intro other
    rw [(s.closeTap_frame object).2]
    by_cases heq : other = object
    · subst heq
      rw [Function.update_self]
    · rw [Function.update_of_ne heq]
  unfold State.stopPeerRecording
  split
  · exact hclosed
  · exact hclosed.trans (closeRecordingSession _ _)

theorem tapStep {env : Env δ} {t : TapId Ref} {tap : Tap Ref δ} {ok : Bool}
    (h : TapStep env s t tap ok s') : s.SameNames s' := by
  cases h with
  | passed | named | opened | headed | bound | connected => exact fun _ => rfl
  | created | consumed | started => exact updatePeer _ t.2 fun _ => rfl
  | notConsumed =>
      exact updatePeer ((s.closePlainTransport t).setPoint t .returned) t.2 fun _ => rfl
  | notConnected => exact stopPeerRecording s t.2

end State.SameNames

variable [DecidableEq Ref]

/-- Only a call gives a peer another name. -/
theorem Process.Step.sameNames {env : Env δ} {p p' : Process Ref δ} {a : Happening Ref}
    (h : Process.Step env p a p') (hcall : ∀ i ok, a ≠ .call i ok) :
    p.world.SameNames p'.world := by
  cases h with
  | call => exact (hcall _ _ rfl).elim
  | tap _ hstep => exact .tapStep hstep
  | message hs =>
      obtain ⟨tap, session, handle, -, -, -, rfl⟩ := State.message_cases hs
      exact fun _ => rfl
  | written hs =>
      obtain ⟨tap, handle, chunk, -, -, -, rfl⟩ := State.written_cases hs
      exact fun _ => rfl
  | close hs =>
      obtain ⟨tap, session, handle, -, -, -, hstep⟩ := State.closeStep_cases hs
      cases hstep <;> exact fun _ => rfl
  | @producerclose t _ hs =>
      unfold State.producerclose at hs
      split at hs <;> cases hs
      exact .stopPeerRecording (p.world.closeConsumer t) t.2
  | @socketError t _ hs =>
      unfold State.socketError at hs
      split at hs <;> cases hs
      exact .closeRecordingSession p.world t

end MeetServer.Recording
