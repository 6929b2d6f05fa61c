import MeetServer.Sfu.MediaRooms

/-!
# What a step of the service does

`step_cases` says once what a step can do to the maps, the worker loads and the
routers.  The calls for peers and recordings stay within one room object: they
fall under `Frame`.
-/

namespace MeetServer.Sfu

open MeetServer.Foundation

variable {Ref : Type}

/-- `s'` differs from `s` in transports and inside room objects only. -/
structure Frame (s s' : State Ref) : Prop where
  rooms : s'.rooms = s.rooms
  pendingRooms : s'.pendingRooms = s.pendingRooms
  creation : s'.creation = s.creation
  workerPool : s'.workerPool = s.workerPool
  routerOpen : s'.routerOpen = s.routerOpen
  id : ∀ r, (s'.room r).id = (s.room r).id
  worker : ∀ r, (s'.room r).worker = (s.room r).worker

namespace Frame

theorem refl (s : State Ref) : Frame s s :=
  ⟨rfl, rfl, rfl, rfl, rfl, fun _ => rfl, fun _ => rfl⟩

theorem trans {s s' s'' : State Ref} (h : Frame s s') (h' : Frame s' s'') :
    Frame s s'' where
  rooms := h'.rooms.trans h.rooms
  pendingRooms := h'.pendingRooms.trans h.pendingRooms
  creation := h'.creation.trans h.creation
  workerPool := h'.workerPool.trans h.workerPool
  routerOpen := h'.routerOpen.trans h.routerOpen
  id r := (h'.id r).trans (h.id r)
  worker r := (h'.worker r).trans (h.worker r)

theorem setDisplayNames (room : MediaRoom Ref) (peers : List (PeerId × String)) :
    (room.setDisplayNames peers).id = room.id ∧
      (room.setDisplayNames peers).worker = room.worker := by
  induction peers generalizing room with
  | nil => exact ⟨rfl, rfl⟩
  | cons named peers ih =>
      unfold MediaRoom.setDisplayNames at ih ⊢
      simp only [List.foldl_cons]
      split
      · exact ih room
      · exact ih _

theorem getOrCreatePeer (room : MediaRoom Ref) (peerId : PeerId) (object : Ref) :
    (room.getOrCreatePeer peerId object).1.id = room.id ∧
      (room.getOrCreatePeer peerId object).1.worker = room.worker := by
  unfold MediaRoom.getOrCreatePeer
  split <;> exact ⟨rfl, rfl⟩

variable [DecidableEq Ref]

theorem setRoom (s : State Ref) (r : Ref) (room : MediaRoom Ref)
    (hid : room.id = (s.room r).id) (hworker : room.worker = (s.room r).worker) :
    Frame s (s.setRoom r room) := by
  refine ⟨rfl, rfl, rfl, rfl, rfl, fun v => ?_, fun v => ?_⟩ <;>
    by_cases h : v = r <;> simp [State.setRoom, Function.update, h, hid, hworker]

theorem closeTransport (s : State Ref) (t : Option Ref) :
    Frame s (s.closeTransport t) :=
  ⟨rfl, rfl, rfl, rfl, rfl, fun _ => rfl, fun _ => rfl⟩

theorem openTransport (s : State Ref) (i r : Ref) :
    Frame s (s.openTransport i r) :=
  ⟨rfl, rfl, rfl, rfl, rfl, fun _ => rfl, fun _ => rfl⟩

theorem setRecording (s : State Ref) (r : Ref) (recording : Bool) :
    Frame s (s.setRecording r recording) :=
  setRoom s r _ rfl rfl

theorem removePeerOf (s : State Ref) (r : Ref) (peerId : PeerId) :
    Frame s (s.removePeerOf r peerId) := by
  unfold State.removePeerOf
  split
  · exact refl s
  · exact ((closeTransport s _).trans (closeTransport _ _)).trans
      (setRoom _ r _ rfl rfl)

theorem removePeer (s : State Ref) (roomId : RoomId) (peerId : PeerId) :
    Frame s (s.removePeer roomId peerId) := by
  unfold State.removePeer
  split
  · exact refl s
  · exact removePeerOf s _ peerId

theorem assignTransport (i : Ref) (peerId : PeerId)
    (direction : TransportDirection) (r object : Ref) (s : State Ref) :
    Frame s (assignTransport i peerId direction r object s).1 := by
  unfold Sfu.assignTransport
  split
  · exact closeTransport s (some i)
  · split
    · exact (closeTransport s _).trans (setRoom _ r _ rfl rfl)
    · exact closeTransport s (some i)

end Frame

variable [DecidableEq Ref]

theorem CreateTransport.step_frame {i : Ref} {roomId : RoomId} {peerId : PeerId}
    {direction : TransportDirection} {ok : Bool} {s s' : State Ref}
    {point point' : CreateTransport Ref}
    (h : point.step i roomId peerId direction ok s = some (s', point')) :
    Frame s s' := by
  cases point with
  | call =>
      simp only [step] at h
      split at h
      · cases h
        exact .refl s
      · cases h
        exact .setRoom s _ _ (Frame.getOrCreatePeer _ _ _).1
          (Frame.getOrCreatePeer _ _ _).2
  | createWebRtcTransport r object peerExisted =>
      simp only [step] at h
      split at h
      · split at h
        · simp only [Option.some.injEq] at h
          have := (Frame.openTransport s i r).trans
            (Frame.assignTransport i peerId direction r object _)
          rwa [h] at this
        · cases h
      · split at h <;> cases h
        · exact .refl s
        · exact .removePeerOf s r peerId
  | returned => cases h
  | threw => cases h

theorem startRecordingStep_frame {roomId : RoomId}
    {peers : List (PeerId × String)} {ok : Bool} {s s' : State Ref}
    {point point' : Recording Ref}
    (h : startRecordingStep roomId peers ok s point = some (s', point')) :
    Frame s s' := by
  cases point with
  | call =>
      simp only [startRecordingStep] at h
      split at h <;> cases h
      · exact .refl s
      · exact (Frame.setRecording s _ true).trans
          (.setRoom _ _ _ (Frame.setDisplayNames _ _).1
            (Frame.setDisplayNames _ _).2)
  | files r => cases h; exact .refl s
  | returned => cases h
  | threw => cases h

theorem stopRecordingStep_frame {roomId : RoomId} {ok : Bool} {s s' : State Ref}
    {point point' : Recording Ref}
    (h : stopRecordingStep roomId ok s point = some (s', point')) :
    Frame s s' := by
  cases point with
  | call =>
      simp only [stopRecordingStep] at h
      split at h <;> cases h
      · exact .refl s
      · exact .setRecording s _ false
  | files r => cases h; exact .refl s
  | returned => cases h
  | threw => cases h

theorem State.rooms_removePeer (s : State Ref) (roomId : RoomId)
    (peerId : PeerId) : (s.removePeer roomId peerId).rooms = s.rooms :=
  (Frame.removePeer s roomId peerId).rooms

theorem State.room_removePeer (s : State Ref) (roomId : RoomId)
    (peerId : PeerId) (v : Ref) :
    (s.removePeer roomId peerId).room v =
      if s.rooms.lookup roomId = some v then (s.room v).deletePeer peerId
      else s.room v := by
  unfold removePeer
  cases s.rooms.lookup roomId with
  | none => simp
  | some r =>
      by_cases hv : v = r
      · simp [hv]
      · simp [hv, Ne.symm hv]

theorem State.peers_setRecording (s : State Ref) (r v : Ref) (recording : Bool) :
    ((s.setRecording r recording).room v).peers = (s.room v).peers := by
  by_cases hv : v = r <;> simp [setRecording, setRoom, hv]

/-- Neither a creation nor a close. -/
def Call.Local : Call Ref → Prop
  | .getOrCreateRoom _ _ | .closeRoom _ _ => False
  | _ => True

/-- The transitions of `Call.step`, up to `Frame` for the local ones. -/
inductive Step (i : Ref) (s : State Ref) :
    Bool → Call Ref → State Ref → Call Ref → Prop
  | local {ok : Bool} {c c' : Call Ref} {s' : State Ref} :
      c.Local → c'.Local → Frame s s' → Step i s ok c s' c'
  | found {ok : Bool} {roomId : RoomId} {r : Ref} :
      s.rooms.lookup roomId = some r →
      Step i s ok (.getOrCreateRoom roomId .call) s
        (.getOrCreateRoom roomId (.returned r))
  | waits {ok : Bool} {roomId : RoomId} {creation : Ref} :
      s.rooms.lookup roomId = none → s.pendingRooms roomId = some creation →
      Step i s ok (.getOrCreateRoom roomId .call) s
        (.getOrCreateRoom roomId (.pending creation))
  | noWorker {ok : Bool} {roomId : RoomId} :
      s.workerPool.workers = [] →
      Step i s ok (.getOrCreateRoom roomId .call) s
        (.getOrCreateRoom roomId .threw)
  | resumed {ok : Bool} {roomId : RoomId} {creation r : Ref} :
      s.creation creation = some (.fulfilled r) →
      Step i s ok (.getOrCreateRoom roomId (.pending creation)) s
        (.getOrCreateRoom roomId (.returned r))
  | failed {ok : Bool} {roomId : RoomId} {creation : Ref} :
      s.creation creation = some .rejected →
      Step i s ok (.getOrCreateRoom roomId (.pending creation)) s
        (.getOrCreateRoom roomId .threw)
  | reserved {ok : Bool} {roomId : RoomId} {worker : Worker}
      {pool : WorkerPool} :
      s.rooms.lookup roomId = none → s.pendingRooms roomId = none →
      s.workerPool.reserveWorker = some (worker, pool) →
      Step i s ok (.getOrCreateRoom roomId .call) (s.beginCreation roomId i pool)
        (.getOrCreateRoom roomId (.createRouter worker))
  | created {roomId : RoomId} {worker : Worker} :
      Step i s true (.getOrCreateRoom roomId (.createRouter worker))
        ((s.addRoom roomId i worker).settleCreation roomId i (.fulfilled i))
        (.getOrCreateRoom roomId (.returned i))
  | rejected {roomId : RoomId} {worker : Worker} :
      Step i s false (.getOrCreateRoom roomId (.createRouter worker))
        ((s.releaseWorker worker).settleCreation roomId i .rejected)
        (.getOrCreateRoom roomId .threw)
  | closeAbsent {ok : Bool} {roomId : RoomId} :
      s.rooms.lookup roomId = none →
      Step i s ok (.closeRoom roomId .call) s (.closeRoom roomId (.returned true))
  | closeRefused {ok : Bool} {roomId : RoomId} {r : Ref} :
      s.rooms.lookup roomId = some r → (s.room r).isEmpty = false →
      Step i s ok (.closeRoom roomId .call) s
        (.closeRoom roomId (.returned false))
  | closeSuspended {ok : Bool} {roomId : RoomId} {r : Ref} :
      s.rooms.lookup roomId = some r → (s.room r).isEmpty →
      (s.room r).recording →
      Step i s ok (.closeRoom roomId .call) (s.setRecording r false)
        (.closeRoom roomId (.stopRecording r))
  | closed {ok : Bool} {roomId : RoomId} {r : Ref} :
      s.rooms.lookup roomId = some r → (s.room r).isEmpty →
      (s.room r).recording = false →
      Step i s ok (.closeRoom roomId .call) (s.finishClose roomId r)
        (.closeRoom roomId (.returned true))
  | closeResumed {roomId : RoomId} {r : Ref} :
      Step i s true (.closeRoom roomId (.stopRecording r))
        (s.finishClose roomId r)
        (.closeRoom roomId (.returned true))
  | closeFailed {roomId : RoomId} {r : Ref} :
      Step i s false (.closeRoom roomId (.stopRecording r)) s
        (.closeRoom roomId .threw)

theorem GetOrCreateRoom.step_cases {i : Ref} {roomId : RoomId} {ok : Bool}
    {s s' : State Ref} {point point' : GetOrCreateRoom Ref}
    (h : point.step i roomId ok s = some (s', point')) :
    Step i s ok (.getOrCreateRoom roomId point) s'
      (.getOrCreateRoom roomId point') := by
  cases point with
  | call =>
      simp only [step] at h
      split at h
      · next _ hrooms => cases h; exact .found hrooms
      · next hrooms hpending => cases h; exact .waits hrooms hpending
      · next hrooms hpending =>
        simp only [createRoom] at h
        split at h <;> cases h
        · next hreserve =>
          refine .noWorker ?_
          by_contra hworkers
          have := WorkerPool.reserveWorker_isSome hworkers
          simp [hreserve] at this
        · next hreserve => exact .reserved hrooms hpending hreserve
  | pending creation =>
      simp only [step] at h
      split at h <;> cases h
      · next hcreation => exact .resumed hcreation
      · next hcreation => exact .failed hcreation
  | createRouter worker =>
      cases ok <;> cases h
      · exact .rejected
      · exact .created
  | returned => cases h
  | threw => cases h

theorem GetOrCreateRoom.step_rooms {i : Ref} {roomId : RoomId} {ok : Bool}
    {s s' : State Ref} {point point' : GetOrCreateRoom Ref}
    (h : point.step i roomId ok s = some (s', point')) :
    s'.rooms = s.rooms ∨ s'.rooms = s.rooms.insert roomId i := by
  cases step_cases h with
  | «local» hl => exact hl.elim
  | created => exact .inr rfl
  | _ => exact .inl rfl

theorem CloseRoom.step_cases {i : Ref} {roomId : RoomId} {ok : Bool}
    {s s' : State Ref} {point point' : CloseRoom Ref}
    (h : point.step roomId ok s = some (s', point')) :
    Step i s ok (.closeRoom roomId point) s' (.closeRoom roomId point') := by
  cases point with
  | call =>
      simp only [step] at h
      split at h
      · next hnone =>
        cases h
        exact .closeAbsent hnone
      · next r hr =>
        split at h
        · next hempty =>
          cases h
          exact .closeRefused hr (by simpa using hempty)
        · next hempty =>
          have hempty : (s.room r).isEmpty := by simpa using hempty
          split at h <;> cases h
          · next hrecording => exact .closeSuspended hr hempty hrecording
          · next hrecording => exact .closed hr hempty (by simpa using hrecording)
  | stopRecording r =>
      cases ok <;> cases h
      · exact .closeFailed
      · exact .closeResumed
  | returned => cases h
  | threw => cases h

theorem CloseRoom.step_rooms {roomId : RoomId} {ok : Bool} {s s' : State Ref}
    {point point' : CloseRoom Ref}
    (h : point.step roomId ok s = some (s', point')) :
    (∀ v, (s'.room v).peers = (s.room v).peers) ∧
      (s'.rooms = s.rooms ∨ s'.rooms = s.rooms.erase roomId) := by
  cases point with
  | call =>
      simp only [step] at h
      split at h
      · cases h
        exact ⟨fun _ => rfl, .inl rfl⟩
      · split at h
        · cases h
          exact ⟨fun _ => rfl, .inl rfl⟩
        · split at h <;> cases h
          · exact ⟨fun v => s.peers_setRecording _ v false, .inl rfl⟩
          · exact ⟨fun _ => rfl, .inr rfl⟩
  | stopRecording r =>
      cases ok <;> cases h
      · exact ⟨fun _ => rfl, .inl rfl⟩
      · exact ⟨fun _ => rfl, .inr rfl⟩
  | returned => cases h
  | threw => cases h

theorem CloseRoom.step_pendingRooms {roomId : RoomId} {ok : Bool}
    {s s' : State Ref} {point point' : CloseRoom Ref}
    (h : point.step roomId ok s = some (s', point')) :
    s'.pendingRooms = s.pendingRooms := by
  cases point with
  | call =>
      simp only [step] at h
      split at h
      · cases h
        rfl
      · split at h
        · cases h
          rfl
        · split at h <;> cases h <;> rfl
  | stopRecording r => cases ok <;> cases h <;> rfl
  | returned => cases h
  | threw => cases h

/-- A close that does not fail removes the room, suspends, or finds the room
occupied. -/
theorem CloseRoom.step_outcome {roomId : RoomId} {s s' : State Ref}
    {point point' : CloseRoom Ref}
    (h : point.step roomId true s = some (s', point')) :
    s'.rooms.lookup roomId = none ∨ (∃ r, point' = .stopRecording r) ∨
      ∃ r, s.rooms.lookup roomId = some r ∧ (s.room r).isEmpty = false := by
  cases point with
  | call =>
      simp only [step] at h
      split at h
      · next hnone =>
        cases h
        exact .inl hnone
      · next r hr =>
        split at h
        · next hempty => exact .inr (.inr ⟨r, hr, by simpa using hempty⟩)
        · split at h <;> cases h
          · exact .inr (.inl ⟨r, rfl⟩)
          · exact .inl (by simp [State.finishClose])
  | stopRecording r =>
      cases h
      exact .inl (by simp [State.finishClose])
  | returned => cases h
  | threw => cases h

theorem Call.step_cases {i : Ref} {ok : Bool} {s s' : State Ref}
    {c c' : Call Ref} (h : c.step i ok s = some (s', c')) : Step i s ok c s' c' := by
  cases c with
  | getOrCreateRoom roomId point =>
      simp only [step, Option.map_eq_some_iff, Prod.mk.injEq] at h
      obtain ⟨⟨s', point'⟩, hstep, rfl, rfl⟩ := h
      exact GetOrCreateRoom.step_cases hstep
  | createTransport roomId peerId direction point =>
      simp only [step, Option.map_eq_some_iff, Prod.mk.injEq] at h
      obtain ⟨⟨s', point'⟩, hstep, rfl, rfl⟩ := h
      exact .local trivial trivial (CreateTransport.step_frame hstep)
  | removePeer roomId peerId done =>
      simp only [step] at h
      split at h <;> cases h
      exact .local trivial trivial (.removePeer s roomId peerId)
  | startRecording roomId peers point =>
      simp only [step, Option.map_eq_some_iff, Prod.mk.injEq] at h
      obtain ⟨⟨s', point'⟩, hstep, rfl, rfl⟩ := h
      exact .local trivial trivial (startRecordingStep_frame hstep)
  | stopRecording roomId point =>
      simp only [step, Option.map_eq_some_iff, Prod.mk.injEq] at h
      obtain ⟨⟨s', point'⟩, hstep, rfl, rfl⟩ := h
      exact .local trivial trivial (stopRecordingStep_frame hstep)
  | closeRoom roomId point =>
      simp only [step, Option.map_eq_some_iff, Prod.mk.injEq] at h
      obtain ⟨⟨s', point'⟩, hstep, rfl, rfl⟩ := h
      exact CloseRoom.step_cases hstep

end MeetServer.Sfu
