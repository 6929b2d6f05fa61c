import MeetServer.Sfu.Steps
import MeetServer.Sfu.Registry

/-!
# Closing occupied rooms

`closeRoom` checks `isEmpty` and may then suspend on the recording files before
it executes `room.close()`.  Of all the calls that can run meanwhile only the
entry of `createTransport` fills an empty room, so the rooms that are closed
are empty exactly in the runs in which no peer enters a room under a close.
-/

namespace MeetServer.Sfu

open MeetServer.Foundation

variable {Ref : Type}

namespace Call

/-- The room whose `close()` the call executes in its next step. -/
def closing (ok : Bool) (s : State Ref) : Call Ref → Option Ref
  | .closeRoom roomId .call =>
      (s.rooms.lookup roomId).filter fun r =>
        (s.room r).isEmpty && !(s.room r).recording
  | .closeRoom _ (.stopRecording r) => if ok then some r else none
  | _ => none

/-- The room in which the call is about to look up or create its peer. -/
def entering (s : State Ref) : Call Ref → Option Ref
  | .createTransport roomId _ _ .call => s.rooms.lookup roomId
  | _ => none

end Call

/-- Whatever `room.close()` a call can execute next, it is on an empty room. -/
def ClosesOnlyEmpty (p : Process Ref) : Prop :=
  ∀ i ok r, (p.proc i).closing ok p.world = some r → (p.world.room r).isEmpty

/-- The step lets a peer into no room that a `closeRoom` call has suspended on. -/
def EntersNoClosingRoom (p : Process Ref) (a : Ref × Bool) : Prop :=
  ∀ r, (p.proc a.1).entering p.world = some r →
    ∀ i roomId, (p.proc i).stopping ≠ some (roomId, r)

/-- The rooms under a close are still empty. -/
def SuspendedEmpty (p : Process Ref) : Prop :=
  ∀ i roomId r, (p.proc i).stopping = some (roomId, r) →
    (p.world.room r).isEmpty

theorem SuspendedEmpty.closesOnlyEmpty {p : Process Ref}
    (h : SuspendedEmpty p) : ClosesOnlyEmpty p := by
  intro i ok r hclosing
  have hstop := h i
  cases hc : p.proc i with
  | closeRoom roomId point =>
      rw [hc] at hclosing hstop
      cases point with
      | call =>
          obtain ⟨-, hr⟩ := Option.filter_eq_some_iff.1 hclosing
          simp only [Bool.and_eq_true] at hr
          exact hr.1
      | stopRecording r' =>
          obtain rfl : r' = r := by
            simp only [Call.closing, Option.ite_none_right_eq_some,
              Option.some.injEq] at hclosing
            exact hclosing.2
          exact hstop roomId r' rfl
      | returned => cases hclosing
      | threw => cases hclosing
  | _ => rw [hc] at hclosing; cases hclosing

variable [DecidableEq Ref]

/-- `closing` names every router that a step closes. -/
theorem closing_of_routerOpen {i : Ref} {ok : Bool} {s s' : State Ref}
    {c c' : Call Ref} (h : c.step i ok s = some (s', c')) {r : Ref}
    (hopen : s.routerOpen r) (hclosed : s'.routerOpen r = false) :
    c.closing ok s = some r := by
  have hs := Call.step_cases h
  cases hs with
  | «local» _ _ hframe => simp [hframe.routerOpen, hopen] at hclosed
  | found | waits | noWorker | resumed | failed | closeAbsent | closeRefused
  | closeFailed => simp [hopen] at hclosed
  | reserved | rejected =>
      simp [State.beginCreation, State.settleCreation, State.releaseWorker,
        hopen] at hclosed
  | created =>
      simp only [State.addRoom, State.settleCreation, Function.update_apply]
        at hclosed
      split at hclosed <;> simp_all
  | closeSuspended =>
      simp [(Frame.setRecording s _ false).routerOpen, hopen] at hclosed
  | @closed _ roomId r' hr hempty hrecording =>
      simp only [State.finishClose, State.releaseWorker, State.closeRouter,
        Function.update_apply] at hclosed
      split at hclosed
      · next heq => simp [Call.closing, hr, heq, hempty, hrecording]
      · simp [hopen] at hclosed
  | @closeResumed roomId r' =>
      simp only [State.finishClose, State.releaseWorker, State.closeRouter,
        Function.update_apply] at hclosed
      split at hclosed
      · next heq => simp [Call.closing, heq]
      · simp [hopen] at hclosed

/-! ## What keeps a room empty -/

section EmptyRooms

variable {s : State Ref} {r v : Ref}

theorem isEmpty_setRoom {room : MediaRoom Ref}
    (hroom : (s.room r).isEmpty → room.isEmpty) (h : (s.room v).isEmpty) :
    ((s.setRoom r room).room v).isEmpty := by
  by_cases hv : v = r
  · subst hv
    simpa [State.setRoom] using hroom h
  · simpa [State.setRoom, hv] using h

omit [DecidableEq Ref] in
theorem getPeer_of_isEmpty {room : MediaRoom Ref} (h : room.isEmpty)
    (peerId : PeerId) : room.getPeer peerId = none :=
  AList.lookup_eq_none.2 (room.isEmpty_iff.1 h peerId)

omit [DecidableEq Ref] in
theorem getPeer_getOrCreatePeer (room : MediaRoom Ref) (peerId : PeerId)
    (object : Ref) :
    (room.getOrCreatePeer peerId object).1.getPeer peerId =
      some (room.getOrCreatePeer peerId object).2 := by
  unfold MediaRoom.getOrCreatePeer
  split
  · assumption
  · simp [MediaRoom.getPeer, MediaRoom.setPeer]

omit [DecidableEq Ref] in
theorem setDisplayNames_of_isEmpty {room : MediaRoom Ref} (h : room.isEmpty)
    (peers : List (PeerId × String)) : room.setDisplayNames peers = room := by
  induction peers with
  | nil => rfl
  | cons named peers ih =>
      simp only [MediaRoom.setDisplayNames, List.foldl_cons,
        getPeer_of_isEmpty h]
      exact ih

theorem isEmpty_removePeerOf (peerId : PeerId) (h : (s.room v).isEmpty) :
    ((s.removePeerOf r peerId).room v).isEmpty := by
  simp only [State.room_removePeerOf, Function.update_apply]
  split
  · next hv =>
    subst hv
    rw [MediaRoom.isEmpty_iff] at h ⊢
    simpa [MediaRoom.deletePeer] using fun k _ => h k
  · exact h

theorem isEmpty_assignTransport {i object : Ref} {peerId : PeerId}
    {direction : TransportDirection} (h : (s.room v).isEmpty) :
    ((assignTransport i peerId direction r object s).1.room v).isEmpty := by
  unfold assignTransport
  split
  · exact h
  · next peer hpeer =>
    split
    · refine isEmpty_setRoom (fun hr => ?_) h
      have hnone : (s.room r).getPeer peerId = none := getPeer_of_isEmpty hr peerId
      simp [hnone] at hpeer
    · exact h

theorem CreateTransport.isEmpty_step {i : Ref} {roomId : RoomId}
    {peerId : PeerId} {direction : TransportDirection} {ok : Bool}
    {s' : State Ref} {point point' : CreateTransport Ref}
    (h : point.step i roomId peerId direction ok s = some (s', point'))
    (henter : point = .call → s.rooms.lookup roomId ≠ some v)
    (hv : (s.room v).isEmpty) : (s'.room v).isEmpty := by
  cases point with
  | call =>
      simp only [step] at h
      split at h
      · cases h
        exact hv
      · next r hr =>
        cases h
        have hne : v ≠ r := fun heq => henter rfl (heq ▸ hr)
        simpa [State.setRoom, hne] using hv
  | createWebRtcTransport r object peerExisted =>
      simp only [step] at h
      split at h
      · split at h
        · simp only [Option.some.injEq] at h
          have hassign : ((assignTransport i peerId direction r object
              (s.openTransport i r)).1.room v).isEmpty :=
            isEmpty_assignTransport hv
          rwa [h] at hassign
        · cases h
      · split at h <;> cases h
        · exact hv
        · exact isEmpty_removePeerOf peerId hv
  | returned => cases h
  | threw => cases h

end EmptyRooms

theorem isEmpty_step {i : Ref} {ok : Bool} {s s' : State Ref} {c c' : Call Ref}
    (h : c.step i ok s = some (s', c')) {v : Ref}
    (henter : c.entering s ≠ some v) (hv : (s.room v).isEmpty) :
    (s'.room v).isEmpty := by
  cases c with
  | createTransport roomId peerId direction point =>
      simp only [Call.step, Option.map_eq_some_iff, Prod.mk.injEq] at h
      obtain ⟨⟨s', point'⟩, hstep, rfl, rfl⟩ := h
      refine CreateTransport.isEmpty_step hstep ?_ hv
      rintro rfl
      exact henter
  | removePeer roomId peerId done =>
      simp only [Call.step] at h
      split at h <;> cases h
      unfold State.removePeer
      split
      · exact hv
      · exact isEmpty_removePeerOf peerId hv
  | startRecording roomId peers point =>
      simp only [Call.step, Option.map_eq_some_iff, Prod.mk.injEq] at h
      obtain ⟨⟨s', point'⟩, hstep, rfl, rfl⟩ := h
      unfold startRecordingStep at hstep
      split at hstep
      · split at hstep <;> cases hstep
        · exact hv
        · refine isEmpty_setRoom (fun hr => ?_) (isEmpty_setRoom id hv)
          rwa [setDisplayNames_of_isEmpty hr]
      · cases hstep
        exact hv
      · cases hstep
      · cases hstep
  | stopRecording roomId point =>
      simp only [Call.step, Option.map_eq_some_iff, Prod.mk.injEq] at h
      obtain ⟨⟨s', point'⟩, hstep, rfl, rfl⟩ := h
      unfold stopRecordingStep at hstep
      split at hstep
      · split at hstep <;> cases hstep
        · exact hv
        · exact isEmpty_setRoom id hv
      · cases hstep
        exact hv
      · cases hstep
      · cases hstep
  | getOrCreateRoom roomId point =>
      cases Call.step_cases h with
      | created =>
          simp only [State.addRoom, State.settleCreation, Function.update_apply]
          split
          · rfl
          · exact hv
      | «local» hl => exact hl.elim
      | found | waits | noWorker | resumed | failed | reserved | rejected =>
          exact hv
  | closeRoom roomId point =>
      cases Call.step_cases h with
      | «local» hl => exact hl.elim
      | closeSuspended => exact isEmpty_setRoom id hv
      | closeAbsent | closeRefused | closed | closeResumed | closeFailed => exact hv

/-- A call that is suspended in `closeRoom` was so before the step, or the
step has just found its room empty. -/
theorem stopping_step {i : Ref} {ok : Bool} {s s' : State Ref} {c c' : Call Ref}
    (h : c.step i ok s = some (s', c')) {roomId : RoomId} {r : Ref}
    (hstop : c'.stopping = some (roomId, r)) : (s'.room r).isEmpty := by
  cases Call.step_cases h with
  | «local» _ hl' => cases c' <;> first | exact hl'.elim | cases hstop
  | @closeSuspended _ _ r' _ hempty =>
      obtain ⟨rfl, rfl⟩ : _ ∧ r' = r := by simpa [Call.stopping] using hstop
      exact isEmpty_setRoom id hempty
  | _ => cases hstop

theorem SuspendedEmpty.preserves :
    (service : System (Process Ref) _).Preserves EntersNoClosingRoom
      SuspendedEmpty := by
  rintro p ⟨i, ok⟩ p' h hno hstep
  obtain ⟨s', c', hcall, rfl⟩ := Pool.step_eq_some.1 hstep
  intro j roomId r hstop
  rw [Pool.set_proc] at hstop
  split at hstop
  · exact stopping_step hcall hstop
  · exact isEmpty_step hcall (fun henter => hno r henter j roomId hstop)
      (h j roomId r hstop)

/-- Once a peer has entered, the suspended call closes an occupied room. -/
theorem occupies {p p' : Process Ref} {a : Ref × Bool}
    (h : ¬ EntersNoClosingRoom p a) (hstep : service.step p a = some p') :
    ¬ ClosesOnlyEmpty p' := by
  obtain ⟨i, ok⟩ := a
  obtain ⟨s', c', hcall, rfl⟩ := Pool.step_eq_some.1 hstep
  simp only [EntersNoClosingRoom, not_forall, not_not] at h
  obtain ⟨r, henter, j, roomId, hstop⟩ := h
  intro hempty
  have hj : j ≠ i := by
    rintro rfl
    cases hc : p.proc j <;> rw [hc] at hstop henter <;>
      first | cases hstop | cases henter
  have hclosing : ((p.set i s' c').proc j).closing true s' = some r := by
    rw [Pool.set_proc_ne _ _ _ hj]
    cases hc : p.proc j with
    | closeRoom k point => cases point <;> simp_all [Call.stopping, Call.closing]
    | _ => rw [hc] at hstop; cases hstop
  have hr := hempty j true r hclosing
  cases hc : p.proc i with
  | createTransport k peerId direction point =>
      rw [hc] at hcall henter
      cases point with
      | call =>
          simp only [Call.entering] at henter
          simp only [Call.step, CreateTransport.step, henter, Option.map_some,
            Option.some.injEq, Prod.mk.injEq] at hcall
          obtain ⟨rfl, -⟩ := hcall
          have hroom : ((p.world.room r).getOrCreatePeer peerId i).1.isEmpty := by
            simpa [State.setRoom] using hr
          have hpeer := getPeer_getOrCreatePeer (p.world.room r) peerId i
          rw [getPeer_of_isEmpty hroom] at hpeer
          cases hpeer
      | _ => cases henter
  | _ => rw [hc] at henter; cases henter

/-- A run closes only empty rooms exactly when no peer enters a room while a
`closeRoom` call is suspended on it. -/
theorem holds_closesOnlyEmpty_iff (workers : List Worker)
    (requests : Ref → Request) (schedule : List (Ref × Bool)) :
    service.Holds ClosesOnlyEmpty (Process.spawned workers requests) schedule ↔
      service.Meets EntersNoClosingRoom (Process.spawned workers requests)
        schedule := by
  refine System.holds_iff_meets SuspendedEmpty.preserves
    (fun _ h => h.closesOnlyEmpty) (fun _ _ _ _ => occupies) ?_ schedule
  intro i roomId r hstop
  cases hr : requests i <;>
    simp [Process.spawned, Request.call, hr, Call.stopping] at hstop

/-! A peer's first transport, requested while the recording is being stopped. -/

def transportDuringClose : Fin 4 → Request
  | 0 => .getOrCreateRoom "r"
  | 1 => .startRecording "r" []
  | 2 => .closeRoom "r"
  | 3 => .createTransport "r" "a" .send

/-- The peer has its transport, and the close is about to go through. -/
theorem not_closesOnlyEmpty_transportDuringClose :
    ¬ ClosesOnlyEmpty (service.run (Process.spawned [0] transportDuringClose)
      [(0, true), (0, true), (1, true), (2, true), (3, true), (3, true)]) := by
  intro h
  have hempty := h 2 true 0 (by decide)
  revert hempty
  decide

end MeetServer.Sfu
