import MeetServer.Foundation.Unwinding
import MeetServer.Sfu.RoomViews

/-!
# The calls of one room

A step of `getOrCreateRoom`, `createTransport`, `removePeer`, `closeRoom` and the
recording calls stays in the room of the call (`Call.stays`), and processes with the
same room take it alike (`Call.sameRoom`).
-/

namespace MeetServer.Sfu

open MeetServer.Foundation

variable {Ref : Type}

/-! ## What a call keeps -/

def GetOrCreateRoom.refs : GetOrCreateRoom Ref → List Ref
  | .pending creation => [creation]
  | _ => []

/-- The point without the worker that has been reserved. -/
def GetOrCreateRoom.unplaced : GetOrCreateRoom Ref → GetOrCreateRoom Ref
  | .createRouter _ => .createRouter 0
  | point => point

def CreateTransport.refs : CreateTransport Ref → List Ref
  | .createWebRtcTransport r object _ => [r, object]
  | _ => []

def CloseRoom.refs : CloseRoom Ref → List Ref
  | .stopRecording r => [r]
  | _ => []

namespace Call

def roomId : Call Ref → RoomId
  | .getOrCreateRoom roomId _ | .createTransport roomId _ _ _ | .removePeer roomId _ _
  | .startRecording roomId _ _ | .stopRecording roomId _ | .closeRoom roomId _ => roomId

def refs : Call Ref → List Ref
  | .getOrCreateRoom _ point => point.refs
  | .createTransport _ _ _ point => point.refs
  | .closeRoom _ point => point.refs
  | .removePeer .. | .startRecording .. | .stopRecording .. => []

def unplaced : Call Ref → Call Ref
  | .getOrCreateRoom roomId point => .getOrCreateRoom roomId point.unplaced
  | c => c

end Call

/-! ## The calls for the room itself -/

section RoomCalls

variable [DecidableEq Ref] {roomOf : Ref → RoomId} {roomId : RoomId} {s s' u : State Ref}
  {i : Ref} {ok : Bool}

/-- Both processes go on, and the room and the call stay alike, or neither does. -/
abbrev AlikeSteps {P : Type} (roomOf : Ref → RoomId) (roomId : RoomId) :
    Option (State Ref × P) → Option (State Ref × P) → Prop :=
  Option.Rel fun a b => a.1.SameRoom roomOf roomId b.1 ∧ b.2 = a.2

namespace GetOrCreateRoom

variable {point point' : GetOrCreateRoom Ref}

theorem stays (hs : s.Separated roomOf) (hi : roomOf i = roomId)
    (hp : ∀ t ∈ point.refs, roomOf t = roomId) (h : point.step i roomId ok s = some (s', point')) :
    s.Stays roomOf roomId s' ∧ ∀ t ∈ point'.refs, roomOf t = roomId := by
  cases point with
  | call =>
      simp only [step] at h
      split at h
      · cases h
        exact ⟨.refl hs, by simp [refs]⟩
      · next hpending =>
        cases h
        exact ⟨.refl hs, by simpa [refs] using hs.pendingRooms _ _ hpending⟩
      · simp only [createRoom] at h
        split at h <;> cases h
        · exact ⟨.refl hs, by simp [refs]⟩
        · next hreserve =>
          exact ⟨.beginCreation hs hi (WorkerPool.reserveWorker_spec hreserve).2.1,
            by simp [refs]⟩
  | pending creation =>
      simp only [step] at h
      split at h <;> cases h <;> exact ⟨.refl hs, by simp [refs]⟩
  | createRouter worker =>
      simp only [step] at h
      split at h <;> cases h
      · have hadded := State.Stays.addRoom hs hi worker
        refine ⟨hadded.trans (.settleCreation hadded.separated hi fun r hr => ?_), by simp [refs]⟩
        cases hr
        exact hi
      · have hreleased : s.Stays roomOf roomId (s.releaseWorker worker) :=
          .releaseWorker hs worker
        refine ⟨hreleased.trans (.settleCreation hreleased.separated hi ?_), by simp [refs]⟩
        simp
  | returned => cases h
  | threw => cases h

omit [DecidableEq Ref] in
theorem createRoom_sameRoom (h : s.SameRoom roomOf roomId u) :
    (createRoom i roomId s).1.SameRoom roomOf roomId (createRoom i roomId u).1 ∧
      (createRoom i roomId u).2.unplaced = (createRoom i roomId s).2.unplaced := by
  unfold createRoom
  cases hs : s.workerPool.reserveWorker with
  | none =>
      have hnone : s.workerPool.workers = [] := by
        by_contra hworkers
        simpa [hs] using WorkerPool.reserveWorker_isSome hworkers
      have hu : u.workerPool.reserveWorker = none := by
        simp [WorkerPool.reserveWorker, h.workers.2 hnone]
      rw [hu]
      exact ⟨h, rfl⟩
  | some chosen =>
      cases hu : u.workerPool.reserveWorker with
      | none =>
          have hnone : u.workerPool.workers = [] := by
            by_contra hworkers
            simpa [hu] using WorkerPool.reserveWorker_isSome hworkers
          have hs' : s.workerPool.reserveWorker = none := by
            simp [WorkerPool.reserveWorker, h.workers.1 hnone]
          cases hs'.symm.trans hs
      | some chosen' =>
          exact ⟨h.beginCreation i (WorkerPool.reserveWorker_spec hs).2.1
            (WorkerPool.reserveWorker_spec hu).2.1, rfl⟩

theorem sameRoom (h : s.SameRoom roomOf roomId u) (hp : ∀ t ∈ point.refs, roomOf t = roomId)
    (hpoint : point'.unplaced = point.unplaced) :
    Option.Rel (fun a b => a.1.SameRoom roomOf roomId b.1 ∧ b.2.unplaced = a.2.unplaced)
      (point.step i roomId ok s) (point'.step i roomId ok u) := by
  cases point with
  | call =>
      obtain rfl : point' = .call := by cases point' <;> first | rfl | cases hpoint
      simp only [step, h.rooms, h.pendingRooms]
      split
      · exact .some ⟨h, rfl⟩
      · exact .some ⟨h, rfl⟩
      · exact .some (createRoom_sameRoom h)
  | pending creation =>
      obtain rfl : point' = .pending creation := by
        cases point' <;> first | exact hpoint | cases hpoint
      simp only [step, h.creation (hp creation (by simp [refs]))]
      split
      · exact .none
      · exact .some ⟨h, rfl⟩
      · exact .some ⟨h, rfl⟩
  | createRouter worker =>
      obtain ⟨worker', rfl⟩ : ∃ worker', point' = .createRouter worker' := by
        cases point' <;> first | exact ⟨_, rfl⟩ | cases hpoint
      simp only [step]
      split
      · exact .some ⟨(h.addRoom i worker worker').settleCreation i _, rfl⟩
      · exact .some ⟨(h.releaseWorker worker worker').settleCreation i _, rfl⟩
  | returned r =>
      obtain rfl : point' = .returned r := by
        cases point' <;> first | exact hpoint | cases hpoint
      exact .none
  | threw =>
      obtain rfl : point' = .threw := by cases point' <;> first | rfl | cases hpoint
      exact .none

end GetOrCreateRoom

namespace CreateTransport

variable {peerId : PeerId} {direction : TransportDirection} {point point' : CreateTransport Ref}

theorem refs_assignTransport (i r : Ref) (peerId : PeerId) (direction : TransportDirection)
    (object : Ref) (s : State Ref) :
    (assignTransport i peerId direction r object s).2.refs = [] := by
  unfold assignTransport
  split
  · rfl
  · split <;> rfl

theorem assigned_stays (peerId : PeerId) (direction : TransportDirection) (object : Ref)
    (hs : s.Separated roomOf) (hi : roomOf i = roomId) {r : Ref} (hr : roomOf r = roomId) :
    s.Stays roomOf roomId (assignTransport i peerId direction r object s).1 := by
  have hclosing : ∀ t, some i = some t → roomOf t = roomId := by
    rintro t ⟨⟩
    exact hi
  unfold assignTransport
  split
  · exact .closeTransport hs hclosing
  · next peer hpeer =>
    split
    · have hroom : (s.room r).Within roomOf roomId := hr ▸ hs.room r
      have hwithin := hroom peerId peer hpeer
      have hclosed : s.Stays roomOf roomId (s.closeTransport (peer.transportFor direction)) :=
        .closeTransport hs fun _ ht => hwithin.transportFor ht
      exact hclosed.trans (.setRoom hclosed.separated hr
        (hroom.setPeer (hwithin.setTransport hi direction)))
    · exact .closeTransport hs hclosing

theorem assigned_sameRoom (h : s.SameRoom roomOf roomId u) (hs : s.Separated roomOf)
    (hi : roomOf i = roomId) {r object : Ref} (hr : roomOf r = roomId) :
    (assignTransport i peerId direction r object s).1.SameRoom roomOf roomId
        (assignTransport i peerId direction r object u).1 ∧
      (assignTransport i peerId direction r object u).2 =
        (assignTransport i peerId direction r object s).2 := by
  have hclosing : ∀ t, some i = some t → roomOf t = roomId := by
    rintro t ⟨⟩
    exact hi
  unfold assignTransport
  rw [h.getPeer hr]
  split
  · exact ⟨h.closeTransport hclosing, rfl⟩
  · next peer hpeer =>
    split
    · have hwithin : peer.Within roomOf roomId := hr ▸ hs.peer hpeer
      exact ⟨(h.closeTransport fun _ ht => hwithin.transportFor ht).setRoom hr
        (MediaRoom.setPeer_congr (h.room hr) _), rfl⟩
    · exact ⟨h.closeTransport hclosing, rfl⟩

theorem stays (hs : s.Separated roomOf) (hi : roomOf i = roomId)
    (hp : ∀ t ∈ point.refs, roomOf t = roomId)
    (h : point.step i roomId peerId direction ok s = some (s', point')) :
    s.Stays roomOf roomId s' ∧ ∀ t ∈ point'.refs, roomOf t = roomId := by
  cases point with
  | call =>
      simp only [step] at h
      split at h <;> cases h
      · exact ⟨.refl hs, by simp [refs]⟩
      · next r hr =>
        have hr := hs.rooms roomId r hr
        have hroom : (s.room r).Within roomOf roomId := hr ▸ hs.room r
        obtain ⟨hroom', hpeer⟩ := hroom.getOrCreatePeer peerId hi
        exact ⟨.setRoom hs hr hroom', by simpa [refs] using ⟨hr, hpeer.object⟩⟩
  | createWebRtcTransport r object existed =>
      have hr : roomOf r = roomId := hp r (by simp [refs])
      simp only [step] at h
      split at h
      · split at h
        · simp only [Option.some.injEq] at h
          have hopened := State.Stays.openTransport hs hi hr
          have hassigned := assigned_stays peerId direction object hopened.separated hi hr
          have hrefs := refs_assignTransport i r peerId direction object (s.openTransport i r)
          rw [h] at hassigned hrefs
          exact ⟨hopened.trans hassigned, by simp [show point'.refs = [] from hrefs]⟩
        · cases h
      · split at h <;> cases h
        · exact ⟨.refl hs, by simp [refs]⟩
        · exact ⟨.removePeerOf hs hr peerId, by simp [refs]⟩
  | returned => cases h
  | threw => cases h

theorem sameRoom (h : s.SameRoom roomOf roomId u) (hs : s.Separated roomOf)
    (hi : roomOf i = roomId) (hp : ∀ t ∈ point.refs, roomOf t = roomId) :
    AlikeSteps roomOf roomId (point.step i roomId peerId direction ok s)
      (point.step i roomId peerId direction ok u) := by
  cases point with
  | call =>
      simp only [step, h.rooms]
      split
      · exact .some ⟨h, rfl⟩
      · next r hr =>
        have hr := hs.rooms roomId r hr
        obtain ⟨hroom, hpeer⟩ := MediaRoom.getOrCreatePeer_congr (h.room hr) peerId i
        refine .some ⟨h.setRoom hr hroom, ?_⟩
        simp only [hpeer, MediaRoom.hasPeer, h.getPeer hr]
  | createWebRtcTransport r object existed =>
      have hr : roomOf r = roomId := hp r (by simp [refs])
      simp only [step, h.routerOpen hr]
      split
      · split
        · exact .some (assigned_sameRoom (h.openTransport hi r)
            (State.Stays.openTransport hs hi hr).separated hi hr)
        · exact .none
      · split
        · exact .some ⟨h, rfl⟩
        · exact .some ⟨h.removePeerOf hs hr peerId, rfl⟩
  | returned => exact .none
  | threw => exact .none

end CreateTransport

theorem startRecording_stays {peers : List (PeerId × String)} {point point' : Recording Ref}
    (hs : s.Separated roomOf) (h : startRecordingStep roomId peers ok s point = some (s', point')) :
    s.Stays roomOf roomId s' := by
  cases point with
  | call =>
      simp only [startRecordingStep] at h
      split at h <;> cases h
      · exact .refl hs
      · next r hr =>
        have hr := hs.rooms roomId r hr
        have hstarted := State.Stays.setRecording hs hr true
        have hroom : ((s.setRecording r true).room r).Within roomOf roomId :=
          hr ▸ hstarted.separated.room r
        exact hstarted.trans (.setRoom hstarted.separated hr (hroom.setDisplayNames peers))
  | files r =>
      cases h
      exact .refl hs
  | returned => cases h
  | threw => cases h

theorem startRecording_sameRoom {peers : List (PeerId × String)} {point : Recording Ref}
    (h : s.SameRoom roomOf roomId u) (hs : s.Separated roomOf) :
    AlikeSteps roomOf roomId (startRecordingStep roomId peers ok s point)
      (startRecordingStep roomId peers ok u point) := by
  cases point with
  | call =>
      simp only [startRecordingStep, h.rooms]
      split
      · exact .some ⟨h, rfl⟩
      · next r hr =>
        have hr := hs.rooms roomId r hr
        have hstarted := h.setRecording hr true
        exact .some ⟨hstarted.setRoom hr
          (MediaRoom.setDisplayNames_congr (hstarted.room hr) peers), rfl⟩
  | files r => exact .some ⟨h, rfl⟩
  | returned => exact .none
  | threw => exact .none

theorem stopRecording_stays {point point' : Recording Ref} (hs : s.Separated roomOf)
    (h : stopRecordingStep roomId ok s point = some (s', point')) :
    s.Stays roomOf roomId s' := by
  cases point with
  | call =>
      simp only [stopRecordingStep] at h
      split at h <;> cases h
      · exact .refl hs
      · next r hr => exact .setRecording hs (hs.rooms roomId r hr) false
  | files r =>
      cases h
      exact .refl hs
  | returned => cases h
  | threw => cases h

theorem stopRecording_sameRoom {point : Recording Ref} (h : s.SameRoom roomOf roomId u)
    (hs : s.Separated roomOf) :
    AlikeSteps roomOf roomId (stopRecordingStep roomId ok s point)
      (stopRecordingStep roomId ok u point) := by
  cases point with
  | call =>
      simp only [stopRecordingStep, h.rooms]
      split
      · exact .some ⟨h, rfl⟩
      · next r hr => exact .some ⟨h.setRecording (hs.rooms roomId r hr) false, rfl⟩
  | files r => exact .some ⟨h, rfl⟩
  | returned => exact .none
  | threw => exact .none

namespace CloseRoom

variable {point point' : CloseRoom Ref}

theorem stays (hs : s.Separated roomOf) (hp : ∀ t ∈ point.refs, roomOf t = roomId)
    (h : point.step roomId ok s = some (s', point')) :
    s.Stays roomOf roomId s' ∧ ∀ t ∈ point'.refs, roomOf t = roomId := by
  cases point with
  | call =>
      simp only [step] at h
      split at h
      · cases h
        exact ⟨.refl hs, by simp [refs]⟩
      · next r hr =>
        have hr := hs.rooms roomId r hr
        split at h
        · cases h
          exact ⟨.refl hs, by simp [refs]⟩
        · split at h <;> cases h
          · exact ⟨.setRecording hs hr false, by simpa [refs] using hr⟩
          · exact ⟨.finishClose hs hr, by simp [refs]⟩
  | stopRecording r =>
      simp only [step] at h
      split at h <;> cases h
      · exact ⟨.finishClose hs (hp r (by simp [refs])), by simp [refs]⟩
      · exact ⟨.refl hs, by simp [refs]⟩
  | returned => cases h
  | threw => cases h

theorem sameRoom (h : s.SameRoom roomOf roomId u) (hs : s.Separated roomOf)
    (hp : ∀ t ∈ point.refs, roomOf t = roomId) :
    AlikeSteps roomOf roomId (point.step roomId ok s) (point.step roomId ok u) := by
  cases point with
  | call =>
      simp only [step, h.rooms]
      split
      · exact .some ⟨h, rfl⟩
      · next r hr =>
        have hr := hs.rooms roomId r hr
        simp only [MediaRoom.isEmpty_congr (h.room hr), MediaRoom.recording_congr (h.room hr)]
        cases (s.room r).isEmpty with
        | false => exact .some ⟨h, rfl⟩
        | true =>
            cases (s.room r).recording with
            | true => exact .some ⟨h.setRecording hr false, rfl⟩
            | false => exact .some ⟨h.finishClose hr, rfl⟩
  | stopRecording r =>
      simp only [step]
      split
      · exact .some ⟨h.finishClose (hp r (by simp [refs])), rfl⟩
      · exact .some ⟨h, rfl⟩
  | returned => exact .none
  | threw => exact .none

end CloseRoom

theorem removePeer_stays (hs : s.Separated roomOf) (peerId : PeerId) :
    s.Stays roomOf roomId (s.removePeer roomId peerId) := by
  unfold State.removePeer
  split
  · exact .refl hs
  · next r hr => exact .removePeerOf hs (hs.rooms roomId r hr) peerId

theorem removePeer_sameRoom (h : s.SameRoom roomOf roomId u) (hs : s.Separated roomOf)
    (peerId : PeerId) :
    (s.removePeer roomId peerId).SameRoom roomOf roomId (u.removePeer roomId peerId) := by
  unfold State.removePeer
  rw [h.rooms]
  split
  · exact h
  · next r hr => exact h.removePeerOf hs (hs.rooms roomId r hr) peerId

namespace Call

variable {c c' : Call Ref}

theorem stays (hs : s.Separated roomOf) (hi : roomOf i = c.roomId)
    (hc : ∀ t ∈ c.refs, roomOf t = c.roomId) (h : c.step i ok s = some (s', c')) :
    s.Stays roomOf c.roomId s' ∧ c'.roomId = c.roomId ∧ ∀ t ∈ c'.refs, roomOf t = c.roomId := by
  cases c with
  | getOrCreateRoom roomId point =>
      obtain ⟨⟨s', point'⟩, hpoint, hr⟩ := Option.map_eq_some_iff.1 h
      cases hr
      obtain ⟨hstays, hrefs⟩ := GetOrCreateRoom.stays hs hi hc hpoint
      exact ⟨hstays, rfl, hrefs⟩
  | createTransport roomId peerId direction point =>
      obtain ⟨⟨s', point'⟩, hpoint, hr⟩ := Option.map_eq_some_iff.1 h
      cases hr
      obtain ⟨hstays, hrefs⟩ := CreateTransport.stays hs hi hc hpoint
      exact ⟨hstays, rfl, hrefs⟩
  | removePeer roomId peerId done =>
      cases done <;> cases h
      exact ⟨removePeer_stays hs peerId, rfl, by simp [refs]⟩
  | startRecording roomId peers point =>
      obtain ⟨⟨s', point'⟩, hpoint, hr⟩ := Option.map_eq_some_iff.1 h
      cases hr
      exact ⟨startRecording_stays hs hpoint, rfl, by simp [refs]⟩
  | stopRecording roomId point =>
      obtain ⟨⟨s', point'⟩, hpoint, hr⟩ := Option.map_eq_some_iff.1 h
      cases hr
      exact ⟨stopRecording_stays hs hpoint, rfl, by simp [refs]⟩
  | closeRoom roomId point =>
      obtain ⟨⟨s', point'⟩, hpoint, hr⟩ := Option.map_eq_some_iff.1 h
      cases hr
      obtain ⟨hstays, hrefs⟩ := CloseRoom.stays hs hc hpoint
      exact ⟨hstays, rfl, hrefs⟩

theorem sameRoom (h : s.SameRoom roomOf c.roomId u) (hs : s.Separated roomOf)
    (hi : roomOf i = c.roomId) (hc : ∀ t ∈ c.refs, roomOf t = c.roomId)
    (hcalls : c'.unplaced = c.unplaced) :
    Option.Rel (fun a b => a.1.SameRoom roomOf c.roomId b.1 ∧ b.2.unplaced = a.2.unplaced)
      (c.step i ok s) (c'.step i ok u) := by
  cases c with
  | getOrCreateRoom roomId point =>
      obtain ⟨point', rfl, hpoint⟩ : ∃ point', c' = .getOrCreateRoom roomId point' ∧
          point'.unplaced = point.unplaced := by
        cases c' with
        | getOrCreateRoom roomId' point' =>
            obtain ⟨rfl, hpoint⟩ := Call.getOrCreateRoom.inj hcalls
            exact ⟨point', rfl, hpoint⟩
        | _ => cases hcalls
      exact rel_map (GetOrCreateRoom.sameRoom h hc hpoint) fun a b hab =>
        ⟨hab.1, congrArg (Call.getOrCreateRoom roomId) hab.2⟩
  | createTransport roomId peerId direction point =>
      obtain rfl : c' = .createTransport roomId peerId direction point := by
        cases c' <;> first | exact hcalls | cases hcalls
      exact rel_map (CreateTransport.sameRoom h hs hi hc) fun a b hab =>
        ⟨hab.1, by rw [hab.2]⟩
  | removePeer roomId peerId done =>
      obtain rfl : c' = .removePeer roomId peerId done := by
        cases c' <;> first | exact hcalls | cases hcalls
      cases done
      · exact .some ⟨removePeer_sameRoom h hs peerId, rfl⟩
      · exact .none
  | startRecording roomId peers point =>
      obtain rfl : c' = .startRecording roomId peers point := by
        cases c' <;> first | exact hcalls | cases hcalls
      exact rel_map (startRecording_sameRoom h hs) fun a b hab => ⟨hab.1, by rw [hab.2]⟩
  | stopRecording roomId point =>
      obtain rfl : c' = .stopRecording roomId point := by
        cases c' <;> first | exact hcalls | cases hcalls
      exact rel_map (stopRecording_sameRoom h hs) fun a b hab => ⟨hab.1, by rw [hab.2]⟩
  | closeRoom roomId point =>
      obtain rfl : c' = .closeRoom roomId point := by
        cases c' <;> first | exact hcalls | cases hcalls
      exact rel_map (CloseRoom.sameRoom h hs hc) fun a b hab => ⟨hab.1, by rw [hab.2]⟩

end Call

end RoomCalls

end MeetServer.Sfu
