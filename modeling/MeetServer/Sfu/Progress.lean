import MeetServer.Foundation.Progress
import MeetServer.Sfu.PeerIsolation

/-!
# Calls that can go on

What a call of `MediaRoomsService` waits for comes from outside, except for the
promise of a pending creation, which another call settles.  `Awaited` says that
this call is still under way, and `Named` which call has made a peer.
-/

namespace MeetServer.Sfu

open MeetServer.Foundation

variable {Ref : Type}

/-! ## How far a method has come -/

def GetOrCreateRoom.rank : GetOrCreateRoom Ref → Nat
  | .call => 2
  | .pending _ | .createRouter _ => 1
  | .returned _ | .threw => 0

def CreateTransport.rank : CreateTransport Ref → Nat
  | .call => 2
  | .createWebRtcTransport .. => 1
  | .returned _ | .threw => 0

def Recording.rank : Recording Ref → Nat
  | .call => 2
  | .files _ => 1
  | .returned | .threw => 0

def CloseRoom.rank : CloseRoom Ref → Nat
  | .call => 2
  | .stopRecording _ => 1
  | .returned _ | .threw => 0

def Produce.rank : Produce Ref → Nat
  | .call => 3
  | .transportProduce .. => 2
  | .tapProducer _ => 1
  | .returned _ | .threw => 0

def Produce.settled : Produce Ref → Bool
  | .returned _ | .threw => true
  | _ => false

section Rank

variable [DecidableEq Ref] {i : Ref} {ok : Bool} {roomId : RoomId} {peerId : PeerId}
  {s s' : State Ref}

theorem GetOrCreateRoom.rank_lt_of_step {point point' : GetOrCreateRoom Ref}
    (h : point.step i roomId ok s = some (s', point')) : point'.rank < point.rank := by
  cases point with
  | call =>
      simp only [step, createRoom] at h
      split at h
      · cases h
        exact Nat.zero_lt_two
      · cases h
        exact Nat.one_lt_two
      · split at h <;> cases h
        · exact Nat.zero_lt_two
        · exact Nat.one_lt_two
  | pending creation =>
      simp only [step] at h
      split at h <;> cases h <;> exact Nat.one_pos
  | createRouter worker => cases ok <;> cases h <;> exact Nat.one_pos
  | returned | threw => cases h

theorem CreateTransport.rank_lt_of_step {direction : TransportDirection}
    {point point' : CreateTransport Ref}
    (h : point.step i roomId peerId direction ok s = some (s', point')) :
    point'.rank < point.rank := by
  cases point with
  | call =>
      simp only [step] at h
      split at h <;> cases h
      · exact Nat.zero_lt_two
      · exact Nat.one_lt_two
  | createWebRtcTransport r object peerExisted =>
      have hassigned (s : State Ref) :
          (assignTransport i peerId direction r object s).2.rank = 0 := by
        unfold assignTransport
        split
        · rfl
        · split <;> rfl
      simp only [step] at h
      split at h
      · split at h
        · have hpoint := hassigned (s.openTransport i r)
          rw [Option.some.inj h] at hpoint
          rw [hpoint]
          exact Nat.one_pos
        · cases h
      · split at h <;> cases h <;> exact Nat.one_pos
  | returned | threw => cases h

theorem Recording.rank_lt_of_start {peers : List (PeerId × String)} {point point' : Recording Ref}
    (h : startRecordingStep roomId peers ok s point = some (s', point')) :
    point'.rank < point.rank := by
  cases point with
  | call =>
      simp only [startRecordingStep] at h
      split at h <;> cases h
      · exact Nat.zero_lt_two
      · exact Nat.one_lt_two
  | files r => cases ok <;> cases h <;> exact Nat.one_pos
  | returned | threw => cases h

theorem Recording.rank_lt_of_stop {point point' : Recording Ref}
    (h : stopRecordingStep roomId ok s point = some (s', point')) :
    point'.rank < point.rank := by
  cases point with
  | call =>
      simp only [stopRecordingStep] at h
      split at h <;> cases h
      · exact Nat.zero_lt_two
      · exact Nat.one_lt_two
  | files r => cases ok <;> cases h <;> exact Nat.one_pos
  | returned | threw => cases h

theorem CloseRoom.rank_lt_of_step {point point' : CloseRoom Ref}
    (h : point.step roomId ok s = some (s', point')) : point'.rank < point.rank := by
  cases point with
  | call =>
      simp only [step] at h
      split at h
      · cases h
        exact Nat.zero_lt_two
      · split at h
        · cases h
          exact Nat.zero_lt_two
        · split at h <;> cases h
          · exact Nat.one_lt_two
          · exact Nat.zero_lt_two
  | stopRecording r => cases ok <;> cases h <;> exact Nat.one_pos
  | returned | threw => cases h

theorem Produce.rank_lt_of_step {transportId : Ref} {kind : MediaKind} {point point' : Produce Ref}
    (h : point.step i roomId peerId transportId kind ok s = some (s', point')) :
    point'.rank < point.rank := by
  cases point with
  | call =>
      simp only [step] at h
      split at h
      · cases h
        exact Nat.zero_lt_succ 2
      · split at h
        · cases h
          exact Nat.zero_lt_succ 2
        · split at h <;> cases h
          · exact Nat.lt_succ_self 2
          · exact Nat.zero_lt_succ 2
  | transportProduce r object transport =>
      have hproduced (s : State Ref) : (afterProduce i roomId kind s).rank < 2 := by
        unfold afterProduce
        split
        · exact Nat.zero_lt_two
        · split
          · exact Nat.one_lt_two
          · exact Nat.zero_lt_two
      simp only [step] at h
      split at h
      · split at h <;> cases h
        exact hproduced _
      · cases h
        exact Nat.zero_lt_two
  | tapProducer producer => cases ok <;> cases h <;> exact Nat.one_pos
  | returned | threw => cases h

/-- Closing a room settles no promise. -/
theorem CloseRoom.promises_of_step {point point' : CloseRoom Ref}
    (h : point.step roomId ok s = some (s', point')) :
    s'.pendingRooms = s.pendingRooms ∧ s'.creation = s.creation := by
  cases point with
  | call =>
      simp only [step] at h
      split at h
      · cases h
        exact ⟨rfl, rfl⟩
      · split at h
        · cases h
          exact ⟨rfl, rfl⟩
        · split at h <;> cases h <;> exact ⟨rfl, rfl⟩
  | stopRecording r => cases ok <;> cases h <;> exact ⟨rfl, rfl⟩
  | returned | threw => cases h

end Rank

namespace Call

/-- Returned or thrown. -/
def settled : Call Ref → Bool
  | .getOrCreateRoom _ (.returned _) | .getOrCreateRoom _ .threw
  | .createTransport _ _ _ (.returned _) | .createTransport _ _ _ .threw
  | .removePeer _ _ true
  | .startRecording _ _ .returned | .startRecording _ _ .threw
  | .stopRecording _ .returned | .stopRecording _ .threw
  | .closeRoom _ (.returned _) | .closeRoom _ .threw => true
  | _ => false

/-- The room id and the pending creation that the call waits for. -/
def awaits : Call Ref → Option (RoomId × Ref)
  | .getOrCreateRoom roomId (.pending creation) => some (roomId, creation)
  | _ => none

/-- The call has gone into the recording service. -/
def recording : Call Ref → Bool
  | .startRecording _ _ (.files _) | .stopRecording _ (.files _)
  | .closeRoom _ (.stopRecording _) => true
  | _ => false

/-- How often the call has still to go on, at most. -/
def rank : Call Ref → Nat
  | .getOrCreateRoom _ point => point.rank
  | .createTransport _ _ _ point => point.rank
  | .removePeer _ _ done => if done then 0 else 1
  | .startRecording _ _ point | .stopRecording _ point => point.rank
  | .closeRoom _ point => point.rank

variable [DecidableEq Ref] {s : State Ref} {c : Call Ref}

/-- Some answer lets the call go on, unless it waits for a creation that has not settled. -/
theorem exists_step (i : Ref) (hsettled : c.settled = false)
    (hawaits : ∀ roomId creation, c.awaits = some (roomId, creation) →
      s.creation creation ≠ none) : ∃ ok, (c.step i ok s).isSome := by
  cases c with
  | getOrCreateRoom roomId point =>
      cases point with
      | call =>
          refine ⟨true, ?_⟩
          simp only [step, GetOrCreateRoom.step, Option.isSome_map]
          split <;> rfl
      | pending creation =>
          obtain ⟨outcome, houtcome⟩ := Option.ne_none_iff_exists'.1
            (hawaits roomId creation rfl)
          refine ⟨true, ?_⟩
          cases outcome <;> simp [step, GetOrCreateRoom.step, houtcome]
      | createRouter worker => exact ⟨true, rfl⟩
      | returned | threw => cases hsettled
  | createTransport roomId peerId direction point =>
      cases point with
      | call =>
          refine ⟨true, ?_⟩
          simp only [step, CreateTransport.step, Option.isSome_map]
          split <;> rfl
      | createWebRtcTransport r object peerExisted =>
          refine ⟨false, ?_⟩
          cases peerExisted <;> rfl
      | returned | threw => cases hsettled
  | removePeer roomId peerId done =>
      cases done with
      | true => cases hsettled
      | false => exact ⟨true, rfl⟩
  | startRecording roomId peers point =>
      cases point with
      | call =>
          refine ⟨true, ?_⟩
          simp only [step, startRecordingStep, Option.isSome_map]
          split <;> rfl
      | files => exact ⟨true, rfl⟩
      | returned | threw => cases hsettled
  | stopRecording roomId point =>
      cases point with
      | call =>
          refine ⟨true, ?_⟩
          simp only [step, stopRecordingStep, Option.isSome_map]
          split <;> rfl
      | files => exact ⟨true, rfl⟩
      | returned | threw => cases hsettled
  | closeRoom roomId point =>
      cases point with
      | call =>
          refine ⟨true, ?_⟩
          simp only [step, CloseRoom.step, Option.isSome_map]
          split
          · rfl
          · split
            · rfl
            · split <;> rfl
      | stopRecording => exact ⟨true, rfl⟩
      | returned | threw => cases hsettled

/-- Whatever comes of the recording, the call goes on. -/
theorem step_of_recording (i : Ref) (ok : Bool) (h : c.recording = true) :
    (c.step i ok s).isSome := by
  cases c with
  | startRecording roomId peers point | stopRecording roomId point =>
      cases point with
      | files => rfl
      | call | returned | threw => cases h
  | closeRoom roomId point =>
      cases point with
      | stopRecording => cases ok <;> rfl
      | call | returned | threw => cases h
  | getOrCreateRoom | createTransport | removePeer => cases h

theorem rank_lt_of_step {i : Ref} {ok : Bool} {s' : State Ref} {c' : Call Ref}
    (h : c.step i ok s = some (s', c')) : c'.rank < c.rank := by
  cases c with
  | removePeer roomId peerId done =>
      cases done <;> cases h
      exact Nat.one_pos
  | getOrCreateRoom | createTransport | startRecording | stopRecording | closeRoom =>
      obtain ⟨⟨s₁, point'⟩, hstep, heq⟩ := Option.map_eq_some_iff.1 h
      cases heq
      first
        | exact GetOrCreateRoom.rank_lt_of_step hstep
        | exact CreateTransport.rank_lt_of_step hstep
        | exact Recording.rank_lt_of_start hstep
        | exact Recording.rank_lt_of_stop hstep
        | exact CloseRoom.rank_lt_of_step hstep

omit [DecidableEq Ref] in
theorem settled_of_recording (h : c.recording = true) : c.settled = false := by
  cases c with
  | startRecording roomId peers point | stopRecording roomId point
  | closeRoom roomId point => cases point <;> first | rfl | cases h
  | getOrCreateRoom | createTransport | removePeer => cases h

theorem settled_step {i : Ref} {ok : Bool} (h : c.settled = true) : c.step i ok s = none := by
  cases c with
  | getOrCreateRoom roomId point | createTransport roomId peerId direction point
  | startRecording roomId peers point | stopRecording roomId point
  | closeRoom roomId point => cases point <;> first | rfl | cases h
  | removePeer roomId peerId done => cases done <;> first | rfl | cases h

end Call

section Cases

variable [DecidableEq Ref] {i : Ref} {ok : Bool} {s s' : State Ref}

/-- A refused `transport.produce` lets the call go on. -/
theorem Produce.exists_step (i : Ref) (roomId : RoomId) (peerId : PeerId) (transportId : Ref)
    (kind : MediaKind) (s : State Ref) {point : Produce Ref} (hsettled : point.settled = false) :
    ∃ ok, (point.step i roomId peerId transportId kind ok s).isSome := by
  cases point with
  | call =>
      refine ⟨true, ?_⟩
      simp only [Produce.step]
      split
      · rfl
      · split
        · rfl
        · split <;> rfl
  | transportProduce r object transport => exact ⟨false, rfl⟩
  | tapProducer producer => exact ⟨true, rfl⟩
  | returned | threw => cases hsettled

end Cases

/-! ## Pending creations -/

/-- A creation that a call waits for has settled or is the pending one. -/
def Awaited (p : Process Ref) : Prop :=
  ∀ i roomId creation, (p.proc i).awaits = some (roomId, creation) →
    p.world.creation creation ≠ none ∨ p.world.pendingRooms roomId = some creation

theorem Awaited.spawned (workers : List Worker) (requests : Ref → Request) :
    Awaited (Process.spawned workers requests) := by
  intro i roomId creation h
  cases hr : requests i <;> simp [Process.spawned, Request.call, hr, Call.awaits] at h

variable [DecidableEq Ref] {p : Process Ref} {i : Ref} {s' : State Ref} {c' : Call Ref}

/-- Where the maps stay as they are, only what the call itself awaits has to be looked at. -/
theorem Awaited.frame (h : Awaited p) (hcreation : s'.creation = p.world.creation)
    (hpending : s'.pendingRooms = p.world.pendingRooms)
    (hawaits : ∀ roomId creation, c'.awaits = some (roomId, creation) →
      p.world.creation creation ≠ none ∨ p.world.pendingRooms roomId = some creation) :
    Awaited (p.set i s' c') := by
  intro j roomId creation hj
  rw [Pool.set_world, hcreation, hpending]
  rw [Pool.set_proc] at hj
  split at hj
  · exact hawaits roomId creation hj
  · exact h j roomId creation hj

/-- A promise settles only while it is the pending one of its room. -/
theorem Awaited.settles (h : Awaited p) {roomId : RoomId} {outcome : Settlement Ref}
    (hown : p.world.pendingRooms roomId = some i)
    (hcreation : s'.creation = Function.update p.world.creation i (some outcome))
    (hpending : s'.pendingRooms = Function.update p.world.pendingRooms roomId none)
    (hawaits : c'.awaits = none) : Awaited (p.set i s' c') := by
  intro j roomId' creation hj
  rw [Pool.set_world, hcreation, hpending]
  rw [Pool.set_proc] at hj
  split at hj
  · cases hawaits.symm.trans hj
  · by_cases hself : creation = i
    · exact .inl (by simp [hself])
    · rw [Function.update_of_ne hself]
      refine (h j roomId' creation hj).imp_right fun hold => ?_
      by_cases hroom : roomId' = roomId
      · rw [hroom, hown] at hold
        exact (hself (Option.some.inj hold).symm).elim
      · rwa [Function.update_of_ne hroom]

theorem Awaited.step {ok : Bool} (h : Awaited p) (hreg : Registry p)
    (hs : Step i p.world ok (p.proc i) s' c') : Awaited (p.set i s' c') := by
  have hown := hreg.creating i
  generalize p.proc i = c at hs hown
  cases hs with
  | «local» hl hl' hframe =>
      refine h.frame hframe.creation hframe.pendingRooms fun roomId creation hawaits => ?_
      cases c' <;> first | cases hawaits | exact hl'.elim
  | waits hnone hpending =>
      refine h.frame rfl rfl ?_
      rintro _ _ ⟨⟩
      exact .inr hpending
  | @reserved _ roomId _ _ hnone hpending =>
      intro j roomId' creation hj
      rw [Pool.set_proc] at hj
      split at hj
      · cases hj
      · refine (h j roomId' creation hj).imp_right fun hold => ?_
        have hroom : roomId' ≠ roomId := by
          rintro rfl
          cases hpending.symm.trans hold
        simpa [State.beginCreation, hroom] using hold
  | @created roomId => exact h.settles (hown roomId rfl).1 rfl rfl rfl
  | @rejected roomId => exact h.settles (hown roomId rfl).1 rfl rfl rfl
  | _ => exact h.frame rfl rfl (by rintro _ _ ⟨⟩)

/-! ## The names of the peers -/

/-- A peer has been made by a `createTransport` call for its own id. -/
def Named (p : Process Ref) : Prop :=
  ∀ r peerId peer, (p.world.room r).getPeer peerId = some peer →
    ∃ roomId direction point,
      p.proc peer.object = .createTransport roomId peerId direction point

omit [DecidableEq Ref] in
theorem Named.spawned (workers : List Worker) (requests : Ref → Request) :
    Named (Process.spawned workers requests) :=
  fun _ _ _ h => by cases h

theorem Call.createTransport_step {ok : Bool} {s s' : State Ref} {c c' : Call Ref}
    {roomId : RoomId} {peerId : PeerId} {direction : TransportDirection}
    {point : CreateTransport Ref} (h : c.step i ok s = some (s', c'))
    (hc : c = .createTransport roomId peerId direction point) :
    ∃ point', c' = .createTransport roomId peerId direction point' := by
  subst hc
  obtain ⟨point', rfl, -⟩ := Call.createTransport_cases h
  exact ⟨point', rfl⟩

theorem Named.step {ok : Bool} (h : Named p) (hreg : TransportRegistry p)
    (hcall : (p.proc i).step i ok p.world = some (s', c')) : Named (p.set i s' c') := by
  have hevolves := Call.evolves hreg.wired (hreg.unmade i) (hreg.router_ne hcall) hcall
  intro r peerId peer' hpeer'
  rcases hevolves.object r peerId peer' hpeer' with ⟨peer, hpeer, hobject⟩ | ⟨hentry, hobject⟩
  · obtain ⟨roomId, direction, point, hproc⟩ := h r peerId peer hpeer
    rw [hobject, Pool.set_proc]
    split
    · next heq =>
      rw [heq] at hproc
      obtain ⟨point', rfl⟩ := Call.createTransport_step hcall hproc
      exact ⟨roomId, direction, point', rfl⟩
    · exact ⟨roomId, direction, point, hproc⟩
  · rw [hobject, Pool.set_proc_self]
    generalize hc : p.proc i = c at hentry hcall
    unfold Call.beginning at hentry
    split at hentry
    · next roomId q direction =>
      obtain ⟨v, -, hv⟩ := Option.map_eq_some_iff.1 hentry
      cases hv
      obtain ⟨point', rfl⟩ := Call.createTransport_step hcall rfl
      exact ⟨roomId, direction, point', rfl⟩
    · cases hentry

omit [DecidableEq Ref] in
/-- Two peers with one object have one id. -/
theorem Named.unique (h : Named p) {r v : Ref} {peerId q : PeerId} {peer peer' : MediaPeer Ref}
    (hpeer : (p.world.room r).getPeer peerId = some peer)
    (hpeer' : (p.world.room v).getPeer q = some peer') (heq : peer.object = peer'.object) :
    peerId = q := by
  obtain ⟨roomId, direction, point, hproc⟩ := h r peerId peer hpeer
  obtain ⟨roomId', direction', point', hproc'⟩ := h v q peer' hpeer'
  rw [heq, hproc'] at hproc
  cases hproc
  rfl

omit [DecidableEq Ref] in
theorem Named.nodup_objects (h : Named p) (r : Ref) :
    ((Dict.values (p.world.room r).peers).map MediaPeer.object).Nodup := by
  have hkeys : (p.world.room r).peers.entries.Pairwise fun entry other => entry.1 ≠ other.1 := by
    have hnodup := (p.world.room r).peers.nodupKeys
    rwa [List.NodupKeys, List.nodup_iff_pairwise_ne, List.keys, List.pairwise_map] at hnodup
  rw [Dict.values, List.map_map, List.nodup_iff_pairwise_ne, List.pairwise_map]
  refine hkeys.imp_of_mem fun hentry hother hne heq => hne ?_
  exact h.unique (Dict.mem_entries_iff.1 hentry) (Dict.mem_entries_iff.1 hother) heq

/-- The rooms, the transports, the pending creations and the peers of a process. -/
structure Orderly (p : Process Ref) : Prop extends TransportRegistry p where
  awaited : Awaited p
  named : Named p

omit [DecidableEq Ref] in
theorem Orderly.spawned (workers : List Worker) (requests : Ref → Request) :
    Orderly (Process.spawned workers requests) :=
  ⟨.spawned workers requests, .spawned workers requests, .spawned workers requests⟩

theorem Orderly.step {ok : Bool} (h : Orderly p)
    (hcall : (p.proc i).step i ok p.world = some (s', c')) : Orderly (p.set i s' c') where
  toTransportRegistry := TransportRegistry.preserves h.toTransportRegistry trivial
    (Pool.step_eq_some.2 ⟨s', c', hcall, rfl⟩)
  awaited := h.awaited.step h.toRegistry (Call.step_cases hcall)
  named := h.named.step h.toTransportRegistry hcall

/-- Other calls may change a peer, except for its names and its transports. -/
theorem Orderly.updatePeer (h : Orderly p) {r object : Ref} {peerId : PeerId}
    {f : MediaPeer Ref → MediaPeer Ref} (hcall : p.proc i = .removePeer "" "" true)
    (hid : ∀ peer, (f peer).id = peer.id) (hobject : ∀ peer, (f peer).object = peer.object)
    (hfor : ∀ peer direction, (f peer).transportFor direction = peer.transportFor direction) :
    Orderly (p.set i (p.world.updatePeer r peerId object f) (.removePeer "" "" true)) where
  toTransportRegistry := h.toTransportRegistry.frame hcall State.frame_updatePeer
    (h.wired.updatePeer hid hfor) State.transport_updatePeer
  awaited := h.awaited.frame State.frame_updatePeer.creation State.frame_updatePeer.pendingRooms
    nofun
  named := by
    intro v q peer' hpeer'
    rw [Pool.set_world, State.getPeer_updatePeer h.wired.keyed hid] at hpeer'
    obtain ⟨peer, hpeer, rfl⟩ := Option.map_eq_some_iff.1 hpeer'
    have hsame : (p.set i (p.world.updatePeer r peerId object f)
        (.removePeer "" "" true)).proc = p.proc := by
      rw [Pool.set, ← hcall, Function.update_eq_self]
    rw [hsame]
    split
    · rw [hobject]
      exact h.named v q peer hpeer
    · exact h.named v q peer hpeer

end MeetServer.Sfu
