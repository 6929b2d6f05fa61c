import MeetServer.Realtime.PeersHash

/-!
# `closeRoom` among the other calls

`addPeer`, `removePeer` and `closeRoom` of `RoomsService` run next to the calls
that contain them.  Only the script deletes the record and the peers hash, so a
`closeRoom` that has read stale keys takes no member with it.
-/

namespace MeetServer.Realtime

open MeetServer.Foundation

variable {ι κ : Type}

/-! ## `addPeer`, `removePeer` and `closeRoom` -/

inductive AddPeer where
  | hset
  | expire
  | returned
  | threw
  deriving DecidableEq, Repr

inductive RemovePeer where
  | hdel
  | del
  | returned
  | threw
  deriving DecidableEq, Repr

inductive CloseRoom where
  | hkeys
  | closeRoomIfEmpty (peerIds : List PeerId)
  | delProducers (todo : List PeerId) (rejected : Bool)
  | returned (closed : Bool)
  | threw
  deriving DecidableEq, Repr

section Keys

variable {Ref : Type} (keys : RoomKeys Ref)

def AddPeer.step (peer : Peer) (ok : Bool) :
    AddPeer → Option (RoomKeys Ref × AddPeer)
  | .hset => some (if ok then (keys.hset peer, .expire) else (keys, .threw))
  | .expire => some (keys, if ok then .returned else .threw)
  | .returned | .threw => none

def RemovePeer.step (peerId : PeerId) (ok : Bool) :
    RemovePeer → Option (RoomKeys Ref × RemovePeer)
  | .hdel => some (if ok then (keys.hdel peerId, .del) else (keys, .threw))
  | .del =>
      some (if ok then (keys.delProducers peerId, .returned) else (keys, .threw))
  | .returned | .threw => none

/-- `Promise.all` over the deletions; all of them are carried out. -/
def CloseRoom.nextDel (rejected : Bool) : List PeerId → CloseRoom
  | [] => if rejected then .threw else .returned true
  | todo => .delProducers todo rejected

def CloseRoom.step (ok : Bool) : CloseRoom → Option (RoomKeys Ref × CloseRoom)
  | .hkeys => some (keys, if ok then .closeRoomIfEmpty keys.hkeys else .threw)
  | .closeRoomIfEmpty peerIds =>
      if ok then
        let result := keys.closeRoomIfEmpty
        some (result.1, if result.2 then nextDel false peerIds else .returned false)
      else some (keys, .threw)
  | .delProducers (peerId :: todo) rejected =>
      some (if ok then (keys.delProducers peerId, nextDel rejected todo)
        else (keys, nextDel true todo))
  | .delProducers [] _ | .returned _ | .threw => none

end Keys

/-! ## The pool -/

inductive RoomsCall (ι κ : Type) where
  | signaling (call : Call ι κ)
  | addPeer (peer : Peer) (point : AddPeer)
  | removePeer (peerId : PeerId) (point : RemovePeer)
  | closeRoom (point : CloseRoom)

inductive RoomsRequest where
  | signaling (request : Request)
  | addPeer (peer : Peer)
  | removePeer (peerId : PeerId)
  | closeRoom
  deriving DecidableEq, Repr

def RoomsRequest.call : RoomsRequest → RoomsCall ι κ
  | .signaling request => .signaling request.call
  | .addPeer peer => .addPeer peer .hset
  | .removePeer peerId => .removePeer peerId .hdel
  | .closeRoom => .closeRoom .hkeys

namespace RoomsCall

/-- The peer whose entry the next step deletes. -/
def removing : RoomsCall ι κ → Option PeerId
  | .signaling call => call.removing
  | .removePeer peerId .hdel => some peerId
  | _ => none

/-- The next step is the script. -/
def atCloseRoomIfEmpty : RoomsCall ι κ → Bool
  | .signaling call => call.atCloseRoomIfEmpty
  | .closeRoom (.closeRoomIfEmpty _) => true
  | _ => false

/-- The script has answered 1. -/
def hasClosed : RoomsCall ι κ → Bool
  | .signaling (.leave _ (.delProducerHashes _ _ _))
  | .signaling (.leave _ (.closed _ _ _))
  | .closeRoom (.delProducers _ _) | .closeRoom (.returned true) => true
  | _ => false

def hasThrown : RoomsCall ι κ → Bool
  | .signaling (.leave _ .threw) | .closeRoom .threw => true
  | _ => false

/-- What `closeRoom` has returned, on its own or within a leave that is over. -/
def closeRoomResult : RoomsCall ι κ → Option Bool
  | .closeRoom (.returned closed) => some closed
  | .signaling (.leave _ (.closed _ _ _)) => some true
  | .signaling (.leave _ .returned) => some false
  | _ => none

/-- A leave that has asked the sfu to close the MediaRoom and Redis to delete
the chat. -/
def tearsDown : RoomsCall ι κ → Bool
  | .signaling (.leave _ (.closed _ _ _)) => true
  | _ => false

variable [DecidableEq ι] [DecidableEq κ]

def step (roomId : RoomId) (i : ι) (event : Event) (w : World ι κ) :
    RoomsCall ι κ → Option (World ι κ × RoomsCall ι κ)
  | .signaling call =>
      (call.step roomId i event w).map fun r => (r.1, .signaling r.2)
  | .addPeer peer point =>
      match event with
      | .settle ok => (point.step w.redis peer ok).map fun r =>
          (w.setRedis r.1, .addPeer peer r.2)
      | _ => none
  | .removePeer peerId point =>
      match event with
      | .settle ok => (point.step w.redis peerId ok).map fun r =>
          (w.setRedis r.1, .removePeer peerId r.2)
      | _ => none
  | .closeRoom point =>
      match event with
      | .settle ok => (point.step w.redis ok).map fun r =>
          (w.setRedis r.1, .closeRoom r.2)
      | _ => none

end RoomsCall

abbrev RoomsCalls (ι κ : Type) := Pool ι (World ι κ) (RoomsCall ι κ)

def RoomsCalls.issued (w : World ι κ) (requests : ι → RoomsRequest) :
    RoomsCalls ι κ :=
  ⟨w, fun i => (requests i).call⟩

variable [DecidableEq ι] [DecidableEq κ]

def roomsCalls (roomId : RoomId) : System (RoomsCalls ι κ) (ι × Event) :=
  Pool.system (RoomsCall.step roomId)

/-- The step takes out no member but the one whose removal it is, and deletes
no record of a room with members. -/
def MembersStay (roomId : RoomId) (s : RoomsCalls ι κ) (a : ι × Event) : Prop :=
  (∀ p ∈ s.world.redis.peers,
    p ∉ ((roomsCalls roomId).next s a).world.redis.peers →
      (s.proc a.1).removing = some p) ∧
  (s.world.redis.room.isSome →
    ((roomsCalls roomId).next s a).world.redis.room = none →
      s.world.redis.hlen = 0)

/-- Call `i` runs the script and it finds the peers hash empty. -/
def ClosesEmpty (i : ι) (s : RoomsCalls ι κ) (a : ι × Event) : Prop :=
  a.1 = i ∧ a.2.ok = true ∧ (s.proc i).atCloseRoomIfEmpty ∧
    s.world.redis.hlen = 0

/-! ## What a step does -/

theorem Join.Step.record {i : ι} {instanceId : Instance} {roomId : RoomId}
    {peer : Peer} {ok : Bool} {w w' : World ι κ} {point point' : Join ι κ}
    (h : Join.Step i instanceId roomId peer w ok point w' point')
    (hroom : w.redis.room.isSome) : w'.redis.room.isSome := by
  cases h with
  | room hroom' => cases hroom' <;> first | exact hroom | rfl
  | _ => exact hroom

theorem Leave.Step.record {roomId : RoomId} {peerId : PeerId} {ok : Bool}
    {w w' : World ι κ} {point point' : Leave ι κ}
    (h : Leave.Step roomId peerId w ok point w' point')
    (hroom : w.redis.room.isSome) (hgone : w'.redis.room = none) :
    w.redis.hlen = 0 := by
  cases h with
  | closed hempty => exact hempty
  | _ => rw [show w.redis.room = none from hgone] at hroom; cases hroom

/-- The script deletes the record with an empty hash only. -/
theorem RoomKeys.closeRoomIfEmpty_cases {Ref : Type} (keys : RoomKeys Ref) :
    (keys.hlen = 0 ∧ keys.closeRoomIfEmpty =
        ({ keys with room := none, peers := ∅ }, true)) ∨
      (keys.hlen ≠ 0 ∧ keys.closeRoomIfEmpty = (keys, false)) := by
  by_cases hempty : keys.hlen = 0
  · exact .inl ⟨hempty, if_pos hempty⟩
  · exact .inr ⟨hempty, if_neg hempty⟩

/-- The step of a standalone call, by what it does to the keys. -/
inductive CloseRoom.Step {Ref : Type} (keys : RoomKeys Ref) :
    Bool → CloseRoom → RoomKeys Ref → CloseRoom → Prop
  | listed : Step keys true .hkeys keys (.closeRoomIfEmpty keys.hkeys)
  | closed {peerIds : List PeerId} : keys.hlen = 0 →
      Step keys true (.closeRoomIfEmpty peerIds)
        { keys with room := none, peers := ∅ } (nextDel false peerIds)
  | refused {peerIds : List PeerId} : keys.hlen ≠ 0 →
      Step keys true (.closeRoomIfEmpty peerIds) keys (.returned false)
  | swept {peerId : PeerId} {todo : List PeerId} {rejected : Bool} :
      Step keys true (.delProducers (peerId :: todo) rejected) (keys.delProducers peerId)
        (nextDel rejected todo)
  | unswept {peerId : PeerId} {todo : List PeerId} {rejected : Bool} :
      Step keys false (.delProducers (peerId :: todo) rejected) keys (nextDel true todo)
  | threw {point : CloseRoom} : Step keys false point keys .threw

theorem CloseRoom.step_cases {Ref : Type} {keys keys' : RoomKeys Ref} {ok : Bool}
    {point point' : CloseRoom} (h : point.step keys ok = some (keys', point')) :
    Step keys ok point keys' point' := by
  cases point with
  | hkeys => cases ok <;> cases h <;> first | exact .threw | exact .listed
  | closeRoomIfEmpty peerIds =>
      cases ok with
      | false => cases h; exact .threw
      | true =>
          rcases keys.closeRoomIfEmpty_cases with ⟨hempty, hscript⟩ |
              ⟨hempty, hscript⟩ <;>
            simp only [step, if_true, hscript] at h <;> cases h
          · exact .closed hempty
          · exact .refused hempty
  | delProducers todo rejected =>
      cases todo with
      | nil => cases h
      | cons peerId todo =>
          cases ok <;> cases h <;> first | exact .unswept | exact .swept
  | returned | threw => cases h

/-- A step of the pool, by whose it is. -/
inductive RoomsCall.Step (roomId : RoomId) (i : ι) (event : Event)
    (w w' : World ι κ) : RoomsCall ι κ → RoomsCall ι κ → Prop
  | signaling {call call' : Call ι κ} :
      call.step roomId i event w = some (w', call') →
      Step roomId i event w w' (.signaling call) (.signaling call')
  | addPeer {peer : Peer} {point point' : AddPeer} :
      w'.redis = w.redis ∨ w'.redis = w.redis.hset peer →
      Step roomId i event w w' (.addPeer peer point) (.addPeer peer point')
  | removePeer {peerId : PeerId} {point point' : RemovePeer} :
      w'.redis = w.redis ∨ w'.redis = w.redis.delProducers peerId ∨
        (point = .hdel ∧ w'.redis = w.redis.hdel peerId) →
      Step roomId i event w w' (.removePeer peerId point)
        (.removePeer peerId point')
  | closeRoom {point point' : CloseRoom} :
      CloseRoom.Step w.redis event.ok point w'.redis point' →
      Step roomId i event w w' (.closeRoom point) (.closeRoom point')

theorem RoomsCall.step_cases {roomId : RoomId} {i : ι} {event : Event}
    {w w' : World ι κ} {c c' : RoomsCall ι κ}
    (h : c.step roomId i event w = some (w', c')) :
    Step roomId i event w w' c c' := by
  cases c with
  | signaling call =>
      simp only [step, Option.map_eq_some_iff, Prod.mk.injEq] at h
      obtain ⟨⟨w', call'⟩, hcall, rfl, rfl⟩ := h
      exact .signaling hcall
  | addPeer peer point =>
      cases event with
      | settle ok =>
          simp only [step, Option.map_eq_some_iff, Prod.mk.injEq] at h
          obtain ⟨⟨keys, point'⟩, hpoint, rfl, rfl⟩ := h
          refine .addPeer ?_
          cases point <;> cases ok <;> cases hpoint <;>
            first | exact .inl rfl | exact .inr rfl
      | _ => cases h
  | removePeer peerId point =>
      cases event with
      | settle ok =>
          simp only [step, Option.map_eq_some_iff, Prod.mk.injEq] at h
          obtain ⟨⟨keys, point'⟩, hpoint, rfl, rfl⟩ := h
          refine .removePeer ?_
          cases point <;> cases ok <;> cases hpoint <;>
            first | exact .inl rfl | exact .inr (.inl rfl) |
              exact .inr (.inr ⟨rfl, rfl⟩)
      | _ => cases h
  | closeRoom point =>
      cases event with
      | settle ok =>
          simp only [step, Option.map_eq_some_iff, Prod.mk.injEq] at h
          obtain ⟨⟨keys, point'⟩, hpoint, rfl, rfl⟩ := h
          exact .closeRoom (CloseRoom.step_cases hpoint)
      | _ => cases h

namespace RoomsCall.Step

variable {roomId : RoomId} {i : ι} {event : Event} {w w' : World ι κ}
  {c c' : RoomsCall ι κ}

theorem peers (h : Step roomId i event w w' c c') :
    w.redis.PeersStep w'.redis c.removing := by
  cases h with
  | signaling hcall => exact Call.peers_of_step hcall
  | addPeer hkeys =>
      rcases hkeys with hkeys | hkeys
      · exact .same (by rw [hkeys])
      · exact .hset _ hkeys
  | removePeer hkeys =>
      rcases hkeys with hkeys | hkeys | ⟨rfl, hkeys⟩
      · exact .same (by rw [hkeys])
      · exact .same (by rw [hkeys]; rfl)
      · exact .hdel _ rfl hkeys
  | closeRoom hpoint =>
      generalize w'.redis = keys', event.ok = ok at hpoint
      cases hpoint with
      | closed hempty => exact .closed hempty rfl
      | _ => exact .same rfl

theorem record (h : Step roomId i event w w' c c')
    (hroom : w.redis.room.isSome) (hgone : w'.redis.room = none) :
    w.redis.hlen = 0 := by
  have hnot (hkeeps : w'.redis.room = w.redis.room) : False := by
    rw [← hkeeps, hgone] at hroom
    cases hroom
  cases h with
  | @signaling call _ hcall =>
      cases call with
      | join instanceId peer point =>
          simp only [Call.step, Option.map_eq_some_iff, Prod.mk.injEq] at hcall
          obtain ⟨⟨w', point'⟩, hpoint, rfl, rfl⟩ := hcall
          have hsome := (Join.step_cases hpoint).record hroom
          rw [hgone] at hsome
          cases hsome
      | leave peerId point =>
          simp only [Call.step, Option.map_eq_some_iff, Prod.mk.injEq] at hcall
          obtain ⟨⟨w', point'⟩, hpoint, rfl, rfl⟩ := hcall
          exact (Leave.step_cases hpoint).record hroom hgone
      | createWebRtcTransport peerId direction point =>
          simp only [Call.step, Option.map_eq_some_iff, Prod.mk.injEq] at hcall
          obtain ⟨⟨w', point'⟩, hpoint, rfl, rfl⟩ := hcall
          have hsame := (CreateWebRtcTransport.step_cases hpoint).redis
          exact (hnot (by rw [hsame])).elim
  | addPeer hkeys =>
      have hsame : w'.redis.room = w.redis.room := by
        rcases hkeys with hkeys | hkeys <;> simp [hkeys, RoomKeys.hset]
      exact (hnot hsame).elim
  | removePeer hkeys =>
      have hsame : w'.redis.room = w.redis.room := by
        rcases hkeys with hkeys | hkeys | ⟨-, hkeys⟩ <;>
          simp [hkeys, RoomKeys.hdel, RoomKeys.delProducers]
      exact (hnot hsame).elim
  | closeRoom hpoint =>
      generalize w'.redis = keys', event.ok = ok at hpoint hgone hnot
      cases hpoint with
      | closed hempty => exact hempty
      | _ => exact (hnot rfl).elim

theorem closes (h : Step roomId i event w w' c c') (hnot : c.hasClosed = false)
    (hcloses : c'.hasClosed = true) :
    event.ok = true ∧ c.atCloseRoomIfEmpty ∧ w.redis.hlen = 0 := by
  cases h with
  | @signaling call _ hcall =>
      cases call with
      | leave peerId point =>
          simp only [Call.step, Option.map_eq_some_iff, Prod.mk.injEq] at hcall
          obtain ⟨⟨w', point'⟩, hpoint, rfl, rfl⟩ := hcall
          have hpoint := Leave.step_cases hpoint
          generalize event.ok = ok at hpoint
          cases hpoint with
          | closed hempty => exact ⟨rfl, rfl, hempty⟩
          | swept | unswept | closing | deleted | unclosed => cases hnot
          | _ => cases hcloses
      | join instanceId peer point | createWebRtcTransport peerId direction point =>
          simp only [Call.step, Option.map_eq_some_iff, Prod.mk.injEq] at hcall
          obtain ⟨⟨w', point'⟩, hpoint, rfl, rfl⟩ := hcall
          cases hcloses
  | addPeer | removePeer => cases hcloses
  | closeRoom hpoint =>
      generalize w'.redis = keys', event.ok = ok at hpoint
      cases hpoint with
      | closed hempty => exact ⟨rfl, rfl, hempty⟩
      | swept | unswept => cases hnot
      | _ => cases hcloses

omit [DecidableEq ι] [DecidableEq κ] in
theorem hasClosed_nextProducerHash (peerId : PeerId) (url : Url)
    (todo : List PeerId) :
    (RoomsCall.signaling (.leave peerId (.nextProducerHash url todo false)) :
      RoomsCall ι κ).hasClosed := by
  cases todo <;> rfl

omit [DecidableEq ι] [DecidableEq κ] in
theorem closed_or_threw_nextProducerHash (peerId : PeerId) (url : Url)
    (todo : List PeerId) (rejected : Bool) {c : RoomsCall ι κ}
    (hc : c = .signaling (.leave peerId (.nextProducerHash url todo rejected))) :
    c.hasClosed ∨ c.hasThrown := by
  subst hc
  cases todo
  · cases rejected
    · exact .inl rfl
    · exact .inr rfl
  · exact .inl rfl

omit [DecidableEq ι] [DecidableEq κ] in
theorem hasClosed_nextDel (todo : List PeerId) :
    (RoomsCall.closeRoom (.nextDel false todo) : RoomsCall ι κ).hasClosed := by
  cases todo <;> rfl

omit [DecidableEq ι] [DecidableEq κ] in
theorem closed_or_threw_nextDel (rejected : Bool) (todo : List PeerId)
    {c : RoomsCall ι κ} (hc : c = .closeRoom (.nextDel rejected todo)) :
    c.hasClosed ∨ c.hasThrown := by
  subst hc
  cases todo
  · cases rejected
    · exact .inl rfl
    · exact .inr rfl
  · exact .inl rfl

theorem hasClosed (h : Step roomId i event w w' c c') (hok : event.ok = true)
    (hscript : c.atCloseRoomIfEmpty) (hempty : w.redis.hlen = 0) :
    c'.hasClosed := by
  cases h with
  | @signaling call _ hcall =>
      cases call with
      | leave peerId point =>
          simp only [Call.step, Option.map_eq_some_iff, Prod.mk.injEq] at hcall
          obtain ⟨⟨w', point'⟩, hpoint, rfl, rfl⟩ := hcall
          have hpoint := Leave.step_cases hpoint
          rw [hok] at hpoint
          cases point with
          | closeRoomIfEmpty url peerIds =>
              cases hpoint with
              | closed => exact hasClosed_nextProducerHash _ _ _
              | refused hoccupied => exact (hoccupied hempty).elim
          | _ => cases hscript
      | _ => cases hscript
  | addPeer | removePeer => cases hscript
  | @closeRoom point point' hpoint =>
      rw [hok] at hpoint
      generalize w'.redis = keys' at hpoint
      cases hpoint with
      | closed => exact hasClosed_nextDel _
      | refused hoccupied => exact (hoccupied hempty).elim
      | _ => cases hscript

/-- A call that has closed the room goes on, or throws. -/
theorem closed_stays (h : Step roomId i event w w' c c')
    (hclosed : c.hasClosed ∨ c.hasThrown) : c'.hasClosed ∨ c'.hasThrown := by
  cases h with
  | @signaling call _ hcall =>
      cases call with
      | leave peerId point =>
          simp only [Call.step, Option.map_eq_some_iff, Prod.mk.injEq] at hcall
          obtain ⟨⟨w', point'⟩, hpoint, rfl, rfl⟩ := hcall
          have hpoint := Leave.step_cases hpoint
          generalize event.ok = ok at hpoint
          cases hpoint with
          | swept | unswept => exact closed_or_threw_nextProducerHash _ _ _ _ rfl
          | closing | deleted | unclosed => exact .inl rfl
          | threw => exact .inr rfl
          | _ => rcases hclosed with hclosed | hclosed <;> cases hclosed
      | _ => rcases hclosed with hclosed | hclosed <;> cases hclosed
  | addPeer | removePeer =>
      rcases hclosed with hclosed | hclosed <;> cases hclosed
  | closeRoom hpoint =>
      generalize w'.redis = keys', event.ok = ok at hpoint
      cases hpoint with
      | swept | unswept => exact closed_or_threw_nextDel _ _ rfl
      | threw => exact .inr rfl
      | _ => rcases hclosed with hclosed | hclosed <;> cases hclosed

end RoomsCall.Step

/-! ## Every run -/

variable {roomId : RoomId} {s s' : RoomsCalls ι κ} {i : ι} {a : ι × Event}

theorem membersStay (s : RoomsCalls ι κ) (a : ι × Event) :
    MembersStay roomId s a := by
  obtain ⟨i, event⟩ := a
  cases hstep : (roomsCalls roomId).step s (i, event) with
  | none =>
      rw [MembersStay, System.next_of_disabled hstep]
      refine ⟨fun p hp hnot => (hnot hp).elim, fun hroom hgone => ?_⟩
      rw [hgone] at hroom
      cases hroom
  | some s' =>
      rw [MembersStay, System.next_of_step hstep]
      obtain ⟨w', c', hcall, rfl⟩ := Pool.step_eq_some.1 hstep
      have hcall := RoomsCall.step_cases hcall
      refine ⟨fun p hp hnot => ?_, hcall.record⟩
      by_contra hremoving
      exact hnot (hcall.peers.mem hp hremoving)

theorem closesEmpty_of_step (hstep : (roomsCalls roomId).step s a = some s')
    (hnot : ¬ (s.proc i).hasClosed) (hcloses : (s'.proc i).hasClosed) :
    ClosesEmpty i s a := by
  obtain ⟨j, event⟩ := a
  obtain ⟨w', c', hcall, rfl⟩ := Pool.step_eq_some.1 hstep
  rw [Pool.set_proc] at hcloses
  split at hcloses
  · next hij =>
    subst hij
    have hcall := RoomsCall.step_cases hcall
    exact ⟨rfl, hcall.closes (by simpa using hnot) hcloses⟩
  · exact (hnot hcloses).elim

theorem ClosesEmpty.hasClosed (h : ClosesEmpty i s a)
    (hstep : (roomsCalls roomId).step s a = some s') :
    (s'.proc i).hasClosed := by
  obtain ⟨j, event⟩ := a
  obtain ⟨w', c', hcall, rfl⟩ := Pool.step_eq_some.1 hstep
  obtain ⟨rfl, hok, hscript, hempty⟩ := h
  rw [Pool.set_proc_self]
  exact (RoomsCall.step_cases hcall).hasClosed hok hscript hempty

theorem closed_preserves (i : ι) :
    (roomsCalls roomId : System (RoomsCalls ι κ) _).Preserves
      (fun _ _ => True)
      fun s => (s.proc i).hasClosed ∨ (s.proc i).hasThrown := by
  rintro s ⟨j, event⟩ s' h - hstep
  obtain ⟨w', c', hcall, rfl⟩ := Pool.step_eq_some.1 hstep
  rw [Pool.set_proc]
  split
  · next hij =>
    subst hij
    exact (RoomsCall.step_cases hcall).closed_stays h
  · exact h

omit [DecidableEq ι] [DecidableEq κ] in
theorem RoomsCall.not_hasClosed_call (request : RoomsRequest) :
    (request.call : RoomsCall ι κ).hasClosed = false := by
  rcases request with request | - | - | -
  · cases request <;> rfl
  all_goals rfl

omit [DecidableEq ι] [DecidableEq κ] in
theorem RoomsCall.hasClosed_of_result {c : RoomsCall ι κ}
    (h : c.closeRoomResult = some true) : c.hasClosed := by
  unfold closeRoomResult at h
  split at h <;> cases h <;> rfl

omit [DecidableEq ι] [DecidableEq κ] in
theorem RoomsCall.result_of_closed {c : RoomsCall ι κ} {closed : Bool}
    (h : c.closeRoomResult = some closed) (hc : c.hasClosed ∨ c.hasThrown) :
    closed = true := by
  unfold closeRoomResult at h
  split at h
  · next closed' =>
    cases h
    cases closed with
    | true => rfl
    | false => rcases hc with hc | hc <;> cases hc
  · cases h; rfl
  · rcases hc with hc | hc <;> cases hc
  · cases h

omit [DecidableEq ι] [DecidableEq κ] in
theorem RoomsCall.closeRoomResult_of_tearsDown {c : RoomsCall ι κ}
    (h : c.tearsDown) : c.closeRoomResult = some true := by
  unfold tearsDown at h
  split at h
  · rfl
  · cases h

/-- A script that found the hash empty is what a `closeRoom` reports. -/
theorem closeRoomResult_iff (w : World ι κ) (requests : ι → RoomsRequest)
    (schedule : List (ι × Event)) {closed : Bool}
    (hresult : (((roomsCalls roomId).run (.issued w requests) schedule).proc
      i).closeRoomResult = some closed) :
    closed = true ↔
      (roomsCalls roomId).Occurs (ClosesEmpty i) (.issued w requests) schedule := by
  constructor
  · rintro rfl
    have hfirst : ¬ ((RoomsCalls.issued w requests).proc i).hasClosed := by
      simp [RoomsCalls.issued, RoomsCall.not_hasClosed_call]
    have hlast := RoomsCall.hasClosed_of_result hresult
    exact System.occurs_of_last (P := fun s => (s.proc i).hasClosed) hfirst
      (fun _ _ _ => closesEmpty_of_step) hlast
  · intro hoccurs
    have hlast := hoccurs.last
      (P := fun s => (s.proc i).hasClosed ∨ (s.proc i).hasThrown)
      (fun _ _ _ hstep hcloses => .inl (hcloses.hasClosed hstep))
      (closed_preserves i)
    exact RoomsCall.result_of_closed hresult hlast

/--
Whatever the calls and the order of their commands: a member is taken out by
its own removal only, the record is deleted under an empty hash only,
`closeRoom` returns true exactly when its script has found the hash empty, and
a leave tears the room down only after such a script of its own.
-/
theorem closeRoom_takesNoMember (roomId : RoomId) (w : World ι κ)
    (requests : ι → RoomsRequest) (schedule : List (ι × Event)) :
    (roomsCalls roomId).Meets (MembersStay roomId) (.issued w requests)
      schedule ∧
    ∀ i, (∀ closed, (((roomsCalls roomId).run (.issued w requests)
        schedule).proc i).closeRoomResult = some closed →
          (closed = true ↔ (roomsCalls roomId).Occurs (ClosesEmpty i)
            (.issued w requests) schedule)) ∧
      ((((roomsCalls roomId).run (.issued w requests) schedule).proc
        i).tearsDown → (roomsCalls roomId).Occurs (ClosesEmpty i)
          (.issued w requests) schedule) := by
  refine ⟨System.meets_of_forall fun a _ s => membersStay s a, fun i =>
    ⟨fun closed => closeRoomResult_iff w requests schedule, fun htears => ?_⟩⟩
  have hresult := RoomsCall.closeRoomResult_of_tearsDown htears
  exact (closeRoomResult_iff w requests schedule hresult).1 rfl

/-! Issue 24: a peer is added between the emptiness check and the script. -/

def addDuringClose : Fin 2 → RoomsRequest
  | 0 => .closeRoom
  | 1 => .addPeer ⟨"b", "Bob"⟩

example :
    (((roomsCalls "r").run
      (.issued (.fresh [] fun _ => .spawned []) addDuringClose :
        RoomsCalls (Fin 2) Empty)
      [(0, .settle true), (1, .settle true), (0, .settle true)]).proc
        0).closeRoomResult = some false := by decide

end MeetServer.Realtime
