import MeetServer.Realtime.Creations

/-!
# The room record and the peers hash

`closeRoomIfEmpty` deletes the record together with an empty peers hash.  A
join that has been told that the room exists but has not written its peer yet
is invisible to the script: the record outlives every member in the runs in
which the script never deletes it under such a join.
-/

namespace MeetServer.Realtime

open MeetServer.Foundation

variable {ι κ : Type}

/-- The creation the call waits for has succeeded. -/
def World.created (w : World ι κ) (creation : ι) : Bool :=
  (w.creation creation).any Settlement.isFulfilled

/-- The call knows that the room exists. -/
def GetOrCreateRoom.told (w : World ι κ) : GetOrCreateRoom ι κ → Bool
  | .expire _ => true
  | .pending creation => w.created creation
  | .getRoom | .getStats _ | .createOrGetMediaRoom _ _ | .set _ | .returned _
  | .threw => false

namespace Join

/-- The join knows that the room exists and has not added its peer. -/
def told (w : World ι κ) : Join ι κ → Bool
  | .getOrCreateRoom point => point.told w
  | .hset => true
  | .expire | .getOtherPeers | .getProducers _ _ _ | .rollbackHdel
  | .rollbackDel | .returned _ _ | .threw => false

/-- The join has added its peer and not failed. -/
def added : Join ι κ → Bool
  | .expire | .getOtherPeers | .getProducers _ _ _ | .returned _ _ => true
  | .getOrCreateRoom _ | .hset | .rollbackHdel | .rollbackDel | .threw => false

def hasReturned : Join ι κ → Bool
  | .returned _ _ => true
  | _ => false

def rollingBack : Join ι κ → Bool
  | .rollbackHdel | .rollbackDel => true
  | .getOrCreateRoom _ | .hset | .expire | .getOtherPeers | .getProducers _ _ _
  | .returned _ _ | .threw => false

/-- Where in `getOrCreateRoom` the join is. -/
def rooming : Join ι κ → Option (GetOrCreateRoom ι κ)
  | .getOrCreateRoom point => some point
  | _ => none

end Join

namespace Leave

/-- The call is past its HDEL. -/
def removed : Leave ι κ → Bool
  | .getRoom | .hdel _ => false
  | .delProducers _ | .sfuRemovePeer _ _ | .hlen _ | .hkeys _
  | .closeRoomIfEmpty _ _ | .delProducerHashes _ _ _ | .closed _ _ _ | .returned
  | .threw => true

@[grind =] theorem removed_nextProducerHash (url : Url) (todo : List PeerId) (rejected : Bool) :
    (nextProducerHash url todo rejected : Leave ι κ).removed = true := by
  cases todo <;> cases rejected <;> rfl

end Leave

namespace Call

def toldRoom (w : World ι κ) : Call ι κ → Bool
  | .join _ _ point => point.told w
  | .leave _ _ | .createWebRtcTransport _ _ _ => false

/-- The peer that a join has added. -/
def added : Call ι κ → Option PeerId
  | .join _ peer point => if point.added then some peer.id else none
  | .leave _ _ | .createWebRtcTransport _ _ _ => none

/-- The peer for which a join has returned. -/
def joined : Call ι κ → Option PeerId
  | .join _ peer point => if point.hasReturned then some peer.id else none
  | .leave _ _ | .createWebRtcTransport _ _ _ => none

/-- The peer that a leave has removed. -/
def removed : Call ι κ → Option PeerId
  | .leave peerId point => if point.removed then some peerId else none
  | .join _ _ _ | .createWebRtcTransport _ _ _ => none

def rollingBack : Call ι κ → Bool
  | .join _ _ point => point.rollingBack
  | .leave _ _ | .createWebRtcTransport _ _ _ => false

def rooming : Call ι κ → Option (Instance × GetOrCreateRoom ι κ)
  | .join instanceId _ point => point.rooming.map fun point => (instanceId, point)
  | .leave _ _ | .createWebRtcTransport _ _ _ => none

/-- The event is what becomes of a Redis command of the call, not of a request to the sfu. -/
def asksRedis : Event → Call ι κ → Bool
  | .closeRoom _, _ | .stats _ _, _ => false
  | _, .join _ _ (.getOrCreateRoom (.pending _))
  | _, .join _ _ (.getOrCreateRoom (.createOrGetMediaRoom _ _))
  | _, .leave _ (.sfuRemovePeer _ _)
  | _, .createWebRtcTransport _ _ (.createTransport _ _) => false
  | _, _ => true

/-- The next step is the script. -/
def atCloseRoomIfEmpty : Call ι κ → Bool
  | .leave _ (.closeRoomIfEmpty _ _) => true
  | _ => false

end Call

/-- Every member is in a room, and every peer that has joined and not left is a
member. -/
structure RecordAgrees (s : Calls ι κ) : Prop where
  record : ∀ p, p ∈ s.world.redis.peers → s.world.redis.room.isSome
  found : ∀ i p, (s.proc i).joined = some p →
    (∀ j, (s.proc j).removed ≠ some p) →
    p ∈ s.world.redis.peers ∧ s.world.redis.room.isSome

/-- No Redis command fails, and the script finds no empty room that a join has been told
of. -/
def ClosesUnclaimed (s : Calls ι κ) (a : ι × Event) : Prop :=
  ((s.proc a.1).asksRedis a.2 → a.2.ok = true) ∧
    ((s.proc a.1).atCloseRoomIfEmpty → s.world.redis.hlen = 0 →
      ∀ i, (s.proc i).toldRoom s.world = false)

instance [Fintype ι] (s : Calls ι κ) (a : ι × Event) :
    Decidable (ClosesUnclaimed s a) :=
  inferInstanceAs (Decidable (_ ∧ _))

structure Claimed (s : Calls ι κ) : Prop where
  creations : Creations s.world fun i => (s.proc i).rooming
  record : ∀ p, p ∈ s.world.redis.peers → s.world.redis.room.isSome
  told : ∀ i, (s.proc i).toldRoom s.world → s.world.redis.room.isSome
  added : ∀ i p, (s.proc i).added = some p →
    (∀ j, (s.proc j).removed ≠ some p) → p ∈ s.world.redis.peers
  rollingBack : ∀ i, (s.proc i).rollingBack = false

theorem Claimed.recordAgrees {s : Calls ι κ} (h : Claimed s) :
    RecordAgrees s where
  record := h.record
  found i p hi hj := by
    have hadded : (s.proc i).added = some p := by
      generalize s.proc i = c at hi
      cases c with
      | join instanceId peer point =>
          cases point <;> first | exact hi | simp [Call.joined, Join.hasReturned] at hi
      | _ => cases hi
    have hp := h.added i p hadded hj
    exact ⟨hp, h.record p hp⟩

variable [DecidableEq ι] [DecidableEq κ]

omit [DecidableEq ι] [DecidableEq κ] in
theorem Call.toldRoom_congr {w w' : World ι κ} (h : w'.creation = w.creation)
    (c : Call ι κ) : c.toldRoom w' = c.toldRoom w := by
  cases c with
  | join instanceId peer point =>
      cases point with
      | getOrCreateRoom point =>
          cases point <;> simp [Call.toldRoom, Join.told, GetOrCreateRoom.told,
            World.created, h]
      | _ => rfl
  | _ => rfl

/-- What a step of `leave` does to the record and the peers hash. -/
theorem Leave.Step.membership {w w' : World ι κ} {roomId : RoomId}
    {peerId : PeerId} {ok : Bool} {point point' : Leave ι κ}
    (h : Leave.Step roomId peerId w ok point w' point') :
    (w'.redis.room = w.redis.room ∧ w'.redis.peers = w.redis.peers ∧
        (point.removed → point'.removed)) ∨
      (w'.redis.room = w.redis.room ∧
        w'.redis.peers = w.redis.peers.erase peerId ∧ point'.removed) ∨
      ((Call.leave peerId point).atCloseRoomIfEmpty ∧ w.redis.hlen = 0 ∧
        w'.redis.room = none ∧ w'.redis.peers = ∅ ∧ point'.removed) := by
  cases h with
  | removed => exact .inr (.inl ⟨rfl, rfl, rfl⟩)
  | closed hempty =>
      exact .inr (.inr ⟨rfl, hempty, rfl, rfl, removed_nextProducerHash _ _ _⟩)
  | swept | unswept => exact .inl ⟨rfl, rfl, fun _ => removed_nextProducerHash _ _ _⟩
  | found => exact .inl ⟨rfl, rfl, id⟩
  | _ => exact .inl ⟨rfl, rfl, fun _ => rfl⟩

theorem Claimed.leave_step {s : Calls ι κ} {i : ι} {roomId : RoomId}
    {peerId : PeerId} {ok : Bool} {w' : World ι κ} {point point' : Leave ι κ}
    (h : Claimed s) (hi : s.proc i = .leave peerId point)
    (hunclaimed : (s.proc i).atCloseRoomIfEmpty → s.world.redis.hlen = 0 →
      ∀ j, (s.proc j).toldRoom s.world = false)
    (hs : Leave.Step roomId peerId s.world ok point w' point') :
    Claimed (s.set i w' (.leave peerId point')) := by
  obtain ⟨hcreations, hrecord, htold, hadded, hrolling⟩ := h
  have hframe : w'.pendingRooms = s.world.pendingRooms ∧
      w'.creation = s.world.creation := by
    cases hs <;> exact ⟨rfl, rfl⟩
  have hrooming : (fun j => ((s.set i w' (.leave peerId point')).proc j).rooming) =
      fun j => (s.proc j).rooming := s.comp_set_proc (by rw [hi]; rfl)
  refine ⟨by rw [hrooming]; exact hcreations.frame hframe.1 hframe.2, ?_, ?_, ?_, ?_⟩
  all_goals
    have hremoved : (s.proc i).removed = (Call.leave peerId point).removed := by
      rw [hi]
    rw [hi] at hunclaimed
    simp only [Pool.set_world, Pool.set_proc, Call.toldRoom_congr hframe.2,
      apply_ite Call.removed]
    rcases hs.membership with ⟨hroom, hpeers, hkeeps⟩ | ⟨hroom, hpeers, hleft⟩ |
        ⟨hcloses, hempty, hroom, hpeers, hleft⟩ <;>
      grind [Call.toldRoom, Call.added, Call.removed, Call.rollingBack,
        RoomKeys.hlen_eq_zero_iff, AList.mem_erase, AList.notMem_empty]

omit [DecidableEq ι] [DecidableEq κ] in
theorem Call.rooming_afterGetOrCreateRoom (instanceId : Instance) (peer : Peer)
    (point : GetOrCreateRoom ι κ) :
    (Call.join instanceId peer (Join.afterGetOrCreateRoom point)).rooming =
        some (instanceId, point) ∨
      (Call.join instanceId peer (Join.afterGetOrCreateRoom point)).rooming =
        none ∧ point.creating = false := by
  cases point <;> first | exact .inl rfl | exact .inr ⟨rfl, rfl⟩

omit [DecidableEq κ] in
/-- A promise that settles tells only of a room it has created. -/
theorem Call.toldRoom_settleCreation {w : World ι κ} {instanceId : Instance}
    {i : ι} {outcome : Settlement Room} {c : Call ι κ}
    (h : c.toldRoom (w.settleCreation instanceId i outcome)) :
    c.toldRoom w ∨ ∃ room, outcome = .fulfilled room := by
  cases c with
  | join _ _ point =>
      cases point with
      | getOrCreateRoom point =>
          cases point with
          | pending creation =>
              cases outcome with
              | fulfilled room => exact .inr ⟨room, rfl⟩
              | rejected =>
                  by_cases hi : creation = i <;>
                    simp_all [toldRoom, Join.told, GetOrCreateRoom.told,
                      World.created, World.settleCreation]
          | _ => exact .inl h
      | _ => exact .inl h
  | _ => cases h

/-- What a step within `getOrCreateRoom` tells other calls. -/
theorem GetOrCreateRoom.Step.toldRoom {i : ι} {instanceId : Instance}
    {roomId : RoomId} {ok : Bool} {w w' : World ι κ}
    {point point' : GetOrCreateRoom ι κ}
    (hs : GetOrCreateRoom.Step i instanceId roomId w ok point w' point')
    {c : Call ι κ} (hc : c.toldRoom w') :
    c.toldRoom w ∨ w'.redis.room.isSome := by
  cases hs with
  | unserved | unreachable | unanswered | unrecorded =>
      rcases Call.toldRoom_settleCreation hc with h | ⟨room, h⟩
      · exact .inl h
      · cases h
  | recorded => exact .inr rfl
  | _ => exact .inl hc

/-- A step within `getOrCreateRoom` tells its own call of an existing record. -/
theorem Claimed.told_step {s : Calls ι κ} {i : ι} {instanceId : Instance}
    {roomId : RoomId} {peer : Peer} {ok : Bool} {w' : World ι κ}
    {point point' : GetOrCreateRoom ι κ} (h : Claimed s)
    (hi : s.proc i = .join instanceId peer (.getOrCreateRoom point))
    (hs : GetOrCreateRoom.Step i instanceId roomId s.world ok point w' point')
    (htold : (Join.afterGetOrCreateRoom point').told w') :
    w'.redis.room.isSome := by
  have hown := h.told i
  rw [hi] at hown
  cases hs with
  | found hroom => simp [hroom]
  | waits _ hpending =>
      have hnone := h.creations.creation_of_pending hpending
      simp [Join.afterGetOrCreateRoom, Join.told, GetOrCreateRoom.told,
        World.created, hnone] at htold
  | refreshed => exact hown rfl
  | resumed hcreation =>
      exact hown (by simp [Call.toldRoom, Join.told, GetOrCreateRoom.told,
        World.created, hcreation])
  | recorded => rfl
  | _ => cases htold

theorem Claimed.room_step {s : Calls ι κ} {i : ι} {instanceId : Instance}
    {roomId : RoomId} {peer : Peer} {ok : Bool} {w' : World ι κ}
    {point point' : GetOrCreateRoom ι κ} (h : Claimed s)
    (hi : s.proc i = .join instanceId peer (.getOrCreateRoom point))
    (hs : GetOrCreateRoom.Step i instanceId roomId s.world ok point w' point') :
    Claimed (s.set i w'
      (.join instanceId peer (Join.afterGetOrCreateRoom point'))) := by
  have hroom : s.world.redis.room.isSome → w'.redis.room.isSome := by
    cases hs <;> first | exact id | exact fun _ => rfl
  have hpeers : w'.redis.peers = s.world.redis.peers := by
    cases hs <;> rfl
  have hadded : (Call.join instanceId peer
      (Join.afterGetOrCreateRoom point')).added = none := by
    cases point' <;> rfl
  have hrolling : (Call.join instanceId peer
      (Join.afterGetOrCreateRoom point')).rollingBack = false := by
    cases point' <;> rfl
  constructor
  · refine h.creations.step (by rw [hi]; rfl) hs (fun j => ?_)
      (by simpa using Call.rooming_afterGetOrCreateRoom instanceId peer point')
    by_cases hj : j = i <;> simp [Pool.set_proc, hj]
  · intro p hp
    exact hroom (h.record p (hpeers ▸ hp))
  · intro j hj
    rw [Pool.set_proc] at hj
    split at hj
    · exact h.told_step hi hs hj
    · rcases hs.toldRoom hj with hj | hj
      · exact hroom (h.told j hj)
      · exact hj
  · intro j p hj hremoved
    rw [Pool.set_proc] at hj
    split at hj
    · rw [hadded] at hj
      cases hj
    · refine hpeers ▸ h.added j p hj fun k hk => hremoved k ?_
      rw [Pool.set_proc]
      split
      · next hki =>
        rw [hki, hi] at hk
        cases hk
      · exact hk
  · intro j
    rw [Pool.set_proc]
    split
    · exact hrolling
    · exact h.rollingBack j

omit [DecidableEq ι] [DecidableEq κ] in
@[grind =] theorem Join.told_nextProducers (w : World ι κ)
    (otherPeers todo : List Peer) (found : List (ExistingProducer (ι ⊕ κ))) :
    (nextProducers otherPeers todo found).told w = false := by
  cases todo <;> rfl

omit [DecidableEq ι] [DecidableEq κ] in
@[grind =] theorem Join.added_nextProducers (otherPeers todo : List Peer)
    (found : List (ExistingProducer (ι ⊕ κ))) :
    (nextProducers otherPeers todo found).added = true := by
  cases todo <;> rfl

omit [DecidableEq ι] [DecidableEq κ] in
@[grind =] theorem Join.rollingBack_nextProducers (otherPeers todo : List Peer)
    (found : List (ExistingProducer (ι ⊕ κ))) :
    (nextProducers otherPeers todo found).rollingBack = false := by
  cases todo <;> rfl

omit [DecidableEq ι] [DecidableEq κ] in
@[grind =] theorem Join.rooming_nextProducers (otherPeers todo : List Peer)
    (found : List (ExistingProducer (ι ⊕ κ))) :
    (nextProducers otherPeers todo found).rooming = none := by
  cases todo <;> rfl

theorem Claimed.join_step {s : Calls ι κ} {i : ι} {instanceId : Instance}
    {roomId : RoomId} {peer : Peer} {event : Event} {w' : World ι κ} {point point' : Join ι κ}
    (h : Claimed s) (hi : s.proc i = .join instanceId peer point)
    (hok : (s.proc i).asksRedis event → event.ok = true)
    (hstep : point.step i instanceId roomId peer event s.world = some (w', point')) :
    Claimed (s.set i w' (.join instanceId peer point')) := by
  by_cases hroom : ∃ room, point = .getOrCreateRoom room
  · obtain ⟨room, rfl⟩ := hroom
    obtain ⟨⟨w', room'⟩, hcreation, heq⟩ := Option.map_eq_some_iff.1 hstep
    cases heq
    exact h.room_step hi (GetOrCreateRoom.step_cases hcreation)
  have hrooming : point.rooming = none := by
    cases point <;> first | rfl | exact (hroom ⟨_, rfl⟩).elim
  have hrolled := h.rollingBack i
  have hs := Join.step_cases hstep
  rw [hi] at hrolled hok
  generalize hfails : event.ok = ok at hs
  cases hs with
  | room => exact (hroom ⟨_, rfl⟩).elim
  | removed | cleared => cases hrolled
  | unlisted | unfetched =>
      cases event with
      | settle ok => cases hfails.symm.trans (hok rfl)
      | _ => cases hstep
  | added | refreshed | listed | fetched | threw =>
      obtain ⟨hcreations, hrecord, htold, hadded, hrolling⟩ := h
      refine ⟨?_, ?_, ?_, ?_, ?_⟩
      · rw [s.comp_set_proc (by rw [hi]; grind [Call.rooming, Join.rooming])]
        exact hcreations.frame rfl rfl
      all_goals
        simp only [Pool.set_world, Pool.set_proc, apply_ite Call.removed,
          Call.toldRoom_congr (World.creation_setRedis _ _)]
        grind [Call.toldRoom, Join.told, Call.added, Join.added, Call.removed,
          Call.rollingBack, Join.rollingBack, World.redis_setRedis,
          RoomKeys.hset, AList.mem_insert]

theorem Claimed.preserves {roomId : RoomId} :
    (signaling roomId : System (Calls ι κ) _).Preserves ClosesUnclaimed
      Claimed := by
  rintro s ⟨i, event⟩ s' h ⟨hok, hunclaimed⟩ hstep
  obtain ⟨w', c', hcall, rfl⟩ := Pool.step_eq_some.1 hstep
  cases hc : s.proc i with
  | join instanceId peer point =>
      rw [hc] at hcall
      simp only [Call.step, Option.map_eq_some_iff, Prod.mk.injEq] at hcall
      obtain ⟨⟨w', point'⟩, hpoint, rfl, rfl⟩ := hcall
      exact h.join_step hc hok hpoint
  | leave peerId point =>
      rw [hc] at hcall
      simp only [Call.step, Option.map_eq_some_iff, Prod.mk.injEq] at hcall
      obtain ⟨⟨w', point'⟩, hpoint, rfl, rfl⟩ := hcall
      exact h.leave_step hc hunclaimed (Leave.step_cases hpoint)
  | createWebRtcTransport peerId direction point =>
      rw [hc] at hcall
      simp only [Call.step, Option.map_eq_some_iff, Prod.mk.injEq] at hcall
      obtain ⟨⟨w', point'⟩, hpoint, rfl, rfl⟩ := hcall
      have hframe : w'.redis = s.world.redis ∧
          w'.pendingRooms = s.world.pendingRooms ∧
          w'.creation = s.world.creation := by
        have hs := CreateWebRtcTransport.step_cases hpoint
        generalize event.ok = ok at hs
        cases hs <;> exact ⟨rfl, rfl, rfl⟩
      obtain ⟨hredis, hpending, hcreation⟩ := hframe
      obtain ⟨hcreations, hrecord, htold, hadded, hrolling⟩ := h
      refine ⟨?_, ?_, ?_, ?_, ?_⟩
      · rw [s.comp_set_proc (by rw [hc]; rfl)]
        exact hcreations.frame hpending hcreation
      all_goals
        simp only [Pool.set_world, Pool.set_proc, apply_ite Call.removed,
          Call.toldRoom_congr hcreation, hredis]
        grind [Call.toldRoom, Call.added, Call.removed, Call.rollingBack]

omit [DecidableEq ι] [DecidableEq κ] in
theorem Claimed.issued (serviceUrls : List Url)
    (sfu : Url → Sfu.State (ι ⊕ κ)) (requests : ι → Request) :
    Claimed (.issued (.fresh serviceUrls sfu) requests) := by
  have hcall : ∀ i, ((requests i).call : Call ι κ).added = none ∧
      ((requests i).call : Call ι κ).rollingBack = false := by
    intro i
    cases requests i <;> exact ⟨rfl, rfl⟩
  refine ⟨⟨nofun, ?_, fun _ _ _ _ _ => rfl⟩, nofun, ?_, ?_, fun i => (hcall i).2⟩
  · intro i instanceId point hi
    cases hr : requests i <;>
      simp [Calls.issued, Request.call, hr, Call.rooming, Join.rooming] at hi
    obtain ⟨-, rfl⟩ := hi
    nofun
  · intro i hi
    cases hr : requests i <;>
      simp [Calls.issued, Request.call, hr, Call.toldRoom, Join.told,
        GetOrCreateRoom.told] at hi
  · intro i p hi
    rw [Calls.issued, (hcall i).1] at hi
    cases hi

/-- The record and the membership agree throughout every run in which the
script finds no empty room that a join has been told of. -/
theorem holds_recordAgrees {roomId : RoomId} (serviceUrls : List Url)
    (sfu : Url → Sfu.State (ι ⊕ κ)) (requests : ι → Request)
    {schedule : List (ι × Event)}
    (h : (signaling roomId).Meets ClosesUnclaimed
      (.issued (.fresh serviceUrls sfu) requests) schedule) :
    (signaling roomId).Holds RecordAgrees
      (.issued (.fresh serviceUrls sfu) requests) schedule :=
  h.holds Claimed.preserves (fun _ h => h.recordAgrees)
    (.issued serviceUrls sfu requests)

omit [DecidableEq ι] [DecidableEq κ] in
theorem not_recordAgrees_of_mem {s : Calls ι κ} {p : PeerId}
    (hroom : s.world.redis.room = none) (hp : p ∈ s.world.redis.peers) :
    ¬ RecordAgrees s := by
  intro h
  have hrecord := h.record p hp
  rw [hroom] at hrecord
  cases hrecord

/-- Conversely, a join that has been told of a record that is gone goes on to
add its peer. -/
theorem told_join_breaks {roomId : RoomId} {s : Calls ι κ} {i : ι}
    (htold : (s.proc i).toldRoom s.world) (hroom : s.world.redis.room = none) :
    ∃ n, ¬ RecordAgrees ((signaling roomId).run s
      (List.replicate n (i, .settle true))) := by
  cases hc : s.proc i with
  | join instanceId peer point =>
      rw [hc] at htold
      have hstep : ∀ (s : Calls ι κ), s.world.redis.room = none →
          s.proc i = .join instanceId peer .hset →
          ¬ RecordAgrees ((signaling roomId).next s (i, .settle true)) := by
        intro s hroom hs
        rw [signaling, Pool.next_of_step (w := s.world.setRedis
          (s.world.redis.hset peer)) (p := .join instanceId peer .expire)
          (by rw [hs]; rfl)]
        exact not_recordAgrees_of_mem (p := peer.id) hroom
          (by simp [RoomKeys.hset])
      cases point with
      | hset => exact ⟨1, hstep s hroom hc⟩
      | getOrCreateRoom point =>
          refine ⟨2, ?_⟩
          have hnext : (signaling roomId).next s (i, .settle true) =
              s.set i s.world (.join instanceId peer .hset) := by
            refine Pool.next_of_step ?_
            rw [hc]
            cases point with
            | expire room => rfl
            | pending creation =>
                obtain ⟨outcome, hcreation, htold⟩ :=
                  Option.any_eq_true _ _ |>.1 htold
                cases outcome with
                | fulfilled room =>
                    simp [Call.step, Join.step, GetOrCreateRoom.step,
                      GetOrCreateRoom.settle, hcreation,
                      Join.afterGetOrCreateRoom]
                | rejected => cases htold
            | _ => cases htold
          rw [List.replicate_succ, System.run_cons, hnext]
          exact hstep _ hroom (Pool.set_proc_self _ _ _ _)
      | _ => cases htold
  | _ => rw [hc] at htold; cases htold

/-! A member leaves while another peer joins. -/

def lastOneLeaves : Fin 3 → Request
  | 0 => .join 0 ⟨"a", "Ann"⟩
  | 1 => .leave "a"
  | 2 => .join 1 ⟨"b", "Bob"⟩

def oneNode : World (Fin 3) Empty :=
  .fresh ["n"] fun _ => .spawned [0]

/-- The first join creates the room, and its peer leaves up to the script. -/
def leavingSchedule (join leave : ι) : List (ι × Event) :=
  [(join, .settle true), (join, .stats 0 true)] ++ List.replicate 7 (join, .settle true) ++
    List.replicate 7 (leave, .settle true)

/-- The script runs before the second join reads the record. -/
theorem holds_recordAgrees_joinAfterClose :
    (signaling "r").Holds RecordAgrees (.issued oneNode lastOneLeaves)
      (leavingSchedule 0 1 ++ [(1, .settle true), (2, .settle true)]) := by
  exact holds_recordAgrees _ _ _ (by decide)

/-- The second join is told of the record that the script then deletes. -/
theorem not_recordAgrees_joinDuringClose :
    ¬ RecordAgrees ((signaling "r").run (.issued oneNode lastOneLeaves)
      (leavingSchedule 0 1 ++ [(2, .settle true), (1, .settle true),
        (2, .settle true), (2, .settle true), (2, .settle true),
        (2, .settle true)])) := by
  intro h
  have hroom := h.record "b" (by decide)
  revert hroom
  decide

end MeetServer.Realtime
