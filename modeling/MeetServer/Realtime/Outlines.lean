import MeetServer.Realtime.Settled

/-!
# Proof outlines of undisturbed calls

For every call the assertion that holds at each of its points when it runs alone
in a quiet room and nothing fails.
-/

namespace MeetServer.Realtime

open MeetServer.Foundation

variable {κ : Type} [DecidableEq κ] {roomId : RoomId} {n : Nat} {w : World Nat κ}

/-! ## `getOrCreateRoom` -/

/-- Nobody has recorded the room; only `instanceId` may be creating it, and only
on the node `url`. -/
structure Opening (roomId : RoomId) (instanceId : Instance) (url : Option Url)
    (w : World Nat κ) : Prop where
  vacant : w.redis.Vacant
  pendingRooms : ∀ other, other ≠ instanceId → w.pendingRooms other = none
  mediaRoom : ∀ other, url ≠ some other →
    (w.sfu other).rooms.lookup roomId = none
  sfuPending : ∀ other, url ≠ some other →
    (w.sfu other).pendingRooms roomId = none

/-- The node has an empty MediaRoom. -/
def Opened (roomId : RoomId) (node : Sfu.State (Nat ⊕ κ)) : Prop :=
  node.pendingRooms roomId = none ∧ ∃ r, node.rooms.lookup roomId = some r ∧
    (node.room r).peers = ∅

def GetOrCreateRoom.Outline (roomId : RoomId) (instanceId : Instance) (n : Nat)
    (w : World Nat κ) : GetOrCreateRoom Nat κ → Prop
  | .getRoom => Quiet roomId n w
  | .expire _ | .returned _ => Quiet roomId n w ∧ w.redis.room ≠ none
  | .pending _ | .createOrGetMediaRoom _ (.pending _) => False
  | .getStats _ | .createOrGetMediaRoom _ .call
  | .createOrGetMediaRoom _ .threw => Opening roomId instanceId none w
  | .createOrGetMediaRoom url (.createRouter _) =>
      Opening roomId instanceId (some url) w ∧
        (w.sfu url).rooms.lookup roomId = none
  | .createOrGetMediaRoom url (.returned _) =>
      Opening roomId instanceId (some url) w ∧ Opened roomId (w.sfu url)
  | .set room =>
      Opening roomId instanceId (some room.sfuNodeUrl) w ∧
        Opened roomId (w.sfu room.sfuNodeUrl)
  | .threw => Quiet roomId n w

variable {instanceId : Instance}

theorem Quiet.opening {url : Option Url} (h : Quiet roomId n w)
    (hroom : w.redis.room = none) : Opening roomId instanceId url w where
  vacant := h.vacant hroom
  pendingRooms other _ := h.pendingRooms other
  mediaRoom other _ := h.elsewhere other (by simp [RoomKeys.url, hroom])
  sfuPending other _ := h.sfuPending other

omit [DecidableEq κ] in
theorem Opening.beginCreation {url : Option Url} {i : Nat}
    (h : Opening roomId instanceId url w) :
    Opening roomId instanceId url (w.beginCreation instanceId i) :=
  { h with
    pendingRooms other hother := by
      simpa [World.beginCreation, hother] using h.pendingRooms other hother }

theorem Opening.quiet {i : Nat} {outcome : Settlement Room}
    (h : Opening roomId instanceId none w) :
    Quiet roomId n (w.settleCreation instanceId i outcome) where
  pendingRooms other := by
    simp only [World.settleCreation, Function.update_apply]
    split
    · rfl
    · next hother => exact h.pendingRooms other hother
  sfuPending url := h.sfuPending url nofun
  keyed p peer hp := by cases (h.vacant.lookup p).symm.trans hp
  vacant _ := h.vacant
  elsewhere url _ := h.mediaRoom url nofun
  mirrors url hurl := by
    have hnone : w.redis.url = none := by simp [RoomKeys.url, h.vacant.room]
    cases hnone.symm.trans hurl

/-- An empty MediaRoom mirrors a room without members. -/
theorem mirrors_empty {r : Nat ⊕ κ} {keys : RoomKeys (Nat ⊕ κ)}
    {node : Sfu.State (Nat ⊕ κ)} (hpeers : (node.room r).peers = ∅)
    (hproducers : ∀ p, keys.producers p = ∅) :
    Mirrors r (fun _ => False) n keys node := by
  have hnone p : (node.room r).getPeer p = none := by
    rw [Sfu.MediaRoom.getPeer, hpeers, AList.lookup_empty]
  have hempty p : node.producers r p = ∅ := by rw [Sfu.State.producers, hnone]
  constructor
  · constructor <;> simp [hnone, hempty]
  · simp [hnone]
  · simp [Sfu.State.openProducer, hempty, hproducers]
  · exact fun _ _ => False.elim

theorem Opening.recorded {room : Room} {i : Nat}
    (h : Opening roomId instanceId (some room.sfuNodeUrl) w)
    (hopened : Opened roomId (w.sfu room.sfuNodeUrl)) :
    Quiet roomId n ((w.setRedis (w.redis.set room)).settleCreation instanceId i
      (.fulfilled room)) where
  pendingRooms other := by
    simp only [World.settleCreation, Function.update_apply]
    split
    · rfl
    · next hother => exact h.pendingRooms other hother
  sfuPending url := by
    by_cases hurl : room.sfuNodeUrl = url
    · exact hurl ▸ hopened.1
    · exact h.sfuPending url (by simpa using hurl)
  keyed p peer hp := by cases (h.vacant.lookup p).symm.trans hp
  vacant hnone := by cases hnone
  elsewhere url hurl := h.mediaRoom url hurl
  mirrors url hurl := by
    obtain rfl : room.sfuNodeUrl = url := Option.some.inj hurl
    obtain ⟨-, r, hr, hpeers⟩ := hopened
    exact ⟨r, hr, mirrors_empty hpeers h.vacant.producers⟩

theorem Opening.put_call {i : Nat} {url : Url} {ok : Bool}
    {node : Sfu.State (Nat ⊕ κ)} {request' : Sfu.GetOrCreateRoom (Nat ⊕ κ)}
    (h : Opening roomId instanceId none w)
    (hs : Sfu.GetOrCreateRoom.step (.inl i) roomId ok (w.sfu url) .call =
      some (node, request')) :
    GetOrCreateRoom.Outline roomId instanceId n (w.setSfu url node)
      (.createOrGetMediaRoom url request') := by
  have hrooms := h.mediaRoom url nofun
  have hpending := h.sfuPending url nofun
  simp only [Sfu.GetOrCreateRoom.step, hrooms, hpending, Sfu.createRoom] at hs
  split at hs <;> cases hs
  · rw [World.setSfu_self]
    exact h
  · refine ⟨⟨h.vacant, h.pendingRooms, fun other hother => ?_,
      fun other hother => ?_⟩, ?_⟩
    · rw [World.sfu_setSfu, if_neg fun heq => hother (congrArg some heq.symm)]
      exact h.mediaRoom other nofun
    · rw [World.sfu_setSfu, if_neg fun heq => hother (congrArg some heq.symm)]
      exact h.sfuPending other nofun
    · rw [World.sfu_setSfu, if_pos rfl]
      exact hrooms

theorem Opening.put_createRouter {i : Nat} {url : Url} {worker : Sfu.Worker}
    {node : Sfu.State (Nat ⊕ κ)} {request' : Sfu.GetOrCreateRoom (Nat ⊕ κ)}
    (h : Opening roomId instanceId (some url) w)
    (hs : Sfu.GetOrCreateRoom.step (.inl i) roomId true (w.sfu url)
      (.createRouter worker) = some (node, request')) :
    GetOrCreateRoom.Outline roomId instanceId n (w.setSfu url node)
      (.createOrGetMediaRoom url request') := by
  cases hs
  refine ⟨⟨h.vacant, h.pendingRooms, fun other hother => ?_,
    fun other hother => ?_⟩, ?_⟩
  · rw [World.sfu_setSfu, if_neg fun heq => hother (congrArg some heq.symm)]
    exact h.mediaRoom other hother
  · rw [World.sfu_setSfu, if_neg fun heq => hother (congrArg some heq.symm)]
    exact h.sfuPending other hother
  · rw [World.sfu_setSfu, if_pos rfl]
    exact ⟨by simp [Sfu.State.settleCreation], .inl i,
      by simp [Sfu.State.settleCreation, Sfu.State.addRoom],
      by simp [Sfu.State.settleCreation, Sfu.State.addRoom]⟩

theorem GetOrCreateRoom.outline_step {i : Nat} {w' : World Nat κ}
    {point point' : GetOrCreateRoom Nat κ}
    (hs : Step i instanceId roomId w true point w' point')
    (h : point.Outline roomId instanceId n w) :
    point'.Outline roomId instanceId n w' := by
  cases hs with
  | found hroom => exact ⟨h, by simp [hroom]⟩
  | waits hroom hpending =>
      cases (h.pendingRooms instanceId).symm.trans hpending
  | begins hroom => exact (Quiet.opening h hroom).beginCreation
  | unserved hroom => exact (Quiet.opening h hroom).beginCreation.quiet
  | refreshed => exact h
  | resumed | rejected => exact h.elim
  | read => exact h
  | picked => exact h
  | unreachable => exact h.quiet
  | @put _ url request request' node hs =>
      cases request with
      | call => exact Opening.put_call h hs
      | createRouter worker => exact h.1.put_createRouter hs
      | pending => exact h.elim
      | returned | threw => cases hs
  | answered => exact h
  | unanswered hlost =>
      rcases hlost with hok | rfl
      · cases hok
      · exact Opening.quiet h
  | recorded => exact ⟨h.1.recorded h.2, by simp [RoomKeys.set]⟩

/-! ## `join` -/

/-- The producers hashes of the other members, as `join` reads them. -/
def RoomKeys.existingProducers {Ref : Type} (keys : RoomKeys Ref)
    (peers : List Peer) : List (ExistingProducer Ref) :=
  peers.flatMap fun other => keys.getProducers other.id

def Join.Outline (roomId : RoomId) (instanceId : Instance) (peer : Peer) (n : Nat)
    (w : World Nat κ) : Join Nat κ → Prop
  | .getOrCreateRoom point => point.Outline roomId instanceId n w
  | .hset => Quiet roomId n w ∧ w.redis.room ≠ none
  | .expire | .getOtherPeers | .threw => Quiet roomId n w
  | .getProducers otherPeers todo found =>
      Quiet roomId n w ∧ otherPeers = w.redis.getOtherPeers peer.id ∧
        ∃ fetched, otherPeers = fetched ++ todo ∧
          found = w.redis.existingProducers fetched
  | .returned otherPeers found =>
      Quiet roomId n w ∧ otherPeers = w.redis.getOtherPeers peer.id ∧
        found = w.redis.existingProducers otherPeers
  | .rollbackHdel | .rollbackDel => False

variable {peer : Peer}

theorem Join.outline_afterGetOrCreateRoom {point : GetOrCreateRoom Nat κ}
    (h : point.Outline roomId instanceId n w) :
    (afterGetOrCreateRoom point).Outline roomId instanceId peer n w := by
  cases point <;> exact h

theorem Join.outline_nextProducers {otherPeers fetched todo : List Peer}
    (h : Quiet roomId n w) (hothers : otherPeers = w.redis.getOtherPeers peer.id)
    (hfetched : otherPeers = fetched ++ todo) :
    (nextProducers otherPeers todo
      (w.redis.existingProducers fetched)).Outline roomId instanceId peer n w := by
  cases todo with
  | nil =>
      rw [List.append_nil] at hfetched
      exact ⟨h, hothers, by rw [hfetched]⟩
  | cons other todo => exact ⟨h, hothers, fetched, hfetched, rfl⟩

theorem Quiet.hset (h : Quiet roomId n w) (hrecord : w.redis.room ≠ none) :
    Quiet roomId n (w.setRedis (w.redis.hset peer)) := by
  obtain ⟨room, hrecord⟩ := Option.ne_none_iff_exists'.1 hrecord
  have hurl : w.redis.url = some room.sfuNodeUrl := by
    simp [RoomKeys.url, hrecord]
  obtain ⟨r, hr, hmirrors⟩ := h.mirrors _ hurl
  have hadded : Mirrors r (fun _ => False) n (w.redis.hset peer)
      (w.sfu room.sfuNodeUrl) :=
    { hmirrors with
      members := fun p peer' hp =>
        (AList.mem_insert _).2 (.inr (hmirrors.members p peer' hp)) }
  have hroom : (w.redis.hset peer).room = w.redis.room := rfl
  have hupdate := h.update hurl hr hroom (h.keyed.hset peer) rfl rfl hadded
  rwa [← World.sfu_setRedis w (w.redis.hset peer), World.setSfu_self] at hupdate

theorem Join.outline_step {i : Nat} {w' : World Nat κ} {point point' : Join Nat κ}
    (hs : Step i instanceId roomId peer w true point w' point')
    (h : point.Outline roomId instanceId peer n w) :
    point'.Outline roomId instanceId peer n w' := by
  cases hs with
  | room hs =>
      exact outline_afterGetOrCreateRoom (GetOrCreateRoom.outline_step hs h)
  | added => exact h.1.hset h.2
  | refreshed => exact h
  | listed =>
      have hnext : (nextProducers _ _ (w.redis.existingProducers [])).Outline
          roomId instanceId peer n w :=
        outline_nextProducers h rfl rfl
      exact hnext
  | fetched =>
      obtain ⟨hquiet, hothers, fetched, hfetched, rfl⟩ := h
      have hnext : (nextProducers _ _ (w.redis.existingProducers
          (fetched ++ [_]))).Outline roomId instanceId peer n w :=
        outline_nextProducers hquiet hothers
          (hfetched.trans (List.append_cons _ _ _))
      rwa [RoomKeys.existingProducers, List.flatMap_append,
        List.flatMap_singleton] at hnext
  | removed | cleared => exact h.elim

/-! ## `leave` -/

/-- The record is gone, and only the node still has its empty MediaRoom. -/
structure Closing (roomId : RoomId) (url : Url) (w : World Nat κ) : Prop where
  pendingRooms : ∀ instanceId, w.pendingRooms instanceId = none
  sfuPending : ∀ other, (w.sfu other).pendingRooms roomId = none
  vacant : w.redis.Vacant
  elsewhere : ∀ other, other ≠ url → (w.sfu other).rooms.lookup roomId = none
  empty : ∀ r, (w.sfu url).rooms.lookup roomId = some r →
    ((w.sfu url).room r).isEmpty

def Leave.Outline (roomId : RoomId) (peerId : PeerId) (n : Nat)
    (w : World Nat κ) : Leave Nat κ → Prop
  | .getRoom | .returned => Quiet roomId n w
  | .hdel url | .sfuRemovePeer url true | .hlen url | .hkeys url
  | .closeRoomIfEmpty url _ => Quiet roomId n w ∧ w.redis.url = some url
  | .delProducers url =>
      Quiet roomId n ((w.setRedis (w.redis.delProducers peerId)).setSfu url
        ((w.sfu url).removePeer roomId peerId)) ∧ w.redis.url = some url
  | .sfuRemovePeer url false =>
      Quiet roomId n (w.setSfu url ((w.sfu url).removePeer roomId peerId)) ∧
        w.redis.url = some url
  | .delProducerHashes url _ rejected => Closing roomId url w ∧ rejected = false
  | .closed url close _ =>
      Closing roomId url w ∧ (∀ closed, close = .returned closed ∨ close = .threw →
        (w.sfu url).rooms.lookup roomId = none)
  | .threw => False

variable {peerId : PeerId} {url : Url}

theorem Quiet.removePeer (h : Quiet roomId n w) (hurl : w.redis.url = some url) :
    Quiet roomId n
      ((w.setRedis ((w.redis.hdel peerId).delProducers peerId)).setSfu url
        ((w.sfu url).removePeer roomId peerId)) := by
  obtain ⟨r, hr, howned, hmembers, hkept, -⟩ := h.mirrors _ hurl
  have hremove : (w.sfu url).removePeer roomId peerId =
      (w.sfu url).removePeerOf r peerId := by simp [Sfu.State.removePeer, hr]
  rw [hremove]
  refine h.update hurl hr rfl (fun p peer hp => ?_) (by simp) (by simp)
    ⟨howned.removePeerOf peerId, fun p peer hp => ?_, fun p producerId _ => ?_,
      fun _ _ => False.elim⟩
  · change (w.redis.peers.erase peerId).lookup p = some peer at hp
    rw [Dict.lookup_erase_ite] at hp
    split at hp
    · cases hp
    · exact h.keyed p peer hp
  · rw [Sfu.State.room_removePeerOf, Function.update_self,
      Sfu.MediaRoom.getPeer_deletePeer] at hp
    split at hp
    · cases hp
    · next hne => exact (AList.mem_erase).2 ⟨hne, hmembers p peer hp⟩
  · rw [howned.openProducer_removePeerOf]
    by_cases hp : p = peerId
    · simp [hp, RoomKeys.delProducers]
    · rw [if_neg hp, hkept p producerId id]
      simp [RoomKeys.delProducers, RoomKeys.hdel, hp]

/-- The last member is gone, so the producers hashes and the MediaRoom are empty. -/
theorem Quiet.closeRoomIfEmpty (h : Quiet roomId n w)
    (hurl : w.redis.url = some url) (hempty : w.redis.hlen = 0) :
    Closing roomId url (w.setRedis { w.redis with room := none, peers := ∅ }) := by
  have hnobody := (RoomKeys.hlen_eq_zero_iff w.redis).1 hempty
  obtain ⟨r, hr, -, hmembers, hkept, -⟩ := h.mirrors _ hurl
  have hnone p : ((w.sfu url).room r).getPeer p = none :=
    Option.eq_none_iff_forall_not_mem.2 fun peer hp =>
      hnobody p (hmembers p peer hp)
  constructor
  · exact h.pendingRooms
  · exact h.sfuPending
  · refine ⟨rfl, fun p => AList.notMem_empty p, fun p => ?_⟩
    refine AList.ext (List.eq_nil_iff_forall_not_mem.2 fun entry hentry => ?_)
    have hlookup := Dict.mem_entries_iff.1 hentry
    change (w.redis.producers p).lookup entry.1 = some entry.2 at hlookup
    rw [← hkept p entry.1 id, Sfu.State.openProducer, Sfu.State.producers,
      hnone] at hlookup
    cases hlookup
  · exact fun other hne => h.elsewhere other fun heq =>
      hne (Option.some.inj (heq.symm.trans hurl))
  · intro r' hr'
    obtain rfl : r' = r := Option.some.inj (hr'.symm.trans hr)
    exact (Sfu.MediaRoom.isEmpty_iff _).2 fun p =>
      AList.lookup_eq_none.1 (hnone p)

omit [DecidableEq κ] in
theorem Closing.delProducers (h : Closing roomId url w) (other : PeerId) :
    Closing roomId url (w.setRedis (w.redis.delProducers other)) :=
  { h with
    vacant := ⟨h.vacant.room, h.vacant.peers, fun p => by
      change Function.update w.redis.producers other ∅ p = ∅
      rw [Function.update_apply]
      split
      · rfl
      · exact h.vacant.producers p⟩ }

theorem Leave.outline_nextProducerHash (h : Closing roomId url w)
    (todo : List PeerId) :
    (nextProducerHash url todo false).Outline roomId peerId n w := by
  cases todo with
  | nil => exact ⟨h, by simp⟩
  | cons => exact ⟨h, rfl⟩

theorem Closing.quiet (h : Closing roomId url w)
    (hclosed : (w.sfu url).rooms.lookup roomId = none) : Quiet roomId n w where
  pendingRooms := h.pendingRooms
  sfuPending := h.sfuPending
  keyed p peer hp := by cases (h.vacant.lookup p).symm.trans hp
  vacant _ := h.vacant
  elsewhere other _ := by
    by_cases hother : other = url
    · rw [hother, hclosed]
    · exact h.elsewhere other hother
  mirrors other hother := by
    have hnone : w.redis.url = none := by simp [RoomKeys.url, h.vacant.room]
    cases hnone.symm.trans hother

theorem Closing.close (h : Closing roomId url w)
    {close close' : Sfu.CloseRoom (Nat ⊕ κ)} {node : Sfu.State (Nat ⊕ κ)}
    (hs : close.step roomId true (w.sfu url) = some (node, close')) :
    Closing roomId url (w.setSfu url node) ∧
      ∀ closed, close' = .returned closed ∨ close' = .threw →
        ((w.setSfu url node).sfu url).rooms.lookup roomId = none := by
  obtain ⟨hpeers, hrooms⟩ := Sfu.CloseRoom.step_rooms hs
  have hpending := Sfu.CloseRoom.step_pendingRooms hs
  have hnode : (w.setSfu url node).sfu url = node := by
    rw [World.sfu_setSfu, if_pos rfl]
  refine ⟨⟨h.pendingRooms, fun other => ?_, h.vacant, fun other hne => ?_,
    fun r hr => ?_⟩, fun closed hclose' => ?_⟩
  · rw [World.sfu_setSfu]
    split
    · rw [hpending]
      exact h.sfuPending url
    · exact h.sfuPending other
  · rw [World.sfu_setSfu, if_neg hne]
    exact h.elsewhere other hne
  · rw [hnode] at hr ⊢
    have hr : (w.sfu url).rooms.lookup roomId = some r := by
      rcases hrooms with hrooms | hrooms
      · rwa [hrooms] at hr
      · simp [hrooms] at hr
    have hempty := h.empty r hr
    rw [Sfu.MediaRoom.isEmpty_iff] at hempty ⊢
    rwa [hpeers r]
  · rw [hnode]
    rcases Sfu.CloseRoom.step_outcome hs with hnone | ⟨r, hsuspended⟩ |
      ⟨r, hr, hoccupied⟩
    · exact hnone
    · subst hsuspended
      rcases hclose' with h | h <;> cases h
    · rw [h.empty r hr] at hoccupied
      cases hoccupied

theorem Leave.outline_step {w' : World Nat κ} {point point' : Leave Nat κ}
    (hs : Step roomId peerId w true point w' point')
    (h : point.Outline roomId peerId n w) :
    point'.Outline roomId peerId n w' := by
  cases hs with
  | gone => exact h
  | found hroom => exact ⟨h, by simp [RoomKeys.url, hroom]⟩
  | removed => exact ⟨h.1.removePeer h.2, h.2⟩
  | cleared => exact h
  | sfuRemoved => exact h
  | sfuAnswered => exact h
  | occupied => exact h.1
  | empty => exact h
  | listed => exact h
  | refused => exact h.1
  | closed hempty =>
      exact outline_nextProducerHash (h.1.closeRoomIfEmpty h.2 hempty) _
  | swept =>
      obtain ⟨h, rfl⟩ := h
      exact outline_nextProducerHash (h.delProducers _) _
  | closing hs => exact h.1.close hs
  | deleted => exact ⟨{ h.1 with vacant := ⟨h.1.vacant.room, h.1.vacant.peers,
      h.1.vacant.producers⟩ }, h.2⟩

end MeetServer.Realtime
