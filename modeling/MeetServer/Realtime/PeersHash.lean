import MeetServer.Realtime.Membership
import MeetServer.Realtime.Settled

/-!
# The peers hash under every call

A member is only taken out by an HDEL of its own id.  The script deletes the
hash, but only an empty one.
-/

namespace MeetServer.Realtime

open MeetServer.Foundation

variable {ι κ : Type}

namespace RoomKeys

variable {Ref : Type} {keys : RoomKeys Ref}

theorem Keyed.hdel (h : keys.Keyed) (p : PeerId) : (keys.hdel p).Keyed := by
  intro q peer hq
  rw [RoomKeys.hdel, Dict.lookup_erase_ite] at hq
  split at hq
  · cases hq
  · exact h q peer hq

theorem Keyed.of_peers {keys' : RoomKeys Ref} (h : keys.Keyed)
    (hpeers : keys'.peers = keys.peers) : keys'.Keyed := by
  intro q peer hq
  exact h q peer (hpeers ▸ hq)

/-- HKEYS and HGETALL list the same peers. -/
theorem Keyed.ids_getOtherPeers (h : keys.Keyed) (p : PeerId) :
    (keys.getOtherPeers p).map Peer.id = keys.hkeys.filter (· ≠ p) := by
  have hid : ∀ entry ∈ keys.peers.entries, entry.2.id = entry.1 :=
    fun entry hentry => h entry.1 entry.2 (Dict.mem_entries_iff.1 hentry)
  rw [getOtherPeers, hkeys, AList.keys, List.keys, List.filter_map,
    List.map_map]
  exact List.map_congr_left fun entry hentry =>
    hid entry (List.mem_of_mem_filter hentry)

theorem Keyed.mem_getOtherPeers (h : keys.Keyed) {p q : PeerId} :
    q ∈ (keys.getOtherPeers p).map Peer.id ↔ q ∈ keys.peers ∧ q ≠ p := by
  rw [h.ids_getOtherPeers, List.mem_filter, decide_eq_true_eq]
  exact Iff.rfl

theorem Keyed.nodup_getOtherPeers (h : keys.Keyed) (p : PeerId) :
    ((keys.getOtherPeers p).map Peer.id).Nodup := by
  rw [h.ids_getOtherPeers]
  exact keys.peers.keys_nodup.filter _

end RoomKeys

/-- The peer whose entry the next step deletes. -/
def Join.removing (peer : Peer) : Join ι κ → Option PeerId
  | .rollbackHdel => some peer.id
  | _ => none

def Leave.removing (peerId : PeerId) : Leave ι κ → Option PeerId
  | .hdel _ => some peerId
  | _ => none

def Call.removing : Call ι κ → Option PeerId
  | .join _ peer point => point.removing peer
  | .leave peerId point => point.removing peerId
  | .createWebRtcTransport _ _ _ => none

/-- What a command does to the peers hash. -/
inductive RoomKeys.PeersStep {Ref : Type} (keys keys' : RoomKeys Ref)
    (removing : Option PeerId) : Prop
  | same : keys'.peers = keys.peers → PeersStep keys keys' removing
  | hset (peer : Peer) : keys' = keys.hset peer → PeersStep keys keys' removing
  | hdel (p : PeerId) : removing = some p → keys' = keys.hdel p →
      PeersStep keys keys' removing
  | closed : keys.hlen = 0 → keys'.peers = ∅ → PeersStep keys keys' removing

namespace RoomKeys.PeersStep

variable {Ref : Type} {keys keys' : RoomKeys Ref} {removing : Option PeerId}

theorem mem (h : keys.PeersStep keys' removing) {p : PeerId}
    (hp : p ∈ keys.peers) (hremoving : removing ≠ some p) : p ∈ keys'.peers := by
  cases h with
  | same hpeers => rwa [hpeers]
  | hset peer hkeys =>
      subst hkeys
      exact (AList.mem_insert _).2 (.inr hp)
  | hdel q hq hkeys =>
      subst hkeys
      exact AList.mem_erase.2 ⟨fun heq => hremoving (heq ▸ hq), hp⟩
  | closed hempty => exact (keys.hlen_eq_zero_iff.1 hempty p hp).elim

theorem keyed (h : keys.PeersStep keys' removing) (hkeyed : keys.Keyed) :
    keys'.Keyed := by
  cases h with
  | same hpeers => exact hkeyed.of_peers hpeers
  | hset peer hkeys =>
      subst hkeys
      exact hkeyed.hset peer
  | hdel p _ hkeys =>
      subst hkeys
      exact hkeyed.hdel p
  | closed _ hpeers =>
      intro p peer hp
      rw [hpeers] at hp
      cases hp

end RoomKeys.PeersStep

variable [DecidableEq ι] [DecidableEq κ]

theorem GetOrCreateRoom.Step.peers {i : ι} {instanceId : Instance}
    {roomId : RoomId} {ok : Bool} {w w' : World ι κ}
    {point point' : GetOrCreateRoom ι κ}
    (h : GetOrCreateRoom.Step i instanceId roomId w ok point w' point') :
    w'.redis.peers = w.redis.peers := by
  cases h <;> rfl

theorem Join.Step.peers {i : ι} {instanceId : Instance} {roomId : RoomId}
    {peer : Peer} {ok : Bool} {w w' : World ι κ} {point point' : Join ι κ}
    (h : Join.Step i instanceId roomId peer w ok point w' point') :
    w.redis.PeersStep w'.redis (point.removing peer) := by
  cases h with
  | room hroom => exact .same hroom.peers
  | added => exact .hset peer rfl
  | removed => exact .hdel peer.id rfl rfl
  | _ => exact .same rfl

theorem Leave.Step.peers {roomId : RoomId} {peerId : PeerId} {ok : Bool}
    {w w' : World ι κ} {point point' : Leave ι κ}
    (h : Leave.Step roomId peerId w ok point w' point') :
    w.redis.PeersStep w'.redis (point.removing peerId) := by
  cases h with
  | removed => exact .hdel peerId rfl rfl
  | closed hempty => exact .closed hempty rfl
  | _ => exact .same rfl

theorem CreateWebRtcTransport.Step.redis {i : ι} {roomId : RoomId}
    {peerId : PeerId} {direction : TransportDirection} {ok : Bool}
    {w w' : World ι κ} {point point' : CreateWebRtcTransport ι κ}
    (h : CreateWebRtcTransport.Step i roomId peerId direction w ok point w'
      point') : w'.redis = w.redis := by
  cases h <;> rfl

theorem Call.peers_of_step {roomId : RoomId} {i : ι} {event : Event}
    {w w' : World ι κ} {c c' : Call ι κ}
    (h : c.step roomId i event w = some (w', c')) :
    w.redis.PeersStep w'.redis c.removing := by
  cases c with
  | join instanceId peer point =>
      simp only [Call.step, Option.map_eq_some_iff, Prod.mk.injEq] at h
      obtain ⟨⟨w', point'⟩, hpoint, rfl, rfl⟩ := h
      exact (Join.step_cases hpoint).peers
  | leave peerId point =>
      simp only [Call.step, Option.map_eq_some_iff, Prod.mk.injEq] at h
      obtain ⟨⟨w', point'⟩, hpoint, rfl, rfl⟩ := h
      exact (Leave.step_cases hpoint).peers
  | createWebRtcTransport peerId direction point =>
      simp only [Call.step, Option.map_eq_some_iff, Prod.mk.injEq] at h
      obtain ⟨⟨w', point'⟩, hpoint, rfl, rfl⟩ := h
      rw [(CreateWebRtcTransport.step_cases hpoint).redis]
      exact .same rfl

end MeetServer.Realtime
