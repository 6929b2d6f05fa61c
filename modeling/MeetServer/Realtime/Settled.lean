import MeetServer.Realtime.Session
import MeetServer.Sfu.OpenProducers

/-!
# The room between two calls

`Settled` holds of the room's world whenever no call is under way: either
nothing of the room is left anywhere, or one node has the MediaRoom and the
producers hashes mirror it.  The peers in `lost` are those whose producers have
been closed on the node alone.
-/

namespace MeetServer.Realtime

open MeetServer.Foundation

variable {ι κ : Type}

/-- The names of the first `n` calls. -/
def NamedBelow (n : Nat) (ref : Nat ⊕ κ) : Prop :=
  ∃ i < n, ref = .inl i

theorem NamedBelow.succ {n : Nat} {ref : Nat ⊕ κ} (h : NamedBelow n ref) :
    NamedBelow (n + 1) ref := by
  obtain ⟨i, hi, rfl⟩ := h
  exact ⟨i, by omega, rfl⟩

theorem not_namedBelow_self (n : Nat) : ¬ NamedBelow n (.inl n : Nat ⊕ κ) := by
  rintro ⟨i, hi, heq⟩
  cases heq
  omega

theorem NamedBelow.succ_of_or {n : Nat} {ref : Nat ⊕ κ}
    (h : NamedBelow n ref ∨ ref = .inl n) : NamedBelow (n + 1) ref := by
  rcases h with h | rfl
  · exact h.succ
  · exact ⟨n, by omega, rfl⟩

def RoomKeys.url {Ref : Type} (keys : RoomKeys Ref) : Option Url :=
  keys.room.map Room.sfuNodeUrl

/-- Every peer is stored under its own id. -/
def RoomKeys.Keyed {Ref : Type} (keys : RoomKeys Ref) : Prop :=
  ∀ p peer, keys.peers.lookup p = some peer → peer.id = p

theorem RoomKeys.Keyed.hset {Ref : Type} {keys : RoomKeys Ref} (h : keys.Keyed)
    (peer : Peer) : (keys.hset peer).Keyed := by
  intro p peer' hp
  rw [RoomKeys.hset, Dict.lookup_insert_ite] at hp
  split at hp
  · next heq =>
    cases hp
    exact heq.symm
  · exact h p peer' hp

/-- Neither a record nor peers nor producers. -/
structure RoomKeys.Vacant {Ref : Type} (keys : RoomKeys Ref) : Prop where
  room : keys.room = none
  peers : ∀ p, p ∉ keys.peers
  producers : ∀ p, keys.producers p = ∅

theorem RoomKeys.Vacant.lookup {Ref : Type} {keys : RoomKeys Ref}
    (h : keys.Vacant) (p : PeerId) : keys.peers.lookup p = none :=
  AList.lookup_eq_none.2 (h.peers p)

variable [DecidableEq κ]

/-- The room's keys and the MediaRoom `r` on its node. -/
structure Mirrors (r : Nat ⊕ κ) (lost : PeerId → Prop) (n : Nat)
    (keys : RoomKeys (Nat ⊕ κ)) (node : Sfu.State (Nat ⊕ κ)) : Prop where
  owned : node.Owned r (NamedBelow n)
  members : ∀ p peer, (node.room r).getPeer p = some peer → p ∈ keys.peers
  kept : ∀ p producerId, ¬ lost p →
    node.openProducer r p producerId = (keys.producers p).lookup producerId
  lost : ∀ p producerId, lost p → node.openProducer r p producerId = none

structure Settled (roomId : RoomId) (lost : PeerId → Prop) (n : Nat)
    (w : World Nat κ) : Prop where
  pendingRooms : ∀ instanceId, w.pendingRooms instanceId = none
  sfuPending : ∀ url, (w.sfu url).pendingRooms roomId = none
  keyed : w.redis.Keyed
  vacant : w.redis.room = none → w.redis.Vacant
  elsewhere : ∀ url, w.redis.url ≠ some url →
    (w.sfu url).rooms.lookup roomId = none
  mirrors : ∀ url, w.redis.url = some url → ∃ r,
    (w.sfu url).rooms.lookup roomId = some r ∧
      Mirrors r lost n w.redis (w.sfu url)

/-- Redis and the nodes agree on everything. -/
abbrev Quiet (roomId : RoomId) (n : Nat) (w : World Nat κ) : Prop :=
  Settled roomId (fun _ => False) n w

variable {roomId : RoomId} {lost lost' : PeerId → Prop} {n n' : Nat}
  {w : World Nat κ} {url : Url} {r : Nat ⊕ κ} {keys : RoomKeys (Nat ⊕ κ)}
  {node : Sfu.State (Nat ⊕ κ)}

theorem Mirrors.succ (h : Mirrors r lost n keys node) :
    Mirrors r lost (n + 1) keys node :=
  { h with owned := h.owned.mono fun _ => NamedBelow.succ }

theorem Settled.succ (h : Settled roomId lost n w) :
    Settled roomId lost (n + 1) w :=
  { h with
    mirrors url hurl := by
      obtain ⟨r, hr, hmirrors⟩ := h.mirrors url hurl
      exact ⟨r, hr, hmirrors.succ⟩ }

theorem Settled.update (h : Settled roomId lost n w)
    (hurl : w.redis.url = some url) (hr : (w.sfu url).rooms.lookup roomId = some r)
    (hroom : keys.room = w.redis.room)
    (hkeyed : keys.Keyed)
    (hrooms : node.rooms = (w.sfu url).rooms)
    (hpending : node.pendingRooms = (w.sfu url).pendingRooms)
    (hmirrors : Mirrors r lost' n' keys node) :
    Settled roomId lost' n' ((w.setRedis keys).setSfu url node) := by
  have hkeys : keys.url = some url := by rw [RoomKeys.url, hroom]; exact hurl
  have hnone : keys.room ≠ none := by
    intro hnone
    simp [RoomKeys.url, hnone] at hkeys
  constructor
  · exact h.pendingRooms
  · intro url'
    rw [World.sfu_setSfu]
    split
    · rw [hpending]
      exact h.sfuPending url
    · exact h.sfuPending url'
  · exact hkeyed
  · exact fun hroom => (hnone hroom).elim
  · intro url' hurl'
    have hne : url' ≠ url := fun heq => hurl' (heq ▸ hkeys)
    rw [World.sfu_setSfu, if_neg hne]
    exact h.elsewhere url' fun heq => hne (Option.some.inj (heq.symm.trans hurl))
  · intro url' hurl'
    obtain rfl : url' = url := Option.some.inj (hurl'.symm.trans hkeys)
    rw [World.sfu_setSfu, if_pos rfl]
    exact ⟨r, by rw [hrooms]; exact hr, hmirrors⟩

theorem Settled.setSfu (h : Settled roomId lost n w)
    (hurl : w.redis.url = some url) (hr : (w.sfu url).rooms.lookup roomId = some r)
    (hrooms : node.rooms = (w.sfu url).rooms)
    (hpending : node.pendingRooms = (w.sfu url).pendingRooms)
    (hmirrors : Mirrors r lost' n' w.redis node) :
    Settled roomId lost' n' (w.setSfu url node) :=
  h.update hurl hr rfl h.keyed hrooms hpending hmirrors

end MeetServer.Realtime
