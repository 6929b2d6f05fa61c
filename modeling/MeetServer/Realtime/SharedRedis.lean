import MeetServer.Realtime.Isolation

/-!
# One Redis for all rooms

`RoomKeys` has the keys of one room by themselves, and the calls on a room work on
these.  All rooms are in one Redis, under keys that are put together from the ids.
The two agree, command by command and for any commands on any rooms, as long as no
room id is another one followed by `:peers`.
-/

namespace MeetServer.Realtime

open MeetServer.Foundation MeetServer.Foundation.Keyspace

/-! ## The commands on the keys of a room -/

inductive KeyCommand where
  | get
  | set (room : Room)
  | expire
  | hget (peerId : PeerId)
  | hgetall
  | hset (peerId : SocketId) (displayName : String)
  | hdel (peerId : PeerId)
  | hlen
  | hkeys
  | expirePeers
  | closeRoomIfEmpty
  | delProducers (peerId : SocketId)
  | hsetProducer (peerId : SocketId) (producerId : String) (kind : MediaKind)
  | hgetallProducers (peerId : SocketId)
  | expireProducers (peerId : SocketId)

inductive KeyAnswer where
  | done
  | value (value : Option Text)
  | hash (entries : List (String × Text))
  | count (count : Nat)
  | keys (keys : List String)
  | flag (flag : Bool)
  deriving DecidableEq, Repr

def hashAnswer (fields : Dict String Text) : KeyAnswer :=
  .hash (fields.entries.map fun entry => (entry.1, entry.2))

/-- The command as `RoomsService` issues it; the answer is what it uses of the reply. -/
def KeyCommand.run (roomId : RoomId) : KeyCommand → Redis KeyAnswer
  | .get => KeyAnswer.value <$> Keyspace.get (roomKey roomId)
  | .set room => (fun _ => .done) <$> Keyspace.set (roomKey roomId) (.room room)
  | .expire => (fun _ => .done) <$> (Keyspace.expire (roomKey roomId) : Redis Unit)
  | .hget peerId => KeyAnswer.value <$> Keyspace.hget (peersKey roomId) peerId
  | .hgetall => hashAnswer <$> Keyspace.hgetall (peersKey roomId)
  | .hset peerId displayName =>
      (fun _ => .done) <$>
        Keyspace.hset (peersKey roomId) (peerId : String) (.peer ⟨peerId, displayName⟩)
  | .hdel peerId => (fun _ => .done) <$> (Keyspace.hdel (peersKey roomId) peerId : Redis Unit)
  | .hlen => KeyAnswer.count <$> Keyspace.hlen (peersKey roomId)
  | .hkeys => KeyAnswer.keys <$> Keyspace.hkeys (peersKey roomId)
  | .expirePeers => (fun _ => .done) <$> (Keyspace.expire (peersKey roomId) : Redis Unit)
  | .closeRoomIfEmpty =>
      KeyAnswer.flag <$> Realtime.closeRoomIfEmpty (peersKey roomId) (roomKey roomId)
  | .delProducers peerId =>
      (fun _ => .done) <$> (Keyspace.del (producersKey roomId peerId) : Redis Unit)
  | .hsetProducer peerId producerId kind =>
      (fun _ => .done) <$>
        Keyspace.hset (producersKey roomId peerId) producerId (.kind kind)
  | .hgetallProducers peerId => hashAnswer <$> Keyspace.hgetall (producersKey roomId peerId)
  | .expireProducers peerId =>
      (fun _ => .done) <$> (Keyspace.expire (producersKey roomId peerId) : Redis Unit)

/-- The command on the keys of the room by themselves. -/
def KeyCommand.onRoom (keys : RoomKeys String) : KeyCommand → KeyAnswer × RoomKeys String
  | .get => (.value (keys.room.map .room), keys)
  | .set room => (.done, keys.set room)
  | .expire | .expirePeers | .expireProducers _ => (.done, keys)
  | .hget peerId => (.value ((keys.peers.lookup peerId).map .peer), keys)
  | .hgetall => (hashAnswer (keys.peers.mapValues .peer), keys)
  | .hset peerId displayName => (.done, keys.hset ⟨peerId, displayName⟩)
  | .hdel peerId => (.done, keys.hdel peerId)
  | .hlen => (.count keys.hlen, keys)
  | .hkeys => (.keys keys.hkeys, keys)
  | .closeRoomIfEmpty => (.flag keys.closeRoomIfEmpty.2, keys.closeRoomIfEmpty.1)
  | .delProducers peerId => (.done, keys.delProducers peerId)
  | .hsetProducer peerId producerId kind => (.done, keys.hsetProducer peerId producerId kind)
  | .hgetallProducers peerId => (hashAnswer ((keys.producers peerId).mapValues .kind), keys)

/-- Every room by itself. -/
def separateResults (rooms : RoomId → RoomKeys String) :
    List (RoomId × KeyCommand) → List (RoomId × Except StoreError KeyAnswer)
  | [] => []
  | (roomId, command) :: commands =>
      (roomId, .ok (command.onRoom (rooms roomId)).1) ::
        separateResults (Function.update rooms roomId (command.onRoom (rooms roomId)).2) commands

def sharedResults (s : Store) (commands : List (RoomId × KeyCommand)) :
    List (RoomId × Except StoreError KeyAnswer) :=
  results s (commands.map fun command => (command.1, command.2.run command.1))

/-! ## A room in the store -/

/-- The keys of the room in the store. -/
structure Shows (roomId : RoomId) (keys : RoomKeys String) (s : Store) : Prop where
  room : s (roomKey roomId) = keys.room.map fun room => .string (.room room)
  peers : s (peersKey roomId) = ofHash (keys.peers.mapValues .peer)
  producers : ∀ peerId : SocketId,
    s (producersKey roomId peerId) = ofHash ((keys.producers peerId).mapValues .kind)

theorem asHash_ofHash (fields : Dict String Text) :
    asHash (ofHash fields : Option (Value String Text)) = .ok fields := by
  unfold ofHash
  split
  · next hsize =>
    have hempty : fields = ∅ := by
      refine AList.ext (List.length_eq_zero_iff.1 ?_)
      simpa [Dict.size, AList.keys, List.keys] using hsize
    rw [hempty]
    rfl
  · rfl

theorem asString_record (room : Option Room) :
    asString (room.map fun room => .string (.room room) : Option (Value String Text)) =
      .ok (room.map .room) := by
  cases room <;> rfl

theorem roomKey_ne_peersKey (roomId : RoomId) : roomKey roomId ≠ peersKey roomId := fun h =>
  append_peers_ne roomId (roomKey_eq_peersKey.1 h).symm

theorem producersKey_ne_roomKey (roomId : RoomId) (peerId : PeerId) :
    producersKey roomId peerId ≠ roomKey roomId := by
  intro h
  simpa [producersKey, roomKey] using
    congrArg (fun key : String => key.toList.head?) h

theorem producersKey_peer_inj {roomId : RoomId} {peerId otherId : PeerId} :
    producersKey roomId otherId = producersKey roomId peerId ↔ otherId = peerId := by
  simp [producersKey]

namespace Shows

variable {roomId : RoomId} {keys : RoomKeys String} {s : Store}

theorem of_agree (h : Shows roomId keys s) {s' : Store}
    (hsame : ∀ key, Owns roomId key → s' key = s key) : Shows roomId keys s' :=
  ⟨(hsame _ .room).trans h.room, (hsame _ .peers).trans h.peers,
    fun peerId => (hsame _ (.producers peerId)).trans (h.producers peerId)⟩

theorem setRoom (h : Shows roomId keys s) (room : Option Room) :
    Shows roomId { keys with room := room }
      (Function.update s (roomKey roomId) (room.map fun room => .string (.room room))) where
  room := by rw [Function.update_self]
  peers := by rw [Function.update_of_ne (roomKey_ne_peersKey roomId).symm, h.peers]
  producers peerId := by
    rw [Function.update_of_ne (producersKey_ne_roomKey roomId peerId), h.producers peerId]

theorem setPeers (h : Shows roomId keys s) (peers : Dict PeerId Peer) :
    Shows roomId { keys with peers := peers }
      (Function.update s (peersKey roomId) (ofHash (peers.mapValues .peer))) where
  room := by rw [Function.update_of_ne (roomKey_ne_peersKey roomId), h.room]
  peers := by rw [Function.update_self]
  producers peerId := by
    rw [Function.update_of_ne (producersKey_ne_peersKey roomId roomId peerId), h.producers peerId]

theorem setProducers (h : Shows roomId keys s) (peerId : SocketId)
    (producers : Dict String MediaKind) :
    Shows roomId { keys with producers := Function.update keys.producers peerId producers }
      (Function.update s (producersKey roomId peerId) (ofHash (producers.mapValues .kind))) where
  room := by rw [Function.update_of_ne (producersKey_ne_roomKey roomId peerId).symm, h.room]
  peers := by
    rw [Function.update_of_ne (producersKey_ne_peersKey roomId roomId peerId).symm, h.peers]
  producers otherId := by
    by_cases hother : otherId = peerId
    · subst hother
      simp only [Function.update_self]
    · have hkey : producersKey roomId otherId ≠ producersKey roomId peerId := fun heq =>
        hother (Subtype.ext (producersKey_peer_inj.1 heq))
      have hid : (otherId : PeerId) ≠ peerId := fun heq => hother (Subtype.ext heq)
      rw [Function.update_of_ne hkey, h.producers otherId]
      simp only [Function.update_of_ne hid]

/-- A command does on the keys of the room what it does in the store. -/
theorem run (h : Shows roomId keys s) (command : KeyCommand) :
    ((command.run roomId).exec s).1 = .ok (command.onRoom keys).1 ∧
      Shows roomId (command.onRoom keys).2 ((command.run roomId).exec s).2 := by
  have hpeers := asHash_ofHash (keys.peers.mapValues .peer)
  have hproducers (peerId : SocketId) :=
    asHash_ofHash ((keys.producers peerId).mapValues .kind)
  cases command with
  | get =>
      rw [KeyCommand.run, Client.exec_map, Keyspace.get, exec_onKey, h.room, asString_record]
      exact ⟨rfl, h.setRoom keys.room⟩
  | set room =>
      rw [KeyCommand.run, Client.exec_map, Keyspace.set, exec_onKey]
      exact ⟨rfl, h.setRoom (some room)⟩
  | expire =>
      rw [KeyCommand.run, Client.exec_map, Keyspace.expire, exec_onKey, h.room]
      exact ⟨rfl, h.setRoom keys.room⟩
  | hget peerId =>
      rw [KeyCommand.run, Client.exec_map, Keyspace.hget, exec_onKey, h.peers, hpeers]
      refine ⟨?_, h.setPeers keys.peers⟩
      simp only [Except.map, KeyCommand.onRoom, Dict.lookup_mapValues]
  | hgetall =>
      rw [KeyCommand.run, Client.exec_map, Keyspace.hgetall, exec_onKey, h.peers, hpeers]
      exact ⟨rfl, h.setPeers keys.peers⟩
  | hset peerId displayName =>
      rw [KeyCommand.run, Client.exec_map, Keyspace.hset, exec_onKey, h.peers, hpeers]
      refine ⟨rfl, ?_⟩
      have hset := h.setPeers (keys.peers.insert peerId ⟨peerId, displayName⟩)
      rwa [Dict.mapValues_insert] at hset
  | hdel peerId =>
      rw [KeyCommand.run, Client.exec_map, Keyspace.hdel, exec_onKey, h.peers, hpeers]
      refine ⟨rfl, ?_⟩
      have hdel := h.setPeers (keys.peers.erase peerId)
      rwa [Dict.mapValues_erase] at hdel
  | hlen =>
      rw [KeyCommand.run, Client.exec_map, Keyspace.hlen, exec_onKey, h.peers, hpeers]
      refine ⟨?_, h.setPeers keys.peers⟩
      simp only [Except.map, KeyCommand.onRoom, RoomKeys.hlen, Dict.size_mapValues]
  | hkeys =>
      rw [KeyCommand.run, Client.exec_map, Keyspace.hkeys, exec_onKey, h.peers, hpeers]
      refine ⟨?_, h.setPeers keys.peers⟩
      simp only [Except.map, KeyCommand.onRoom, RoomKeys.hkeys, Dict.keys_mapValues]
  | expirePeers =>
      rw [KeyCommand.run, Client.exec_map, Keyspace.expire, exec_onKey, h.peers]
      exact ⟨rfl, h.setPeers keys.peers⟩
  | closeRoomIfEmpty =>
      rw [KeyCommand.run, Client.exec_map, Realtime.closeRoomIfEmpty, Client.exec_bind,
        Keyspace.hlen, exec_onKey, h.peers, hpeers]
      simp only [Except.map, Dict.size_mapValues]
      by_cases hempty : keys.peers.size = 0
      · rw [if_pos hempty, Client.exec_bind, Keyspace.del, exec_onKey]
        simp only [Client.exec_bind, Keyspace.del, exec_onKey]
        have hclosed : keys.closeRoomIfEmpty = ({ keys with room := none, peers := ∅ }, true) :=
          if_pos hempty
        rw [KeyCommand.onRoom, hclosed, Function.update_idem]
        exact ⟨rfl, (h.setPeers ∅).setRoom none⟩
      · have hoccupied : keys.closeRoomIfEmpty = (keys, false) := if_neg hempty
        rw [if_neg hempty, KeyCommand.onRoom, hoccupied]
        exact ⟨rfl, h.setPeers keys.peers⟩
  | delProducers peerId =>
      rw [KeyCommand.run, Client.exec_map, Keyspace.del, exec_onKey]
      exact ⟨rfl, h.setProducers peerId ∅⟩
  | hsetProducer peerId producerId kind =>
      rw [KeyCommand.run, Client.exec_map, Keyspace.hset, exec_onKey, h.producers, hproducers]
      refine ⟨rfl, ?_⟩
      have hset := h.setProducers peerId ((keys.producers peerId).insert producerId kind)
      rwa [Dict.mapValues_insert] at hset
  | hgetallProducers peerId =>
      rw [KeyCommand.run, Client.exec_map, Keyspace.hgetall, exec_onKey, h.producers, hproducers]
      refine ⟨rfl, ?_⟩
      have hkept := h.setProducers peerId (keys.producers peerId)
      rwa [Function.update_eq_self] at hkept
  | expireProducers peerId =>
      rw [KeyCommand.run, Client.exec_map, Keyspace.expire, exec_onKey, h.producers]
      have hkept := h.setProducers peerId (keys.producers peerId)
      rw [Function.update_eq_self] at hkept
      exact ⟨rfl, hkept⟩

end Shows

/-! ## All rooms -/

/-- Commands keep to the keys of their room, and to socket ids in the peers hashes. -/
theorem KeyCommand.confined (roomId : RoomId) (command : KeyCommand) :
    Confined (Owns roomId) SocketFields (command.run roomId) := by
  have hmap {α : Type} {m : Redis α} (g : α → KeyAnswer)
      (hm : Confined (Owns roomId) SocketFields m) :
      Confined (Owns roomId) SocketFields (g <$> m) := by
    rw [map_eq_pure_bind]
    exact hm.seq fun _ => .pure _
  cases command with
  | get => exact hmap _ confined_getRoom
  | set room => exact hmap _ (confined_set .room _)
  | expire => exact hmap _ (confined_expire .room)
  | hget peerId => exact hmap _ (.read_map .peers)
  | hgetall => exact hmap _ (.read_map .peers)
  | hset peerId displayName => exact hmap _ (confined_hset peerId _)
  | hdel peerId => exact hmap _ (confined_hdel peerId)
  | hlen => exact hmap _ (.read_map .peers)
  | hkeys => exact hmap _ (.read_map .peers)
  | expirePeers => exact hmap _ (confined_expire .peers)
  | closeRoomIfEmpty => exact hmap _ confined_closeRoomIfEmpty
  | delProducers peerId => exact hmap _ (confined_del (.producers peerId))
  | hsetProducer peerId producerId kind =>
      exact hmap _ (confined_hsetProducer peerId producerId _)
  | hgetallProducers peerId => exact hmap _ (.read_map (.producers peerId))
  | expireProducers peerId => exact hmap _ (confined_expire (.producers peerId))

/-- No id is another one's, followed by `:peers`. -/
def Apart (rooms : Set RoomId) : Prop :=
  ∀ r ∈ rooms, ∀ r' ∈ rooms, r' ≠ r ++ ":peers"

theorem sharedResults_eq {rooms : Set RoomId} (hrooms : Apart rooms) {s : Store}
    {keys : RoomId → RoomKeys String} (hs : SocketFields s)
    (hshows : ∀ r ∈ rooms, Shows r (keys r) s) {commands : List (RoomId × KeyCommand)}
    (hcommands : ∀ command ∈ commands, command.1 ∈ rooms) :
    sharedResults s commands = separateResults keys commands := by
  induction commands generalizing s keys with
  | nil => rfl
  | cons command commands ih =>
      obtain ⟨roomId, command⟩ := command
      have hroom : roomId ∈ rooms := hcommands _ List.mem_cons_self
      obtain ⟨hanswer, hafter⟩ := (hshows roomId hroom).run command
      have hconfined := command.confined roomId
      refine congrArg₂ List.cons (Prod.ext rfl hanswer) (ih (hconfined.keeps s hs) (fun r hr => ?_)
        fun other hother => hcommands other (List.mem_cons_of_mem _ hother))
      by_cases hne : r = roomId
      · rw [hne, Function.update_self]
        exact hafter
      · rw [Function.update_of_ne hne]
        refine (hshows r hr).of_agree fun key hkey => hconfined.frame s key hs ?_
        exact hkey.disjoint (Ne.symm hne) (hrooms roomId hroom r hr) (hrooms r hr roomId hroom)

/-- Rooms share one Redis as if each had its own exactly when no id is another one's, followed by
`:peers`. -/
theorem sharedResults_eq_iff (rooms : Set RoomId) :
    (∀ commands : List (RoomId × KeyCommand), (∀ command ∈ commands, command.1 ∈ rooms) →
      sharedResults Store.empty commands = separateResults (fun _ => {}) commands) ↔
      Apart rooms := by
  constructor
  · rintro h r hr r' hr' rfl
    have hkey : roomKey (r ++ ":peers") = peersKey r := roomKey_eq_peersKey.2 rfl
    have hrun := h [(r, .hset ⟨"p", by decide⟩ "P"), (r ++ ":peers", .get)] (by simp [hr, hr'])
    simp [sharedResults, separateResults, results, hkey, KeyCommand.run, KeyCommand.onRoom,
      Client.exec_map, Keyspace.hset, Keyspace.get, exec_onKey, Store.empty, asHash, asString,
      ofHash, Except.map, Dict.size, append_peers_ne r] at hrun
  · intro hrooms commands hcommands
    have hfields : SocketFields Store.empty := by
      intro r fields h
      cases h
    exact sharedResults_eq hrooms hfields (fun _ _ => ⟨rfl, rfl, fun _ => rfl⟩) hcommands

end MeetServer.Realtime
