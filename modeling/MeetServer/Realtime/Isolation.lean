import MeetServer.Foundation.Keyspace
import MeetServer.Realtime.Redis

/-!
# The keys of different rooms

All rooms share one Redis, and the ids in the keys come from clients.  The keys
of two rooms are disjoint unless one id is the other followed by `:peers`,
which makes the record of the one the peers hash of the other.
-/

namespace MeetServer.Realtime

open MeetServer.Foundation MeetServer.Foundation.Keyspace

def roomKey (roomId : RoomId) : String := "room:" ++ roomId

def peersKey (roomId : RoomId) : String := "room:" ++ roomId ++ ":peers"

def producersKey (roomId : RoomId) (peerId : PeerId) : String :=
  "peer:" ++ roomId ++ ":" ++ peerId ++ ":producers"

def streamKey (roomId : RoomId) : String := "chat:" ++ roomId

/-- A chat message without its id. -/
structure ChatMessage where
  peerId : PeerId
  displayName : String
  body : String
  ts : Nat
  deriving DecidableEq, Repr

/-- What Redis stores, as `JSON.parse` reads it: the cast checks nothing. -/
inductive Text where
  | room (room : Room)
  | peer (peer : Peer)
  | kind (kind : MediaKind)
  | message (message : ChatMessage)
  deriving DecidableEq, Repr

abbrev Redis := Client String String Text

abbrev Store := Keyspace String String Text

/-! ## `RoomsService` -/

def getRoom (roomId : RoomId) : Redis (Option Text) :=
  get (roomKey roomId)

def createRoom (roomId : RoomId) (rtpCapabilities : RtpCapabilities)
    (sfuNodeUrl : Url) : Redis Text := do
  let room : Text := .room { id := roomId, rtpCapabilities, sfuNodeUrl }
  set (roomKey roomId) room
  return room

/-- The sfu's answer to a creation is a parameter. -/
def getOrCreateRoom (roomId : RoomId) (rtpCapabilities : RtpCapabilities)
    (sfuNodeUrl : Url) : Redis Text := do
  match ← getRoom roomId with
  | some existing =>
      expire (roomKey roomId)
      return existing
  | none => createRoom roomId rtpCapabilities sfuNodeUrl

def getPeer (roomId : RoomId) (peerId : PeerId) : Redis (Option Text) :=
  hget (peersKey roomId) peerId

def getOtherPeers (roomId : RoomId) (excludePeerId : PeerId) :
    Redis (List Text) := do
  let all ← hgetall (peersKey roomId)
  return (all.entries.filter fun entry => entry.1 ≠ excludePeerId).map
    Sigma.snd

def addPeer (roomId : RoomId) (peer : Peer) : Redis Unit := do
  hset (peersKey roomId) peer.id (.peer peer)
  expire (peersKey roomId)

def removePeer (roomId : RoomId) (peerId : PeerId) : Redis Unit := do
  hdel (peersKey roomId) peerId
  del (producersKey roomId peerId)

def isEmpty (roomId : RoomId) : Redis Bool := do
  let count ← hlen (peersKey roomId)
  return count = 0

/-- `CLOSE_ROOM_IF_EMPTY_SCRIPT`. -/
def closeRoomIfEmpty (peersKey roomKey : String) : Redis Bool := do
  let count ← hlen peersKey
  if count = 0 then
    del peersKey
    del roomKey
    return true
  else return false

def closeRoom (roomId : RoomId) : Redis Bool := do
  let peerIds ← hkeys (peersKey roomId)
  let closed ← closeRoomIfEmpty (peersKey roomId) (roomKey roomId)
  if closed then
    peerIds.forM fun peerId => del (producersKey roomId peerId)
    return true
  else return false

def addProducer (roomId : RoomId) (peerId : PeerId) (producerId : String)
    (kind : MediaKind) : Redis Unit := do
  hset (producersKey roomId peerId) producerId (.kind kind)
  expire (producersKey roomId peerId)

def getProducers (roomId : RoomId) (peerId : PeerId) :
    Redis (List (String × Text)) := do
  let all ← hgetall (producersKey roomId peerId)
  return all.entries.map fun entry => (entry.1, entry.2)

/-! ## `ChatService` -/

/-- `ms` or `ms-seq`. -/
def parseStreamId (text : String) : Option StreamId :=
  match text.splitOn "-" with
  | [ms] => ms.toNat?.map fun ms => (ms, 0)
  | [ms, seq] => do return (← ms.toNat?, ← seq.toNat?)
  | _ => none

/-- How XADD trims a stream to about `HISTORY_LIMIT` entries. -/
abbrev Trim := List (StreamId × Text) → List (StreamId × Text)

def addMessage (trim : Trim) (roomId : RoomId) (now : Nat)
    (message : ChatMessage) : Redis (StreamId × ChatMessage) := do
  let id ← xadd trim (streamKey roomId) now (.message message)
  return (id, message)

def getHistory (roomId : RoomId) (afterId : Option String) :
    Redis (List (StreamId × Text)) :=
  match afterId with
  | none | some "" => xrange (streamKey roomId) none
  | some afterId =>
      match parseStreamId afterId with
      | some id => xrange (streamKey roomId) (some id)
      | none => throw .invalidId

def deleteRoomHistory (roomId : RoomId) : Redis Unit :=
  del (streamKey roomId)

/-! ## Operations -/

/-- Peer ids are socket ids. -/
abbrev SocketId := { peerId : PeerId // ':' ∉ peerId.toList }

inductive Operation where
  | getRoom
  | createRoom (rtpCapabilities : RtpCapabilities) (sfuNodeUrl : Url)
  | getOrCreateRoom (rtpCapabilities : RtpCapabilities) (sfuNodeUrl : Url)
  | getPeer (peerId : SocketId)
  | getOtherPeers (excludePeerId : PeerId)
  | addPeer (peerId : SocketId) (displayName : String)
  | removePeer (peerId : SocketId)
  | isEmpty
  | closeRoom
  | addProducer (peerId : SocketId) (producerId : String) (kind : MediaKind)
  | getProducers (peerId : SocketId)
  | addMessage (now : Nat) (message : ChatMessage)
  | getHistory (afterId : Option String)
  | deleteRoomHistory

inductive Response where
  | done
  | value (value : Option Text)
  | peers (peers : List Text)
  | flag (flag : Bool)
  | producers (producers : List (String × Text))
  | message (id : StreamId) (message : ChatMessage)
  | history (messages : List (StreamId × Text))
  deriving DecidableEq, Repr

def Operation.run (trim : Trim) (roomId : RoomId) : Operation → Redis Response
  | .getRoom => return .value (← Realtime.getRoom roomId)
  | .createRoom rtpCapabilities sfuNodeUrl =>
      return .value (← Realtime.createRoom roomId rtpCapabilities sfuNodeUrl)
  | .getOrCreateRoom rtpCapabilities sfuNodeUrl =>
      return .value
        (← Realtime.getOrCreateRoom roomId rtpCapabilities sfuNodeUrl)
  | .getPeer peerId => return .value (← Realtime.getPeer roomId peerId)
  | .getOtherPeers excludePeerId =>
      return .peers (← Realtime.getOtherPeers roomId excludePeerId)
  | .addPeer peerId displayName => do
      Realtime.addPeer roomId ⟨peerId, displayName⟩
      return .done
  | .removePeer peerId => do
      Realtime.removePeer roomId peerId
      return .done
  | .isEmpty => return .flag (← Realtime.isEmpty roomId)
  | .closeRoom => return .flag (← Realtime.closeRoom roomId)
  | .addProducer peerId producerId kind => do
      Realtime.addProducer roomId peerId producerId kind
      return .done
  | .getProducers peerId =>
      return .producers (← Realtime.getProducers roomId peerId)
  | .addMessage now message => do
      let (id, message) ← Realtime.addMessage trim roomId now message
      return .message id message
  | .getHistory afterId => return .history (← Realtime.getHistory roomId afterId)
  | .deleteRoomHistory => do
      Realtime.deleteRoomHistory roomId
      return .done

def programs (trim : Trim) (operations : List (RoomId × Operation)) :
    List (RoomId × Redis Response) :=
  operations.map fun operation => (operation.1, operation.2.run trim operation.1)

def Store.empty : Store := fun _ => none

/-- Whatever has happened before, in any rooms: the answers in `r'` are the same
when the operations on `r` are left out. -/
def Isolated (trim : Trim) (r r' : RoomId) : Prop :=
  ∀ before operations : List (RoomId × Operation),
    (∀ operation ∈ operations, operation.1 = r ∨ operation.1 = r') →
    let s := afterAll Store.empty (programs trim before)
    (results s (programs trim operations)).filter
        (fun result => result.1 = r') =
      results s (programs trim
        (operations.filter fun operation => operation.1 = r'))

/-! ## The keys of a room -/

theorem roomKey_inj {r r' : RoomId} : roomKey r = roomKey r' ↔ r = r' := by
  simp [roomKey]

theorem peersKey_inj {r r' : RoomId} : peersKey r = peersKey r' ↔ r = r' := by
  simp [peersKey]

theorem streamKey_inj {r r' : RoomId} : streamKey r = streamKey r' ↔ r = r' := by
  simp [streamKey]

/-- The one way in which two families meet. -/
theorem roomKey_eq_peersKey {r r' : RoomId} :
    roomKey r = peersKey r' ↔ r = r' ++ ":peers" := by
  rw [roomKey, peersKey, String.append_assoc, String.append_right_inj]

theorem eq_of_append_cons {α : Type*} {a : α} {xs xs' ys ys' : List α}
    (hys : a ∉ ys) (hys' : a ∉ ys') (h : xs ++ a :: ys = xs' ++ a :: ys') :
    xs = xs' := by
  rcases List.append_eq_append_iff.1 h with ⟨c, rfl, hc⟩ | ⟨c, rfl, hc⟩
  · cases c with
    | nil => simp
    | cons b c =>
        have hys := (List.cons.inj hc).2 ▸ hys
        simp at hys
  · cases c with
    | nil => simp
    | cons b c =>
        have hys' := (List.cons.inj hc).2 ▸ hys'
        simp at hys'

/-- Without a colon in the peer id, the last but one colon ends the room id. -/
theorem producersKey_inj {r r' : RoomId} {p q : SocketId}
    (h : producersKey r p = producersKey r' q) : r = r' := by
  rw [producersKey, producersKey, String.append_left_inj] at h
  have hlist := congrArg String.toList h
  simp only [String.append_assoc, String.toList_append,
    List.append_cancel_left_eq] at hlist
  exact String.toList_inj.1 (eq_of_append_cons p.2 q.2 hlist)

/-- The keys that operations on the room touch. -/
inductive Owns (roomId : RoomId) : String → Prop
  | room : Owns roomId (roomKey roomId)
  | peers : Owns roomId (peersKey roomId)
  | producers (peerId : SocketId) : Owns roomId (producersKey roomId peerId)
  | stream : Owns roomId (streamKey roomId)

theorem Owns.disjoint {r r' : RoomId} (hne : r ≠ r') (h : r' ≠ r ++ ":peers")
    (h' : r ≠ r' ++ ":peers") {key : String} (hkey : Owns r' key) :
    ¬ Owns r key := by
  -- Two families with different first letters have no key in common.
  have hletter : ∀ {k k' : String}, k = k' →
      k.toList.head? = k'.toList.head? := fun h => by rw [h]
  intro hr
  generalize hkey' : key = key' at hr
  cases hkey with
  | room =>
      cases hr with
      | room => exact hne (roomKey_inj.1 hkey').symm
      | peers => exact h (roomKey_eq_peersKey.1 hkey')
      | producers | stream =>
          simpa [roomKey, producersKey, streamKey] using hletter hkey'
  | peers =>
      cases hr with
      | room => exact h' (roomKey_eq_peersKey.1 hkey'.symm)
      | peers => exact hne (peersKey_inj.1 hkey').symm
      | producers | stream =>
          simpa [peersKey, producersKey, streamKey] using hletter hkey'
  | producers p =>
      cases hr with
      | producers q => exact hne (producersKey_inj hkey').symm
      | room | peers | stream =>
          simpa [roomKey, peersKey, producersKey, streamKey] using hletter hkey'
  | stream =>
      cases hr with
      | stream => exact hne (streamKey_inj.1 hkey').symm
      | room | peers | producers =>
          simpa [roomKey, peersKey, producersKey, streamKey] using hletter hkey'

/-! ## Every operation keeps to the keys of its room -/

/-- The fields of every peers hash are socket ids. -/
def SocketFields (s : Store) : Prop :=
  ∀ r fields, s (peersKey r) = some (.hash fields) →
    ∀ p ∈ fields, ':' ∉ p.toList

theorem SocketFields.update {s : Store} (h : SocketFields s) {key : String}
    {v : Option (Value String Text)}
    (hv : ∀ r fields, key = peersKey r → v = some (.hash fields) →
      ∀ p ∈ fields, ':' ∉ p.toList) :
    SocketFields (Function.update s key v) := by
  intro r fields hr
  by_cases hkey : key = peersKey r
  · subst hkey
    rw [Function.update_self] at hr
    exact hv r fields rfl hr
  · rw [Function.update_of_ne (Ne.symm hkey)] at hr
    exact h r fields hr

theorem SocketFields.mem_keys {s : Store} (h : SocketFields s) {r : RoomId}
    {fields : Dict String Text} (hfields : asHash (s (peersKey r)) = .ok fields)
    {p : String} (hp : p ∈ fields) : ':' ∉ p.toList := by
  rcases asHash_eq_ok hfields with hr | rfl
  · exact h r fields hr p hp
  · cases hp

theorem producersKey_ne_peersKey (r r' : RoomId) (p : PeerId) :
    producersKey r p ≠ peersKey r' := by
  intro h
  simpa [producersKey, peersKey] using
    congrArg (fun key : String => key.toList.head?) h

variable {r : RoomId}

theorem confined_set {key : String} (hkey : Owns r key) (text : Text) :
    Confined (Owns r) SocketFields (Keyspace.set key text) := by
  refine .onKey hkey fun s _ v hs hv => hs.update ?_
  rintro r fields - rfl
  cases hv

theorem confined_del {key : String} (hkey : Owns r key) :
    Confined (Owns r) SocketFields (Keyspace.del key : Redis Unit) := by
  refine .onKey hkey fun s _ v hs hv => hs.update ?_
  rintro r fields - rfl
  cases hv

theorem confined_expire {key : String} (hkey : Owns r key) :
    Confined (Owns r) SocketFields (Keyspace.expire key : Redis Unit) := by
  refine .read hkey fun v _ v' hv => ?_
  cases hv
  rfl

theorem confined_peers_map {g : Dict String Text → Dict String Text}
    (hg : ∀ fields, ∀ p ∈ g fields, p ∈ fields ∨ ':' ∉ p.toList) :
    Confined (Owns r) SocketFields (Keyspace.onKey (peersKey r) fun v =>
      (asHash v).map fun fields => ((), ofHash (g fields))) := by
  refine .hash_map .peers fun s fields hs hfields => hs.update ?_
  rintro r' fields' - hv p hp
  rw [eq_of_ofHash hv] at hp
  rcases hg fields p hp with hp | hp
  · exact hs.mem_keys hfields hp
  · exact hp

theorem confined_hset (peerId : SocketId) (text : Text) :
    Confined (Owns r) SocketFields
      (Keyspace.hset (peersKey r) (peerId : String) text) := by
  refine confined_peers_map fun fields p hp => ?_
  rcases (AList.mem_insert _).1 hp with rfl | hp
  · exact .inr peerId.2
  · exact .inl hp

theorem confined_hdel (peerId : PeerId) :
    Confined (Owns r) SocketFields
      (Keyspace.hdel (peersKey r) peerId : Redis Unit) :=
  confined_peers_map fun _ _ hp => .inl (AList.mem_erase.1 hp).2

theorem confined_hsetProducer (peerId : SocketId) (producerId : String) (text : Text) :
    Confined (Owns r) SocketFields
      (Keyspace.hset (producersKey r peerId) producerId text) := by
  refine .hash_map (.producers peerId) fun s fields hs _ => hs.update ?_
  intro r' fields' hkey
  exact (producersKey_ne_peersKey r r' peerId hkey).elim

theorem confined_xadd (trim : Trim) (now : Nat) (text : Text) :
    Confined (Owns r) SocketFields
      (Keyspace.xadd trim (streamKey r) now text) := by
  refine .onKey .stream fun s id v hs hv => hs.update ?_
  intro r' fields hkey
  have hletter := congrArg (fun key : String => key.toList.head?) hkey
  simp [streamKey, peersKey] at hletter

theorem confined_getRoom : Confined (Owns r) SocketFields (getRoom r) :=
  .read_map .room

theorem confined_createRoom (rtpCapabilities : RtpCapabilities)
    (sfuNodeUrl : Url) :
    Confined (Owns r) SocketFields (createRoom r rtpCapabilities sfuNodeUrl) :=
  (confined_set .room _).seq fun _ => .pure _

theorem confined_getOrCreateRoom (rtpCapabilities : RtpCapabilities)
    (sfuNodeUrl : Url) :
    Confined (Owns r) SocketFields
      (getOrCreateRoom r rtpCapabilities sfuNodeUrl) := by
  refine confined_getRoom.seq fun existing => ?_
  cases existing with
  | some existing => exact (confined_expire .room).seq fun _ => .pure _
  | none => exact confined_createRoom rtpCapabilities sfuNodeUrl

theorem confined_closeRoomIfEmpty :
    Confined (Owns r) SocketFields
      (closeRoomIfEmpty (peersKey r) (roomKey r)) := by
  refine Confined.seq (.read_map .peers) fun count => ?_
  split
  · refine (confined_del .peers).seq fun _ => ?_
    exact (confined_del .room).seq fun _ => .pure _
  · exact .pure _

/-- The producers hashes that `closeRoom` deletes are those of socket ids. -/
theorem confined_closeRoom : Confined (Owns r) SocketFields (closeRoom r) := by
  refine Confined.bind (.read_map .peers) fun s peerIds hs hpeerIds => ?_
  obtain ⟨fields, hfields, rfl⟩ := exec_hkeys hpeerIds
  refine confined_closeRoomIfEmpty.seq fun closed => ?_
  split
  · refine Confined.seq (.forM fun p hp => ?_) fun _ => .pure _
    exact confined_del (.producers ⟨p, hs.mem_keys hfields hp⟩)
  · exact .pure _

theorem confined_getHistory (afterId : Option String) :
    Confined (Owns r) SocketFields (getHistory r afterId) := by
  unfold getHistory
  split
  · exact .read_map .stream
  · exact .read_map .stream
  · split
    · exact .read_map .stream
    · exact .throw _

theorem Operation.confined (trim : Trim) (operation : Operation) :
    Confined (Owns r) SocketFields (operation.run trim r) := by
  cases operation with
  | getRoom => exact confined_getRoom.seq fun _ => .pure _
  | createRoom rtpCapabilities sfuNodeUrl =>
      exact (confined_createRoom _ _).seq fun _ => .pure _
  | getOrCreateRoom rtpCapabilities sfuNodeUrl =>
      exact (confined_getOrCreateRoom _ _).seq fun _ => .pure _
  | getPeer peerId => exact Confined.seq (.read_map .peers) fun _ => .pure _
  | getOtherPeers excludePeerId =>
      refine Confined.seq ?_ fun _ => .pure _
      exact Confined.seq (.read_map .peers) fun _ => .pure _
  | addPeer peerId displayName =>
      refine Confined.seq ?_ fun _ => .pure _
      exact (confined_hset peerId _).seq fun _ => confined_expire .peers
  | removePeer peerId =>
      refine Confined.seq ?_ fun _ => .pure _
      exact (confined_hdel peerId).seq fun _ => confined_del (.producers peerId)
  | isEmpty =>
      refine Confined.seq ?_ fun _ => .pure _
      exact Confined.seq (.read_map .peers) fun _ => .pure _
  | closeRoom => exact confined_closeRoom.seq fun _ => .pure _
  | addProducer peerId producerId kind =>
      refine Confined.seq ?_ fun _ => .pure _
      exact (confined_hsetProducer peerId producerId _).seq fun _ =>
        confined_expire (.producers peerId)
  | getProducers peerId =>
      refine Confined.seq ?_ fun _ => .pure _
      exact Confined.seq (.read_map (.producers peerId)) fun _ => .pure _
  | addMessage now message =>
      refine Confined.seq ?_ fun _ => .pure _
      exact (confined_xadd trim now _).seq fun _ => .pure _
  | getHistory afterId => exact (confined_getHistory afterId).seq fun _ => .pure _
  | deleteRoomHistory => exact (confined_del .stream).seq fun _ => .pure _

/-! ## Isolation -/

theorem socketFields_afterAll (trim : Trim)
    (before : List (RoomId × Operation)) :
    SocketFields (afterAll Store.empty (programs trim before)) := by
  refine afterAll_keeps (by nofun) fun program hprogram s hs => ?_
  obtain ⟨operation, -, rfl⟩ := List.mem_map.1 hprogram
  exact (operation.2.confined trim).keeps s hs

theorem isolated_of_ne (trim : Trim) {r r' : RoomId} (hne : r ≠ r')
    (h : r' ≠ r ++ ":peers") (h' : r ≠ r' ++ ":peers") : Isolated trim r r' := by
  intro before operations hrooms
  have hfields := socketFields_afterAll trim before
  have hfilter : programs trim (operations.filter fun o => o.1 = r') =
      (programs trim operations).filter fun program => program.1 = r' := by
    rw [programs, programs, List.filter_map]
    rfl
  simp only [hfilter]
  have hdisjoint : ∀ key, Owns r' key → ¬ Owns r key :=
    fun _ hkey => hkey.disjoint hne h h'
  refine results_filter hdisjoint
    (fun program hprogram hroom => ?_) (fun program hprogram hroom => ?_)
    hfields hfields fun _ _ => rfl
  · obtain ⟨operation, -, rfl⟩ := List.mem_map.1 hprogram
    obtain rfl : operation.1 = r' := hroom
    exact operation.2.confined trim
  · obtain ⟨operation, hoperation, rfl⟩ := List.mem_map.1 hprogram
    obtain hr | hr' := hrooms operation hoperation
    · rw [← hr]
      exact operation.2.confined trim
    · exact (hroom hr').elim

theorem append_peers_ne (r : RoomId) : r ++ ":peers" ≠ r := by
  intro h
  have hlength := congrArg String.length h
  have hsuffix : ":peers".length = 6 := rfl
  rw [String.length_append] at hlength
  omega

/-- A member makes the peers hash, which is the record of `r ++ ":peers"`. -/
theorem not_isolated_peers (trim : Trim) (r : RoomId) :
    ¬ Isolated trim r (r ++ ":peers") := by
  intro h
  have hkey : roomKey (r ++ ":peers") = peersKey r := roomKey_eq_peersKey.2 rfl
  have hne := (append_peers_ne r).symm
  have hrun := h [] [(r, .addPeer ⟨"p", by decide⟩ "P"), (r ++ ":peers", .getRoom)]
    (by simp)
  simp [afterAll, programs, results, hne, hkey, Operation.run, addPeer, getRoom,
    Client.exec_bind, Client.exec_map, Keyspace.hset, Keyspace.expire,
    Keyspace.get, exec_onKey, Store.empty, asHash, asString, ofHash, Except.map,
    Dict.size] at hrun

/-- The record of `r' ++ ":peers"` is where `r'` keeps its peers. -/
theorem not_isolated_record (trim : Trim) (r' : RoomId) :
    ¬ Isolated trim (r' ++ ":peers") r' := by
  intro h
  have hkey : roomKey (r' ++ ":peers") = peersKey r' := roomKey_eq_peersKey.2 rfl
  have hne := append_peers_ne r'
  have hrun := h [] [(r' ++ ":peers", .createRoom "" ""), (r', .isEmpty)] (by simp)
  simp [afterAll, programs, results, hne, hkey, Operation.run, createRoom, isEmpty,
    Client.exec_map, Keyspace.set, Keyspace.hlen, exec_onKey, Store.empty, asHash,
    Except.map] at hrun

/-- Two rooms are isolated exactly when neither id is the other's, followed by
`:peers`. -/
theorem isolated_iff (trim : Trim) {r r' : RoomId} (hne : r ≠ r') :
    Isolated trim r r' ↔ r' ≠ r ++ ":peers" ∧ r ≠ r' ++ ":peers" := by
  refine ⟨fun h => ⟨?_, ?_⟩, fun h => isolated_of_ne trim hne h.1 h.2⟩
  · rintro rfl
    exact not_isolated_peers trim r h
  · rintro rfl
    exact not_isolated_record trim r' h

theorem isolated_standup_retro : Isolated id "standup" "retro" :=
  (isolated_iff id (by decide)).2 (by decide)

/-- Somebody joins `standup`, and nobody can join `standup:peers`. -/
theorem not_isolated_standup : ¬ Isolated id "standup" "standup:peers" :=
  not_isolated_peers id "standup"

end MeetServer.Realtime
