import MeetServer.Sfu.Consumers
import MeetServer.Sfu.OpenProducers

/-!
# One room among the others

`roomOf` says for which room each call was issued, and with it to which room the
objects belong that the call creates.  `SameRoom` compares two processes as far as
one room goes, whatever workers carry its router; `Stays` says of a change that it
is one of this room only.
-/

namespace MeetServer.Sfu

open MeetServer.Foundation

variable {Ref : Type}

/-! ## What a room keeps -/

namespace MediaRoom

/-- The room without the worker that it was given. -/
def unplaced (room : MediaRoom Ref) : MediaRoom Ref := { room with worker := 0 }

variable {room room' : MediaRoom Ref}

theorem getPeer_congr (h : room'.unplaced = room.unplaced) (peerId : PeerId) :
    room'.getPeer peerId = room.getPeer peerId :=
  congrArg (fun room => room.getPeer peerId) h

theorem peers_congr (h : room'.unplaced = room.unplaced) : room'.peers = room.peers :=
  congrArg (fun room => room.peers) h

theorem isEmpty_congr (h : room'.unplaced = room.unplaced) : room'.isEmpty = room.isEmpty :=
  congrArg (fun room => room.isEmpty) h

theorem recording_congr (h : room'.unplaced = room.unplaced) :
    room'.recording = room.recording :=
  congrArg (fun room => room.recording) h

theorem setPeer_congr (h : room'.unplaced = room.unplaced) (peer : MediaPeer Ref) :
    (room'.setPeer peer).unplaced = (room.setPeer peer).unplaced :=
  congrArg (fun room => room.setPeer peer) h

theorem deletePeer_congr (h : room'.unplaced = room.unplaced) (peerId : PeerId) :
    (room'.deletePeer peerId).unplaced = (room.deletePeer peerId).unplaced :=
  congrArg (fun room => room.deletePeer peerId) h

theorem getOrCreatePeer_congr (h : room'.unplaced = room.unplaced) (peerId : PeerId)
    (object : Ref) :
    (room'.getOrCreatePeer peerId object).1.unplaced =
        (room.getOrCreatePeer peerId object).1.unplaced ∧
      (room'.getOrCreatePeer peerId object).2 = (room.getOrCreatePeer peerId object).2 := by
  unfold getOrCreatePeer
  rw [getPeer_congr h]
  split
  · exact ⟨h, rfl⟩
  · exact ⟨setPeer_congr h _, rfl⟩

theorem setDisplayNames_congr (h : room'.unplaced = room.unplaced)
    (peers : List (PeerId × String)) :
    (room'.setDisplayNames peers).unplaced = (room.setDisplayNames peers).unplaced := by
  unfold setDisplayNames
  induction peers generalizing room room' with
  | nil => exact h
  | cons named peers ih =>
      rw [List.foldl_cons, List.foldl_cons, getPeer_congr h]
      split
      · exact ih h
      · exact ih (setPeer_congr h _)

end MediaRoom

/-- What a process keeps of the objects that one call has created. -/
@[ext] structure Objects (Ref : Type) where
  creation : Option (Settlement Ref)
  room : MediaRoom Ref
  routerOpen : Bool
  transport : Option (Transport Ref)

def State.objects (s : State Ref) (t : Ref) : Objects Ref where
  creation := s.creation t
  room := (s.room t).unplaced
  routerOpen := s.routerOpen t
  transport := s.transport t

/-! ## Two processes side by side -/

/-- The processes agree on the room and on whether there is a worker at all. -/
structure State.SameRoom (roomOf : Ref → RoomId) (roomId : RoomId) (s s' : State Ref) : Prop where
  workers : s'.workerPool.workers = [] ↔ s.workerPool.workers = []
  rooms : s'.rooms.lookup roomId = s.rooms.lookup roomId
  pendingRooms : s'.pendingRooms roomId = s.pendingRooms roomId
  objects : ∀ t, roomOf t = roomId → s'.objects t = s.objects t

namespace State.SameRoom

variable {roomOf : Ref → RoomId} {roomId : RoomId} {s s' u : State Ref} {r t : Ref}

theorem refl (s : State Ref) : s.SameRoom roomOf roomId s :=
  ⟨.rfl, rfl, rfl, fun _ _ => rfl⟩

theorem symm (h : s.SameRoom roomOf roomId u) : u.SameRoom roomOf roomId s :=
  ⟨h.workers.symm, h.rooms.symm, h.pendingRooms.symm, fun t ht => (h.objects t ht).symm⟩

theorem trans (h : s.SameRoom roomOf roomId s') (h' : s'.SameRoom roomOf roomId u) :
    s.SameRoom roomOf roomId u :=
  ⟨h'.workers.trans h.workers, h'.rooms.trans h.rooms, h'.pendingRooms.trans h.pendingRooms,
    fun t ht => (h'.objects t ht).trans (h.objects t ht)⟩

theorem room (h : s.SameRoom roomOf roomId u) (hr : roomOf r = roomId) :
    (u.room r).unplaced = (s.room r).unplaced :=
  congrArg Objects.room (h.objects r hr)

theorem getPeer (h : s.SameRoom roomOf roomId u) (hr : roomOf r = roomId) (peerId : PeerId) :
    (u.room r).getPeer peerId = (s.room r).getPeer peerId :=
  MediaRoom.getPeer_congr (h.room hr) peerId

theorem creation (h : s.SameRoom roomOf roomId u) (ht : roomOf t = roomId) :
    u.creation t = s.creation t :=
  congrArg Objects.creation (h.objects t ht)

theorem routerOpen (h : s.SameRoom roomOf roomId u) (hr : roomOf r = roomId) :
    u.routerOpen r = s.routerOpen r :=
  congrArg Objects.routerOpen (h.objects r hr)

end State.SameRoom

variable [DecidableEq Ref] (roomOf : Ref → RoomId) (roomId : RoomId)

/-! ## No object leads into another room -/

structure MediaPeer.Within (peer : MediaPeer Ref) : Prop where
  object : roomOf peer.object = roomId
  sendTransport : ∀ t, peer.sendTransport = some t → roomOf t = roomId
  recvTransport : ∀ t, peer.recvTransport = some t → roomOf t = roomId
  producers : ∀ k producer, peer.producers.lookup k = some producer →
    roomOf k = roomId ∧ roomOf producer.transport = roomId

def MediaRoom.Within (room : MediaRoom Ref) : Prop :=
  ∀ peerId peer, room.getPeer peerId = some peer → peer.Within roomOf roomId

structure Objects.Within (o : Objects Ref) : Prop where
  creation : ∀ r, o.creation = some (.fulfilled r) → roomOf r = roomId
  room : o.room.Within roomOf roomId
  transport : ∀ transport, o.transport = some transport → roomOf transport.router = roomId

structure State.Separated (s : State Ref) : Prop where
  rooms : ∀ roomId r, s.rooms.lookup roomId = some r → roomOf r = roomId
  pendingRooms : ∀ roomId c, s.pendingRooms roomId = some c → roomOf c = roomId
  objects : ∀ t, (s.objects t).Within roomOf (roomOf t)

/-- The change is one of this room, and leads into no other one. -/
structure State.Stays (s s' : State Ref) : Prop where
  workers : s'.workerPool.workers = s.workerPool.workers
  rooms : ∀ other, other ≠ roomId → s'.rooms.lookup other = s.rooms.lookup other
  pendingRooms : ∀ other, other ≠ roomId → s'.pendingRooms other = s.pendingRooms other
  objects : ∀ t, roomOf t ≠ roomId → s'.objects t = s.objects t
  separated : s'.Separated roomOf

variable {roomOf roomId}

namespace MediaPeer.Within

variable {peer : MediaPeer Ref}

theorem transportFor (h : peer.Within roomOf roomId) {direction : TransportDirection} {t : Ref}
    (ht : peer.transportFor direction = some t) : roomOf t = roomId := by
  cases direction with
  | send => exact h.sendTransport t ht
  | recv => exact h.recvTransport t ht

theorem setTransport (h : peer.Within roomOf roomId) {t : Ref} (ht : roomOf t = roomId)
    (direction : TransportDirection) : (peer.setTransport t direction).Within roomOf roomId := by
  have hset (u : Ref) (hu : some t = some u) : roomOf u = roomId := by
    cases hu
    exact ht
  cases direction with
  | send => exact ⟨h.object, hset, h.recvTransport, h.producers⟩
  | recv => exact ⟨h.object, h.sendTransport, hset, h.producers⟩

theorem addProducer (h : peer.Within roomOf roomId) {k : Ref} {producer : Producer Ref}
    (hk : roomOf k = roomId) (ht : roomOf producer.transport = roomId) :
    (peer.addProducer k producer).Within roomOf roomId := by
  refine ⟨h.object, h.sendTransport, h.recvTransport, fun k' producer' hlookup => ?_⟩
  rw [MediaPeer.addProducer, Dict.lookup_insert_ite] at hlookup
  split at hlookup
  · next heq =>
    cases hlookup
    exact ⟨heq ▸ hk, ht⟩
  · exact h.producers k' producer' hlookup

theorem setPaused (h : peer.Within roomOf roomId) (k : Ref) (paused : Bool) :
    (peer.setPaused k paused).Within roomOf roomId := by
  unfold MediaPeer.setPaused
  split
  · exact h
  · next producer hlookup =>
    exact h.addProducer (h.producers k producer hlookup).1 (h.producers k producer hlookup).2

end MediaPeer.Within

namespace MediaRoom.Within

variable {room : MediaRoom Ref}

theorem setPeer (h : room.Within roomOf roomId) {peer : MediaPeer Ref}
    (hpeer : peer.Within roomOf roomId) : (room.setPeer peer).Within roomOf roomId := by
  intro peerId peer' hpeer'
  rw [getPeer_setPeer] at hpeer'
  split at hpeer'
  · cases hpeer'
    exact hpeer
  · exact h peerId peer' hpeer'

theorem deletePeer (h : room.Within roomOf roomId) (peerId : PeerId) :
    (room.deletePeer peerId).Within roomOf roomId := by
  intro q peer hpeer
  rw [getPeer_deletePeer] at hpeer
  split at hpeer
  · cases hpeer
  · exact h q peer hpeer

theorem getOrCreatePeer (h : room.Within roomOf roomId) (peerId : PeerId) {object : Ref}
    (hobject : roomOf object = roomId) :
    (room.getOrCreatePeer peerId object).1.Within roomOf roomId ∧
      (room.getOrCreatePeer peerId object).2.Within roomOf roomId := by
  unfold MediaRoom.getOrCreatePeer
  split
  · next peer hpeer => exact ⟨h, h peerId peer hpeer⟩
  · have hnew : ({ id := peerId, object := object } : MediaPeer Ref).Within roomOf roomId :=
      ⟨hobject, by simp, by simp, by simp⟩
    exact ⟨h.setPeer hnew, hnew⟩

theorem setDisplayNames (h : room.Within roomOf roomId) (peers : List (PeerId × String)) :
    (room.setDisplayNames peers).Within roomOf roomId := by
  unfold MediaRoom.setDisplayNames
  induction peers generalizing room with
  | nil => exact h
  | cons named peers ih =>
      rw [List.foldl_cons]
      split
      · exact ih h
      · next peer hpeer =>
        obtain ⟨hobject, hsend, hrecv, hproducers⟩ := h named.1 peer hpeer
        exact ih (h.setPeer ⟨hobject, hsend, hrecv, hproducers⟩)

end MediaRoom.Within

namespace State

variable {s s' u u' : State Ref}

theorem Separated.room (h : s.Separated roomOf) (r : Ref) :
    (s.room r).Within roomOf (roomOf r) := (h.objects r).room

theorem Separated.peer (h : s.Separated roomOf) {r : Ref} {peerId : PeerId}
    {peer : MediaPeer Ref} (hpeer : (s.room r).getPeer peerId = some peer) :
    peer.Within roomOf (roomOf r) := h.room r peerId peer hpeer

theorem Separated.router (h : s.Separated roomOf) {t : Ref} {transport : Transport Ref}
    (ht : s.transport t = some transport) : roomOf transport.router = roomOf t :=
  (h.objects t).transport transport ht

/-- A producer that the router finds is one of the room, and so is its transport. -/
theorem Separated.routerProducer (h : s.Separated roomOf) {r k : Ref} {producer : Producer Ref}
    (hproducer : s.routerProducer r k = some producer) :
    roomOf k = roomOf r ∧ roomOf producer.transport = roomOf r := by
  obtain ⟨peer, hmem, hfound⟩ := List.exists_of_findSome?_eq_some hproducer
  obtain ⟨peerId, hpeer⟩ := Dict.mem_values_iff.1 hmem
  exact (h.peer hpeer).producers k producer (Option.filter_eq_some_iff.1 hfound).1

namespace SameRoom

variable {r t : Ref}

theorem transportOpen (h : s.SameRoom roomOf roomId u) (hs : s.Separated roomOf)
    (ht : roomOf t = roomId) : u.transportOpen t = s.transportOpen t := by
  have htransport : u.transport t = s.transport t :=
    congrArg Objects.transport (h.objects t ht)
  unfold State.transportOpen
  rw [htransport]
  cases heq : s.transport t with
  | none => rfl
  | some transport =>
      have hrouter : u.routerOpen transport.router = s.routerOpen transport.router :=
        h.routerOpen ((hs.router heq).trans ht)
      simp only [hrouter]

theorem any_producerOpen (h : s.SameRoom roomOf roomId u) (hs : s.Separated roomOf)
    {peer : MediaPeer Ref} (hpeer : peer.Within roomOf roomId) (k : Ref) :
    (peer.producers.lookup k).any u.producerOpen =
      (peer.producers.lookup k).any s.producerOpen := by
  cases hlookup : peer.producers.lookup k with
  | none => rfl
  | some producer => exact h.transportOpen hs (hpeer.producers k producer hlookup).2

theorem routerProducer (h : s.SameRoom roomOf roomId u) (hs : s.Separated roomOf)
    (hr : roomOf r = roomId) (k : Ref) : u.routerProducer r k = s.routerProducer r k := by
  unfold State.routerProducer
  rw [MediaRoom.peers_congr (h.room hr)]
  refine Dict.findSome?_values fun peerId peer hpeer => ?_
  have hwithin : peer.Within roomOf roomId := hr ▸ hs.peer (r := r) hpeer
  cases hlookup : peer.producers.lookup k with
  | none => rfl
  | some producer =>
      have hopen : u.producerOpen producer = s.producerOpen producer :=
        h.transportOpen hs (hwithin.producers k producer hlookup).2
      simp only [Option.filter, hopen]

end SameRoom

theorem Stays.sameRoom (h : s.Stays roomOf roomId s') {other : RoomId} (hne : other ≠ roomId) :
    s.SameRoom roomOf other s' :=
  ⟨by rw [h.workers], h.rooms other hne, h.pendingRooms other hne,
    fun t ht => h.objects t (ht ▸ hne)⟩

theorem Stays.refl (hs : s.Separated roomOf) : s.Stays roomOf roomId s :=
  ⟨rfl, fun _ _ => rfl, fun _ _ => rfl, fun _ _ => rfl, hs⟩

theorem Stays.trans (h : s.Stays roomOf roomId s') (h' : s'.Stays roomOf roomId u) :
    s.Stays roomOf roomId u :=
  ⟨h'.workers.trans h.workers, fun other hne => (h'.rooms other hne).trans (h.rooms other hne),
    fun other hne => (h'.pendingRooms other hne).trans (h.pendingRooms other hne),
    fun t ht => (h'.objects t ht).trans (h.objects t ht), h'.separated⟩

/-! ## One object is written -/

/-- `s'` has `o` under the name `t`, and is `s` otherwise. -/
structure Writes (s s' : State Ref) (t : Ref) (o : Objects Ref) : Prop where
  workers : s'.workerPool.workers = s.workerPool.workers
  rooms : s'.rooms = s.rooms
  pendingRooms : s'.pendingRooms = s.pendingRooms
  objects : s'.objects = Function.update s.objects t o

theorem writes_setRoom (s : State Ref) (r : Ref) (room : MediaRoom Ref) :
    s.Writes (s.setRoom r room) r { s.objects r with room := room.unplaced } := by
  refine ⟨rfl, rfl, rfl, funext fun t => ?_⟩
  by_cases ht : t = r
  · subst ht
    simp [objects, setRoom]
  · simp [objects, setRoom, ht]

theorem writes_closeTransport (s : State Ref) (t : Ref) :
    s.Writes (s.closeTransport (some t)) t
      { s.objects t with
        transport := (s.objects t).transport.map fun transport =>
          { transport with closed := true } } := by
  refine ⟨rfl, rfl, rfl, funext fun v => ?_⟩
  by_cases hv : v = t
  · subst hv
    simp [objects, closeTransport]
  · simp [objects, closeTransport, hv]

theorem writes_openTransport (s : State Ref) (i r : Ref) :
    s.Writes (s.openTransport i r) i
      { s.objects i with transport := some { router := r } } := by
  refine ⟨rfl, rfl, rfl, funext fun v => ?_⟩
  by_cases hv : v = i
  · subst hv
    simp [objects, openTransport]
  · simp [objects, openTransport, hv]

theorem writes_closeRouter (s : State Ref) (r : Ref) :
    s.Writes (s.closeRouter r) r { s.objects r with routerOpen := false } := by
  refine ⟨rfl, rfl, rfl, funext fun v => ?_⟩
  by_cases hv : v = r
  · subst hv
    simp [objects, closeRouter]
  · simp [objects, closeRouter, hv]

variable {r t : Ref} {o o' : Objects Ref}

theorem SameRoom.writes (h : s.SameRoom roomOf roomId u) (hs : s.Writes s' t o)
    (hu : u.Writes u' t o') (ho : o' = o) : s'.SameRoom roomOf roomId u' where
  workers := by rw [hs.workers, hu.workers, h.workers]
  rooms := by rw [hs.rooms, hu.rooms, h.rooms]
  pendingRooms := by rw [hs.pendingRooms, hu.pendingRooms, h.pendingRooms]
  objects v hv := by
    rw [hs.objects, hu.objects, ho]
    by_cases hvt : v = t
    · rw [hvt, Function.update_self, Function.update_self]
    · rw [Function.update_of_ne hvt, Function.update_of_ne hvt, h.objects v hv]

theorem Stays.writes (hs : s.Separated roomOf) (hw : s.Writes s' t o) (ht : roomOf t = roomId)
    (ho : o.Within roomOf roomId) : s.Stays roomOf roomId s' where
  workers := hw.workers
  rooms other _ := by rw [hw.rooms]
  pendingRooms other _ := by rw [hw.pendingRooms]
  objects v hv := by
    have hvt : v ≠ t := fun heq => hv (heq ▸ ht)
    rw [hw.objects, Function.update_of_ne hvt]
  separated := by
    refine ⟨fun other r => ?_, fun other c => ?_, fun v => ?_⟩
    · rw [hw.rooms]
      exact hs.rooms other r
    · rw [hw.pendingRooms]
      exact hs.pendingRooms other c
    · rw [hw.objects]
      by_cases hvt : v = t
      · rw [hvt, Function.update_self, ht]
        exact ho
      · rw [Function.update_of_ne hvt]
        exact hs.objects v

namespace SameRoom

theorem setRoom (h : s.SameRoom roomOf roomId u) (hr : roomOf r = roomId)
    {room room' : MediaRoom Ref} (hroom : room'.unplaced = room.unplaced) :
    (s.setRoom r room).SameRoom roomOf roomId (u.setRoom r room') :=
  h.writes (s.writes_setRoom r room) (u.writes_setRoom r room') (by rw [h.objects r hr, hroom])

theorem closeTransport (h : s.SameRoom roomOf roomId u) {transport : Option Ref}
    (ht : ∀ t, transport = some t → roomOf t = roomId) :
    (s.closeTransport transport).SameRoom roomOf roomId (u.closeTransport transport) := by
  cases transport with
  | none => exact h
  | some t =>
      exact h.writes (s.writes_closeTransport t) (u.writes_closeTransport t)
        (by rw [h.objects t (ht t rfl)])

theorem openTransport (h : s.SameRoom roomOf roomId u) {i : Ref} (hi : roomOf i = roomId)
    (r : Ref) :
    (s.openTransport i r).SameRoom roomOf roomId (u.openTransport i r) :=
  h.writes (s.writes_openTransport i r) (u.writes_openTransport i r) (by rw [h.objects i hi])

theorem closeRouter (h : s.SameRoom roomOf roomId u) (hr : roomOf r = roomId) :
    (s.closeRouter r).SameRoom roomOf roomId (u.closeRouter r) :=
  h.writes (s.writes_closeRouter r) (u.writes_closeRouter r) (by rw [h.objects r hr])

theorem setRecording (h : s.SameRoom roomOf roomId u) (hr : roomOf r = roomId)
    (recording : Bool) :
    (s.setRecording r recording).SameRoom roomOf roomId (u.setRecording r recording) :=
  h.setRoom hr (congrArg (fun room => { room with recording := recording }) (h.room hr))

theorem removePeerOf (h : s.SameRoom roomOf roomId u) (hs : s.Separated roomOf)
    (hr : roomOf r = roomId) (peerId : PeerId) :
    (s.removePeerOf r peerId).SameRoom roomOf roomId (u.removePeerOf r peerId) := by
  unfold State.removePeerOf
  rw [h.getPeer hr]
  split
  · exact h
  · next peer hpeer =>
    have hwithin : peer.Within roomOf roomId := hr ▸ hs.peer hpeer
    exact ((h.closeTransport hwithin.sendTransport).closeTransport hwithin.recvTransport).setRoom hr
      (MediaRoom.deletePeer_congr (h.room hr) peerId)

theorem updatePeer (h : s.SameRoom roomOf roomId u) (hr : roomOf r = roomId) (peerId : PeerId)
    (object : Ref) (f : MediaPeer Ref → MediaPeer Ref) :
    (s.updatePeer r peerId object f).SameRoom roomOf roomId (u.updatePeer r peerId object f) := by
  unfold State.updatePeer
  rw [h.getPeer hr]
  split
  · exact h
  · split
    · exact h.setRoom hr (MediaRoom.setPeer_congr (h.room hr) _)
    · exact h

end SameRoom

namespace Stays

theorem setRoom (hs : s.Separated roomOf) (hr : roomOf r = roomId) {room : MediaRoom Ref}
    (hroom : room.Within roomOf roomId) : s.Stays roomOf roomId (s.setRoom r room) :=
  .writes hs (s.writes_setRoom r room) hr
    ⟨hr ▸ (hs.objects r).creation, hroom, hr ▸ (hs.objects r).transport⟩

theorem closeTransport (hs : s.Separated roomOf) {transport : Option Ref}
    (ht : ∀ t, transport = some t → roomOf t = roomId) :
    s.Stays roomOf roomId (s.closeTransport transport) := by
  cases transport with
  | none => exact .refl hs
  | some t =>
      have ht := ht t rfl
      refine .writes hs (s.writes_closeTransport t) ht
        ⟨ht ▸ (hs.objects t).creation, ht ▸ (hs.objects t).room, fun transport htransport => ?_⟩
      obtain ⟨transport, hold, rfl⟩ := Option.map_eq_some_iff.1 htransport
      exact (hs.router hold).trans ht

theorem openTransport (hs : s.Separated roomOf) {i : Ref} (hi : roomOf i = roomId)
    (hr : roomOf r = roomId) :
    s.Stays roomOf roomId (s.openTransport i r) := by
  refine .writes hs (s.writes_openTransport i r) hi
    ⟨hi ▸ (hs.objects i).creation, hi ▸ (hs.objects i).room, fun transport htransport => ?_⟩
  cases htransport
  exact hr

theorem closeRouter (hs : s.Separated roomOf) (hr : roomOf r = roomId) :
    s.Stays roomOf roomId (s.closeRouter r) :=
  .writes hs (s.writes_closeRouter r) hr
    ⟨hr ▸ (hs.objects r).creation, hr ▸ (hs.objects r).room, hr ▸ (hs.objects r).transport⟩

theorem setRecording (hs : s.Separated roomOf) (hr : roomOf r = roomId) (recording : Bool) :
    s.Stays roomOf roomId (s.setRecording r recording) :=
  setRoom hs hr (hr ▸ hs.room r)

theorem removePeerOf (hs : s.Separated roomOf) (hr : roomOf r = roomId) (peerId : PeerId) :
    s.Stays roomOf roomId (s.removePeerOf r peerId) := by
  unfold State.removePeerOf
  split
  · exact .refl hs
  · next peer hpeer =>
    have hwithin : peer.Within roomOf roomId := hr ▸ hs.peer hpeer
    have hsend := closeTransport hs hwithin.sendTransport
    have hrecv := closeTransport hsend.separated hwithin.recvTransport
    have hroom : (s.room r).Within roomOf roomId := hr ▸ hs.room r
    exact (hsend.trans hrecv).trans (setRoom hrecv.separated hr (hroom.deletePeer peerId))

theorem updatePeer (hs : s.Separated roomOf) (hr : roomOf r = roomId) (peerId : PeerId)
    (object : Ref) {f : MediaPeer Ref → MediaPeer Ref}
    (hf : ∀ peer, peer.Within roomOf roomId → (f peer).Within roomOf roomId) :
    s.Stays roomOf roomId (s.updatePeer r peerId object f) := by
  unfold State.updatePeer
  split
  · exact .refl hs
  · next peer hpeer =>
    have hroom : (s.room r).Within roomOf roomId := hr ▸ hs.room r
    split
    · exact setRoom hs hr (hroom.setPeer (hf peer (hroom peerId peer hpeer)))
    · exact .refl hs

end Stays

/-! ## Rooms come and go -/

omit [DecidableEq Ref] in
theorem SameRoom.releaseWorker (h : s.SameRoom roomOf roomId u) (worker worker' : Worker) :
    (s.releaseWorker worker).SameRoom roomOf roomId (u.releaseWorker worker') :=
  ⟨by simpa [State.releaseWorker] using h.workers, h.rooms, h.pendingRooms, h.objects⟩

theorem Stays.releaseWorker (hs : s.Separated roomOf) (worker : Worker) :
    s.Stays roomOf roomId (s.releaseWorker worker) :=
  ⟨by simp [State.releaseWorker], fun _ _ => rfl, fun _ _ => rfl, fun _ _ => rfl,
    hs.rooms, hs.pendingRooms, hs.objects⟩

theorem SameRoom.finishClose (h : s.SameRoom roomOf roomId u) (hr : roomOf r = roomId) :
    (s.finishClose roomId r).SameRoom roomOf roomId (u.finishClose roomId r) := by
  have hclosed := (h.closeRouter hr).releaseWorker (s.room r).worker (u.room r).worker
  exact ⟨hclosed.workers, by simp [State.finishClose], hclosed.pendingRooms, hclosed.objects⟩

theorem Stays.finishClose (hs : s.Separated roomOf) (hr : roomOf r = roomId) :
    s.Stays roomOf roomId (s.finishClose roomId r) := by
  have hclosed := closeRouter hs hr
  have hreleased := hclosed.trans (releaseWorker hclosed.separated (s.room r).worker)
  refine ⟨hreleased.workers, fun other hne => by simp [State.finishClose, hne],
    hreleased.pendingRooms, hreleased.objects, fun other v hv => ?_,
    hreleased.separated.pendingRooms, hreleased.separated.objects⟩
  simp only [State.finishClose, Dict.lookup_erase_ite] at hv
  split at hv
  · cases hv
  · exact hs.rooms other v hv

omit [DecidableEq Ref] in
theorem SameRoom.beginCreation (h : s.SameRoom roomOf roomId u) (i : Ref)
    {pool pool' : WorkerPool} (hs : pool.workers = s.workerPool.workers)
    (hu : pool'.workers = u.workerPool.workers) :
    (s.beginCreation roomId i pool).SameRoom roomOf roomId (u.beginCreation roomId i pool') where
  workers := by simpa [State.beginCreation, hs, hu] using h.workers
  rooms := h.rooms
  pendingRooms := by simp [State.beginCreation]
  objects := h.objects

theorem Stays.beginCreation (hs : s.Separated roomOf) {i : Ref} (hi : roomOf i = roomId)
    {pool : WorkerPool} (hpool : pool.workers = s.workerPool.workers) :
    s.Stays roomOf roomId (s.beginCreation roomId i pool) where
  workers := hpool
  rooms _ _ := rfl
  pendingRooms other hne := by simp [State.beginCreation, hne]
  objects _ _ := rfl
  separated := by
    refine ⟨hs.rooms, fun other c hc => ?_, hs.objects⟩
    by_cases hother : other = roomId
    · subst hother
      simp only [State.beginCreation, Function.update_self, Option.some.injEq] at hc
      exact hc ▸ hi
    · simp only [State.beginCreation, Function.update_of_ne hother] at hc
      exact hs.pendingRooms other c hc

theorem SameRoom.settleCreation (h : s.SameRoom roomOf roomId u) (i : Ref)
    (outcome : Settlement Ref) :
    (s.settleCreation roomId i outcome).SameRoom roomOf roomId
      (u.settleCreation roomId i outcome) where
  workers := h.workers
  rooms := h.rooms
  pendingRooms := by simp [State.settleCreation]
  objects t ht := by
    obtain ⟨hcreation, hroom, hopen, htransport⟩ := Objects.ext_iff.1 (h.objects t ht)
    refine Objects.ext ?_ hroom hopen htransport
    by_cases hti : t = i
    · simp [State.settleCreation, State.objects, hti]
    · simpa [State.settleCreation, State.objects, hti] using hcreation

theorem Stays.settleCreation (hs : s.Separated roomOf) {i : Ref} (hi : roomOf i = roomId)
    {outcome : Settlement Ref} (houtcome : ∀ r, outcome = .fulfilled r → roomOf r = roomId) :
    s.Stays roomOf roomId (s.settleCreation roomId i outcome) where
  workers := rfl
  rooms _ _ := rfl
  pendingRooms other hne := by simp [State.settleCreation, hne]
  objects t ht := by
    have hti : t ≠ i := fun heq => ht (heq ▸ hi)
    simp [State.settleCreation, State.objects, hti]
  separated := by
    refine ⟨hs.rooms, fun other c hc => ?_, fun t => ?_⟩
    · by_cases hother : other = roomId
      · simp [State.settleCreation, hother] at hc
      · simp only [State.settleCreation, Function.update_of_ne hother] at hc
        exact hs.pendingRooms other c hc
    · obtain ⟨hcreation, hroom, htransport⟩ := hs.objects t
      refine ⟨fun r hr => ?_, hroom, htransport⟩
      by_cases hti : t = i
      · subst hti
        simp only [State.settleCreation, State.objects, Function.update_self,
          Option.some.injEq] at hr
        exact (houtcome r hr).trans hi.symm
      · simp only [State.settleCreation, State.objects, Function.update_of_ne hti] at hr
        exact hcreation r hr

theorem SameRoom.addRoom (h : s.SameRoom roomOf roomId u) (i : Ref) (worker worker' : Worker) :
    (s.addRoom roomId i worker).SameRoom roomOf roomId (u.addRoom roomId i worker') where
  workers := h.workers
  rooms := by simp [State.addRoom]
  pendingRooms := h.pendingRooms
  objects t ht := by
    obtain ⟨hcreation, hroom, hopen, htransport⟩ := Objects.ext_iff.1 (h.objects t ht)
    by_cases hti : t = i
    · subst hti
      exact Objects.ext hcreation (by simp [State.addRoom, State.objects, MediaRoom.unplaced])
        (by simp [State.addRoom, State.objects]) htransport
    · exact Objects.ext hcreation (by simpa [State.addRoom, State.objects, hti] using hroom)
        (by simpa [State.addRoom, State.objects, hti] using hopen) htransport

theorem Stays.addRoom (hs : s.Separated roomOf) {i : Ref} (hi : roomOf i = roomId)
    (worker : Worker) : s.Stays roomOf roomId (s.addRoom roomId i worker) where
  workers := rfl
  rooms other hne := by simp [State.addRoom, AList.lookup_insert_ne hne]
  pendingRooms _ _ := rfl
  objects t ht := by
    have hti : t ≠ i := fun heq => ht (heq ▸ hi)
    simp [State.addRoom, State.objects, hti]
  separated := by
    refine ⟨fun other r hr => ?_, hs.pendingRooms, fun t => ?_⟩
    · simp only [State.addRoom, Dict.lookup_insert_ite] at hr
      split at hr
      · next hother =>
        cases hr
        exact hi.trans hother.symm
      · exact hs.rooms other r hr
    · obtain ⟨hcreation, hroom, htransport⟩ := hs.objects t
      refine ⟨hcreation, ?_, htransport⟩
      by_cases hti : t = i
      · subst hti
        intro peerId peer hpeer
        simp [State.addRoom, State.objects, MediaRoom.unplaced, MediaRoom.getPeer] at hpeer
      · simpa [State.addRoom, State.objects, hti] using hroom

end State

end MeetServer.Sfu
