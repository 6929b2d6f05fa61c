import MeetServer.Realtime.PeersHash
import MeetServer.Realtime.Teardown

/-!
# Sockets in several rooms

Every socket sends `join` for any rooms, one after another, and disconnects.
All rooms share the nodes and the instances; a handler works on the view of its
own room.  A peer's id is that of its socket, and the objects that call `k` of
socket `p` creates are named `(p, k)`.
-/

namespace MeetServer.Realtime

open MeetServer.Foundation

abbrev CallId := PeerId × Nat

structure Server (κ : Type) where
  serviceUrls : List Url
  rooms : RoomId → RoomKeys (CallId ⊕ κ)
  sfu : Url → Sfu.State (CallId ⊕ κ)
  pendingRooms : RoomId → Instance → Option CallId
  creation : CallId → Option (Settlement Room)

/-- The handler that a socket runs. -/
inductive Running (κ : Type) where
  | join (roomId : RoomId) (displayName : String) (point : Join CallId κ)
  | leave (roomId : RoomId) (point : Leave CallId κ)

/-- `data` is `client.data.roomId`; `client.data.peerId` is set with it. -/
structure Client (κ : Type) where
  data : Option RoomId := none
  connected : Bool := true
  served : Nat := 0
  running : Option (Running κ) := none

structure Net (κ : Type) where
  server : Server κ
  clients : PeerId → Client κ

inductive ClientEvent where
  | join (roomId : RoomId) (displayName : String)
  | disconnect
  | advance (event : Event)
  deriving DecidableEq, Repr

variable {κ : Type}

namespace Server

/-- The view of one room. -/
def room (s : Server κ) (roomId : RoomId) : World CallId κ where
  serviceUrls := s.serviceUrls
  redis := s.rooms roomId
  sfu := s.sfu
  pendingRooms := s.pendingRooms roomId
  creation := s.creation

def setRoom (s : Server κ) (roomId : RoomId) (w : World CallId κ) : Server κ :=
  { s with
    rooms := Function.update s.rooms roomId w.redis
    sfu := w.sfu
    pendingRooms := Function.update s.pendingRooms roomId w.pendingRooms
    creation := w.creation }

theorem rooms_setRoom (s : Server κ) (r r' : RoomId) (w : World CallId κ) :
    (s.setRoom r w).rooms r' = if r' = r then w.redis else s.rooms r' := by
  simp [setRoom, Function.update_apply]

end Server

namespace Client

/-- `SignalingService.join` has settled: the handler ends, and has filled in
`client.data` if it did not throw.  `client.join`, which touches no key, is left
out. -/
def afterJoin (client : Client κ) (roomId : RoomId) (displayName : String) :
    Join CallId κ → Client κ
  | .returned _ _ =>
      { client with
        data := some roomId, served := client.served + 1, running := none }
  | .threw => { client with served := client.served + 1, running := none }
  | point => { client with running := some (.join roomId displayName point) }

/-- `handleDisconnect`: `""` is falsy. -/
def disconnect (client : Client κ) : Client κ :=
  { client with
    connected := false
    running := match client.data with
      | some roomId => if roomId = "" then none else some (.leave roomId .getRoom)
      | none => none }

/-- The disconnect has been handled. -/
def handled (client : Client κ) : Bool :=
  !client.connected &&
    match client.running with
    | none | some (.leave _ .returned) | some (.leave _ .threw)
    | some (.leave _ (.closed _ _ _)) => true
    | _ => false

end Client

def Net.setClient (s : Net κ) (p : PeerId) (client : Client κ) : Net κ :=
  { s with clients := Function.update s.clients p client }

variable [DecidableEq κ]

/-- The running handler waits no longer. -/
def Net.advance (instanceOf : PeerId → Instance) (s : Net κ) (p : PeerId)
    (event : Event) : Option (Net κ) :=
  let client := s.clients p
  match client.running with
  | none => none
  | some (.join roomId displayName point) =>
      (point.step (p, client.served) (instanceOf p) roomId ⟨p, displayName⟩ event
        (s.server.room roomId)).map fun r =>
          { server := s.server.setRoom roomId r.1
            clients := Function.update s.clients p
              (client.afterJoin roomId displayName r.2) }
  | some (.leave roomId point) =>
      (point.step roomId p event (s.server.room roomId)).map fun r =>
        { server := s.server.setRoom roomId r.1
          clients := Function.update s.clients p
            { client with running := some (.leave roomId r.2) } }

/-- A socket's handlers run one after another, and nothing fails. -/
def Net.step (instanceOf : PeerId → Instance) (s : Net κ)
    (a : PeerId × ClientEvent) : Option (Net κ) :=
  let client := s.clients a.1
  match a.2 with
  | .join roomId displayName =>
      if client.connected && client.running.isNone then
        some (s.setClient a.1 { client with
          running := some (.join roomId displayName (.getOrCreateRoom .getRoom)) })
      else none
  | .disconnect =>
      if client.connected && client.running.isNone then
        some (s.setClient a.1 client.disconnect)
      else none
  | .advance event => if event.ok then s.advance instanceOf a.1 event else none

def net (instanceOf : PeerId → Instance) : System (Net κ) (PeerId × ClientEvent) where
  step := Net.step instanceOf

/-- No room has any keys, and every socket has just connected. -/
def Net.fresh (serviceUrls : List Url) (sfu : Url → Sfu.State (CallId ⊕ κ)) :
    Net κ where
  server := {
    serviceUrls := serviceUrls
    rooms _ := {}
    sfu := sfu
    pendingRooms _ _ := none
    creation _ := none }
  clients _ := {}

/-- A peer is a member of one room at most, and of none once its disconnect has
been handled. -/
structure OneRoom (s : Net κ) : Prop where
  unique : ∀ p r r', p ∈ (s.server.rooms r).peers →
    p ∈ (s.server.rooms r').peers → r = r'
  gone : ∀ p r, (s.clients p).handled → p ∉ (s.server.rooms r).peers

/-- A join adds its peer only if its socket has joined no other room, a leave
finds the record of its room, and no socket disconnects from the room `""`. -/
structure KeepsRoom (s : Net κ) (a : PeerId × ClientEvent) : Prop where
  joins : ∀ roomId displayName event, a.2 = .advance event →
    (s.clients a.1).running = some (.join roomId displayName .hset) →
    (s.clients a.1).data = none ∨ (s.clients a.1).data = some roomId
  leaves : ∀ roomId event, a.2 = .advance event →
    (s.clients a.1).running = some (.leave roomId .getRoom) →
    (s.server.rooms roomId).room.isSome
  named : a.2 = .disconnect → (s.clients a.1).data ≠ some ""

/-! ## The room of a socket -/

/-- The room whose peers hash has the socket's peer. -/
def Client.room (client : Client κ) : Option RoomId :=
  match client.running with
  | none => if client.connected then client.data else none
  | some (.join roomId _ point) => if point.added then some roomId else client.data
  | some (.leave roomId point) => if point.member then some roomId else none

/-- A join runs while its socket is connected and does not roll back, a leave
runs after the disconnect. -/
structure Client.Ordered (client : Client κ) : Prop where
  joining : ∀ roomId displayName point,
    client.running = some (.join roomId displayName point) →
    client.connected ∧ point.rollingBack = false
  leaving : ∀ roomId point, client.running = some (.leave roomId point) →
    client.connected = false

structure InItsRoom (s : Net κ) : Prop where
  member : ∀ p r, p ∈ (s.server.rooms r).peers ↔ (s.clients p).room = some r
  ordered : ∀ p, (s.clients p).Ordered

omit [DecidableEq κ] in
theorem Client.room_of_handled {client : Client κ} (h : client.handled) :
    client.room = none := by
  obtain ⟨data, connected, served, running⟩ := client
  unfold handled at h
  cases connected with
  | true => cases h
  | false =>
      cases running with
      | none => rfl
      | some running =>
          cases running with
          | join => cases h
          | leave roomId point => cases point <;> first | rfl | cases h

omit [DecidableEq κ] in
theorem InItsRoom.oneRoom {s : Net κ} (h : InItsRoom s) : OneRoom s := by
  constructor
  · intro p r r' hr hr'
    have hroom := (h.member p r).1 hr
    have hroom' := (h.member p r').1 hr'
    exact Option.some.inj (hroom.symm.trans hroom')
  · intro p r hhandled hr
    have hroom := (h.member p r).1 hr
    rw [Client.room_of_handled hhandled] at hroom
    cases hroom

omit [DecidableEq κ] in
theorem InItsRoom.fresh (serviceUrls : List Url)
    (sfu : Url → Sfu.State (CallId ⊕ κ)) :
    InItsRoom (Net.fresh serviceUrls sfu) := by
  refine ⟨fun p r => ?_, fun p => ⟨nofun, nofun⟩⟩
  exact ⟨fun h => (AList.notMem_empty _ h).elim, nofun⟩

/-! ## What a handler does to the room it works on -/

variable {s s' : Net κ} {p : PeerId} {roomId : RoomId} {displayName : String}
  {w' : World CallId κ}

omit [DecidableEq κ] in
theorem Client.room_afterJoin {client : Client κ} (h : client.connected)
    (roomId : RoomId) (displayName : String) (point : Join CallId κ) :
    (client.afterJoin roomId displayName point).room =
      if point.added then some roomId else client.data := by
  cases point <;> simp [afterJoin, room, Join.added, h]

omit [DecidableEq κ] in
theorem Client.ordered_afterJoin {client : Client κ} (h : client.connected)
    (roomId : RoomId) (displayName : String) {point : Join CallId κ}
    (hpoint : point.rollingBack = false) :
    (client.afterJoin roomId displayName point).Ordered := by
  cases point with
  | rollbackHdel | rollbackDel => cases hpoint
  | returned | threw => exact ⟨nofun, nofun⟩
  | _ =>
      refine ⟨fun _ _ point hrunning => ⟨h, ?_⟩, nofun⟩
      cases hrunning
      rfl

theorem Join.Step.members {i : CallId} {instanceId : Instance} {peer : Peer}
    {w w' : World CallId κ} {point point' : Join CallId κ}
    (h : Join.Step i instanceId roomId peer w true point w' point')
    (hpoint : point.rollingBack = false) :
    point'.rollingBack = false ∧
      (w'.redis.peers = w.redis.peers ∧ point'.added = point.added ∨
        point = .hset ∧ point' = .expire ∧
          w'.redis.peers = w.redis.peers.insert peer.id peer) := by
  cases h with
  | @room _ point room' _ hroom =>
      refine ⟨?_, .inl ⟨hroom.peers, ?_⟩⟩ <;> cases room' <;> rfl
  | added => exact ⟨rfl, .inr ⟨rfl, rfl, rfl⟩⟩
  | refreshed => exact ⟨rfl, .inl ⟨rfl, rfl⟩⟩
  | listed | fetched =>
      unfold nextProducers
      split <;> exact ⟨rfl, .inl ⟨rfl, rfl⟩⟩
  | removed | cleared => cases hpoint

theorem Leave.Step.members {w w' : World CallId κ} {point point' : Leave CallId κ}
    (h : Leave.Step roomId p w true point w' point')
    (hfound : point = .getRoom → w.redis.room.isSome) :
    (∀ q, q ∈ w'.redis.peers ↔ q ∈ w.redis.peers) ∧
        point'.member = point.member ∨
      point.member ∧ point'.member = false ∧
        w'.redis.peers = w.redis.peers.erase p := by
  cases h with
  | gone hnone =>
      have hroom := hfound rfl
      rw [hnone] at hroom
      cases hroom
  | removed => exact .inr ⟨rfl, rfl, rfl⟩
  | closed hempty =>
      have hnone := w.redis.hlen_eq_zero_iff.1 hempty
      refine .inl ⟨fun q => ?_, Leave.member_nextProducerHash _ _ _⟩
      exact ⟨fun hq => (AList.notMem_empty _ hq).elim, fun hq => (hnone q hq).elim⟩
  | swept => exact .inl ⟨fun _ => Iff.rfl, Leave.member_nextProducerHash _ _ _⟩
  | _ => exact .inl ⟨fun _ => Iff.rfl, rfl⟩

omit [DecidableEq κ] in
theorem InItsRoom.update {client' : Client κ} (h : InItsRoom s)
    (hothers : ∀ q, q ≠ p →
      (q ∈ w'.redis.peers ↔ q ∈ (s.server.rooms roomId).peers))
    (hown : p ∈ w'.redis.peers ↔ client'.room = some roomId)
    (helsewhere : ∀ r, r ≠ roomId →
      (client'.room = some r ↔ (s.clients p).room = some r))
    (hordered : client'.Ordered) :
    InItsRoom { server := s.server.setRoom roomId w'
                clients := Function.update s.clients p client' } := by
  constructor
  · intro q r
    simp only [Server.rooms_setRoom, Function.update_apply]
    have hmember := h.member q r
    by_cases hr : r = roomId
    · subst hr
      by_cases hq : q = p
      · subst hq
        simpa using hown
      · simpa [hq] using (hothers q hq).trans hmember
    · by_cases hq : q = p
      · subst hq
        simpa [hr] using hmember.trans (helsewhere r hr).symm
      · simpa [hr, hq] using hmember
  · intro q
    simp only [Function.update_apply]
    split
    · exact hordered
    · exact h.ordered q

variable {instanceId : Instance}

theorem InItsRoom.join_step {point point' : Join CallId κ} (h : InItsRoom s)
    (hrunning : (s.clients p).running = some (.join roomId displayName point))
    (hjoins : point = .hset →
      (s.clients p).data = none ∨ (s.clients p).data = some roomId)
    (hs : Join.Step (p, (s.clients p).served) instanceId roomId ⟨p, displayName⟩
      (s.server.room roomId) true point w' point') :
    InItsRoom {
      server := s.server.setRoom roomId w'
      clients := Function.update s.clients p
        ((s.clients p).afterJoin roomId displayName point') } := by
  obtain ⟨hconnected, hpoint⟩ := (h.ordered p).joining _ _ _ hrunning
  obtain ⟨hpoint', heffect⟩ := hs.members hpoint
  have hroom : (s.clients p).room =
      if point.added then some roomId else (s.clients p).data := by
    simp [Client.room, hrunning]
  have hroom' := Client.room_afterJoin hconnected roomId displayName point'
  have hordered := Client.ordered_afterJoin hconnected roomId displayName hpoint'
  rcases heffect with ⟨hpeers, hadded⟩ | ⟨rfl, rfl, hpeers⟩
  · have hsame : ((s.clients p).afterJoin roomId displayName point').room =
        (s.clients p).room := by
      rw [hroom', hroom, hadded]
    refine h.update (fun q _ => ?_) ?_ (fun r _ => ?_) hordered
    · rw [hpeers]
      exact Iff.rfl
    · rw [hpeers, hsame]
      exact h.member p roomId
    · rw [hsame]
  · have hdata := hjoins rfl
    refine h.update (fun q hq => ?_) ?_ (fun r hr => ?_) hordered
    · rw [hpeers, AList.mem_insert]
      exact or_iff_right hq
    · simp [hpeers, hroom', Join.added]
    · rw [hroom', hroom]
      rcases hdata with hdata | hdata <;> simp [hdata, Join.added, hr.symm]

theorem InItsRoom.leave_step {point point' : Leave CallId κ} (h : InItsRoom s)
    (hrunning : (s.clients p).running = some (.leave roomId point))
    (hleaves : point = .getRoom → (s.server.rooms roomId).room.isSome)
    (hs : Leave.Step roomId p (s.server.room roomId) true point w' point') :
    InItsRoom {
      server := s.server.setRoom roomId w'
      clients := Function.update s.clients p
        { s.clients p with running := some (.leave roomId point') } } := by
  have hconnected := (h.ordered p).leaving _ _ hrunning
  have hroom : (s.clients p).room = if point.member then some roomId else none := by
    simp [Client.room, hrunning]
  have hroom' : Client.room
      { s.clients p with running := some (.leave roomId point') } =
        if point'.member then some roomId else none := rfl
  have hordered : Client.Ordered
      { s.clients p with running := some (.leave roomId point') } :=
    ⟨nofun, fun _ _ _ => hconnected⟩
  rcases hs.members hleaves with ⟨hpeers, hmember⟩ | ⟨hmember, hmember', hpeers⟩
  · have hsame : Client.room
        { s.clients p with running := some (.leave roomId point') } =
          (s.clients p).room := by
      rw [hroom', hroom, hmember]
    refine h.update (fun q _ => hpeers q) ?_ (fun r _ => ?_) hordered
    · rw [hsame]
      exact (hpeers p).trans (h.member p roomId)
    · rw [hsame]
  · refine h.update (fun q hq => ?_) ?_ (fun r hr => ?_) hordered
    · rw [hpeers, AList.mem_erase]
      exact and_iff_right hq
    · simp [hpeers, hroom', hmember']
    · simp [hroom', hroom, hmember, hmember', hr.symm]

/-! ## Runs -/

omit [DecidableEq κ] in
theorem InItsRoom.setClient {client : Client κ} (h : InItsRoom s)
    (hroom : client.room = (s.clients p).room) (hordered : client.Ordered) :
    InItsRoom (s.setClient p client) := by
  constructor
  · intro q r
    simp only [Net.setClient, Function.update_apply]
    split
    · next hq => rw [hq, hroom]; exact h.member p r
    · exact h.member q r
  · intro q
    simp only [Net.setClient, Function.update_apply]
    split
    · exact hordered
    · exact h.ordered q

variable {instanceOf : PeerId → Instance}

/-- What a step can be. -/
inductive Net.Step (instanceOf : PeerId → Instance) (s : Net κ) (p : PeerId) :
    ClientEvent → Net κ → Prop
  | join {roomId : RoomId} {displayName : String} :
      (s.clients p).connected → (s.clients p).running = none →
      Step instanceOf s p (.join roomId displayName)
        (s.setClient p { s.clients p with
          running := some (.join roomId displayName (.getOrCreateRoom .getRoom)) })
  | disconnect : (s.clients p).connected → (s.clients p).running = none →
      Step instanceOf s p .disconnect (s.setClient p (s.clients p).disconnect)
  | joins {roomId : RoomId} {displayName : String} {point point' : Join CallId κ}
      {event : Event} {w' : World CallId κ} :
      (s.clients p).running = some (.join roomId displayName point) →
      Join.Step (p, (s.clients p).served) (instanceOf p) roomId ⟨p, displayName⟩
        (s.server.room roomId) true point w' point' →
      Step instanceOf s p (.advance event) {
        server := s.server.setRoom roomId w'
        clients := Function.update s.clients p
          ((s.clients p).afterJoin roomId displayName point') }
  | leaves {roomId : RoomId} {point point' : Leave CallId κ} {event : Event}
      {w' : World CallId κ} :
      (s.clients p).running = some (.leave roomId point) →
      Leave.Step roomId p (s.server.room roomId) true point w' point' →
      Step instanceOf s p (.advance event) {
        server := s.server.setRoom roomId w'
        clients := Function.update s.clients p
          { s.clients p with running := some (.leave roomId point') } }

theorem Net.step_cases {event : ClientEvent}
    (h : (net instanceOf).step s (p, event) = some s') :
    Net.Step instanceOf s p event s' := by
  change Net.step instanceOf s (p, event) = some s' at h
  cases event with
  | join roomId displayName =>
      simp only [Net.step, Option.ite_none_right_eq_some, Bool.and_eq_true,
        Option.isNone_iff_eq_none, Option.some.injEq] at h
      obtain ⟨⟨hconnected, hrunning⟩, rfl⟩ := h
      exact .join hconnected hrunning
  | disconnect =>
      simp only [Net.step, Option.ite_none_right_eq_some, Bool.and_eq_true,
        Option.isNone_iff_eq_none, Option.some.injEq] at h
      obtain ⟨⟨hconnected, hrunning⟩, rfl⟩ := h
      exact .disconnect hconnected hrunning
  | advance event =>
      simp only [Net.step, Option.ite_none_right_eq_some] at h
      obtain ⟨hok, h⟩ := h
      unfold Net.advance at h
      dsimp only at h
      split at h
      · cases h
      · next hrunning =>
        obtain ⟨⟨w', point'⟩, hpoint, rfl⟩ := Option.map_eq_some_iff.1 h
        have hs := Join.step_cases hpoint
        rw [hok] at hs
        exact .joins hrunning hs
      · next hrunning =>
        obtain ⟨⟨w', point'⟩, hpoint, rfl⟩ := Option.map_eq_some_iff.1 h
        have hs := Leave.step_cases hpoint
        rw [hok] at hs
        exact .leaves hrunning hs

omit [DecidableEq κ] in
theorem Client.room_disconnect {client : Client κ} (h : client.connected)
    (hrunning : client.running = none) (hdata : client.data ≠ some "") :
    client.disconnect.room = client.room := by
  obtain ⟨data, connected, served, running⟩ := client
  subst hrunning
  change connected = true at h
  cases data with
  | none => simp [disconnect, room]
  | some roomId =>
      have hroomId : roomId ≠ "" := fun hempty => hdata (by rw [hempty])
      simp [disconnect, room, h, hroomId, Leave.member]

omit [DecidableEq κ] in
theorem Client.ordered_disconnect (client : Client κ) : client.disconnect.Ordered := by
  refine ⟨fun roomId displayName point hrunning => ?_, fun _ _ _ => rfl⟩
  simp only [disconnect] at hrunning
  split at hrunning
  · split at hrunning <;> cases hrunning
  · cases hrunning

omit [DecidableEq κ] in
theorem Client.handled_disconnect {client : Client κ} (h : client.data = some "") :
    client.disconnect.handled := by
  simp [disconnect, handled, h]

theorem InItsRoom.preserves :
    (net (κ := κ) instanceOf).Preserves KeepsRoom InItsRoom := by
  rintro s ⟨p, event⟩ s' h hkeeps hstep
  cases Net.step_cases hstep with
  | join hconnected hrunning =>
      refine h.setClient ?_ ⟨fun _ _ _ hjoin => ?_, nofun⟩
      · simp [Client.room, hrunning, hconnected, Join.added]
      · cases hjoin
        exact ⟨hconnected, rfl⟩
  | disconnect hconnected hrunning =>
      exact h.setClient
        (Client.room_disconnect hconnected hrunning (hkeeps.named rfl))
        (Client.ordered_disconnect _)
  | joins hrunning hs =>
      exact h.join_step hrunning (fun hpoint => hkeeps.joins _ _ _ rfl
        (hpoint ▸ hrunning)) hs
  | leaves hrunning hs =>
      exact h.leave_step hrunning (fun hpoint => hkeeps.leaves _ _ rfl
        (hpoint ▸ hrunning)) hs

/-- A step that breaks the condition leaves a peer in two rooms, or in one after
its disconnect. -/
theorem InItsRoom.keepsRoom {event : ClientEvent} (h : InItsRoom s)
    (hstep : (net instanceOf).step s (p, event) = some s')
    (hone : OneRoom s') : KeepsRoom s (p, event) := by
  cases Net.step_cases hstep with
  | join => exact ⟨nofun, nofun, nofun⟩
  | disconnect hconnected hrunning =>
      refine ⟨nofun, nofun, fun _ hdata => ?_⟩
      have hroom : (s.clients p).room = some "" := by
        simpa [Client.room, hrunning, hconnected] using hdata
      refine hone.gone p "" ?_ ((h.member p "").2 hroom)
      simpa [Net.setClient] using Client.handled_disconnect hdata
  | @joins roomId displayName point point' event w' hrunning hs =>
      refine ⟨fun roomId' displayName' _ _ hhset => ?_, fun _ _ _ hleave => ?_,
        nofun⟩
      · obtain ⟨rfl, rfl, rfl⟩ : roomId = roomId' ∧ displayName = displayName' ∧
            point = .hset := by
          simpa using hrunning.symm.trans hhset
        cases hdata : (s.clients p).data with
        | none => exact .inl rfl
        | some r =>
            have hroom : (s.clients p).room = some r := by
              simpa [Client.room, hrunning, Join.added] using hdata
            have hmember := (h.member p r).2 hroom
            refine .inr (congrArg some ?_)
            by_contra hne
            cases hs with
            | added =>
                refine hne (hone.unique p r roomId ?_ ?_)
                · simpa [Server.rooms_setRoom, hne] using hmember
                · simp [Server.rooms_setRoom, RoomKeys.hset]
      · cases hrunning.symm.trans hleave
  | @leaves roomId point point' event w' hrunning hs =>
      refine ⟨fun _ _ _ _ hjoin => ?_, fun roomId' _ _ hgetRoom => ?_, nofun⟩
      · cases hrunning.symm.trans hjoin
      · obtain ⟨rfl, rfl⟩ : roomId = roomId' ∧ point = .getRoom := by
          simpa using hrunning.symm.trans hgetRoom
        have hconnected := (h.ordered p).leaving _ _ hrunning
        have hroom : (s.clients p).room = some roomId := by
          simp [Client.room, hrunning, Leave.member]
        have hmember := (h.member p roomId).2 hroom
        cases hs with
        | gone =>
            refine (hone.gone p roomId ?_ ?_).elim
            · simp [Client.handled, hconnected]
            · rw [Server.rooms_setRoom, if_pos rfl]
              exact hmember
        | found hfound => exact Option.isSome_iff_exists.2 ⟨_, hfound⟩

/-- A peer is in one room exactly when its socket joins no second room and every
leave finds the record. -/
theorem holds_oneRoom_iff (serviceUrls : List Url)
    (sfu : Url → Sfu.State (CallId ⊕ κ))
    (schedule : List (PeerId × ClientEvent)) :
    (net instanceOf).Holds OneRoom (.fresh serviceUrls sfu) schedule ↔
      (net instanceOf).Meets KeepsRoom (.fresh serviceUrls sfu) schedule := by
  refine System.holds_iff_meets InItsRoom.preserves (fun _ h => h.oneRoom)
    (fun s a s' h hbad hstep hone => ?_) (.fresh serviceUrls sfu) schedule
  exact hbad (h.keepsRoom hstep hone)

/-! One socket joins a second room, and disconnects from it. -/

def joinRoom (roomId : RoomId) : List (PeerId × ClientEvent) :=
  [("p", .join roomId "Pat"), ("p", .advance (.settle true)),
    ("p", .advance (.stats 0 true))] ++
    List.replicate 8 ("p", .advance (.settle true))

def switchesRooms : List (PeerId × ClientEvent) :=
  joinRoom "a" ++ joinRoom "b" ++ [("p", .disconnect)] ++
    List.replicate 8 ("p", .advance (.settle true))

/-- The peer stays in the first room. -/
theorem not_oneRoom_switchesRooms :
    ¬ (net fun _ => 0).Holds OneRoom
      (.fresh ["n"] fun _ => (.spawned [0] : Sfu.State (CallId ⊕ Empty)))
      switchesRooms := by
  intro h
  exact h.last.gone "p" "a" (by decide +kernel) (by decide +kernel)

end MeetServer.Realtime
