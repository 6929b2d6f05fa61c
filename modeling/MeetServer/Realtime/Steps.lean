import MeetServer.Realtime.Signaling

/-!
# What a step of a signaling call does

One relation for each kind of call, with a constructor for each thing its next
step can do; `step_cases` inverts the step functions into them.  The flag is
`Event.ok`.
-/

namespace MeetServer.Realtime

open MeetServer.Foundation

variable {ι κ : Type}

namespace World

@[simp] theorem setSfu_self (w : World ι κ) (url : Url) :
    w.setSfu url (w.sfu url) = w := by
  simp [setSfu]

@[simp] theorem redis_setSfu (w : World ι κ) (url : Url)
    (node : Sfu.State (ι ⊕ κ)) : (w.setSfu url node).redis = w.redis := rfl

@[simp] theorem sfu_setRedis (w : World ι κ) (redis : RoomKeys (ι ⊕ κ)) :
    (w.setRedis redis).sfu = w.sfu := rfl

@[simp] theorem redis_setRedis (w : World ι κ) (redis : RoomKeys (ι ⊕ κ)) :
    (w.setRedis redis).redis = redis := rfl

@[simp] theorem creation_setRedis (w : World ι κ) (redis : RoomKeys (ι ⊕ κ)) :
    (w.setRedis redis).creation = w.creation := rfl

@[simp] theorem creation_setSfu (w : World ι κ) (url : Url)
    (node : Sfu.State (ι ⊕ κ)) : (w.setSfu url node).creation = w.creation := rfl

section Creation

variable [DecidableEq ι] (w : World ι κ) (instanceId : Instance) (i : ι)
  (outcome : Settlement Room)

omit [DecidableEq ι] in
@[simp] theorem redis_beginCreation :
    (w.beginCreation instanceId i).redis = w.redis := rfl

omit [DecidableEq ι] in
@[simp] theorem sfu_beginCreation :
    (w.beginCreation instanceId i).sfu = w.sfu := rfl

omit [DecidableEq ι] in
@[simp] theorem creation_beginCreation :
    (w.beginCreation instanceId i).creation = w.creation := rfl

@[simp] theorem redis_settleCreation :
    (w.settleCreation instanceId i outcome).redis = w.redis := rfl

@[simp] theorem sfu_settleCreation :
    (w.settleCreation instanceId i outcome).sfu = w.sfu := rfl

theorem creation_settleCreation (j : ι) :
    (w.settleCreation instanceId i outcome).creation j =
      if j = i then some outcome else w.creation j := by
  simp [settleCreation, Function.update_apply]

end Creation

theorem sfu_setSfu (w : World ι κ) (url url' : Url)
    (node : Sfu.State (ι ⊕ κ)) :
    (w.setSfu url node).sfu url' = if url' = url then node else w.sfu url' := by
  simp [setSfu, Function.update_apply]

end World

variable [DecidableEq ι] [DecidableEq κ]

/-! ## `leave` -/

inductive Leave.Step (roomId : RoomId) (peerId : PeerId) (w : World ι κ) :
    Bool → Leave ι κ → World ι κ → Leave ι κ → Prop
  | gone : w.redis.room = none → Step roomId peerId w true .getRoom w .returned
  | found {room : Room} : w.redis.room = some room →
      Step roomId peerId w true .getRoom w (.hdel room.sfuNodeUrl)
  | removed {url : Url} :
      Step roomId peerId w true (.hdel url)
        (w.setRedis (w.redis.hdel peerId)) (.delProducers url)
  | cleared {url : Url} :
      Step roomId peerId w true (.delProducers url)
        (w.setRedis (w.redis.delProducers peerId)) (.sfuRemovePeer url false)
  | sfuRemoved {url : Url} :
      Step roomId peerId w true (.sfuRemovePeer url false)
        (w.setSfu url ((w.sfu url).removePeer roomId peerId))
        (.sfuRemovePeer url true)
  | sfuAnswered {ok : Bool} {url : Url} :
      Step roomId peerId w ok (.sfuRemovePeer url true) w (.hlen url)
  | occupied {url : Url} : w.redis.hlen ≠ 0 →
      Step roomId peerId w true (.hlen url) w .returned
  | empty {url : Url} : w.redis.hlen = 0 →
      Step roomId peerId w true (.hlen url) w (.hkeys url)
  | listed {url : Url} {peerIds : List PeerId} :
      Step roomId peerId w true (.hkeys url) w (.closeRoomIfEmpty url peerIds)
  | refused {url : Url} {peerIds : List PeerId} : w.redis.hlen ≠ 0 →
      Step roomId peerId w true (.closeRoomIfEmpty url peerIds) w .returned
  | closed {url : Url} {peerIds : List PeerId} : w.redis.hlen = 0 →
      Step roomId peerId w true (.closeRoomIfEmpty url peerIds)
        (w.setRedis { w.redis with room := none, peers := ∅ })
        (nextProducerHash url peerIds false)
  | swept {url : Url} {otherId : PeerId} {todo : List PeerId} {rejected : Bool} :
      Step roomId peerId w true (.delProducerHashes url (otherId :: todo) rejected)
        (w.setRedis (w.redis.delProducers otherId)) (nextProducerHash url todo rejected)
  | closing {url : Url} {close close' : Sfu.CloseRoom (ι ⊕ κ)}
      {historyDeleted : Bool} {node : Sfu.State (ι ⊕ κ)} :
      close.step roomId true (w.sfu url) = some (node, close') →
      Step roomId peerId w true (.closed url close historyDeleted)
        (w.setSfu url node) (.closed url close' historyDeleted)
  | deleted {url : Url} {close : Sfu.CloseRoom (ι ⊕ κ)} :
      Step roomId peerId w true (.closed url close false)
        (w.setRedis w.redis.delChat) (.closed url close true)
  | unswept {url : Url} {otherId : PeerId} {todo : List PeerId} {rejected : Bool} :
      Step roomId peerId w false (.delProducerHashes url (otherId :: todo) rejected) w
        (nextProducerHash url todo true)
  | threw {point : Leave ι κ} : Step roomId peerId w false point w .threw
  | lost {url : Url} :
      Step roomId peerId w false (.sfuRemovePeer url false) w (.hlen url)
  | unclosed {url : Url} {close close' : Sfu.CloseRoom (ι ⊕ κ)}
      {historyDeleted historyDeleted' : Bool} :
      Step roomId peerId w false (.closed url close historyDeleted) w
        (.closed url close' historyDeleted')

theorem Leave.step_cases {roomId : RoomId} {peerId : PeerId} {event : Event}
    {w w' : World ι κ} {point point' : Leave ι κ}
    (h : point.step roomId peerId event w = some (w', point')) :
    Step roomId peerId w event.ok point w' point' := by
  unfold step at h
  split at h
  · next ok =>
    change Step roomId peerId w ok point w' point'
    cases point with
    | getRoom =>
        cases ok with
        | false => cases h; exact .threw
        | true =>
            simp only [settle, if_true] at h
            split at h
            · next hroom => cases h; exact .gone hroom
            · next hroom => cases h; exact .found hroom
    | hdel url => cases ok <;> cases h <;> first | exact .threw | exact .removed
    | delProducers url =>
        cases ok <;> cases h <;> first | exact .threw | exact .cleared
    | sfuRemovePeer url processed =>
        cases processed with
        | true => cases h; exact .sfuAnswered
        | false => cases ok <;> cases h <;> first | exact .lost | exact .sfuRemoved
    | hlen url =>
        cases ok with
        | false => cases h; exact .threw
        | true =>
            simp only [settle, if_true, Option.some.injEq, Prod.mk.injEq] at h
            obtain ⟨rfl, rfl⟩ := h
            split
            · next hempty => exact .empty hempty
            · next hempty => exact .occupied hempty
    | hkeys url => cases ok <;> cases h <;> first | exact .threw | exact .listed
    | closeRoomIfEmpty url peerIds =>
        cases ok with
        | false => cases h; exact .threw
        | true =>
            simp only [settle, if_true, Option.some.injEq, Prod.mk.injEq,
              RoomKeys.closeRoomIfEmpty] at h
            obtain ⟨rfl, rfl⟩ := h
            split
            · next hempty => exact .closed hempty
            · next hempty => exact .refused hempty
    | delProducerHashes url todo rejected =>
        cases todo with
        | nil => cases h
        | cons otherId todo =>
            cases ok <;> cases h <;> first | exact .unswept | exact .swept
    | closed | returned | threw => cases h
  · next ok url close historyDeleted =>
    change Step roomId peerId w ok (.closed url close historyDeleted) w' point'
    simp only [Option.map_eq_some_iff, Prod.mk.injEq] at h
    obtain ⟨⟨w', close'⟩, hclose, rfl, rfl⟩ := h
    cases ok with
    | true =>
        have hstep : ∃ node, close.step roomId true (w.sfu url) =
            some (node, close') ∧ w' = w.setSfu url node := by
          cases close <;>
            simp only [advanceClose, if_true, Option.map_eq_some_iff,
              Prod.mk.injEq] at hclose <;>
            obtain ⟨⟨node, close'⟩, hnode, rfl, rfl⟩ := hclose <;>
            exact ⟨node, hnode, rfl⟩
        obtain ⟨node, hnode, rfl⟩ := hstep
        exact .closing hnode
    | false =>
        have hsame : w' = w := by
          cases close <;>
            simp_all [advanceClose, Sfu.CloseRoom.step]
        subst hsame
        exact .unclosed
  · next ok url close =>
    change Step roomId peerId w ok (.closed url close false) w' point'
    cases ok <;> cases h <;> first | exact .unclosed | exact .deleted
  · cases h

/-! ## `getOrCreateRoom` -/

/-- One more node has answered. -/
def Readings.Answered (w : World ι κ) (ok : Bool) (readings readings' : Readings) :
    Prop :=
  ∃ k url, readings[k]? = some (url, none) ∧
    readings' = readings.set k (url, some
      (if ok then .fulfilled (w.sfu url).roomCount else .rejected))

inductive GetOrCreateRoom.Step (i : ι) (instanceId : Instance) (roomId : RoomId)
    (w : World ι κ) :
    Bool → GetOrCreateRoom ι κ → World ι κ → GetOrCreateRoom ι κ → Prop
  | found {room : Room} : w.redis.room = some room →
      Step i instanceId roomId w true .getRoom w (.expire room)
  | waits {creation : ι} : w.redis.room = none →
      w.pendingRooms instanceId = some creation →
      Step i instanceId roomId w true .getRoom w (.pending creation)
  | begins : w.redis.room = none → w.pendingRooms instanceId = none →
      w.serviceUrls ≠ [] →
      Step i instanceId roomId w true .getRoom (w.beginCreation instanceId i)
        (.getStats (w.serviceUrls.map fun url => (url, none)))
  | unserved : w.redis.room = none → w.pendingRooms instanceId = none →
      w.serviceUrls = [] →
      Step i instanceId roomId w true .getRoom
        ((w.beginCreation instanceId i).settleCreation instanceId i .rejected)
        .threw
  | lostRoom : Step i instanceId roomId w false .getRoom w .threw
  | refreshed {room : Room} :
      Step i instanceId roomId w true (.expire room) w (.returned room)
  | unrefreshed {room : Room} :
      Step i instanceId roomId w false (.expire room) w .threw
  | resumed {ok : Bool} {creation : ι} {room : Room} :
      w.creation creation = some (.fulfilled room) →
      Step i instanceId roomId w ok (.pending creation) w (.returned room)
  | rejected {ok : Bool} {creation : ι} :
      w.creation creation = some .rejected →
      Step i instanceId roomId w ok (.pending creation) w .threw
  | read {ok : Bool} {readings readings' : Readings} :
      readings.Answered w ok readings' → readings'.settled = false →
      Step i instanceId roomId w ok (.getStats readings) w (.getStats readings')
  | picked {ok : Bool} {readings readings' : Readings} {url : Url} :
      readings.Answered w ok readings' → readings'.settled →
      pickLeastLoaded readings' = some url →
      Step i instanceId roomId w ok (.getStats readings) w
        (.createOrGetMediaRoom url .call)
  | unreachable {ok : Bool} {readings readings' : Readings} :
      readings.Answered w ok readings' → readings'.settled →
      pickLeastLoaded readings' = none →
      Step i instanceId roomId w ok (.getStats readings)
        (w.settleCreation instanceId i .rejected) .threw
  | put {ok : Bool} {url : Url} {request request' : Sfu.GetOrCreateRoom (ι ⊕ κ)}
      {node : Sfu.State (ι ⊕ κ)} :
      request.step (.inl i) roomId ok (w.sfu url) = some (node, request') →
      Step i instanceId roomId w ok (.createOrGetMediaRoom url request)
        (w.setSfu url node) (.createOrGetMediaRoom url request')
  | answered {url : Url} {r : ι ⊕ κ} :
      Step i instanceId roomId w true (.createOrGetMediaRoom url (.returned r)) w
        (.set { id := roomId, rtpCapabilities := (w.sfu url).rtpCapabilities,
                sfuNodeUrl := url })
  | unanswered {ok : Bool} {url : Url} {request : Sfu.GetOrCreateRoom (ι ⊕ κ)} :
      ok = false ∨ request = .threw →
      Step i instanceId roomId w ok (.createOrGetMediaRoom url request)
        (w.settleCreation instanceId i .rejected) .threw
  | recorded {room : Room} :
      Step i instanceId roomId w true (.set room)
        ((w.setRedis (w.redis.set room)).settleCreation instanceId i
          (.fulfilled room)) (.returned room)
  | unrecorded {room : Room} :
      Step i instanceId roomId w false (.set room)
        (w.settleCreation instanceId i .rejected) .threw

theorem GetOrCreateRoom.afterGetRoom_cases {i : ι} {instanceId : Instance}
    {roomId : RoomId} {w w' : World ι κ} {point' : GetOrCreateRoom ι κ}
    (h : afterGetRoom i instanceId w = (w', point')) :
    Step i instanceId roomId w true .getRoom w' point' := by
  unfold afterGetRoom at h
  split at h
  · next _ hroom => cases h; exact .found hroom
  · next hroom hpending => cases h; exact .waits hroom hpending
  · next hroom hpending =>
    cases hurls : w.serviceUrls with
    | nil =>
        rw [hurls] at h
        cases h
        exact .unserved hroom hpending hurls
    | cons url urls =>
        have hbegins : Step i instanceId roomId w true .getRoom
            (w.beginCreation instanceId i)
            (.getStats (w.serviceUrls.map fun url => (url, none))) :=
          .begins hroom hpending (by simp [hurls])
        rw [hurls] at h hbegins
        cases h
        exact hbegins

theorem GetOrCreateRoom.afterStats_cases {i : ι} {instanceId : Instance}
    {roomId : RoomId} {ok : Bool} {w w' : World ι κ}
    {readings readings' : Readings} {point' : GetOrCreateRoom ι κ}
    (hanswered : readings.Answered w ok readings')
    (h : afterStats i instanceId readings' w = (w', point')) :
    Step i instanceId roomId w ok (.getStats readings) w' point' := by
  unfold afterStats at h
  split at h
  · next hsettled =>
    split at h <;> cases h
    · next hpick => exact .unreachable hanswered hsettled hpick
    · next hpick => exact .picked hanswered hsettled hpick
  · next hsettled =>
    cases h
    exact .read hanswered (by simpa using hsettled)

theorem GetOrCreateRoom.advancePut_cases {i : ι} {instanceId : Instance}
    {roomId : RoomId} {url : Url} {ok : Bool} {w w' : World ι κ}
    {request : Sfu.GetOrCreateRoom (ι ⊕ κ)} {point' : GetOrCreateRoom ι κ}
    (h : advancePut i instanceId roomId url ok w request = some (w', point')) :
    Step i instanceId roomId w ok (.createOrGetMediaRoom url request) w'
      point' := by
  cases request with
  | returned r => cases ok <;> cases h <;> first | exact .unanswered (.inl rfl) | exact .answered
  | threw => cases h; exact .unanswered (.inr rfl)
  | call =>
      cases ok with
      | false => cases h; exact .unanswered (.inl rfl)
      | true =>
          simp only [advancePut, if_true, Option.map_eq_some_iff,
            Prod.mk.injEq] at h
          obtain ⟨⟨node, request'⟩, hnode, rfl, rfl⟩ := h
          exact .put hnode
  | pending | createRouter =>
      simp only [advancePut, Option.map_eq_some_iff, Prod.mk.injEq] at h
      obtain ⟨⟨node, request'⟩, hnode, rfl, rfl⟩ := h
      exact .put hnode

theorem GetOrCreateRoom.step_cases {i : ι} {instanceId : Instance}
    {roomId : RoomId} {event : Event} {w w' : World ι κ}
    {point point' : GetOrCreateRoom ι κ}
    (h : point.step i instanceId roomId event w = some (w', point')) :
    Step i instanceId roomId w event.ok point w' point' := by
  unfold step at h
  split at h
  · next k ok readings =>
    change Step i instanceId roomId w ok (.getStats readings) w' point'
    unfold answerStats at h
    split at h
    · next url hk =>
      have hanswered : readings.Answered w ok _ := ⟨k, url, hk, rfl⟩
      exact afterStats_cases hanswered (Option.some.inj h)
    · cases h
  · next ok =>
    change Step i instanceId roomId w ok point w' point'
    cases point with
    | getRoom =>
        cases ok with
        | false => cases h; exact .lostRoom
        | true => exact afterGetRoom_cases (Option.some.inj h)
    | expire room =>
        cases ok <;> cases h <;> first | exact .unrefreshed | exact .refreshed
    | pending creation =>
        simp only [settle] at h
        split at h <;> cases h
        · next hcreation => exact .resumed hcreation
        · next hcreation => exact .rejected hcreation
    | createOrGetMediaRoom url request => exact advancePut_cases h
    | set room =>
        cases ok <;> cases h <;> first | exact .unrecorded | exact .recorded
    | getStats | returned | threw => cases h
  · cases h

/-! ## `join` -/

inductive Join.Step (i : ι) (instanceId : Instance) (roomId : RoomId)
    (peer : Peer) (w : World ι κ) :
    Bool → Join ι κ → World ι κ → Join ι κ → Prop
  | room {ok : Bool} {point point' : GetOrCreateRoom ι κ} {w' : World ι κ} :
      GetOrCreateRoom.Step i instanceId roomId w ok point w' point' →
      Step i instanceId roomId peer w ok (.getOrCreateRoom point) w'
        (afterGetOrCreateRoom point')
  | added :
      Step i instanceId roomId peer w true .hset
        (w.setRedis (w.redis.hset peer)) .expire
  | refreshed :
      Step i instanceId roomId peer w true .expire w .getOtherPeers
  | listed :
      Step i instanceId roomId peer w true .getOtherPeers w
        (nextProducers (w.redis.getOtherPeers peer.id)
          (w.redis.getOtherPeers peer.id) [])
  | fetched {otherPeers todo : List Peer} {otherPeer : Peer}
      {found : List (ExistingProducer (ι ⊕ κ))} :
      Step i instanceId roomId peer w true
        (.getProducers otherPeers (otherPeer :: todo) found) w
        (nextProducers otherPeers todo
          (found ++ w.redis.getProducers otherPeer.id))
  | unlisted :
      Step i instanceId roomId peer w false .getOtherPeers w .rollbackHdel
  | unfetched {otherPeers todo : List Peer}
      {found : List (ExistingProducer (ι ⊕ κ))} :
      Step i instanceId roomId peer w false
        (.getProducers otherPeers todo found) w .rollbackHdel
  | removed :
      Step i instanceId roomId peer w true .rollbackHdel
        (w.setRedis (w.redis.hdel peer.id)) .rollbackDel
  | cleared :
      Step i instanceId roomId peer w true .rollbackDel
        (w.setRedis (w.redis.delProducers peer.id)) .threw
  | threw {point : Join ι κ} : Step i instanceId roomId peer w false point w .threw

theorem Join.step_cases {i : ι} {instanceId : Instance} {roomId : RoomId}
    {peer : Peer} {event : Event} {w w' : World ι κ} {point point' : Join ι κ}
    (h : point.step i instanceId roomId peer event w = some (w', point')) :
    Step i instanceId roomId peer w event.ok point w' point' := by
  unfold step at h
  split at h
  · simp only [Option.map_eq_some_iff, Prod.mk.injEq] at h
    obtain ⟨⟨w', point'⟩, hstep, rfl, rfl⟩ := h
    exact .room (GetOrCreateRoom.step_cases hstep)
  · next ok _ =>
    change Step i instanceId roomId peer w ok point w' point'
    cases point with
    | hset => cases ok <;> cases h <;> first | exact .threw | exact .added
    | expire => cases ok <;> cases h <;> first | exact .threw | exact .refreshed
    | getOtherPeers =>
        cases ok <;> cases h <;> first | exact .unlisted | exact .listed
    | getProducers otherPeers todo found =>
        cases todo with
        | nil => cases h
        | cons otherPeer todo =>
            cases ok <;> cases h <;> first | exact .unfetched | exact .fetched
    | rollbackHdel =>
        cases ok <;> cases h <;> first | exact .threw | exact .removed
    | rollbackDel =>
        cases ok <;> cases h <;> first | exact .threw | exact .cleared
    | getOrCreateRoom | returned | threw => cases h
  · cases h

/-! ## `createWebRtcTransport` -/

inductive CreateWebRtcTransport.Step (i : ι) (roomId : RoomId) (peerId : PeerId)
    (direction : TransportDirection) (w : World ι κ) :
    Bool → CreateWebRtcTransport ι κ → World ι κ → CreateWebRtcTransport ι κ →
      Prop
  | checked : peerId ∈ w.redis.peers →
      Step i roomId peerId direction w true .getPeer w .getRoom
  | located {room : Room} : w.redis.room = some room →
      Step i roomId peerId direction w true .getRoom w
        (.createTransport room.sfuNodeUrl .call)
  | post {ok : Bool} {url : Url} {request request' : Sfu.CreateTransport (ι ⊕ κ)}
      {node : Sfu.State (ι ⊕ κ)} : (request = .call → ok = true) →
      request.step (.inl i) roomId peerId direction ok (w.sfu url) =
        some (node, request') →
      Step i roomId peerId direction w ok (.createTransport url request)
        (w.setSfu url node) (.createTransport url request')
  | answered {url : Url} {t : ι ⊕ κ} :
      Step i roomId peerId direction w true (.createTransport url (.returned t)) w
        (.returned t)
  | threw {ok : Bool} {point : CreateWebRtcTransport ι κ} :
      Step i roomId peerId direction w ok point w .threw

theorem CreateWebRtcTransport.step_cases {i : ι} {roomId : RoomId}
    {peerId : PeerId} {direction : TransportDirection} {event : Event}
    {w w' : World ι κ} {point point' : CreateWebRtcTransport ι κ}
    (h : point.step i roomId peerId direction event w = some (w', point')) :
    Step i roomId peerId direction w event.ok point w' point' := by
  unfold step at h
  split at h
  · next ok =>
    change Step i roomId peerId direction w ok .getPeer w' point'
    simp only [Option.some.injEq, Prod.mk.injEq] at h
    obtain ⟨rfl, rfl⟩ := h
    split
    · next hpeer =>
      obtain ⟨rfl, hpeer⟩ := Bool.and_eq_true_iff.1 hpeer
      exact .checked (AList.lookup_isSome.1 hpeer)
    · exact .threw
  · next ok =>
    change Step i roomId peerId direction w ok .getRoom w' point'
    split at h
    · next hroom =>
      cases ok <;> cases h <;> first | exact .threw | exact .located hroom
    · cases h
      exact .threw
  · next ok url request =>
    change Step i roomId peerId direction w ok (.createTransport url request) w'
      point'
    cases request with
    | returned t => cases ok <;> cases h <;> first | exact .threw | exact .answered
    | threw => cases h; exact .threw
    | call =>
        cases ok with
        | false => cases h; exact .threw
        | true =>
            simp only [advancePost, if_true, Option.map_eq_some_iff,
              Prod.mk.injEq] at h
            obtain ⟨⟨node, request'⟩, hnode, rfl, rfl⟩ := h
            exact .post (fun _ => rfl) hnode
    | createWebRtcTransport =>
        simp only [advancePost, Option.map_eq_some_iff, Prod.mk.injEq] at h
        obtain ⟨⟨node, request'⟩, hnode, rfl, rfl⟩ := h
        exact .post nofun hnode
  · cases h

end MeetServer.Realtime
