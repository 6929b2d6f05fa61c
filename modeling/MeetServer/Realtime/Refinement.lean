import MeetServer.Realtime.Meeting
import MeetServer.Realtime.Routing
import MeetServer.Sfu.PeerIsolation

/-!
# The service keeps meetings

Each call of a session, from its first command to its last, moves the meeting
that the room's world announces once.  `Effect` says for every point of a call
whether it already has; next to the outlines this makes every call a step of the
abstract meeting.
-/

namespace MeetServer.Realtime

open MeetServer.Foundation

variable {κ : Type} [DecidableEq κ] {roomId : RoomId} {n : Nat} {w w' : World Nat κ}
  {m : Meeting (Nat ⊕ κ)} {peerId : PeerId} {url : Url} {r : Nat ⊕ κ}

/-! ## What the world announces -/

namespace World

omit [DecidableEq κ] in
theorem mediaRoom_of_url (hurl : w.redis.url = some url)
    (hr : (w.sfu url).rooms.lookup roomId = some r) : w.mediaRoom roomId = some (w.sfu url, r) := by
  simp [mediaRoom, hurl, hr]

omit [DecidableEq κ] in
theorem transports_of_url (hurl : w.redis.url = some url)
    (hr : (w.sfu url).rooms.lookup roomId = some r) (p : PeerId)
    (direction : TransportDirection) : w.transports roomId p direction =
      (((w.sfu url).room r).getPeer p).bind fun peer => peer.transportFor direction := by
  simp [transports, mediaRoom_of_url hurl hr]

omit [DecidableEq κ] in
theorem transports_of_vacant (hroom : w.redis.room = none) (p : PeerId)
    (direction : TransportDirection) : w.transports roomId p direction = none := by
  simp [transports, mediaRoom, RoomKeys.url, hroom]

/-- Without a record only Redis counts. -/
theorem announced_congr_of_vacant
    (hroom : w.redis.room = none) (hroom' : w'.redis.room = none)
    (hpeers : w'.redis.peers = w.redis.peers)
    (hproducers : w'.redis.producers = w.redis.producers) :
    w'.announced roomId = w.announced roomId := by
  refine Meeting.ext (fun p => ?_) (fun p direction => ?_) fun p producerId => ?_
  · simp [announced, hpeers]
  · exact (transports_of_vacant hroom' p direction).trans
      (transports_of_vacant hroom p direction).symm
  · simp [announced, hproducers]

/-- A record of an empty MediaRoom. -/
theorem announced_set {room : Room} (hroom : w.redis.room = none)
    (hr : (w.sfu room.sfuNodeUrl).rooms.lookup roomId = some r)
    (hpeers : ((w.sfu room.sfuNodeUrl).room r).peers = ∅) :
    (w.setRedis (w.redis.set room)).announced roomId = w.announced roomId := by
  refine Meeting.ext (fun _ => rfl) (fun p direction => ?_) fun _ _ => rfl
  refine Eq.trans ?_ (transports_of_vacant hroom p direction).symm
  simp [announced, transports, mediaRoom, RoomKeys.url, RoomKeys.set, hr, Sfu.MediaRoom.getPeer,
    hpeers]

theorem announced_of_vacant (h : w.redis.Vacant) : w.announced roomId = .empty := by
  refine Meeting.ext h.lookup (transports_of_vacant h.room) fun p producerId => ?_
  simp [announced, h.producers, Meeting.empty]

end World

/-- A node that has the room mirrors what Redis announces. -/
theorem Quiet.meeting_eq (h : Quiet roomId n w) : w.meeting roomId = w.announced roomId := by
  refine Meeting.ext (fun _ => rfl) (fun _ _ => rfl) fun p producerId => ?_
  cases hurl : w.redis.url with
  | none =>
      have hroom : w.redis.room = none := by simpa [RoomKeys.url] using hurl
      simp [World.meeting, World.announced, World.mediaRoom, hurl, (h.vacant hroom).producers]
  | some url =>
      obtain ⟨r, hr, -, -, hkept, -⟩ := h.mirrors url hurl
      simp [World.meeting, World.announced, World.mediaRoom_of_url hurl hr, hkept]

theorem Quiet.sound (h : Quiet roomId n w) : (w.announced roomId).Sound := by
  rw [← h.meeting_eq]
  cases hurl : w.redis.url with
  | none => constructor <;> simp [World.meeting, World.transports, World.mediaRoom, hurl]
  | some url =>
      obtain ⟨r, hr, -, hmembers, -, -⟩ := h.mirrors url hurl
      have hnone p (hp : (w.meeting roomId).members p = none) :
          ((w.sfu url).room r).getPeer p = none :=
        Option.eq_none_iff_forall_not_mem.2 fun peer hpeer =>
          AList.lookup_eq_none.1 hp (hmembers p peer hpeer)
      constructor
      · intro p direction hp
        exact (World.transports_of_url hurl hr p direction).trans (by simp [hnone p hp])
      · intro p producerId hp
        simp [World.meeting, World.mediaRoom_of_url hurl hr, Sfu.State.openProducer,
          Sfu.State.producers, hnone p hp]

/-! ## `join` -/

section Join

variable {instanceId : Instance} {i : Nat}

/-- Opening a room changes nothing that is announced. -/
theorem GetOrCreateRoom.announced_step {point point' : GetOrCreateRoom Nat κ}
    (hs : Step i instanceId roomId w true point w' point')
    (h : point.Outline roomId instanceId n w) :
    w'.announced roomId = w.announced roomId ∧ (point' = .threw → w'.redis.room = none) := by
  cases hs with
  | unserved hroom => exact ⟨rfl, fun _ => hroom⟩
  | unreachable => exact ⟨rfl, fun _ => h.vacant.room⟩
  | rejected => exact h.elim
  | @unanswered _ _ request _ =>
      cases request with
      | pending => exact h.elim
      | call | threw => exact ⟨rfl, fun _ => h.vacant.room⟩
      | createRouter | returned => exact ⟨rfl, fun _ => h.1.vacant.room⟩
  | @put _ url request request' node =>
      have hroom : w.redis.room = none := by
        cases request with
        | pending => exact h.elim
        | call | threw => exact h.vacant.room
        | createRouter | returned => exact h.1.vacant.room
      exact ⟨World.announced_congr_of_vacant hroom hroom rfl rfl, by simp⟩
  | @recorded room =>
      obtain ⟨hopening, -, r, hr, hpeers⟩ := h
      exact ⟨World.announced_set hopening.vacant.room hr hpeers, by simp⟩
  | _ => exact ⟨rfl, by simp⟩

variable {peer : Peer}

def Join.Effect (roomId : RoomId) (peer : Peer) (m : Meeting (Nat ⊕ κ)) (w : World Nat κ) :
    Join Nat κ → Prop
  | .getOrCreateRoom _ | .hset => w.announced roomId = m
  | .threw => w.announced roomId = m ∧ w.redis.room = none
  | _ => w.announced roomId = m.join peer

theorem World.announced_hset (peer : Peer) :
    (w.setRedis (w.redis.hset peer)).announced roomId = (w.announced roomId).join peer := by
  refine Meeting.ext (fun p => ?_) (fun _ _ => rfl) fun _ _ => rfl
  simp [World.announced, Meeting.join, RoomKeys.hset, Dict.lookup_insert_ite,
    Function.update_apply]

theorem Join.effect_step {point point' : Join Nat κ}
    (hs : Step i instanceId roomId peer w true point w' point')
    (h : point.Outline roomId instanceId peer n w) (heffect : point.Effect roomId peer m w) :
    point'.Effect roomId peer m w' := by
  have hnext (otherPeers todo : List Peer) (found : List (ExistingProducer (Nat ⊕ κ)))
      (hjoined : w.announced roomId = m.join peer) :
      (nextProducers otherPeers todo found).Effect roomId peer m w := by
    cases todo <;> exact hjoined
  cases hs with
  | @room _ point point' _ hroom =>
      obtain ⟨hsame, hnone⟩ := GetOrCreateRoom.announced_step hroom h
      have hkept : w'.announced roomId = m := hsame.trans heffect
      cases point' with
      | threw => exact ⟨hkept, hnone rfl⟩
      | _ => exact hkept
  | added =>
      subst heffect
      exact World.announced_hset peer
  | refreshed => exact heffect
  | listed => exact hnext _ _ _ heffect
  | fetched => exact hnext _ _ _ heffect
  | removed | cleared => exact h.elim

end Join

/-! ## `leave` -/

theorem World.transports_removePeer
    (h : Quiet roomId n (w.setSfu url ((w.sfu url).removePeer roomId peerId)))
    (hurl : w.redis.url = some url) (p : PeerId) (direction : TransportDirection) :
    (w.setSfu url ((w.sfu url).removePeer roomId peerId)).transports roomId p direction =
      if p = peerId then none else w.transports roomId p direction := by
  obtain ⟨r, hr, -⟩ := h.mirrors url hurl
  have hr' : (w.sfu url).rooms.lookup roomId = some r := by
    rwa [World.sfu_setSfu, if_pos rfl, Sfu.State.rooms_removePeer] at hr
  rw [World.transports_of_url (w := w.setSfu url _) hurl hr, World.transports_of_url hurl hr',
    World.sfu_setSfu, if_pos rfl]
  simp only [Sfu.State.removePeer, hr', Sfu.State.room_removePeerOf, Function.update_self,
    Sfu.MediaRoom.getPeer_deletePeer]
  split <;> rfl

def Leave.Effect (roomId : RoomId) (peerId : PeerId) (m : Meeting (Nat ⊕ κ))
    (w : World Nat κ) : Leave Nat κ → Prop
  | .getRoom | .hdel _ => w.announced roomId = m
  | .delProducers _ => w.announced roomId =
      { m with members := (m.leave peerId).members }
  | .sfuRemovePeer _ false => w.announced roomId =
      { m.leave peerId with transports := m.transports }
  | .sfuRemovePeer _ true | .hlen _ | .hkeys _ | .closeRoomIfEmpty _ _ =>
      w.announced roomId = m.leave peerId
  | .delProducerHashes _ _ _ | .closed _ _ _ =>
      w.announced roomId = m.leave peerId ∧ w.redis.room = none
  | .returned => w.announced roomId = m.leave peerId ∧
      (w.redis.room = none ∨ ∃ p, p ∈ w.redis.peers)
  | .threw => False

theorem Leave.effect_step {point point' : Leave Nat κ}
    (hs : Step roomId peerId w true point w' point') (h : point.Outline roomId peerId n w)
    (heffect : point.Effect roomId peerId m w) : point'.Effect roomId peerId m w' := by
  have hoccupied (hne : w.redis.hlen ≠ 0) : ∃ p, p ∈ w.redis.peers := by
    by_contra hnone
    exact hne ((RoomKeys.hlen_eq_zero_iff _).2 fun p hp => hnone ⟨p, hp⟩)
  cases hs with
  | gone hroom =>
      have hvacant := Settled.vacant h hroom
      have hleft : m.leave peerId = m := by
        subst heffect
        exact (Quiet.sound h).leave_eq (hvacant.lookup peerId)
      exact ⟨heffect.trans hleft.symm, .inl hroom⟩
  | found hroom => exact heffect
  | removed =>
      subst heffect
      refine Meeting.ext (fun p => ?_) (fun _ _ => rfl) fun _ _ => rfl
      simp [World.announced, Meeting.leave, RoomKeys.hdel, Dict.lookup_erase_ite,
        Function.update_apply]
  | cleared =>
      have hmembers (p : PeerId) : w.redis.peers.lookup p = (m.leave peerId).members p :=
        congrFun (congrArg Meeting.members heffect) p
      have htransports (p : PeerId) (direction : TransportDirection) :
          w.transports roomId p direction = m.transports p direction :=
        congrFun (congrFun (congrArg Meeting.transports heffect) p) direction
      have hsends (p : PeerId) (producerId : Nat ⊕ κ) :
          (w.redis.producers p).lookup producerId = m.sends p producerId :=
        congrFun (congrFun (congrArg Meeting.sends heffect) p) producerId
      refine Meeting.ext hmembers htransports fun p producerId => ?_
      simp only [World.announced, World.redis_setRedis, Meeting.leave, RoomKeys.delProducers,
        Function.update_apply]
      split
      · rfl
      · exact hsends p producerId
  | @sfuRemoved url =>
      obtain ⟨hquiet, hurl⟩ := h
      have hmembers (p : PeerId) : w.redis.peers.lookup p = (m.leave peerId).members p :=
        congrFun (congrArg Meeting.members heffect) p
      have hsends (p : PeerId) (producerId : Nat ⊕ κ) :
          (w.redis.producers p).lookup producerId = (m.leave peerId).sends p producerId :=
        congrFun (congrFun (congrArg Meeting.sends heffect) p) producerId
      have htransports (p : PeerId) (direction : TransportDirection) :
          w.transports roomId p direction = m.transports p direction :=
        congrFun (congrFun (congrArg Meeting.transports heffect) p) direction
      refine Meeting.ext hmembers (fun p direction => ?_) hsends
      refine (World.transports_removePeer hquiet hurl p direction).trans ?_
      simp only [Meeting.leave, Function.update_apply]
      split
      · rfl
      · exact htransports p direction
  | sfuAnswered => exact heffect
  | occupied hne => exact ⟨heffect, .inr (hoccupied hne)⟩
  | empty => exact heffect
  | listed => exact heffect
  | refused hne => exact ⟨heffect, .inr (hoccupied hne)⟩
  | @closed url peerIds hempty =>
      have hnobody := (RoomKeys.hlen_eq_zero_iff w.redis).1 hempty
      have hclosing := h.1.closeRoomIfEmpty h.2 hempty
      have hannounced : (w.setRedis { w.redis with room := none, peers := ∅ }).announced roomId =
          m.leave peerId := by
        rw [World.announced_of_vacant hclosing.vacant, ← heffect]
        exact (h.1.sound.eq_empty fun p => AList.lookup_eq_none.2 (hnobody p)).symm
      cases peerIds <;> exact ⟨hannounced, rfl⟩
  | @swept url otherId todo =>
      obtain ⟨h, rfl⟩ := h
      have hvacant := (Closing.delProducers h otherId).vacant
      have hannounced : (w.setRedis (w.redis.delProducers otherId)).announced roomId =
          m.leave peerId := by
        rw [World.announced_of_vacant hvacant, ← heffect.1, World.announced_of_vacant h.vacant]
      cases todo <;> exact ⟨hannounced, hvacant.room⟩
  | @closing url _ _ _ node _ =>
      have hsame : (w.setSfu url node).announced roomId = w.announced roomId :=
        World.announced_congr_of_vacant heffect.2 heffect.2 rfl rfl
      exact ⟨hsame.trans heffect.1, heffect.2⟩
  | deleted => exact heffect

/-! ## The calls on the node -/

omit [DecidableEq κ] in
theorem World.transports_setSfu {node : Sfu.State (Nat ⊕ κ)} (hurl : w.redis.url = some url)
    (hr : node.rooms.lookup roomId = some r) (p : PeerId) (direction : TransportDirection) :
    (w.setSfu url node).transports roomId p direction =
      ((node.room r).getPeer p).bind fun peer => peer.transportFor direction := by
  have hnode : (w.setSfu url node).sfu url = node := by rw [World.sfu_setSfu, if_pos rfl]
  rw [World.transports_of_url (w := w.setSfu url node) hurl (by rw [hnode]; exact hr), hnode]

/-- The peers of the MediaRoom keep their transports. -/
theorem World.announced_setSfu {node : Sfu.State (Nat ⊕ κ)} (hurl : w.redis.url = some url)
    (hr : (w.sfu url).rooms.lookup roomId = some r) (hrooms : node.rooms = (w.sfu url).rooms)
    (hsame : ∀ p direction, (((node.room r).getPeer p).bind fun peer =>
      peer.transportFor direction) =
        (((w.sfu url).room r).getPeer p).bind fun peer => peer.transportFor direction) :
    (w.setSfu url node).announced roomId = w.announced roomId := by
  refine Meeting.ext (fun _ => rfl) (fun p direction => ?_) fun _ _ => rfl
  have hnew := World.transports_setSfu hurl (hrooms ▸ hr) p direction
  exact hnew.trans ((hsame p direction).trans
    (World.transports_of_url hurl hr p direction).symm)

/-- A change to one peer that leaves its transports alone. -/
theorem World.announced_setPeer {peer peer' : Sfu.MediaPeer (Nat ⊕ κ)}
    (hurl : w.redis.url = some url) (hr : (w.sfu url).rooms.lookup roomId = some r)
    (hpeer : ((w.sfu url).room r).getPeer peer'.id = some peer)
    (hsame : ∀ direction, peer'.transportFor direction = peer.transportFor direction) :
    (w.setSfu url ((w.sfu url).setRoom r (((w.sfu url).room r).setPeer peer'))).announced
      roomId = w.announced roomId := by
  refine World.announced_setSfu hurl hr rfl fun p direction => ?_
  rw [Sfu.State.room_setRoom, Sfu.MediaRoom.getPeer_setPeer]
  split
  · next heq => simp [heq, hpeer, hsame]
  · rfl

section CreateWebRtcTransport

variable {direction : TransportDirection} {keys : RoomKeys (Nat ⊕ κ)}

def CreateWebRtcTransport.Effect (roomId : RoomId) (peerId : PeerId)
    (direction : TransportDirection) (i : Nat ⊕ κ) (m : Meeting (Nat ⊕ κ)) (w : World Nat κ) :
    CreateWebRtcTransport Nat κ → Prop
  | .getPeer => w.announced roomId = m
  | .getRoom | .createTransport _ .call
  | .createTransport _ (.createWebRtcTransport _ _ _) =>
      w.announced roomId = m ∧ m.members peerId ≠ none
  | .createTransport _ (.returned t) | .returned t =>
      t = i ∧ w.announced roomId = m.give peerId direction i ∧ m.members peerId ≠ none
  | .threw => w.announced roomId = m ∧ m.members peerId = none
  | .createTransport _ .threw => False

omit [DecidableEq κ] in
theorem transportFor_getOrCreatePeer [DecidableEq κ] (room : Sfu.MediaRoom (Nat ⊕ κ))
    (object : Nat ⊕ κ) (p : PeerId) :
    (((room.getOrCreatePeer peerId object).1.getPeer p).bind fun peer =>
      peer.transportFor direction) =
        (room.getPeer p).bind fun peer => peer.transportFor direction := by
  rw [Sfu.MediaRoom.getPeer_getOrCreatePeer]
  split
  · next heq =>
    subst heq
    unfold Sfu.MediaRoom.getOrCreatePeer
    split
    · next hpeer => simp [hpeer]
    · next hpeer => cases direction <;> simp [hpeer, Sfu.MediaPeer.transportFor]
  · rfl

theorem Quiet.announced_setTransport (h : Quiet roomId n w) (hurl : w.redis.url = some url)
    (hr : (w.sfu url).rooms.lookup roomId = some r) {peer : Sfu.MediaPeer (Nat ⊕ κ)}
    (hpeer : ((w.sfu url).room r).getPeer peerId = some peer) {t : Nat ⊕ κ}
    {node : Sfu.State (Nat ⊕ κ)} (hrooms : node.rooms = (w.sfu url).rooms) :
    (w.setSfu url (node.setRoom r (((w.sfu url).room r).setPeer
      (peer.setTransport t direction)))).announced roomId =
        (w.announced roomId).give peerId direction t := by
  obtain ⟨r', hr', howned, -⟩ := h.mirrors url hurl
  obtain rfl : r' = r := Option.some.inj (hr'.symm.trans hr)
  have hid := howned.keyed peerId peer hpeer
  refine Meeting.ext (fun _ => rfl) (fun p direction' => ?_) fun _ _ => rfl
  have hold := World.transports_of_url hurl hr p direction'
  refine (World.transports_setSfu hurl (by rw [← hrooms] at hr; exact hr) p direction').trans ?_
  rw [Sfu.State.room_setRoom, Sfu.MediaRoom.getPeer_setPeer, Sfu.MediaPeer.id_setTransport, hid]
  simp only [World.announced, Meeting.give, Function.update_apply]
  split
  · next heq =>
    subst heq
    rw [Option.bind_some, Sfu.MediaPeer.transportFor_setTransport, Function.update_apply]
    split
    · rfl
    · rw [hold, hpeer, Option.bind_some]
  · exact hold.symm

theorem CreateWebRtcTransport.effect_step {event : Event}
    {point point' : CreateWebRtcTransport Nat κ} (hok : event.ok)
    (hs : point.step n roomId peerId direction event w = some (w', point'))
    (h : point.Outline roomId peerId direction n keys w)
    (heffect : point.Effect roomId peerId direction (.inl n) m w) :
    point'.Effect roomId peerId direction (.inl n) m w' := by
  unfold step at hs
  split at hs
  · next ok =>
    obtain rfl : ok = true := hok
    have hmember : m.members peerId = w.redis.peers.lookup peerId :=
      (congrFun (congrArg Meeting.members heffect) peerId).symm
    simp only [Bool.true_and, Option.some.injEq, Prod.mk.injEq] at hs
    obtain ⟨rfl, rfl⟩ := hs
    split
    · next hpeer => exact ⟨heffect, hmember ▸ Option.isSome_iff_ne_none.1 hpeer⟩
    · next hpeer => exact ⟨heffect, hmember ▸ by simpa using hpeer⟩
  · next ok =>
    obtain rfl : ok = true := hok
    obtain ⟨-, hquiet, hpeer⟩ := h
    split at hs
    · cases hs
      exact heffect
    · next hroom => exact ((hquiet.vacant hroom).peers peerId hpeer).elim
  · next ok url request =>
    obtain rfl : ok = true := hok
    cases request with
    | call =>
        obtain ⟨-, hquiet, hurl, -⟩ := h
        obtain ⟨r, hr, -⟩ := hquiet.mirrors url hurl
        simp only [advancePost, if_true, Sfu.CreateTransport.step, hr,
          Option.map_some, Option.some.injEq, Prod.mk.injEq] at hs
        obtain ⟨rfl, rfl⟩ := hs
        refine ⟨Eq.trans (World.announced_setSfu hurl hr ?_ fun p direction => ?_) heffect.1,
          heffect.2⟩
        · rfl
        · rw [Sfu.State.room_setRoom]
          exact transportFor_getOrCreatePeer _ _ p
    | createWebRtcTransport r object peerExisted =>
        obtain ⟨-, hquiet, hurl, hr, peer, hpeer, rfl⟩ := h
        obtain ⟨heffect, hmember⟩ := heffect
        simp only [advancePost, Sfu.CreateTransport.step, if_true,
          Option.map_eq_some_iff, Prod.mk.injEq] at hs
        obtain ⟨⟨node, request'⟩, hassign, rfl, rfl⟩ := hs
        split at hassign
        · rw [Sfu.State.assignTransport_eq hpeer] at hassign
          cases hassign
          refine ⟨rfl, ?_, hmember⟩
          rw [← heffect]
          exact hquiet.announced_setTransport hurl hr hpeer rfl
        · cases hassign
    | returned t =>
        cases hs
        exact heffect
    | threw => exact h.elim
  · cases hs

end CreateWebRtcTransport

section Produce

variable {transportId : Nat ⊕ κ} {kind : MediaKind}

def Produce.Effect (roomId : RoomId) (peerId : PeerId) (transportId : Nat ⊕ κ)
    (kind : MediaKind) (i : Nat ⊕ κ) (m : Meeting (Nat ⊕ κ)) (w : World Nat κ) :
    Produce Nat κ → Prop
  | .getPeer | .getRoom | .produce _ .call => w.announced roomId = m
  | .produce _ (.transportProduce _ _ _) =>
      w.announced roomId = m ∧ m.transports peerId .send = some transportId
  | .produce _ (.tapProducer x) | .produce _ (.returned x) | .hset x =>
      x = i ∧ w.announced roomId = m ∧ m.transports peerId .send = some transportId
  | .expire x | .returned x =>
      x = i ∧ w.announced roomId = m.send peerId i kind ∧
        m.transports peerId .send = some transportId
  | .produce _ .threw | .threw =>
      w.announced roomId = m ∧ m.transports peerId .send ≠ some transportId

theorem World.announced_hsetProducer (producerId : Nat ⊕ κ) :
    (w.setRedis (w.redis.hsetProducer peerId producerId kind)).announced roomId =
      (w.announced roomId).send peerId producerId kind := by
  refine Meeting.ext (fun _ => rfl) (fun _ _ => rfl) fun p x => ?_
  simp only [World.announced, World.redis_setRedis, RoomKeys.hsetProducer, Meeting.send,
    Function.update_apply]
  split
  · rw [Dict.lookup_insert_ite, Function.update_apply]
  · rfl

theorem Produce.effect_step {event : Event} {point point' : Produce Nat κ} (hok : event.ok)
    (hs : point.step n roomId peerId transportId kind event w = some (w', point'))
    (h : point.Outline roomId peerId kind n w)
    (heffect : point.Effect roomId peerId transportId kind (.inl n) m w) :
    point'.Effect roomId peerId transportId kind (.inl n) m w' := by
  unfold step at hs
  split at hs
  · next ok =>
    obtain rfl : ok = true := hok
    simp only [Bool.true_and, Option.some.injEq, Prod.mk.injEq] at hs
    obtain ⟨rfl, rfl⟩ := hs
    split
    · exact heffect
    · next hpeer =>
      have hnone : w.redis.peers.lookup peerId = none := by simpa using hpeer
      subst heffect
      refine ⟨rfl, ?_⟩
      rw [(Quiet.sound h).transports peerId .send hnone]
      simp
  · next ok =>
    obtain rfl : ok = true := hok
    split at hs <;> cases hs
    · exact heffect
    · next hroom =>
      subst heffect
      refine ⟨rfl, ?_⟩
      rw [show (w.announced roomId).transports = w.transports roomId from rfl,
        World.transports_of_vacant hroom]
      simp
  · next ok url request =>
    obtain rfl : ok = true := hok
    cases request with
    | call =>
        obtain ⟨hquiet, hurl⟩ := h
        obtain ⟨r, hr, -⟩ := hquiet.mirrors url hurl
        have hsends := World.transports_of_url hurl hr peerId .send
        rw [show w.transports roomId = m.transports from congrArg Meeting.transports heffect]
          at hsends
        simp only [advancePost, if_true, Sfu.Produce.step, hr,
          Option.map_eq_some_iff, Prod.mk.injEq] at hs
        obtain ⟨⟨node, request'⟩, hcall, rfl, rfl⟩ := hs
        split at hcall
        · next hpeer =>
          cases hcall
          rw [World.setSfu_self]
          exact ⟨heffect, by simp [hsends, hpeer]⟩
        · next peer hpeer =>
          rw [hpeer, Option.bind_some] at hsends
          split at hcall <;> cases hcall <;> rw [World.setSfu_self]
          · next hsend => exact ⟨heffect, hsends.trans hsend⟩
          · next hsend => exact ⟨heffect, hsends ▸ hsend⟩
    | transportProduce r object transport =>
        obtain ⟨hquiet, hurl, hr, peer, hpeer, rfl, -⟩ := h
        obtain ⟨heffect, hsends⟩ := heffect
        obtain ⟨r', hr', howned, -⟩ := hquiet.mirrors url hurl
        obtain rfl : r' = r := Option.some.inj (hr'.symm.trans hr)
        have hid := howned.keyed peerId peer hpeer
        simp only [advancePost, Sfu.Produce.step, if_true,
          Sfu.State.updatePeer_eq hpeer, Option.map_eq_some_iff,
          Prod.mk.injEq] at hs
        obtain ⟨⟨node, request'⟩, hproduce, rfl, rfl⟩ := hs
        split at hproduce
        · cases hproduce
          have hpeer' : ((w.sfu url).room r').getPeer (peer.addProducer (.inl n)
              { kind := kind, transport := transport }).id = some peer := by
            rw [← hpeer, ← hid]
            rfl
          have hkept := (World.announced_setPeer hurl hr hpeer' fun _ => rfl).trans heffect
          unfold Sfu.afterProduce
          rw [show ((w.sfu url).setRoom r' _).rooms = (w.sfu url).rooms from rfl, hr]
          simp only
          split <;> exact ⟨rfl, hkept, hsends⟩
        · cases hproduce
    | tapProducer producer =>
        cases hs
        rw [World.setSfu_self]
        exact heffect
    | returned producer =>
        cases hs
        exact heffect
    | threw =>
        cases hs
        exact heffect
  · next ok producer =>
    obtain rfl : ok = true := hok
    cases hs
    obtain ⟨rfl, heffect, hsends⟩ := heffect
    refine ⟨rfl, ?_, hsends⟩
    rw [World.announced_hsetProducer, heffect]
  · next ok producer =>
    obtain rfl : ok = true := hok
    cases hs
    exact heffect
  · cases hs

end Produce

section SetPaused

variable {producerId : Nat ⊕ κ} {paused : Bool}

def SetPaused.Effect (roomId : RoomId) (peerId : PeerId) (producerId : Nat ⊕ κ)
    (m : Meeting (Nat ⊕ κ)) (w : World Nat κ) : SetPaused Nat κ → Prop
  | .getPeer | .getRoom | .setPaused _ .call => w.announced roomId = m
  | .setPaused _ (.producerSetPaused _ _) | .setPaused _ .returned | .returned =>
      w.announced roomId = m ∧ m.sends peerId producerId ≠ none
  | .setPaused _ .threw | .threw => w.announced roomId = m ∧ m.sends peerId producerId = none

theorem SetPaused.effect_step {event : Event} {point point' : SetPaused Nat κ} (hok : event.ok)
    (hs : point.step roomId peerId producerId paused event w = some (w', point'))
    (h : point.Outline roomId peerId n w)
    (heffect : point.Effect roomId peerId producerId m w) :
    point'.Effect roomId peerId producerId m w' := by
  unfold step at hs
  split at hs
  · next ok =>
    obtain rfl : ok = true := hok
    simp only [Bool.true_and, Option.some.injEq, Prod.mk.injEq] at hs
    obtain ⟨rfl, rfl⟩ := hs
    split
    · exact heffect
    · next hpeer =>
      have hnone : w.redis.peers.lookup peerId = none := by simpa using hpeer
      subst heffect
      exact ⟨rfl, (Quiet.sound h).sends peerId producerId hnone⟩
  · next ok =>
    obtain rfl : ok = true := hok
    split at hs <;> cases hs
    · exact heffect
    · next hroom =>
      subst heffect
      rw [World.announced_of_vacant (Settled.vacant h hroom)]
      exact ⟨World.announced_of_vacant (Settled.vacant h hroom), rfl⟩
  · next ok url request =>
    obtain rfl : ok = true := hok
    cases request with
    | call =>
        obtain ⟨hquiet, hurl⟩ := h
        obtain ⟨r, hr, -, -, hkept, -⟩ := hquiet.mirrors url hurl
        have hsends : (w.sfu url).openProducer r peerId producerId = m.sends peerId producerId :=
          (hkept peerId producerId id).trans
            (congrFun (congrFun (congrArg Meeting.sends heffect) peerId) producerId)
        simp only [advancePost, if_true, Sfu.SetPaused.step, hr,
          Option.map_eq_some_iff, Prod.mk.injEq] at hs
        obtain ⟨⟨node, request'⟩, hcall, rfl, rfl⟩ := hs
        split at hcall
        · next hpeer =>
          cases hcall
          rw [World.setSfu_self]
          refine ⟨heffect, ?_⟩
          rw [← hsends]
          simp [Sfu.State.openProducer, Sfu.State.producers, hpeer]
        · next peer hpeer =>
          have hopen : ((peer.producers.lookup producerId).any (w.sfu url).producerOpen = true) ↔
              m.sends peerId producerId ≠ none := by
            rw [← hsends]
            cases hlookup : peer.producers.lookup producerId <;>
              simp [Sfu.State.openProducer, Sfu.State.producers, hpeer, hlookup]
          split at hcall <;> cases hcall <;> rw [World.setSfu_self]
          · next hany => exact ⟨heffect, hopen.1 hany⟩
          · next hany => exact ⟨heffect, by_contra fun hne => hany (hopen.2 hne)⟩
    | producerSetPaused r object =>
        obtain ⟨hquiet, hurl, hr, peer, hpeer, rfl⟩ := h
        obtain ⟨heffect, hsends⟩ := heffect
        obtain ⟨r', hr', howned, -⟩ := hquiet.mirrors url hurl
        obtain rfl : r' = r := Option.some.inj (hr'.symm.trans hr)
        have hid := howned.keyed peerId peer hpeer
        simp only [advancePost, Sfu.SetPaused.step, if_true,
          Sfu.State.updatePeer_eq hpeer, Option.map_some, Option.some.injEq,
          Prod.mk.injEq] at hs
        obtain ⟨rfl, rfl⟩ := hs
        have hpeer' : ((w.sfu url).room r').getPeer (peer.setPaused producerId paused).id =
            some peer := by
          rw [(peer.setPaused_fields producerId paused).1, hid, hpeer]
        exact ⟨(World.announced_setPeer hurl hr hpeer'
          (peer.setPaused_fields producerId paused).2.2).trans heffect, hsends⟩
    | returned =>
        cases hs
        exact heffect
    | threw =>
        cases hs
        exact heffect
  · cases hs

theorem SetPaused.redis_step {event : Event} {point point' : SetPaused Nat κ}
    (hs : point.step roomId peerId producerId paused event w = some (w', point')) :
    w'.redis = w.redis := by
  unfold step at hs
  split at hs
  · cases hs
    rfl
  · split at hs <;> cases hs <;> rfl
  · unfold advancePost at hs
    split at hs
    · cases hs
      rfl
    · cases hs
      rfl
    · split at hs
      · obtain ⟨_, -, heq⟩ := Option.map_eq_some_iff.1 hs
        cases heq
        rfl
      · cases hs
        rfl
    · obtain ⟨_, -, heq⟩ := Option.map_eq_some_iff.1 hs
      cases heq
      rfl
  · cases hs

end SetPaused

/-! ## Every call -/

def MediaCall.Effect (roomId : RoomId) (i : Nat ⊕ κ) (m : Meeting (Nat ⊕ κ))
    (w : World Nat κ) : MediaCall κ → Prop
  | .signaling (.join _ peer point) => point.Effect roomId peer m w
  | .signaling (.leave peerId point) => point.Effect roomId peerId m w
  | .signaling (.createWebRtcTransport peerId direction point) =>
      point.Effect roomId peerId direction i m w
  | .produce peerId transportId kind point =>
      point.Effect roomId peerId transportId kind i m w
  | .setPaused peerId producerId _ point => point.Effect roomId peerId producerId m w

theorem MediaCall.effect_step {event : Event} {keys : RoomKeys (Nat ⊕ κ)}
    {call call' : MediaCall κ} (hok : event.ok)
    (hs : call.step roomId n event w = some (w', call'))
    (h : call.Outline roomId n keys w) (heffect : call.Effect roomId (.inl n) m w) :
    call'.Effect roomId (.inl n) m w' := by
  have hflag : event.ok = true := hok
  cases call with
  | signaling call =>
      cases call with
      | join instanceId peer point =>
          simp only [step, Call.step, Option.map_map, Option.map_eq_some_iff,
            Function.comp_apply, Prod.mk.injEq] at hs
          obtain ⟨⟨w', point'⟩, hpoint, rfl, rfl⟩ := hs
          have hpoint := Join.step_cases hpoint
          rw [hflag] at hpoint
          exact Join.effect_step hpoint h heffect
      | leave peerId point =>
          simp only [step, Call.step, Option.map_map, Option.map_eq_some_iff,
            Function.comp_apply, Prod.mk.injEq] at hs
          obtain ⟨⟨w', point'⟩, hpoint, rfl, rfl⟩ := hs
          have hpoint := Leave.step_cases hpoint
          rw [hflag] at hpoint
          exact Leave.effect_step hpoint h heffect
      | createWebRtcTransport peerId direction point =>
          simp only [step, Call.step, Option.map_map, Option.map_eq_some_iff,
            Function.comp_apply, Prod.mk.injEq] at hs
          obtain ⟨⟨w', point'⟩, hpoint, rfl, rfl⟩ := hs
          exact CreateWebRtcTransport.effect_step hok hpoint h heffect
  | produce peerId transportId kind point =>
      simp only [step, Option.map_eq_some_iff, Prod.mk.injEq] at hs
      obtain ⟨⟨w', point'⟩, hpoint, rfl, rfl⟩ := hs
      exact Produce.effect_step hok hpoint h heffect
  | setPaused peerId producerId paused point =>
      simp only [step, Option.map_eq_some_iff, Prod.mk.injEq] at hs
      obtain ⟨⟨w', point'⟩, hpoint, rfl, rfl⟩ := hs
      exact SetPaused.effect_step hok hpoint h heffect

theorem MediaRequest.effect_call (i : Nat ⊕ κ) (request : MediaRequest κ) :
    request.call.Effect roomId i (w.announced roomId) w := by
  rcases request with (_ | _ | _) | _ | _ <;> exact rfl

/-- Calls on a node leave the record and the members alone. -/
def MediaCall.Keeps (keys : RoomKeys (Nat ⊕ κ)) (w : World Nat κ) : MediaCall κ → Prop
  | .signaling _ => True
  | .produce _ _ _ _ | .setPaused _ _ _ _ =>
      w.redis.room = keys.room ∧ w.redis.peers = keys.peers

theorem MediaCall.keeps_step {event : Event} {keys : RoomKeys (Nat ⊕ κ)}
    {call call' : MediaCall κ} (hs : call.step roomId n event w = some (w', call'))
    (h : call.Keeps keys w) : call'.Keeps keys w' := by
  cases call with
  | signaling call =>
      simp only [step, Option.map_eq_some_iff, Prod.mk.injEq] at hs
      obtain ⟨-, -, -, rfl⟩ := hs
      trivial
  | produce peerId transportId kind point =>
      simp only [step, Option.map_eq_some_iff, Prod.mk.injEq] at hs
      obtain ⟨⟨w', point'⟩, hpoint, rfl, rfl⟩ := hs
      rcases Produce.redis_of_step hpoint with ⟨hredis, -⟩ | ⟨producer, -, -, hredis⟩
      · rw [Keeps, hredis]
        exact h
      · rw [Keeps, hredis]
        exact h
  | setPaused peerId producerId paused point =>
      simp only [step, Option.map_eq_some_iff, Prod.mk.injEq] at hs
      obtain ⟨⟨w', point'⟩, hpoint, rfl, rfl⟩ := hs
      rw [Keeps, SetPaused.redis_step hpoint]
      exact h

omit [DecidableEq κ] in
theorem MediaRequest.keeps_call (request : MediaRequest κ) :
    request.call.Keeps w.redis w := by
  cases request with
  | signaling => trivial
  | produce | setPaused => exact ⟨rfl, rfl⟩

theorem Session.serve_effect {s : Session κ} (h : Quiet roomId s.served s.world)
    {request : MediaRequest κ} {events : List Event} {call : MediaCall κ}
    (hs : s.serve roomId request events = some (w, call)) :
    call.Effect roomId (.inl s.served) (s.world.announced roomId) w ∧
      call.Keeps s.world.redis w := by
  obtain ⟨-, hreach⟩ := serve_eq_some hs
  refine (hreach.invariant (I := fun p => p.2.Outline roomId s.served s.world.redis p.1 ∧
    p.2.Effect roomId (.inl s.served) (s.world.announced roomId) p.1 ∧
    p.2.Keeps s.world.redis p.1) ?_ ⟨(request.outline_call h).2,
      MediaRequest.effect_call _ request, request.keeps_call⟩).2
  rintro ⟨w, call⟩ event ⟨w', call'⟩ ⟨houtline, heffect, hkeeps⟩ hok hstep
  exact ⟨(MediaCall.outline_step hok hstep houtline).2,
    MediaCall.effect_step hok hstep houtline heffect, MediaCall.keeps_step hstep hkeeps⟩

/-! ## What a call has done -/

omit [DecidableEq κ] in
theorem RoomKeys.Keyed.mem_getOtherPeers_iff {keys : RoomKeys (Nat ⊕ κ)} (h : keys.Keyed)
    {q : Peer} : q ∈ keys.getOtherPeers peerId ↔
      keys.peers.lookup q.id = some q ∧ q.id ≠ peerId := by
  simp only [getOtherPeers, List.mem_map, List.mem_filter, decide_eq_true_eq]
  constructor
  · rintro ⟨⟨p, q'⟩, ⟨hentry, hne⟩, rfl⟩
    have hlookup := Dict.mem_entries_iff.1 hentry
    obtain rfl := h p q' hlookup
    exact ⟨hlookup, hne⟩
  · rintro ⟨hlookup, hne⟩
    exact ⟨⟨q.id, q⟩, ⟨Dict.mem_entries_iff.2 hlookup, hne⟩, rfl⟩

theorem Quiet.lists (h : Quiet roomId n w) (peerId : PeerId) :
    (w.announced roomId).Lists peerId (w.redis.getOtherPeers peerId)
      (w.redis.existingProducers (w.redis.getOtherPeers peerId)) where
  peers q := h.keyed.mem_getOtherPeers_iff
  producers e := by
    rw [RoomKeys.mem_existingProducers h.keyed]
    refine and_congr_right fun hsends => and_iff_right ?_
    by_contra hnone
    have hlost := h.sound.sends e.peerId e.producerId (AList.lookup_eq_none.2 hnone)
    cases hlost.symm.trans hsends

theorem MediaCall.follows_of_finished {call : MediaCall κ} {keys : RoomKeys (Nat ⊕ κ)}
    (hdone : call.finished) (h : call.Outline roomId n keys w)
    (heffect : call.Effect roomId (.inl n) m w) :
    m.Follows (.inl n) call (w.announced roomId) := by
  cases call with
  | signaling call =>
      cases call with
      | join instanceId peer point =>
          cases point with
          | returned existingPeers existingProducers =>
              obtain ⟨hquiet, rfl, rfl⟩ := h
              have hjoined : w.announced roomId = m.join peer := heffect
              have hlists := hquiet.lists peer.id
              rw [hjoined] at hlists ⊢
              exact .joined hlists.of_join
          | threw =>
              obtain ⟨rfl, hroom⟩ := heffect
              exact .unserved ((Settled.vacant h hroom).lookup)
          | _ => cases hdone
      | leave peerId point =>
          cases point with
          | returned =>
              rw [heffect.1]
              exact .left (by simp)
          | closed =>
              rw [heffect.1]
              exact .left (by simp)
          | threw => exact h.elim
          | sfuRemovePeer url processed => cases processed <;> cases hdone
          | _ => cases hdone
      | createWebRtcTransport peerId direction point =>
          cases point with
          | returned t =>
              obtain ⟨rfl, hgiven, hmember⟩ := heffect
              rw [hgiven]
              exact .given hmember
          | threw =>
              obtain ⟨rfl, hnone⟩ := heffect
              exact .refused hnone
          | _ => cases hdone
  | produce peerId transportId kind point =>
      cases point with
      | returned =>
          obtain ⟨rfl, hsent, hsend⟩ := heffect
          rw [hsent]
          exact .sent hsend
      | threw =>
          obtain ⟨rfl, hsend⟩ := heffect
          exact .unsent hsend
      | _ => cases hdone
  | setPaused peerId producerId paused point =>
      cases point with
      | returned =>
          obtain ⟨rfl, hsends⟩ := heffect
          exact .paused hsends
      | threw =>
          obtain ⟨rfl, hnone⟩ := heffect
          exact .unpaused hnone
      | _ => cases hdone

/-- Only a room with members has a record. -/
def World.Occupied (w : World Nat κ) : Prop :=
  w.redis.room = none ∨ ∃ p, p ∈ w.redis.peers

theorem MediaCall.occupied_of_finished {call : MediaCall κ} {keys : RoomKeys (Nat ⊕ κ)}
    (hdone : call.finished) (h : call.Outline roomId n keys w)
    (heffect : call.Effect roomId (.inl n) m w) (hkeeps : call.Keeps keys w)
    (hoccupied : keys.room = none ∨ ∃ p, p ∈ keys.peers) : w.Occupied := by
  cases call with
  | signaling call =>
      cases call with
      | join instanceId peer point =>
          cases point with
          | returned =>
              have hjoined : (w.announced roomId).members peer.id = some peer := by
                rw [show w.announced roomId = m.join peer from heffect]
                exact Function.update_self ..
              exact .inr ⟨peer.id, AList.lookup_isSome.1 (Option.isSome_of_eq_some hjoined)⟩
          | threw => exact .inl heffect.2
          | _ => cases hdone
      | leave peerId point =>
          cases point with
          | returned => exact heffect.2
          | closed => exact .inl heffect.2
          | threw => exact h.elim
          | sfuRemovePeer url processed => cases processed <;> cases hdone
          | _ => cases hdone
      | createWebRtcTransport peerId direction point =>
          cases point with
          | returned | threw =>
              rw [World.Occupied, h.1]
              exact hoccupied
          | _ => cases hdone
  | produce | setPaused =>
      obtain ⟨hroom, hpeers⟩ := hkeeps
      rw [World.Occupied, hroom, hpeers]
      exact hoccupied

/-! ## Whole sessions -/

/-- The call that is served does to the meeting what it should. -/
def Refines (roomId : RoomId) (s : Session κ) (a : MediaRequest κ × List Event) : Prop :=
  ∀ w call, s.serve roomId a.1 a.2 = some (w, call) →
    (s.world.meeting roomId).Follows (.inl s.served) call (w.meeting roomId)

/-- A meeting without members leaves nothing in Redis and no MediaRoom. -/
def Released (roomId : RoomId) (s : Session κ) : Prop :=
  (∀ p, (s.world.meeting roomId).members p = none) →
    s.world.redis.Vacant ∧ ∀ url, (s.world.sfu url).rooms.lookup roomId = none

theorem Quiet.released {s : Session κ} (h : Quiet roomId n s.world)
    (hoccupied : s.world.Occupied) : Released roomId s := by
  intro hnobody
  have hroom : s.world.redis.room = none := by
    rcases hoccupied with hroom | ⟨p, hp⟩
    · exact hroom
    · exact absurd hp (AList.lookup_eq_none.1 (hnobody p))
  exact ⟨h.vacant hroom, fun url => h.elsewhere url (by simp [RoomKeys.url, hroom])⟩

theorem occupied_preserves : (sessions (κ := κ) roomId).Preserves (OpensUnused roomId)
    fun s => Quiet roomId s.served s.world ∧ s.world.Occupied := by
  rintro s a s' ⟨hquiet, hoccupied⟩ hC hstep
  refine ⟨quiet_preserves hquiet hC hstep, ?_⟩
  simp only [sessions, Option.map_eq_some_iff] at hstep
  obtain ⟨⟨w, call⟩, hserve, rfl⟩ := hstep
  obtain ⟨hdone, -, houtline⟩ := Session.serve_outline hquiet hserve
  obtain ⟨heffect, hkeeps⟩ := Session.serve_effect hquiet hserve
  exact MediaCall.occupied_of_finished hdone houtline heffect hkeeps hoccupied

theorem Quiet.refines {s s' : Session κ} {a : MediaRequest κ × List Event}
    (h : Quiet roomId s.served s.world) (hC : OpensUnused roomId s a)
    (hstep : (sessions roomId).step s a = some s') : Refines roomId s a := by
  intro w call hserve
  have hquiet : Quiet roomId s'.served s'.world := quiet_preserves h hC hstep
  obtain rfl : s' = { world := w, served := s.served + 1 } := by
    simpa [sessions, hserve] using hstep.symm
  obtain ⟨hdone, -, houtline⟩ := Session.serve_outline h hserve
  rw [h.meeting_eq, hquiet.meeting_eq]
  exact MediaCall.follows_of_finished hdone houtline (Session.serve_effect h hserve).1

/-! ## The ids in the URLs -/

/-- The calls on `SfuClientService` that may be made for it; `idOf` gives the ids of
transports and producers. -/
def MediaRequest.operations (idOf : Nat ⊕ κ → String) (roomId : RoomId) :
    MediaRequest κ → List Rest.Operation
  | .signaling (.join _ _) => [.createOrGetMediaRoom roomId]
  | .signaling (.leave peerId) => RoutedLeave.operations roomId peerId
  | .signaling (.createWebRtcTransport peerId direction) =>
      [.createTransport roomId peerId direction]
  | .produce peerId transportId kind => [.produce roomId peerId (idOf transportId) kind ""]
  | .setPaused peerId producerId true => [.pauseProducer roomId peerId (idOf producerId)]
  | .setPaused peerId producerId false => [.resumeProducer roomId peerId (idOf producerId)]

def MediaRequest.Survives (idOf : Nat ⊕ κ → String) (roomId : RoomId)
    (request : MediaRequest κ) : Prop :=
  ∀ op ∈ request.operations idOf roomId, Rest.Survives op.route op.params

instance (idOf : Nat ⊕ κ → String) (roomId : RoomId) (request : MediaRequest κ) :
    Decidable (request.Survives idOf roomId) :=
  inferInstanceAs (Decidable (∀ op ∈ _, _))

/-- Calls one after the other; `misdirected` is what comes of a call with a request that
does not survive its URL. -/
def routedSessions (idOf : Nat ⊕ κ → String)
    (misdirected : Session κ → MediaRequest κ × List Event → Option (Session κ))
    (roomId : RoomId) : System (Session κ) (MediaRequest κ × List Event) :=
  ⟨fun s a => if a.1.Survives idOf roomId then (sessions roomId).step s a else misdirected s a⟩

section Routed

variable {idOf : Nat ⊕ κ → String}
  {misdirected : Session κ → MediaRequest κ × List Event → Option (Session κ)}

theorem routedSessions_step {s : Session κ} {a : MediaRequest κ × List Event}
    (h : a.1.Survives idOf roomId) :
    (routedSessions idOf misdirected roomId).step s a = (sessions roomId).step s a :=
  if_pos h

/-- Calls whose ids survive are served as in a session. -/
theorem routedSessions_meets {s : Session κ} {calls : List (MediaRequest κ × List Event)}
    (hsurvive : ∀ a ∈ calls, a.1.Survives idOf roomId)
    (h : (sessions roomId).Meets (OpensUnused roomId) s calls) :
    (routedSessions idOf misdirected roomId).Meets
      (fun s a => a.1.Survives idOf roomId ∧ OpensUnused roomId s a) s calls := by
  induction calls generalizing s with
  | nil => trivial
  | cons a calls ih =>
      obtain ⟨hC, hrest⟩ := h
      have ha := hsurvive a List.mem_cons_self
      have hstep : (routedSessions idOf misdirected roomId).step s a =
          (sessions roomId).step s a := routedSessions_step ha
      refine ⟨fun henabled => ⟨ha, hC (by rwa [← hstep])⟩, ?_⟩
      have hnext : (routedSessions idOf misdirected roomId).next s a =
          (sessions roomId).next s a := by
        rw [System.next, System.next, hstep]
      rw [hnext]
      exact ih (fun b hb => hsurvive b (List.mem_cons_of_mem a hb)) hrest

theorem routedSessions_preserves : (routedSessions idOf misdirected roomId).Preserves
    (fun s a => a.1.Survives idOf roomId ∧ OpensUnused roomId s a)
    fun s => Quiet roomId s.served s.world ∧ s.world.Occupied := by
  rintro s a s' hI ⟨hsurvives, hC⟩ hstep
  rw [routedSessions_step hsurvives] at hstep
  exact occupied_preserves hI hC hstep

/-- In a run of calls, one after the other and without failures, every call is a
step of the abstract meeting, as long as the ids survive the URLs and no peer with an
open producer asks for another send transport. -/
theorem sessions_refine {serviceUrls : List Url} {sfu : Url → Sfu.State (Nat ⊕ κ)}
    (hmediaRoom : ∀ url, (sfu url).rooms.lookup roomId = none)
    (hpending : ∀ url, (sfu url).pendingRooms roomId = none)
    {calls : List (MediaRequest κ × List Event)}
    (hcalls : (routedSessions idOf misdirected roomId).Meets
      (fun s a => a.1.Survives idOf roomId ∧ OpensUnused roomId s a)
      { world := .fresh serviceUrls sfu, served := 0 } calls) :
    (routedSessions idOf misdirected roomId).Meets (Refines roomId)
        { world := .fresh serviceUrls sfu, served := 0 } calls ∧
      (routedSessions idOf misdirected roomId).Holds (Released roomId)
        { world := .fresh serviceUrls sfu, served := 0 } calls := by
  have hfresh : Quiet roomId 0 (.fresh serviceUrls sfu) ∧ (World.fresh serviceUrls sfu).Occupied :=
    ⟨Quiet.fresh hmediaRoom hpending, .inl rfl⟩
  constructor
  · refine hcalls.along routedSessions_preserves (fun s a s' h hC hstep => ?_) hfresh
    rw [routedSessions_step hC.1] at hstep
    exact h.1.refines hC.2 hstep
  · exact hcalls.holds routedSessions_preserves (fun s h => h.1.released h.2) hfresh

end Routed

/-- One member produces, is paused and leaves; the other one leaves too. -/
def attended : List (MediaRequest Empty × List Event) :=
  produced ++ [(.setPaused "a" (.inl 2) true, settled 5), otherJoins,
    (.signaling (.leave "a"), settled 6),
    (.signaling (.leave "b"), settled 8 ++ [.closeRoom true, .deleteRoomHistory true])]

set_option maxRecDepth 4000 in
example : ((sessions "r").run unservedRoom attended).served = 7 := by decide

/-- Ids of transports and producers as the calls that create them. -/
def namedByCall : Nat ⊕ Empty → String
  | .inl n => toString n

theorem sessions_refine_attended :
    (routedSessions namedByCall (fun _ _ => none) "r").Meets (Refines "r") unservedRoom
        attended ∧
      (routedSessions namedByCall (fun _ _ => none) "r").Holds (Released "r") unservedRoom
        attended :=
  sessions_refine (fun _ => rfl) (fun _ => rfl)
    (routedSessions_meets (by decide +kernel) (by decide))

end MeetServer.Realtime
