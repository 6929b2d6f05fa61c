import MeetServer.Realtime.Outlines

/-!
# Proof outlines of the media calls

`createWebRtcTransport`, `produce`, `pauseProducer` and `resumeProducer`.  Only a
new send transport leaves the room other than quiet.
-/

namespace MeetServer.Realtime

open MeetServer.Foundation

variable {κ : Type} [DecidableEq κ] {roomId : RoomId} {n : Nat} {w : World Nat κ}
  {peerId : PeerId} {url : Url} {keys : RoomKeys (Nat ⊕ κ)}

/-! ## `createWebRtcTransport` -/

/-- A new send transport closes the peer's producers on the node. -/
def Replaced (peerId : PeerId) (direction : TransportDirection) (p : PeerId) :
    Prop :=
  p = peerId ∧ direction = .send

def CreateWebRtcTransport.Outline (roomId : RoomId) (peerId : PeerId)
    (direction : TransportDirection) (n : Nat) (keys : RoomKeys (Nat ⊕ κ))
    (w : World Nat κ) : CreateWebRtcTransport Nat κ → Prop
  | .getPeer => w.redis = keys ∧ Quiet roomId n w
  | .getRoom => w.redis = keys ∧ Quiet roomId n w ∧ peerId ∈ w.redis.peers
  | .createTransport url .call =>
      w.redis = keys ∧ Quiet roomId n w ∧ w.redis.url = some url ∧
        peerId ∈ w.redis.peers
  | .createTransport url (.createWebRtcTransport r object _) =>
      w.redis = keys ∧ Quiet roomId n w ∧ w.redis.url = some url ∧
        (w.sfu url).rooms.lookup roomId = some r ∧
        ∃ peer, ((w.sfu url).room r).getPeer peerId = some peer ∧
          peer.object = object
  | .createTransport _ (.returned _) | .returned _ | .threw =>
      w.redis = keys ∧ Settled roomId (Replaced peerId direction) (n + 1) w
  | .createTransport _ .threw => False

variable {direction : TransportDirection}

theorem Quiet.lose (h : Quiet roomId n w) (hpeer : peerId ∉ w.redis.peers) :
    Settled roomId (Replaced peerId direction) n w :=
  { h with
    mirrors url hurl := by
      obtain ⟨r, hr, howned, hmembers, hkept, -⟩ := h.mirrors url hurl
      refine ⟨r, hr, howned, hmembers, fun p producerId _ => hkept p producerId id,
        fun p producerId hp => ?_⟩
      obtain ⟨rfl, -⟩ := hp
      have hnone : ((w.sfu url).room r).getPeer p = none :=
        Option.eq_none_iff_forall_not_mem.2 fun peer hp =>
          hpeer (hmembers p peer hp)
      rw [Sfu.State.openProducer, Sfu.State.producers, hnone]
      rfl }

theorem Quiet.getOrCreatePeer (h : Quiet roomId n w)
    (hurl : w.redis.url = some url) (hpeer : peerId ∈ w.redis.peers)
    {r : Nat ⊕ κ} (hr : (w.sfu url).rooms.lookup roomId = some r)
    (object : Nat ⊕ κ) :
    Quiet roomId n (w.setSfu url ((w.sfu url).setRoom r
      (((w.sfu url).room r).getOrCreatePeer peerId object).1)) := by
  obtain ⟨r', hr', howned, hmembers, hkept, -⟩ := h.mirrors url hurl
  obtain rfl : r' = r := Option.some.inj (hr'.symm.trans hr)
  refine h.setSfu hurl hr rfl rfl ⟨howned.getOrCreatePeer peerId object,
    fun p peer hp => ?_, fun p producerId _ => ?_, fun _ _ => False.elim⟩
  · rw [Sfu.State.room_setRoom, Sfu.MediaRoom.getPeer_getOrCreatePeer] at hp
    split at hp
    · next heq => rwa [heq]
    · exact hmembers p peer hp
  · rw [Sfu.State.openProducer_getOrCreatePeer]
    exact hkept p producerId id

theorem Quiet.assignTransport (h : Quiet roomId n w)
    (hurl : w.redis.url = some url) {r : Nat ⊕ κ}
    (hr : (w.sfu url).rooms.lookup roomId = some r)
    {peer : Sfu.MediaPeer (Nat ⊕ κ)}
    (hpeer : ((w.sfu url).room r).getPeer peerId = some peer) :
    Settled roomId (Replaced peerId direction) (n + 1) (w.setSfu url
      (Sfu.assignTransport (.inl n) peerId direction r peer.object
        ((w.sfu url).openTransport (.inl n) r)).1) := by
  obtain ⟨r', hr', howned, hmembers, hkept, -⟩ := h.mirrors url hurl
  obtain rfl : r' = r := Option.some.inj (hr'.symm.trans hr)
  have hnew : ¬ NamedBelow n (.inl n : Nat ⊕ κ) := not_namedBelow_self n
  have hframe := (Sfu.Frame.openTransport (w.sfu url) (.inl n) r').trans
    (.assignTransport (.inl n) peerId direction r' peer.object _)
  have hproducers := howned.openProducer_assignTransport hnew hpeer direction
  refine h.setSfu hurl hr hframe.rooms hframe.pendingRooms
    ⟨(howned.assignTransport hnew hpeer direction).mono
      fun _ => NamedBelow.succ_of_or, fun p peer' hp => ?_,
      fun p producerId hp => ?_, fun p producerId hp => ?_⟩
  · rw [Sfu.State.assignTransport_eq hpeer, Sfu.State.room_setRoom,
      Sfu.MediaRoom.getPeer_setPeer, Sfu.MediaPeer.id_setTransport,
      howned.keyed peerId peer hpeer] at hp
    split at hp
    · next heq => exact heq ▸ hmembers peerId peer hpeer
    · exact hmembers p peer' hp
  · exact (hproducers p producerId).trans ((if_neg hp).trans
      (hkept p producerId id))
  · exact (hproducers p producerId).trans (if_pos hp)

theorem CreateWebRtcTransport.outline_step {event : Event} {w' : World Nat κ}
    {point point' : CreateWebRtcTransport Nat κ} (hok : event.ok)
    (hs : point.step n roomId peerId direction event w = some (w', point'))
    (h : point.Outline roomId peerId direction n keys w) :
    point'.Outline roomId peerId direction n keys w' := by
  unfold step at hs
  split at hs
  · next ok =>
    obtain rfl : ok = true := hok
    obtain ⟨hkeys, hquiet⟩ := h
    simp only [Bool.true_and, Option.some.injEq, Prod.mk.injEq] at hs
    obtain ⟨rfl, rfl⟩ := hs
    split
    · next hpeer => exact ⟨hkeys, hquiet, AList.lookup_isSome.1 hpeer⟩
    · next hpeer =>
      exact ⟨hkeys, (hquiet.lose fun hmem =>
        hpeer (AList.lookup_isSome.2 hmem)).succ⟩
  · next ok =>
    obtain rfl : ok = true := hok
    obtain ⟨hkeys, hquiet, hpeer⟩ := h
    split at hs
    · next room hroom =>
      cases hs
      exact ⟨hkeys, hquiet, by simp [RoomKeys.url, hroom], hpeer⟩
    · next hroom => exact ((hquiet.vacant hroom).peers peerId hpeer).elim
  · next ok url request =>
    obtain rfl : ok = true := hok
    cases request with
    | call =>
        obtain ⟨hkeys, hquiet, hurl, hpeer⟩ := h
        obtain ⟨r, hr, -⟩ := hquiet.mirrors url hurl
        simp only [advancePost, if_true, Sfu.CreateTransport.step, hr,
          Option.map_some, Option.some.injEq, Prod.mk.injEq] at hs
        obtain ⟨rfl, rfl⟩ := hs
        refine ⟨hkeys, hquiet.getOrCreatePeer hurl hpeer hr (.inl n), hurl, ?_⟩
        rw [World.sfu_setSfu, if_pos rfl, Sfu.State.room_setRoom,
          Sfu.MediaRoom.getPeer_getOrCreatePeer, if_pos rfl]
        exact ⟨hr, _, rfl, rfl⟩
    | createWebRtcTransport r object peerExisted =>
        obtain ⟨hkeys, hquiet, hurl, hr, peer, hpeer, rfl⟩ := h
        simp only [advancePost, Sfu.CreateTransport.step, if_true,
          Option.map_eq_some_iff, Prod.mk.injEq] at hs
        obtain ⟨⟨node, request'⟩, hassign, rfl, rfl⟩ := hs
        split at hassign
        · have hsettled : Settled roomId (Replaced peerId direction) (n + 1) _ :=
            hquiet.assignTransport hurl hr hpeer
          rw [Sfu.State.assignTransport_eq hpeer] at hassign hsettled
          cases hassign
          exact ⟨hkeys, hsettled⟩
        · cases hassign
    | returned t =>
        cases hs
        exact h
    | threw => exact h.elim
  · cases hs

/-! ## `produce` -/

def Produce.Outline (roomId : RoomId) (peerId : PeerId) (kind : MediaKind)
    (n : Nat) (w : World Nat κ) : Produce Nat κ → Prop
  | .getPeer | .getRoom => Quiet roomId n w
  | .produce url .call => Quiet roomId n w ∧ w.redis.url = some url
  | .produce url (.transportProduce r object transport) =>
      Quiet roomId n w ∧ w.redis.url = some url ∧
        (w.sfu url).rooms.lookup roomId = some r ∧
        ∃ peer, ((w.sfu url).room r).getPeer peerId = some peer ∧
          peer.object = object ∧ peer.sendTransport = some transport
  | .produce _ (.tapProducer producer) | .produce _ (.returned producer)
  | .hset producer =>
      Quiet roomId (n + 1)
        (w.setRedis (w.redis.hsetProducer peerId producer kind))
  | .expire _ | .returned _ | .threw | .produce _ .threw => Quiet roomId (n + 1) w

variable {kind : MediaKind}

theorem Quiet.addProducer (h : Quiet roomId n w) (hurl : w.redis.url = some url)
    {r : Nat ⊕ κ} (hr : (w.sfu url).rooms.lookup roomId = some r)
    {peer : Sfu.MediaPeer (Nat ⊕ κ)}
    (hpeer : ((w.sfu url).room r).getPeer peerId = some peer) {t : Nat ⊕ κ}
    (hsend : peer.sendTransport = some t) (hopen : (w.sfu url).transportOpen t)
    (i : Nat ⊕ κ) :
    Quiet roomId n ((w.setRedis (w.redis.hsetProducer peerId i kind)).setSfu url
      ((w.sfu url).setRoom r (((w.sfu url).room r).setPeer
        (peer.addProducer i { kind := kind, transport := t })))) := by
  obtain ⟨r', hr', howned, hmembers, hkept, -⟩ := h.mirrors url hurl
  obtain rfl : r' = r := Option.some.inj (hr'.symm.trans hr)
  have hid : (peer.addProducer i { kind := kind, transport := t }).id = peerId :=
    howned.keyed peerId peer hpeer
  refine h.update hurl hr rfl h.keyed rfl rfl
    ⟨howned.addProducer hpeer i _ (howned.named peerId peer .send t hpeer hsend)
      fun _ => hsend, fun p peer' hp => ?_, fun p producerId _ => ?_,
      fun _ _ => False.elim⟩
  · rw [Sfu.State.room_setRoom, Sfu.MediaRoom.getPeer_setPeer, hid] at hp
    split at hp
    · next heq => exact heq ▸ hmembers peerId peer hpeer
    · exact hmembers p peer' hp
  · rw [howned.openProducer_addProducer hpeer, Sfu.State.producerOpen, if_pos hopen]
    by_cases hp : p = peerId
    · subst hp
      simp only [RoomKeys.hsetProducer, Function.update_self, true_and,
        Dict.lookup_insert_ite]
      split
      · rfl
      · exact hkept p producerId id
    · simpa [RoomKeys.hsetProducer, hp] using hkept p producerId id

theorem Produce.outline_step {transportId : Nat ⊕ κ} {event : Event}
    {w' : World Nat κ} {point point' : Produce Nat κ} (hok : event.ok)
    (hs : point.step n roomId peerId transportId kind event w = some (w', point'))
    (h : point.Outline roomId peerId kind n w) :
    point'.Outline roomId peerId kind n w' := by
  unfold step at hs
  split at hs
  · next ok =>
    simp only [Option.some.injEq, Prod.mk.injEq] at hs
    obtain ⟨rfl, rfl⟩ := hs
    split
    · exact h
    · exact Settled.succ h
  · next ok =>
    obtain rfl : ok = true := hok
    split at hs <;> cases hs
    · next room hroom => exact ⟨h, by simp [RoomKeys.url, hroom]⟩
    · exact Settled.succ h
  · next ok url request =>
    obtain rfl : ok = true := hok
    cases request with
    | call =>
        obtain ⟨hquiet, hurl⟩ := h
        obtain ⟨r, hr, -⟩ := hquiet.mirrors url hurl
        simp only [advancePost, if_true, Sfu.Produce.step, hr,
          Option.map_eq_some_iff, Prod.mk.injEq] at hs
        obtain ⟨⟨node, request'⟩, hcall, rfl, rfl⟩ := hs
        split at hcall
        · cases hcall
          rw [World.setSfu_self]
          exact hquiet.succ
        · next peer hpeer =>
          split at hcall <;> cases hcall <;> rw [World.setSfu_self]
          · next hsend => exact ⟨hquiet, hurl, hr, peer, hpeer, rfl, hsend⟩
          · exact hquiet.succ
    | transportProduce r object transport =>
        obtain ⟨hquiet, hurl, hr, peer, hpeer, rfl, hsend⟩ := h
        simp only [advancePost, Sfu.Produce.step, if_true,
          Sfu.State.updatePeer_eq hpeer, Option.map_eq_some_iff,
          Prod.mk.injEq] at hs
        obtain ⟨⟨node, request'⟩, hproduce, rfl, rfl⟩ := hs
        split at hproduce
        · next hopen =>
          have hadded : Quiet roomId (n + 1) ((w.setRedis
              (w.redis.hsetProducer peerId (.inl n) kind)).setSfu url _) :=
            (hquiet.addProducer hurl hr hpeer hsend hopen (.inl n)).succ
          cases hproduce
          unfold Sfu.afterProduce
          rw [show ((w.sfu url).setRoom r _).rooms = (w.sfu url).rooms from rfl, hr]
          simp only
          split <;> exact hadded
        · cases hproduce
    | tapProducer producer =>
        cases hs
        rw [World.setSfu_self]
        exact h
    | returned producer =>
        cases hs
        exact h
    | threw =>
        cases hs
        exact h
  · next ok producer =>
    obtain rfl : ok = true := hok
    cases hs
    exact h
  · next ok producer =>
    obtain rfl : ok = true := hok
    cases hs
    exact h
  · cases hs

/-! ## `pauseProducer` and `resumeProducer` -/

def SetPaused.Outline (roomId : RoomId) (peerId : PeerId) (n : Nat)
    (w : World Nat κ) : SetPaused Nat κ → Prop
  | .setPaused url .call => Quiet roomId n w ∧ w.redis.url = some url
  | .setPaused url (.producerSetPaused r object) =>
      Quiet roomId n w ∧ w.redis.url = some url ∧
        (w.sfu url).rooms.lookup roomId = some r ∧
        ∃ peer, ((w.sfu url).room r).getPeer peerId = some peer ∧
          peer.object = object
  | _ => Quiet roomId n w

theorem Quiet.setPaused (h : Quiet roomId n w) (hurl : w.redis.url = some url)
    {r : Nat ⊕ κ} (hr : (w.sfu url).rooms.lookup roomId = some r)
    {peer : Sfu.MediaPeer (Nat ⊕ κ)}
    (hpeer : ((w.sfu url).room r).getPeer peerId = some peer)
    (producerId : Nat ⊕ κ) (paused : Bool) :
    Quiet roomId n (w.setSfu url ((w.sfu url).setRoom r
      (((w.sfu url).room r).setPeer (peer.setPaused producerId paused)))) := by
  obtain ⟨r', hr', howned, hmembers, hkept, -⟩ := h.mirrors url hurl
  obtain rfl : r' = r := Option.some.inj (hr'.symm.trans hr)
  obtain ⟨hpaused, hproducers⟩ := howned.setPaused hpeer producerId paused
  have hid : (peer.setPaused producerId paused).id = peerId := by
    rw [← howned.keyed peerId peer hpeer, Sfu.MediaPeer.setPaused]
    split <;> rfl
  refine h.setSfu hurl hr rfl rfl ⟨hpaused, fun p peer' hp => ?_,
    fun p producerId' _ => ?_, fun _ _ => False.elim⟩
  · rw [Sfu.State.room_setRoom, Sfu.MediaRoom.getPeer_setPeer, hid] at hp
    split at hp
    · next heq => exact heq ▸ hmembers peerId peer hpeer
    · exact hmembers p peer' hp
  · rw [hproducers]
    exact hkept p producerId' id

theorem SetPaused.outline_step {producerId : Nat ⊕ κ} {paused : Bool}
    {event : Event} {w' : World Nat κ} {point point' : SetPaused Nat κ}
    (hok : event.ok)
    (hs : point.step roomId peerId producerId paused event w = some (w', point'))
    (h : point.Outline roomId peerId n w) : point'.Outline roomId peerId n w' := by
  unfold step at hs
  split at hs
  · next ok =>
    simp only [Option.some.injEq, Prod.mk.injEq] at hs
    obtain ⟨rfl, rfl⟩ := hs
    split <;> exact h
  · next ok =>
    obtain rfl : ok = true := hok
    split at hs <;> cases hs
    · next room hroom => exact ⟨h, by simp [RoomKeys.url, hroom]⟩
    · exact h
  · next ok url request =>
    obtain rfl : ok = true := hok
    cases request with
    | call =>
        obtain ⟨hquiet, hurl⟩ := h
        obtain ⟨r, hr, -⟩ := hquiet.mirrors url hurl
        simp only [advancePost, if_true, Sfu.SetPaused.step, hr,
          Option.map_eq_some_iff, Prod.mk.injEq] at hs
        obtain ⟨⟨node, request'⟩, hcall, rfl, rfl⟩ := hs
        split at hcall
        · cases hcall
          rw [World.setSfu_self]
          exact hquiet
        · next peer hpeer =>
          split at hcall <;> cases hcall <;> rw [World.setSfu_self]
          · exact ⟨hquiet, hurl, hr, peer, hpeer, rfl⟩
          · exact hquiet
    | producerSetPaused r object =>
        obtain ⟨hquiet, hurl, hr, peer, hpeer, rfl⟩ := h
        simp only [advancePost, Sfu.SetPaused.step, if_true,
          Sfu.State.updatePeer_eq hpeer, Option.map_some, Option.some.injEq,
          Prod.mk.injEq] at hs
        obtain ⟨rfl, rfl⟩ := hs
        exact hquiet.setPaused hurl hr hpeer producerId paused
    | returned =>
        cases hs
        exact h
    | threw =>
        cases hs
        exact h
  · cases hs

end MeetServer.Realtime
