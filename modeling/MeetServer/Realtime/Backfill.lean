import MeetServer.Realtime.MediaOutlines

/-!
# The backfill of `join`

A `join` tells the new peer which producers it has missed.  It reads them from
the producers hashes, and the node closes producers without Redis noticing when
a peer gets a second send transport.
-/

namespace MeetServer.Realtime

open MeetServer.Foundation

/-! ## Open producers -/

section OpenProducers

variable {ι κ : Type} [DecidableEq ι] [DecidableEq κ]

/-- The open producers of the MediaRoom `r`, with the peers they belong to. -/
def openProducersOf (node : Sfu.State (ι ⊕ κ)) (r : ι ⊕ κ) :
    List (ExistingProducer (ι ⊕ κ)) :=
  (node.room r).peers.entries.flatMap fun entry =>
    (entry.2.producers.entries.filter fun producer =>
      node.producerOpen producer.2).map fun producer =>
        { peerId := entry.1, producerId := producer.1, kind := producer.2.kind }

/-- The open producers of the MediaRoom on the room's node. -/
def World.openProducers (roomId : RoomId) (w : World ι κ) :
    List (ExistingProducer (ι ⊕ κ)) :=
  match w.redis.url with
  | none => []
  | some url =>
      match (w.sfu url).rooms.lookup roomId with
      | none => []
      | some r => openProducersOf (w.sfu url) r

theorem mem_openProducersOf {node : Sfu.State (ι ⊕ κ)} {r : ι ⊕ κ}
    {e : ExistingProducer (ι ⊕ κ)} : e ∈ openProducersOf node r ↔
      node.openProducer r e.peerId e.producerId = some e.kind := by
  obtain ⟨p, producerId, kind⟩ := e
  have hlookup (peer : Sfu.MediaPeer (ι ⊕ κ)) :
      ⟨p, peer⟩ ∈ (node.room r).peers.entries ↔
        (node.room r).getPeer p = some peer := Dict.mem_entries_iff
  simp only [openProducersOf, List.mem_flatMap, List.mem_map, List.mem_filter,
    Sfu.State.openProducer, Option.bind_eq_some_iff]
  constructor
  · rintro ⟨⟨_, peer⟩, hpeer, ⟨_, producer⟩, ⟨hproducer, hopen⟩, heq⟩
    cases heq
    refine ⟨producer, ?_, if_pos hopen⟩
    rw [Sfu.State.producers, (hlookup peer).1 hpeer]
    exact Dict.mem_entries_iff.1 hproducer
  · rintro ⟨producer, hproducer, hkind⟩
    simp only [Option.ite_none_right_eq_some, Option.some.injEq] at hkind
    obtain ⟨hopen, rfl⟩ := hkind
    unfold Sfu.State.producers at hproducer
    split at hproducer
    · cases hproducer
    · next peer hpeer =>
      exact ⟨⟨p, peer⟩, (hlookup peer).2 hpeer, ⟨producerId, producer⟩,
        ⟨Dict.mem_entries_iff.2 hproducer, hopen⟩, rfl⟩

omit [DecidableEq ι] [DecidableEq κ] in
theorem World.openProducers_eq {roomId : RoomId} {w : World ι κ} {url : Url}
    {r : ι ⊕ κ} (hurl : w.redis.url = some url)
    (hr : (w.sfu url).rooms.lookup roomId = some r) :
    w.openProducers roomId = openProducersOf (w.sfu url) r := by
  simp only [openProducers, hurl, hr]

theorem RoomKeys.mem_existingProducers {keys : RoomKeys (ι ⊕ κ)}
    (hkeyed : keys.Keyed) {peerId : PeerId} {e : ExistingProducer (ι ⊕ κ)} :
    e ∈ keys.existingProducers (keys.getOtherPeers peerId) ↔
      (keys.producers e.peerId).lookup e.producerId = some e.kind ∧
        e.peerId ∈ keys.peers ∧ e.peerId ≠ peerId := by
  obtain ⟨p, producerId, kind⟩ := e
  simp only [existingProducers, getOtherPeers, getProducers, List.mem_flatMap,
    List.mem_map, List.mem_filter, ne_eq, decide_eq_true_eq]
  constructor
  · rintro ⟨other, ⟨⟨q, other⟩, ⟨hother, hne⟩, rfl⟩, ⟨_, _⟩, hproducer, heq⟩
    have hlookup := Dict.mem_entries_iff.1 hother
    obtain rfl : other.id = q := hkeyed q other hlookup
    cases heq
    exact ⟨Dict.mem_entries_iff.1 hproducer,
      AList.lookup_isSome.1 (by simp [hlookup]), hne⟩
  · rintro ⟨hproducer, hmem, hne⟩
    obtain ⟨other, hother⟩ := Option.isSome_iff_exists.1 (AList.lookup_isSome.2 hmem)
    obtain rfl : other.id = p := hkeyed p other hother
    exact ⟨other, ⟨⟨other.id, other⟩, ⟨Dict.mem_entries_iff.2 hother, hne⟩, rfl⟩,
      ⟨producerId, kind⟩, Dict.mem_entries_iff.2 hproducer, rfl⟩

end OpenProducers

variable {κ : Type} [DecidableEq κ] {roomId : RoomId} {n : Nat} {w : World Nat κ}
  {keys : RoomKeys (Nat ⊕ κ)}

/-! ## One call of a session -/

def Call.request : Call Nat κ → Request
  | .join instanceId peer _ => .join instanceId peer
  | .leave peerId _ => .leave peerId
  | .createWebRtcTransport peerId direction _ =>
      .createWebRtcTransport peerId direction

def MediaCall.request : MediaCall κ → MediaRequest κ
  | .signaling call => .signaling call.request
  | .produce peerId transportId kind _ => .produce peerId transportId kind
  | .setPaused peerId producerId paused _ => .setPaused peerId producerId paused

/-- The peers whose producers the call closes on the node alone. -/
def MediaRequest.lost : MediaRequest κ → PeerId → Prop
  | .signaling (.createWebRtcTransport peerId direction) =>
      Replaced peerId direction
  | .signaling (.join _ _) | .signaling (.leave _) | .produce _ _ _
  | .setPaused _ _ _ => fun _ => False

/-- The peer that asks for a send transport. -/
def MediaRequest.sender : MediaRequest κ → Option PeerId
  | .signaling (.createWebRtcTransport peerId .send) => some peerId
  | .signaling (.createWebRtcTransport _ .recv) | .signaling (.join _ _)
  | .signaling (.leave _) | .produce _ _ _ | .setPaused _ _ _ => none

omit [DecidableEq κ] in
theorem MediaRequest.lost_iff {request : MediaRequest κ} {p : PeerId} :
    request.lost p ↔ request.sender = some p := by
  unfold lost sender Replaced
  split <;> grind

def MediaCall.Outline (roomId : RoomId) (n : Nat) (keys : RoomKeys (Nat ⊕ κ))
    (w : World Nat κ) : MediaCall κ → Prop
  | .signaling (.join instanceId peer point) =>
      point.Outline roomId instanceId peer n w
  | .signaling (.leave peerId point) => point.Outline roomId peerId n w
  | .signaling (.createWebRtcTransport peerId direction point) =>
      point.Outline roomId peerId direction n keys w
  | .produce peerId _ kind point => point.Outline roomId peerId kind n w
  | .setPaused peerId _ _ point => point.Outline roomId peerId n w

theorem MediaCall.outline_step {event : Event} {w' : World Nat κ}
    {call call' : MediaCall κ} (hok : event.ok)
    (hs : call.step roomId n event w = some (w', call'))
    (h : call.Outline roomId n keys w) :
    call'.request = call.request ∧ call'.Outline roomId n keys w' := by
  have hflag : event.ok = true := hok
  cases call with
  | signaling call =>
      cases call with
      | join instanceId peer point =>
          simp only [step, Call.step, Option.map_map, Option.map_eq_some_iff,
            Function.comp_apply, Prod.mk.injEq] at hs
          obtain ⟨⟨w', point'⟩, hpoint, rfl, rfl⟩ := hs
          have hpoint := Join.step_cases hpoint
          rw [hflag] at hpoint
          exact ⟨rfl, Join.outline_step hpoint h⟩
      | leave peerId point =>
          simp only [step, Call.step, Option.map_map, Option.map_eq_some_iff,
            Function.comp_apply, Prod.mk.injEq] at hs
          obtain ⟨⟨w', point'⟩, hpoint, rfl, rfl⟩ := hs
          have hpoint := Leave.step_cases hpoint
          rw [hflag] at hpoint
          exact ⟨rfl, Leave.outline_step hpoint h⟩
      | createWebRtcTransport peerId direction point =>
          simp only [step, Call.step, Option.map_map, Option.map_eq_some_iff,
            Function.comp_apply, Prod.mk.injEq] at hs
          obtain ⟨⟨w', point'⟩, hpoint, rfl, rfl⟩ := hs
          exact ⟨rfl, CreateWebRtcTransport.outline_step hok hpoint h⟩
  | produce peerId transportId kind point =>
      simp only [step, Option.map_eq_some_iff, Prod.mk.injEq] at hs
      obtain ⟨⟨w', point'⟩, hpoint, rfl, rfl⟩ := hs
      exact ⟨rfl, Produce.outline_step hok hpoint h⟩
  | setPaused peerId producerId paused point =>
      simp only [step, Option.map_eq_some_iff, Prod.mk.injEq] at hs
      obtain ⟨⟨w', point'⟩, hpoint, rfl, rfl⟩ := hs
      exact ⟨rfl, SetPaused.outline_step hok hpoint h⟩

theorem MediaRequest.outline_call (h : Quiet roomId n w)
    (request : MediaRequest κ) : request.call.request = request ∧
      request.call.Outline roomId n w.redis w := by
  cases request with
  | signaling request =>
      cases request with
      | join | leave => exact ⟨rfl, h⟩
      | createWebRtcTransport => exact ⟨rfl, rfl, h⟩
  | produce | setPaused => exact ⟨rfl, h⟩

/-- What a call that has ended leaves behind. -/
theorem MediaCall.settled_of_finished {call : MediaCall κ} (hdone : call.finished)
    (h : call.Outline roomId n keys w) :
    Settled roomId call.request.lost (n + 1) w := by
  cases call with
  | signaling call =>
      cases call with
      | join instanceId peer point =>
          cases point with
          | returned => exact h.1.succ
          | threw => exact Settled.succ h
          | _ => cases hdone
      | leave peerId point =>
          cases point with
          | returned => exact Settled.succ h
          | closed url close historyDeleted =>
              refine Settled.succ (h.1.quiet ?_)
              cases historyDeleted with
              | false => cases close <;> cases hdone
              | true =>
                  cases close with
                  | returned closed => exact h.2 closed (.inl rfl)
                  | threw => exact h.2 true (.inr rfl)
                  | call | stopRecording => cases hdone
          | threw => exact h.elim
          | sfuRemovePeer url processed => cases processed <;> cases hdone
          | _ => cases hdone
      | createWebRtcTransport peerId direction point =>
          cases point with
          | returned | threw => exact h.2
          | _ => cases hdone
  | produce peerId transportId kind point =>
      cases point with
      | returned | threw => exact h
      | _ => cases hdone
  | setPaused peerId producerId paused point =>
      cases point with
      | returned | threw => exact Settled.succ h
      | _ => cases hdone

theorem Session.serve_outline {s : Session κ} (h : Quiet roomId s.served s.world)
    {request : MediaRequest κ} {events : List Event} {call : MediaCall κ}
    (hs : s.serve roomId request events = some (w, call)) :
    call.finished ∧ call.request = request ∧
      call.Outline roomId s.served s.world.redis w := by
  obtain ⟨hdone, hreach⟩ := serve_eq_some hs
  refine ⟨hdone, hreach.invariant (I := fun p => p.2.request = request ∧
    p.2.Outline roomId s.served s.world.redis p.1) ?_ (request.outline_call h)⟩
  rintro ⟨w, call⟩ event ⟨w', call'⟩ ⟨hrequest, houtline⟩ hok hstep
  obtain ⟨hkept, hnext⟩ := MediaCall.outline_step hok hstep houtline
  exact ⟨hkept.trans hrequest, hnext⟩

/-! ## The next join -/

/-- Whoever joins next gets exactly the open producers of the other members. -/
def BackfillExact (roomId : RoomId) (s : Session κ) : Prop :=
  ∀ instanceId peer events w existingPeers existingProducers,
    s.serve roomId (.signaling (.join instanceId peer)) events =
      some (w, .signaling (.join instanceId peer
        (.returned existingPeers existingProducers))) →
    ∀ producer, producer ∈ existingProducers ↔
      producer ∈ w.openProducers roomId ∧ producer.peerId ∈ w.redis.peers ∧
        producer.peerId ≠ peer.id

/-- A peer asks for a send transport only while it has no open producer. -/
def OpensUnused (roomId : RoomId) (s : Session κ)
    (a : MediaRequest κ × List Event) : Prop :=
  ∀ peerId ∈ a.1.sender, ∀ producer ∈ s.world.openProducers roomId,
    producer.peerId ≠ peerId

theorem Quiet.mem_openProducers (h : Quiet roomId n w)
    {e : ExistingProducer (Nat ⊕ κ)} : e ∈ w.openProducers roomId ↔
      (w.redis.producers e.peerId).lookup e.producerId = some e.kind := by
  cases hurl : w.redis.url with
  | none =>
      have hroom : w.redis.room = none := by simpa [RoomKeys.url] using hurl
      simp [World.openProducers, hurl, (h.vacant hroom).producers]
  | some url =>
      obtain ⟨r, hr, -, -, hkept, -⟩ := h.mirrors url hurl
      rw [World.openProducers_eq hurl hr, mem_openProducersOf, hkept _ _ id]

/-- An open producer belongs to a member of a recorded room. -/
theorem Quiet.member_of_mem_openProducers (h : Quiet roomId n w)
    {e : ExistingProducer (Nat ⊕ κ)} (he : e ∈ w.openProducers roomId) :
    (∃ url, w.redis.url = some url) ∧ e.peerId ∈ w.redis.peers := by
  cases hurl : w.redis.url with
  | none =>
      rw [World.openProducers, hurl] at he
      cases he
  | some url =>
      obtain ⟨r, hr, -, hmembers, -, -⟩ := h.mirrors url hurl
      rw [World.openProducers_eq hurl hr, mem_openProducersOf,
        Sfu.State.openProducer, Sfu.State.producers] at he
      refine ⟨⟨url, rfl⟩, ?_⟩
      split at he
      · cases he
      · next peer hpeer => exact hmembers e.peerId peer hpeer

theorem Quiet.backfillExact {s : Session κ} (h : Quiet roomId s.served s.world) :
    BackfillExact roomId s := by
  intro instanceId peer events w existingPeers existingProducers hserve producer
  obtain ⟨-, -, hquiet, rfl, rfl⟩ := Session.serve_outline h hserve
  rw [RoomKeys.mem_existingProducers hquiet.keyed, hquiet.mem_openProducers]

theorem Settled.quiet {lost : PeerId → Prop} (h : Settled roomId lost n w)
    (hnone : ∀ p, lost p → w.redis.producers p = ∅) : Quiet roomId n w :=
  { h with
    mirrors url hurl := by
      obtain ⟨r, hr, howned, hmembers, hkept, hlost⟩ := h.mirrors url hurl
      refine ⟨r, hr, howned, hmembers, fun p producerId _ => ?_,
        fun _ _ => False.elim⟩
      by_cases hp : lost p
      · rw [hlost p producerId hp, hnone p hp]
        rfl
      · exact hkept p producerId hp }

theorem OpensUnused.producers_eq_empty {s : Session κ}
    {a : MediaRequest κ × List Event} (h : OpensUnused roomId s a)
    (hquiet : Quiet roomId s.served s.world) {p : PeerId} (hp : a.1.lost p) :
    s.world.redis.producers p = ∅ := by
  refine AList.ext (List.eq_nil_iff_forall_not_mem.2 fun entry hentry => ?_)
  exact h p (MediaRequest.lost_iff.1 hp) ⟨p, entry.1, entry.2⟩
    (hquiet.mem_openProducers.2 (Dict.mem_entries_iff.1 hentry)) rfl

theorem MediaCall.redis_of_lost {call : MediaCall κ} (hdone : call.finished)
    (h : call.Outline roomId n keys w) {p : PeerId} (hp : call.request.lost p) :
    w.redis = keys := by
  cases call with
  | signaling call =>
      cases call with
      | join | leave => exact hp.elim
      | createWebRtcTransport peerId direction point =>
          cases point with
          | returned | threw => exact h.1
          | _ => cases hdone
  | produce | setPaused => exact hp.elim

theorem quiet_preserves : (sessions (κ := κ) roomId).Preserves (OpensUnused roomId)
    fun s => Quiet roomId s.served s.world := by
  rintro s ⟨request, events⟩ s' h hC hstep
  simp only [sessions, Option.map_eq_some_iff] at hstep
  obtain ⟨⟨w, call⟩, hserve, rfl⟩ := hstep
  obtain ⟨hdone, rfl, houtline⟩ := Session.serve_outline h hserve
  have hsettled := MediaCall.settled_of_finished hdone houtline
  refine hsettled.quiet fun p hp => ?_
  rw [MediaCall.redis_of_lost hdone houtline hp]
  exact hC.producers_eq_empty h hp

/-! ## A second send transport -/

/-- The call runs on its own without a failure. -/
abbrev RunsTo (roomId : RoomId) (n : Nat) :
    World Nat κ × MediaCall κ → World Nat κ × MediaCall κ → Prop :=
  (alone (MediaCall.step roomId n)).ReachableWhen fun _ event => event.ok

theorem Session.exists_serve {s : Session κ} {request : MediaRequest κ}
    {call : MediaCall κ}
    (h : RunsTo roomId s.served (s.world, request.call) (w, call))
    (hdone : call.finished) :
    ∃ events, s.serve roomId request events = some (w, call) := by
  obtain ⟨events, hok, hrun⟩ := h.exists_run
  refine ⟨events, ?_⟩
  have hall : events.all Event.ok = true := List.all_eq_true.2 hok
  simp only [serve, hrun, hall, hdone, Bool.and_self, if_true]

variable {instanceId : Instance} {peer : Peer}

theorem runsTo_fetched (otherPeers todo : List Peer)
    (found : List (ExistingProducer (Nat ⊕ κ))) :
    RunsTo roomId n
      (w, .signaling (.join instanceId peer (Join.nextProducers otherPeers todo found)))
      (w, .signaling (.join instanceId peer
        (.returned otherPeers (found ++ w.redis.existingProducers todo)))) := by
  induction todo generalizing found with
  | nil =>
      rw [RoomKeys.existingProducers, List.flatMap_nil, List.append_nil]
      exact .start
  | cons other todo ih =>
      have hcons : w.redis.existingProducers (other :: todo) =
          w.redis.getProducers other.id ++ w.redis.existingProducers todo :=
        List.flatMap_cons
      rw [hcons, ← List.append_assoc]
      have hfirst : RunsTo roomId n
          (w, .signaling (.join instanceId peer
            (Join.nextProducers otherPeers (other :: todo) found)))
          (w, .signaling (.join instanceId peer (Join.nextProducers otherPeers todo
            (found ++ w.redis.getProducers other.id)))) :=
        .step (a := .settle true) .start rfl rfl
      exact hfirst.trans (ih (found ++ w.redis.getProducers other.id))

theorem runsTo_joined {room : Room} (hroom : w.redis.room = some room) :
    RunsTo roomId n
      (w, .signaling (.join instanceId peer (.getOrCreateRoom .getRoom)))
      (w.setRedis (w.redis.hset peer), .signaling (.join instanceId peer
        (.returned ((w.redis.hset peer).getOtherPeers peer.id)
          ((w.redis.hset peer).existingProducers
            ((w.redis.hset peer).getOtherPeers peer.id))))) := by
  have hfound : RunsTo roomId n
      (w, .signaling (.join instanceId peer (.getOrCreateRoom .getRoom)))
      (w, .signaling (.join instanceId peer (.getOrCreateRoom (.expire room)))) := by
    refine .step .start (a := .settle true) rfl ?_
    simp [alone, MediaCall.step, Call.step, Join.step, GetOrCreateRoom.step,
      GetOrCreateRoom.settle, GetOrCreateRoom.afterGetRoom, hroom,
      Join.afterGetOrCreateRoom]
  have hadded : RunsTo roomId n
      (w, .signaling (.join instanceId peer (.getOrCreateRoom (.expire room))))
      (w.setRedis (w.redis.hset peer),
        .signaling (.join instanceId peer .getOtherPeers)) :=
    .step (a := .settle true) (.step (a := .settle true)
      (.step (a := .settle true) .start rfl rfl) rfl rfl) rfl rfl
  have hlisted : RunsTo roomId n
      (w.setRedis (w.redis.hset peer),
        .signaling (.join instanceId peer .getOtherPeers))
      (w.setRedis (w.redis.hset peer), .signaling (.join instanceId peer
        (Join.nextProducers ((w.redis.hset peer).getOtherPeers peer.id)
          ((w.redis.hset peer).getOtherPeers peer.id) []))) :=
    .step (a := .settle true) .start rfl rfl
  exact ((hfound.trans hadded).trans hlisted).trans (runsTo_fetched _ _ [])

/-- A producer that is open on neither side any more but still in its hash. -/
theorem Settled.not_backfillExact {s : Session κ} {lost : PeerId → Prop}
    (h : Settled roomId lost n s.world) {url : Url}
    (hurl : s.world.redis.url = some url) {p : PeerId} (hlost : lost p)
    (hmem : p ∈ s.world.redis.peers) {producerId : Nat ⊕ κ} {kind : MediaKind}
    (hproducer : (s.world.redis.producers p).lookup producerId = some kind) :
    ¬ BackfillExact roomId s := by
  obtain ⟨room, hroom, -⟩ := Option.map_eq_some_iff.1 hurl
  obtain ⟨q, hq⟩ := exists_ne p
  have hjoined : RunsTo roomId s.served
      (s.world, (MediaRequest.signaling (.join 0 ⟨q, ""⟩)).call) _ :=
    runsTo_joined hroom
  obtain ⟨events, hserve⟩ := Session.exists_serve hjoined rfl
  intro hexact
  have hlisted := ((hexact 0 ⟨q, ""⟩ events _ _ _ hserve ⟨p, producerId, kind⟩).1
    ((RoomKeys.mem_existingProducers (h.keyed.hset _)).2
      ⟨hproducer, (AList.mem_insert _).2 (.inr hmem), hq.symm⟩)).1
  obtain ⟨r, hr, hmirrors⟩ := h.mirrors url hurl
  have hnode : (s.world.setRedis (s.world.redis.hset ⟨q, ""⟩)).openProducers roomId =
      openProducersOf (s.world.sfu url) r := World.openProducers_eq hurl hr
  rw [hnode, mem_openProducersOf, hmirrors.lost p producerId hlost] at hlisted
  cases hlisted

/-- A send transport for a peer with an open producer spoils the next backfill. -/
theorem not_backfillExact_next {s s' : Session κ} {a : MediaRequest κ × List Event}
    (h : Quiet roomId s.served s.world) (hC : ¬ OpensUnused roomId s a)
    (hstep : (sessions roomId).step s a = some s') : ¬ BackfillExact roomId s' := by
  obtain ⟨request, events⟩ := a
  simp only [OpensUnused, not_forall, not_not] at hC
  obtain ⟨_, hsender, ⟨p, producerId, kind⟩, hopen, rfl⟩ := hC
  simp only [sessions, Option.map_eq_some_iff] at hstep
  obtain ⟨⟨w, call⟩, hserve, rfl⟩ := hstep
  obtain ⟨hdone, hrequest, houtline⟩ := Session.serve_outline h hserve
  have hlost : call.request.lost p := by
    rw [hrequest]
    exact MediaRequest.lost_iff.2 hsender
  have hsettled := MediaCall.settled_of_finished hdone houtline
  have hproducer := h.mem_openProducers.1 hopen
  obtain ⟨⟨url, hurl⟩, hmem⟩ := h.member_of_mem_openProducers hopen
  rw [← MediaCall.redis_of_lost hdone houtline hlost] at hurl hmem hproducer
  exact hsettled.not_backfillExact hurl hlost hmem hproducer

/-! ## Whole sessions -/

theorem Quiet.fresh {serviceUrls : List Url} {sfu : Url → Sfu.State (Nat ⊕ κ)}
    (hmediaRoom : ∀ url, (sfu url).rooms.lookup roomId = none)
    (hpending : ∀ url, (sfu url).pendingRooms roomId = none) :
    Quiet roomId 0 (.fresh serviceUrls sfu) where
  pendingRooms _ := rfl
  sfuPending := hpending
  keyed := nofun
  vacant _ := ⟨rfl, nofun, fun _ => rfl⟩
  elsewhere url _ := hmediaRoom url
  mirrors := nofun

/-- In a run of calls, one after the other and without failures, every next join
gets exactly the open producers as long as no peer with an open producer asks
for another send transport. -/
theorem holds_backfillExact_iff {serviceUrls : List Url}
    {sfu : Url → Sfu.State (Nat ⊕ κ)}
    (hmediaRoom : ∀ url, (sfu url).rooms.lookup roomId = none)
    (hpending : ∀ url, (sfu url).pendingRooms roomId = none)
    (calls : List (MediaRequest κ × List Event)) :
    (sessions roomId).Holds (BackfillExact roomId)
        { world := .fresh serviceUrls sfu, served := 0 } calls ↔
      (sessions roomId).Meets (OpensUnused roomId)
        { world := .fresh serviceUrls sfu, served := 0 } calls :=
  System.holds_iff_meets quiet_preserves (fun _ => Quiet.backfillExact)
    (fun _ _ _ => not_backfillExact_next) (Quiet.fresh hmediaRoom hpending) calls

instance (s : Session κ) (a : MediaRequest κ × List Event) :
    Decidable (OpensUnused roomId s a) :=
  decidable_of_iff (∀ peerId ∈ a.1.sender,
    ∀ producer ∈ s.world.openProducers roomId, producer.peerId ≠ peerId) Iff.rfl

/-! One member produces; another one joins. -/

def unservedRoom : Session Empty where
  world := .fresh ["n"] fun _ => .spawned [0]
  served := 0

def settled (n : Nat) : List Event :=
  List.replicate n (.settle true)

/-- The room is created, the peer gets a send transport, and it produces. -/
def produced : List (MediaRequest Empty × List Event) :=
  [(.signaling (.join 0 ⟨"a", "Ann"⟩), settled 1 ++ .stats 0 true :: settled 7),
    (.signaling (.createWebRtcTransport "a" .send), settled 5),
    (.produce "a" (.inl 1) .audio, settled 7)]

def otherJoins : MediaRequest Empty × List Event :=
  (.signaling (.join 0 ⟨"b", "Bob"⟩), settled 6)

/-- The producer is paused, the other one joins, and the first one leaves. -/
theorem holds_backfillExact_paused :
    (sessions "r").Holds (BackfillExact "r") unservedRoom
      (produced ++ [(.setPaused "a" (.inl 2) true, settled 5), otherJoins,
        (.signaling (.createWebRtcTransport "a" .recv), settled 5),
        (.signaling (.leave "a"), settled 6)]) :=
  (holds_backfillExact_iff (fun _ => rfl) (fun _ => rfl) _).2 (by decide)

set_option maxRecDepth 2000 in
/-- The peer asks for a second send transport. -/
theorem not_backfillExact_secondTransport :
    ¬ BackfillExact "r" ((sessions "r").run unservedRoom
      (produced ++ [(.signaling (.createWebRtcTransport "a" .send), settled 5)])) := by
  intro h
  have hlisted := (h 0 ⟨"b", "Bob"⟩ (settled 6) _ _ _ rfl ⟨"a", .inl 2, .audio⟩).1
    (by decide)
  revert hlisted
  decide

end MeetServer.Realtime
