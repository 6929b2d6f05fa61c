import MeetServer.Realtime.Broadcasts
import MeetServer.Realtime.PeersHash
import MeetServer.Realtime.Session

/-!
# What a joiner is told

The `join` handlers of two sockets of one room, and the transports and producers
that the second socket asks for, in any interleaving.  A joiner reads the room
first and is subscribed to its channel last; what is announced in between is
found in Redis or missed.
-/

namespace MeetServer.Realtime

open MeetServer.Foundation

/-- The calls, which also name what they create. -/
inductive Task (ι : Type) where
  | joinA
  | joinB
  | ask (i : ι)
  deriving DecidableEq

inductive Ask (Ref : Type) where
  | createWebRtcTransport (direction : TransportDirection)
  | produce (transportId : Ref) (kind : MediaKind)
  deriving DecidableEq

/-- What the handlers of all sockets share. -/
structure Sockets (ι κ : Type) where
  world : World ι κ
  hub : Hub PeerId RoomId (RoomEvent (ι ⊕ κ))
  data : PeerId → SocketData

variable {ι κ : Type}

/-! ## The handlers -/

inductive JoinHandler (ι κ : Type) where
  | service (point : Join ι κ)
  | clientJoin (existingPeers : List Peer)
      (existingProducers : List (ExistingProducer (ι ⊕ κ)))
  | returned (existingPeers : List Peer)
  | threw
  deriving DecidableEq

namespace JoinHandler

def afterService (roomId : RoomId) (peer : Peer) (s : Sockets ι κ) :
    World ι κ × Join ι κ → Sockets ι κ × JoinHandler ι κ
  | (w, .returned existingPeers existingProducers) =>
      ({ s with
          world := w
          data := Function.update s.data peer.id
            { roomId := some roomId, peerId := some peer.id } },
        .clientJoin existingPeers existingProducers)
  | (w, .threw) => ({ s with world := w }, .threw)
  | (w, point) => ({ s with world := w }, .service point)

/-- `client.join`, `newPeer` to the room and `newProducer` to the client. -/
def subscribe (roomId : RoomId) (peer : Peer)
    (existingProducers : List (ExistingProducer (ι ⊕ κ))) (s : Sockets ι κ) :
    Sockets ι κ :=
  { s with
    hub := ((s.hub.join peer.id roomId).emit roomId (.newPeer peer)
      (some peer.id)).send peer.id (existingProducers.map .newProducer) }

variable [DecidableEq ι] [DecidableEq κ]

def step (i : ι) (instanceId : Instance) (roomId : RoomId) (peer : Peer)
    (event : Event) (s : Sockets ι κ) (handler : JoinHandler ι κ) :
    Option (Sockets ι κ × JoinHandler ι κ) :=
  match handler, event with
  | .service point, event =>
      (point.step i instanceId roomId peer event s.world).map
        (afterService roomId peer s)
  | .clientJoin existingPeers existingProducers, .settle _ =>
      some (subscribe roomId peer existingProducers s, .returned existingPeers)
  | _, _ => none

end JoinHandler

inductive AskHandler (ι κ : Type) where
  | call
  | createWebRtcTransport (context : SocketContext)
      (point : CreateWebRtcTransport ι κ)
  | produce (context : SocketContext) (point : Produce ι κ)
  | produced (producer : ι ⊕ κ)
  | threw
  deriving DecidableEq

namespace AskHandler

def start (ask : Ask (ι ⊕ κ)) (context : SocketContext) : AskHandler ι κ :=
  match ask with
  | .createWebRtcTransport _ => .createWebRtcTransport context .getPeer
  | .produce _ _ => .produce context .getPeer

/-- `newProducer` to the room once `SignalingService.produce` has returned. -/
def afterProduce (p : PeerId) (kind : MediaKind) (context : SocketContext)
    (s : Sockets ι κ) : World ι κ × Produce ι κ → Sockets ι κ × AskHandler ι κ
  | (w, .returned producer) =>
      ({ s with
          world := w
          hub := s.hub.emit context.roomId
            (.newProducer {
              peerId := context.peerId, producerId := producer, kind })
            (some p) },
        .produced producer)
  | (w, .threw) => ({ s with world := w }, .threw)
  | (w, point) => ({ s with world := w }, .produce context point)

variable [DecidableEq ι] [DecidableEq κ]

def step (i : ι) (p : PeerId) (ask : Ask (ι ⊕ κ)) (event : Event)
    (s : Sockets ι κ) (handler : AskHandler ι κ) :
    Option (Sockets ι κ × AskHandler ι κ) :=
  match handler, ask, event with
  | .call, ask, .settle _ =>
      match extractSocketContext (s.data p) with
      | none => some (s, .threw)
      | some context => some (s, start ask context)
  | .createWebRtcTransport context point, .createWebRtcTransport direction,
      event =>
      (point.step i context.roomId context.peerId direction event s.world).map
        fun r => ({ s with world := r.1 }, .createWebRtcTransport context r.2)
  | .produce context point, .produce transportId kind, event =>
      (point.step i context.roomId context.peerId transportId kind event
        s.world).map (afterProduce p kind context s)
  | _, _, _ => none

end AskHandler

/-! ## The two sockets -/

structure Parties (ι κ : Type) where
  roomId : RoomId
  a : Peer
  b : Peer
  distinct : a.id ≠ b.id
  instanceA : Instance
  instanceB : Instance
  /-- What `b` asks for. -/
  ask : ι → Ask (Task ι ⊕ κ)

structure Encounter (ι κ : Type) where
  sockets : Sockets (Task ι) κ
  joinA : JoinHandler (Task ι) κ
  joinB : JoinHandler (Task ι) κ
  asks : ι → AskHandler (Task ι) κ

inductive Happening (ι : Type) where
  | advance (task : Task ι) (event : Event)
  /-- The `k`th broadcast arrives at a socket. -/
  | arrive (k : Nat) (p : PeerId)
  deriving DecidableEq

variable [DecidableEq ι] [DecidableEq κ]

def Encounter.step (P : Parties ι κ) (s : Encounter ι κ) :
    Happening ι → Option (Encounter ι κ)
  | .advance .joinA event =>
      (s.joinA.step .joinA P.instanceA P.roomId P.a event s.sockets).map
        fun r => { s with sockets := r.1, joinA := r.2 }
  | .advance .joinB event =>
      (s.joinB.step .joinB P.instanceB P.roomId P.b event s.sockets).map
        fun r => { s with sockets := r.1, joinB := r.2 }
  | .advance (.ask i) event =>
      ((s.asks i).step (.ask i) P.b.id (P.ask i) event s.sockets).map
        fun r => { s with sockets := r.1, asks := Function.update s.asks i r.2 }
  | .arrive k p =>
      (s.sockets.hub.arrive k p).map fun hub =>
        { s with sockets := { s.sockets with hub := hub } }

def encounter (P : Parties ι κ) : System (Encounter ι κ) (Happening ι) where
  step := Encounter.step P

/-- Both sockets have connected, and nothing has been handled. -/
def Encounter.connected (P : Parties ι κ) (w : World (Task ι) κ) :
    Encounter ι κ where
  sockets := {
    world := w
    hub := (({} : Hub _ _ _).connect P.a.id P.a.id).connect P.b.id P.b.id
    data := fun _ => {} }
  joinA := .service (.getOrCreateRoom .getRoom)
  joinB := .service (.getOrCreateRoom .getRoom)
  asks _ := .call

/-! ## Being told -/

/-- That a peer is there, or one of its producers. -/
inductive News (Ref : Type) where
  | peer (peerId : PeerId)
  | producer (peerId : PeerId) (producerId : Ref)
  deriving DecidableEq

def RoomEvent.news {Ref : Type} : RoomEvent Ref → Option (News Ref)
  | .newPeer peer => some (.peer peer.id)
  | .newProducer producer => some (.producer producer.peerId producer.producerId)
  | _ => none

/-- The answer of `join` contains the news. -/
def News.foundIn {Ref : Type} [DecidableEq Ref] (existingPeers : List Peer)
    (existingProducers : List (ExistingProducer Ref)) : News Ref → Bool
  | .peer p => existingPeers.any fun peer => peer.id = p
  | .producer p x =>
      existingProducers.any fun producer =>
        producer.peerId = p ∧ producer.producerId = x

/-- Once `a` has joined and everything sent has arrived, it knows of `b`, if `b`
has joined, and of every producer that `b` has been given. -/
def JoinerTold (P : Parties ι κ) (s : Encounter ι κ) : Prop :=
  ∀ existingPeers, s.joinA = .returned existingPeers →
    (∀ b ∈ s.sockets.hub.inFlight, P.a.id ∈ b.arrived) →
    ((∃ others, s.joinB = .returned others) →
      P.b.id ∈ existingPeers.map Peer.id ∨
        ∃ e ∈ s.sockets.hub.received P.a.id, e.news = some (.peer P.b.id)) ∧
    ∀ i x, s.asks i = .produced x →
      ∃ e ∈ s.sockets.hub.received P.a.id, e.news = some (.producer P.b.id x)

/-- The news has been found, or the handler is still going to look for it. -/
def Join.covers (news : News (ι ⊕ κ)) : Join ι κ → Bool
  | .getProducers otherPeers todo found =>
      news.foundIn otherPeers found ||
        match news with
        | .peer _ => false
        | .producer p _ => todo.any fun peer => peer.id = p
  | .returned otherPeers found => news.foundIn otherPeers found
  | _ => true

def JoinHandler.covers (news : News (ι ⊕ κ)) : JoinHandler ι κ → Bool
  | .service point => point.covers news
  | .clientJoin existingPeers existingProducers =>
      news.foundIn existingPeers existingProducers
  | .returned existingPeers => news.foundIn existingPeers []
  | .threw => true

/-- What arrives at `a` arrives after `client.join`, or `a` has found it in
Redis, or is still going to look there. -/
def ArrivesInTime (P : Parties ι κ) (s : Encounter ι κ) : Happening ι → Prop
  | .advance _ _ => True
  | .arrive k p => p = P.a.id → ∀ b ∈ s.sockets.hub.inFlight[k]?,
      ∀ news ∈ b.message.news,
        b.channel ∈ s.sockets.hub.channels p ∨ s.joinA.covers news

/-! ## A reader finds what Redis has -/

namespace News

variable {Ref : Type}

def peerId : News Ref → PeerId
  | .peer p | .producer p _ => p

def recorded (keys : RoomKeys Ref) : News Ref → Prop
  | .peer p => ∃ peer, keys.peers.lookup p = some peer ∧ peer.id = p
  | .producer p x =>
      (∃ peer, keys.peers.lookup p = some peer ∧ peer.id = p) ∧
        x ∈ keys.producers p

variable [DecidableEq Ref] {existingPeers : List Peer}
  {existingProducers others : List (ExistingProducer Ref)} {news : News Ref}

theorem foundIn_append (h : news.foundIn existingPeers existingProducers) :
    news.foundIn existingPeers (existingProducers ++ others) := by
  cases news with
  | peer p => exact h
  | producer p x =>
      simp only [foundIn, List.any_append, Bool.or_eq_true] at h ⊢
      exact .inl h

omit [DecidableEq Ref] in
theorem mem_getOtherPeers {keys : RoomKeys Ref} {p q : PeerId} (hne : p ≠ q)
    (h : ∃ peer, keys.peers.lookup p = some peer ∧ peer.id = p) :
    (keys.getOtherPeers q).any fun peer => peer.id = p := by
  obtain ⟨peer, hpeer, hid⟩ := h
  refine List.any_eq_true.2 ⟨peer, ?_, by simpa using hid⟩
  refine List.mem_map.2 ⟨⟨p, peer⟩, List.mem_filter.2 ⟨?_, by simpa using hne⟩, rfl⟩
  exact Dict.mem_entries_iff.2 hpeer

theorem mem_getProducers {keys : RoomKeys Ref} {p : PeerId} {x : Ref}
    (h : x ∈ keys.producers p) :
    (keys.getProducers p).any fun producer =>
      producer.peerId = p ∧ producer.producerId = x := by
  obtain ⟨kind, hkind⟩ := Option.isSome_iff_exists.1 (AList.lookup_isSome.2 h)
  refine List.any_eq_true.2 ⟨⟨p, x, kind⟩, ?_, by simp⟩
  exact List.mem_map.2 ⟨⟨x, kind⟩, Dict.mem_entries_iff.2 hkind, rfl⟩

end News

variable {news : News (ι ⊕ κ)} {P : Parties ι κ} {s s' : Encounter ι κ}

theorem Join.covers_nextProducers (otherPeers todo : List Peer)
    (found : List (ExistingProducer (ι ⊕ κ))) :
    (nextProducers otherPeers todo found).covers news =
      (Join.getProducers otherPeers todo found : Join ι κ).covers news := by
  cases todo with
  | nil => cases news <;> simp [nextProducers, covers]
  | cons => rfl

theorem Join.Step.covers {i : ι} {instanceId : Instance} {roomId : RoomId}
    {peer : Peer} {ok : Bool} {w w' : World ι κ} {point point' : Join ι κ}
    (hs : Join.Step i instanceId roomId peer w ok point w' point')
    (hne : news.peerId ≠ peer.id) (hrecorded : news.recorded w.redis)
    (hc : point.covers news) : point'.covers news := by
  cases hs with
  | @room _ _ point' => cases point' <;> rfl
  | listed =>
      rw [covers_nextProducers]
      cases news with
      | peer p =>
          have hfound := News.mem_getOtherPeers hne hrecorded
          exact Bool.or_eq_true_iff.2 (.inl hfound)
      | producer p x =>
          have htodo := News.mem_getOtherPeers hne hrecorded.1
          rw [Join.covers, Bool.or_eq_true_iff]
          exact .inr htodo
  | @fetched otherPeers todo otherPeer found =>
      rw [covers_nextProducers]
      cases news with
      | peer p => exact hc
      | producer p x =>
          simp only [Join.covers, Bool.or_eq_true, List.any_cons] at hc ⊢
          rcases hc with hfound | hhead | htodo
          · exact .inl (News.foundIn_append hfound)
          · have hx := News.mem_getProducers hrecorded.2
            rw [of_decide_eq_true hhead]
            refine .inl ?_
            simp only [News.foundIn, List.any_append, Bool.or_eq_true]
            exact .inr hx
          · exact .inr htodo
  | _ => rfl

theorem Join.Step.others {i : ι} {instanceId : Instance} {roomId : RoomId}
    {peer : Peer} {ok : Bool} {w w' : World ι κ} {point point' : Join ι κ}
    (hs : Join.Step i instanceId roomId peer w ok point w' point') {p : PeerId}
    (hne : p ≠ peer.id) :
    w'.redis.peers.lookup p = w.redis.peers.lookup p ∧
      w'.redis.producers p = w.redis.producers p := by
  cases hs with
  | room hroom => cases hroom <;> exact ⟨rfl, rfl⟩
  | added => exact ⟨AList.lookup_insert_ne hne, rfl⟩
  | removed => exact ⟨AList.lookup_erase_ne hne, rfl⟩
  | cleared => exact ⟨rfl, Function.update_of_ne hne _ _⟩
  | _ => exact ⟨rfl, rfl⟩

theorem Join.Step.entry {i : ι} {instanceId : Instance} {roomId : RoomId}
    {peer : Peer} {ok : Bool} {w w' : World ι κ} {point point' : Join ι κ}
    (hs : Join.Step i instanceId roomId peer w ok point w' point')
    (h : point.added → w.redis.peers.lookup peer.id = some peer)
    (hadded : point'.added) : w'.redis.peers.lookup peer.id = some peer := by
  cases hs with
  | @room _ _ point' => cases point' <;> cases hadded
  | added => exact AList.lookup_insert _
  | refreshed | listed | fetched => exact h rfl
  | _ => cases hadded

/-! ## Steps of the handlers -/

namespace JoinHandler

/-- The peer has been added. -/
def added : JoinHandler ι κ → Bool
  | .service point => point.added
  | .clientJoin _ _ | .returned _ => true
  | .threw => false

/-- `client.data` has been filled in. -/
def joined : JoinHandler ι κ → Bool
  | .clientJoin _ _ | .returned _ => true
  | .service _ | .threw => false

inductive Step (i : ι) (instanceId : Instance) (roomId : RoomId) (peer : Peer)
    (s : Sockets ι κ) : JoinHandler ι κ → Sockets ι κ → JoinHandler ι κ → Prop
  | service {point point' : Join ι κ} {ok : Bool} {w' : World ι κ} :
      Join.Step i instanceId roomId peer s.world ok point w' point' →
      (∀ others found, point' ≠ .returned others found) → point' ≠ .threw →
      Step i instanceId roomId peer s (.service point) { s with world := w' }
        (.service point')
  | joined {point : Join ι κ} {ok : Bool} {w' : World ι κ} {others : List Peer}
      {found : List (ExistingProducer (ι ⊕ κ))} :
      Join.Step i instanceId roomId peer s.world ok point w'
        (.returned others found) →
      Step i instanceId roomId peer s (.service point)
        { s with
          world := w'
          data := Function.update s.data peer.id
            { roomId := some roomId, peerId := some peer.id } }
        (.clientJoin others found)
  | threw {point : Join ι κ} {ok : Bool} {w' : World ι κ} :
      Join.Step i instanceId roomId peer s.world ok point w' .threw →
      Step i instanceId roomId peer s (.service point) { s with world := w' }
        .threw
  | subscribed {others : List Peer}
      {found : List (ExistingProducer (ι ⊕ κ))} :
      Step i instanceId roomId peer s (.clientJoin others found)
        (subscribe roomId peer found s) (.returned others)

theorem step_cases {i : ι} {instanceId : Instance} {roomId : RoomId}
    {peer : Peer} {event : Event} {s s' : Sockets ι κ}
    {handler handler' : JoinHandler ι κ}
    (h : handler.step i instanceId roomId peer event s = some (s', handler')) :
    Step i instanceId roomId peer s handler s' handler' := by
  unfold step at h
  split at h
  · obtain ⟨⟨w', point'⟩, hpoint, hafter⟩ := Option.map_eq_some_iff.1 h
    have hs := Join.step_cases hpoint
    cases point' with
    | returned => cases hafter; exact .joined hs
    | threw => cases hafter; exact .threw hs
    | _ => cases hafter; exact .service hs nofun nofun
  · cases h
    exact .subscribed
  · cases h

end JoinHandler

namespace AskHandler

def context : AskHandler ι κ → Option SocketContext
  | .createWebRtcTransport context _ | .produce context _ => some context
  | .call | .produced _ | .threw => none

/-- The producer that the handler has written to Redis. -/
def wrote : AskHandler ι κ → Option (ι ⊕ κ)
  | .produce _ point => point.written
  | .produced producer => some producer
  | .call | .createWebRtcTransport _ _ | .threw => none

/-- What a step leaves alone and what it may bring about. -/
structure Effect (p : PeerId) (s : Sockets ι κ) (handler : AskHandler ι κ)
    (s' : Sockets ι κ) (handler' : AskHandler ι κ) : Prop where
  data : s'.data = s.data
  connected : s'.hub.connected = s.hub.connected
  received : s'.hub.received = s.hub.received
  inFlight : s.hub.inFlight ⊆ s'.hub.inFlight
  peers : s'.world.redis.peers = s.world.redis.peers
  producers : ∀ q x, x ∈ s.world.redis.producers q →
    x ∈ s'.world.redis.producers q
  context : ∀ c, handler'.context = some c →
    handler.context = some c ∨ extractSocketContext (s.data p) = some c
  wrote : ∀ x, handler'.wrote = some x → handler.wrote = some x ∨
    ∃ c, handler.context = some c ∧ x ∈ s'.world.redis.producers c.peerId
  produced : ∀ x, handler' = .produced x → ∃ c kind,
    handler.context = some c ∧
      s'.hub = s.hub.emit c.roomId
        (.newProducer { peerId := c.peerId, producerId := x, kind }) (some p)

omit [DecidableEq ι] [DecidableEq κ] in
theorem start_eq (ask : Ask (ι ⊕ κ)) (c : SocketContext) :
    (start ask c).context = some c ∧ (start ask c).wrote = none ∧
      ∀ x, start ask c ≠ .produced x := by
  cases ask <;> exact ⟨rfl, rfl, nofun⟩

theorem effect_afterProduce {i : ι} {p : PeerId} {transportId : ι ⊕ κ}
    {kind : MediaKind} {event : Event} {s : Sockets ι κ} {c : SocketContext}
    {point point' : Produce ι κ} {w' : World ι κ}
    (h : point.step i c.roomId c.peerId transportId kind event s.world =
      some (w', point')) :
    Effect p s (.produce c point) (afterProduce p kind c s (w', point')).1
      (afterProduce p kind c s (w', point')).2 := by
  have hredis : w'.redis.peers = s.world.redis.peers ∧
      (∀ q x, x ∈ s.world.redis.producers q → x ∈ w'.redis.producers q) ∧
      ∀ x, point'.written = some x → point.written = some x ∨
        x ∈ w'.redis.producers c.peerId := by
    rcases Produce.redis_of_step h with ⟨hsame, hwritten⟩ | ⟨x, -, hx, hset⟩
    · rw [hsame]
      exact ⟨rfl, fun _ _ h => h, fun x hx => .inl (hwritten x hx)⟩
    · rw [hset]
      refine ⟨rfl, fun q y hy => ?_, fun y hy => .inr ?_⟩
      · by_cases hq : q = c.peerId
        · subst hq
          simp [RoomKeys.hsetProducer, hy]
        · simpa [RoomKeys.hsetProducer, hq] using hy
      · obtain rfl := Option.some.inj (hx.symm.trans hy)
        simp [RoomKeys.hsetProducer]
  obtain ⟨hpeers, hproducers, hwritten⟩ := hredis
  have hwrote : ∀ x, point'.written = some x →
      (AskHandler.produce c point).wrote = some x ∨
        ∃ c', (AskHandler.produce c point).context = some c' ∧
          x ∈ w'.redis.producers c'.peerId := fun x hx =>
    (hwritten x hx).imp_right fun hmem => ⟨c, rfl, hmem⟩
  cases point' with
  | returned producer =>
      refine ⟨rfl, rfl, rfl, List.subset_append_left _ _, hpeers, hproducers,
        nofun, hwrote, fun x hx => ?_⟩
      cases hx
      exact ⟨c, kind, rfl, rfl⟩
  | threw =>
      exact ⟨rfl, rfl, rfl, List.Subset.refl _, hpeers, hproducers, nofun, nofun,
        nofun⟩
  | _ =>
      exact ⟨rfl, rfl, rfl, List.Subset.refl _, hpeers, hproducers,
        fun _ hc => .inl hc, hwrote, nofun⟩

theorem effect_of_step {i : ι} {p : PeerId} {ask : Ask (ι ⊕ κ)} {event : Event}
    {s s' : Sockets ι κ} {handler handler' : AskHandler ι κ}
    (h : handler.step i p ask event s = some (s', handler')) :
    Effect p s handler s' handler' := by
  unfold step at h
  split at h
  · split at h
    · cases h
      exact ⟨rfl, rfl, rfl, List.Subset.refl _, rfl, fun _ _ h => h, nofun, nofun,
        nofun⟩
    · next c hc =>
      cases h
      obtain ⟨hcontext, hwrote, hproduced⟩ := start_eq ask c
      refine ⟨rfl, rfl, rfl, List.Subset.refl _, rfl, fun _ _ h => h,
        fun c' hc' => .inr ?_, fun x hx => ?_, fun x hx => (hproduced x hx).elim⟩
      · exact hc.trans (hcontext.symm.trans hc')
      · cases hwrote.symm.trans hx
  · next c point direction event =>
    obtain ⟨⟨w', point'⟩, hpoint, hr⟩ := Option.map_eq_some_iff.1 h
    cases hr
    have hredis := (CreateWebRtcTransport.step_cases hpoint).redis
    refine ⟨rfl, rfl, rfl, List.Subset.refl _, congrArg _ hredis, fun q x hx => ?_,
      fun _ hc => .inl hc, nofun, nofun⟩
    rwa [hredis]
  · obtain ⟨⟨w', point'⟩, hpoint, hr⟩ := Option.map_eq_some_iff.1 h
    have heffect : Effect p _ _ _ _ := effect_afterProduce hpoint
    rwa [hr] at heffect
  · cases h

end AskHandler

/-! ## Nothing gets lost -/

def Encounter.Announced (P : Parties ι κ) (s : Encounter ι κ) (n : News (Task ι ⊕ κ)) :
    Prop :=
  (n = .peer P.b.id ∧ ∃ others, s.joinB = .returned others) ∨
    ∃ i x, n = .producer P.b.id x ∧ s.asks i = .produced x

/-- `a` has been told, is being told or will find out. -/
def Encounter.Reaches (P : Parties ι κ) (s : Encounter ι κ)
    (n : News (Task ι ⊕ κ)) : Prop :=
  s.joinA.covers n ∨
    s.sockets.hub.OnItsWay P.a.id (fun e => e.news = some n) ∨
      ∃ e ∈ s.sockets.hub.received P.a.id, e.news = some n

structure Informing (P : Parties ι κ) (s : Encounter ι κ) : Prop where
  connected : s.sockets.hub.connected P.a.id
  entry : s.joinB.added → s.sockets.world.redis.peers.lookup P.b.id = some P.b
  data : ∀ c, extractSocketContext (s.sockets.data P.b.id) = some c →
    s.joinB.joined ∧ c.peerId = P.b.id
  context : ∀ i c, (s.asks i).context = some c →
    s.joinB.joined ∧ c.peerId = P.b.id
  wrote : ∀ i x, (s.asks i).wrote = some x →
    s.joinB.joined ∧ x ∈ s.sockets.world.redis.producers P.b.id
  reaches : ∀ n, s.Announced P n → s.Reaches P n

omit [DecidableEq ι] [DecidableEq κ] in
theorem JoinHandler.added_of_joined {handler : JoinHandler ι κ}
    (h : handler.joined) : handler.added := by
  cases handler <;> first | rfl | cases h

theorem Informing.recorded {n : News (Task ι ⊕ κ)} (h : Informing P s)
    (hn : s.Announced P n) : n.recorded s.sockets.world.redis := by
  have hpeer : s.joinB.joined → ∃ peer,
      s.sockets.world.redis.peers.lookup P.b.id = some peer ∧
        peer.id = P.b.id := fun hjoined =>
    ⟨P.b, h.entry (JoinHandler.added_of_joined hjoined), rfl⟩
  rcases hn with ⟨rfl, others, hothers⟩ | ⟨i, x, rfl, hx⟩
  · exact hpeer (by rw [hothers]; rfl)
  · have hwrote := h.wrote i x (by rw [hx]; rfl)
    exact ⟨hpeer hwrote.1, hwrote.2⟩

omit [DecidableEq ι] [DecidableEq κ] in
theorem Encounter.Announced.peerId {n : News (Task ι ⊕ κ)}
    (h : s.Announced P n) : n.peerId = P.b.id := by
  rcases h with ⟨rfl, -⟩ | ⟨_, _, rfl, -⟩ <;> rfl

theorem Encounter.Reaches.mono {n : News (Task ι ⊕ κ)} (h : s.Reaches P n)
    (hcovers : s.joinA.covers n → s'.Reaches P n)
    (hinFlight : s.sockets.hub.inFlight ⊆ s'.sockets.hub.inFlight)
    (hreceived : s.sockets.hub.received P.a.id ⊆
      s'.sockets.hub.received P.a.id) : s'.Reaches P n := by
  rcases h with hc | ho | ⟨e, he, hnews⟩
  · exact hcovers hc
  · exact .inr (.inl (ho.mono hinFlight))
  · exact .inr (.inr ⟨e, hreceived he, hnews⟩)

theorem Informing.joinA_service {point : Join (Task ι) κ} {ok : Bool}
    {w' : World (Task ι) κ} {point' : Join (Task ι) κ}
    {handler' : JoinHandler (Task ι) κ} {data' : PeerId → SocketData}
    (h : Informing P s) (hpoint : s.joinA = .service point)
    (hs : Join.Step .joinA P.instanceA P.roomId P.a s.sockets.world ok point w'
      point')
    (hdata : data' P.b.id = s.sockets.data P.b.id)
    (hcovers : ∀ n, point'.covers n → handler'.covers n) :
    Informing P { s with
      sockets := { s.sockets with world := w', data := data' }
      joinA := handler' } := by
  obtain ⟨hpeers, hproducers⟩ := hs.others P.distinct.symm
  refine ⟨h.connected, fun hadded => hpeers.trans (h.entry hadded),
    fun c hc => h.data c (hdata ▸ hc), h.context, fun i x hx => ?_, fun n hn => ?_⟩
  · obtain ⟨hjoined, hmem⟩ := h.wrote i x hx
    exact ⟨hjoined, hproducers ▸ hmem⟩
  · refine (h.reaches n hn).mono (fun hc => .inl ?_) (List.Subset.refl _)
      (List.Subset.refl _)
    have hne : n.peerId ≠ P.a.id := hn.peerId ▸ P.distinct.symm
    rw [hpoint] at hc
    exact hcovers n (hs.covers hne (h.recorded hn) hc)

theorem Informing.joinA_step {sockets' : Sockets (Task ι) κ}
    {handler' : JoinHandler (Task ι) κ} (h : Informing P s)
    (hs : JoinHandler.Step .joinA P.instanceA P.roomId P.a s.sockets s.joinA
      sockets' handler') :
    Informing P { s with sockets := sockets', joinA := handler' } := by
  generalize hhandler : s.joinA = handler at hs
  cases hs with
  | service hjoin => exact h.joinA_service hhandler hjoin rfl fun _ hc => hc
  | joined hjoin =>
      exact h.joinA_service hhandler hjoin
        (Function.update_of_ne P.distinct.symm _ _) fun _ hc => hc
  | threw hjoin => exact h.joinA_service hhandler hjoin rfl fun _ _ => rfl
  | @subscribed others found =>
      refine ⟨h.connected, h.entry, h.data, h.context, h.wrote, fun n hn => ?_⟩
      refine (h.reaches n hn).mono (fun hc => ?_) (List.subset_append_left _ _)
        ?_
      · rw [hhandler] at hc
        cases n with
        | peer p => exact .inl hc
        | producer p x =>
            -- What `a` has found is sent to it.
            obtain ⟨producer, hfound, hx⟩ := List.any_eq_true.1 hc
            have hx : producer.peerId = p ∧ producer.producerId = x := by
              simpa using hx
            refine .inr (.inr ⟨.newProducer producer, ?_, ?_⟩)
            · simp [JoinHandler.subscribe, hfound]
            · rw [RoomEvent.news, hx.1, hx.2]
      · simp [JoinHandler.subscribe]

omit [DecidableEq ι] [DecidableEq κ] in
theorem Parties.b_ne_a (P : Parties ι κ) : some P.b.id ≠ some P.a.id :=
  fun heq => P.distinct (Option.some.inj heq).symm

theorem Informing.joinB_service {point : Join (Task ι) κ}
    {sockets' : Sockets (Task ι) κ} {handler' : JoinHandler (Task ι) κ}
    (h : Informing P s) (hpoint : s.joinB = .service point)
    (hhub : sockets'.hub = s.sockets.hub)
    (hentry : handler'.added →
      sockets'.world.redis.peers.lookup P.b.id = some P.b)
    (hdata : ∀ c, extractSocketContext (sockets'.data P.b.id) = some c →
      handler'.joined ∧ c.peerId = P.b.id)
    (hreturned : ∀ others, handler' ≠ .returned others) :
    Informing P { s with sockets := sockets', joinB := handler' } := by
  have hjoined : ¬ s.joinB.joined := by rw [hpoint]; exact nofun
  refine ⟨hhub ▸ h.connected, hentry, hdata,
    fun i c hc => absurd (h.context i c hc).1 hjoined,
    fun i x hx => absurd (h.wrote i x hx).1 hjoined, fun n hn => ?_⟩
  rcases hn with ⟨-, others, hothers⟩ | ⟨i, x, -, hx⟩
  · exact absurd hothers (hreturned others)
  · have hwrote : (s.asks i).wrote = some x := by
      rw [show s.asks i = .produced x from hx]
      rfl
    exact absurd (h.wrote i x hwrote).1 hjoined

theorem Informing.joinB_step {sockets' : Sockets (Task ι) κ}
    {handler' : JoinHandler (Task ι) κ} (h : Informing P s)
    (hs : JoinHandler.Step .joinB P.instanceB P.roomId P.b s.sockets s.joinB
      sockets' handler') :
    Informing P { s with sockets := sockets', joinB := handler' } := by
  have hentry := h.entry
  have hdata := h.data
  generalize hhandler : s.joinB = handler at hs hentry hdata
  cases hs with
  | service hjoin =>
      exact h.joinB_service hhandler rfl (fun hadded => hjoin.entry hentry hadded)
        (fun c hc => nomatch (hdata c hc).1) nofun
  | joined hjoin =>
      refine h.joinB_service hhandler rfl (fun _ => hjoin.entry hentry rfl)
        (fun c hc => ⟨rfl, ?_⟩) nofun
      simp only [Function.update_self, extractSocketContext,
        Option.ite_none_left_eq_some, Option.some.injEq] at hc
      rw [← hc.2]
  | threw hjoin =>
      exact h.joinB_service hhandler rfl nofun
        (fun c hc => nomatch (hdata c hc).1) nofun
  | subscribed =>
      have hjoined : s.joinB.joined := by rw [hhandler]; rfl
      refine ⟨h.connected, hentry, hdata, fun i c hc => ⟨rfl, (h.context i c hc).2⟩,
        fun i x hx => ⟨rfl, (h.wrote i x hx).2⟩, fun n hn => ?_⟩
      rcases hn with ⟨rfl, -⟩ | hproducer
      · -- `newPeer` has just been sent to the room.
        have honway : ((s.sockets.hub.join P.b.id P.roomId).emit P.roomId
            (.newPeer P.b) (some P.b.id)).OnItsWay P.a.id
              (fun e => e.news = some (.peer P.b.id)) :=
          Hub.onItsWay_emit rfl P.b_ne_a
        exact .inr (.inl (honway.mono (List.Subset.refl _)))
      · refine (h.reaches n (.inr hproducer)).mono .inl
          (List.subset_append_left _ _) ?_
        simp [JoinHandler.subscribe, P.distinct]

theorem Informing.ask_step {i : ι} {sockets' : Sockets (Task ι) κ}
    {handler' : AskHandler (Task ι) κ} (h : Informing P s)
    (hs : AskHandler.Effect P.b.id s.sockets (s.asks i) sockets' handler') :
    Informing P { s with
      sockets := sockets', asks := Function.update s.asks i handler' } := by
  refine ⟨hs.connected ▸ h.connected, fun hadded => hs.peers ▸ h.entry hadded,
    fun c hc => h.data c (hs.data ▸ hc), fun j c hc => ?_, fun j x hx => ?_,
    fun n hn => ?_⟩
  · simp only [Function.update_apply] at hc
    split at hc
    · exact (hs.context c hc).elim (h.context i c) (h.data c)
    · exact h.context j c hc
  · simp only [Function.update_apply] at hx
    split at hx
    · rcases hs.wrote x hx with hx | ⟨c, hc, hmem⟩
      · obtain ⟨hjoined, hmem⟩ := h.wrote i x hx
        exact ⟨hjoined, hs.producers _ x hmem⟩
      · obtain ⟨hjoined, hpeer⟩ := h.context i c hc
        exact ⟨hjoined, hpeer ▸ hmem⟩
    · obtain ⟨hjoined, hmem⟩ := h.wrote j x hx
      exact ⟨hjoined, hs.producers _ x hmem⟩
  · have hnext (hold : s.Announced P n) : Encounter.Reaches P { s with
        sockets := sockets', asks := Function.update s.asks i handler' } n :=
      (h.reaches n hold).mono .inl hs.inFlight (hs.received ▸ List.Subset.refl _)
    rcases hn with hpeer | ⟨j, x, rfl, hx⟩
    · exact hnext (.inl hpeer)
    · by_cases hj : j = i
      · subst hj
        obtain ⟨c, kind, hc, hhub⟩ := hs.produced x (by simpa using hx)
        -- `newProducer` has just been sent to the room.
        have honway : sockets'.hub.OnItsWay P.a.id
            (fun e => e.news = some (.producer P.b.id x)) := by
          rw [hhub]
          refine Hub.onItsWay_emit ?_ P.b_ne_a
          rw [RoomEvent.news, (h.context j c hc).2]
        exact .inr (.inl honway)
      · exact hnext (.inr ⟨j, x, rfl, by simpa [hj] using hx⟩)

theorem Informing.arrive_step {k : Nat} {p : PeerId}
    {hub : Hub PeerId RoomId (RoomEvent (Task ι ⊕ κ))}
    {b : Broadcast PeerId RoomId (RoomEvent (Task ι ⊕ κ))} (h : Informing P s)
    (hintime : ArrivesInTime P s (.arrive k p))
    (hs : s.sockets.hub.Arrives k p b hub) :
    Informing P { s with sockets := { s.sockets with hub := hub } } := by
  refine ⟨by rw [hs.connected]; exact h.connected, h.entry, h.data, h.context,
    h.wrote, fun n hn => ?_⟩
  rcases h.reaches n hn with hc | ho | ⟨e, he, hnews⟩
  · exact .inl hc
  · rcases hs.onItsWay ho with ho | ⟨rfl, hnews, hexcept⟩
    · exact .inr (.inl ho)
    · rcases hintime rfl b hs.sent n hnews with hchannel | hc
      · have hreaches : s.sockets.hub.reaches b P.a.id :=
          Hub.reaches_iff.2 ⟨h.connected, hchannel, hexcept⟩
        refine .inr (.inr ⟨b.message, ?_, hnews⟩)
        simp [hs.received, hreaches]
      · exact .inl hc
  · refine .inr (.inr ⟨e, ?_, hnews⟩)
    rw [hs.received]
    split
    · exact List.mem_append_left _ he
    · exact he

theorem Informing.preserves :
    (encounter P).Preserves (ArrivesInTime P) (Informing P) := by
  rintro s a s' h hintime hs
  change s.step P a = some s' at hs
  cases a with
  | advance task event =>
      cases task with
      | joinA =>
          obtain ⟨r, hr, rfl⟩ := Option.map_eq_some_iff.1 hs
          exact h.joinA_step (JoinHandler.step_cases hr)
      | joinB =>
          obtain ⟨r, hr, rfl⟩ := Option.map_eq_some_iff.1 hs
          exact h.joinB_step (JoinHandler.step_cases hr)
      | ask i =>
          obtain ⟨r, hr, rfl⟩ := Option.map_eq_some_iff.1 hs
          exact h.ask_step (AskHandler.effect_of_step hr)
  | arrive k p =>
      obtain ⟨hub, hhub, rfl⟩ := Option.map_eq_some_iff.1 hs
      obtain ⟨b, harrives⟩ := Hub.arrive_eq_some hhub
      exact h.arrive_step hintime harrives

theorem Informing.connected_start (w : World (Task ι) κ) :
    Informing P (.connected P w) := by
  refine ⟨by simp [Encounter.connected], nofun, nofun, fun _ => nofun,
    fun _ => nofun, fun n hn => ?_⟩
  rcases hn with ⟨-, _, hn⟩ | ⟨_, _, -, hn⟩ <;> cases hn

/-- Once everything has arrived, all that reaches `a` has reached it. -/
theorem Informing.joinerTold (h : Informing P s) : JoinerTold P s := by
  intro existingPeers hjoined harrived
  have hreached : ∀ n, s.Announced P n → News.foundIn existingPeers [] n ∨
      ∃ e ∈ s.sockets.hub.received P.a.id, e.news = some n := by
    intro n hn
    rcases h.reaches n hn with hc | ⟨b, hb, -, -, hnew⟩ | hreceived
    · rw [hjoined] at hc
      exact .inl hc
    · exact absurd (harrived b hb) hnew
    · exact .inr hreceived
  refine ⟨fun hb => (hreached _ (.inl ⟨rfl, hb⟩)).imp_left fun hfound => ?_,
    fun i x hx => (hreached _ (.inr ⟨i, x, rfl, hx⟩)).resolve_left nofun⟩
  obtain ⟨peer, hpeer, hid⟩ := List.any_eq_true.1 hfound
  exact List.mem_map.2 ⟨peer, hpeer, of_decide_eq_true hid⟩

/-- Whatever the order of all the steps: a joiner misses nothing of what does not
arrive between its reading and its `client.join`. -/
theorem holds_joinerTold (w : World (Task ι) κ) {schedule : List (Happening ι)}
    (h : (encounter P).Meets (ArrivesInTime P) (.connected P w) schedule) :
    (encounter P).Holds (JoinerTold P) (.connected P w) schedule :=
  h.holds Informing.preserves (fun _ hs => hs.joinerTold) (.connected_start w)

instance (P : Parties ι κ) (s : Encounter ι κ) :
    ∀ a, Decidable (ArrivesInTime P s a)
  | .advance _ _ => inferInstanceAs (Decidable True)
  | .arrive k p => inferInstanceAs (Decidable (p = P.a.id →
      ∀ b ∈ s.sockets.hub.inFlight[k]?, ∀ news ∈ b.message.news,
        b.channel ∈ s.sockets.hub.channels p ∨ s.joinA.covers news))

/-! Ann and Bob join a room in which Cleo is; Bob produces audio. -/

inductive BobAsks where
  | transport
  | producer
  deriving DecidableEq

def annAndBob : Parties BobAsks Unit where
  roomId := "r"
  a := ⟨"a", "Ann"⟩
  b := ⟨"b", "Bob"⟩
  distinct := by decide
  instanceA := 0
  instanceB := 1
  ask
    | .transport => .createWebRtcTransport .send
    | .producer => .produce (.inl (.ask .transport)) .audio

def cleoIsThere : World (Task BobAsks) Unit where
  serviceUrls := ["n"]
  redis := {
    room := some { id := "r", rtpCapabilities := "", sfuNodeUrl := "n" }
    peers := AList.insert "c" ⟨"c", "Cleo"⟩ ∅ }
  sfu _ := { Sfu.State.spawned [0] with
    rooms := AList.insert "r" (.inr ()) ∅
    room := fun _ => { id := "r", worker := 0 }
    routerOpen := fun _ => true }
  pendingRooms _ := none
  creation _ := none

def advances (n : Nat) (task : Task BobAsks) : List (Happening BobAsks) :=
  List.replicate n (.advance task (.settle true))

/-- What Bob announces arrives while Ann has not read the room yet. -/
def bobFirst : List (Happening BobAsks) :=
  advances 3 .joinA ++ advances 8 .joinB ++ advances 6 (.ask .transport) ++
    advances 8 (.ask .producer) ++ [.arrive 0 "a", .arrive 1 "a"] ++
    advances 5 .joinA ++ [.arrive 2 "a"]

/-- Bob joins while Ann waits for Cleo's producers. -/
def bobInBetween : List (Happening BobAsks) :=
  advances 5 .joinA ++ advances 8 .joinB ++ [.arrive 0 "a"] ++
    advances 2 .joinA ++ [.arrive 1 "a"]

theorem holds_joinerTold_bobFirst :
    (encounter annAndBob).Holds (JoinerTold annAndBob)
      (.connected annAndBob cleoIsThere) bobFirst :=
  holds_joinerTold cleoIsThere (by decide)

example : ((encounter annAndBob).run (.connected annAndBob cleoIsThere)
    bobFirst).sockets.hub.received "a" =
      [.newProducer ⟨"b", .inl (.ask .producer), .audio⟩] := by decide +kernel

theorem not_joinerTold_bobInBetween :
    ¬ (encounter annAndBob).Holds (JoinerTold annAndBob)
      (.connected annAndBob cleoIsThere) bobInBetween := by
  intro h
  have htold := (h.last [⟨"c", "Cleo"⟩] rfl (by decide)).1 ⟨_, rfl⟩
  revert htold
  decide

end MeetServer.Realtime
