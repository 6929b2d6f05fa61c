import MeetServer.Foundation.Channels
import MeetServer.Foundation.Pool
import MeetServer.Realtime.Gateway
import MeetServer.Realtime.Isolation

/-!
# What the two gateways broadcast

Any number of sockets and of overlapping handlers; every service call succeeds
or fails as it likes.  A room's events go to the channel named by its id, and
every socket is also subscribed to the channel named by its own id.
-/

namespace MeetServer.Realtime

open MeetServer.Foundation

/-- The events that go to a room. -/
inductive RoomEvent (Ref : Type) where
  | newPeer (peer : Peer)
  | newProducer (producer : ExistingProducer Ref)
  | producerPaused (peerId : PeerId) (producerId : Ref)
  | producerResumed (peerId : PeerId) (producerId : Ref)
  | recordingStarted (roomId : RoomId)
  | recordingStopped (roomId : RoomId)
  | chatMessage (id : String) (message : ChatMessage)
  | peerClosed (peerId : PeerId)
  deriving DecidableEq, Repr

structure SocketContext where
  roomId : RoomId
  peerId : PeerId
  deriving DecidableEq, Repr

/-- `RequireSocketContext`; the disconnect checks the same. -/
def extractSocketContext (data : SocketData) : Option SocketContext :=
  match data.roomId, data.peerId with
  | some roomId, some peerId =>
      if roomId = "" ∨ peerId = "" then none else some { roomId, peerId }
  | _, _ => none

/-- The messages that end in a broadcast and need a context. -/
inductive Message where
  | produce (transportId : String) (kind : MediaKind)
  | pauseProducer (producerId : String)
  | resumeProducer (producerId : String)
  | startRecording
  | stopRecording
  | sendChatMessage (body : String)
  deriving DecidableEq, Repr

/-- What the awaited answer holds that the handler uses, and the time. -/
structure Answer where
  value : String := ""
  existingProducers : List (ExistingProducer String) := []
  now : Nat := 0
  deriving DecidableEq, Repr

/-- What a handler waits for. -/
inductive Awaiting where
  | join (roomId : RoomId) (displayName : String)
  | clientJoin (roomId : RoomId) (displayName : String)
      (existingProducers : List (ExistingProducer String))
  | service (message : Message) (context : SocketContext)
  | addMessage (message : ChatMessage) (context : SocketContext)
  | leave (context : SocketContext)
  | done
  deriving DecidableEq, Repr

structure Gateways where
  hub : Hub PeerId RoomId (RoomEvent String) := {}
  /-- The ids that sockets have had. -/
  ids : List PeerId := []
  data : PeerId → SocketData := fun _ => {}
  handlers : List (PeerId × Awaiting) := []

inductive GatewayEvent where
  | connect (p : PeerId)
  | join (p : PeerId) (roomId : RoomId) (displayName : String)
  | message (p : PeerId) (message : Message)
  | disconnect (p : PeerId)
  /-- The promise that the `k`th handler awaits settles. -/
  | settle (k : Nat) (answer : Settlement Answer)
  /-- The `k`th broadcast arrives at a socket. -/
  | arrive (k : Nat) (p : PeerId)
  deriving DecidableEq

namespace Gateways

def start (s : Gateways) (p : PeerId) (point : Awaiting) : Gateways :=
  { s with handlers := s.handlers ++ [(p, point)] }

/-- `client.to(roomId).emit(event)`: to all but the client itself. -/
def toRoom (s : Gateways) (p : PeerId) (roomId : RoomId)
    (event : RoomEvent String) : Gateways × Awaiting :=
  ({ s with hub := s.hub.emit roomId event (some p) }, .done)

/-- The code of a handler of socket `p` up to its next `await`. -/
def resume (s : Gateways) (p : PeerId) (answer : Answer) :
    Awaiting → Gateways × Awaiting
  | .join roomId displayName =>
      ({ s with
          data := Function.update s.data p
            { roomId := some roomId, peerId := some p } },
        .clientJoin roomId displayName answer.existingProducers)
  | .clientJoin roomId displayName existingProducers =>
      ({ s with
          hub := ((s.hub.join p roomId).emit roomId
            (.newPeer { id := p, displayName }) (some p)).send p
              (existingProducers.map .newProducer) },
        .done)
  | .service (.produce _ kind) context =>
      s.toRoom p context.roomId (.newProducer {
        peerId := context.peerId, producerId := answer.value, kind })
  | .service (.pauseProducer producerId) context =>
      s.toRoom p context.roomId (.producerPaused context.peerId producerId)
  | .service (.resumeProducer producerId) context =>
      s.toRoom p context.roomId (.producerResumed context.peerId producerId)
  | .service .startRecording context =>
      s.toRoom p context.roomId (.recordingStarted context.roomId)
  | .service .stopRecording context =>
      s.toRoom p context.roomId (.recordingStopped context.roomId)
  -- `getPeer` answers with the display name.
  | .service (.sendChatMessage body) context =>
      (s, .addMessage {
        peerId := context.peerId, displayName := answer.value, body,
        ts := answer.now } context)
  -- `server.to` includes the sender.
  | .addMessage message context =>
      ({ s with
          hub := s.hub.emit context.roomId
            (.chatMessage answer.value message) none },
        .done)
  | .leave context =>
      s.toRoom p context.roomId (.peerClosed context.peerId)
  | .done => (s, .done)

/-- A handler whose promise is rejected throws. -/
def settle (s : Gateways) (k : Nat) (answer : Settlement Answer) :
    Option Gateways :=
  match s.handlers[k]?, answer with
  | none, _ | some (_, .done), _ => none
  | some (p, _), .rejected =>
      some { s with handlers := s.handlers.set k (p, .done) }
  | some (p, point), .fulfilled answer =>
      let r := s.resume p answer point
      some { r.1 with handlers := r.1.handlers.set k (p, r.2) }

/-- A socket is subscribed to the channel of its id as it connects. -/
def step (s : Gateways) : GatewayEvent → Option Gateways
  | .connect p =>
      if p ∈ s.ids then none
      else some { s with hub := s.hub.connect p p, ids := p :: s.ids }
  | .join p roomId displayName =>
      if s.hub.connected p then some (s.start p (.join roomId displayName))
      else none
  | .message p message =>
      if s.hub.connected p then
        match extractSocketContext (s.data p) with
        | none => none
        | some context => some (s.start p (.service message context))
      else none
  | .disconnect p =>
      if s.hub.connected p then
        let s := { s with hub := s.hub.disconnect p }
        match extractSocketContext (s.data p) with
        | none => some s
        | some context => some (s.start p (.leave context))
      else none
  | .settle k answer => s.settle k answer
  | .arrive k p =>
      (s.hub.arrive k p).map fun hub => { s with hub := hub }

end Gateways

def gateways : System Gateways GatewayEvent where
  step := Gateways.step

/-- Whatever arrives at a socket that is subscribed to it belongs to the room
the socket is in. -/
def DeliversWithin (s : Gateways) (event : GatewayEvent) : Prop :=
  ∀ k p b, event = .arrive k p → s.hub.inFlight[k]? = some b →
    s.hub.reaches b p → (s.data p).roomId = some b.channel

/-- A socket joins one room only, and that is not the id of another connected
socket that is elsewhere; no socket gets an id under which others have joined. -/
structure KeepsChannels (s : Gateways) (event : GatewayEvent) : Prop where
  joins : ∀ k answer p roomId displayName, event = .settle k (.fulfilled answer) →
    s.handlers[k]? = some (p, .join roomId displayName) →
    ((s.data p).roomId = none ∨ (s.data p).roomId = some roomId) ∧
      (roomId ≠ p → s.hub.connected roomId →
        (s.data roomId).roomId = some roomId)
  connects : ∀ p q, event = .connect p → (s.data q).roomId ≠ some p

/-- The room whose channel the handler uses when it goes on. -/
def Awaiting.captured : Awaiting → Option RoomId
  | .join _ _ | .done => none
  | .clientJoin roomId _ _ => some roomId
  | .service _ context | .addMessage _ context | .leave context =>
      some context.roomId

structure InChannels (s : Gateways) : Prop where
  subscribed : ∀ p c, c ∈ s.hub.channels p →
    c = p ∨ (s.data p).roomId = some c
  captured : ∀ p point c, (p, point) ∈ s.handlers → point.captured = some c →
    (s.data p).roomId = some c
  sent : ∀ b ∈ s.hub.inFlight, ∃ p, (s.data p).roomId = some b.channel
  apart : ∀ p q, s.hub.connected q → (s.data p).roomId = some q →
    (s.data q).roomId = some q

theorem InChannels.deliversWithin {s : Gateways} (h : InChannels s)
    (event : GatewayEvent) : DeliversWithin s event := by
  intro k p b _ hb hreaches
  obtain ⟨hconnected, hchannel, -⟩ := Hub.reaches_iff.1 hreaches
  rcases h.subscribed p b.channel hchannel with heq | hdata
  · -- The channel is the socket's own.
    obtain ⟨q, hq⟩ := h.sent b (List.mem_of_getElem? hb)
    rw [heq] at hq ⊢
    exact h.apart q p hconnected hq
  · exact hdata

theorem roomId_extractSocketContext {data : SocketData} {context : SocketContext}
    (h : extractSocketContext data = some context) :
    data.roomId = some context.roomId := by
  unfold extractSocketContext at h
  split at h
  · next hroom _ =>
    simp only [Option.ite_none_left_eq_some, Option.some.injEq] at h
    rw [hroom, ← h.2]
  · cases h

/-- What the code of a handler does, unless it fills in `client.data`. -/
structure Resumes (s : Gateways) (p : PeerId) (point : Awaiting) (s' : Gateways)
    (point' : Awaiting) : Prop where
  data : s'.data = s.data
  handlers : s'.handlers = s.handlers
  connected : s'.hub.connected = s.hub.connected
  channels : ∀ q c, c ∈ s'.hub.channels q →
    c ∈ s.hub.channels q ∨ q = p ∧ point.captured = some c
  inFlight : ∀ b ∈ s'.hub.inFlight,
    b ∈ s.hub.inFlight ∨ point.captured = some b.channel
  captured : ∀ c, point'.captured = some c → point.captured = some c

theorem Gateways.resumes_toRoom (s : Gateways) (p : PeerId) {point : Awaiting}
    {roomId : RoomId} (event : RoomEvent String)
    (hpoint : point.captured = some roomId) :
    Resumes s p point (s.toRoom p roomId event).1 (s.toRoom p roomId event).2 := by
  refine ⟨rfl, rfl, rfl, fun _ _ => .inl, fun b hb => ?_, nofun⟩
  rcases List.mem_append.1 hb with hb | hb
  · exact .inl hb
  · rw [List.mem_singleton.1 hb]
    exact .inr hpoint

theorem Gateways.resumes (s : Gateways) (p : PeerId) (answer : Answer)
    {point : Awaiting} (hjoin : ∀ roomId displayName, point ≠ .join roomId displayName) :
    Resumes s p point (s.resume p answer point).1 (s.resume p answer point).2 := by
  cases point with
  | join roomId displayName => exact absurd rfl (hjoin _ _)
  | clientJoin roomId displayName existingProducers =>
      refine ⟨rfl, rfl, rfl, fun q c hc => ?_, fun b hb => ?_, nofun⟩
      · by_cases hq : q = p
        · subst hq
          rcases List.mem_cons.1 (by simpa [resume] using hc) with rfl | hc
          · exact .inr ⟨rfl, rfl⟩
          · exact .inl hc
        · exact .inl (by simpa [resume, hq] using hc)
      · rcases List.mem_append.1 hb with hb | hb
        · exact .inl hb
        · rw [List.mem_singleton.1 hb]
          exact .inr rfl
  | service message context =>
      cases message with
      | sendChatMessage =>
          exact ⟨rfl, rfl, rfl, fun _ _ => .inl, fun _ => .inl, fun _ h => h⟩
      | _ => exact s.resumes_toRoom p _ rfl
  | addMessage message context =>
      refine ⟨rfl, rfl, rfl, fun _ _ => .inl, fun b hb => ?_, nofun⟩
      rcases List.mem_append.1 hb with hb | hb
      · exact .inl hb
      · rw [List.mem_singleton.1 hb]
        exact .inr rfl
  | leave context => exact s.resumes_toRoom p _ rfl
  | done => exact ⟨rfl, rfl, rfl, fun _ _ => .inl, fun _ => .inl, nofun⟩

variable {s s' : Gateways} {p : PeerId}

theorem InChannels.start {point : Awaiting} (h : InChannels s)
    (hpoint : ∀ c, point.captured = some c → (s.data p).roomId = some c) :
    InChannels (s.start p point) := by
  refine ⟨h.subscribed, fun q point' c hq hc => ?_, h.sent, h.apart⟩
  rcases List.mem_append.1 hq with hq | hq
  · exact h.captured q point' c hq hc
  · obtain ⟨rfl, rfl⟩ : q = p ∧ point' = point := by simpa using hq
    exact hpoint c hc

theorem InChannels.connect (h : InChannels s)
    (hnew : ∀ q, (s.data q).roomId ≠ some p) (ids : List PeerId) :
    InChannels { s with hub := s.hub.connect p p, ids := ids } := by
  refine ⟨fun q c hc => ?_, h.captured, h.sent, fun q q' hconnected hq => ?_⟩
  · rw [Hub.channels_connect] at hc
    split at hc
    · next hq => exact .inl ((List.mem_singleton.1 hc).trans hq.symm)
    · exact h.subscribed q c hc
  · have hne : q' ≠ p := fun heq => hnew q (heq ▸ hq)
    rw [Hub.connected_connect] at hconnected
    exact h.apart q q' (by simpa [hne] using hconnected) hq

theorem InChannels.disconnect (h : InChannels s) :
    InChannels { s with hub := s.hub.disconnect p } := by
  refine ⟨fun q c hc => ?_, h.captured, h.sent, fun q q' hconnected hq => ?_⟩
  · rw [Hub.channels_disconnect] at hc
    split at hc
    · cases hc
    · exact h.subscribed q c hc
  · rw [Hub.connected_disconnect, Bool.and_eq_true] at hconnected
    exact h.apart q q' hconnected.2 hq

theorem InChannels.set {k : Nat} {point : Awaiting} (h : InChannels s)
    (hpoint : ∀ c, point.captured = some c → (s.data p).roomId = some c) :
    InChannels { s with handlers := s.handlers.set k (p, point) } := by
  refine ⟨h.subscribed, fun q point' c hq hc => ?_, h.sent, h.apart⟩
  rcases List.mem_or_eq_of_mem_set hq with hq | hq
  · exact h.captured q point' c hq hc
  · cases hq
    exact hpoint c hc

theorem InChannels.setData {roomId : RoomId} (h : InChannels s)
    (hdata : (s.data p).roomId = none ∨ (s.data p).roomId = some roomId)
    (hapart : roomId ≠ p → s.hub.connected roomId →
      (s.data roomId).roomId = some roomId) :
    InChannels { s with
      data := Function.update s.data p
        { roomId := some roomId, peerId := some p } } := by
  have hkeeps : ∀ q c, (s.data q).roomId = some c →
      (Function.update s.data p
        { roomId := some roomId, peerId := some p } q).roomId = some c := by
    intro q c hq
    rw [Function.update_apply]
    split
    · next heq =>
      rw [heq] at hq
      rcases hdata with hnone | hsame
      · cases hnone.symm.trans hq
      · exact hsame.symm.trans hq
    · exact hq
  refine ⟨fun q c hc => ?_, fun q point c hq hc => ?_, fun b hb => ?_,
    fun q q' hconnected hq => ?_⟩
  · exact (h.subscribed q c hc).imp_right (hkeeps q c)
  · exact hkeeps q c (h.captured q point c hq hc)
  · obtain ⟨q, hq⟩ := h.sent b hb
    exact ⟨q, hkeeps q _ hq⟩
  · simp only [Function.update_apply] at hq
    split at hq
    · obtain rfl := Option.some.inj hq
      by_cases hp : roomId = p
      · simp [hp]
      · exact hkeeps _ _ (hapart hp hconnected)
    · exact hkeeps _ _ (h.apart q q' hconnected hq)

theorem InChannels.resume {point point' : Awaiting} (h : InChannels s)
    (hpoint : ∀ c, point.captured = some c → (s.data p).roomId = some c)
    (hs : Resumes s p point s' point') : InChannels s' := by
  obtain ⟨hdata, hhandlers, hconnected, hchannels, hinFlight, -⟩ := hs
  refine ⟨fun q c hc => ?_, ?_, fun b hb => ?_, ?_⟩
  · rw [hdata]
    rcases hchannels q c hc with hc | ⟨rfl, hc⟩
    · exact h.subscribed q c hc
    · exact .inr (hpoint c hc)
  · rw [hdata, hhandlers]
    exact h.captured
  · rw [hdata]
    rcases hinFlight b hb with hb | hb
    · exact h.sent b hb
    · exact ⟨p, hpoint _ hb⟩
  · rw [hdata, hconnected]
    exact h.apart

theorem InChannels.settle {k : Nat} {answer : Settlement Answer}
    (h : InChannels s) (hkeeps : KeepsChannels s (.settle k answer))
    (hs : s.settle k answer = some s') : InChannels s' := by
  unfold Gateways.settle at hs
  split at hs
  · cases hs
  · cases hs
  · cases hs
    exact h.set nofun
  · next p point answer _ hk =>
    cases hs
    have hcaptured := h.captured p point
    have hmem := List.mem_of_getElem? hk
    by_cases hjoin : ∃ roomId displayName, point = .join roomId displayName
    · obtain ⟨roomId, displayName, rfl⟩ := hjoin
      obtain ⟨hdata, hapart⟩ := hkeeps.joins k answer p _ _ rfl hk
      refine (h.setData hdata hapart).set fun c hc => ?_
      cases hc
      simp
    · have hresumes := s.resumes p answer
        fun roomId displayName heq => hjoin ⟨roomId, displayName, heq⟩
      have hnext := h.resume (fun c => hcaptured c hmem) hresumes
      refine hnext.set fun c hc => ?_
      rw [hresumes.data]
      exact hcaptured c hmem (hresumes.captured c hc)

theorem InChannels.preserves : gateways.Preserves KeepsChannels InChannels := by
  intro s event s' h hkeeps hs
  change s.step event = some s' at hs
  cases event with
  | connect p =>
      simp only [Gateways.step, Option.ite_none_left_eq_some,
        Option.some.injEq] at hs
      obtain ⟨-, rfl⟩ := hs
      exact h.connect (fun q => hkeeps.connects p q rfl) _
  | join p roomId displayName =>
      simp only [Gateways.step, Option.ite_none_right_eq_some,
        Option.some.injEq] at hs
      obtain ⟨-, rfl⟩ := hs
      exact h.start nofun
  | message p message =>
      simp only [Gateways.step, Option.ite_none_right_eq_some] at hs
      obtain ⟨-, hs⟩ := hs
      split at hs
      · cases hs
      · next context hcontext =>
        cases hs
        refine h.start fun c hc => ?_
        cases hc
        exact roomId_extractSocketContext hcontext
  | disconnect p =>
      simp only [Gateways.step, Option.ite_none_right_eq_some] at hs
      obtain ⟨-, hs⟩ := hs
      split at hs
      · cases hs
        exact h.disconnect
      · next context hcontext =>
        cases hs
        refine h.disconnect.start fun c hc => ?_
        cases hc
        exact roomId_extractSocketContext hcontext
  | settle k answer => exact h.settle hkeeps hs
  | arrive k p =>
      obtain ⟨hub, hhub, rfl⟩ := Option.map_eq_some_iff.1 hs
      obtain ⟨b, harrives⟩ := Hub.arrive_eq_some hhub
      refine ⟨?_, h.captured, fun b' hb' => ?_, ?_⟩
      · simp only [harrives.channels]
        exact h.subscribed
      · obtain ⟨b₀, hb₀, hchannel⟩ := harrives.mem_inFlight hb'
        obtain ⟨q, hq⟩ := h.sent b₀ hb₀
        exact ⟨q, hchannel ▸ hq⟩
      · simp only [harrives.connected]
        exact h.apart

theorem InChannels.empty : InChannels {} :=
  ⟨nofun, nofun, nofun, nofun⟩

/-- Broadcasts stay in their rooms, however the handlers of all sockets overlap
and whatever their service calls answer. -/
theorem meets_deliversWithin {schedule : List GatewayEvent}
    (h : gateways.Meets KeepsChannels {} schedule) :
    gateways.Meets DeliversWithin {} schedule :=
  h.along InChannels.preserves (fun _ event _ hs _ _ => hs.deliversWithin event)
    .empty

/-! Two sockets meet in a room; one of them moves on to another. -/

def joinRoomEvents (k : Nat) (p : PeerId) (roomId : RoomId) : List GatewayEvent :=
  [.join p roomId "", .settle k (.fulfilled {}), .settle k (.fulfilled {})]

def meetEvents : List GatewayEvent :=
  [.connect "p", .connect "q"] ++ joinRoomEvents 0 "p" "a" ++
    joinRoomEvents 1 "q" "a" ++ [.arrive 1 "p"]

/-- `q` chats in the room that `p` has left. -/
def movesOnEvents : List GatewayEvent :=
  [.connect "p", .connect "q"] ++ joinRoomEvents 0 "p" "a" ++
    joinRoomEvents 1 "q" "a" ++ joinRoomEvents 2 "p" "b" ++
    [.message "q" (.sendChatMessage "psst"), .settle 3 (.fulfilled {}),
      .settle 3 (.fulfilled {})]

theorem meets_deliversWithin_meet :
    gateways.Meets DeliversWithin {} meetEvents := by
  refine meets_deliversWithin ⟨fun _ => ⟨nofun, nofun⟩, fun _ => ⟨nofun, nofun⟩,
    fun _ => ⟨nofun, nofun⟩, fun _ => ⟨?_, nofun⟩, fun _ => ⟨?_, nofun⟩,
    fun _ => ⟨nofun, nofun⟩, fun _ => ⟨?_, nofun⟩, fun _ => ⟨?_, nofun⟩,
    fun _ => ⟨nofun, nofun⟩, trivial⟩
  all_goals
    rintro _ _ p roomId displayName ⟨⟩ hk
    cases hk
    try decide

/-- `p` is in room `b` when it gets the message of room `a`. -/
theorem not_deliversWithin_movesOn :
    ¬ gateways.Meets DeliversWithin {} (movesOnEvents ++ [.arrive 3 "p"]) := by
  intro h
  have hroom := h.last (by decide) 3 "p" _ rfl rfl (by decide)
  revert hroom
  decide

end MeetServer.Realtime
