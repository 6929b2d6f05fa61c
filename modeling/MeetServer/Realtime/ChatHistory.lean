import MeetServer.Realtime.Chat
import MeetServer.Realtime.Membership

/-!
# The chat of a room that is open again

`leave` deletes the chat of the room it has closed without waiting for the answer,
by a DEL of the key that a new room of the same id uses.  Peers that join in
between lose the messages they have sent.
-/

namespace MeetServer.Realtime

open MeetServer.Foundation

variable {ι κ : Type}

inductive ChatCall (ι κ : Type) where
  | signaling (call : Call ι κ)
  | sendChatMessage (peerId : PeerId) (body : String) (point : SendChatMessage)

inductive ChatRequest where
  | signaling (request : Request)
  | sendChatMessage (peerId : PeerId) (body : String)
  deriving DecidableEq, Repr

def ChatRequest.call : ChatRequest → ChatCall ι κ
  | .signaling request => .signaling request.call
  | .sendChatMessage peerId body => .sendChatMessage peerId body .call

def Call.hasClosed : Call ι κ → Bool
  | .leave _ (.delProducerHashes _ _ _) | .leave _ (.closed _ _ _) => true
  | _ => false

/-- The room, its chat, and the sockets that have a context in it. -/
structure ChatRoom (ι κ : Type) where
  world : World ι κ
  stream : ChatStream
  contexts : List PeerId
  closed : Bool := false
  /-- The members that have joined since the room was closed. -/
  newcomers : List PeerId := []
  /-- The messages that have been acknowledged to them. -/
  acknowledged : List ChatEntry := []

namespace ChatRoom

def newcomersIn (s : ChatRoom ι κ) (w : World ι κ) : List PeerId :=
  w.redis.hkeys.filter fun p => p ∈ s.newcomers ∨ (s.closed ∧ p ∉ s.world.redis.hkeys)

def signal (s : ChatRoom ι κ) (event : Event) (w : World ι κ) (call : Call ι κ) :
    ChatRoom ι κ where
  world := w
  stream := if event = .deleteRoomHistory true then .deleteRoomHistory else s.stream
  contexts := s.contexts ++ call.joined.toList
  closed := s.closed || call.hasClosed
  newcomers := s.newcomersIn w
  acknowledged := s.acknowledged.filter fun entry => entry.2.peerId ∈ s.newcomersIn w

def chat (s : ChatRoom ι κ) (result : SendChatMessage.Result) : ChatRoom ι κ :=
  { s with
    stream := result.stream
    acknowledged := s.acknowledged ++
      result.emitted.toList.filter fun entry => entry.2.peerId ∈ s.newcomers }

end ChatRoom

variable [DecidableEq ι] [DecidableEq κ]

def ChatCall.step (roomId : RoomId) (i : ι) (label : Event × Nat) (s : ChatRoom ι κ) :
    ChatCall ι κ → Option (ChatRoom ι κ × ChatCall ι κ)
  | .signaling call =>
      (call.step roomId i label.1 s.world).map fun r =>
        (s.signal label.1 r.1 r.2, .signaling r.2)
  | .sendChatMessage peerId body point =>
      match label with
      | (.settle ok, now) =>
          (point.step s.contexts s.world.redis.peers peerId body now ok s.stream).map fun r =>
            (s.chat r, .sendChatMessage peerId body r.point)
      | _ => none

abbrev ChatCalls (ι κ : Type) := Pool ι (ChatRoom ι κ) (ChatCall ι κ)

/-- The calls in any interleaving; a label has the time that the step reads. -/
def chatting (roomId : RoomId) : System (ChatCalls ι κ) (ι × Event × Nat) :=
  Pool.system (ChatCall.step roomId)

omit [DecidableEq ι] [DecidableEq κ] in
def ChatCalls.issued (world : World ι κ) (stream : ChatStream) (contexts : List PeerId)
    (requests : ι → ChatRequest) : ChatCalls ι κ :=
  ⟨{ world, stream, contexts }, fun i => (requests i).call⟩

/-- What has been acknowledged to a member that has joined since the room was closed is in
the history. -/
def KeepsMessages (p : ChatCalls ι κ) : Prop :=
  ∀ entry ∈ p.world.acknowledged, entry ∈ p.world.stream.getHistory none

/-- The chat is deleted before anything has been acknowledged to a peer that has joined
since, and not between the XADD and the acknowledgement of its message. -/
def DeletesOldMessages (p : ChatCalls ι κ) (a : ι × Event × Nat) : Prop :=
  match p.proc a.1 with
  | .signaling _ => a.2.1 = .deleteRoomHistory true → p.world.acknowledged = []
  | .sendChatMessage _ _ point => ∀ entry, point.made = some entry → a.2.1 = .settle true →
      entry.2.peerId ∈ p.world.newcomers → entry ∈ p.world.stream.entries

structure Acknowledging (p : ChatCalls ι κ) : Prop where
  keeps : KeepsMessages p
  senders : ∀ entry ∈ p.world.acknowledged, entry.2.peerId ∈ p.world.newcomers
  members : ∀ peerId ∈ p.world.newcomers, peerId ∈ p.world.world.redis.hkeys

variable {roomId : RoomId} {p p' : ChatCalls ι κ} {a : ι × Event × Nat}

theorem Call.peers_of_deleteRoomHistory {i : ι} {ok : Bool} {w w' : World ι κ}
    {call call' : Call ι κ}
    (h : call.step roomId i (.deleteRoomHistory ok) w = some (w', call')) :
    w'.redis.peers = w.redis.peers := by
  cases call with
  | join instanceId peer point => cases point <;> cases h
  | createWebRtcTransport peerId direction point => cases h
  | leave peerId point =>
      obtain ⟨⟨w', point'⟩, hstep, hr⟩ := Option.map_eq_some_iff.1 h
      cases hr
      have hs := Leave.step_cases hstep
      cases point with
      | closed url close historyDeleted =>
          generalize (Event.deleteRoomHistory ok).ok = ok' at hs
          cases hs <;> rfl
      | _ => cases hstep

/-- Deleting the chat takes nobody out of the room. -/
theorem Acknowledging.acknowledged_deleted (h : Acknowledging p) {i : ι} {ok : Bool}
    {w' : World ι κ} {call call' : Call ι κ}
    (hstep : call.step roomId i (.deleteRoomHistory ok) p.world.world = some (w', call')) :
    (p.world.signal (.deleteRoomHistory ok) w' call').acknowledged = p.world.acknowledged := by
  refine List.filter_eq_self.2 fun entry hentry => decide_eq_true ?_
  have hnewcomer := h.senders entry hentry
  refine List.mem_filter.2 ⟨?_, decide_eq_true (.inl hnewcomer)⟩
  rw [RoomKeys.hkeys, Call.peers_of_deleteRoomHistory hstep]
  exact h.members _ hnewcomer

theorem Acknowledging.keeps_step (h : Acknowledging p)
    (hstep : (chatting roomId).step p a = some p') :
    KeepsMessages p' ↔ DeletesOldMessages p a := by
  obtain ⟨i, event, now⟩ := a
  obtain ⟨s', call', hcall, rfl⟩ := Pool.step_eq_some.1 hstep
  simp only [KeepsMessages, DeletesOldMessages, Pool.set_world, ChatStream.getHistory,
    EventLog.mem_after_none]
  have hkeeps := h.keeps
  simp only [KeepsMessages, ChatStream.getHistory, EventLog.mem_after_none] at hkeeps
  generalize p.proc i = call at hcall
  cases call with
  | signaling call =>
      obtain ⟨⟨w', call'⟩, hworld, hr⟩ := Option.map_eq_some_iff.1 hcall
      cases hr
      by_cases hevent : event = .deleteRoomHistory true
      · subst hevent
        rw [h.acknowledged_deleted hworld, List.eq_nil_iff_forall_not_mem]
        exact ⟨fun hall _ entry hentry => List.not_mem_nil (hall entry hentry),
          fun hnone entry hentry => (hnone rfl entry hentry).elim⟩
      · refine iff_of_true (fun entry hentry => ?_) fun heq => (hevent heq).elim
        simp only [ChatRoom.signal, if_neg hevent]
        exact hkeeps entry (List.mem_of_mem_filter hentry)
  | sendChatMessage peerId body point =>
      cases event with
      | settle ok =>
          obtain ⟨r, hsend, hr⟩ := Option.map_eq_some_iff.1 hcall
          cases hr
          have hs := SendChatMessage.step_cases hsend
          cases hs with
          | quiet _ hfailed =>
              refine iff_of_true (by simpa [ChatRoom.chat] using hkeeps) fun entry hmade hok => ?_
              rw [hfailed entry hmade] at hok
              cases hok
          | added =>
              refine iff_of_true (fun entry hentry => ?_) (by rintro _ ⟨⟩)
              rw [ChatRoom.chat, Option.toList_none, List.filter_nil, List.append_nil] at hentry
              exact EventLog.mem_append.2 (.inl (hkeeps entry hentry))
          | @emitted entry hok =>
              subst hok
              simp only [ChatRoom.chat, Option.toList_some, SendChatMessage.made,
                Option.some.injEq]
              constructor
              · rintro hall _ rfl - hnewcomer
                exact hall entry (List.mem_append_right _ (by simpa using hnewcomer))
              · intro hdelete entry' hentry'
                rcases List.mem_append.1 hentry' with hentry' | hentry'
                · exact hkeeps entry' hentry'
                · obtain ⟨hentry', hnewcomer⟩ := List.mem_filter.1 hentry'
                  rw [List.mem_singleton] at hentry'
                  subst hentry'
                  exact hdelete _ rfl trivial (by simpa using hnewcomer)
      | _ => cases hcall

theorem Acknowledging.step (h : Acknowledging p)
    (hstep : (chatting roomId).step p a = some p') (hkeeps : KeepsMessages p') :
    Acknowledging p' := by
  obtain ⟨i, event, now⟩ := a
  obtain ⟨s', call', hcall, rfl⟩ := Pool.step_eq_some.1 hstep
  generalize p.proc i = call at hcall
  cases call with
  | signaling call =>
      obtain ⟨⟨w', call'⟩, hworld, hr⟩ := Option.map_eq_some_iff.1 hcall
      cases hr
      refine ⟨hkeeps, fun entry hentry => ?_, fun peerId hpeer => (List.mem_filter.1 hpeer).1⟩
      exact of_decide_eq_true (List.mem_filter.1 hentry).2
  | sendChatMessage peerId body point =>
      cases event with
      | settle ok =>
          obtain ⟨r, hsend, hr⟩ := Option.map_eq_some_iff.1 hcall
          cases hr
          refine ⟨hkeeps, fun entry hentry => ?_, h.members⟩
          rcases List.mem_append.1 hentry with hentry | hentry
          · exact h.senders entry hentry
          · exact of_decide_eq_true (List.mem_filter.1 hentry).2
      | _ => cases hcall

omit [DecidableEq ι] [DecidableEq κ] in
theorem Acknowledging.issued (world : World ι κ) (stream : ChatStream) (contexts : List PeerId)
    (requests : ι → ChatRequest) :
    Acknowledging (ChatCalls.issued world stream contexts requests) where
  keeps := nofun
  senders := nofun
  members := nofun

/-- No acknowledged message of a member that has joined since the close is ever missing from
the history exactly when every DEL of the chat comes before such messages. -/
theorem holds_keepsMessages_iff (roomId : RoomId) (world : World ι κ) (stream : ChatStream)
    (contexts : List PeerId) (requests : ι → ChatRequest) (labels : List (ι × Event × Nat)) :
    (chatting roomId).Holds KeepsMessages
        (ChatCalls.issued world stream contexts requests) labels ↔
      (chatting roomId).Meets DeletesOldMessages
        (ChatCalls.issued world stream contexts requests) labels :=
  System.holds_iff_meets_of_iff (I := Acknowledging) (fun _ h => h.keeps)
    (fun _ _ _ h => h.step) (fun _ _ _ h => h.keeps_step)
    (.issued world stream contexts requests) labels

instance (p : ChatCalls ι κ) : Decidable (KeepsMessages p) :=
  inferInstanceAs (Decidable (∀ entry ∈ p.world.acknowledged, _))

/-! The last member leaves, another peer joins and chats, and then the DEL is processed. -/

def lateDeletion : Fin 4 → ChatRequest
  | 0 => .signaling (.join 0 ⟨"p", "Pia"⟩)
  | 1 => .signaling (.leave "p")
  | 2 => .signaling (.join 1 ⟨"q", "Quin"⟩)
  | 3 => .sendChatMessage "q" "hello"

def emptyRoom : World (Fin 4) Unit := .fresh ["n"] fun _ => .spawned [0]

def joins (i : Fin 4) : List (Fin 4 × Event × Nat) :=
  [(i, .settle true, 0), (i, .stats 0 true, 0)] ++ List.replicate 7 (i, .settle true, 0)

def lateDeletionSchedule : List (Fin 4 × Event × Nat) :=
  joins 0 ++ List.replicate 8 (1, .settle true, 0) ++ joins 2 ++
    List.replicate 4 (3, .settle true, 1) ++ [(1, .deleteRoomHistory true, 1)]

/-- The message of `q`, who is still a member, is gone. -/
theorem not_keepsMessages_lateDeletion :
    ¬ KeepsMessages ((chatting "r").run
      (ChatCalls.issued emptyRoom {} [] lateDeletion) lateDeletionSchedule) := by
  decide

end MeetServer.Realtime
