import MeetServer.Foundation.Channels
import MeetServer.Foundation.Pool
import MeetServer.Realtime.Chat

/-!
# Resuming the chat after a cut

A member asks for the history after the last `chatMessage` it has received.  The
handlers broadcast in another order than they append, so that message may be
younger than one which has not arrived.
-/

namespace MeetServer.Realtime

open MeetServer.Foundation

variable {ι : Type}

/-- One room's chat, and the connection of the member `m` to it. -/
structure ChatLine where
  peers : Dict PeerId Peer := ∅
  contexts : List PeerId := []
  stream : ChatStream
  hub : Hub PeerId RoomId ChatEntry
  joined : Bool := false
  /-- What has been appended since `m` joined. -/
  appended : List ChatEntry := []

inductive LineEvent (ι : Type) where
  | sendChatMessage (i : ι) (now : Nat) (ok : Bool)
  | members (peers : Dict PeerId Peer) (contexts : List PeerId)
  | join
  /-- The `k`th broadcast arrives at `m`. -/
  | arrive (k : Nat)
  | disconnect

namespace ChatLine

def advance (roomId : RoomId) (s : ChatLine) (result : SendChatMessage.Result) : ChatLine :=
  { s with
    stream := result.stream
    hub :=
      match result.emitted with
      | none => s.hub
      | some entry => s.hub.emit roomId entry none
    appended := if s.joined then s.appended ++ result.point.made.toList else s.appended }

/-- The events of `m` count from here on. -/
def join (roomId : RoomId) (m : PeerId) (s : ChatLine) : ChatLine :=
  { s with
    hub := { s.hub.join m roomId with received := Function.update s.hub.received m [] }
    joined := true }

end ChatLine

abbrev ChatLines (ι : Type) := Pool ι ChatLine SendChatMessage

variable [DecidableEq ι]

/-- The handlers `i` run on any instances, each for a peer and a body. -/
def delivery (roomId : RoomId) (m : PeerId) (sent : ι → PeerId × String) :
    System (ChatLines ι) (LineEvent ι) where
  step p
    | .sendChatMessage i now ok =>
        ((p.proc i).step p.world.contexts p.world.peers (sent i).1 (sent i).2 now ok
          p.world.stream).map fun r => p.set i (p.world.advance roomId r) r.point
    | .members peers contexts => some { p with world := { p.world with peers, contexts } }
    | .join =>
        if p.world.hub.connected m ∧ p.world.joined = false then
          some { p with world := p.world.join roomId m }
        else none
    | .arrive k =>
        (p.world.hub.arrive k m).map fun hub => { p with world := { p.world with hub } }
    | .disconnect =>
        if p.world.hub.connected m then
          some { p with world := { p.world with hub := p.world.hub.disconnect m } }
        else none

omit [DecidableEq ι] in
/-- `m` is connected, and nothing is under way. -/
def ChatLines.connected (m : PeerId) (stream : ChatStream) : ChatLines ι :=
  ⟨{ stream, hub := Hub.connect {} m m }, fun _ => .call⟩

/-- What has been appended since `m` joined has been received or is in the history after
the last message received. -/
def LosesNothing (m : PeerId) (p : ChatLines ι) : Prop :=
  ∀ entry ∈ p.world.appended, entry ∈ p.world.hub.received m ∨
    entry ∈ p.world.stream.getHistory ((p.world.hub.received m).getLast?.map Prod.fst)

/-- Whatever was appended earlier, since the join, has been received before. -/
def ArrivesInOrder (m : PeerId) (p : ChatLines ι) : LineEvent ι → Prop
  | .arrive k => ∀ b, p.world.hub.inFlight[k]? = some b → p.world.hub.reaches b m →
      ∀ entry ∈ p.world.appended, entry.1.Before b.message.1 → entry ∈ p.world.hub.received m
  | _ => True

structure Delivering (m : PeerId) (p : ChatLines ι) : Prop where
  losesNothing : LosesNothing m p
  appended : p.world.appended ⊆ p.world.stream.entries
  received : p.world.hub.received m ⊆ p.world.stream.entries
  sent : ∀ b ∈ p.world.hub.inFlight, b.message ∈ p.world.stream.entries
  made : ∀ i entry, (p.proc i).made = some entry → entry ∈ p.world.stream.entries
  early : p.world.joined = false → p.world.appended = []

variable {roomId : RoomId} {m : PeerId} {sent : ι → PeerId × String} {p p' : ChatLines ι}
  {event : LineEvent ι}

theorem ChatLine.received_advance (s : ChatLine) (result : SendChatMessage.Result) :
    (s.advance roomId result).hub.received = s.hub.received := by
  unfold advance
  split <;> rfl

theorem ChatLine.mem_appended_advance {s : ChatLine} {result : SendChatMessage.Result}
    {entry : ChatEntry} (h : entry ∈ (s.advance roomId result).appended) :
    entry ∈ s.appended ∨ s.joined = true ∧ result.point.made = some entry := by
  simp only [advance] at h
  split at h
  · next hjoined =>
    rcases List.mem_append.1 h with h | h
    · exact .inl h
    · exact .inr ⟨hjoined, by simpa using h⟩
  · exact .inl h

omit [DecidableEq ι] in
theorem losesNothing_iff : LosesNothing m p ↔
    p.world.stream.Resumable p.world.appended (p.world.hub.received m) := Iff.rfl

theorem Delivering.losesNothing_advance (h : Delivering m p) {i : ι} {ok : Bool}
    {result : SendChatMessage.Result} (hs : (p.proc i).Step ok p.world.stream result) :
    LosesNothing m (p.set i (p.world.advance roomId result) result.point) := by
  rw [losesNothing_iff, Pool.set_world, ChatLine.received_advance]
  have hold := losesNothing_iff.1 h.losesNothing
  generalize p.proc i = point at hs
  cases hs with
  | quiet hnone =>
      refine hold.mono fun entry hentry => ?_
      rcases ChatLine.mem_appended_advance hentry with hentry | ⟨-, hmade⟩
      · exact hentry
      · rw [hnone] at hmade
        cases hmade
  | @added now message =>
      refine (hold.append h.received now message).mono fun entry hentry => ?_
      rcases ChatLine.mem_appended_advance hentry with hentry | ⟨-, hmade⟩
      · exact List.mem_append_left _ hentry
      · cases hmade
        exact List.mem_append_right _ List.mem_cons_self
  | emitted =>
      refine hold.mono fun entry hentry => ?_
      rcases ChatLine.mem_appended_advance hentry with hentry | ⟨-, hmade⟩
      · exact hentry
      · cases hmade

theorem Delivering.losesNothing_step (h : Delivering m p)
    (hstep : (delivery roomId m sent).step p event = some p') :
    LosesNothing m p' ↔ ArrivesInOrder m p event := by
  cases event with
  | sendChatMessage i now ok =>
      obtain ⟨r, hsend, rfl⟩ := Option.map_eq_some_iff.1 hstep
      exact iff_of_true (h.losesNothing_advance (SendChatMessage.step_cases hsend)) trivial
  | members peers contexts =>
      cases hstep
      exact iff_of_true h.losesNothing trivial
  | join =>
      obtain ⟨⟨-, hjoined⟩, hp'⟩ := Option.ite_none_right_eq_some.1 hstep
      cases hp'
      refine iff_of_true (fun entry hentry => ?_) trivial
      rw [show (p.world.join roomId m).appended = [] from h.early hjoined] at hentry
      cases hentry
  | arrive k =>
      obtain ⟨hub, harrive, rfl⟩ := Option.map_eq_some_iff.1 hstep
      obtain ⟨b, hb⟩ := Hub.arrive_eq_some harrive
      have hreceived := hb.received m
      simp only [losesNothing_iff, ArrivesInOrder, hb.sent, Option.some.injEq, forall_eq']
      by_cases hreaches : p.world.hub.reaches b m
      · rw [hreceived, if_pos ⟨rfl, hreaches⟩,
          EventLog.resumable_concat h.appended (h.sent b (List.mem_of_getElem? hb.sent))]
        exact ⟨fun hall _ => hall, fun hall => hall hreaches⟩
      · rw [hreceived, if_neg fun hand => hreaches hand.2]
        exact iff_of_true h.losesNothing fun hr => (hreaches hr).elim
  | disconnect =>
      obtain ⟨-, hp'⟩ := Option.ite_none_right_eq_some.1 hstep
      cases hp'
      exact iff_of_true h.losesNothing trivial

theorem ChatLine.inFlight_advance {s : ChatLine} {result : SendChatMessage.Result}
    {b : Broadcast PeerId RoomId ChatEntry} (h : b ∈ (s.advance roomId result).hub.inFlight) :
    b ∈ s.hub.inFlight ∨ result.emitted = some b.message := by
  simp only [advance] at h
  split at h
  · exact .inl h
  · next entry hentry =>
    rcases List.mem_append.1 h with h | h
    · exact .inl h
    · rw [List.mem_singleton.1 h]
      exact .inr hentry

theorem Delivering.advance (h : Delivering m p) {i : ι} {ok : Bool}
    {result : SendChatMessage.Result} (hs : (p.proc i).Step ok p.world.stream result) :
    Delivering m (p.set i (p.world.advance roomId result) result.point) where
  losesNothing := h.losesNothing_advance hs
  appended entry hentry := by
    rcases ChatLine.mem_appended_advance hentry with hentry | ⟨-, hmade⟩
    · exact hs.entries_subset (h.appended hentry)
    · exact hs.mem_of_made hmade
  received entry hentry := by
    rw [Pool.set_world, ChatLine.received_advance] at hentry
    exact hs.entries_subset (h.received hentry)
  sent b hb := by
    rcases ChatLine.inFlight_advance hb with hb | hemitted
    · exact hs.entries_subset (h.sent b hb)
    · exact hs.entries_subset (h.made i _ (hs.made_of_emitted hemitted))
  made j entry hentry := by
    rw [Pool.set_proc] at hentry
    split at hentry
    · exact hs.mem_of_made hentry
    · exact hs.entries_subset (h.made j entry hentry)
  early hjoined := by
    have hjoined : p.world.joined = false := hjoined
    simp [ChatLine.advance, hjoined, h.early hjoined]

theorem Delivering.step (h : Delivering m p)
    (hstep : (delivery roomId m sent).step p event = some p') (hloses : LosesNothing m p') :
    Delivering m p' := by
  cases event with
  | sendChatMessage i now ok =>
      obtain ⟨r, hsend, rfl⟩ := Option.map_eq_some_iff.1 hstep
      exact h.advance (SendChatMessage.step_cases hsend)
  | members peers contexts =>
      cases hstep
      exact ⟨h.losesNothing, h.appended, h.received, h.sent, h.made, h.early⟩
  | join =>
      obtain ⟨-, hp'⟩ := Option.ite_none_right_eq_some.1 hstep
      cases hp'
      exact ⟨hloses, h.appended, by simp [ChatLine.join], h.sent, h.made, nofun⟩
  | arrive k =>
      obtain ⟨hub, harrive, rfl⟩ := Option.map_eq_some_iff.1 hstep
      obtain ⟨b, hb⟩ := Hub.arrive_eq_some harrive
      have hmem := h.sent b (List.mem_of_getElem? hb.sent)
      refine ⟨hloses, h.appended, fun entry hentry => ?_, fun b' hb' => ?_, h.made, h.early⟩
      · simp only [hb.received] at hentry
        split at hentry
        · rcases List.mem_append.1 hentry with hentry | hentry
          · exact h.received hentry
          · rwa [List.mem_singleton.1 hentry]
        · exact h.received hentry
      · simp only [hb.inFlight] at hb'
        rcases List.mem_or_eq_of_mem_set hb' with hb' | rfl
        · exact h.sent b' hb'
        · exact hmem
  | disconnect =>
      obtain ⟨-, hp'⟩ := Option.ite_none_right_eq_some.1 hstep
      cases hp'
      exact ⟨h.losesNothing, h.appended, h.received, h.sent, h.made, h.early⟩

omit [DecidableEq ι] in
theorem Delivering.connected (m : PeerId) (stream : ChatStream) :
    Delivering m (ChatLines.connected m stream : ChatLines ι) where
  losesNothing := nofun
  appended := List.nil_subset _
  received := List.nil_subset _
  sent := nofun
  made := nofun
  early _ := rfl

/-- Resuming after the last message received loses nothing, whenever the connection is cut,
exactly when the broadcasts reach the member in the order of the history. -/
theorem holds_losesNothing_iff (roomId : RoomId) (m : PeerId) (stream : ChatStream)
    (sent : ι → PeerId × String) (events : List (LineEvent ι)) :
    (delivery roomId m sent).Holds (LosesNothing m) (ChatLines.connected m stream) events ↔
      (delivery roomId m sent).Meets (ArrivesInOrder m) (ChatLines.connected m stream) events :=
  System.holds_iff_meets_of_iff (I := Delivering m) (fun _ h => h.losesNothing)
    (fun _ _ _ h => h.step) (fun _ _ _ h => h.losesNothing_step) (.connected m stream) events

/-! Two messages are broadcast in the other order, and the connection is cut between them. -/

def crossing : List (LineEvent (Fin 2)) :=
  [.members (AList.insert "p" ⟨"p", "Pia"⟩ ∅) ["p"], .join] ++
    List.replicate 3 (.sendChatMessage 0 1 true) ++
    List.replicate 4 (.sendChatMessage 1 1 true) ++
    [.arrive 0, .disconnect, .sendChatMessage 0 1 true, .arrive 1]

instance (m : PeerId) (p : ChatLines ι) : Decidable (LosesNothing m p) :=
  inferInstanceAs (Decidable (∀ entry ∈ p.world.appended, _))

/-- The first message is neither received nor after the second. -/
theorem not_losesNothing_crossing :
    ¬ LosesNothing "m" ((delivery "r" "m" fun _ => ("p", "hello")).run
      (ChatLines.connected "m" {}) crossing) := by
  decide

end MeetServer.Realtime
