import MeetServer.Foundation.EventLog
import MeetServer.Realtime.Isolation

/-!
# `ChatService` and `ChatGateway.sendChatMessage`

The stream of one room as an event log, without trimming, and the handler that
appends to it.  The entry that XADD has made is on its way back to the handler
before it is broadcast and acknowledged.
-/

namespace MeetServer.Realtime

open MeetServer.Foundation MeetServer.Foundation.Keyspace

abbrev ChatEntry := StreamId × ChatMessage

abbrev ChatStream := EventLog ChatMessage

namespace ChatStream

def addMessage (stream : ChatStream) (now : Nat) (message : ChatMessage) : ChatStream :=
  stream.append now message

def getHistory (stream : ChatStream) (afterId : Option StreamId) : List ChatEntry :=
  stream.after afterId

def deleteRoomHistory : ChatStream := {}

/-! ## The commands of `ChatService` -/

def StoredAt (stream : ChatStream) (s : Store) (roomId : RoomId) : Prop :=
  asStream (s (streamKey roomId)) =
    .ok (stream.lastId, stream.entries.map fun entry => (entry.1, Text.message entry.2))

variable {stream : ChatStream} {s : Store} {roomId : RoomId}

theorem StoredAt.addMessage (h : stream.StoredAt s roomId) (now : Nat) (message : ChatMessage) :
    ((Realtime.addMessage id roomId now message).exec s).1 =
        .ok ((stream.addMessage now message).lastId, message) ∧
      (stream.addMessage now message).StoredAt
        ((Realtime.addMessage id roomId now message).exec s).2 roomId := by
  rw [StoredAt] at h
  simp only [Realtime.addMessage, Client.exec_bind, xadd, exec_onKey, h, Except.map]
  refine ⟨rfl, ?_⟩
  change asStream (Function.update s _ _ _) = _
  rw [Function.update_self]
  simp [asStream, ChatStream.addMessage, EventLog.append]

theorem StoredAt.exec_xrange (h : stream.StoredAt s roomId) (afterId : Option StreamId) :
    (Client.exec (xrange (streamKey roomId) afterId) s).1 =
      .ok ((stream.getHistory afterId).map fun entry => (entry.1, Text.message entry.2)) := by
  rw [StoredAt] at h
  simp only [xrange, exec_onKey, h, Except.map, ChatStream.getHistory, EventLog.after,
    List.filter_map]
  rfl

theorem StoredAt.getHistory_none (h : stream.StoredAt s roomId) :
    ((Realtime.getHistory roomId none).exec s).1 =
      .ok ((stream.getHistory none).map fun entry => (entry.1, Text.message entry.2)) :=
  h.exec_xrange none

theorem StoredAt.getHistory_some (h : stream.StoredAt s roomId) {text : String} {id : StreamId}
    (hne : text ≠ "") (hid : parseStreamId text = some id) :
    ((Realtime.getHistory roomId (some text)).exec s).1 =
      .ok ((stream.getHistory (some id)).map fun entry => (entry.1, Text.message entry.2)) := by
  unfold Realtime.getHistory
  split
  · next heq => cases heq
  · next heq => exact (hne (Option.some.inj heq)).elim
  · next text' _ heq =>
    cases heq
    rw [hid]
    exact h.exec_xrange (some id)

theorem StoredAt.deleteRoomHistory (s : Store) (roomId : RoomId) :
    ChatStream.deleteRoomHistory.StoredAt
      ((Realtime.deleteRoomHistory roomId).exec s).2 roomId := by
  simp [StoredAt, Realtime.deleteRoomHistory, del, exec_onKey, asStream,
    ChatStream.deleteRoomHistory]

end ChatStream

/-! ## `sendChatMessage` -/

inductive SendChatMessage where
  | call
  | getPeer
  | addMessage (message : ChatMessage)
  /-- XADD has made the entry. -/
  | emit (entry : ChatEntry)
  | returned (entry : ChatEntry)
  | threw
  deriving DecidableEq

namespace SendChatMessage

/-- What a step leaves behind, and what it broadcasts to the room. -/
structure Result where
  stream : ChatStream
  emitted : Option ChatEntry := none
  point : SendChatMessage

/-- `now` is the time at Redis or at the instance, whichever the step reads. -/
def step (contexts : List PeerId) (peers : Dict PeerId Peer) (peerId : PeerId) (body : String)
    (now : Nat) (ok : Bool) (stream : ChatStream) : SendChatMessage → Option Result
  | .call =>
      some { stream, point := if peerId ∈ contexts then .getPeer else .threw }
  | .getPeer =>
      if ok then
        match peers.lookup peerId with
        | none => some { stream, point := .threw }
        | some peer =>
            some {
              stream
              point := .addMessage {
                peerId, displayName := peer.displayName, body, ts := now } }
      else some { stream, point := .threw }
  | .addMessage message =>
      if ok then
        let stream := stream.addMessage now message
        some { stream, point := .emit (stream.lastId, message) }
      else some { stream, point := .threw }
  -- `{ ok: true }` goes out with the broadcast.
  | .emit entry =>
      if ok then some { stream, emitted := some entry, point := .returned entry }
      else some { stream, point := .threw }
  | .returned _ | .threw => none

/-- The entry that the handler has made and not broadcast. -/
def made : SendChatMessage → Option ChatEntry
  | .emit entry => some entry
  | _ => none

inductive Step (ok : Bool) (stream : ChatStream) : SendChatMessage → Result → Prop
  | quiet {point point' : SendChatMessage} : point'.made = none →
      (∀ entry, point.made = some entry → ok = false) →
      Step ok stream point { stream, point := point' }
  | added {now : Nat} {message : ChatMessage} :
      Step ok stream (.addMessage message) {
        stream := stream.addMessage now message
        point := .emit ((stream.addMessage now message).lastId, message) }
  | emitted {entry : ChatEntry} : ok = true →
      Step ok stream (.emit entry) {
        stream, emitted := some entry, point := .returned entry }

theorem step_cases {contexts : List PeerId} {peers : Dict PeerId Peer} {peerId : PeerId}
    {body : String} {now : Nat} {ok : Bool} {stream : ChatStream} {point : SendChatMessage}
    {result : Result} (h : point.step contexts peers peerId body now ok stream = some result) :
    Step ok stream point result := by
  cases point with
  | call =>
      cases h
      refine .quiet ?_ nofun
      split <;> rfl
  | getPeer =>
      simp only [step] at h
      split at h
      · split at h <;> cases h <;> exact .quiet rfl nofun
      · cases h
        exact .quiet rfl nofun
  | addMessage message =>
      simp only [step] at h
      split at h <;> cases h
      · exact .added
      · exact .quiet rfl nofun
  | emit entry =>
      simp only [step] at h
      split at h
      · next hok =>
        cases h
        exact .emitted hok
      · next hok =>
        cases h
        exact .quiet rfl fun _ _ => by simpa using hok
  | returned entry => cases h
  | threw => cases h

variable {ok : Bool} {stream : ChatStream} {point : SendChatMessage} {result : Result}
  {entry : ChatEntry}

theorem Step.entries_subset (h : Step ok stream point result) :
    stream.entries ⊆ result.stream.entries := by
  cases h with
  | quiet | emitted => exact List.Subset.refl _
  | added => exact List.subset_append_left _ _

theorem Step.mem_of_made (h : Step ok stream point result)
    (hmade : result.point.made = some entry) : entry ∈ result.stream.entries := by
  cases h with
  | quiet hnone => rw [hnone] at hmade; cases hmade
  | added =>
      cases hmade
      exact EventLog.mem_append.2 (.inr rfl)
  | emitted => cases hmade

theorem Step.made_of_emitted (h : Step ok stream point result)
    (hemitted : result.emitted = some entry) : point.made = some entry := by
  cases h with
  | quiet | added => cases hemitted
  | emitted => exact hemitted

end SendChatMessage

end MeetServer.Realtime
