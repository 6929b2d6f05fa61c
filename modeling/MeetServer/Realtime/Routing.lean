import MeetServer.Foundation.Simulation
import MeetServer.Realtime.Signaling
import MeetServer.Rest.Remote

/-!
# The ids in the URLs

`SfuClientService` puts the ids into a path as they are, so a request about a
room may reach its node as a request about another room, as a call of another
handler or not at all.  Here `join` and `leave` make the requests that their URLs
come to.  Ids that survive the URL are received as they were sent, and the calls
are those of `SignalingService` as it is written.
-/

namespace MeetServer.Realtime

open MeetServer.Foundation
open MeetServer.Rest (MediaRoomsController Survives)

variable {ι κ : Type}

/-- The room for which the node gets the PUT. -/
def receivedRoomId (roomId : RoomId) : Option RoomId :=
  match MediaRoomsController (Rest.Operation.createOrGetMediaRoom roomId).request with
  | some (.createOrGetMediaRoom received) => some received
  | _ => none

theorem receivedRoomId_eq_self_iff {roomId : RoomId} :
    receivedRoomId roomId = some roomId ↔
      Survives .createOrGetRoom (Rest.Operation.createOrGetMediaRoom roomId).params := by
  refine Iff.trans ?_ (Rest.mediaRoomsController_request_iff (.createOrGetMediaRoom roomId))
  unfold receivedRoomId
  split
  · next received hreceived => simp [hreceived]
  · next hother =>
    refine ⟨nofun, fun h => ?_⟩
    exact absurd h (hother roomId)

section Join

variable [DecidableEq ι] [DecidableEq κ]

/-! ## `join` -/

/-- The node works for the room it has received; the record is for the room that was
asked for. -/
def GetOrCreateRoom.routedPut (i : ι) (instanceId : Instance) (roomId : RoomId)
    (received : Option RoomId) (url : Url) (ok : Bool) (w : World ι κ) :
    Sfu.GetOrCreateRoom (ι ⊕ κ) → Option (World ι κ × GetOrCreateRoom ι κ)
  | .returned r => advancePut i instanceId roomId url ok w (.returned r)
  | request =>
      match received with
      | some received => advancePut i instanceId received url ok w request
      | none => some (fail i instanceId w)

def GetOrCreateRoom.routedStep (i : ι) (instanceId : Instance) (roomId : RoomId)
    (event : Event) (w : World ι κ) (point : GetOrCreateRoom ι κ) :
    Option (World ι κ × GetOrCreateRoom ι κ) :=
  match event, point with
  | .settle ok, .createOrGetMediaRoom url request =>
      routedPut i instanceId roomId (receivedRoomId roomId) url ok w request
  | event, point => point.step i instanceId roomId event w

def Join.routedStep (i : ι) (instanceId : Instance) (roomId : RoomId) (peer : Peer)
    (event : Event) (w : World ι κ) (point : Join ι κ) : Option (World ι κ × Join ι κ) :=
  match point with
  | .getOrCreateRoom point =>
      (point.routedStep i instanceId roomId event w).map fun r =>
        (r.1, afterGetOrCreateRoom r.2)
  | point => point.step i instanceId roomId peer event w

variable {i : ι} {instanceId : Instance} {roomId : RoomId} {peer : Peer} {event : Event}
  {w : World ι κ}

theorem GetOrCreateRoom.routedStep_eq
    (h : Survives .createOrGetRoom (Rest.Operation.createOrGetMediaRoom roomId).params)
    (point : GetOrCreateRoom ι κ) :
    point.routedStep i instanceId roomId event w = point.step i instanceId roomId event w := by
  unfold routedStep
  split
  · next ok url request =>
    rw [receivedRoomId_eq_self_iff.2 h]
    cases request <;> rfl
  · rfl

theorem Join.routedStep_eq
    (h : Survives .createOrGetRoom (Rest.Operation.createOrGetMediaRoom roomId).params)
    (point : Join ι κ) :
    point.routedStep i instanceId roomId peer event w =
      point.step i instanceId roomId peer event w := by
  cases point with
  | getOrCreateRoom point => simp only [routedStep, GetOrCreateRoom.routedStep_eq h, step]
  | _ => rfl

end Join

/-! ## `leave` -/

/-- A `leave`; the DELETE of its peer may have reached `closeRoom`. -/
inductive RoutedLeave (ι κ : Type) where
  | leave (point : Leave ι κ)
  | closeRoom (url : Url) (received : RoomId) (close : Sfu.CloseRoom (ι ⊕ κ))
  deriving DecidableEq

namespace RoutedLeave

/-- What the caller waits for. -/
def point : RoutedLeave ι κ → Leave ι κ
  | .leave point => point
  | .closeRoom url _ _ => .sfuRemovePeer url false

/-- The requests have been received as they were sent. -/
def direct : RoutedLeave ι κ → Bool
  | .leave _ => true
  | .closeRoom _ _ _ => false

/-- The requests of a `leave`. -/
def operations (roomId : RoomId) (peerId : PeerId) : List Rest.Operation :=
  [.removePeer roomId peerId, .closeRoom roomId]

variable [DecidableEq ι] [DecidableEq κ]

/-- What the DELETE of the peer comes to; a 404 is caught like any other failure. -/
def removePeer (url : Url) (w : World ι κ) : Option Rest.Operation → World ι κ × RoutedLeave ι κ
  | some (.removePeer roomId peerId) =>
      (w.setSfu url ((w.sfu url).removePeer roomId peerId), .leave (.sfuRemovePeer url true))
  | some (.closeRoom roomId) => (w, .closeRoom url roomId .call)
  | _ => (w, .leave (.hlen url))

/-- What the un-awaited DELETE of the MediaRoom comes to. -/
def advanceClose (url : Url) (ok : Bool) (w : World ι κ) (close : Sfu.CloseRoom (ι ⊕ κ)) :
    Option Rest.Operation → Option (World ι κ × Sfu.CloseRoom (ι ⊕ κ))
  | some (.closeRoom roomId) => Leave.advanceClose roomId url ok w close
  | some (.removePeer roomId peerId) =>
      if close = .call then
        some (if ok then (w.setSfu url ((w.sfu url).removePeer roomId peerId), .returned false)
          else (w, .threw))
      else none
  | _ => if close = .call then some (w, .threw) else none

/-- The close that the DELETE of the peer has come to, and its answer. -/
def advanceRemoval (url : Url) (received : RoomId) (ok : Bool) (w : World ι κ) :
    Sfu.CloseRoom (ι ⊕ κ) → Option (World ι κ × RoutedLeave ι κ)
  | .returned _ | .threw => some (w, .leave (.hlen url))
  | close =>
      (close.step received ok (w.sfu url)).map fun r =>
        (w.setSfu url r.1, .closeRoom url received r.2)

def step (roomId : RoomId) (peerId : PeerId) (event : Event) (w : World ι κ)
    (point : RoutedLeave ι κ) : Option (World ι κ × RoutedLeave ι κ) :=
  match event, point with
  | .settle true, .leave (.sfuRemovePeer url false) =>
      some (removePeer url w
        (MediaRoomsController (Rest.Operation.removePeer roomId peerId).request))
  | .closeRoom ok, .leave (.closed url close historyDeleted) =>
      (advanceClose url ok w close
        (MediaRoomsController (Rest.Operation.closeRoom roomId).request)).map fun r =>
          (r.1, .leave (.closed url r.2 historyDeleted))
  | .settle ok, .closeRoom url received close => advanceRemoval url received ok w close
  | _, .closeRoom _ _ _ => none
  | event, .leave point =>
      (point.step roomId peerId event w).map fun r => (r.1, .leave r.2)

variable {roomId : RoomId} {peerId : PeerId} {event : Event} {w : World ι κ}

theorem step_leave (h : ∀ op ∈ operations roomId peerId, Survives op.route op.params)
    (point : Leave ι κ) :
    (leave point).step roomId peerId event w =
      (point.step roomId peerId event w).map fun r => (r.1, .leave r.2) := by
  have hremove := (Rest.mediaRoomsController_request_iff (.removePeer roomId peerId)).2
    (h (.removePeer roomId peerId) (by simp [operations]))
  have hclose := (Rest.mediaRoomsController_request_iff (.closeRoom roomId)).2
    (h (.closeRoom roomId) (by simp [operations]))
  cases event with
  | settle ok =>
      cases point with
      | sfuRemovePeer url processed =>
          cases ok with
          | true =>
              cases processed with
              | true => rfl
              | false =>
                  simp only [step, hremove]
                  rfl
          | false => cases processed <;> rfl
      | _ => cases ok <;> rfl
  | closeRoom ok =>
      cases point with
      | closed url close historyDeleted =>
          simp only [step, hclose, advanceClose, Leave.step, Option.map_map, Function.comp_def]
      | _ => rfl
  | stats k ok => rfl
  | deleteRoomHistory ok => rfl

theorem step_direct (h : ∀ op ∈ operations roomId peerId, Survives op.route op.params)
    {point : RoutedLeave ι κ} (hdirect : point.direct) :
    point.point.step roomId peerId event w =
      (point.step roomId peerId event w).map (Prod.map id RoutedLeave.point) := by
  cases point with
  | leave point =>
      rw [step_leave h, Option.map_map]
      exact Option.map_id'.symm
  | closeRoom => cases hdirect

theorem direct_of_step (h : ∀ op ∈ operations roomId peerId, Survives op.route op.params)
    {point point' : RoutedLeave ι κ} {w' : World ι κ} (hdirect : point.direct)
    (hstep : point.step roomId peerId event w = some (w', point')) : point'.direct := by
  cases point with
  | leave point =>
      rw [step_leave h, Option.map_eq_some_iff] at hstep
      obtain ⟨⟨w', point'⟩, -, heq⟩ := hstep
      cases heq
      rfl
  | closeRoom => cases hdirect

end RoutedLeave

/-! ## The calls with which peers come and go -/

inductive RoutedCall (ι κ : Type) where
  | join (instanceId : Instance) (peer : Peer) (point : Join ι κ)
  | leave (peerId : PeerId) (point : RoutedLeave ι κ)
  deriving DecidableEq

inductive RoutedRequest where
  | join (instanceId : Instance) (peer : Peer)
  | leave (peerId : PeerId)
  deriving DecidableEq, Repr

namespace RoutedRequest

/-- The calls on `SfuClientService` that may be made for it. -/
def operations (roomId : RoomId) : RoutedRequest → List Rest.Operation
  | .join _ _ => [.createOrGetMediaRoom roomId]
  | .leave peerId => RoutedLeave.operations roomId peerId

def call : RoutedRequest → RoutedCall ι κ
  | .join instanceId peer => .join instanceId peer (.getOrCreateRoom .getRoom)
  | .leave peerId => .leave peerId (.leave .getRoom)

def request : RoutedRequest → Request
  | .join instanceId peer => .join instanceId peer
  | .leave peerId => .leave peerId

end RoutedRequest

namespace RoutedCall

def request : RoutedCall ι κ → RoutedRequest
  | .join instanceId peer _ => .join instanceId peer
  | .leave peerId _ => .leave peerId

/-- The call, whatever its requests have come to. -/
def call : RoutedCall ι κ → Call ι κ
  | .join instanceId peer point => .join instanceId peer point
  | .leave peerId point => .leave peerId point.point

def direct : RoutedCall ι κ → Bool
  | .join _ _ _ => true
  | .leave _ point => point.direct

variable [DecidableEq ι] [DecidableEq κ]

def step (roomId : RoomId) (i : ι) (event : Event) (w : World ι κ) :
    RoutedCall ι κ → Option (World ι κ × RoutedCall ι κ)
  | .join instanceId peer point =>
      (point.routedStep i instanceId roomId peer event w).map fun r =>
        (r.1, .join instanceId peer r.2)
  | .leave peerId point =>
      (point.step roomId peerId event w).map fun r => (r.1, .leave peerId r.2)

end RoutedCall

abbrev RoutedCalls (ι κ : Type) := Pool ι (World ι κ) (RoutedCall ι κ)

def RoutedCalls.issued (w : World ι κ) (requests : ι → RoutedRequest) : RoutedCalls ι κ :=
  ⟨w, fun i => (requests i).call⟩

def RoutedCalls.calls (s : RoutedCalls ι κ) : Calls ι κ := s.map RoutedCall.call

theorem RoutedRequest.call_call (request : RoutedRequest) :
    (request.call : RoutedCall ι κ).call = request.request.call := by
  cases request <;> rfl

theorem RoutedCalls.calls_issued (w : World ι κ) (requests : ι → RoutedRequest) :
    (issued w requests).calls = .issued w fun i => (requests i).request := by
  simp only [calls, Pool.map, issued, RoutedRequest.call_call, Calls.issued]

variable [DecidableEq ι] [DecidableEq κ]

def routedSignaling (roomId : RoomId) : System (RoutedCalls ι κ) (ι × Event) :=
  Pool.system (RoutedCall.step roomId)

/-- All requests that the call may make survive the URL. -/
def RoutedCall.Received (roomId : RoomId) (c : RoutedCall ι κ) : Prop :=
  c.direct ∧ ∀ op ∈ c.request.operations roomId, Survives op.route op.params

theorem routedSignaling_mirrors (roomId : RoomId) :
    (routedSignaling (ι := ι) (κ := κ) roomId).Mirrors (signaling roomId) RoutedCalls.calls
      fun s => ∀ i, (s.proc i).Received roomId := by
  refine Pool.mirrors_map (fun i event w c h => ?_) fun i event w c w' c' h hstep => ?_
  · obtain ⟨hdirect, hsurvive⟩ := h
    cases c with
    | join instanceId peer point =>
        have hput := hsurvive (.createOrGetMediaRoom roomId) (by
          simp [RoutedCall.request, RoutedRequest.operations])
        simp only [RoutedCall.call, Call.step, RoutedCall.step, Join.routedStep_eq hput,
          Option.map_map]
        rfl
    | leave peerId point =>
        simp only [RoutedCall.call, Call.step, RoutedCall.step,
          RoutedLeave.step_direct hsurvive hdirect, Option.map_map]
        rfl
  · obtain ⟨hdirect, hsurvive⟩ := h
    cases c with
    | join instanceId peer point =>
        simp only [RoutedCall.step, Option.map_eq_some_iff] at hstep
        obtain ⟨r, -, heq⟩ := hstep
        cases heq
        exact ⟨rfl, hsurvive⟩
    | leave peerId point =>
        simp only [RoutedCall.step, Option.map_eq_some_iff] at hstep
        obtain ⟨r, hr, heq⟩ := hstep
        cases heq
        exact ⟨RoutedLeave.direct_of_step hsurvive hdirect hr, hsurvive⟩

end MeetServer.Realtime
