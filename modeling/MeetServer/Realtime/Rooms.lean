import MeetServer.Realtime.Redis
import MeetServer.Realtime.SfuRegistry
import MeetServer.Sfu.MediaRooms

/-!
# `RoomsService.getOrCreateRoom`

The world of one room id: its Redis keys, the sfu nodes, and the pending
creations of every realtime instance.  A step executes the command that a call
waits for and runs the call's code up to its next `await`.  What a call `i`
creates on a node is named `Sum.inl i`; older objects have names in `κ`.

The room id is one that survives the URL, so that the node gets the PUT for it;
`Routing` has the PUT of any id.
-/

namespace MeetServer.Realtime

open MeetServer.Foundation

abbrev Instance := Nat

structure World (ι κ : Type) where
  serviceUrls : List Url
  redis : RoomKeys (ι ⊕ κ)
  sfu : Url → Sfu.State (ι ⊕ κ)
  pendingRooms : Instance → Option ι
  creation : ι → Option (Settlement Room)

/-- What happens next to a call: the answer it waits for, the stats answer of
one node, or one of the two requests that `leave` does not await. -/
inductive Event where
  | settle (ok : Bool)
  | stats (k : Nat) (ok : Bool)
  | closeRoom (ok : Bool)
  | deleteRoomHistory (ok : Bool)
  deriving DecidableEq, Repr

/-- Nothing fails. -/
def Event.ok : Event → Bool
  | .settle ok | .stats _ ok | .closeRoom ok | .deleteRoomHistory ok => ok

variable {ι κ : Type}

namespace World

/-- The room has no keys yet, and no instance is creating it. -/
def fresh (serviceUrls : List Url) (sfu : Url → Sfu.State (ι ⊕ κ)) :
    World ι κ where
  serviceUrls := serviceUrls
  redis := {}
  sfu := sfu
  pendingRooms _ := none
  creation _ := none

def setRedis (w : World ι κ) (redis : RoomKeys (ι ⊕ κ)) : World ι κ :=
  { w with redis := redis }

def setSfu (w : World ι κ) (url : Url) (node : Sfu.State (ι ⊕ κ)) :
    World ι κ :=
  { w with sfu := Function.update w.sfu url node }

def beginCreation (w : World ι κ) (instanceId : Instance) (i : ι) :
    World ι κ :=
  { w with pendingRooms := Function.update w.pendingRooms instanceId (some i) }

/-- The promise settles, and `finally` drops it from the map. -/
def settleCreation [DecidableEq ι] (w : World ι κ) (instanceId : Instance)
    (i : ι) (outcome : Settlement Room) : World ι κ :=
  { w with
    creation := Function.update w.creation i (some outcome)
    pendingRooms := Function.update w.pendingRooms instanceId none }

end World

inductive GetOrCreateRoom (ι κ : Type) where
  | getRoom
  | expire (room : Room)
  | pending (creation : ι)
  | getStats (readings : Readings)
  | createOrGetMediaRoom (url : Url) (request : Sfu.GetOrCreateRoom (ι ⊕ κ))
  | set (room : Room)
  | returned (room : Room)
  | threw
  deriving DecidableEq

namespace GetOrCreateRoom

variable [DecidableEq ι] [DecidableEq κ]

/-- `createRoom` throws. -/
def fail (i : ι) (instanceId : Instance) (w : World ι κ) :
    World ι κ × GetOrCreateRoom ι κ :=
  (w.settleCreation instanceId i .rejected, .threw)

/-- `Promise.allSettled` waits for the last answer. -/
def afterStats (i : ι) (instanceId : Instance) (readings : Readings)
    (w : World ι κ) : World ι κ × GetOrCreateRoom ι κ :=
  if readings.settled then
    match pickLeastLoaded readings with
    | none => fail i instanceId w
    | some url => (w, .createOrGetMediaRoom url .call)
  else (w, .getStats readings)

def afterGetRoom (i : ι) (instanceId : Instance) (w : World ι κ) :
    World ι κ × GetOrCreateRoom ι κ :=
  match w.redis.room, w.pendingRooms instanceId with
  | some room, _ => (w, .expire room)
  | none, some creation => (w, .pending creation)
  | none, none =>
      afterStats i instanceId (w.serviceUrls.map fun url => (url, none))
        (w.beginCreation instanceId i)

/-- The answer of `GET /media-rooms/stats`; a second answer does not exist. -/
def answerStats (i : ι) (instanceId : Instance) (readings : Readings) (k : Nat)
    (ok : Bool) (w : World ι κ) : Option (World ι κ × GetOrCreateRoom ι κ) :=
  match readings[k]? with
  | some (url, none) =>
      let answer := if ok then .fulfilled (w.sfu url).roomCount else .rejected
      some (afterStats i instanceId (readings.set k (url, some answer)) w)
  | _ => none

/-- The PUT advances on its node, or its answer arrives. -/
def advancePut (i : ι) (instanceId : Instance) (roomId : RoomId) (url : Url)
    (ok : Bool) (w : World ι κ) :
    Sfu.GetOrCreateRoom (ι ⊕ κ) → Option (World ι κ × GetOrCreateRoom ι κ)
  | .returned _ =>
      if ok then
        some (w, .set {
          id := roomId
          rtpCapabilities := (w.sfu url).rtpCapabilities
          sfuNodeUrl := url })
      else some (fail i instanceId w)
  | .threw => some (fail i instanceId w)
  | .call =>
      if ok then
        (Sfu.GetOrCreateRoom.step (.inl i) roomId ok (w.sfu url) .call).map
          fun r => (w.setSfu url r.1, .createOrGetMediaRoom url r.2)
      else some (fail i instanceId w)
  | request =>
      (request.step (.inl i) roomId ok (w.sfu url)).map
        fun r => (w.setSfu url r.1, .createOrGetMediaRoom url r.2)

def settle (i : ι) (instanceId : Instance) (roomId : RoomId) (ok : Bool)
    (w : World ι κ) :
    GetOrCreateRoom ι κ → Option (World ι κ × GetOrCreateRoom ι κ)
  | .getRoom =>
      if ok then some (afterGetRoom i instanceId w) else some (w, .threw)
  | .expire room => some (w, if ok then .returned room else .threw)
  | .pending creation =>
      match w.creation creation with
      | none => none
      | some (.fulfilled room) => some (w, .returned room)
      | some .rejected => some (w, .threw)
  | .createOrGetMediaRoom url request =>
      advancePut i instanceId roomId url ok w request
  | .set room =>
      if ok then
        some ((w.setRedis (w.redis.set room)).settleCreation instanceId i
          (.fulfilled room), .returned room)
      else some (fail i instanceId w)
  | .getStats _ | .returned _ | .threw => none

def step (i : ι) (instanceId : Instance) (roomId : RoomId) (event : Event)
    (w : World ι κ) (point : GetOrCreateRoom ι κ) :
    Option (World ι κ × GetOrCreateRoom ι κ) :=
  match event, point with
  | .stats k ok, .getStats readings =>
      answerStats i instanceId readings k ok w
  | .settle ok, point => point.settle i instanceId roomId ok w
  | _, _ => none

end GetOrCreateRoom

end MeetServer.Realtime
