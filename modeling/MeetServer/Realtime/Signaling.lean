import MeetServer.Realtime.Rooms

/-!
# `SignalingService`

`join`, `leave` and `createWebRtcTransport` on one room, as the sequences of
Redis commands and sfu requests that they wait for.  The two requests that
`leave` does not await are processed after it has returned.  The nodes get the
requests with the ids that the calls have, as they do when the ids survive the
URL; `Routing` has `join` and `leave` with any ids.
-/

namespace MeetServer.Realtime

open MeetServer.Foundation

variable {ι κ : Type}

/-! ## `join` -/

inductive Join (ι κ : Type) where
  | getOrCreateRoom (point : GetOrCreateRoom ι κ)
  | hset
  | expire
  | getOtherPeers
  | getProducers (otherPeers todo : List Peer)
      (found : List (ExistingProducer (ι ⊕ κ)))
  | rollbackHdel
  | rollbackDel
  | returned (existingPeers : List Peer)
      (existingProducers : List (ExistingProducer (ι ⊕ κ)))
  | threw
  deriving DecidableEq

namespace Join

def afterGetOrCreateRoom : GetOrCreateRoom ι κ → Join ι κ
  | .returned _ => .hset
  | .threw => .threw
  | point => .getOrCreateRoom point

/-- `Promise.all` over the other peers; the HGETALLs go out in this order. -/
def nextProducers (otherPeers todo : List Peer)
    (found : List (ExistingProducer (ι ⊕ κ))) : Join ι κ :=
  match todo with
  | [] => .returned otherPeers found
  | _ => .getProducers otherPeers todo found

def settle (peer : Peer) (ok : Bool) (w : World ι κ) :
    Join ι κ → Option (World ι κ × Join ι κ)
  | .hset =>
      if ok then some (w.setRedis (w.redis.hset peer), .expire)
      else some (w, .threw)
  | .expire => some (w, if ok then .getOtherPeers else .threw)
  | .getOtherPeers =>
      if ok then
        let otherPeers := w.redis.getOtherPeers peer.id
        some (w, nextProducers otherPeers otherPeers [])
      else some (w, .rollbackHdel)
  | .getProducers otherPeers (otherPeer :: todo) found =>
      if ok then
        some (w, nextProducers otherPeers todo
          (found ++ w.redis.getProducers otherPeer.id))
      else some (w, .rollbackHdel)
  | .rollbackHdel =>
      if ok then some (w.setRedis (w.redis.hdel peer.id), .rollbackDel)
      else some (w, .threw)
  | .rollbackDel =>
      if ok then some (w.setRedis (w.redis.delProducers peer.id), .threw)
      else some (w, .threw)
  | .getOrCreateRoom _ | .getProducers _ [] _ | .returned _ _ | .threw => none

variable [DecidableEq ι] [DecidableEq κ]

def step (i : ι) (instanceId : Instance) (roomId : RoomId) (peer : Peer)
    (event : Event) (w : World ι κ) (point : Join ι κ) :
    Option (World ι κ × Join ι κ) :=
  match point, event with
  | .getOrCreateRoom point, event =>
      (point.step i instanceId roomId event w).map fun r =>
        (r.1, afterGetOrCreateRoom r.2)
  | point, .settle ok => point.settle peer ok w
  | _, _ => none

end Join

/-! ## `leave` -/

inductive Leave (ι κ : Type) where
  | getRoom
  | hdel (url : Url)
  | delProducers (url : Url)
  | sfuRemovePeer (url : Url) (processed : Bool)
  | hlen (url : Url)
  | hkeys (url : Url)
  | closeRoomIfEmpty (url : Url) (peerIds : List PeerId)
  /-- `closeRoom` waits for all its DELs; when one is rejected, the call throws and
  the others are still carried out. -/
  | delProducerHashes (url : Url) (todo : List PeerId) (rejected : Bool)
  /-- Returned, with its request to close the MediaRoom and its DEL of the chat. -/
  | closed (url : Url) (close : Sfu.CloseRoom (ι ⊕ κ)) (historyDeleted : Bool)
  | returned
  | threw
  deriving DecidableEq

namespace Leave

/-- `Promise.all` over the DELs, which go out in this order. -/
def nextProducerHash (url : Url) (todo : List PeerId) (rejected : Bool) : Leave ι κ :=
  match todo with
  | [] => if rejected then .threw else .closed url .call false
  | _ => .delProducerHashes url todo rejected

variable [DecidableEq ι] [DecidableEq κ]

def settle (roomId : RoomId) (peerId : PeerId) (ok : Bool) (w : World ι κ) :
    Leave ι κ → Option (World ι κ × Leave ι κ)
  | .getRoom =>
      if ok then
        match w.redis.room with
        | none => some (w, .returned)
        | some room => some (w, .hdel room.sfuNodeUrl)
      else some (w, .threw)
  | .hdel url =>
      if ok then some (w.setRedis (w.redis.hdel peerId), .delProducers url)
      else some (w, .threw)
  | .delProducers url =>
      if ok then
        some (w.setRedis (w.redis.delProducers peerId), .sfuRemovePeer url false)
      else some (w, .threw)
  | .sfuRemovePeer url false =>
      if ok then
        some (w.setSfu url ((w.sfu url).removePeer roomId peerId),
          .sfuRemovePeer url true)
      else some (w, .hlen url)
  | .sfuRemovePeer url true => some (w, .hlen url)
  | .hlen url =>
      if ok then some (w, if w.redis.hlen = 0 then .hkeys url else .returned)
      else some (w, .threw)
  | .hkeys url =>
      if ok then some (w, .closeRoomIfEmpty url w.redis.hkeys)
      else some (w, .threw)
  | .closeRoomIfEmpty url peerIds =>
      if ok then
        let result := w.redis.closeRoomIfEmpty
        some (w.setRedis result.1,
          if result.2 then nextProducerHash url peerIds false else .returned)
      else some (w, .threw)
  | .delProducerHashes url (otherId :: todo) rejected =>
      if ok then
        some (w.setRedis (w.redis.delProducers otherId),
          nextProducerHash url todo rejected)
      else some (w, nextProducerHash url todo true)
  | .delProducerHashes _ [] _ | .closed _ _ _ | .returned | .threw => none

/-- The un-awaited `DELETE /media-rooms/:roomId`, which may also get lost. -/
def advanceClose (roomId : RoomId) (url : Url) (ok : Bool) (w : World ι κ) :
    Sfu.CloseRoom (ι ⊕ κ) → Option (World ι κ × Sfu.CloseRoom (ι ⊕ κ))
  | .call =>
      if ok then
        (Sfu.CloseRoom.step roomId ok (w.sfu url) .call).map
          fun r => (w.setSfu url r.1, r.2)
      else some (w, .threw)
  | close =>
      (close.step roomId ok (w.sfu url)).map fun r => (w.setSfu url r.1, r.2)

def step (roomId : RoomId) (peerId : PeerId) (event : Event) (w : World ι κ)
    (point : Leave ι κ) : Option (World ι κ × Leave ι κ) :=
  match event, point with
  | .settle ok, point => point.settle roomId peerId ok w
  | .closeRoom ok, .closed url close historyDeleted =>
      (advanceClose roomId url ok w close).map fun r =>
        (r.1, .closed url r.2 historyDeleted)
  | .deleteRoomHistory ok, .closed url close false =>
      some (if ok then w.setRedis w.redis.delChat else w,
        .closed url close true)
  | _, _ => none

end Leave

/-! ## `createWebRtcTransport` -/

inductive CreateWebRtcTransport (ι κ : Type) where
  | getPeer
  | getRoom
  | createTransport (url : Url) (request : Sfu.CreateTransport (ι ⊕ κ))
  | returned (transport : ι ⊕ κ)
  | threw
  deriving DecidableEq

namespace CreateWebRtcTransport

variable [DecidableEq ι] [DecidableEq κ]

def advancePost (i : ι) (roomId : RoomId) (peerId : PeerId)
    (direction : TransportDirection) (url : Url) (ok : Bool) (w : World ι κ) :
    Sfu.CreateTransport (ι ⊕ κ) →
      Option (World ι κ × CreateWebRtcTransport ι κ)
  | .returned t => some (w, if ok then .returned t else .threw)
  | .threw => some (w, .threw)
  | .call =>
      if ok then
        (Sfu.CreateTransport.step (.inl i) roomId peerId direction ok
          (w.sfu url) .call).map fun r =>
            (w.setSfu url r.1, .createTransport url r.2)
      else some (w, .threw)
  | request =>
      (request.step (.inl i) roomId peerId direction ok (w.sfu url)).map
        fun r => (w.setSfu url r.1, .createTransport url r.2)

def step (i : ι) (roomId : RoomId) (peerId : PeerId)
    (direction : TransportDirection) (event : Event) (w : World ι κ)
    (point : CreateWebRtcTransport ι κ) :
    Option (World ι κ × CreateWebRtcTransport ι κ) :=
  match event, point with
  | .settle ok, .getPeer =>
      some (w, if ok && (w.redis.peers.lookup peerId).isSome then .getRoom
        else .threw)
  | .settle ok, .getRoom =>
      match w.redis.room with
      | some room =>
          some (w, if ok then .createTransport room.sfuNodeUrl .call
            else .threw)
      | none => some (w, .threw)
  | .settle ok, .createTransport url request =>
      advancePost i roomId peerId direction url ok w request
  | _, _ => none

end CreateWebRtcTransport

/-! ## The calls on one room -/

inductive Call (ι κ : Type) where
  | join (instanceId : Instance) (peer : Peer) (point : Join ι κ)
  | leave (peerId : PeerId) (point : Leave ι κ)
  | createWebRtcTransport (peerId : PeerId) (direction : TransportDirection)
      (point : CreateWebRtcTransport ι κ)
  deriving DecidableEq

inductive Request where
  | join (instanceId : Instance) (peer : Peer)
  | leave (peerId : PeerId)
  | createWebRtcTransport (peerId : PeerId) (direction : TransportDirection)
  deriving DecidableEq, Repr

def Request.call : Request → Call ι κ
  | .join instanceId peer => .join instanceId peer (.getOrCreateRoom .getRoom)
  | .leave peerId => .leave peerId .getRoom
  | .createWebRtcTransport peerId direction =>
      .createWebRtcTransport peerId direction .getPeer

variable [DecidableEq ι] [DecidableEq κ]

def Call.step (roomId : RoomId) (i : ι) (event : Event) (w : World ι κ) :
    Call ι κ → Option (World ι κ × Call ι κ)
  | .join instanceId peer point =>
      (point.step i instanceId roomId peer event w).map fun r =>
        (r.1, .join instanceId peer r.2)
  | .leave peerId point =>
      (point.step roomId peerId event w).map fun r => (r.1, .leave peerId r.2)
  | .createWebRtcTransport peerId direction point =>
      (point.step i roomId peerId direction event w).map fun r =>
        (r.1, .createWebRtcTransport peerId direction r.2)

/-- All the calls on the room, on all instances, and the state they share. -/
abbrev Calls (ι κ : Type) := Pool ι (World ι κ) (Call ι κ)

def signaling (roomId : RoomId) : System (Calls ι κ) (ι × Event) :=
  Pool.system (Call.step roomId)

def Calls.issued (w : World ι κ) (requests : ι → Request) : Calls ι κ :=
  ⟨w, fun i => (requests i).call⟩

end MeetServer.Realtime
