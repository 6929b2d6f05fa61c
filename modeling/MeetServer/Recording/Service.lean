import MeetServer.Recording.Packets
import MeetServer.Sfu.Producers

/-!
# `RecordingService`

The taps of one sfu process, on top of the rooms of `MediaRoomsService`.  A tap
is named by the call that starts it and the `MediaPeer` object it records, and
owns the `PlainTransport`, the consumer, the file handle and the session that it
creates.  The fields that only recording uses are kept beside the objects, since
a tap goes on with an object that has left its room.
-/

namespace MeetServer.Recording

open MeetServer.Foundation

variable {Ref δ : Type}

abbrev TapId (Ref : Type) := Ref × Ref

/-- The recording fields of a `MediaPeer` object. -/
structure TappedPeer (Ref : Type) where
  displayName : Option String := none
  plainTransport : Option (TapId Ref) := none
  recordingConsumer : Option (TapId Ref) := none
  recordingSession : Option (TapId Ref) := none

/-- How far the closing of a session has come. -/
inductive Closing where
  | no
  | riffSize
  | dataSize
  | close
  | closed
  | threw
  /-- `MediaRoom.stopPeerRecording` only closes the file. -/
  | abandoned
  deriving DecidableEq, Repr

/-- `writeUInt32LE` throws when the size does not fit. -/
def RecordingSession.beginClosing (session : RecordingSession δ) : Closing :=
  if session.bytesWritten + wavHeaderSize - 8 < 2 ^ 32 then .riffSize else .threw

/-- A mediasoup object of a tap. -/
inductive Resource where
  | absent
  | opened
  | closed
  deriving DecidableEq, Repr

/-- What `tapPeer` waits for. -/
inductive TapPoint (Ref : Type) where
  | stopPeerRecording (closing : Option (TapId Ref))
  | mkdir
  | createPlainTransport
  | consume
  | open
  | writeHeader
  | bind
  | startRecordingSession
  | connect
  /-- `stopPeerRecording` again, after a failed `connect`. -/
  | cleanUp (closing : Option (TapId Ref))
  | returned
  | threw
  deriving DecidableEq, Repr

/-- `writes` have been started without an `await` and not completed. -/
structure FileHandle where
  path : Path
  position : Nat := 0
  writes : List Bytes := []
  deriving DecidableEq, Repr

structure Tap (Ref δ : Type) where
  room : Ref
  roomId : RoomId
  peerId : PeerId
  producer : Sfu.Producer Ref
  point : TapPoint Ref
  speakerName : String := ""
  plainTransport : Resource := .absent
  recordingConsumer : Resource := .absent
  fileHandle : Option FileHandle := none
  session : Option (RecordingSession δ) := none
  closing : Closing := .no

def Tap.outputPath (env : Env δ) (tap : Tap Ref δ) : Path :=
  Recording.outputPath env.outputDir tap.roomId tap.speakerName

structure Meeting where
  meetingId : RoomId
  participants : List String
  deriving DecidableEq, Repr

structure State (Ref δ : Type) where
  sfu : Sfu.State Ref
  peer : Ref → TappedPeer Ref
  tap : TapId Ref → Option (Tap Ref δ)
  disk : Path → Bytes
  meetings : List Meeting

namespace State

/-- The sfu has not recorded anything yet. -/
def unrecorded (sfu : Sfu.State Ref) : State Ref δ where
  sfu := sfu
  peer _ := {}
  tap _ := none
  disk _ := []
  meetings := []

variable (s : State Ref δ)

def producerOpen (t : TapId Ref) : Bool :=
  (s.tap t).any fun tap => s.sfu.producerOpen tap.producer

/-- A `PlainTransport` is closed by `close()` or with its router. -/
def plainTransportOpen (t : TapId Ref) : Bool :=
  (s.tap t).any fun tap =>
    tap.plainTransport = .opened && s.sfu.routerOpen tap.room

def consumerOpen (t : TapId Ref) : Bool :=
  (s.tap t).any (fun tap => tap.recordingConsumer = .opened) &&
    s.plainTransportOpen t

/-- Its socket and its file handle are open. -/
def sessionOpen (t : TapId Ref) : Bool :=
  (s.tap t).any fun tap => tap.session.any fun session => !session.closed

variable [DecidableEq Ref]

def updatePeer (object : Ref) (f : TappedPeer Ref → TappedPeer Ref) : State Ref δ :=
  { s with peer := Function.update s.peer object (f (s.peer object)) }

def updateTap (t : TapId Ref) (f : Tap Ref δ → Tap Ref δ) : State Ref δ :=
  { s with tap := Function.update s.tap t ((s.tap t).map f) }

def setPoint (t : TapId Ref) (point : TapPoint Ref) : State Ref δ :=
  s.updateTap t fun tap => { tap with point := point }

def setClosing (t : TapId Ref) (closing : Closing) : State Ref δ :=
  s.updateTap t fun tap => { tap with closing := closing }

def writeAt (path : Path) (pos : Nat) (chunk : Bytes) : State Ref δ :=
  { s with
    disk := Function.update s.disk path (Bytes.writeAt (s.disk path) pos chunk) }

def closePlainTransport (t : TapId Ref) : State Ref δ :=
  s.updateTap t fun tap => { tap with plainTransport := .closed }

def closeConsumer (t : TapId Ref) : State Ref δ :=
  s.updateTap t fun tap => { tap with recordingConsumer := .closed }

/-! ## Stopping -/

/-- `closeRecordingSession` up to its first `await`; the answer is what the
caller waits for. -/
def closeRecordingSession (t : TapId Ref) : State Ref δ × Option (TapId Ref) :=
  if s.sessionOpen t then
    (s.updateTap t fun tap =>
      { tap with
        session := tap.session.map fun session => { session with closed := true }
        closing := (tap.session.map RecordingSession.beginClosing).getD tap.closing },
      some t)
  else (s, none)

/-- The consumer and the transport of the peer are closed, and the peer forgets
them and its session. -/
def closeTap (object : Ref) : State Ref δ :=
  let peer := s.peer object
  let s := peer.recordingConsumer.elim s s.closeConsumer
  let s := peer.plainTransport.elim s s.closePlainTransport
  s.updatePeer object fun peer =>
    { peer with
      recordingConsumer := none
      plainTransport := none
      recordingSession := none }

/-- `RecordingService.stopPeerRecording`. -/
def stopPeerRecording (object : Ref) : State Ref δ × Option (TapId Ref) :=
  match (s.peer object).recordingSession with
  | none => (s.closeTap object, none)
  | some t => (s.closeTap object).closeRecordingSession t

/-- `session.closed = true`, and the socket and the file are closed. -/
def abandonSession (t : TapId Ref) : State Ref δ :=
  if s.sessionOpen t then
    s.updateTap t fun tap =>
      { tap with
        session := tap.session.map fun session => { session with closed := true }
        closing := .abandoned }
  else s

def dropSession (object : Ref) : State Ref δ :=
  ((s.peer object).recordingSession.elim s s.abandonSession).updatePeer object
    fun peer => { peer with recordingSession := none }

def dropConsumer (object : Ref) : State Ref δ :=
  match (s.peer object).recordingConsumer with
  | none => s
  | some t =>
      if s.consumerOpen t then
        (s.closeConsumer t).updatePeer object fun peer =>
          { peer with recordingConsumer := none }
      else s

def dropPlainTransport (object : Ref) : State Ref δ :=
  match (s.peer object).plainTransport with
  | none => s
  | some t =>
      if s.plainTransportOpen t then
        (s.closePlainTransport t).updatePeer object fun peer =>
          { peer with plainTransport := none }
      else s

/-- `MediaRoom.stopPeerRecording`. -/
def stopPeerRecordingOfRoom (object : Ref) : State Ref δ :=
  ((s.dropSession object).dropConsumer object).dropPlainTransport object

/-! ## `tapPeer` -/

/-- The promise of a `stopPeerRecording`, if it has settled. -/
def stopped (closing : Option (TapId Ref)) : Option Bool :=
  match closing with
  | none => some true
  | some t =>
      match (s.tap t).map Tap.closing with
      | some .closed => some true
      | some .threw => some false
      | _ => none

def startTap (t : TapId Ref) (room : Ref) (roomId : RoomId) (peerId : PeerId)
    (producer : Sfu.Producer Ref) : State Ref δ :=
  let (s, closing) := s.stopPeerRecording t.2
  { s with
    tap := Function.update s.tap t (some {
      room, roomId, peerId, producer, point := .stopPeerRecording closing }) }

variable (env : Env δ)

/-- A tap goes on to its next `await`.  mediasoup answers a request on a closed
object with an error. -/
def tapStep (t : TapId Ref) (ok : Bool) : Option (State Ref δ) :=
  match s.tap t with
  | none => none
  | some tap =>
      match tap.point with
      | .stopPeerRecording closing =>
          (s.stopped closing).map fun stopped =>
            s.setPoint t (if stopped then .mkdir else .threw)
      | .mkdir =>
          if ok then
            some (s.updateTap t fun tap =>
              { tap with
                speakerName := (s.peer t.2).displayName.getD tap.peerId
                point := .createPlainTransport })
          else some (s.setPoint t .threw)
      | .createPlainTransport =>
          if ok then
            if s.sfu.routerOpen tap.room then
              some ((s.updateTap t fun tap =>
                { tap with plainTransport := .opened, point := .consume }).updatePeer
                  t.2 fun peer => { peer with plainTransport := some t })
            else none
          else some (s.setPoint t .returned)
      | .consume =>
          if ok then
            if s.plainTransportOpen t && s.producerOpen t then
              some ((s.updateTap t fun tap =>
                { tap with recordingConsumer := .opened, point := .open }).updatePeer
                  t.2 fun peer => { peer with recordingConsumer := some t })
            else none
          else
            some (((s.closePlainTransport t).setPoint t .returned).updatePeer t.2
              fun peer => { peer with plainTransport := none })
      | .open =>
          let path := tap.outputPath env
          if ok then
            some ({ s with disk := Function.update s.disk path [] }.updateTap t
              fun tap =>
                { tap with fileHandle := some { path }, point := .writeHeader })
          else some (s.setPoint t .threw)
      | .writeHeader =>
          match tap.fileHandle with
          | none => none
          | some handle =>
              if ok then
                some ((s.writeAt handle.path handle.position
                  buildWavHeader).updateTap t fun tap =>
                    { tap with
                      fileHandle := some { handle with
                        position := handle.position + wavHeaderSize }
                      point := .bind })
              else some (s.setPoint t .threw)
      | .bind =>
          match tap.fileHandle with
          | none => none
          | some handle =>
              if ok then
                some (s.updateTap t fun tap =>
                  { tap with
                    session := some {
                      outputPath := handle.path, decoder := env.newDecoder }
                    point := .startRecordingSession })
              else some (s.setPoint t .threw)
      | .startRecordingSession =>
          some ((s.setPoint t .connect).updatePeer t.2 fun peer =>
            { peer with recordingSession := some t })
      | .connect =>
          if ok then
            if s.plainTransportOpen t then some (s.setPoint t .returned) else none
          else
            let (s, closing) := s.stopPeerRecording t.2
            some (s.setPoint t (.cleanUp closing))
      | .cleanUp closing =>
          (s.stopped closing).map fun stopped =>
            s.setPoint t (if stopped then .returned else .threw)
      | .returned | .threw => none

/-! ## Sockets, files and events -/

/-- A datagram arrives at the socket of a tap. -/
def message (t : TapId Ref) (msg : Bytes) : Option (State Ref δ) :=
  match s.tap t with
  | none => none
  | some tap =>
      match tap.session, tap.fileHandle with
      | some session, some handle =>
          let received := handleRtpPacket env session msg
          some (s.updateTap t fun tap =>
            { tap with
              session := some received.1
              fileHandle := some { handle with
                writes := handle.writes ++ received.2 } })
      | _, _ => none

/-- The `k`th of the writes under way is carried out. -/
def written (t : TapId Ref) (k : Nat) : Option (State Ref δ) :=
  match (s.tap t).bind Tap.fileHandle with
  | none => none
  | some handle =>
      match handle.writes[k]? with
      | none => none
      | some chunk =>
          some ((s.writeAt handle.path handle.position chunk).updateTap t fun tap =>
            { tap with
              fileHandle := some { handle with
                position := handle.position + chunk.length
                writes := handle.writes.eraseIdx k } })

/-- `closeRecordingSession` goes on; closing the file waits for its writes. -/
def closeStep (t : TapId Ref) (ok : Bool) : Option (State Ref δ) :=
  match s.tap t with
  | none => none
  | some tap =>
      match tap.session, tap.fileHandle with
      | some session, some handle =>
          match tap.closing, ok with
          | .riffSize, true =>
              some ((s.writeAt handle.path 4
                (Bytes.toLE 4 (session.bytesWritten + wavHeaderSize - 8))).setClosing
                  t .dataSize)
          | .dataSize, true =>
              some ((s.writeAt handle.path 40
                (Bytes.toLE 4 session.bytesWritten)).setClosing t .close)
          | .close, true => if handle.writes = [] then some (s.setClosing t .closed) else none
          | .riffSize, false | .dataSize, false | .close, false =>
              some (s.setClosing t .threw)
          | .no, _ | .closed, _ | .threw, _ | .abandoned, _ => none
      | _, _ => none

/-- The consumer of a closed producer is closed, and its listener is called. -/
def producerclose (t : TapId Ref) : Option (State Ref δ) :=
  if s.consumerOpen t && !s.producerOpen t then
    some ((s.closeConsumer t).stopPeerRecording t.2).1
  else none

def socketError (t : TapId Ref) : Option (State Ref δ) :=
  if s.sessionOpen t then some (s.closeRecordingSession t).1 else none

/-! ## `startRoomRecording` and `stopRoomRecording` -/

/-- Only `produce` adds to the map, at the head of the list. -/
def findAudioProducer (peer : Sfu.MediaPeer Ref) : Option (Sfu.Producer Ref) :=
  (peer.producers.entries.reverse.map Sigma.snd).find? fun producer =>
    producer.kind = .audio && s.sfu.producerOpen producer

def setDisplayNames (r : Ref) (peers : List (PeerId × String)) : State Ref δ :=
  peers.foldl (fun s named =>
    match (s.sfu.room r).getPeer named.1 with
    | none => s
    | some peer =>
        s.updatePeer peer.object fun peer =>
          { peer with displayName := some named.2 }) s

/-- `call` starts a tap of every peer that has an open audio producer. -/
def startRoomRecording (call r : Ref) (peers : List (PeerId × String)) :
    State Ref δ × List (TapId Ref) :=
  let s := s.setDisplayNames r peers
  (Dict.values (s.sfu.room r).peers).foldl (fun acc peer =>
    match acc.1.findAudioProducer peer with
    | none => acc
    | some producer =>
        (acc.1.startTap (call, peer.object) r (s.sfu.room r).id peer.id producer,
          acc.2 ++ [(call, peer.object)])) (s, [])

/-- The sessions whose closing the call waits for. -/
def stopRoomRecording (r : Ref) : State Ref δ × List (Option (TapId Ref)) :=
  (Dict.values (s.sfu.room r).peers).foldl (fun acc peer =>
    let (s, closing) := acc.1.stopPeerRecording peer.object
    (s, acc.2 ++ [closing])) (s, [])

def participants (r : Ref) : List String :=
  (Dict.values (s.sfu.room r).peers).map fun peer =>
    (s.peer peer.object).displayName.getD peer.id

/-- `MediaRoom.removePeer` runs on the object. -/
def dropPeer (object : Option Ref) : State Ref δ :=
  object.elim s s.stopPeerRecordingOfRoom

end State

/-! ## The calls of the process -/

/-- What a call waits for inside the recording service. -/
inductive Work (Ref : Type) where
  | none
  /-- The taps that the call has started. -/
  | taps (taps : List (TapId Ref))
  /-- The `stopPeerRecording`s for the peers of a room. -/
  | stops (room : Ref) (closings : List (Option (TapId Ref)))
  | mkdir (meeting : Meeting)
  | writeFile (meeting : Meeting)
  deriving DecidableEq, Repr

inductive Call (Ref : Type) where
  | mediaRooms (call : Sfu.Call Ref) (work : Work Ref)
  | produce (roomId : RoomId) (peerId : PeerId) (transportId : Ref)
      (kind : MediaKind) (point : Sfu.Produce Ref) (work : Work Ref)
  deriving DecidableEq, Repr

inductive Request (Ref : Type) where
  | mediaRooms (request : Sfu.Request)
  | produce (roomId : RoomId) (peerId : PeerId) (transportId : Ref)
      (kind : MediaKind)
  deriving DecidableEq, Repr

def Request.call : Request Ref → Call Ref
  | .mediaRooms request => .mediaRooms request.call .none
  | .produce roomId peerId transportId kind =>
      .produce roomId peerId transportId kind .call .none

variable [DecidableEq Ref]

/-- The object on which `MediaRoom.removePeer` runs when the call goes on. -/
def removing (ok : Bool) (s : Sfu.State Ref) : Sfu.Call Ref → Option Ref
  | .removePeer roomId peerId false =>
      (s.rooms.lookup roomId).bind fun r =>
        ((s.room r).getPeer peerId).map Sfu.MediaPeer.object
  | .createTransport _ peerId _ (.createWebRtcTransport r _ false) =>
      if ok then none else ((s.room r).getPeer peerId).map Sfu.MediaPeer.object
  | _ => none

namespace State

/-- A call has entered the recording service. -/
def enter (s : State Ref δ) (i : Ref) : Sfu.Call Ref → State Ref δ × Work Ref
  | .startRecording _ peers (.files r) =>
      let (s, taps) := s.startRoomRecording i r peers
      (s, .taps taps)
  | .stopRecording _ (.files r) | .closeRoom _ (.stopRecording r) =>
      let (s, closings) := s.stopRoomRecording r
      (s, .stops r closings)
  | _ => (s, .none)

/-- `tapProducerIfRecording`, after its check of the room and of the kind. -/
def tapProducer (s : State Ref δ) (i object room : Ref) (roomId : RoomId)
    (peerId : PeerId) (producer : Sfu.Producer Ref) : State Ref δ × Work Ref :=
  if (s.peer object).recordingConsumer.any s.consumerOpen then (s, .taps [])
  else (s.startTap (i, object) room roomId peerId producer, .taps [(i, object)])

/-- The outcome of a tap. -/
def tapped (s : State Ref δ) (t : TapId Ref) : Option Bool :=
  match (s.tap t).map Tap.point with
  | some .returned => some true
  | some .threw => some false
  | _ => none

/-- `Promise.all`: rejects with the first, resolves with the last. -/
def all (outcomes : List (Option Bool)) : Option Bool :=
  if some false ∈ outcomes then some false
  else if none ∈ outcomes then none
  else some true

/-- The work goes on, or the call comes back from the recording service. -/
def work (s : State Ref δ) (ok : Bool) : Work Ref → Option (State Ref δ × (Work Ref ⊕ Bool))
  | .none => none
  | .taps taps => (all (taps.map s.tapped)).map fun result => (s, .inr result)
  | .stops r closings =>
      (all (closings.map s.stopped)).map fun result =>
        (s, if result then
          .inl (.mkdir { meetingId := (s.sfu.room r).id, participants := s.participants r })
        else .inr false)
  | .mkdir meeting => some (s, if ok then .inl (.writeFile meeting) else .inr false)
  | .writeFile meeting =>
      some (if ok then ({ s with meetings := s.meetings ++ [meeting] }, .inr true)
        else (s, .inr false))

end State

namespace Call

/-- A call of `MediaRoomsService` runs to its next `await`. -/
def stepMediaRooms (i : Ref) (ok : Bool) (s : State Ref δ) (call : Sfu.Call Ref) :
    Option (State Ref δ × Call Ref) :=
  (call.step i ok s.sfu).map fun r =>
    let s := s.dropPeer (removing ok s.sfu call)
    let entered := { s with sfu := r.1 }.enter i r.2
    (entered.1, .mediaRooms r.2 entered.2)

/-- `produce` runs to its next `await`; it holds the peer object meanwhile. -/
def stepProduce (i : Ref) (roomId : RoomId) (peerId : PeerId) (transportId : Ref)
    (kind : MediaKind) (ok : Bool) (s : State Ref δ) (point : Sfu.Produce Ref) :
    Option (State Ref δ × Call Ref) :=
  (point.step i roomId peerId transportId kind ok s.sfu).map fun r =>
    let s := { s with sfu := r.1 }
    let entered : State Ref δ × Work Ref := match point, r.2 with
      | .transportProduce _ object transport, .tapProducer _ =>
          match r.1.rooms.lookup roomId with
          | none => (s, .none)
          | some room =>
              s.tapProducer i object room (r.1.room room).id peerId { kind, transport }
      | _, _ => (s, .none)
    (entered.1, .produce roomId peerId transportId kind r.2 entered.2)

/-- The object on which `MediaRoom.removePeer` runs in the next step. -/
def removing (ok : Bool) (s : State Ref δ) : Call Ref → Option Ref
  | .mediaRooms call .none => Recording.removing ok s.sfu call
  | .mediaRooms call work =>
      (s.work ok work).bind fun r =>
        r.2.elim (fun _ => none) fun result => Recording.removing result s.sfu call
  | .produce .. => none

def step (i : Ref) (ok : Bool) (s : State Ref δ) :
    Call Ref → Option (State Ref δ × Call Ref)
  | .mediaRooms call .none => stepMediaRooms i ok s call
  | .produce roomId peerId transportId kind point .none =>
      stepProduce i roomId peerId transportId kind ok s point
  | .mediaRooms call work =>
      (s.work ok work).bind fun r =>
        match r.2 with
        | .inl work => some (r.1, .mediaRooms call work)
        | .inr result => stepMediaRooms i result r.1 call
  | .produce roomId peerId transportId kind point work =>
      (s.work ok work).bind fun r =>
        match r.2 with
        | .inl work => some (r.1, .produce roomId peerId transportId kind point work)
        | .inr result =>
            stepProduce i roomId peerId transportId kind result r.1 point

end Call

inductive Happening (Ref : Type) where
  | call (i : Ref) (ok : Bool)
  | tap (t : TapId Ref) (ok : Bool)
  | message (t : TapId Ref) (msg : Bytes)
  | written (t : TapId Ref) (k : Nat)
  | close (t : TapId Ref) (ok : Bool)
  | producerclose (t : TapId Ref)
  | socketError (t : TapId Ref)
  deriving DecidableEq, Repr

/-- One sfu process: its calls, its taps and everything that happens to them. -/
abbrev Process (Ref δ : Type) := Pool Ref (State Ref δ) (Call Ref)

def Process.step (env : Env δ) (s : Process Ref δ) :
    Happening Ref → Option (Process Ref δ)
  | .call i ok =>
      ((s.proc i).step i ok s.world).map fun r => s.set i r.1 r.2
  | .tap t ok => (s.world.tapStep env t ok).map fun w => { s with world := w }
  | .message t msg => (s.world.message env t msg).map fun w => { s with world := w }
  | .written t k => (s.world.written t k).map fun w => { s with world := w }
  | .close t ok => (s.world.closeStep t ok).map fun w => { s with world := w }
  | .producerclose t => (s.world.producerclose t).map fun w => { s with world := w }
  | .socketError t => (s.world.socketError t).map fun w => { s with world := w }

def process (env : Env δ) : System (Process Ref δ) (Happening Ref) where
  step := Process.step env

/-- Nothing has been recorded, and the calls are going to be made. -/
def Process.start (sfu : Sfu.State Ref) (requests : Ref → Request Ref) :
    Process Ref δ :=
  ⟨.unrecorded sfu, fun i => (requests i).call⟩

end MeetServer.Recording
