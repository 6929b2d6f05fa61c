import MeetServer.Recording.Frames
import MeetServer.Sfu.OccupiedClose

/-!
# Closing an empty room

`closeRoom` finalises the recording first, and of an empty room that is
`meeting.json`.  When one of its two file operations fails, the call throws with
the router open, the slot taken and the room in the map.
-/

namespace MeetServer.Sfu

/-- The room `roomId`, which is the object `r`, is left as it is. -/
structure State.LeavesRoom {Ref : Type} (roomId : RoomId) (r : Ref) (s s' : State Ref) :
    Prop where
  lookup : s'.rooms.lookup roomId = s.rooms.lookup roomId
  room : s'.room r = s.room r
  routerOpen : s'.routerOpen r = s.routerOpen r

theorem State.LeavesRoom.of_eq {Ref : Type} {roomId : RoomId} {r : Ref} {s s' : State Ref}
    (h : s' = s) : s.LeavesRoom roomId r s' := by
  subst h
  exact ⟨rfl, rfl, rfl⟩

end MeetServer.Sfu

namespace MeetServer.Recording

open MeetServer.Foundation

variable {Ref δ : Type} [DecidableEq Ref]

/-! ## The steps of a close -/

theorem isEmpty_setRecording {s : Sfu.State Ref} {r : Ref} {b : Bool}
    (h : (s.room r).isEmpty) : ((s.setRecording r b).room r).isEmpty := by
  unfold Sfu.MediaRoom.isEmpty at h ⊢
  rwa [s.peers_setRecording]

/-- An empty room has no recording to stop. -/
theorem State.stopRoomRecording_of_isEmpty {s : State Ref δ} {r : Ref}
    (h : (s.sfu.room r).isEmpty) : s.stopRoomRecording r = (s, []) := by
  have hpeers : Dict.values (s.sfu.room r).peers = [] := by
    simpa [Sfu.MediaRoom.isEmpty, Dict.size, Dict.values, AList.keys, List.keys] using h
  rw [State.stopRoomRecording, hpeers]
  rfl

namespace Call

/-- The room whose `close()` the call executes in its next step, and whose slot it
releases. -/
def closing (ok : Bool) (s : State Ref δ) : Call Ref → Option Ref
  | .mediaRooms call .none => call.closing ok s.sfu
  | .mediaRooms call work =>
      (s.work ok work).bind fun r =>
        r.2.elim (fun _ => none) fun result => call.closing result s.sfu
  | .produce .. => none

def writesMeeting : Call Ref → Bool
  | .mediaRooms (.closeRoom _ _) (.mkdir _) | .mediaRooms (.closeRoom _ _) (.writeFile _) => true
  | _ => false

def hasClosed : Call Ref → Bool
  | .mediaRooms (.closeRoom _ (.returned true)) _ => true
  | _ => false

def closeThrew : Call Ref → Bool
  | .mediaRooms (.closeRoom _ .threw) _ => true
  | _ => false

def closeSettled : Call Ref → Bool
  | .mediaRooms (.closeRoom _ (.returned _)) _ => true
  | call => call.closeThrew

end Call

/-- How far a close of an empty room has come, with the state of the room. -/
inductive ClosingAt (roomId : RoomId) (r : Ref) (s : Sfu.State Ref) : Call Ref → Prop
  | call : s.rooms.lookup roomId = some r → (s.room r).isEmpty →
      ClosingAt roomId r s (.mediaRooms (.closeRoom roomId .call) .none)
  | stops : s.rooms.lookup roomId = some r →
      ClosingAt roomId r s (.mediaRooms (.closeRoom roomId (.stopRecording r)) (.stops r []))
  | mkdir {meeting} : s.rooms.lookup roomId = some r →
      ClosingAt roomId r s (.mediaRooms (.closeRoom roomId (.stopRecording r)) (.mkdir meeting))
  | writeFile {meeting} : s.rooms.lookup roomId = some r →
      ClosingAt roomId r s
        (.mediaRooms (.closeRoom roomId (.stopRecording r)) (.writeFile meeting))
  | closed : s.rooms.lookup roomId = none → s.routerOpen r = false →
      ClosingAt roomId r s (.mediaRooms (.closeRoom roomId (.returned true)) .none)
  | threw : s.rooms.lookup roomId = some r →
      ClosingAt roomId r s (.mediaRooms (.closeRoom roomId .threw) .none)

namespace ClosingAt

variable {roomId : RoomId} {r i : Ref} {ok : Bool} {c c' : Call Ref}

omit [DecidableEq Ref] in
theorem leavesRoom {s s' : Sfu.State Ref} (h : ClosingAt roomId r s c)
    (hleaves : s.LeavesRoom roomId r s') : ClosingAt roomId r s' c := by
  obtain ⟨hlookup, hroom, hrouter⟩ := hleaves
  cases h with
  | call hr hempty => exact .call (hlookup.trans hr) (hroom ▸ hempty)
  | stops hr => exact .stops (hlookup.trans hr)
  | mkdir hr => exact .mkdir (hlookup.trans hr)
  | writeFile hr => exact .writeFile (hlookup.trans hr)
  | closed hnone hclosed => exact .closed (hlookup.trans hnone) (hrouter.trans hclosed)
  | threw hr => exact .threw (hlookup.trans hr)

theorem finished (s : Sfu.State Ref) :
    ClosingAt roomId r (s.finishClose roomId r)
      (.mediaRooms (.closeRoom roomId (.returned true)) .none) :=
  .closed (by simp [Sfu.State.finishClose])
    (by simp [Sfu.State.finishClose, Sfu.State.closeRouter, Sfu.State.releaseWorker])

/-- A close goes on, throws at a file operation, or closes the room. -/
theorem step {s s' : State Ref δ} (h : ClosingAt roomId r s.sfu c)
    (hstep : c.step i ok s = some (s', c')) :
    ClosingAt roomId r s'.sfu c' ∧ c.hasClosed = false ∧ c.closeThrew = false ∧
      (c'.closeThrew ↔ c.writesMeeting ∧ ok = false) ∧
      (c'.hasClosed ↔ c.closing ok s = some r) := by
  cases h with
  | call hr hempty =>
      have hcall : Call.stepMediaRooms i ok s (.closeRoom roomId .call) = some (s', c') := hstep
      have hthrew (c' : Call Ref) (hc' : c'.closeThrew = false) : c'.closeThrew ↔
          Call.writesMeeting (.mediaRooms (.closeRoom roomId .call) .none : Call Ref) ∧
            ok = false := by
        simp [Call.writesMeeting, hc']
      cases hrecording : (s.sfu.room r).recording with
      | false =>
          simp only [Call.stepMediaRooms, Sfu.Call.step, Sfu.CloseRoom.step, hr, hempty,
            hrecording, Bool.not_true, Bool.false_eq_true, if_false, Option.map_some, State.enter,
            Option.some.injEq, Prod.mk.injEq] at hcall
          obtain ⟨rfl, rfl⟩ := hcall
          exact ⟨finished _, rfl, rfl, hthrew _ rfl,
            by simp [Call.hasClosed, Call.closing, Sfu.Call.closing, hr, hempty, hrecording]⟩
      | true =>
          have hstop := State.stopRoomRecording_of_isEmpty
            (s := { s with sfu := s.sfu.setRecording r false })
            (isEmpty_setRecording (b := false) hempty)
          simp only [Call.stepMediaRooms, Sfu.Call.step, Sfu.CloseRoom.step, hr, hempty,
            hrecording, Bool.not_true, Bool.false_eq_true, if_false, if_true, Option.map_some,
            State.enter, removing, State.dropPeer, Option.elim_none, hstop, Option.some.injEq,
            Prod.mk.injEq] at hcall
          obtain ⟨rfl, rfl⟩ := hcall
          exact ⟨.stops hr, rfl, rfl, hthrew _ rfl,
            by simp [Call.hasClosed, Call.closing, Sfu.Call.closing, hr, hrecording]⟩
  | stops hr =>
      cases hstep
      exact ⟨.mkdir hr, rfl, rfl, by simp [Call.closeThrew, Call.writesMeeting],
        by simp [Call.hasClosed, Call.closing, State.work, State.all]⟩
  | mkdir hr =>
      cases ok with
      | true =>
          cases hstep
          exact ⟨.writeFile hr, rfl, rfl, by simp [Call.closeThrew],
            by simp [Call.hasClosed, Call.closing, State.work]⟩
      | false =>
          cases hstep
          exact ⟨.threw hr, rfl, rfl, by simp [Call.closeThrew, Call.writesMeeting],
            by simp [Call.hasClosed, Call.closing, Sfu.Call.closing, State.work]⟩
  | writeFile hr =>
      cases ok with
      | true =>
          cases hstep
          exact ⟨finished _, rfl, rfl, by simp [Call.closeThrew],
            by simp [Call.hasClosed, Call.closing, Sfu.Call.closing, State.work]⟩
      | false =>
          cases hstep
          exact ⟨.threw hr, rfl, rfl, by simp [Call.closeThrew, Call.writesMeeting],
            by simp [Call.hasClosed, Call.closing, Sfu.Call.closing, State.work]⟩
  | closed => cases hstep
  | threw => cases hstep

end ClosingAt

/-! ## Runs -/

section Runs

variable {env : Env δ} {roomId : RoomId} {i r : Ref} {p p' : Process Ref δ} {a : Happening Ref}

def Closes (r : Ref) (p : Process Ref δ) : Happening Ref → Prop
  | .call j ok => (p.proc j).closing ok p.world = some r
  | _ => False

instance (r : Ref) (p : Process Ref δ) : ∀ a, Decidable (Closes r p a)
  | .call j ok => inferInstanceAs (Decidable ((p.proc j).closing ok p.world = some r))
  | .tap .. | .message .. | .written .. | .close .. | .producerclose _ | .socketError _ =>
      .isFalse id

/-- No other call works on the room. -/
def LeavesRoomTo (env : Env δ) (roomId : RoomId) (r i : Ref) (p : Process Ref δ)
    (a : Happening Ref) : Prop :=
  ∀ j ok, a = .call j ok → j ≠ i →
    p.world.sfu.LeavesRoom roomId r ((process env).next p a).world.sfu ∧ ¬ Closes r p a

/-- The directory and the file of `meeting.json` are written. -/
def MeetingWritten (i : Ref) (p : Process Ref δ) : Happening Ref → Prop
  | .call j ok => j = i → (p.proc i).writesMeeting → ok = true
  | _ => True

instance (i : Ref) (p : Process Ref δ) : ∀ a, Decidable (MeetingWritten i p a)
  | .call j ok => inferInstanceAs (Decidable (j = i → (p.proc i).writesMeeting → ok = true))
  | .tap .. | .message .. | .written .. | .close .. | .producerclose _ | .socketError _ =>
      .isTrue trivial

theorem closingAt_step (h : ClosingAt roomId r p.world.sfu (p.proc i))
    (halone : LeavesRoomTo env roomId r i p a) (hstep : (process env).step p a = some p') :
    ClosingAt roomId r p'.world.sfu (p'.proc i) ∧
      ((p'.proc i).closeThrew = false ↔
        (p.proc i).closeThrew = false ∧ MeetingWritten i p a) ∧
      (p'.proc i).hasClosed.toNat = (p.proc i).hasClosed.toNat + if Closes r p a then 1 else 0 := by
  cases process_seenBy i hstep with
  | own hcall =>
      obtain ⟨hat, hnotClosed, hnotThrown, hthrew, hclosed⟩ := h.step hcall
      rw [Pool.set_proc_self]
      refine ⟨hat, ?_, ?_⟩
      · simp only [hnotThrown, MeetingWritten, true_and, forall_const, ← Bool.not_eq_true, hthrew]
        simp
      · simp only [hnotClosed, Closes, ← hclosed]
        cases Call.hasClosed _ <;> rfl
  | @other j ok w c hj hcall =>
      obtain ⟨hleaves, hcloses⟩ := halone j ok rfl hj
      rw [System.next_of_step hstep] at hleaves
      rw [p.set_proc_ne w c (Ne.symm hj)]
      exact ⟨h.leavesRoom hleaves, by simp [MeetingWritten, hj], by simp [hcloses]⟩
  | apart hcall hproc hsfu =>
      have hclean : ¬ Closes r p a ∧ MeetingWritten i p a := by
        cases a with
        | call j ok => exact (hcall j ok rfl).elim
        | _ => exact ⟨id, trivial⟩
      rw [hproc]
      exact ⟨h.leavesRoom (.of_eq hsfu), by simp [hclean.2], by simp [hclean.1]⟩

/-- The close of an empty room, alone on it, closes it, frees its slot once and takes it
out of the map exactly when its `meeting.json` is written. -/
theorem closes_iff_meetingWritten {labels : List (Happening Ref)}
    (hcall : p.proc i = .mediaRooms (.closeRoom roomId .call) .none)
    (hr : p.world.sfu.rooms.lookup roomId = some r) (hempty : (p.world.sfu.room r).isEmpty)
    (halone : (process env).Meets (LeavesRoomTo env roomId r i) p labels)
    (hrun : (process env).run p labels = p') (hsettled : (p'.proc i).closeSettled) :
    (p'.world.sfu.routerOpen r = false ∧ (process env).count (Closes r) p labels = 1 ∧
      p'.world.sfu.rooms.lookup roomId = none) ↔
      (process env).Meets (MeetingWritten i) p labels := by
  have hat : ClosingAt roomId r p.world.sfu (p.proc i) := hcall ▸ .call hr hempty
  have hkeeps : (process env).Preserves (LeavesRoomTo env roomId r i) fun p =>
      ClosingAt roomId r p.world.sfu (p.proc i) :=
    fun p a p' h halone hstep => (closingAt_step h halone hstep).1
  have hcount := halone.count_add (D := Closes r) (f := fun p => (p.proc i).hasClosed.toNat)
    hkeeps (fun p a p' h halone hstep => (closingAt_step h halone hstep).2.2) hat
  have hthrew := System.last_iff_meets (P := fun p => (p.proc i).closeThrew = false) hkeeps
    (fun p a p' h halone hstep => (closingAt_step h halone hstep).2.1) hat halone
  have hlast := (halone.holds hkeeps (fun _ h => h) hat).last
  rw [hrun] at hcount hthrew hlast
  rw [hcall] at hcount hthrew
  have hmeets : (process env).Meets (MeetingWritten i) p labels ↔
      (p'.proc i).closeThrew = false := by
    simpa [Call.closeThrew] using hthrew.symm
  rw [hmeets]
  generalize p'.proc i = c at hlast hsettled hcount
  cases hlast with
  | closed hnone hclosed =>
      have hone : (process env).count (Closes r) p labels = 1 := by
        simpa [Call.hasClosed] using hcount.symm
      simp [hclosed, hnone, hone, Call.closeThrew]
  | threw hr => simp [hr, Call.closeThrew]
  | call | stops | mkdir | writeFile => cases hsettled

end Runs

/-! A room is recorded without peers and closed. -/

namespace EmptyRoom

inductive Caller where
  | create
  | record
  | close
  deriving DecidableEq

def requests : Caller → Request Caller
  | .create => .mediaRooms (.getOrCreateRoom "r")
  | .record => .mediaRooms (.startRecording "r" [])
  | .close => .mediaRooms (.closeRoom "r")

def recording : Process Caller Unit :=
  (process OnePeer.env).run (.start (.spawned [0]) requests)
    [.call .create true, .call .create true, .call .record true, .call .record true]

def closed (answers : List Bool) : List (Happening Caller) := answers.map (.call .close)

end EmptyRoom

open EmptyRoom in
theorem closes_written :
    ((process OnePeer.env).run recording
        (closed [true, true, true, true])).world.sfu.routerOpen .create = false ∧
      (process OnePeer.env).count (Closes .create) recording (closed [true, true, true, true]) = 1 ∧
      ((process OnePeer.env).run recording
        (closed [true, true, true, true])).world.sfu.rooms.lookup "r" = none := by
  refine (closes_iff_meetingWritten (i := .close) (by decide +kernel) (by decide +kernel)
    (by decide +kernel) (System.meets_of_forall fun a ha p => ?_) rfl (by decide +kernel)).2
    (by decide +kernel)
  obtain ⟨ok, -, rfl⟩ := List.mem_map.1 ha
  rintro j ok ⟨⟩ hj
  exact (hj rfl).elim

open EmptyRoom in
/-- The directory cannot be made, and the room stays. -/
theorem not_closes_unwritten :
    (recording.world.sfu.room .create).isEmpty = true ∧
      (((process OnePeer.env).run recording
        (closed [true, true, false])).proc .close).closeSettled = true ∧
      ((process OnePeer.env).run recording
        (closed [true, true, false])).world.sfu.routerOpen .create = true ∧
      (process OnePeer.env).count (Closes .create) recording (closed [true, true, false]) = 0 ∧
      ((process OnePeer.env).run recording
        (closed [true, true, false])).world.sfu.rooms.lookup "r" = some .create := by
  decide +kernel

end MeetServer.Recording
