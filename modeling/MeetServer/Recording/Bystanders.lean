import MeetServer.Foundation.Simulation
import MeetServer.Recording.Meetings
import MeetServer.Sfu.RoomIsolation

/-!
# Recording and the rooms

The taps, their sockets and their files take no part in the rooms: without them a
run of the process is one of the calls of `MediaRoomsService`.  So what happens to
a room is up to its own calls, however much of the process is being recorded.
-/

namespace MeetServer.Recording

open MeetServer.Foundation

variable {Ref δ : Type}

/-- The call without what it does in the recording service. -/
def Call.media : Call Ref → Sfu.MediaCall Ref
  | .mediaRooms call _ => .rooms call
  | .produce roomId peerId transportId kind point _ =>
      .produce roomId peerId transportId kind point

def Request.media : Request Ref → Sfu.MediaRequest Ref
  | .mediaRooms request => .rooms request
  | .produce roomId peerId transportId kind => .produce roomId peerId transportId kind

theorem Request.media_call (request : Request Ref) : request.call.media = request.media.call := by
  cases request <;> rfl

/-- The rooms and the calls, without the recordings. -/
def Process.media (p : Process Ref δ) : Sfu.MediaProcess Ref :=
  ⟨{ Sfu.Media.spawned [] with rooms := p.world.sfu }, fun i => (p.proc i).media⟩

variable [DecidableEq Ref]

theorem Process.media_set (p : Process Ref δ) (i : Ref) (s' : State Ref δ) (c' : Call Ref) :
    media (p.set i s' c') =
      p.media.set i { p.media.world with rooms := s'.sfu } c'.media := by
  simp only [media, Pool.set, Pool.mk.injEq, true_and]
  funext j
  by_cases hj : j = i <;> simp [hj]

omit [DecidableEq Ref] in
theorem Process.media_start (workers : List Sfu.Worker) (requests : Ref → Request Ref) :
    media (.start (.spawned workers) requests : Process Ref δ) =
      .spawned workers fun i => (requests i).media := by
  simp only [media, Process.start, Request.media_call]
  rfl

namespace Call

variable {s s' : State Ref δ} {i : Ref} {ok : Bool} {c c' : Call Ref} {m : Sfu.Media Ref}

theorem media_stepMediaRooms {call : Sfu.Call Ref} (hm : m.rooms = s.sfu)
    (h : stepMediaRooms i ok s call = some (s', c')) :
    (Sfu.MediaCall.rooms call).step i ok m = some ({ m with rooms := s'.sfu }, c'.media) := by
  obtain ⟨⟨sfu, call'⟩, hcall, hr⟩ := Option.map_eq_some_iff.1 h
  cases hr
  rw [Sfu.MediaCall.step, hm, hcall, State.sfu_enter]
  rfl

theorem media_stepProduce {roomId : RoomId} {peerId : PeerId} {transportId : Ref}
    {kind : MediaKind} {point : Sfu.Produce Ref} (hm : m.rooms = s.sfu)
    (h : stepProduce i roomId peerId transportId kind ok s point = some (s', c')) :
    (Sfu.MediaCall.produce roomId peerId transportId kind point).step i ok m =
      some ({ m with rooms := s'.sfu }, c'.media) := by
  obtain ⟨point', hpoint⟩ := sfu_stepProduce h
  obtain ⟨⟨sfu, point''⟩, hpoint', hr⟩ := Option.map_eq_some_iff.1 h
  cases hr
  obtain ⟨-, rfl⟩ := Prod.mk.inj (Option.some.inj (hpoint.symm.trans hpoint'))
  rw [Sfu.MediaCall.step, hm, hpoint]
  rfl

/-- A step of a call is one in its room, or one inside the recording service. -/
theorem media_step (hm : m.rooms = s.sfu) (h : c.step i ok s = some (s', c')) :
    s'.sfu = s.sfu ∧ c'.media = c.media ∨
      ∃ ok', c.media.step i ok' m = some ({ m with rooms := s'.sfu }, c'.media) := by
  cases c with
  | mediaRooms call work =>
      by_cases hnone : work = .none
      · subst hnone
        exact .inr ⟨ok, media_stepMediaRooms hm h⟩
      · rw [step_mediaRooms hnone] at h
        obtain ⟨⟨s₁, r⟩, hwork, hr⟩ := Option.bind_eq_some_iff.1 h
        obtain ⟨meetings, rfl⟩ := work_cases hwork
        cases r with
        | inl work' =>
            cases hr
            exact .inl ⟨rfl, rfl⟩
        | inr result =>
            exact .inr ⟨result, media_stepMediaRooms (s := { s with meetings }) hm hr⟩
  | produce roomId peerId transportId kind point work =>
      by_cases hnone : work = .none
      · subst hnone
        exact .inr ⟨ok, media_stepProduce hm h⟩
      · rw [step_produce hnone] at h
        obtain ⟨⟨s₁, r⟩, hwork, hr⟩ := Option.bind_eq_some_iff.1 h
        obtain ⟨meetings, rfl⟩ := work_cases hwork
        cases r with
        | inl work' =>
            cases hr
            exact .inl ⟨rfl, rfl⟩
        | inr result =>
            exact .inr ⟨result, media_stepProduce (s := { s with meetings }) hm hr⟩

end Call

theorem process_projects (env : Env δ) :
    (process env).Projects (Sfu.mediaService : System (Sfu.MediaProcess Ref) _) Process.media := by
  intro p a p' hstep
  by_cases hcall : ∃ i ok, a = .call i ok
  · obtain ⟨i, ok, rfl⟩ := hcall
    obtain ⟨⟨s', c'⟩, hc, rfl⟩ := Option.map_eq_some_iff.1 hstep
    rw [Process.media_set]
    rcases Call.media_step (m := p.media.world) rfl hc with ⟨hsfu, hmedia⟩ | ⟨ok', hmedia⟩
    · refine .inl ?_
      rw [hsfu, hmedia, Pool.set]
      exact congrArg (Pool.mk p.media.world) (Function.update_eq_self i _)
    · exact .inr ⟨(i, ok'), Pool.step_eq_some.2 ⟨_, _, hmedia, rfl⟩⟩
  · obtain ⟨hproc, hsfu⟩ := (process_cases hstep).frame (by simpa using hcall)
    refine .inl ?_
    rw [Process.media, Process.media, hproc, hsfu]

/-- Whatever is recorded, and whatever other rooms do: the room and its calls are as steps of these
calls alone leave them. -/
theorem recordings_noninterfere (env : Env δ) (workers : List Sfu.Worker)
    (requests : Ref → Request Ref) (roomId : RoomId) (happenings : List (Happening Ref)) :
    let roomOf i := (requests i).media.roomId
    let p := ((process env).run (.start (.spawned workers) requests) happenings).media
    ∃ schedule : List (Ref × Bool), (∀ event ∈ schedule, roomOf event.1 = roomId) ∧
      let alone := Sfu.mediaService.run (.spawned workers fun i => (requests i).media) schedule
      p.world.SameRoom roomOf roomId alone.world ∧
        ∀ i, roomOf i = roomId → (alone.proc i).unplaced = (p.proc i).unplaced := by
  intro roomOf p
  obtain ⟨schedule, hrun⟩ := (process_projects env).exists_run (.start (.spawned workers) requests)
    happenings
  rw [Process.media_start] at hrun
  obtain ⟨halike, -, -⟩ :=
    Sfu.indistinguishable_filter workers (fun i => (requests i).media) roomId schedule
  rw [hrun] at halike
  refine ⟨schedule.filter fun event => roomOf event.1 = roomId, fun event hevent => ?_,
    halike.world, fun i hi => halike.proc i (decide_eq_true hi)⟩
  exact of_decide_eq_true (List.mem_filter.1 hevent).2

end MeetServer.Recording
