import MeetServer.Sfu.Steps

/-!
# The rooms map and the routers

`Registry` says how the maps of a process, its room objects and its calls fit
together in every run.  Whether the maps also name every open router depends on
what a `closeRoom` call finds when it resumes: `OneLiveRouter` is kept exactly
by the runs in which no such call finds another room under its id.
-/

namespace MeetServer.Sfu

open MeetServer.Foundation

variable {Ref : Type}

namespace Call

/-- The room id for which the call has a `createRouter` outstanding. -/
def creating : Call Ref → Option RoomId
  | .getOrCreateRoom roomId (.createRouter _) => some roomId
  | _ => none

/-- The room a `getOrCreateRoom` call has returned. -/
def gotRoom : Call Ref → Option Ref
  | .getOrCreateRoom _ (.returned room) => some room
  | _ => none

/-- The room id and the room a `closeRoom` call has suspended on. -/
def stopping : Call Ref → Option (RoomId × Ref)
  | .closeRoom roomId (.stopRecording r) => some (roomId, r)
  | _ => none

end Call

structure Registry (p : Process Ref) : Prop where
  stored : ∀ roomId r, p.world.rooms.lookup roomId = some r →
    (p.world.room r).id = roomId ∧ (p.proc r).gotRoom = some r
  creating : ∀ i roomId, (p.proc i).creating = some roomId →
    p.world.pendingRooms roomId = some i ∧
      p.world.rooms.lookup roomId = none
  pending : ∀ roomId i, p.world.pendingRooms roomId = some i →
    (p.proc i).creating = some roomId
  stopping : ∀ i roomId r, (p.proc i).stopping = some (roomId, r) →
    (p.world.room r).id = roomId ∧ (p.proc r).gotRoom = some r

theorem Registry.spawned (workers : List Worker) (requests : Ref → Request) :
    Registry (Process.spawned workers requests) := by
  refine ⟨?_, ?_, ?_, ?_⟩
  · simp [Process.spawned, State.spawned]
  · intro i roomId h
    cases hr : requests i <;>
      simp [Process.spawned, Request.call, hr, Call.creating] at h
  · simp [Process.spawned, State.spawned]
  · intro i roomId r h
    cases hr : requests i <;>
      simp [Process.spawned, Request.call, hr, Call.stopping] at h

variable [DecidableEq Ref]

/-- A call that creates nothing and has returned no room leaves the maps as they are. -/
theorem Registry.frame {p : Process Ref} {i : Ref} {s' : State Ref} {c' : Call Ref}
    (h : Registry p) (hframe : Frame p.world s') (hgot : (p.proc i).gotRoom = none)
    (hcreating : (p.proc i).creating = none) (hcreating' : c'.creating = none)
    (hstopping' : ∀ roomId r, c'.stopping = some (roomId, r) →
      p.world.rooms.lookup roomId = some r) :
    Registry (p.set i s' c') := by
  obtain ⟨hstored, hcreatingAt, hpending, hstopping⟩ := h
  have hkept {r : Ref} (hr : (p.proc r).gotRoom = some r) :
      ((p.set i s' c').proc r).gotRoom = some r := by
    have hne : r ≠ i := by
      rintro rfl
      cases hgot.symm.trans hr
    rwa [Pool.set_proc_ne _ _ _ hne]
  refine ⟨fun roomId r hr => ?_, fun j roomId hj => ?_, fun roomId j hj => ?_,
    fun j roomId r hj => ?_⟩
  · rw [Pool.set_world, hframe.rooms] at hr
    rw [Pool.set_world, hframe.id]
    exact ⟨(hstored roomId r hr).1, hkept (hstored roomId r hr).2⟩
  · rw [Pool.set_world, hframe.rooms, hframe.pendingRooms]
    rw [Pool.set_proc] at hj
    split at hj
    · cases hcreating'.symm.trans hj
    · exact hcreatingAt j roomId hj
  · rw [Pool.set_world, hframe.pendingRooms] at hj
    have hold := hpending roomId j hj
    have hne : j ≠ i := by
      rintro rfl
      cases hcreating.symm.trans hold
    rwa [Pool.set_proc_ne _ _ _ hne]
  · rw [Pool.set_world, hframe.id]
    rw [Pool.set_proc] at hj
    split at hj
    · have hroom := hstored roomId r (hstopping' roomId r hj)
      exact ⟨hroom.1, hkept hroom.2⟩
    · exact ⟨(hstopping j roomId r hj).1, hkept (hstopping j roomId r hj).2⟩

theorem Registry.step {p : Process Ref} {i : Ref} {ok : Bool} {s' : State Ref}
    {c' : Call Ref} (h : Registry p)
    (hs : Step i p.world ok (p.proc i) s' c') :
    Registry (p.set i s' c') := by
  have hquiet := @Registry.frame _ _ p i s' c' h
  obtain ⟨hstored, hcreating, hpending, hstopping⟩ := h
  generalize hc : p.proc i = c at hs hquiet
  cases hs with
  | «local» hl hl' hframe =>
      have hnone : c.gotRoom = none ∧ c.creating = none := by
        cases c <;> first | exact ⟨rfl, rfl⟩ | exact hl.elim
      have hnone' : c'.creating = none ∧ c'.stopping = none := by
        cases c' <;> first | exact ⟨rfl, rfl⟩ | exact hl'.elim
      exact hquiet hframe hnone.1 hnone.2 hnone'.1 (by simp [hnone'.2])
  | found | waits | noWorker | resumed | failed | closeAbsent | closeRefused | closeFailed =>
      exact hquiet (.refl _) rfl rfl rfl (by simp [Call.stopping])
  | @closeSuspended ok roomId r hr hempty hrecording =>
      refine hquiet (.setRecording p.world r false) rfl rfl rfl ?_
      rintro _ _ ⟨⟩
      exact hr
  | reserved =>
      constructor <;> simp only [Pool.set_world, Pool.set_proc,
        State.beginCreation, Function.update_apply] <;>
        grind [Call.creating, Call.gotRoom, Call.stopping]
  | created =>
      constructor <;> simp only [Pool.set_world, Pool.set_proc, State.addRoom,
        State.settleCreation, Function.update_apply, Dict.lookup_insert_ite] <;>
        grind [Call.creating, Call.gotRoom, Call.stopping]
  | rejected =>
      constructor <;> simp only [Pool.set_world, Pool.set_proc,
        State.releaseWorker, State.settleCreation, Function.update_apply] <;>
        grind [Call.creating, Call.gotRoom, Call.stopping]
  | closed | closeResumed =>
      constructor <;> simp only [Pool.set_world, Pool.set_proc,
        State.finishClose, State.closeRouter, State.releaseWorker,
        Dict.lookup_erase_ite] <;>
        grind [Call.creating, Call.gotRoom, Call.stopping]

/-! ## One live router for each room id -/

section OneLiveRouter

omit [DecidableEq Ref]

/--
At most one open router was created for a room id, and once the creating call
has returned it is the router of the room the map holds under that id.
-/
structure OneLiveRouter (p : Process Ref) : Prop where
  unique : ∀ r r', p.world.routerOpen r → p.world.routerOpen r' →
    (p.world.room r).id = (p.world.room r').id → r = r'
  stored : ∀ r, p.world.routerOpen r → (p.proc r).gotRoom = some r →
    p.world.rooms.lookup (p.world.room r).id = some r

/--
A `closeRoom` call that resumes after the recording files finds under its id
the room it set out to close, or no room.
-/
def ResumesOnOwnRoom (p : Process Ref) (a : Ref × Bool) : Prop :=
  ∀ roomId r, (p.proc a.1).stopping = some (roomId, r) → a.2 = true →
    ∀ r', p.world.rooms.lookup roomId = some r' → r' = r

/-- The stored rooms are exactly the rooms with an open router. -/
structure LiveRegistry (p : Process Ref) : Prop extends Registry p where
  live : ∀ r, p.world.routerOpen r →
    p.world.rooms.lookup (p.world.room r).id = some r
  storedOpen : ∀ roomId r, p.world.rooms.lookup roomId = some r →
    p.world.routerOpen r

theorem LiveRegistry.oneLiveRouter {p : Process Ref} (h : LiveRegistry p) :
    OneLiveRouter p where
  unique r r' hr hr' hid := by
    have hlookup := h.live r hr
    rw [hid, h.live r' hr'] at hlookup
    exact (Option.some.inj hlookup).symm
  stored r hr _ := h.live r hr

theorem LiveRegistry.spawned (workers : List Worker) (requests : Ref → Request) :
    LiveRegistry (Process.spawned workers requests) where
  toRegistry := .spawned workers requests
  live := by simp [Process.spawned, State.spawned]
  storedOpen := by simp [Process.spawned, State.spawned]

end OneLiveRouter

theorem LiveRegistry.preserves :
    (service : System (Process Ref) _).Preserves ResumesOnOwnRoom
      LiveRegistry := by
  rintro p ⟨i, ok⟩ p' h hown hstep
  obtain ⟨s', c', hcall, rfl⟩ := Pool.step_eq_some.1 hstep
  have hs := Call.step_cases hcall
  refine ⟨h.toRegistry.step hs, ?_, ?_⟩
  all_goals
    obtain ⟨⟨hstored, hcreating, hpending, hstopping⟩, hlive, hopen⟩ := h
    simp only [ResumesOnOwnRoom] at hown
    generalize hc : p.proc i = c at hs hown
    cases hs with
    | «local» hl hl' hframe =>
        obtain ⟨hrooms, -, -, -, hrouter, hid, -⟩ := hframe
        simp only [Pool.set_world]
        grind
    | found | waits | noWorker | resumed | failed | reserved | rejected
    | closeAbsent | closeRefused | closeFailed =>
        simpa [Pool.set_world] using by assumption
    | created =>
        simp only [Pool.set_world, State.addRoom, State.settleCreation,
          Function.update_apply, Dict.lookup_insert_ite]
        grind [Call.creating, Call.gotRoom]
    | @closeSuspended _ roomId r hr hempty hrecording =>
        obtain ⟨hrooms, -, -, -, hrouter, hid, -⟩ :=
          Frame.setRecording p.world r false
        simp only [Pool.set_world]
        grind
    | @closed _ roomId r hr =>
        simp only [Pool.set_world, State.finishClose, State.closeRouter,
          State.releaseWorker, Function.update_apply, Dict.lookup_erase_ite]
        grind
    | @closeResumed roomId r =>
        have hown := hown roomId r rfl rfl
        have hid := (hstopping i roomId r (by rw [hc]; rfl)).1
        simp only [Pool.set_world, State.finishClose, State.closeRouter,
          State.releaseWorker, Function.update_apply, Dict.lookup_erase_ite]
        grind


/-- A call that resumes under another room's id orphans that room's router. -/
theorem LiveRegistry.orphans {p p' : Process Ref} {a : Ref × Bool}
    (h : LiveRegistry p) (hown : ¬ ResumesOnOwnRoom p a)
    (hstep : service.step p a = some p') : ¬ OneLiveRouter p' := by
  obtain ⟨i, ok⟩ := a
  obtain ⟨s', c', hcall, rfl⟩ := Pool.step_eq_some.1 hstep
  have hs := Call.step_cases hcall
  simp only [ResumesOnOwnRoom, not_forall] at hown
  obtain ⟨roomId, r, hstop, rfl, r', hr', hne⟩ := hown
  have hopen := h.storedOpen roomId r' hr'
  obtain ⟨hid, hgot⟩ := h.stored roomId r' hr'
  generalize hc : p.proc i = c at hs hstop
  cases hs with
  | closeResumed =>
      obtain ⟨rfl, rfl⟩ : _ = roomId ∧ _ = r := by
        simpa [Call.stopping] using hstop
      have hi : r' ≠ i := by
        rintro rfl
        simp [hc, Call.gotRoom] at hgot
      intro horphan
      have := horphan.stored r'
      simp [State.finishClose, State.closeRouter, State.releaseWorker, hne,
        hopen, hid, hgot, Pool.set_proc, hi, Dict.lookup_erase_ite] at this
  | «local» hl => cases c <;> simp_all [Call.stopping, Call.Local]
  | _ => simp [Call.stopping] at hstop

/-- A run keeps one live router for each room id exactly when no `closeRoom`
call resumes on another room than its own. -/
theorem holds_oneLiveRouter_iff (workers : List Worker)
    (requests : Ref → Request) (schedule : List (Ref × Bool)) :
    service.Holds OneLiveRouter (Process.spawned workers requests) schedule ↔
      service.Meets ResumesOnOwnRoom (Process.spawned workers requests)
        schedule :=
  System.holds_iff_meets LiveRegistry.preserves
    (fun _ h => h.oneLiveRouter) (fun _ _ _ h => h.orphans)
    (.spawned workers requests) schedule

/-! A second close of a recording room, and a re-creation in between. -/

def overlappingCloses : Fin 5 → Request
  | 0 => .getOrCreateRoom "r"
  | 1 => .startRecording "r" []
  | 2 => .closeRoom "r"
  | 3 => .closeRoom "r"
  | 4 => .getOrCreateRoom "r"

/-- Router 4 stays open, and no map names it any more. -/
theorem not_oneLiveRouter_overlappingCloses :
    ¬ OneLiveRouter (service.run (Process.spawned [0] overlappingCloses)
      [(0, true), (0, true), (1, true), (2, true), (3, true), (4, true), (4, true),
        (2, true)]) := by
  intro h
  have horphan := h.stored 4 (by decide) (by decide)
  revert horphan
  decide

end MeetServer.Sfu
