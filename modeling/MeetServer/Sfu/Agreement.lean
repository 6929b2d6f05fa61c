import MeetServer.Sfu.WorkerLoads

/-!
# Agreement on the creation of rooms

Processes that only get and create rooms.  The promise in `pendingRooms` is
shared by all calls that find it, and its settlement is the outcome of each.
-/

namespace MeetServer.Sfu

open MeetServer.Foundation

variable {Ref : Type}

def Process.creatingRooms (workers : List Worker) (ids : Ref → RoomId) : Process Ref :=
  .spawned workers fun i => .getOrCreateRoom (ids i)

/-- What a call does with the settlement of the promise it has awaited. -/
def settledPoint : Settlement Ref → GetOrCreateRoom Ref
  | .fulfilled room => .returned room
  | .rejected => .threw

variable [DecidableEq Ref] [Fintype Ref]

/-- What the calls of `p` and of a later state `p'` agree on. -/
structure AgreesOnRooms (ids : Ref → RoomId) (p p' : Process Ref) : Prop where
  one : ∀ i j roomId, (p.proc i).creating = some roomId → (p.proc j).creating = some roomId →
    i = j
  joins : ∀ i j ok, (p.proc i).creating = some (ids j) →
    p.proc j = .getOrCreateRoom (ids j) .call →
    (service.next p (j, ok)).proc j = .getOrCreateRoom (ids j) (.pending i)
  same : ∀ i j, p.proc j = .getOrCreateRoom (ids j) (.pending i) →
    p'.proc j = p.proc j ∨
      ∃ outcome, (p'.proc j = .getOrCreateRoom (ids j) (settledPoint outcome)) ∧
        p'.proc i = .getOrCreateRoom (ids j) (settledPoint outcome)
  fresh : ∀ j ok, p.proc j = .getOrCreateRoom (ids j) .call →
    (∀ i, (p.proc i).creating ≠ some (ids j)) →
    (∀ i r, ids i = ids j → p.proc i ≠ .getOrCreateRoom (ids i) (.returned r)) →
    p.world.workerPool.workers ≠ [] →
    ∃ worker, (service.next p (j, ok)).proc j = .getOrCreateRoom (ids j) (.createRouter worker)
  rejects : ∀ i worker, p.proc i = .getOrCreateRoom (ids i) (.createRouter worker) →
    (service.next p (i, false)).proc i = .getOrCreateRoom (ids i) .threw ∧
      (service.next p (i, false)).world.rooms.lookup (ids i) = none ∧
      (service.next p (i, false)).world.pendingRooms (ids i) = none ∧
      WorkerLoads (service.next p (i, false)) ∧
      ∀ j ok, ids j = ids i → p.proc j = .getOrCreateRoom (ids j) .call →
        ∃ worker, (service.next (service.next p (i, false)) (j, ok)).proc j =
          .getOrCreateRoom (ids j) (.createRouter worker)
  succeeds : ∀ i r, p.proc i = .getOrCreateRoom (ids i) (.returned r) →
    ∀ j ok, ids j = ids i → p'.proc j = .getOrCreateRoom (ids j) .call →
      (service.next p' (j, ok)).proc j = .getOrCreateRoom (ids j) (.returned r)

/-- The calls of such a process, and the promises they share. -/
structure RoomCreations (ids : Ref → RoomId) (p : Process Ref) : Prop extends Accounted p where
  calls : ∀ i, ∃ point, p.proc i = .getOrCreateRoom (ids i) point
  returned : ∀ i r, p.proc i = .getOrCreateRoom (ids i) (.returned r) →
    p.world.rooms.lookup (ids i) = some r
  outstanding : ∀ i worker, p.proc i = .getOrCreateRoom (ids i) (.createRouter worker) →
    p.world.creation i = none
  settled : ∀ i outcome, p.world.creation i = some outcome →
    p.proc i = .getOrCreateRoom (ids i) (settledPoint outcome)
  waiting : ∀ i j, p.proc j = .getOrCreateRoom (ids j) (.pending i) → ids i = ids j

namespace RoomCreations

variable {ids : Ref → RoomId} {p p' : Process Ref} {i j r : Ref} {ok : Bool}

theorem spawned (workers : List Worker) (ids : Ref → RoomId) :
    RoomCreations ids (Process.creatingRooms workers ids) where
  toAccounted := .spawned workers _
  calls i := ⟨.call, rfl⟩
  returned i r h := by cases h
  outstanding i worker h := by cases h
  settled i outcome h := by cases h
  waiting i j h := by cases h

theorem creating_eq (h : RoomCreations ids p) {roomId : RoomId}
    (hi : (p.proc i).creating = some roomId) : roomId = ids i := by
  obtain ⟨point, hproc⟩ := h.calls i
  rw [hproc] at hi
  cases point <;> cases hi
  rfl

theorem step_cases (h : RoomCreations ids p) (hstep : service.step p (i, ok) = some p') :
    ∃ s' point point', p.proc i = .getOrCreateRoom (ids i) point ∧
      p' = p.set i s' (.getOrCreateRoom (ids i) point') ∧
      point.step i (ids i) ok p.world = some (s', point') := by
  obtain ⟨s', c', hcall, rfl⟩ := Pool.step_eq_some.1 hstep
  obtain ⟨point, hproc⟩ := h.calls i
  rw [hproc] at hcall
  simp only [Call.step, Option.map_eq_some_iff, Prod.mk.injEq] at hcall
  obtain ⟨⟨s', point'⟩, hpoint, rfl, rfl⟩ := hcall
  exact ⟨s', point, point', hproc, rfl, hpoint⟩

theorem preserves : (service : System (Process Ref) _).Preserves (fun _ _ => True)
    (RoomCreations ids) := by
  rintro p ⟨i, ok⟩ p' h - hstep
  have hnoClose : ReleasesOwnSlot p (i, ok) := by
    intro roomId r hstop
    obtain ⟨point, hproc⟩ := h.calls i
    rw [hproc] at hstop
    cases hstop
  have hacc := Accounted.preserves h.toAccounted hnoClose hstep
  have hids v roomId (hv : (p.proc v).creating = some roomId) := h.creating_eq hv
  obtain ⟨s', point, point', hproc, rfl, hpoint⟩ := h.step_cases hstep
  obtain ⟨⟨⟨hstored, hcreating, hpending, -⟩, -, -⟩, hcalls, hreturned, houtstanding,
    hsettled, hwaiting⟩ := h
  have hunsettled : p.world.creation i = none := by
    cases hcreation : p.world.creation i with
    | none => rfl
    | some outcome =>
        have hdone := hsettled i outcome hcreation
        rw [hproc] at hdone
        cases outcome <;> cases hdone <;> cases hpoint
  have hs := GetOrCreateRoom.step_cases hpoint
  clear hpoint hstep
  refine ⟨hacc, fun j => ?_, ?_, ?_, ?_, ?_⟩
  · rw [Pool.set_proc]
    split
    · next heq => exact ⟨point', by rw [heq]⟩
    · exact hcalls j
  all_goals
    cases hs with
    | «local» hlocal => exact hlocal.elim
    | found | waits | noWorker =>
        simp only [Pool.set_world, Pool.set_proc]
        grind [settledPoint, Call.creating, Call.gotRoom]
    | resumed | failed =>
        simp only [Pool.set_world, Pool.set_proc]
        grind [settledPoint, Call.creating, Call.gotRoom]
    | reserved =>
        simp only [Pool.set_world, Pool.set_proc, State.beginCreation]
        grind [settledPoint, Call.creating, Call.gotRoom]
    | created =>
        simp only [Pool.set_world, Pool.set_proc, State.addRoom, State.settleCreation,
          Function.update_apply, Dict.lookup_insert_ite]
        grind [settledPoint, Call.creating, Call.gotRoom]
    | rejected =>
        simp only [Pool.set_world, Pool.set_proc, State.releaseWorker, State.settleCreation,
          Function.update_apply]
        grind [settledPoint, Call.creating, Call.gotRoom]

/-! ## What stays for good -/

theorem lookup_preserves (roomId : RoomId) (r : Ref) :
    (service : System (Process Ref) _).Preserves (fun _ _ => True)
      fun p => RoomCreations ids p ∧ p.world.rooms.lookup roomId = some r := by
  rintro p ⟨i, ok⟩ p' ⟨h, hlookup⟩ - hstep
  refine ⟨preserves h trivial hstep, ?_⟩
  obtain ⟨s', point, point', hproc, rfl, hpoint⟩ := h.step_cases hstep
  have hcreating := h.creating i (ids i)
  rw [hproc] at hcreating
  rw [Pool.set_world]
  cases GetOrCreateRoom.step_cases hpoint with
  | «local» hlocal => exact hlocal.elim
  | created =>
      have hnone := (hcreating rfl).2
      simp only [State.addRoom, State.settleCreation, Dict.lookup_insert_ite]
      split
      · next heq =>
        rw [heq, hnone] at hlookup
        cases hlookup
      · exact hlookup
  | _ => exact hlookup

theorem same_preserves (i j : Ref) :
    (service : System (Process Ref) _).Preserves (fun _ _ => True)
      fun p => RoomCreations ids p ∧
        (p.proc j = .getOrCreateRoom (ids j) (.pending i) ∨
          ∃ outcome, p.world.creation i = some outcome ∧
            p.proc j = .getOrCreateRoom (ids j) (settledPoint outcome)) := by
  rintro p ⟨v, ok⟩ p' ⟨h, hsame⟩ - hstep
  refine ⟨preserves h trivial hstep, ?_⟩
  obtain ⟨s', point, point', hproc, rfl, hpoint⟩ := h.step_cases hstep
  have houtstanding := h.outstanding v
  have hkeeps outcome (hi : p.world.creation i = some outcome) :
      s'.creation i = some outcome := by
    cases GetOrCreateRoom.step_cases hpoint with
    | «local» hlocal => exact hlocal.elim
    | created | rejected =>
        simp only [State.settleCreation, Function.update_apply]
        split
        · next heq =>
          rw [heq, houtstanding _ hproc] at hi
          cases hi
        · exact hi
    | _ => exact hi
  rw [Pool.set_world, Pool.set_proc]
  split
  · next heq =>
    subst heq
    rcases hsame with hpending | ⟨outcome, -, hdone⟩
    · rw [hpending] at hproc
      cases hproc
      cases GetOrCreateRoom.step_cases hpoint with
      | «local» hlocal => exact hlocal.elim
      | @resumed _ _ _ r hcreation => exact .inr ⟨.fulfilled r, hcreation, rfl⟩
      | failed hcreation => exact .inr ⟨.rejected, hcreation, rfl⟩
    · rw [hdone] at hproc
      cases outcome <;> cases hproc <;> cases hpoint
  · rcases hsame with hpending | ⟨outcome, hcreation, hdone⟩
    · exact .inl hpending
    · exact .inr ⟨outcome, hkeeps outcome hcreation, hdone⟩

/-! ## The calls of one id -/

omit [Fintype Ref] in
theorem next_found (hlookup : p.world.rooms.lookup (ids j) = some r)
    (hproc : p.proc j = .getOrCreateRoom (ids j) .call) (ok : Bool) :
    (service.next p (j, ok)).proc j = .getOrCreateRoom (ids j) (.returned r) := by
  have hstep : (p.proc j).step j ok p.world =
      some (p.world, .getOrCreateRoom (ids j) (.returned r)) := by
    simp [hproc, Call.step, GetOrCreateRoom.step, hlookup]
  rw [show service.next p (j, ok) = _ from Pool.next_of_step hstep, Pool.set_proc_self]

omit [Fintype Ref] in
theorem next_joins (hlookup : p.world.rooms.lookup (ids j) = none)
    (hpending : p.world.pendingRooms (ids j) = some i)
    (hproc : p.proc j = .getOrCreateRoom (ids j) .call) (ok : Bool) :
    (service.next p (j, ok)).proc j = .getOrCreateRoom (ids j) (.pending i) := by
  have hstep : (p.proc j).step j ok p.world =
      some (p.world, .getOrCreateRoom (ids j) (.pending i)) := by
    simp [hproc, Call.step, GetOrCreateRoom.step, hlookup, hpending]
  rw [show service.next p (j, ok) = _ from Pool.next_of_step hstep, Pool.set_proc_self]

omit [Fintype Ref] in
theorem next_creates (hlookup : p.world.rooms.lookup (ids j) = none)
    (hpending : p.world.pendingRooms (ids j) = none)
    (hworkers : p.world.workerPool.workers ≠ [])
    (hproc : p.proc j = .getOrCreateRoom (ids j) .call) (ok : Bool) :
    ∃ worker, (service.next p (j, ok)).proc j =
      .getOrCreateRoom (ids j) (.createRouter worker) := by
  obtain ⟨⟨worker, pool⟩, hreserve⟩ :=
    Option.isSome_iff_exists.1 (WorkerPool.reserveWorker_isSome hworkers)
  have hstep : (p.proc j).step j ok p.world =
      some (p.world.beginCreation (ids j) j pool,
        .getOrCreateRoom (ids j) (.createRouter worker)) := by
    simp [hproc, Call.step, GetOrCreateRoom.step, hlookup, hpending, createRoom, hreserve]
  refine ⟨worker, ?_⟩
  rw [show service.next p (j, ok) = _ from Pool.next_of_step hstep, Pool.set_proc_self]

theorem fresh (h : RoomCreations ids p) (hcreating : ∀ i, (p.proc i).creating ≠ some (ids j))
    (hreturned : ∀ i r, ids i = ids j → p.proc i ≠ .getOrCreateRoom (ids i) (.returned r)) :
    p.world.rooms.lookup (ids j) = none ∧ p.world.pendingRooms (ids j) = none := by
  constructor
  · cases hlookup : p.world.rooms.lookup (ids j) with
    | none => rfl
    | some r =>
        obtain ⟨hid, hgot⟩ := h.stored (ids j) r hlookup
        obtain ⟨point, hproc⟩ := h.calls r
        have hpoint : point = .returned r := by
          rw [hproc] at hgot
          cases point <;> cases hgot
          rfl
        rw [hpoint] at hproc
        have hown := (h.stored (ids r) r (h.returned r r hproc)).1
        exact (hreturned r r (hown.symm.trans hid) hproc).elim
  · cases hpending : p.world.pendingRooms (ids j) with
    | none => rfl
    | some i => exact (hcreating i (h.pending (ids j) i hpending)).elim

/-- A rejected creation leaves nothing behind, and the next call creates the room afresh. -/
theorem rejects {worker : Worker} (h : RoomCreations ids p)
    (hproc : p.proc i = .getOrCreateRoom (ids i) (.createRouter worker)) :
    (service.next p (i, false)).proc i = .getOrCreateRoom (ids i) .threw ∧
      (service.next p (i, false)).world.rooms.lookup (ids i) = none ∧
      (service.next p (i, false)).world.pendingRooms (ids i) = none ∧
      WorkerLoads (service.next p (i, false)) ∧
      ∀ j ok, ids j = ids i → p.proc j = .getOrCreateRoom (ids j) .call →
        ∃ worker, (service.next (service.next p (i, false)) (j, ok)).proc j =
          .getOrCreateRoom (ids j) (.createRouter worker) := by
  obtain ⟨hpending, hlookup⟩ := h.creating i (ids i) (by rw [hproc]; rfl)
  have hworkers : p.world.workerPool.workers ≠ [] := by
    have hmem := h.reservedOn i worker (by rw [hproc]; rfl)
    exact List.ne_nil_of_mem hmem
  have hcall : (p.proc i).step i false p.world =
      some ((p.world.releaseWorker worker).settleCreation (ids i) i .rejected,
        .getOrCreateRoom (ids i) .threw) := by
    simp [hproc, Call.step, GetOrCreateRoom.step]
  have hnext : service.next p (i, false) = _ := Pool.next_of_step hcall
  have hstep : service.step p (i, false) = some (service.next p (i, false)) := by
    rw [hnext]
    exact Pool.step_eq_some.2 ⟨_, _, hcall, rfl⟩
  have hafter : RoomCreations ids (service.next p (i, false)) := preserves h trivial hstep
  have hloads := hafter.loads
  rw [hnext] at hloads ⊢
  refine ⟨Pool.set_proc_self .., hlookup, by simp [State.settleCreation], hloads,
    fun j ok hj hproc' => ?_⟩
  have hne : j ≠ i := by
    rintro rfl
    rw [hproc] at hproc'
    cases hproc'
  refine next_creates ?_ ?_ ?_ ?_ ok
  · rw [hj]
    exact hlookup
  · simp [State.settleCreation, hj]
  · simpa [State.settleCreation, State.releaseWorker] using hworkers
  · rwa [Pool.set_proc_ne _ _ _ hne]

end RoomCreations

/-- Every two states of a run agree on the rooms that are created. -/
theorem agreesOnRooms (workers : List Worker) (ids : Ref → RoomId)
    (before after : List (Ref × Bool)) :
    AgreesOnRooms ids (service.run (Process.creatingRooms workers ids) before)
      (service.run (Process.creatingRooms workers ids) (before ++ after)) := by
  have h : RoomCreations ids (service.run (Process.creatingRooms workers ids) before) :=
    RoomCreations.preserves.run (.spawned workers ids) before
  rw [System.run_append]
  generalize service.run (Process.creatingRooms workers ids) before = p at h
  refine ⟨?_, ?_, ?_, ?_, ?_, ?_⟩
  · intro i j roomId hi hj
    have hsame := (h.creating i roomId hi).1.symm.trans (h.creating j roomId hj).1
    exact Option.some.inj hsame
  · intro i j ok hi hproc
    obtain ⟨hpending, hlookup⟩ := h.creating i (ids j) hi
    exact RoomCreations.next_joins hlookup hpending hproc ok
  · intro i j hpending
    obtain ⟨h', hsame⟩ := (RoomCreations.same_preserves i j).run ⟨h, .inl hpending⟩ after
    rcases hsame with hpending' | ⟨outcome, hcreation, hdone⟩
    · exact .inl (hpending'.trans hpending.symm)
    · refine .inr ⟨outcome, hdone, ?_⟩
      rw [← h.waiting i j hpending]
      exact h'.settled i outcome hcreation
  · intro j ok hproc hcreating hreturned hworkers
    obtain ⟨hlookup, hpending⟩ := h.fresh hcreating hreturned
    exact RoomCreations.next_creates hlookup hpending hworkers hproc ok
  · exact fun i worker hproc => h.rejects hproc
  · intro i r hproc j ok hj hproc'
    obtain ⟨-, hlookup⟩ :=
      (RoomCreations.lookup_preserves (ids i) r).run ⟨h, h.returned i r hproc⟩ after
    rw [← hj] at hlookup
    exact RoomCreations.next_found hlookup hproc' ok

end MeetServer.Sfu
