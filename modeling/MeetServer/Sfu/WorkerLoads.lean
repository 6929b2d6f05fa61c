import MeetServer.Sfu.Registry

/-!
# Worker load accounting

A worker's count is the number of rooms it carries in the map plus the number
of creations that have reserved a slot on it.  Creations and immediate closes
keep the balance; a resumed `closeRoom` keeps it exactly when what it drops from
the map weighs as much as what it releases.
-/

namespace MeetServer.Sfu

open MeetServer.Foundation

variable {Ref : Type}

namespace Call

/-- The worker on which the call has a `createRouter` outstanding. -/
def reserved : Call Ref → Option Worker
  | .getOrCreateRoom _ (.createRouter worker) => some worker
  | _ => none

theorem reserved_of_local {c : Call Ref} (h : c.Local) : c.reserved = none := by
  cases c <;> first | rfl | exact h.elim

end Call

/-- The rooms in the map that run on `w`. -/
def State.roomsOn (s : State Ref) (w : Worker) : Nat :=
  Dict.countValues (fun r => (s.room r).worker = w) s.rooms

/-- The creations in flight that have reserved `w`. -/
def creationsOn [DecidableEq Ref] [Fintype Ref] (proc : Ref → Call Ref)
    (w : Worker) : Nat :=
  countCalls (fun c => c.reserved = some w) proc

variable [DecidableEq Ref] [Fintype Ref]

/-- No slot is lost and none is released twice. -/
def WorkerLoads (p : Process Ref) : Prop :=
  ∀ w ∈ p.world.workerPool.workers,
    p.world.workerPool.load w = p.world.roomsOn w + creationsOn p.proc w

/--
A `closeRoom` call that resumes after the recording files drops from the map a
room on the worker it releases, or finds nothing to drop and nothing to release.
-/
def ReleasesOwnSlot (p : Process Ref) (a : Ref × Bool) : Prop :=
  ∀ roomId r, (p.proc a.1).stopping = some (roomId, r) → a.2 = true →
    match p.world.rooms.lookup roomId with
    | some r' => (p.world.room r').worker = (p.world.room r).worker
    | none => p.world.workerPool.load (p.world.room r).worker = 0

/-! ## Effects on the two counts -/

theorem creationsOn_update (proc : Ref → Call Ref) (i : Ref) (c' : Call Ref)
    (w : Worker) :
    creationsOn (Function.update proc i c') w +
        (if (proc i).reserved = some w then 1 else 0) =
      creationsOn proc w + if c'.reserved = some w then 1 else 0 :=
  countCalls_update _ proc i c'

omit [DecidableEq Ref] [Fintype Ref] in
theorem roomsOn_frame {s s' : State Ref} (h : Frame s s') (w : Worker) :
    s'.roomsOn w = s.roomsOn w := by
  unfold State.roomsOn
  rw [h.rooms]
  exact Dict.countValues_congr fun _ r _ => by rw [h.worker]

omit [Fintype Ref] in
theorem roomsOn_addRoom {s : State Ref} {roomId : RoomId} {i : Ref}
    (hnew : s.rooms.lookup roomId = none)
    (hi : ∀ roomId r, s.rooms.lookup roomId = some r → r ≠ i)
    (worker w : Worker) :
    (s.addRoom roomId i worker).roomsOn w =
      s.roomsOn w + if worker = w then 1 else 0 := by
  have hmem : roomId ∉ s.rooms := AList.lookup_eq_none.1 hnew
  refine (Dict.countValues_insert_of_notMem
    (fun r => ((s.addRoom roomId i worker).room r).worker = w) i hmem).trans ?_
  simp only [State.roomsOn, State.addRoom]
  congr 1
  · refine Dict.countValues_congr fun k r hr => ?_
    simp [Function.update_of_ne (hi k r hr)]
  · simp

omit [Fintype Ref] in
theorem roomsOn_finishClose {s : State Ref} {roomId : RoomId} {r' : Ref}
    (h : s.rooms.lookup roomId = some r') (r : Ref) (w : Worker) :
    (s.finishClose roomId r).roomsOn w +
        (if (s.room r').worker = w then 1 else 0) = s.roomsOn w :=
  Dict.countValues_erase (fun r => (s.room r).worker = w) h

omit [Fintype Ref] in
theorem roomsOn_finishClose_of_none {s : State Ref} {roomId : RoomId}
    (h : s.rooms.lookup roomId = none) (r : Ref) (w : Worker) :
    (s.finishClose roomId r).roomsOn w = s.roomsOn w := by
  have hmem : roomId ∉ s.rooms := AList.lookup_eq_none.1 h
  have hrooms : (s.finishClose roomId r).rooms = s.rooms :=
    Dict.erase_of_notMem hmem
  unfold State.roomsOn
  rw [hrooms]
  rfl

omit [Fintype Ref] in
theorem load_finishClose (s : State Ref) (roomId : RoomId) (r : Ref)
    (w : Worker) :
    (s.finishClose roomId r).workerPool.load w =
      if w = (s.room r).worker then s.workerPool.load w - 1
      else s.workerPool.load w := by
  simp only [State.finishClose, State.releaseWorker, State.closeRouter,
    WorkerPool.load_trackRouterClosed]
  split <;> simp_all

/-! ## The invariant -/

/-- The workers of stored, suspended and reserved rooms belong to the pool. -/
structure PooledWorkers (p : Process Ref) : Prop where
  storedOn : ∀ roomId r, p.world.rooms.lookup roomId = some r →
    (p.world.room r).worker ∈ p.world.workerPool.workers
  reservedOn : ∀ i w, (p.proc i).reserved = some w →
    w ∈ p.world.workerPool.workers
  stoppingOn : ∀ i roomId r, (p.proc i).stopping = some (roomId, r) →
    (p.world.room r).worker ∈ p.world.workerPool.workers

structure Accounted (p : Process Ref) : Prop extends Registry p,
    PooledWorkers p where
  loads : WorkerLoads p

omit [DecidableEq Ref] [Fintype Ref] in
theorem Registry.creating_of_reserved {p : Process Ref} (h : Registry p)
    {i : Ref} {roomId : RoomId} {worker : Worker}
    (hc : p.proc i = .getOrCreateRoom roomId (.createRouter worker)) :
    p.world.rooms.lookup roomId = none ∧
      ∀ roomId r, p.world.rooms.lookup roomId = some r → r ≠ i := by
  refine ⟨(h.creating i roomId (by rw [hc]; rfl)).2, ?_⟩
  rintro roomId r hr rfl
  have := (h.stored roomId r hr).2
  simp [hc, Call.gotRoom] at this

omit [Fintype Ref] in
theorem PooledWorkers.step {p : Process Ref} {i : Ref} {ok : Bool}
    {s' : State Ref} {c' : Call Ref} (h : PooledWorkers p) (hr : Registry p)
    (hs : Step i p.world ok (p.proc i) s' c') :
    PooledWorkers (p.set i s' c') := by
  obtain ⟨hstored, hreserved, hstopping⟩ := h
  have hgot := hr.stopping
  generalize hc : p.proc i = c at hs
  cases hs with
  | «local» hl hl' hframe =>
      obtain ⟨hrooms, -, -, hpool, -, -, hworker⟩ := hframe
      have hnone := Call.reserved_of_local hl'
      have hnone' : c'.stopping = none := by
        cases c' <;> first | rfl | exact hl'.elim
      constructor <;> simp only [Pool.set_world, Pool.set_proc] <;> grind
  | found | waits | noWorker | resumed | failed =>
      constructor <;> simp only [Pool.set_world, Pool.set_proc] <;>
        grind [Call.reserved, Call.stopping]
  | reserved hrooms hpending hreserve =>
      obtain ⟨hmem, hworkers, -⟩ := WorkerPool.reserveWorker_spec hreserve
      constructor <;> simp only [Pool.set_world, Pool.set_proc,
        State.beginCreation, hworkers] <;> grind [Call.reserved, Call.stopping]
  | created =>
      obtain ⟨-, hne⟩ := hr.creating_of_reserved hc
      constructor <;> simp only [Pool.set_world, Pool.set_proc, State.addRoom,
        State.settleCreation, Function.update_apply, Dict.lookup_insert_ite] <;>
        grind [Call.reserved, Call.stopping, Call.gotRoom]
  | rejected =>
      constructor <;> simp only [Pool.set_world, Pool.set_proc,
        State.releaseWorker, State.settleCreation,
        WorkerPool.workers_trackRouterClosed] <;>
        grind [Call.reserved, Call.stopping]
  | @closeSuspended ok roomId r hr hempty hrecording =>
      obtain ⟨hrooms, -, -, hpool, -, -, hworker⟩ :=
        Frame.setRecording p.world r false
      constructor <;> simp only [Pool.set_world, Pool.set_proc] <;>
        grind [Call.reserved, Call.stopping]
  | closeAbsent | closeRefused | closeFailed =>
      constructor <;> simp only [Pool.set_world, Pool.set_proc] <;>
        grind [Call.reserved, Call.stopping]
  | closed | closeResumed =>
      constructor <;> simp only [Pool.set_world, Pool.set_proc,
        State.finishClose, State.closeRouter, State.releaseWorker,
        WorkerPool.workers_trackRouterClosed, Dict.lookup_erase_ite] <;>
        grind [Call.reserved, Call.stopping]

omit [Fintype Ref] in
/-- A close that drops a room on the worker it releases keeps the balance. -/
theorem balanced_finishClose {s : State Ref} {roomId : RoomId} {r r' : Ref}
    {w : Worker} {n : Nat} (hlookup : s.rooms.lookup roomId = some r')
    (hworker : (s.room r').worker = (s.room r).worker)
    (h : s.workerPool.load w = s.roomsOn w + n) :
    (s.finishClose roomId r).workerPool.load w =
      (s.finishClose roomId r).roomsOn w + n := by
  have hrooms := roomsOn_finishClose hlookup r w
  rw [load_finishClose]
  rw [hworker] at hrooms
  split <;> split at hrooms <;> first | omega | simp_all

theorem WorkerLoads.step {p : Process Ref} {i : Ref} {ok : Bool}
    {s' : State Ref} {c' : Call Ref} (h : Accounted p)
    (hown : ReleasesOwnSlot p (i, ok))
    (hs : Step i p.world ok (p.proc i) s' c') :
    WorkerLoads (p.set i s' c') := by
  have hreg := h.toRegistry
  have hloads := h.loads
  simp only [ReleasesOwnSlot] at hown
  generalize hc : p.proc i = c at hs hown
  have hcount := creationsOn_update p.proc i c'
  intro w hw
  simp only [Pool.set, hc] at hw hcount ⊢
  cases hs with
  | «local» hl hl' hframe =>
      rw [Call.reserved_of_local hl, Call.reserved_of_local hl'] at hcount
      rw [hframe.workerPool] at hw ⊢
      rw [roomsOn_frame hframe, hloads w hw]
      simpa using (hcount w).symm
  | @reserved ok roomId worker pool hrooms hpending hreserve =>
      obtain ⟨-, hworkers, hload⟩ := WorkerPool.reserveWorker_spec hreserve
      have hw := hloads w (hworkers ▸ hw)
      have hcount := hcount w
      have hsame : (p.world.beginCreation roomId i pool).roomsOn w =
          p.world.roomsOn w := rfl
      simp only [Call.reserved, reduceCtorEq, if_false, Option.some.injEq,
        add_zero] at hcount
      rw [hsame, hcount, ← add_assoc, ← hw]
      simpa [State.beginCreation, eq_comm] using hload w
  | @created roomId worker =>
      obtain ⟨hnew, hne⟩ := hreg.creating_of_reserved hc
      have hw := hloads w hw
      have hcount := hcount w
      have hrooms := roomsOn_addRoom hnew hne worker w
      simp only [Call.reserved, reduceCtorEq, if_false, Option.some.injEq,
        add_zero] at hcount
      change p.world.workerPool.load w =
        (p.world.addRoom roomId i worker).roomsOn w + _
      omega
  | @rejected roomId worker =>
      have hw := hloads w (by simpa [State.settleCreation,
        State.releaseWorker] using hw)
      have hcount := hcount w
      simp only [Call.reserved, reduceCtorEq, if_false, Option.some.injEq,
        add_zero] at hcount
      change (p.world.workerPool.trackRouterClosed worker).load w =
        p.world.roomsOn w + _
      rw [WorkerPool.load_trackRouterClosed]
      split
      · next heq => subst heq; simp at hcount; omega
      · next hne => simp [Ne.symm hne] at hcount; omega
  | found | waits | noWorker | resumed | failed | closeAbsent | closeRefused
  | closeFailed =>
      rw [hloads w hw]
      simpa [Call.reserved] using (hcount w).symm
  | @closeSuspended ok roomId r hr hempty hrecording =>
      have hframe := Frame.setRecording p.world r false
      rw [hframe.workerPool] at hw ⊢
      rw [roomsOn_frame hframe, hloads w hw]
      simpa [Call.reserved] using (hcount w).symm
  | @closed ok roomId r hr =>
      have hw := hloads w (by simpa [State.finishClose, State.closeRouter,
        State.releaseWorker] using hw)
      have hcount := hcount w
      simp only [Call.reserved, reduceCtorEq, if_false, add_zero] at hcount
      rw [hcount]
      exact balanced_finishClose hr rfl hw
  | @closeResumed roomId r =>
      have hw := hloads w (by simpa [State.finishClose, State.closeRouter,
        State.releaseWorker] using hw)
      have hcount := hcount w
      simp only [Call.reserved, reduceCtorEq, if_false, add_zero] at hcount
      have hown := hown roomId r rfl rfl
      rw [hcount]
      cases hlookup : p.world.rooms.lookup roomId with
      | some r' =>
          rw [hlookup] at hown
          exact balanced_finishClose hlookup hown hw
      | none =>
          rw [hlookup] at hown
          rw [load_finishClose, roomsOn_finishClose_of_none hlookup, ← hw]
          split
          · next heq =>
            subst heq
            simp only at hown
            omega
          · rfl

theorem Accounted.spawned (workers : List Worker) (requests : Ref → Request) :
    Accounted (Process.spawned workers requests) where
  toRegistry := .spawned workers requests
  storedOn := by simp [Process.spawned, State.spawned]
  reservedOn i w h := by
    cases hr : requests i <;>
      simp [Process.spawned, Request.call, hr, Call.reserved] at h
  stoppingOn i roomId r h := by
    cases hr : requests i <;>
      simp [Process.spawned, Request.call, hr, Call.stopping] at h
  loads w _ := by
    have hnone : ∀ i, ((requests i).call : Call Ref).reserved = none := by
      intro i
      cases requests i <;> rfl
    simp [Process.spawned, State.spawned, State.roomsOn, Dict.countValues,
      creationsOn, countCalls, hnone]

theorem Accounted.preserves :
    (service : System (Process Ref) _).Preserves ReleasesOwnSlot
      Accounted := by
  rintro p ⟨i, ok⟩ p' h hown hstep
  obtain ⟨s', c', hcall, rfl⟩ := Pool.step_eq_some.1 hstep
  have hs := Call.step_cases hcall
  exact ⟨h.toRegistry.step hs, h.toPooledWorkers.step h.toRegistry hs,
    WorkerLoads.step h hown hs⟩

/-- A call that drops one room and releases another's slot skews a count. -/
theorem Accounted.skews {p p' : Process Ref} {a : Ref × Bool}
    (h : Accounted p) (hown : ¬ ReleasesOwnSlot p a)
    (hstep : service.step p a = some p') : ¬ WorkerLoads p' := by
  obtain ⟨i, ok⟩ := a
  obtain ⟨s', c', hcall, rfl⟩ := Pool.step_eq_some.1 hstep
  have hs := Call.step_cases hcall
  simp only [ReleasesOwnSlot, not_forall] at hown
  obtain ⟨roomId, r, hstop, rfl, hbad⟩ := hown
  have hpool := h.stoppingOn i roomId r hstop
  have hcount := creationsOn_update p.proc i c'
  generalize hc : p.proc i = c at hs hstop hcount
  cases hs with
  | @closeResumed k own =>
      obtain ⟨rfl, rfl⟩ : roomId = k ∧ r = own := by
        simpa [Call.stopping, eq_comm] using hstop
      simp only [Call.reserved, reduceCtorEq, if_false, add_zero] at hcount
      intro hskew
      simp only [WorkerLoads, Pool.set, hcount, load_finishClose] at hskew
      cases hlookup : p.world.rooms.lookup _ with
      | some r' =>
          rw [hlookup] at hbad
          have hmem := h.storedOn _ r' hlookup
          have hload := h.loads _ hmem
          have hrooms := roomsOn_finishClose hlookup r (p.world.room r').worker
          have hskew := hskew _ (by simpa [State.finishClose,
            State.closeRouter, State.releaseWorker] using hmem)
          simp only [hbad, if_false, if_true] at hskew hrooms
          omega
      | none =>
          rw [hlookup] at hbad
          have hload := h.loads _ hpool
          have hrooms := roomsOn_finishClose_of_none hlookup r
            (p.world.room r).worker
          have hskew := hskew _ (by simpa [State.finishClose,
            State.closeRouter, State.releaseWorker] using hpool)
          simp only [if_true] at hskew
          simp only at hbad
          omega
  | «local» hl => cases c <;> simp_all [Call.stopping, Call.Local]
  | _ => simp [Call.stopping] at hstop

/-- A run keeps the accounting exact precisely when every `closeRoom` call
that resumes drops a room on the worker it releases. -/
theorem holds_workerLoads_iff (workers : List Worker)
    (requests : Ref → Request) (schedule : List (Ref × Bool)) :
    service.Holds WorkerLoads (Process.spawned workers requests) schedule ↔
      service.Meets ReleasesOwnSlot (Process.spawned workers requests)
        schedule :=
  System.holds_iff_meets Accounted.preserves (fun _ h => h.loads)
    (fun _ _ _ h => h.skews) (.spawned workers requests) schedule

/-! Two closes of a recording room, with another room on the same worker. -/

def closedTwice : Fin 5 → Request
  | 0 => .getOrCreateRoom "r"
  | 1 => .startRecording "r" []
  | 2 => .closeRoom "r"
  | 3 => .closeRoom "r"
  | 4 => .getOrCreateRoom "q"

/-- The worker carries room `q`, and its count is zero. -/
theorem not_workerLoads_closedTwice :
    ¬ WorkerLoads (service.run (Process.spawned [0] closedTwice)
      [(0, true), (0, true), (4, true), (4, true), (1, true), (2, true), (3, true),
        (2, true)]) := by
  intro h
  have hload := h 0 (by decide)
  revert hload
  decide

end MeetServer.Sfu
