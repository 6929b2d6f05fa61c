import MeetServer.Foundation.FirstLeast

/-!
# `WorkerPoolService`

The pool of mediasoup workers of one sfu process and the number of routers
each of them carries (`apps/sfu/src/workers/worker-pool.service.ts`).
-/

namespace MeetServer.Sfu

open MeetServer.Foundation

abbrev Worker := Nat

/-- `counted` is what the source's `routersPerWorker.get(worker)!` relies on. -/
structure WorkerPool where
  workers : List Worker
  routersPerWorker : Worker → Option Nat
  counted : ∀ w ∈ workers, (routersPerWorker w).isSome

namespace WorkerPool

/-- The pool `onModuleInit` leaves: every spawned worker carries no router. -/
def spawned (workers : List Worker) : WorkerPool where
  workers := workers
  routersPerWorker w := if w ∈ workers then some 0 else none
  counted w h := by simp [h]

def load (pool : WorkerPool) (w : Worker) : Nat :=
  (pool.routersPerWorker w).getD 0

/-- `routersPerWorker.set(w, count)`. -/
def setLoad (pool : WorkerPool) (w : Worker) (count : Nat) : WorkerPool where
  workers := pool.workers
  routersPerWorker := Function.update pool.routersPerWorker w (some count)
  counted v hv := by
    by_cases h : v = w
    · simp [h]
    · simpa [Function.update_of_ne h] using pool.counted v hv

/-- The loop of `reserveWorker`: the worker chosen so far and its count. -/
def pickStep (pool : WorkerPool) (best : Worker × Nat) (w : Worker) :
    Worker × Nat :=
  if pool.load w < best.2 then (w, pool.load w) else best

/-- `none` is the error for a pool without workers. -/
def reserveWorker (pool : WorkerPool) : Option (Worker × WorkerPool) :=
  match pool.workers with
  | [] => none
  | first :: _ =>
      let (chosen, min) :=
        pool.workers.foldl pool.pickStep (first, pool.load first)
      some (chosen, pool.setLoad chosen (min + 1))

/-- `Math.max(0, count - 1)` is truncated subtraction. -/
def trackRouterClosed (pool : WorkerPool) (w : Worker) : WorkerPool :=
  match pool.routersPerWorker w with
  | none => pool
  | some count => pool.setLoad w (count - 1)

theorem load_setLoad (pool : WorkerPool) (w v : Worker) (n : Nat) :
    (pool.setLoad w n).load v = if v = w then n else pool.load v := by
  by_cases h : v = w <;> simp [load, setLoad, Function.update, h]

@[simp] theorem workers_trackRouterClosed (pool : WorkerPool) (w : Worker) :
    (pool.trackRouterClosed w).workers = pool.workers := by
  unfold trackRouterClosed
  split <;> rfl

theorem load_trackRouterClosed (pool : WorkerPool) (w v : Worker) :
    (pool.trackRouterClosed w).load v =
      if v = w then pool.load w - 1 else pool.load v := by
  unfold trackRouterClosed
  cases hw : pool.routersPerWorker w with
  | none =>
      by_cases h : v = w
      · simp [h, load, hw]
      · simp [h]
  | some count =>
      have hload : pool.load w = count := by simp [load, hw]
      simp [load_setLoad, hload]

@[simp] theorem load_spawned (workers : List Worker) (w : Worker) :
    (spawned workers).load w = 0 := by
  by_cases h : w ∈ workers <;> simp [load, spawned, h]

/-- The loop is the first-minimum loop on the routers each worker carries. -/
theorem foldl_pickStep (pool : WorkerPool) (ws : List Worker) (w : Worker) :
    ws.foldl pool.pickStep (w, pool.load w) =
      (firstLeast pool.load w ws, pool.load (firstLeast pool.load w ws)) := by
  induction ws generalizing w with
  | nil => rfl
  | cons v ws ih =>
      by_cases h : pool.load v < pool.load w
      · simpa [firstLeast, pickStep, h] using ih v
      · simpa [firstLeast, pickStep, h] using ih w

/-- A reservation takes one slot on a worker of the pool. -/
theorem reserveWorker_spec {pool pool' : WorkerPool} {w : Worker}
    (h : pool.reserveWorker = some (w, pool')) :
    w ∈ pool.workers ∧ pool'.workers = pool.workers ∧
      ∀ v, pool'.load v = pool.load v + if v = w then 1 else 0 := by
  unfold reserveWorker at h
  split at h
  · cases h
  · next first rest hworkers =>
    rw [hworkers, foldl_pickStep] at h
    simp only [Option.some.injEq, Prod.mk.injEq] at h
    obtain ⟨rfl, rfl⟩ := h
    refine ⟨?_, rfl, fun v => ?_⟩
    · rw [hworkers]
      exact firstLeast_mem _ _ _
    · rw [load_setLoad]
      split <;> simp_all

theorem reserveWorker_least {pool pool' : WorkerPool} {w v : Worker}
    (h : pool.reserveWorker = some (w, pool')) (hv : v ∈ pool.workers) :
    pool.load w ≤ pool.load v := by
  unfold reserveWorker at h
  split at h
  · cases h
  · next first rest hworkers =>
    rw [hworkers] at h hv
    rw [foldl_pickStep] at h
    simp only [Option.some.injEq, Prod.mk.injEq] at h
    obtain ⟨rfl, -⟩ := h
    exact firstLeast_le _ _ _ hv

theorem reserveWorker_isSome {pool : WorkerPool} (h : pool.workers ≠ []) :
    pool.reserveWorker.isSome := by
  unfold reserveWorker
  split
  · contradiction
  · rfl

end WorkerPool

end MeetServer.Sfu
