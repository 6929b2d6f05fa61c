import MeetServer.Foundation.Balance
import MeetServer.Sfu.WorkerPool

/-!
# A burst of reservations

`reserveWorker` is the greedy placement of `Foundation.Balance` on the pool's
workers.
-/

namespace MeetServer.Sfu.WorkerPool

open MeetServer.Foundation

def reserveWorkers : Nat → WorkerPool → Option WorkerPool
  | 0, pool => some pool
  | k + 1, pool => do
      let (_, pool) ← pool.reserveWorker
      reserveWorkers k pool

/-- A worker that occurs twice in the list is one worker. -/
def members (pool : WorkerPool) : Finset Worker := pool.workers.toFinset

def total (pool : WorkerPool) : Nat := ∑ w ∈ pool.members, pool.load w

def largest (pool : WorkerPool) : Nat := pool.members.sup pool.load

@[simp] theorem mem_members {pool : WorkerPool} {w : Worker} :
    w ∈ pool.members ↔ w ∈ pool.workers :=
  List.mem_toFinset

theorem members_nonempty {pool : WorkerPool} (h : pool.workers ≠ []) :
    pool.members.Nonempty :=
  (List.toFinset_nonempty_iff _).2 h

theorem load_reserveWorker {pool pool' : WorkerPool} {w : Worker}
    (h : pool.reserveWorker = some (w, pool')) :
    pool'.load = Function.update pool.load w (pool.load w + 1) := by
  obtain ⟨-, -, hload⟩ := reserveWorker_spec h
  funext v
  rw [hload v]
  by_cases hv : v = w <;> simp [hv]

/-- A balanced placement stays one when `reserveWorker` adds to it. -/
theorem reserveWorker_balanced {pool pool' : WorkerPool} {w : Worker} {f : Worker → Nat} {k : Nat}
    (hbal : Balanced pool.members k f pool.load) (h : pool.reserveWorker = some (w, pool')) :
    Balanced pool'.members (k + 1) f pool'.load := by
  obtain ⟨hmem, hworkers, -⟩ := reserveWorker_spec h
  rw [load_reserveWorker h, members, hworkers]
  exact hbal.update (mem_members.2 hmem) fun v hv => reserveWorker_least h (mem_members.1 hv)

theorem reserveWorkers_run (k : Nat) {pool : WorkerPool} {f : Worker → Nat} {j : Nat}
    (hbal : Balanced pool.members j f pool.load) (hworkers : pool.workers ≠ []) :
    ∃ pool', pool.reserveWorkers k = some pool' ∧ pool'.workers = pool.workers ∧
      Balanced pool'.members (j + k) f pool'.load := by
  induction k generalizing pool j with
  | zero => exact ⟨pool, rfl, rfl, hbal⟩
  | succ k ih =>
      obtain ⟨⟨w, next⟩, hnext⟩ := Option.isSome_iff_exists.1 (reserveWorker_isSome hworkers)
      obtain ⟨-, hsame, -⟩ := reserveWorker_spec hnext
      have hstep := reserveWorker_balanced hbal hnext
      obtain ⟨pool', hrun, hlast, hend⟩ := ih hstep (by rwa [hsame])
      refine ⟨pool', ?_, hlast.trans hsame, ?_⟩
      · simpa [reserveWorkers, hnext] using hrun
      · rwa [show j + (k + 1) = j + 1 + k by omega]

theorem reserveWorkers_optimal (pool : WorkerPool) (k : Nat) (hworkers : pool.workers ≠ []) :
    ∃ pool', pool.reserveWorkers k = some pool' ∧ pool'.workers = pool.workers ∧
      pool'.total = pool.total + k ∧
      pool'.largest = max pool.largest ((pool.total + k) ⌈/⌉ pool.members.card) ∧
      IsLeast {m | ∃ placed, Places pool.members k pool.load placed ∧
        pool.members.sup placed = m} pool'.largest := by
  have hs := members_nonempty hworkers
  obtain ⟨pool', hrun, hsame, hbal⟩ := reserveWorkers_run k (Balanced.refl hs pool.load) hworkers
  have hmembers : pool'.members = pool.members := by rw [members, hsame, members]
  rw [hmembers, Nat.zero_add] at hbal
  refine ⟨pool', hrun, hsame, ?_, ?_, ?_⟩
  · rw [total, hmembers]
    exact hbal.places.total
  · rw [largest, hmembers]
    exact hbal.largest
  · rw [largest, hmembers]
    exact hbal.isLeast hs

/-- Three workers with 4, 0 and 1 routers take five more: none gets past 4. -/
theorem reserveWorkers_optimal_skewed :
    (((spawned [0, 1, 2]).setLoad 0 4).setLoad 2 1).workers ≠ [] ∧
      ∃ pool', reserveWorkers 5 (((spawned [0, 1, 2]).setLoad 0 4).setLoad 2 1) = some pool' ∧
        pool'.total = 10 ∧ pool'.largest = 4 := by
  refine ⟨by decide, ?_⟩
  obtain ⟨pool', hrun, -, htotal, hlargest, -⟩ :=
    reserveWorkers_optimal (((spawned [0, 1, 2]).setLoad 0 4).setLoad 2 1) 5 (by decide)
  exact ⟨pool', hrun, htotal.trans (by decide), hlargest.trans (by decide)⟩

end MeetServer.Sfu.WorkerPool
