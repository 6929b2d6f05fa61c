import MeetServer.Foundation.Keyspace
import Mathlib.Data.List.Nodup

/-!
# Event logs

The stream behind one key: XADD gives every entry an id after all earlier ones,
and a reader goes on after an id.  A reader that goes on after the entry it saw
last misses nothing exactly when it has seen all the entries before that one.
-/

namespace MeetServer.Foundation

namespace StreamId

def Before (a b : StreamId) : Prop := a.1 < b.1 ∨ (a.1 = b.1 ∧ a.2 < b.2)

instance (a b : StreamId) : Decidable (Before a b) := inferInstanceAs (Decidable (_ ∨ _))

variable {a b c : StreamId}

theorem not_before_self : ¬ Before a a := by
  simp [Before]

theorem Before.trans (h : Before a b) (h' : Before b c) : Before a c := by
  unfold Before at *
  omega

theorem Before.not_before (h : Before a b) : ¬ Before b a :=
  fun h' => not_before_self (h.trans h')

theorem before_trichotomy (a b : StreamId) : Before a b ∨ a = b ∨ Before b a := by
  unfold Before
  rw [Prod.ext_iff]
  omega

theorem before_nextId (now : Nat) (lastId : StreamId) :
    Before lastId (Keyspace.nextId now lastId) := by
  unfold Keyspace.nextId Before
  split
  · next h => exact .inl h
  · exact .inr ⟨rfl, Nat.lt_succ_self _⟩

end StreamId

variable {μ : Type}

structure EventLog (μ : Type) where
  lastId : StreamId := (0, 0)
  entries : List (StreamId × μ) := []
  increasing : entries.Pairwise fun entry later => entry.1.Before later.1 := by simp
  bounded : ∀ entry ∈ entries, entry.1 = lastId ∨ entry.1.Before lastId := by simp

namespace EventLog

variable (log : EventLog μ)

theorem before_next {log : EventLog μ} {entry : StreamId × μ} (now : Nat)
    (h : entry ∈ log.entries) : entry.1.Before (Keyspace.nextId now log.lastId) := by
  rcases log.bounded entry h with heq | hbefore
  · rw [heq]
    exact StreamId.before_nextId now log.lastId
  · exact hbefore.trans (StreamId.before_nextId now log.lastId)

def append (now : Nat) (message : μ) : EventLog μ where
  lastId := Keyspace.nextId now log.lastId
  entries := log.entries ++ [(Keyspace.nextId now log.lastId, message)]
  increasing := by
    refine List.pairwise_append.2 ⟨log.increasing, List.pairwise_singleton _ _, ?_⟩
    intro entry hentry later hlater
    rw [List.mem_singleton.1 hlater]
    exact before_next now hentry
  bounded := by
    intro entry hentry
    rcases List.mem_append.1 hentry with hentry | hentry
    · exact .inr (before_next now hentry)
    · exact .inl (by rw [List.mem_singleton.1 hentry])

/-- The entries after an id, or all of them. -/
def after (afterId : Option StreamId) : List (StreamId × μ) :=
  log.entries.filter fun entry => afterId.all fun id => decide (id.Before entry.1)

variable {log} {entry other : StreamId × μ}

theorem mem_after_none : entry ∈ log.after none ↔ entry ∈ log.entries := by
  simp [after]

theorem mem_after_some {id : StreamId} :
    entry ∈ log.after (some id) ↔ entry ∈ log.entries ∧ id.Before entry.1 := by
  simp [after]

theorem mem_append {now : Nat} {message : μ} :
    entry ∈ (log.append now message).entries ↔
      entry ∈ log.entries ∨ entry = (Keyspace.nextId now log.lastId, message) := by
  simp [append]

theorem eq_of_id_eq (h : entry ∈ log.entries) (h' : other ∈ log.entries)
    (hid : entry.1 = other.1) : entry = other := by
  have hnodup : (log.entries.map Prod.fst).Nodup := by
    refine List.pairwise_map.2 (log.increasing.imp fun hbefore heq => ?_)
    rw [heq] at hbefore
    exact StreamId.not_before_self hbefore
  exact List.inj_on_of_nodup_map hnodup h h' hid

/-! ## Going on after the last entry seen -/

/-- Every entry that matters has been seen or is found by going on after the last one seen. -/
def Resumable (log : EventLog μ) (matters seen : List (StreamId × μ)) : Prop :=
  ∀ entry ∈ matters, entry ∈ seen ∨ entry ∈ log.after (seen.getLast?.map Prod.fst)

variable {matters seen : List (StreamId × μ)}

theorem Resumable.mono {fewer : List (StreamId × μ)} (h : log.Resumable matters seen)
    (hsub : fewer ⊆ matters) : log.Resumable fewer seen :=
  fun entry hentry => h entry (hsub hentry)

theorem resumable_concat (hmatters : matters ⊆ log.entries) (hother : other ∈ log.entries) :
    log.Resumable matters (seen ++ [other]) ↔
      ∀ entry ∈ matters, entry.1.Before other.1 → entry ∈ seen := by
  have hlast : ((seen ++ [other]).getLast?.map Prod.fst) = some other.1 := by simp
  constructor
  · intro h entry hentry hbefore
    rcases h entry hentry with hseen | hafter
    · rcases List.mem_append.1 hseen with hseen | hseen
      · exact hseen
      · rw [List.mem_singleton.1 hseen] at hbefore
        exact (StreamId.not_before_self hbefore).elim
    · rw [hlast, mem_after_some] at hafter
      exact (hbefore.not_before hafter.2).elim
  · intro h entry hentry
    rw [hlast, mem_after_some]
    rcases StreamId.before_trichotomy entry.1 other.1 with hbefore | heq | hbefore
    · exact .inl (List.mem_append_left _ (h entry hentry hbefore))
    · rw [eq_of_id_eq (hmatters hentry) hother heq]
      exact .inl (List.mem_append_right _ List.mem_cons_self)
    · exact .inr ⟨hmatters hentry, hbefore⟩

theorem Resumable.append (h : log.Resumable matters seen) (hseen : seen ⊆ log.entries)
    (now : Nat) (message : μ) :
    (log.append now message).Resumable
      (matters ++ [(Keyspace.nextId now log.lastId, message)]) seen := by
  intro entry hentry
  have hnew : (Keyspace.nextId now log.lastId, message) ∈
      (log.append now message).after (seen.getLast?.map Prod.fst) := by
    cases hlast : seen.getLast? with
    | none => exact mem_after_none.2 (mem_append.2 (.inr rfl))
    | some last =>
        refine mem_after_some.2 ⟨mem_append.2 (.inr rfl), before_next now (hseen ?_)⟩
        exact List.mem_of_getLast? hlast
  rcases List.mem_append.1 hentry with hentry | hentry
  · refine (h entry hentry).imp_right fun hafter => ?_
    cases hlast : seen.getLast? with
    | none =>
        rw [hlast] at hafter
        exact mem_after_none.2 (mem_append.2 (.inl (mem_after_none.1 hafter)))
    | some last =>
        rw [hlast] at hafter
        obtain ⟨hentry, hbefore⟩ := mem_after_some.1 hafter
        exact mem_after_some.2 ⟨mem_append.2 (.inl hentry), hbefore⟩
  · rw [List.mem_singleton.1 hentry]
    exact .inr hnew

end EventLog

end MeetServer.Foundation
