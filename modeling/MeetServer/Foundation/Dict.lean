import Mathlib.Data.List.AList

/-!
# Finite maps

Redis hashes and JavaScript `Map`s as association lists without duplicate keys.
Entries are not kept in insertion order; no result here depends on an order.
-/

namespace MeetServer.Foundation

abbrev Dict (K V : Type*) := AList (fun _ : K => V)

namespace Dict

variable {K V : Type*}

def size (d : Dict K V) : Nat := d.keys.length

def values (d : Dict K V) : List V := d.entries.map Sigma.snd

/-- The number of entries whose value satisfies `Q`. -/
def countValues (Q : V → Prop) [DecidablePred Q] (d : Dict K V) : Nat :=
  d.entries.countP fun entry => Q entry.2

/-- `f` on every value. -/
def mapValues {W : Type*} (f : V → W) (d : Dict K V) : Dict K W where
  entries := d.entries.map fun entry => ⟨entry.1, f entry.2⟩
  nodupKeys := by
    have hkeys : (d.entries.map fun entry => (⟨entry.1, f entry.2⟩ : Σ _ : K, W)).keys =
        d.entries.keys := by simp [List.keys]
    rw [List.NodupKeys, hkeys]
    exact d.nodupKeys

section MapValues

variable {W : Type*} (f : V → W) (d : Dict K V)

@[simp] theorem keys_mapValues : (d.mapValues f).keys = d.keys := by
  simp [mapValues, AList.keys, List.keys]

@[simp] theorem size_mapValues : (d.mapValues f).size = d.size := by
  simp [size]

variable [DecidableEq K]

theorem mapValues_erase (k : K) : mapValues f (d.erase k) = (d.mapValues f).erase k := by
  refine AList.ext ?_
  change (d.entries.kerase k).map _ = List.kerase k (d.entries.map _)
  rw [List.kerase, List.kerase, List.eraseP_map]
  rfl

theorem mapValues_insert (k : K) (v : V) :
    mapValues f (d.insert k v) = (d.mapValues f).insert k (f v) := by
  have herase := congrArg AList.entries (mapValues_erase f d k)
  exact AList.ext (congrArg (List.cons (⟨k, f v⟩ : Σ _ : K, W)) herase)

theorem lookup_mapValues (k : K) :
    (d.mapValues f).lookup k = Option.map f (d.lookup k : Option V) := by
  change List.dlookup k (d.entries.map fun entry => (⟨entry.1, f entry.2⟩ : Σ _ : K, W)) =
    Option.map f (d.entries.dlookup k : Option V)
  generalize d.entries = entries
  induction entries with
  | nil => rfl
  | cons entry entries ih =>
      obtain ⟨k', v⟩ := entry
      by_cases hk : k = k'
      · subst hk
        simp
      · rw [List.map_cons, List.dlookup_cons_ne _ _ hk, List.dlookup_cons_ne _ _ hk, ih]

end MapValues

theorem size_eq_zero_iff {d : Dict K V} : d.size = 0 ↔ ∀ k, k ∉ d := by
  simp [size, AList.mem_keys, List.eq_nil_iff_forall_not_mem]

theorem mem_entries_iff {d : Dict K V} [DecidableEq K] {k : K} {v : V} :
    ⟨k, v⟩ ∈ d.entries ↔ d.lookup k = some v :=
  AList.mem_lookup_iff.symm

variable [DecidableEq K]

theorem mem_values_iff {d : Dict K V} {v : V} :
    v ∈ d.values ↔ ∃ k, d.lookup k = some v := by
  rw [values, List.mem_map]
  constructor
  · rintro ⟨⟨k, v⟩, hentry, rfl⟩
    exact ⟨k, mem_entries_iff.1 hentry⟩
  · rintro ⟨k, hk⟩
    exact ⟨⟨k, v⟩, mem_entries_iff.2 hk, rfl⟩

theorem findSome?_values {W : Type*} {d : Dict K V} {f g : V → Option W}
    (h : ∀ k v, d.lookup k = some v → f v = g v) : d.values.findSome? f = d.values.findSome? g := by
  have hmem : ∀ v ∈ d.values, f v = g v := fun v hv => by
    obtain ⟨k, hk⟩ := mem_values_iff.1 hv
    exact h k v hk
  generalize d.values = vs at hmem
  induction vs with
  | nil => rfl
  | cons v vs ih =>
      rw [List.findSome?_cons, List.findSome?_cons, hmem v List.mem_cons_self,
        ih fun v hv => hmem v (List.mem_cons_of_mem _ hv)]

theorem countValues_congr {Q Q' : V → Prop} [DecidablePred Q]
    [DecidablePred Q'] {d : Dict K V}
    (h : ∀ k v, d.lookup k = some v → (Q v ↔ Q' v)) :
    countValues Q d = countValues Q' d := by
  refine List.countP_congr fun entry hentry => ?_
  simpa using h entry.1 entry.2 (mem_entries_iff.1 hentry)

theorem size_insert_of_notMem {d : Dict K V} {k : K} (v : V) (h : k ∉ d) :
    size (d.insert k v) = size d + 1 := by
  have hk : k ∉ d.keys := h
  simp [size, List.erase_of_not_mem hk]

theorem size_insert_of_mem {d : Dict K V} {k : K} (v : V) (h : k ∈ d) :
    size (d.insert k v) = size d := by
  have hk : k ∈ d.keys := h
  have hpos := List.length_pos_of_mem hk
  simp only [size, AList.keys_insert, List.length_cons,
    List.length_erase_of_mem hk]
  omega

theorem lookup_insert_ite (d : Dict K V) (k k' : K) (v : V) :
    (d.insert k v).lookup k' = if k' = k then some v else d.lookup k' := by
  split
  · next h => subst h; simp
  · next h => simp [AList.lookup_insert_ne h]

theorem insert_ne_empty (d : Dict K V) (k : K) (v : V) : d.insert k v ≠ ∅ := by
  intro h
  simpa using congrArg (AList.lookup k) h

theorem lookup_erase_ite (d : Dict K V) (k k' : K) :
    (d.erase k).lookup k' = if k' = k then none else d.lookup k' := by
  split
  · next h => subst h; simp
  · next h => simp [AList.lookup_erase_ne h]

theorem erase_of_notMem {d : Dict K V} {k : K} (h : k ∉ d) : d.erase k = d :=
  AList.ext (List.kerase_of_notMem_keys h)

theorem countValues_insert_of_notMem (Q : V → Prop) [DecidablePred Q]
    {d : Dict K V} {k : K} (v : V) (h : k ∉ d) :
    countValues Q (d.insert k v) = countValues Q d + if Q v then 1 else 0 := by
  rw [countValues, AList.entries_insert_of_notMem h, List.countP_cons]
  simp [countValues]

private theorem countP_kerase (Q : V → Prop) [DecidablePred Q] {k : K} {v : V}
    (entries : List (Σ _ : K, V)) (h : entries.dlookup k = some v) :
    (entries.kerase k).countP (fun entry => Q entry.2) +
        (if Q v then 1 else 0) =
      entries.countP fun entry => Q entry.2 := by
  induction entries with
  | nil => simp at h
  | cons entry entries ih =>
      by_cases hk : k = entry.1
      · obtain ⟨k', v'⟩ := entry
        subst hk
        obtain rfl : v' = v := by simpa using h
        simp [List.countP_cons]
      · rw [List.dlookup_cons_ne _ _ hk] at h
        rw [List.kerase_cons_ne hk, List.countP_cons, List.countP_cons, ← ih h]
        omega

theorem countValues_erase (Q : V → Prop) [DecidablePred Q] {d : Dict K V}
    {k : K} {v : V} (h : d.lookup k = some v) :
    countValues Q (d.erase k) + (if Q v then 1 else 0) = countValues Q d :=
  countP_kerase Q d.entries h

end Dict

end MeetServer.Foundation
