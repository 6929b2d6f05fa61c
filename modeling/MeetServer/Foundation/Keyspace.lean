import MeetServer.Foundation.Dict
import Mathlib.Logic.Function.Basic

/-!
# A typed keyspace

Keys hold strings, hashes or streams, a command on a key of another type fails,
and an empty hash is no key.  A client is a sequence of commands that stops at
the first failure.  `Confined own I m` says that `m` depends on and changes the
keys in `own` only; clients confined to disjoint keys do not notice each other
(`results_filter`).
-/

namespace MeetServer.Foundation

/-- Milliseconds and a sequence number. -/
abbrev StreamId := Nat × Nat

inductive StoreError where
  | wrongType
  | invalidId
  deriving DecidableEq, Repr

inductive Value (F V : Type) where
  | string (value : V)
  | hash (fields : Dict F V)
  | stream (lastId : StreamId) (entries : List (StreamId × V))

abbrev Keyspace (K F V : Type) := K → Option (Value F V)

abbrev Client (K F V : Type) := ExceptT StoreError (StateM (Keyspace K F V))

variable {K F V α β T : Type}

/-- The answer and the keyspace afterwards. -/
def Client.exec (m : Client K F V α) (s : Keyspace K F V) :
    Except StoreError α × Keyspace K F V :=
  (ExceptT.run m).run s

namespace Client

theorem exec_bind (m : Client K F V α) (f : α → Client K F V β)
    (s : Keyspace K F V) :
    exec (m >>= f) s =
      match m.exec s with
      | (.ok a, s') => (f a).exec s'
      | (.error e, s') => (.error e, s') := by
  change ExceptT.bindCont f (m.exec s).1 (m.exec s).2 = _
  cases m.exec s with
  | mk answer s' => cases answer <;> rfl

theorem exec_map (g : α → β) (m : Client K F V α) (s : Keyspace K F V) :
    exec (g <$> m) s = ((m.exec s).1.map g, (m.exec s).2) := by
  rw [map_eq_pure_bind, exec_bind]
  cases m.exec s with
  | mk answer s' => cases answer <;> rfl

end Client

namespace Keyspace

/-! ## Commands -/

variable [DecidableEq K]

/-- A command reads and writes the value of one key. -/
def onKey (k : K)
    (f : Option (Value F V) → Except StoreError (α × Option (Value F V))) :
    Client K F V α :=
  ExceptT.mk fun s =>
    match f (s k) with
    | .ok (a, v) => (.ok a, Function.update s k v)
    | .error e => (.error e, s)

theorem exec_onKey (k : K)
    (f : Option (Value F V) → Except StoreError (α × Option (Value F V)))
    (s : Keyspace K F V) :
    (onKey k f).exec s =
      match f (s k) with
      | .ok (a, v) => (.ok a, Function.update s k v)
      | .error e => (.error e, s) := rfl

def asString : Option (Value F V) → Except StoreError (Option V)
  | none => .ok none
  | some (.string value) => .ok (some value)
  | some _ => .error .wrongType

def asHash : Option (Value F V) → Except StoreError (Dict F V)
  | none => .ok ∅
  | some (.hash fields) => .ok fields
  | some _ => .error .wrongType

def asStream :
    Option (Value F V) → Except StoreError (StreamId × List (StreamId × V))
  | none => .ok ((0, 0), [])
  | some (.stream lastId entries) => .ok (lastId, entries)
  | some _ => .error .wrongType

def ofHash (fields : Dict F V) : Option (Value F V) :=
  if fields.size = 0 then none else some (.hash fields)

theorem asHash_eq_ok {v : Option (Value F V)} {fields : Dict F V}
    (h : asHash v = .ok fields) : v = some (.hash fields) ∨ fields = ∅ := by
  unfold asHash at h
  split at h <;> cases h
  · exact .inr rfl
  · exact .inl rfl

theorem eq_of_ofHash {fields fields' : Dict F V}
    (h : ofHash fields = some (.hash fields')) : fields' = fields := by
  unfold ofHash at h
  split at h
  · cases h
  · cases h
    rfl

def get (k : K) : Client K F V (Option V) :=
  onKey k fun v => (asString v).map fun value => (value, v)

/-- SET replaces a value of any type. -/
def set (k : K) (value : V) : Client K F V Unit :=
  onKey k fun _ => .ok ((), some (.string value))

def del (k : K) : Client K F V Unit :=
  onKey k fun _ => .ok ((), none)

/-- Expiry times are not modelled; EXPIRE fails on no type. -/
def expire (k : K) : Client K F V Unit :=
  onKey k fun v => .ok ((), v)

def hgetall (k : K) : Client K F V (Dict F V) :=
  onKey k fun v => (asHash v).map fun fields => (fields, v)

def hlen (k : K) : Client K F V Nat :=
  onKey k fun v => (asHash v).map fun fields => (fields.size, v)

def hkeys (k : K) : Client K F V (List F) :=
  onKey k fun v => (asHash v).map fun fields => (fields.keys, v)

section Fields

variable [DecidableEq F]

def hget (k : K) (field : F) : Client K F V (Option V) :=
  onKey k fun v => (asHash v).map fun fields => (fields.lookup field, v)

def hset (k : K) (field : F) (value : V) : Client K F V Unit :=
  onKey k fun v =>
    (asHash v).map fun fields => ((), ofHash (fields.insert field value))

def hdel (k : K) (field : F) : Client K F V Unit :=
  onKey k fun v => (asHash v).map fun fields => ((), ofHash (fields.erase field))

end Fields

/-- The id that `*` stands for at time `now`. -/
def nextId (now : Nat) (lastId : StreamId) : StreamId :=
  if lastId.1 < now then (now, 0) else (lastId.1, lastId.2 + 1)

/-- `XADD k MAXLEN ~ limit * value`; the server decides how much it trims. -/
def xadd (trim : List (StreamId × V) → List (StreamId × V)) (k : K) (now : Nat)
    (value : V) : Client K F V StreamId :=
  onKey k fun v => (asStream v).map fun (lastId, entries) =>
    let id := nextId now lastId
    (id, some (.stream id (trim (entries ++ [(id, value)]))))

/-- `XRANGE k (after +`, or all entries. -/
def xrange (k : K) (after : Option StreamId) :
    Client K F V (List (StreamId × V)) :=
  onKey k fun v => (asStream v).map fun (_, entries) =>
    (entries.filter fun entry => after.all fun id =>
      id.1 < entry.1.1 ∨ (id.1 = entry.1.1 ∧ id.2 < entry.1.2), v)

theorem exec_hkeys {k : K} {s : Keyspace K F V} {fields : List F}
    (h : ((hkeys k).exec s).1 = .ok fields) :
    ∃ d, asHash (s k) = .ok d ∧ fields = d.keys := by
  rw [hkeys, exec_onKey] at h
  cases hd : asHash (s k) with
  | error e => simp [hd, Except.map] at h
  | ok d =>
      simp only [hd, Except.map, Except.ok.injEq] at h
      exact ⟨d, rfl, h.symm⟩

/-! ## Confinement -/

omit [DecidableEq K] in
/-- Both keyspaces have the same values at the keys in `own`. -/
def Agree (own : K → Prop) (s s' : Keyspace K F V) : Prop :=
  ∀ k, own k → s k = s' k

end Keyspace

open Keyspace

/-- As long as `I` holds, `m` depends on and changes the keys in `own` only. -/
structure Confined (own : K → Prop) (I : Keyspace K F V → Prop)
    (m : Client K F V α) : Prop where
  keeps : ∀ s, I s → I (m.exec s).2
  frame : ∀ s k, I s → ¬ own k → (m.exec s).2 k = s k
  answer : ∀ s s', I s → I s' → Agree own s s' → (m.exec s).1 = (m.exec s').1
  agree : ∀ s s', I s → I s' → Agree own s s' →
    Agree own (m.exec s).2 (m.exec s').2

namespace Confined

variable {own : K → Prop} {I : Keyspace K F V → Prop}

theorem pure (a : α) : Confined own I (Pure.pure a : Client K F V α) where
  keeps _ h := h
  frame _ _ _ _ := rfl
  answer _ _ _ _ _ := rfl
  agree _ _ _ _ h := h

theorem throw (e : StoreError) :
    Confined own I (MonadExcept.throw e : Client K F V α) where
  keeps _ h := h
  frame _ _ _ _ := rfl
  answer _ _ _ _ _ := rfl
  agree _ _ _ _ h := h

theorem bind {m : Client K F V α} {f : α → Client K F V β}
    (hm : Confined own I m)
    (hf : ∀ s a, I s → (m.exec s).1 = .ok a → Confined own I (f a)) :
    Confined own I (m >>= f) := by
  have hsame : ∀ s s', I s → I s' → Agree own s s' →
      (Client.exec (m >>= f) s).1 = (Client.exec (m >>= f) s').1 ∧
        Agree own (Client.exec (m >>= f) s).2 (Client.exec (m >>= f) s').2 := by
    intro s s' hs hs' hagree
    have hanswer := hm.answer s s' hs hs' hagree
    have hagree' := hm.agree s s' hs hs' hagree
    have hkeeps := hm.keeps s hs
    have hkeeps' := hm.keeps s' hs'
    have hf' := hf s
    rw [Client.exec_bind, Client.exec_bind]
    generalize m.exec s = r at *
    generalize m.exec s' = r' at *
    obtain ⟨answer, t⟩ := r
    obtain ⟨answer', t'⟩ := r'
    obtain rfl : answer = answer' := hanswer
    cases answer with
    | error e => exact ⟨rfl, hagree'⟩
    | ok a =>
        have hcont := hf' a hs rfl
        exact ⟨hcont.answer t t' hkeeps hkeeps' hagree',
          hcont.agree t t' hkeeps hkeeps' hagree'⟩
  have hrun : ∀ s, I s → I (Client.exec (m >>= f) s).2 ∧
      ∀ k, ¬ own k → (Client.exec (m >>= f) s).2 k = s k := by
    intro s hs
    have hkeeps := hm.keeps s hs
    have hframe := fun k => hm.frame s k hs
    have hf' := hf s
    rw [Client.exec_bind]
    generalize m.exec s = r at *
    obtain ⟨answer, t⟩ := r
    cases answer with
    | error e => exact ⟨hkeeps, hframe⟩
    | ok a =>
        have hcont := hf' a hs rfl
        refine ⟨hcont.keeps t hkeeps, fun k hk => ?_⟩
        rw [hcont.frame t k hkeeps hk]
        exact hframe k hk
  exact ⟨fun s hs => (hrun s hs).1, fun s k hs => (hrun s hs).2 k,
    fun s s' hs hs' h => (hsame s s' hs hs' h).1,
    fun s s' hs hs' h => (hsame s s' hs hs' h).2⟩

theorem seq {m : Client K F V α} {f : α → Client K F V β}
    (hm : Confined own I m) (hf : ∀ a, Confined own I (f a)) :
    Confined own I (m >>= f) :=
  hm.bind fun _ a _ _ => hf a

theorem forM {xs : List β} {f : β → Client K F V PUnit}
    (hf : ∀ x ∈ xs, Confined own I (f x)) : Confined own I (xs.forM f) := by
  induction xs with
  | nil => exact .pure _
  | cons x xs ih =>
      refine (hf x List.mem_cons_self).seq fun _ => ih fun y hy => ?_
      exact hf y (List.mem_cons_of_mem x hy)

theorem onKey [DecidableEq K] {k : K}
    {f : Option (Value F V) → Except StoreError (α × Option (Value F V))}
    (hk : own k)
    (hI : ∀ s a v, I s → f (s k) = .ok (a, v) → I (Function.update s k v)) :
    Confined own I (Keyspace.onKey k f) := by
  constructor
  · intro s hs
    rw [exec_onKey]
    split
    · next hf => exact hI s _ _ hs hf
    · exact hs
  · intro s k' hs hk'
    rw [exec_onKey]
    split
    · exact Function.update_of_ne (fun heq : k' = k => hk' (heq ▸ hk)) _ _
    · rfl
  · intro s s' hs hs' hagree
    rw [exec_onKey, exec_onKey, hagree k hk]
    split <;> rfl
  · intro s s' hs hs' hagree k' hk'
    rw [exec_onKey, exec_onKey, hagree k hk]
    split
    · by_cases heq : k' = k
      · subst heq
        simp
      · simpa [heq] using hagree k' hk'
    · exact hagree k' hk'

theorem read [DecidableEq K] {k : K}
    {f : Option (Value F V) → Except StoreError (α × Option (Value F V))}
    (hk : own k) (hf : ∀ v a v', f v = .ok (a, v') → v' = v) :
    Confined own I (Keyspace.onKey k f) := by
  refine .onKey hk fun s a v hs hv => ?_
  rw [hf _ _ _ hv, Function.update_eq_self]
  exact hs

theorem read_map [DecidableEq K] {k : K}
    {f : Option (Value F V) → Except StoreError β} {g : β → α} (hk : own k) :
    Confined own I (Keyspace.onKey k fun v => (f v).map fun b => (g b, v)) := by
  refine .read hk fun v a v' h => ?_
  cases hf : f v with
  | error e => simp [hf, Except.map] at h
  | ok b =>
      simp only [hf, Except.map, Except.ok.injEq, Prod.mk.injEq] at h
      exact h.2.symm

theorem hash_map [DecidableEq K] {k : K} {g : Dict F V → Dict F V} (hk : own k)
    (hI : ∀ s fields, I s → asHash (s k) = .ok fields →
      I (Function.update s k (ofHash (g fields)))) :
    Confined own I (Keyspace.onKey k fun v =>
      (asHash v).map fun fields => ((), ofHash (g fields))) := by
  refine .onKey hk fun s a v hs h => ?_
  cases hfields : asHash (s k) with
  | error e => simp [hfields, Except.map] at h
  | ok fields =>
      simp only [hfields, Except.map, Except.ok.injEq, Prod.mk.injEq] at h
      rw [← h.2]
      exact hI s fields hs hfields

end Confined

/-! ## Programs of several clients -/

/-- The answers, each with the client it is for. -/
def results (s : Keyspace K F V) :
    List (T × Client K F V α) → List (T × Except StoreError α)
  | [] => []
  | (t, m) :: programs => (t, (m.exec s).1) :: results (m.exec s).2 programs

def afterAll (s : Keyspace K F V) (programs : List (T × Client K F V α)) :
    Keyspace K F V :=
  programs.foldl (fun s program => (program.2.exec s).2) s

theorem afterAll_keeps {I : Keyspace K F V → Prop}
    {programs : List (T × Client K F V α)} {s : Keyspace K F V} (hs : I s)
    (hkeeps : ∀ program ∈ programs, ∀ s, I s → I (program.2.exec s).2) :
    I (afterAll s programs) := by
  induction programs generalizing s with
  | nil => exact hs
  | cons program programs ih =>
      refine ih (hkeeps program List.mem_cons_self s hs) fun other hother => ?_
      exact hkeeps other (List.mem_cons_of_mem program hother)

/--
Noninterference: programs whose keys are disjoint from a client's own leave that
client's answers as if they had not been run.
-/
theorem results_filter [DecidableEq T] {I : Keyspace K F V → Prop} {t : T}
    {own other : K → Prop} (hdisjoint : ∀ k, own k → ¬ other k)
    {programs : List (T × Client K F V α)}
    (hown : ∀ program ∈ programs, program.1 = t → Confined own I program.2)
    (hother : ∀ program ∈ programs, program.1 ≠ t → Confined other I program.2)
    {s s' : Keyspace K F V} (hs : I s) (hs' : I s') (hagree : Agree own s s') :
    (results s programs).filter (fun result => result.1 = t) =
      results s' (programs.filter fun program => program.1 = t) := by
  induction programs generalizing s s' with
  | nil => rfl
  | cons program programs ih =>
      have ih := fun s s' => @ih
        (fun p hp => hown p (List.mem_cons_of_mem program hp))
        (fun p hp => hother p (List.mem_cons_of_mem program hp)) s s'
      obtain ⟨t', m⟩ := program
      by_cases ht : t' = t
      · subst ht
        have hm := hown (t', m) List.mem_cons_self rfl
        simp only [results, List.filter_cons, decide_true, if_true]
        rw [hm.answer s s' hs hs' hagree, ih _ _ (hm.keeps s hs)
          (hm.keeps s' hs') (hm.agree s s' hs hs' hagree)]
      · have hm := hother (t', m) List.mem_cons_self ht
        simp only [results, List.filter_cons, ht, decide_false]
        refine ih _ _ (hm.keeps s hs) hs' fun k hk => ?_
        rw [hm.frame s k hs (hdisjoint k hk)]
        exact hagree k hk

end MeetServer.Foundation
