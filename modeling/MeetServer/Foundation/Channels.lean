import Mathlib.Data.Multiset.Defs
import Mathlib.Logic.Function.Basic

/-!
# Broadcast channels

A hub keeps the channels that its members subscribe to.  A broadcast arrives at
each member at a time of its own, and reaches those that are connected and
subscribed by then; a member at which it arrives too early misses it.
-/

namespace MeetServer.Foundation

variable {σ χ μ : Type*}

structure Broadcast (σ χ μ : Type*) where
  channel : χ
  message : μ
  except : Option σ
  /-- The members at which it has arrived. -/
  arrived : List σ := []
  deriving DecidableEq, Repr

structure Hub (σ χ μ : Type*) where
  connected : σ → Bool := fun _ => false
  channels : σ → List χ := fun _ => []
  inFlight : List (Broadcast σ χ μ) := []
  received : σ → List μ := fun _ => []

namespace Hub

variable (h : Hub σ χ μ)

/-- A message to everyone on the channel, except perhaps one. -/
def emit (channel : χ) (message : μ) (except : Option σ) : Hub σ χ μ :=
  { h with inFlight := h.inFlight ++ [{ channel, message, except }] }

section Emit

variable (c : χ) (message : μ) (except : Option σ)

@[simp] theorem connected_emit : (h.emit c message except).connected = h.connected := rfl

@[simp] theorem channels_emit : (h.emit c message except).channels = h.channels := rfl

@[simp] theorem inFlight_emit :
    (h.emit c message except).inFlight =
      h.inFlight ++ [{ channel := c, message, except }] := rfl

@[simp] theorem received_emit : (h.emit c message except).received = h.received := rfl

end Emit

variable [DecidableEq σ]

def connect (m : σ) (own : χ) : Hub σ χ μ :=
  { h with
    connected := Function.update h.connected m true
    channels := Function.update h.channels m [own] }

/-- A member that disconnects leaves all its channels. -/
def disconnect (m : σ) : Hub σ χ μ :=
  { h with
    connected := Function.update h.connected m false
    channels := Function.update h.channels m [] }

def join (m : σ) (channel : χ) : Hub σ χ μ :=
  { h with channels := Function.update h.channels m (channel :: h.channels m) }

/-- Messages to one member. -/
def send (m : σ) (messages : List μ) : Hub σ χ μ :=
  { h with received := Function.update h.received m (h.received m ++ messages) }

variable [DecidableEq χ]

/-- The broadcast is handed to the member if it arrives now. -/
def reaches (b : Broadcast σ χ μ) (m : σ) : Bool :=
  h.connected m && decide (b.channel ∈ h.channels m) && decide (b.except ≠ some m)

/-- The `k`th broadcast arrives at a member at which it has not arrived. -/
def arrive (k : Nat) (m : σ) : Option (Hub σ χ μ) :=
  match h.inFlight[k]? with
  | none => none
  | some b =>
      if m ∈ b.arrived then none
      else some {
        h with
        inFlight := h.inFlight.set k { b with arrived := m :: b.arrived }
        received := if h.reaches b m then
            Function.update h.received m (h.received m ++ [b.message])
          else h.received }

section Simp

omit [DecidableEq χ]

variable (m m' : σ) (c : χ) (messages : List μ)

@[simp] theorem connected_connect :
    (h.connect m c).connected m' = (decide (m' = m) || h.connected m') := by
  by_cases hm : m' = m <;> simp [connect, hm]

@[simp] theorem channels_connect :
    (h.connect m c).channels m' = if m' = m then [c] else h.channels m' := by
  simp [connect, Function.update_apply]

@[simp] theorem inFlight_connect : (h.connect m c).inFlight = h.inFlight := rfl

@[simp] theorem connected_disconnect :
    (h.disconnect m).connected m' = (decide (m' ≠ m) && h.connected m') := by
  by_cases hm : m' = m <;> simp [disconnect, hm]

@[simp] theorem channels_disconnect :
    (h.disconnect m).channels m' = if m' = m then [] else h.channels m' := by
  simp [disconnect, Function.update_apply]

@[simp] theorem inFlight_disconnect : (h.disconnect m).inFlight = h.inFlight := rfl

@[simp] theorem connected_join : (h.join m c).connected = h.connected := rfl

@[simp] theorem channels_join :
    (h.join m c).channels m' =
      if m' = m then c :: h.channels m else h.channels m' := by
  simp [join, Function.update_apply]

@[simp] theorem inFlight_join : (h.join m c).inFlight = h.inFlight := rfl

@[simp] theorem received_join : (h.join m c).received = h.received := rfl

@[simp] theorem connected_send : (h.send m messages).connected = h.connected := rfl

@[simp] theorem channels_send : (h.send m messages).channels = h.channels := rfl

@[simp] theorem inFlight_send : (h.send m messages).inFlight = h.inFlight := rfl

@[simp] theorem received_send :
    (h.send m messages).received m' =
      if m' = m then h.received m ++ messages else h.received m' := by
  simp [send, Function.update_apply]

end Simp

variable {h} {h' : Hub σ χ μ} {k : Nat} {m : σ} {b : Broadcast σ χ μ}

theorem reaches_iff : h.reaches b m ↔
    h.connected m ∧ b.channel ∈ h.channels m ∧ b.except ≠ some m := by
  simp [reaches, and_assoc]

/-- What an arrival does. -/
structure Arrives (h : Hub σ χ μ) (k : Nat) (m : σ) (b : Broadcast σ χ μ)
    (h' : Hub σ χ μ) : Prop where
  sent : h.inFlight[k]? = some b
  new : m ∉ b.arrived
  connected : h'.connected = h.connected
  channels : h'.channels = h.channels
  inFlight : h'.inFlight = h.inFlight.set k { b with arrived := m :: b.arrived }
  received : ∀ m', h'.received m' =
    if m' = m ∧ h.reaches b m then h.received m' ++ [b.message]
    else h.received m'

theorem arrive_eq_some (hs : h.arrive k m = some h') : ∃ b, h.Arrives k m b h' := by
  unfold arrive at hs
  split at hs
  · cases hs
  · next b hb =>
    simp only [Option.ite_none_left_eq_some, Option.some.injEq] at hs
    obtain ⟨hnew, rfl⟩ := hs
    refine ⟨b, hb, hnew, rfl, rfl, rfl, fun m' => ?_⟩
    by_cases hm : m' = m <;> by_cases hreaches : h.reaches b m <;>
      simp [hm, hreaches]

theorem Arrives.mem_inFlight {b' : Broadcast σ χ μ} (hs : h.Arrives k m b h')
    (hb' : b' ∈ h'.inFlight) : ∃ b₀ ∈ h.inFlight, b₀.channel = b'.channel := by
  rw [hs.inFlight] at hb'
  rcases List.mem_or_eq_of_mem_set hb' with hb' | rfl
  · exact ⟨b', hb', rfl⟩
  · exact ⟨b, List.mem_of_getElem? hs.sent, rfl⟩

/-! ## Messages of one kind on their way to a member -/

variable {Q : μ → Prop}

/-- A message in `Q` has not arrived at the member. -/
def OnItsWay (h : Hub σ χ μ) (m : σ) (Q : μ → Prop) : Prop :=
  ∃ b ∈ h.inFlight, Q b.message ∧ b.except ≠ some m ∧ m ∉ b.arrived

omit [DecidableEq σ] [DecidableEq χ] in
theorem OnItsWay.mono (ho : h.OnItsWay m Q) (hsub : h.inFlight ⊆ h'.inFlight) :
    h'.OnItsWay m Q := by
  obtain ⟨b, hb, hrest⟩ := ho
  exact ⟨b, hsub hb, hrest⟩

omit [DecidableEq σ] [DecidableEq χ] in
theorem onItsWay_emit {c : χ} {message : μ} {except : Option σ} (hQ : Q message)
    (hexcept : except ≠ some m) : (h.emit c message except).OnItsWay m Q :=
  ⟨_, List.mem_append_right _ List.mem_cons_self, hQ, hexcept, List.not_mem_nil⟩

theorem Arrives.onItsWay {m' : σ} (hs : h.Arrives k m' b h')
    (ho : h.OnItsWay m Q) :
    h'.OnItsWay m Q ∨ m' = m ∧ Q b.message ∧ b.except ≠ some m := by
  obtain ⟨b', hb', hQ, hexcept, hnew⟩ := ho
  obtain ⟨j, hj⟩ := List.mem_iff_getElem?.1 hb'
  by_cases hjk : j = k
  · subst hjk
    obtain rfl : b = b' := Option.some.inj (hs.sent.symm.trans hj)
    by_cases hm : m' = m
    · exact .inr ⟨hm, hQ, hexcept⟩
    · refine .inl ⟨{ b with arrived := m' :: b.arrived }, ?_, hQ, hexcept, ?_⟩
      · rw [hs.inFlight]
        exact List.mem_set (List.getElem?_eq_some_iff.1 hj).1 _
      · simp [hnew, Ne.symm hm]
  · refine .inl ⟨b', ?_, hQ, hexcept, hnew⟩
    rw [hs.inFlight]
    exact List.mem_iff_getElem?.2 ⟨j, by simpa [List.getElem?_set, Ne.symm hjk] using hj⟩

end Hub

end MeetServer.Foundation
