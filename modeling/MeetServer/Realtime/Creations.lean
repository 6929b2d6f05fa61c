import MeetServer.Realtime.Steps

/-!
# Pending creations

The promise that an instance keeps in `pendingRooms` belongs to the one call
that is creating the room there, and it has not settled.  `rooming` says where
in `getOrCreateRoom` each call is, on which instance.
-/

namespace MeetServer.Realtime

open MeetServer.Foundation

variable {ι κ : Type}

/-- Within `createRoom`. -/
def GetOrCreateRoom.creating : GetOrCreateRoom ι κ → Bool
  | .getStats _ | .createOrGetMediaRoom _ _ | .set _ => true
  | .getRoom | .expire _ | .pending _ | .returned _ | .threw => false

/-- Within `createRoom` or ahead of it. -/
def GetOrCreateRoom.unsettled : GetOrCreateRoom ι κ → Bool
  | .getRoom | .getStats _ | .createOrGetMediaRoom _ _ | .set _ => true
  | .expire _ | .pending _ | .returned _ | .threw => false

structure Creations (w : World ι κ)
    (rooming : ι → Option (Instance × GetOrCreateRoom ι κ)) : Prop where
  pending : ∀ instanceId i, w.pendingRooms instanceId = some i →
    ∃ point, rooming i = some (instanceId, point) ∧ point.creating
  creating : ∀ i instanceId point, rooming i = some (instanceId, point) →
    point.creating → w.pendingRooms instanceId = some i
  unsettled : ∀ i instanceId point, rooming i = some (instanceId, point) →
    point.unsettled → w.creation i = none

theorem Creations.frame {w w' : World ι κ}
    {rooming : ι → Option (Instance × GetOrCreateRoom ι κ)}
    (h : Creations w rooming) (hpending : w'.pendingRooms = w.pendingRooms)
    (hcreation : w'.creation = w.creation) : Creations w' rooming := by
  obtain ⟨hp, hc, hu⟩ := h
  rw [← hpending] at hp hc
  rw [← hcreation] at hu
  exact ⟨hp, hc, hu⟩

theorem Creations.creation_of_pending {w : World ι κ}
    {rooming : ι → Option (Instance × GetOrCreateRoom ι κ)}
    (h : Creations w rooming) {instanceId : Instance} {i : ι}
    (hi : w.pendingRooms instanceId = some i) : w.creation i = none := by
  obtain ⟨point, hpoint, hcreating⟩ := h.pending instanceId i hi
  refine h.unsettled i instanceId point hpoint ?_
  cases point <;> first | rfl | cases hcreating

section Step

variable {w w' : World ι κ} {i : ι} {instanceId : Instance}
  {point point' : GetOrCreateRoom ι κ}
  {rooming rooming' : ι → Option (Instance × GetOrCreateRoom ι κ)}

theorem Creations.stay (h : Creations w rooming)
    (hi : rooming i = some (instanceId, point))
    (hpending : w'.pendingRooms = w.pendingRooms)
    (hcreation : w'.creation = w.creation)
    (hrooming : ∀ j, j = i ∨ rooming' j = rooming j)
    (hi' : rooming' i = some (instanceId, point') ∨
      rooming' i = none ∧ point'.creating = false)
    (hcreating : point'.creating = point.creating)
    (hunsettled : point'.unsettled → point.unsettled) : Creations w' rooming' := by
  obtain ⟨hp, hc, hu⟩ := h
  constructor <;> simp only [hpending, hcreation] <;> grind

theorem Creations.begins (h : Creations w rooming)
    (hi : rooming i = some (instanceId, .getRoom))
    (hpending : w.pendingRooms instanceId = none)
    (hrooming : ∀ j, j = i ∨ rooming' j = rooming j)
    (hi' : rooming' i = some (instanceId, point') ∨
      rooming' i = none ∧ point'.creating = false)
    (hcreating : point'.creating) :
    Creations (w.beginCreation instanceId i) rooming' := by
  obtain ⟨hp, hc, hu⟩ := h
  have hnone := hu i instanceId .getRoom hi rfl
  constructor <;> simp only [World.beginCreation, Function.update_apply] <;> grind

variable [DecidableEq ι]

theorem Creations.settle {outcome : Settlement Room} (h : Creations w rooming)
    (hi : rooming i = some (instanceId, point))
    (hpending : w'.pendingRooms = Function.update w.pendingRooms instanceId none)
    (hcreation : w'.creation = Function.update w.creation i (some outcome))
    (hrooming : ∀ j, j = i ∨ rooming' j = rooming j)
    (hi' : rooming' i = some (instanceId, point') ∨
      rooming' i = none ∧ point'.creating = false)
    (hown : point.creating ∨ w.pendingRooms instanceId = none)
    (hcreating : point'.creating = false) (hunsettled : point'.unsettled = false) :
    Creations w' rooming' := by
  obtain ⟨hp, hc, hu⟩ := h
  have hcreator := hc i instanceId point hi
  constructor <;> simp only [hpending, hcreation, Function.update_apply] <;> grind

variable [DecidableEq κ]

theorem Creations.step {roomId : RoomId} {ok : Bool} (h : Creations w rooming)
    (hi : rooming i = some (instanceId, point))
    (hs : GetOrCreateRoom.Step i instanceId roomId w ok point w' point')
    (hrooming : ∀ j, j = i ∨ rooming' j = rooming j)
    (hi' : rooming' i = some (instanceId, point') ∨
      rooming' i = none ∧ point'.creating = false) :
    Creations w' rooming' := by
  cases hs with
  | begins _ hpending => exact h.begins hi hpending hrooming hi' rfl
  | unserved _ hpending =>
      refine h.settle hi ?_ rfl hrooming hi' (.inr hpending) rfl rfl
      simp [World.settleCreation, World.beginCreation]
  | unreachable | unanswered | recorded | unrecorded =>
      exact h.settle hi rfl rfl hrooming hi' (.inl rfl) rfl rfl
  | found | waits | lostRoom =>
      exact h.stay hi rfl rfl hrooming hi' rfl (by rintro ⟨⟩)
  | _ => exact h.stay hi rfl rfl hrooming hi' rfl id

end Step

end MeetServer.Realtime
