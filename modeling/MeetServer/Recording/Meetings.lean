import MeetServer.Foundation.History
import MeetServer.Recording.Speakers

/-!
# The speakers of a meeting

`writeMeetingJson` lists the peers that are in the room at the end.  The history
remembers every file that has been opened for the room, with the name that it was
opened under, and whether its peer has stayed in the room under that name.
-/

namespace MeetServer.Recording

open MeetServer.Foundation

variable {Ref δ : Type}

/-- A file that has been opened, and what for. -/
structure Speaker (Ref : Type) where
  object : Ref
  peerId : PeerId
  name : String
  /-- Its peer has neither left nor been given another name. -/
  kept : Bool := true
  deriving DecidableEq, Repr

/-- The files that have been opened for each room since its recording began. -/
abbrev Speakers (Ref : Type) := Ref → List (Speaker Ref)

/-- The call starts the recording of a room.  Whether it begins afresh when the room is
recording already is left to `again`. -/
def Call.begins (again : Bool) (s : Sfu.State Ref) : Call Ref → Option Ref
  | .mediaRooms (.startRecording roomId _ .call) _ =>
      (s.rooms.lookup roomId).filter fun r => again || !(s.room r).recording
  | _ => none

/-- The meeting that is about to be written, with its room. -/
def Call.writing : Call Ref → Option (Ref × Meeting)
  | .mediaRooms (.stopRecording _ (.files r)) (.writeFile meeting)
  | .mediaRooms (.closeRoom _ (.stopRecording r)) (.writeFile meeting) => some (r, meeting)
  | _ => none

variable [DecidableEq Ref]

/-- A step of a call that removes the peer `gone` has led to `s`. -/
def Speaker.after (gone : Option Ref) (s : State Ref δ) (speaker : Speaker Ref) : Speaker Ref :=
  { speaker with
    kept := speaker.kept && gone ≠ some speaker.object &&
      s.speakerName speaker.object speaker.peerId = speaker.name }

/-- The file that the tap is about to open for the room `r`. -/
def State.opens (s : State Ref δ) (t : TapId Ref) (r : Ref) : List (Speaker Ref) :=
  ((s.tap t).filter fun tap => tap.point = .open && tap.room = r).toList.map fun tap =>
    { object := t.2, peerId := tap.peerId, name := tap.speakerName }

theorem State.mem_opens_iff {s : State Ref δ} {t : TapId Ref} {r : Ref} {speaker : Speaker Ref} :
    speaker ∈ s.opens t r ↔ ∃ tap, s.tap t = some tap ∧ tap.point = .open ∧ tap.room = r ∧
      { object := t.2, peerId := tap.peerId, name := tap.speakerName } = speaker := by
  simp [opens, Option.mem_toList, and_assoc]

def remember (env : Env δ) (again : Bool) (p : Process Ref δ) :
    Happening Ref → Speakers Ref → Speakers Ref
  | .call i ok, speakers => fun r =>
      if (p.proc i).begins again p.world.sfu = some r then []
      else (speakers r).map
        (Speaker.after ((p.proc i).removing ok p.world)
          ((process env).next p (.call i ok)).world)
  | .tap t true, speakers => fun r => speakers r ++ p.world.opens t r
  | _, speakers => speakers

/-- The process, with the speakers that are remembered. -/
abbrev remembering (env : Env δ) (again : Bool) :
    System (Process Ref δ × Speakers Ref) (Happening Ref) :=
  (process env).withHistory (remember env again)

/-- A meeting that is written names every speaker. -/
def NamesSpeakers (s : Process Ref δ × Speakers Ref) : Happening Ref → Prop
  | .call i true => ∀ written ∈ (s.1.proc i).writing, ∀ speaker ∈ s.2 written.1,
      speaker.name ∈ written.2.participants
  | _ => True

/-- When a meeting is written, the name of every speaker who has left or been renamed is
borne by a peer of the room. -/
def LostNamesBorne (s : Process Ref δ × Speakers Ref) : Happening Ref → Prop
  | .call i true => ∀ written ∈ (s.1.proc i).writing, ∀ speaker ∈ s.2 written.1,
      speaker.kept = false → s.1.world.Bears written.1 speaker.name
  | _ => True

/-- Every call runs to its end before the next one begins, and nothing fails. -/
def InSequence (p : Process Ref δ) : Happening Ref → Prop
  | .call i ok => ok = true ∧ (∀ j, j ≠ i → (p.proc j).inFlight = false)
  | .tap t ok => ok = true ∧ ∀ tap ∈ p.world.tap t, tap.point.fails p.world ok = false
  | _ => True

/-! ## The calls -/

/-- The meeting is put together from the peers that are there. -/
def Work.Gathers (s : State Ref δ) (r : Ref) : Work Ref → Prop
  | .stops room _ => room = r
  | .mkdir meeting | .writeFile meeting => meeting.participants = s.participants r
  | .none | .taps _ => True

omit [DecidableEq Ref] in
theorem Work.Gathers.work {s s' : State Ref δ} {r : Ref} {work work' : Work Ref} {ok : Bool}
    (h : work.Gathers s r) (hwork : s.work ok work = some (s', .inl work')) :
    work'.Gathers s' r := by
  cases work with
  | none => cases hwork
  | taps taps =>
      obtain ⟨result, -, heq⟩ := Option.map_eq_some_iff.1 hwork
      cases heq
  | stops room closings =>
      obtain rfl : room = r := h
      obtain ⟨result, -, heq⟩ := Option.map_eq_some_iff.1 hwork
      cases result <;> cases heq
      exact rfl
  | mkdir meeting => cases ok <;> cases hwork; exact h
  | writeFile meeting => cases ok <;> cases hwork

/-- A call of `MediaRoomsService` goes on itself, or its work does. -/
theorem Call.mediaRooms_cases {s s' : State Ref δ} {i : Ref} {ok : Bool} {call : Sfu.Call Ref}
    {work : Work Ref} {c' : Call Ref}
    (h : (Call.mediaRooms call work).step i ok s = some (s', c')) :
    (∃ result meetings,
      stepMediaRooms i result { s with meetings } call = some (s', c')) ∨
    ∃ work', s.work ok work = some (s', .inl work') ∧ c' = .mediaRooms call work' := by
  by_cases hnone : work = .none
  · subst hnone
    exact .inl ⟨ok, s.meetings, h⟩
  · rw [step_mediaRooms hnone] at h
    obtain ⟨⟨s₁, r⟩, hwork, hr⟩ := Option.bind_eq_some_iff.1 h
    cases r with
    | inl work' =>
        cases hr
        exact .inr ⟨work', hwork, rfl⟩
    | inr result =>
        obtain ⟨meetings, rfl⟩ := work_cases hwork
        exact .inl ⟨result, meetings, hr⟩

/-- What a call in flight holds is still so. -/
def Call.At (s : State Ref δ) : Call Ref → Prop
  | .mediaRooms (.getOrCreateRoom _ _) _ => False
  | .mediaRooms (.stopRecording _ (.files r)) work
  | .mediaRooms (.closeRoom _ (.stopRecording r)) work => work.Gathers s r
  | .produce roomId peerId _ _ (.transportProduce r object _) _ =>
      s.sfu.rooms.lookup roomId = some r ∧ s.sfu.objectAt r peerId = some object
  | _ => True

namespace Call.At

variable {s s' : State Ref δ} {i : Ref} {ok : Bool} {c c' : Call Ref}

omit [DecidableEq Ref] in
theorem congr (h : c.At s) (hsfu : s'.sfu = s.sfu) (hnames : s.SameNames s') : c.At s' := by
  have hgathers {r : Ref} {work : Work Ref} (hwork : work.Gathers s r) : work.Gathers s' r := by
    cases work with
    | mkdir meeting | writeFile meeting => exact hwork.trans (hnames.participants hsfu r).symm
    | none | taps | stops => exact hwork
  unfold Call.At at h ⊢
  split at h
  · exact h
  · exact hgathers h
  · exact hgathers h
  · rwa [hsfu]
  · trivial

omit [DecidableEq Ref] in
/-- A call that is not in flight holds nothing. -/
theorem of_rest (h : c.At s) (hrest : c.inFlight = false) : c.At s' := by
  unfold Call.At at h ⊢
  split at h
  · exact h
  · cases hrest
  · cases hrest
  · cases hrest
  · trivial

theorem stepMediaRooms {call : Sfu.Call Ref}
    (hcreates : ∀ roomId point, call ≠ .getOrCreateRoom roomId point)
    (h : Call.stepMediaRooms i ok s call = some (s', c')) : c'.At s' := by
  obtain ⟨⟨sfu, call'⟩, hstep, heq⟩ := Option.map_eq_some_iff.1 h
  cases heq
  cases call with
  | getOrCreateRoom roomId point => exact (hcreates roomId point rfl).elim
  | removePeer roomId peerId done =>
      cases done <;> cases hstep
      trivial
  | createTransport | startRecording =>
      obtain ⟨r, -, hr⟩ := Option.map_eq_some_iff.1 hstep
      cases hr
      trivial
  | stopRecording roomId point =>
      obtain ⟨⟨sfu, point'⟩, -, hr⟩ := Option.map_eq_some_iff.1 hstep
      cases hr
      cases point' with
      | files r => exact rfl
      | call | returned | threw => trivial
  | closeRoom roomId point =>
      obtain ⟨⟨sfu, point'⟩, -, hr⟩ := Option.map_eq_some_iff.1 hstep
      cases hr
      cases point' with
      | stopRecording r => exact rfl
      | call | returned | threw => trivial

theorem stepProduce {roomId : RoomId} {peerId : PeerId} {transportId : Ref} {kind : MediaKind}
    {point : Sfu.Produce Ref}
    (h : Call.stepProduce i roomId peerId transportId kind ok s point = some (s', c')) :
    c'.At s' := by
  obtain ⟨⟨sfu, point'⟩, hstep, heq⟩ := Option.map_eq_some_iff.1 h
  cases heq
  by_cases hcall : point = .call
  · subst hcall
    obtain ⟨rfl, rfl | ⟨v, held, hv, hat, rfl⟩⟩ := Sfu.Produce.step_call hstep
    · trivial
    · exact ⟨hv, hat⟩
  · cases point' with
    | transportProduce v held transport =>
        exact (hcall ((Sfu.Produce.step_cases hstep).2.1 v held transport rfl)).elim
    | call | tapProducer | returned | threw => trivial

omit [DecidableEq Ref] in
theorem of_gathers {call : Sfu.Call Ref} {work work' : Work Ref}
    (h : (Call.mediaRooms call work).At s)
    (hwork : ∀ r, work.Gathers s r → work'.Gathers s' r) :
    (Call.mediaRooms call work').At s' := by
  cases call with
  | getOrCreateRoom roomId point => exact h
  | stopRecording roomId point =>
      cases point with
      | files r => exact hwork r h
      | call | returned | threw => trivial
  | closeRoom roomId point =>
      cases point with
      | stopRecording r => exact hwork r h
      | call | returned | threw => trivial
  | createTransport | removePeer | startRecording => trivial

theorem step (h : c.At s) (hstep : c.step i ok s = some (s', c')) : c'.At s' := by
  cases c with
  | mediaRooms call work =>
      have hcreates (roomId : RoomId) (point : Sfu.GetOrCreateRoom Ref) :
          call ≠ .getOrCreateRoom roomId point := by
        rintro rfl
        exact h
      cases mediaRooms_cases hstep with
      | inl hcalled =>
          obtain ⟨result, s₁, hcalled⟩ := hcalled
          exact stepMediaRooms hcreates hcalled
      | inr hworked =>
          obtain ⟨work', hwork, rfl⟩ := hworked
          exact h.of_gathers fun r hgathers => hgathers.work hwork
  | produce roomId peerId transportId kind point work =>
      cases Call.step_cases hstep with
      | produceWorks =>
          cases point with
          | transportProduce r object transport => exact h
          | call | tapProducer | returned | threw => trivial
      | produce hcalled => exact stepProduce hcalled

end Call.At

/-! ## The taps -/

def Work.tapList : Work Ref → List (TapId Ref)
  | .taps started => started
  | _ => []

def Call.work : Call Ref → Work Ref
  | .mediaRooms _ work | .produce _ _ _ _ _ work => work

/-- The call is in flight and waits for the tap. -/
def Call.Waits (c : Call Ref) (t : TapId Ref) : Prop := c.inFlight = true ∧ t ∈ c.work.tapList

def TapPoint.named : TapPoint Ref → Bool
  | .createPlainTransport | .consume | .open => true
  | _ => false

/-- The tap records a peer of its room, under the name of that peer. -/
structure Tap.Placed (s : State Ref δ) (t : TapId Ref) (tap : Tap Ref δ) : Prop where
  objectAt : s.sfu.objectAt tap.room tap.peerId = some t.2
  name : tap.point.named → tap.speakerName = s.speakerName t.2 tap.peerId

def State.AtRest (s : State Ref δ) : Prop :=
  ∀ t tap, s.tap t = some tap → tap.point.inFlight = false

omit [DecidableEq Ref] in
theorem State.AtRest.of_stopsOn {s s' : State Ref δ} (h : s.AtRest)
    (hstops : s.StopsOn (fun _ => True) s') : s'.AtRest := by
  intro t tap' htap'
  obtain ⟨tap, htap, hmoved⟩ := (KeepsTaps.of_stopsOn hstops).to_some trivial htap'
  rw [hmoved.point]
  exact h t tap htap

omit [DecidableEq Ref] in
theorem Tap.Placed.congr {s s' : State Ref δ} {t : TapId Ref} {tap tap' : Tap Ref δ}
    (h : tap.Placed s t) (hmoved : tap.Unmoved tap') (hsfu : s'.sfu = s.sfu)
    (hnames : s.SameNames s') : tap'.Placed s' t := by
  refine ⟨?_, fun hnamed => ?_⟩
  · rw [hsfu, hmoved.room, hmoved.peerId]
    exact h.objectAt
  · rw [hmoved.point] at hnamed
    rw [hmoved.speakerName, hmoved.peerId, hnames.speakerName]
    exact h.name hnamed

theorem Tap.Placed.tapStep {env : Env δ} {s s' : State Ref δ} {t : TapId Ref}
    {tap tap' : Tap Ref δ} (h : tap.Placed s t) (htap : s.tap t = some tap)
    (hstep : TapStep env s t tap true s') (htap' : s'.tap t = some tap') :
    tap'.Placed s' t := by
  have hsfu := hstep.sfu
  have hnames := State.SameNames.tapStep hstep
  have hgo {s₁ : State Ref δ} {f : Tap Ref δ → Tap Ref δ} (hs : s₁.tap t = some tap)
      (htap' : (s₁.updateTap t f).tap t = some tap') : f tap = tap' := by
    rw [State.tap_updateTap_self, hs] at htap'
    exact Option.some.inj htap'
  have hplace (hroom : tap'.room = tap.room) (hpeer : tap'.peerId = tap.peerId)
      (hname : tap'.point.named → tap'.speakerName = s.speakerName t.2 tap.peerId) :
      tap'.Placed s' t := by
    refine ⟨?_, fun hnamed => ?_⟩
    · rw [hsfu, hroom, hpeer]
      exact h.objectAt
    · rw [hnames.speakerName, hpeer]
      exact hname hnamed
  cases hstep with
  | passed hpasses =>
      obtain rfl := hgo htap htap'
      refine hplace rfl rfl fun hnamed => ?_
      generalize tap.point = point at hpasses
      cases hpasses <;> cases hnamed
  | named =>
      obtain rfl := hgo htap htap'
      exact hplace rfl rfl fun _ => rfl
  | created hpoint =>
      obtain rfl := hgo htap htap'
      exact hplace rfl rfl fun _ => h.name (by rw [hpoint]; rfl)
  | consumed hpoint =>
      obtain rfl := hgo htap htap'
      exact hplace rfl rfl fun _ => h.name (by rw [hpoint]; rfl)
  | opened | headed | bound | started | connected =>
      obtain rfl := hgo htap htap'
      exact hplace rfl rfl nofun

/-- The taps in flight have just been started by the call `i`. -/
def State.Starts (s : State Ref δ) (i : Ref) (taps : List (TapId Ref)) : Prop :=
  ∀ t tap, s.tap t = some tap → tap.point.inFlight → t ∈ taps ∧ t.1 = i ∧ tap.Placed s t

namespace State.Starts

variable {s s' : State Ref δ} {i : Ref} {taps : List (TapId Ref)}

omit [DecidableEq Ref] in
theorem of_atRest (h : s.AtRest) : s.Starts i taps := by
  intro t tap htap hinFlight
  cases (h t tap htap).symm.trans hinFlight

omit [DecidableEq Ref] in
theorem stops {A : Prop} (h : s.Starts i taps) (hstops : s.Stops A s') (hsfu : s'.sfu = s.sfu)
    (hnames : s.SameNames s') : s'.Starts i taps := by
  intro t tap' htap' hinFlight
  obtain ⟨tap, htap, hstopped⟩ := hstops.to_some htap'
  have hmoved := hstopped.unmoved
  obtain ⟨hmem, hown, hplaced⟩ := h t tap htap (hmoved.point ▸ hinFlight)
  exact ⟨hmem, hown, hplaced.congr hmoved hsfu hnames⟩

theorem startTap (h : s.Starts i taps) {object room : Ref} {peerId : PeerId}
    (hat : s.sfu.objectAt room peerId = some object) (roomId : RoomId)
    (producer : Sfu.Producer Ref) :
    (s.startTap (i, object) room roomId peerId producer).Starts i (taps ++ [(i, object)]) := by
  have hstopped := Stops.stopPeerRecording (A := True) s object
  have hsfu := (Ends.stopPeerRecording s object).sfu
  have hstops := h.stops hstopped hsfu (.stopPeerRecording s object)
  intro t tap htap hinFlight
  by_cases hself : t = (i, object)
  · subst hself
    have hnew : (s.startTap (i, object) room roomId peerId producer).tap (i, object) = some {
        room, roomId, peerId, producer,
        point := .stopPeerRecording (s.stopPeerRecording object).2 } := Function.update_self ..
    obtain rfl := Option.some.inj (hnew.symm.trans htap)
    refine ⟨by simp, rfl, ?_, nofun⟩
    rw [sfu_startTap]
    exact hat
  · have hother : (s.startTap (i, object) room roomId peerId producer).tap t =
        (s.stopPeerRecording object).1.tap t := Function.update_of_ne hself ..
    obtain ⟨hmem, hown, hplaced⟩ := hstops t tap (hother.symm.trans htap) hinFlight
    exact ⟨List.mem_append_left _ hmem, hown, hplaced.congr (.refl tap) rfl fun _ => rfl⟩

theorem startRoomRecording (hrest : s.AtRest) (hkeyed : s.sfu.Keyed) (r : Ref)
    (peers : List (PeerId × String)) :
    (s.startRoomRecording i r peers).1.Starts i (s.startRoomRecording i r peers).2 := by
  have hsfu := s.sfu_setDisplayNames r peers
  refine (List.foldlRecOn
    (motive := fun acc : State Ref δ × List (TapId Ref) =>
      acc.1.sfu = s.sfu ∧ acc.1.Starts i acc.2) _ _ ⟨hsfu, ?_⟩ ?_).2
  · exact of_atRest (hrest.of_stopsOn (.setDisplayNames s r peers))
  · intro acc hacc peer hpeer
    obtain ⟨hacc, hstarts⟩ := hacc
    split
    · exact ⟨hacc, hstarts⟩
    · refine ⟨(sfu_startTap ..).trans hacc, hstarts.startTap ?_ _ _⟩
      obtain ⟨peerId, hpeer⟩ := Dict.mem_values_iff.1 hpeer
      rw [hsfu] at hpeer
      rw [hacc, hkeyed r peerId peer hpeer]
      exact Sfu.State.objectAt_eq_some_iff.2 ⟨peer, hpeer, rfl⟩

/-- A call that enters the recording service waits for the taps that it starts. -/
theorem enter (hrest : s.AtRest) (hkeyed : s.sfu.Keyed) (call : Sfu.Call Ref) :
    (s.enter i call).1.Starts i (s.enter i call).2.tapList := by
  have hstopped (r : Ref) : (s.stopRoomRecording r).1.Starts i [] :=
    of_atRest (hrest.of_stopsOn (.stopRoomRecording s r))
  unfold State.enter
  split
  · exact startRoomRecording hrest hkeyed _ _
  · exact hstopped _
  · exact hstopped _
  · exact of_atRest hrest

theorem tapProducer (hrest : s.AtRest) {object room : Ref} {peerId : PeerId}
    (hat : s.sfu.objectAt room peerId = some object) (roomId : RoomId)
    (producer : Sfu.Producer Ref) :
    (s.tapProducer i object room roomId peerId producer).1.Starts i
      (s.tapProducer i object room roomId peerId producer).2.tapList := by
  unfold State.tapProducer
  split
  · exact of_atRest hrest
  · exact startTap (of_atRest hrest : s.Starts i []) hat roomId producer

end State.Starts

/-- Only `startRecording` starts taps in the service. -/
theorem State.AtRest.enter {s : State Ref δ} (hrest : s.AtRest) (i : Ref) (call : Sfu.Call Ref) :
    (s.enter i call).1.AtRest ∨ ∀ work, (Call.mediaRooms call work).inFlight = true := by
  unfold State.enter
  split
  · exact .inr fun _ => rfl
  · exact .inl (hrest.of_stopsOn (.stopRoomRecording s _))
  · exact .inl (hrest.of_stopsOn (.stopRoomRecording s _))
  · exact .inl hrest

/-- What a step of a call leaves behind. -/
structure Call.Started (s : State Ref δ) (i : Ref) (c : Call Ref) : Prop where
  starts : s.Starts i c.work.tapList
  inFlight : s.AtRest ∨ c.inFlight = true

namespace Call.Started

variable {s s' : State Ref δ} {i : Ref} {ok : Bool} {c' : Call Ref}

omit [DecidableEq Ref] in
theorem of_atRest (h : s.AtRest) (c : Call Ref) : Call.Started s i c :=
  ⟨.of_atRest h, .inl h⟩

theorem stepMediaRooms {call : Sfu.Call Ref} (hkeyed : s.sfu.Keyed) (hrest : s.AtRest)
    (h : Call.stepMediaRooms i ok s call = some (s', c')) : Call.Started s' i c' := by
  obtain ⟨⟨sfu, call'⟩, hcall, heq⟩ := Option.map_eq_some_iff.1 h
  cases heq
  have hdropped : ({ s.dropPeer (Recording.removing ok s.sfu call) with sfu } :
      State Ref δ).AtRest := hrest.of_stopsOn (.dropPeer s _)
  exact ⟨.enter hdropped (hkeyed.step hcall) call',
    (hdropped.enter i call').imp_right fun hinFlight => hinFlight _⟩

theorem stepProduce {roomId : RoomId} {peerId : PeerId} {transportId : Ref} {kind : MediaKind}
    {point : Sfu.Produce Ref} {work : Work Ref}
    (hat : (Call.produce roomId peerId transportId kind point work).At s)
    (hkeyed : s.sfu.Keyed) (hrest : s.AtRest)
    (h : Call.stepProduce i roomId peerId transportId kind ok s point = some (s', c')) :
    Call.Started s' i c' := by
  obtain ⟨⟨sfu, point'⟩, hcall, heq⟩ := Option.map_eq_some_iff.1 h
  cases heq
  have hmoved : ({ s with sfu } : State Ref δ).AtRest := hrest
  dsimp only
  split
  · next r object transport producer =>
    obtain ⟨hr, hat⟩ := hat
    have hat' := (Sfu.Produce.objectAt_step hkeyed hcall).trans hat
    rw [Sfu.Produce.rooms_step hcall, hr]
    exact ⟨.tapProducer hmoved hat' _ _, .inr rfl⟩
  · exact .of_atRest hmoved _

end Call.Started

theorem Call.Step.started {s s' : State Ref δ} {i : Ref} {ok : Bool} {c c' : Call Ref}
    (h : Call.Step i ok s c s' c') (hat : c.At s) (hkeyed : s.sfu.Keyed) (hrest : s.AtRest) :
    Call.Started s' i c' := by
  have hmeetings (meetings : List Meeting) :
      ({ s with meetings := meetings } : State Ref δ).AtRest := hrest
  cases h with
  | mediaRoomsWorks | produceWorks => exact .of_atRest (hmeetings _) _
  | @mediaRooms _ _ _ meetings _ _ _ hstep =>
      exact .stepMediaRooms (s := { s with meetings }) hkeyed (hmeetings meetings) hstep
  | @produce roomId peerId transportId kind point work result meetings _ _ hstep =>
      have hat' : (Call.produce roomId peerId transportId kind point work).At
          ({ s with meetings := meetings } : State Ref δ) := hat.congr rfl fun _ => rfl
      exact .stepProduce (s := { s with meetings }) hat' hkeyed (hmeetings meetings) hstep

theorem Call.Step.objectAt {s s' : State Ref δ} {i : Ref} {ok : Bool} {c c' : Call Ref}
    (h : Call.Step i ok s c s' c') (hc : c.At s) (hkeyed : s.sfu.Keyed) {r object : Ref}
    {peerId : PeerId} (hat : s.sfu.objectAt r peerId = some object)
    (hstays : c.removing ok s ≠ some object) : s'.sfu.objectAt r peerId = some object := by
  cases h with
  | mediaRoomsWorks | produceWorks => exact hat
  | mediaRooms hremoving hstep =>
      obtain ⟨call', hcall⟩ := Call.sfu_stepMediaRooms hstep
      rw [hremoving] at hstays
      refine Sfu.Call.objectAt_step hkeyed ?_ hcall hat hstays
      rintro roomId point rfl
      exact hc
  | produce hstep =>
      obtain ⟨point', hcall⟩ := Call.sfu_stepProduce hstep
      exact (Sfu.Produce.objectAt_step hkeyed hcall).trans hat

/-- A call that waits for its taps goes on when they have settled. -/
theorem Call.settled_of_step {s s' : State Ref δ} {i : Ref} {ok : Bool} {c c' : Call Ref}
    (h : c.step i ok s = some (s', c')) {t : TapId Ref} (ht : t ∈ c.work.tapList) :
    ∃ (taps : List (TapId Ref)) (result : Bool),
      t ∈ taps ∧ State.all (taps.map s.tapped) = some result := by
  have hwork {work : Work Ref} {r : State Ref δ × (Work Ref ⊕ Bool)}
      (ht : t ∈ work.tapList) (hr : s.work ok work = some r) :
      ∃ (taps : List (TapId Ref)) (result : Bool),
        t ∈ taps ∧ State.all (taps.map s.tapped) = some result := by
    cases work with
    | taps taps =>
        obtain ⟨result, hresult, -⟩ := Option.map_eq_some_iff.1 hr
        exact ⟨taps, result, ht, hresult⟩
    | none | stops | mkdir | writeFile => cases ht
  cases c with
  | mediaRooms call work | produce roomId peerId transportId kind point work =>
      cases work with
      | taps taps =>
          obtain ⟨r, hr, -⟩ := Option.bind_eq_some_iff.1 h
          exact hwork ht hr
      | none | stops | mkdir | writeFile => cases ht

/-! ## Runs in sequence -/

/-- What holds in a run in sequence, with the speakers that are remembered. -/
structure Sequenced (s : Process Ref δ × Speakers Ref) : Prop where
  keyed : s.1.world.sfu.Keyed
  calls : ∀ i, (s.1.proc i).At s.1.world
  noneThrew : ∀ t tap, s.1.world.tap t = some tap → tap.point ≠ .threw
  taps : ∀ t tap, s.1.world.tap t = some tap → tap.point.inFlight →
    (s.1.proc t.1).Waits t ∧ tap.Placed s.1.world t
  kept : ∀ r, ∀ speaker ∈ s.2 r, speaker.kept = true →
    s.1.world.sfu.objectAt r speaker.peerId = some speaker.object ∧
      s.1.world.speakerName speaker.object speaker.peerId = speaker.name

namespace Sequenced

variable {env : Env δ} {again : Bool} {s : Process Ref δ × Speakers Ref}
  {p p' : Process Ref δ} {speakers speakers' : Speakers Ref}

theorem atRest (h : Sequenced s) {i : Ref} {ok : Bool} {w : State Ref δ} {c : Call Ref}
    (hothers : ∀ j, j ≠ i → (s.1.proc j).inFlight = false)
    (hstep : (s.1.proc i).step i ok s.1.world = some (w, c)) : s.1.world.AtRest := by
  intro t tap htap
  by_contra hinFlight
  rw [Bool.not_eq_false] at hinFlight
  obtain ⟨⟨hcall, hmem⟩, -⟩ := h.taps t tap htap hinFlight
  obtain rfl : t.1 = i := by
    by_contra hne
    cases (hothers t.1 hne).symm.trans hcall
  obtain ⟨taps, result, hmem, hall⟩ := Call.settled_of_step hstep hmem
  have houtcomes := State.all_cases hall
  cases result with
  | true =>
      have htapped := State.tapped_eq_some_iff.1 (houtcomes _ (List.mem_map_of_mem hmem))
      rw [State.pointOf, htap] at htapped
      cases Option.some.inj htapped ▸ hinFlight
  | false =>
      obtain ⟨t', -, htapped⟩ := List.mem_map.1 houtcomes
      obtain ⟨tap', htap', hthrew⟩ :=
        Option.map_eq_some_iff.1 (State.tapped_eq_some_iff.1 htapped)
      exact h.noneThrew t' tap' htap' hthrew

omit [DecidableEq Ref] in
/-- Steps that leave the calls, the rooms and the names alone. -/
theorem frame (h : Sequenced (p, speakers)) (hproc : p'.proc = p.proc)
    (hsfu : p'.world.sfu = p.world.sfu) (hnames : p.world.SameNames p'.world)
    (htaps : ∀ t tap', p'.world.tap t = some tap' →
      (∃ tap, p.world.tap t = some tap ∧ tap.Unmoved tap') ∨
      tap'.point ≠ .threw ∧ (tap'.point.inFlight → (p.proc t.1).Waits t ∧ tap'.Placed p'.world t))
    (hspeakers : ∀ r, ∀ speaker ∈ speakers' r, speaker ∈ speakers r ∨
      p.world.sfu.objectAt r speaker.peerId = some speaker.object ∧
        p.world.speakerName speaker.object speaker.peerId = speaker.name) :
    Sequenced (p', speakers') := by
  refine ⟨hsfu ▸ h.keyed, fun i => ?_, fun t tap' htap' => ?_, fun t tap' htap' hinFlight => ?_,
    fun r speaker hspeaker hkept => ?_⟩
  · rw [hproc]
    exact (h.calls i).congr hsfu hnames
  · rcases htaps t tap' htap' with ⟨tap, htap, hmoved⟩ | ⟨hthrew, -⟩
    · rw [hmoved.point]
      exact h.noneThrew t tap htap
    · exact hthrew
  · rw [hproc]
    rcases htaps t tap' htap' with ⟨tap, htap, hmoved⟩ | ⟨-, hplaced⟩
    · obtain ⟨hwaits, hplaced⟩ := h.taps t tap htap (hmoved.point ▸ hinFlight)
      exact ⟨hwaits, hplaced.congr hmoved hsfu hnames⟩
    · exact hplaced hinFlight
  · rw [hsfu, hnames.speakerName]
    rcases hspeakers r speaker hspeaker with hold | hnew
    · exact h.kept r speaker hold hkept
    · exact hnew

theorem call (h : Sequenced (p, speakers)) {i : Ref} {w : State Ref δ} {c : Call Ref}
    (hothers : ∀ j, j ≠ i → (p.proc j).inFlight = false)
    (hstep : (p.proc i).step i true p.world = some (w, c)) :
    Sequenced (p.set i w c, remember env again p (.call i true) speakers) := by
  have hrest := h.atRest hothers hstep
  have hcases := Call.step_cases hstep
  have hstarted := hcases.started (h.calls i) h.keyed hrest
  have hnext : (process env).next p (.call i true) = p.set i w c :=
    System.next_of_step (by simp [process, Process.step, hstep])
  refine ⟨hcases.keyed h.keyed, fun j => ?_, fun t tap htap => ?_, fun t tap htap hinFlight => ?_,
    fun r speaker hspeaker hkept => ?_⟩
  · by_cases hj : j = i
    · subst hj
      rw [Pool.set_proc_self]
      exact (h.calls j).step hstep
    · rw [Pool.set_proc_ne _ _ _ hj]
      exact (h.calls j).of_rest (hothers j hj)
  · have hgrows := hcases.grows (A := True) fun _ _ _ _ _ => trivial
    rcases hgrows.tap t with ⟨new, hnew, hfresh⟩ | hrel
    · obtain rfl := Option.some.inj (hnew.symm.trans htap)
      obtain ⟨closing, hpoint⟩ := hfresh.point
      simp [hpoint]
    · replace htap : w.tap t = some tap := htap
      rw [htap] at hrel
      generalize hold : p.world.tap t = old at hrel
      cases hrel with
      | some hstops =>
          rw [hstops.point]
          exact h.noneThrew t _ hold
  · obtain ⟨hmem, rfl, hplaced⟩ := hstarted.starts t tap htap hinFlight
    rw [Pool.set_proc_self]
    refine ⟨⟨?_, hmem⟩, hplaced⟩
    refine hstarted.inFlight.resolve_left fun hrest => ?_
    cases (hrest t tap htap).symm.trans hinFlight
  · simp only [remember, hnext] at hspeaker
    split at hspeaker
    · cases hspeaker
    · obtain ⟨old, hold, rfl⟩ := List.mem_map.1 hspeaker
      simp only [Speaker.after, Bool.and_eq_true, decide_eq_true_eq] at hkept
      obtain ⟨⟨hkept, hgone⟩, hname⟩ := hkept
      obtain ⟨hat, -⟩ := h.kept r old hold hkept
      exact ⟨hcases.objectAt (h.calls i) h.keyed hat hgone, hname⟩

theorem tap (h : Sequenced (p, speakers)) {t : TapId Ref} {tap : Tap Ref δ} {w : State Ref δ}
    (htap : p.world.tap t = some tap) (hfails : tap.point.fails p.world true = false)
    (hstep : p.world.tapStep env t true = some w) :
    Sequenced ({ p with world := w }, remember env again p (.tap t true) speakers) := by
  obtain ⟨tap₀, htap₀, hcases⟩ := State.tapStep_cases hstep
  obtain rfl := Option.some.inj (htap₀.symm.trans htap)
  obtain ⟨point, hpoint, hinFlight, hthrew⟩ := State.pointOf_tapStep hstep
  rw [State.pointOf, htap, Option.map_some, Option.some.injEq] at hpoint
  subst hpoint
  obtain ⟨hwaits, hplaced⟩ := h.taps t tap₀ htap hinFlight
  refine h.frame rfl hcases.sfu (.tapStep hcases) (fun t' tap' htap' => ?_)
    fun r speaker hspeaker => ?_
  · by_cases ht : t' = t
    · subst ht
      refine .inr ⟨fun heq => ?_, fun _ => ⟨hwaits, hplaced.tapStep htap hcases htap'⟩⟩
      have hpoint : w.pointOf t' = some .threw := by
        rw [State.pointOf, htap', Option.map_some, heq]
      cases hfails.symm.trans (hthrew.1 hpoint)
    · exact .inl (hcases.keepsTaps.to_some ht htap')
  · rcases List.mem_append.1 hspeaker with hold | hnew
    · exact .inl hold
    · obtain ⟨tap, hopens, hpoint, rfl, rfl⟩ := State.mem_opens_iff.1 hnew
      obtain rfl := Option.some.inj (hopens.symm.trans htap)
      exact .inr ⟨hplaced.objectAt, (hplaced.name (by rw [hpoint]; rfl)).symm⟩

end Sequenced

theorem Sequenced.preserves (env : Env δ) (again : Bool) :
    (remembering env again : System (Process Ref δ × Speakers Ref) _).Preserves
      (fun s a => InSequence s.1 a) Sequenced := by
  rintro ⟨p, speakers⟩ a ⟨p', speakers'⟩ h hseq hremembering
  obtain ⟨hstep, hremember⟩ := System.withHistory_step.1 hremembering
  replace hstep : (process env).step p a = some p' := hstep
  obtain rfl : speakers' = remember env again p a speakers := hremember
  have hcases := process_cases hstep
  have hapart (hcall : ∀ i ok, a ≠ .call i ok) (htap : ∀ t ok, a ≠ .tap t ok) :
      Sequenced (p', speakers) := by
    obtain ⟨hproc, hsfu⟩ := hcases.frame hcall
    refine h.frame hproc hsfu (hcases.sameNames hcall) (fun t tap' htap' => .inl ?_)
      fun _ _ => .inl
    exact hcases.keepsTaps.to_some ⟨htap t, hcall t.1⟩ htap'
  cases a with
  | call i ok =>
      obtain ⟨rfl, hothers⟩ := hseq
      obtain ⟨⟨w, c⟩, hcall, rfl⟩ := Option.map_eq_some_iff.1 hstep
      exact h.call hothers hcall
  | tap t ok =>
      obtain ⟨rfl, hfails⟩ := hseq
      obtain ⟨w, hw, rfl⟩ := Option.map_eq_some_iff.1 hstep
      obtain ⟨tap, htap, -⟩ := State.tapStep_cases hw
      exact h.tap htap (hfails tap htap) hw
  | message | written | close | producerclose | socketError => exact hapart nofun nofun

omit [DecidableEq Ref] in
/-- The meeting that is about to be written lists the peers of its room. -/
theorem Call.At.writing {s : State Ref δ} {c : Call Ref} (h : c.At s) {r : Ref}
    {meeting : Meeting} (hwriting : c.writing = some (r, meeting)) :
    meeting.participants = s.participants r := by
  unfold Call.writing at hwriting
  split at hwriting
  · cases hwriting
    exact h
  · cases hwriting
    exact h
  · cases hwriting

omit [DecidableEq Ref] in
theorem Sequenced.namesSpeakers_iff {s : Process Ref δ × Speakers Ref} (h : Sequenced s)
    (a : Happening Ref) : NamesSpeakers s a ↔ LostNamesBorne s a := by
  have hlisted {i : Ref} {written : Ref × Meeting} (hwritten : written ∈ (s.1.proc i).writing)
      (name : String) : name ∈ written.2.participants ↔ s.1.world.Bears written.1 name := by
    rw [(h.calls i).writing hwritten, State.mem_participants_iff]
  cases a with
  | call i ok =>
      cases ok with
      | false => exact Iff.rfl
      | true =>
          constructor
          · exact fun hnames written hwritten speaker hspeaker _ =>
              (hlisted hwritten speaker.name).1 (hnames written hwritten speaker hspeaker)
          · intro hborne written hwritten speaker hspeaker
            refine (hlisted hwritten speaker.name).2 ?_
            cases hkept : speaker.kept with
            | false => exact hborne written hwritten speaker hspeaker hkept
            | true =>
                obtain ⟨hat, hname⟩ := h.kept written.1 speaker hspeaker hkept
                rw [← hname]
                exact State.bears_of_objectAt h.keyed hat
  | tap | message | written | close | producerclose | socketError => exact Iff.rfl

omit [DecidableEq Ref] in
theorem Sequenced.start {sfu : Sfu.State Ref} (hkeyed : sfu.Keyed)
    {requests : Ref → Request Ref}
    (hrequests : ∀ i roomId, requests i ≠ .mediaRooms (.getOrCreateRoom roomId)) :
    Sequenced ((Process.start sfu requests : Process Ref δ), fun _ => []) := by
  have hcalls (i : Ref) : (requests i).call.At (State.unrecorded sfu : State Ref δ) := by
    cases hrequest : requests i with
    | produce => trivial
    | mediaRooms request =>
        cases request with
        | getOrCreateRoom roomId => exact (hrequests i roomId hrequest).elim
        | createTransport | removePeer | startRecording | stopRecording | closeRoom => trivial
  have hnone (t : TapId Ref) : (State.unrecorded sfu : State Ref δ).tap t = none := rfl
  refine ⟨hkeyed, hcalls, fun t tap htap => ?_, fun t tap htap => ?_, fun _ _ => nofun⟩
  · cases (hnone t).symm.trans htap
  · cases (hnone t).symm.trans htap

/-- In a run in sequence, from any rooms, every meeting that is written names all of its
speakers exactly if each time the names of those who have left or been renamed are borne
by peers who are there. -/
theorem meets_namesSpeakers_iff (env : Env δ) (again : Bool) {sfu : Sfu.State Ref}
    (hkeyed : sfu.Keyed) {requests : Ref → Request Ref}
    (hrequests : ∀ i roomId, requests i ≠ .mediaRooms (.getOrCreateRoom roomId))
    {labels : List (Happening Ref)}
    (hseq : (process env).Meets InSequence (Process.start sfu requests) labels) :
    (remembering env again).Meets NamesSpeakers (Process.start sfu requests, fun _ => [])
        labels ↔
      (remembering env again).Meets LostNamesBorne (Process.start sfu requests, fun _ => [])
        labels := by
  have hmeets : (remembering env again).Meets (fun s a => InSequence s.1 a)
      (Process.start sfu requests, fun _ => []) labels := System.meets_withHistory.2 hseq
  have hstart := Sequenced.start (δ := δ) hkeyed hrequests
  have hI : (remembering env again).Preserves (fun s : Process Ref δ × _ => InSequence s.1)
      Sequenced :=
    Sequenced.preserves env again
  constructor
  · intro hnames
    refine (hmeets.and hnames).along (fun s a s' h hC hstep => hI h hC.1 hstep)
      (fun s a s' h hC _ => ?_) hstart
    exact (h.namesSpeakers_iff a).1 hC.2
  · intro hborne
    refine (hmeets.and hborne).along (fun s a s' h hC hstep => hI h hC.1 hstep)
      (fun s a s' h hC _ => ?_) hstart
    exact (h.namesSpeakers_iff a).2 hC.2

instance [Fintype Ref] (p : Process Ref δ) : ∀ a, Decidable (InSequence p a)
  | .call i ok => inferInstanceAs (Decidable (ok = true ∧ ∀ j, j ≠ i → _))
  | .tap t ok => inferInstanceAs (Decidable (ok = true ∧ ∀ tap ∈ p.world.tap t, _))
  | .message _ _ | .written _ _ | .close _ _ | .producerclose _ | .socketError _ =>
      .isTrue trivial

instance (s : Process Ref δ × Speakers Ref) : ∀ a, Decidable (NamesSpeakers s a)
  | .call i true => inferInstanceAs (Decidable (∀ written ∈ (s.1.proc i).writing, _))
  | .call _ false | .tap _ _ | .message _ _ | .written _ _ | .close _ _ | .producerclose _
  | .socketError _ => .isTrue trivial

instance (s : Process Ref δ × Speakers Ref) : ∀ a, Decidable (LostNamesBorne s a)
  | .call i true => inferInstanceAs (Decidable (∀ written ∈ (s.1.proc i).writing, _))
  | .call _ false | .tap _ _ | .message _ _ | .written _ _ | .close _ _ | .producerclose _
  | .socketError _ => .isTrue trivial

open OnePeer in
/-- Ann stays until her recording is stopped. -/
theorem meets_namesSpeakers_startAndStop :
    (remembering env true).Meets NamesSpeakers (Process.start sfu startAndStop, fun _ => [])
      (.call .fourth true :: taps 9 ++ .call .fourth true :: .call .fifth true ::
        closed ++ stopped) :=
  (meets_namesSpeakers_iff env true keyed_sfu
    (fun i _ => by unfold startAndStop; split <;> nofun) (by decide +kernel)).2 (by decide +kernel)

namespace OnePeer

def startLeaveAndStop : Caller → Request Caller
  | .fourth => .mediaRooms (.startRecording "r" [("p", "Ann")])
  | .fifth => .mediaRooms (.stopRecording "r")
  | _ => .mediaRooms (.removePeer "r" "p")

/-- Ann leaves while she is being recorded, and then the recording is stopped. -/
def left : List (Happening Caller) :=
  .call .fourth true :: taps 9 ++ .call .fourth true :: .call .third true :: closed ++
    List.replicate 3 (.call .fifth true)

end OnePeer

open OnePeer in
theorem not_meets_namesSpeakers_left :
    (process env).Meets InSequence (Process.start sfu startLeaveAndStop)
        (left ++ [.call .fifth true]) ∧
      ¬ (remembering env true).Meets NamesSpeakers
        (Process.start sfu startLeaveAndStop, fun _ => []) (left ++ [.call .fifth true]) ∧
      ¬ (remembering env false).Meets NamesSpeakers
        (Process.start sfu startLeaveAndStop, fun _ => []) (left ++ [.call .fifth true]) := by
  decide +kernel

end MeetServer.Recording
