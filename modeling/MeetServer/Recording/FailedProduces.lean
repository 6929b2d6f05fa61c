import MeetServer.Recording.Speakers

/-!
# Producers of failed calls

`produce` puts the producer into its peer's map before it looks the room up again
and taps the producer, and takes it back from neither failure.  The producer stays
with its peer object from then on, so that a call that has thrown leaves it behind
unless the peer has gone by then.
-/

namespace MeetServer.Sfu

open MeetServer.Foundation

variable {Ref : Type} [DecidableEq Ref]

/-! ## Rooms without the producer -/

def MediaRoom.Lacks (k : Ref) (room : MediaRoom Ref) : Prop :=
  ∀ peerId peer, room.getPeer peerId = some peer → peer.producers.lookup k = none

theorem MediaRoom.lacks_iff {k : Ref} {room : MediaRoom Ref} :
    room.Lacks k ↔ ∀ peer ∈ Dict.values room.peers, peer.producers.lookup k = none := by
  simp only [Lacks, getPeer, Dict.mem_values_iff, forall_exists_index]
  exact forall_comm

instance (k : Ref) (room : MediaRoom Ref) : Decidable (room.Lacks k) :=
  decidable_of_iff' _ MediaRoom.lacks_iff

def State.Lacks (k : Ref) (s : State Ref) : Prop := ∀ r, (s.room r).Lacks k

instance [Fintype Ref] (k : Ref) (s : State Ref) : Decidable (s.Lacks k) :=
  inferInstanceAs (Decidable (∀ _, _))

/-- The peer object is in no room. -/
def State.Gone (object : Ref) (s : State Ref) : Prop := ∀ r, ¬ (s.room r).HasObject object

instance [Fintype Ref] (object : Ref) (s : State Ref) : Decidable (s.Gone object) :=
  inferInstanceAs (Decidable (∀ _, ¬ _))

omit [DecidableEq Ref] in
theorem State.gone_iff {object : Ref} {s : State Ref} :
    s.Gone object ↔ ∀ r peerId, s.objectAt r peerId ≠ some object := by
  simp only [Gone, MediaRoom.hasObject_iff, ne_eq, objectAt_eq_some_iff, not_exists]

/-! ## What holds of every peer -/

/-- `Q` holds of the object and of the producers of every peer. -/
def State.Peers (Q : Ref → PeerId → Ref → Dict Ref (Producer Ref) → Prop) (s : State Ref) : Prop :=
  ∀ r peerId peer, (s.room r).getPeer peerId = some peer → Q r peerId peer.object peer.producers

/-- No peer is the object `i`, and none has the producer `i`. -/
def State.Free (i : Ref) : State Ref → Prop :=
  State.Peers fun _ _ object producers => object ≠ i ∧ producers.lookup i = none

/-- The producer is in the map of the peer object, wherever that is, and in no other. -/
def State.StaysWith (i object : Ref) : State Ref → Prop :=
  State.Peers fun _ _ found producers => producers.lookup i = none ↔ found ≠ object

/-- The peer object is nowhere else. -/
def State.PlacedAt (r : Ref) (peerId : PeerId) (object : Ref) : State Ref → Prop :=
  State.Peers fun v q found _ => found = object → v = r ∧ q = peerId

/-- No two peers are one object. -/
def State.Apart (s : State Ref) : Prop :=
  ∀ r peerId object, s.objectAt r peerId = some object → s.PlacedAt r peerId object

/-- The call has yet to create its peer. -/
def Call.namesPeer : Call Ref → Bool
  | .createTransport _ _ _ .call => true
  | _ => false

omit [DecidableEq Ref] in
theorem Call.namesPeer_of_beginning {s : State Ref} {c : Call Ref} {place : Ref × PeerId}
    (h : c.beginning s = some place) : c.namesPeer = true := by
  unfold beginning at h
  split at h
  · rfl
  · cases h

theorem Call.namesPeer_step {s s' : State Ref} {i : Ref} {ok : Bool} {c c' : Call Ref}
    (h : c.step i ok s = some (s', c')) : c'.namesPeer = false := by
  cases c with
  | createTransport roomId peerId direction point =>
      obtain ⟨point', rfl, hstep⟩ := createTransport_cases h
      cases hstep <;> rfl
  | removePeer roomId peerId done => cases done <;> cases h; rfl
  | getOrCreateRoom | startRecording | stopRecording | closeRoom =>
      obtain ⟨result, -, hr⟩ := Option.map_eq_some_iff.1 h
      cases hr
      rfl

namespace State

variable {i r object : Ref} {s s' : State Ref} {peerId : PeerId}

section Peers

variable {Q : Ref → PeerId → Ref → Dict Ref (Producer Ref) → Prop}

theorem Peers.call {ok : Bool} {c c' : Call Ref} (h : s.Peers Q) (hkeyed : s.Keyed)
    (hnew : c.namesPeer = true → ∀ r peerId, Q r peerId i ∅)
    (hstep : c.step i ok s = some (s', c')) : s'.Peers Q := by
  intro v q peer' hpeer'
  rcases c.inherits hkeyed hstep hpeer' with
    ⟨peer, hpeer, hobject, hproducers⟩ | ⟨hbegins, hobject, hproducers, -⟩
  · rw [hobject, hproducers]
    exact h v q peer hpeer
  · rw [hobject, hproducers]
    exact hnew (Call.namesPeer_of_beginning hbegins) v q

theorem Peers.updatePeer (h : s.Peers Q) (hkeyed : s.Keyed) {producer : Producer Ref}
    (hadd : ∀ v q found producers,
      Q v q found producers → Q v q found (producers.insert i producer)) :
    (s.updatePeer r peerId object fun peer => peer.addProducer i producer).Peers Q := by
  intro v q peer' hpeer'
  rw [getPeer_updatePeer (f := fun peer => peer.addProducer i producer) hkeyed
    fun _ => rfl] at hpeer'
  obtain ⟨peer, hpeer, rfl⟩ := Option.map_eq_some_iff.1 hpeer'
  have hold := h v q peer hpeer
  split
  · exact hadd v q peer.object peer.producers hold
  · exact hold

end Peers

theorem Apart.call {ok : Bool} {c c' : Call Ref} (h : s.Apart) (hkeyed : s.Keyed)
    (hfree : c.namesPeer = true → s.Free i) (hstep : c.step i ok s = some (s', c')) :
    s'.Apart := by
  intro v q object hat v' q' peer' hpeer' hobject'
  obtain ⟨peer, hpeer, hobject⟩ := objectAt_eq_some_iff.1 hat
  rcases c.inherits hkeyed hstep hpeer with ⟨old, hold, hsame, -⟩ | ⟨hbegins, hnew, -⟩ <;>
    rcases c.inherits hkeyed hstep hpeer' with ⟨old', hold', hsame', -⟩ | ⟨hbegins', hnew', -⟩
  · refine h v q object (objectAt_eq_some_iff.2 ⟨old, hold, ?_⟩) v' q' old' hold' ?_
    · rw [← hsame, hobject]
    · rw [← hsame', hobject']
  · have hnot := (hfree (Call.namesPeer_of_beginning hbegins') v q old hold).1
    exact (hnot (by rw [← hsame, hobject, ← hobject', hnew'])).elim
  · have hnot := (hfree (Call.namesPeer_of_beginning hbegins) v' q' old' hold').1
    exact (hnot (by rw [← hsame', hobject', ← hobject, hnew])).elim
  · cases hbegins.symm.trans hbegins'
    exact ⟨rfl, rfl⟩

omit [DecidableEq Ref] in
theorem Apart.of_objectAt (h : s.Apart)
    (hsame : ∀ r peerId, s'.objectAt r peerId = s.objectAt r peerId) : s'.Apart := by
  intro v q object hat v' q' peer' hpeer' hobject'
  have hat' : s'.objectAt v' q' = some object :=
    objectAt_eq_some_iff.2 ⟨peer', hpeer', hobject'⟩
  rw [hsame] at hat hat'
  obtain ⟨peer, hpeer, hobject⟩ := objectAt_eq_some_iff.1 hat'
  exact h v q object hat v' q' peer hpeer hobject

/-- Where a producer stays with its peer, it is left behind until the peer goes. -/
theorem StaysWith.lacks_iff (h : s.StaysWith i object) : s.Lacks i ↔ s.Gone object := by
  rw [gone_iff]
  constructor
  · intro hlacks v q hat
    obtain ⟨peer, hpeer, hobject⟩ := objectAt_eq_some_iff.1 hat
    exact (h v q peer hpeer).1 (hlacks v q peer hpeer) hobject
  · intro hgone v q peer hpeer
    refine (h v q peer hpeer).2 fun hobject => hgone v q ?_
    exact objectAt_eq_some_iff.2 ⟨peer, hpeer, hobject⟩

/-- The producer goes to the peer object that the call holds, if that is still in its room. -/
theorem StaysWith.addProducer (hkeyed : s.Keyed) (hlacks : s.Lacks i)
    (hplaced : s.PlacedAt r peerId object) (producer : Producer Ref) :
    (s.updatePeer r peerId object fun peer => peer.addProducer i producer).StaysWith i object := by
  intro v q peer' hpeer'
  rw [getPeer_updatePeer (f := fun peer => peer.addProducer i producer) hkeyed
    fun _ => rfl] at hpeer'
  obtain ⟨peer, hpeer, rfl⟩ := Option.map_eq_some_iff.1 hpeer'
  split
  · next hplace =>
    refine iff_of_false (fun hnone => ?_) (not_not.2 hplace.2.2)
    rw [MediaPeer.addProducer, Dict.lookup_insert_ite, if_pos rfl] at hnone
    cases hnone
  · next hplace =>
    refine iff_of_true (hlacks v q peer hpeer) fun hobject => hplace ?_
    obtain ⟨hv, hq⟩ := hplaced v q peer hpeer hobject
    exact ⟨hv, hq, hobject⟩

end State

end MeetServer.Sfu

namespace MeetServer.Recording

open MeetServer.Foundation

variable {Ref δ : Type} [DecidableEq Ref]

/-! ## Names -/

/-- The call has yet to name a peer or a producer. -/
def Call.naming : Call Ref → Bool
  | .mediaRooms call _ => call.namesPeer
  | .produce _ _ _ _ .call _ => true
  | .produce .. => false

section Step

variable {s s' : State Ref δ} {i : Ref} {ok : Bool} {c c' : Call Ref}

theorem Call.Step.naming (h : Call.Step i ok s c s' c') (hnaming : c'.naming = true) :
    c.naming = true ∧ s'.sfu = s.sfu := by
  cases h with
  | mediaRoomsWorks => exact ⟨hnaming, rfl⟩
  | @produceWorks _ _ _ _ point => cases point <;> exact ⟨hnaming, rfl⟩
  | mediaRooms _ hstep =>
      obtain ⟨r, hr, heq⟩ := Option.map_eq_some_iff.1 hstep
      cases heq
      cases (Sfu.Call.namesPeer_step hr).symm.trans hnaming
  | produce hstep =>
      obtain ⟨⟨sfu, point'⟩, hr, heq⟩ := Option.map_eq_some_iff.1 hstep
      cases heq
      cases point' with
      | call => exact ((Sfu.Produce.step_cases hr).1 rfl).elim
      | transportProduce | tapProducer | returned | threw => cases hnaming

theorem Call.Step.peers {Q : Ref → PeerId → Ref → Dict Ref (Sfu.Producer Ref) → Prop}
    (h : Call.Step i ok s c s' c') (hpeers : s.sfu.Peers Q) (hkeyed : s.sfu.Keyed)
    (hnew : c.naming = true → ∀ r peerId, Q r peerId i ∅)
    (hadd : ∀ r peerId object producers producer, Q r peerId object producers →
      Q r peerId object (producers.insert i producer)) : s'.sfu.Peers Q := by
  cases h with
  | mediaRoomsWorks | produceWorks => exact hpeers
  | mediaRooms _ hstep =>
      obtain ⟨call', hcall⟩ := Call.sfu_stepMediaRooms hstep
      exact hpeers.call hkeyed hnew hcall
  | produce hstep =>
      obtain ⟨point', hpoint⟩ := Call.sfu_stepProduce hstep
      obtain hsame | ⟨v, held, transport, hadded⟩ := (Sfu.Produce.step_cases hpoint).2.2
      · exact hsame ▸ hpeers
      · rw [hadded]
        exact hpeers.updatePeer hkeyed fun r peerId found producers =>
          hadd r peerId found producers _

theorem Call.Step.apart (h : Call.Step i ok s c s' c') (hapart : s.sfu.Apart)
    (hkeyed : s.sfu.Keyed) (hfree : c.naming = true → s.sfu.Free i) : s'.sfu.Apart := by
  cases h with
  | mediaRoomsWorks | produceWorks => exact hapart
  | mediaRooms _ hstep =>
      obtain ⟨call', hcall⟩ := Call.sfu_stepMediaRooms hstep
      exact hapart.call hkeyed hfree hcall
  | produce hstep =>
      obtain ⟨point', hpoint⟩ := Call.sfu_stepProduce hstep
      exact hapart.of_objectAt fun _ _ => Sfu.Produce.objectAt_step hkeyed hpoint

end Step

/-- Peers are stored under their ids, each is an object of its own, and a call that has yet to
name a peer or a producer finds its name free. -/
structure Process.WellNamed (p : Process Ref δ) : Prop where
  keyed : p.world.sfu.Keyed
  apart : p.world.sfu.Apart
  free : ∀ i, (p.proc i).naming = true → p.world.sfu.Free i

theorem Process.WellNamed.spawned (workers : List Sfu.Worker) (requests : Ref → Request Ref) :
    (Process.start (.spawned workers) requests : Process Ref δ).WellNamed where
  keyed _ _ _ := nofun
  apart _ _ _ := nofun
  free _ _ _ _ _ := nofun

theorem Process.WellNamed.preserves {env : Env δ} :
    (process env : System (Process Ref δ) (Happening Ref)).Preserves (fun _ _ => True)
      Process.WellNamed := by
  intro p a p' h _ hstep
  by_cases hcall : ∃ i ok, a = .call i ok
  · obtain ⟨i, ok, rfl⟩ := hcall
    obtain ⟨⟨w, c⟩, hcall, rfl⟩ := Option.map_eq_some_iff.1 hstep
    have hcases := Call.step_cases hcall
    refine ⟨hcases.keyed h.keyed, hcases.apart h.apart h.keyed (h.free i), fun j hnaming => ?_⟩
    by_cases hj : j = i
    · subst hj
      rw [Pool.set_proc_self] at hnaming
      obtain ⟨hbefore, hsfu⟩ := hcases.naming hnaming
      rw [Pool.set_world, hsfu]
      exact h.free j hbefore
    · rw [p.set_proc_ne w c hj] at hnaming
      refine hcases.peers (h.free j hnaming) h.keyed (fun _ _ _ => ⟨Ne.symm hj, rfl⟩) ?_
      rintro r peerId object producers producer ⟨hobject, hnone⟩
      exact ⟨hobject, by rw [Dict.lookup_insert_ite, if_neg hj, hnone]⟩
  · simp only [not_exists] at hcall
    obtain ⟨hproc, hsfu⟩ := (process_cases hstep).frame hcall
    exact ⟨hsfu ▸ h.keyed, hsfu ▸ h.apart, hproc ▸ hsfu ▸ h.free⟩

theorem wellNamed_of_reachable {env : Env δ} {workers : List Sfu.Worker}
    {requests : Ref → Request Ref} {p : Process Ref δ}
    (h : (process env).Reachable (.start (.spawned workers) requests) p) : p.WellNamed :=
  h.invariant Process.WellNamed.preserves (.spawned workers requests)

/-- No call is going to create a peer object of this name. -/
def Process.Taken (p : Process Ref δ) (object : Ref) : Prop :=
  ∀ j, (p.proc j).naming = true → j ≠ object

theorem Process.Taken.set {p : Process Ref δ} {object i : Ref} {w : State Ref δ} {c : Call Ref}
    (h : p.Taken object) (hc : c.naming = true → (p.proc i).naming = true) :
    Process.Taken (p.set i w c) object := by
  intro j hnaming
  by_cases hj : j = i
  · subst hj
    rw [Pool.set_proc_self] at hnaming
    exact h j (hc hnaming)
  · exact h j (by rwa [p.set_proc_ne w c hj] at hnaming)

/-! ## The steps of the call -/

def Call.produceThrew : Call Ref → Bool
  | .produce _ _ _ _ .threw _ => true
  | _ => false

/-- Where the call is going to throw after it has got its producer, the peer has gone: the
room is not found, or the tap has thrown. -/
def Call.LeavesNoProducer (ok : Bool) (s : State Ref δ) : Call Ref → Prop
  | .produce roomId _ _ _ (.transportProduce _ object _) _ =>
      ok = true → s.sfu.rooms.lookup roomId = none → s.sfu.Gone object
  | .produce _ _ _ _ (.tapProducer _) (.taps taps) =>
      ∀ t ∈ taps, s.tapped t = some false → s.sfu.Gone t.2
  | _ => True

instance [Fintype Ref] (ok : Bool) (s : State Ref δ) :
    ∀ c : Call Ref, Decidable (c.LeavesNoProducer ok s)
  | .produce roomId _ _ _ (.transportProduce _ object _) _ =>
      inferInstanceAs
        (Decidable (ok = true → s.sfu.rooms.lookup roomId = none → s.sfu.Gone object))
  | .produce _ _ _ _ (.tapProducer _) (.taps taps) =>
      inferInstanceAs (Decidable (∀ t ∈ taps, s.tapped t = some false → s.sfu.Gone t.2))
  | .mediaRooms .. | .produce _ _ _ _ .call _ | .produce _ _ _ _ (.returned _) _
  | .produce _ _ _ _ .threw _ | .produce _ _ _ _ (.tapProducer _) .none
  | .produce _ _ _ _ (.tapProducer _) (.stops ..) | .produce _ _ _ _ (.tapProducer _) (.mkdir _)
  | .produce _ _ _ _ (.tapProducer _) (.writeFile _) => .isTrue trivial

/-- How far the call `i` has come, with its producer and the peer object that it holds. -/
inductive ProducingAt (i : Ref) (p : Process Ref δ) : Call Ref → Prop
  | call {roomId peerId transportId kind} : p.world.sfu.Lacks i →
      ProducingAt i p (.produce roomId peerId transportId kind .call .none)
  | transportProduce {roomId peerId transportId kind r object transport} :
      p.world.sfu.Lacks i → p.Taken object → p.world.sfu.PlacedAt r peerId object →
      ProducingAt i p (.produce roomId peerId transportId kind
        (.transportProduce r object transport) .none)
  | tapProducer {roomId peerId transportId kind producer object taps} :
      p.Taken object → p.world.sfu.StaysWith i object → (∀ t ∈ taps, t = (i, object)) →
      ProducingAt i p (.produce roomId peerId transportId kind (.tapProducer producer) (.taps taps))
  | returned {roomId peerId transportId kind producer} :
      ProducingAt i p (.produce roomId peerId transportId kind (.returned producer) .none)
  | threw {roomId peerId transportId kind} : p.world.sfu.Lacks i →
      ProducingAt i p (.produce roomId peerId transportId kind .threw .none)

namespace ProducingAt

variable {i : Ref} {ok : Bool} {c c' : Call Ref} {p : Process Ref δ} {w : State Ref δ}
  {roomId : RoomId} {peerId : PeerId} {transportId : Ref} {kind : MediaKind}

theorem called (hnamed : p.WellNamed) (hlacks : p.world.sfu.Lacks i)
    (h : Call.stepProduce i roomId peerId transportId kind ok p.world .call = some (w, c')) :
    ProducingAt i (p.set i w c') c' ∧ w.sfu = p.world.sfu := by
  obtain ⟨⟨sfu, point'⟩, hr, heq⟩ := Option.map_eq_some_iff.1 h
  cases heq
  obtain ⟨rfl, rfl | ⟨v, held, -, hat, rfl⟩⟩ := Sfu.Produce.step_call hr
  · exact ⟨.threw hlacks, rfl⟩
  · refine ⟨.transportProduce hlacks (fun j hnaming heq => ?_) ?_, rfl⟩
    · obtain ⟨peer, hpeer, hobject⟩ := Sfu.State.objectAt_eq_some_iff.1 hat
      by_cases hj : j = i
      · rw [hj, Pool.set_proc_self] at hnaming
        cases hnaming
      · rw [p.set_proc_ne _ _ hj] at hnaming
        exact (hnamed.free j hnaming v peerId peer hpeer).1 (hobject.trans heq.symm)
    · exact hnamed.apart v peerId held hat

/-- The producer is in the map when the room is looked up. -/
theorem produced {r object transport : Ref} (hnamed : p.WellNamed) (hlacks : p.world.sfu.Lacks i)
    (hobject : p.Taken object) (hplaced : p.world.sfu.PlacedAt r peerId object)
    (h : Call.stepProduce i roomId peerId transportId kind ok p.world
      (.transportProduce r object transport) = some (w, c')) :
    ((c'.produceThrew → w.sfu.Lacks i) → ProducingAt i (p.set i w c') c') ∧
      ((c'.produceThrew → w.sfu.Lacks i) ↔ (ok = true →
        p.world.sfu.rooms.lookup roomId = none → p.world.sfu.Gone object)) := by
  cases ok with
  | false =>
      cases h
      exact ⟨fun _ => .threw hlacks, iff_of_true (fun _ => hlacks) (by rintro ⟨⟩)⟩
  | true =>
      let added := p.world.sfu.updatePeer r peerId object fun peer =>
        peer.addProducer i { kind, transport }
      have hrooms : added.rooms = p.world.sfu.rooms := Sfu.State.frame_updatePeer.rooms
      have hstays : added.StaysWith i object := .addProducer hnamed.keyed hlacks hplaced _
      have hgone : added.Gone object ↔ p.world.sfu.Gone object := by
        simp only [Sfu.State.gone_iff, added, Sfu.State.objectAt_updatePeer
          (f := fun peer => peer.addProducer i { kind, transport }) hnamed.keyed
          (fun _ => rfl) (fun _ => rfl)]
      have hopen : p.world.sfu.transportOpen transport = true := by
        by_contra hclosed
        simp [Call.stepProduce, Sfu.Produce.step, hclosed] at h
      have hstep (point : Sfu.Produce Ref)
          (hpoint : Sfu.afterProduce i roomId kind added = point) :
          Sfu.Produce.step i roomId peerId transportId kind true p.world.sfu
            (.transportProduce r object transport) = some (added, point) := by
        simp only [Sfu.Produce.step, hopen, if_true]
        exact congrArg (fun point => some (added, point)) hpoint
      cases hlookup : p.world.sfu.rooms.lookup roomId with
      | none =>
          have hthrew : Sfu.afterProduce i roomId kind added = .threw := by
            rw [Sfu.afterProduce, hrooms, hlookup]
          simp only [Call.stepProduce, hstep _ hthrew, Option.map_some] at h
          cases h
          refine ⟨fun hlacks => .threw (hlacks rfl), ?_⟩
          simp only [Call.produceThrew, forall_const]
          exact hstays.lacks_iff.trans hgone
      | some room =>
          have hat : ProducingAt i (p.set i w c') c' ∧ c'.produceThrew = false := by
            by_cases htaps : (added.room room).recording && kind = .audio
            · have htap : Sfu.afterProduce i roomId kind added = .tapProducer i := by
                simp only [Sfu.afterProduce, hrooms, hlookup, htaps, if_true]
              simp only [Call.stepProduce, hstep _ htap, Option.map_some, hrooms, hlookup,
                State.tapProducer] at h
              split at h <;> cases h
              · exact ⟨.tapProducer (hobject.set (by rintro ⟨⟩)) hstays (by simp), rfl⟩
              · refine ⟨.tapProducer (hobject.set (by rintro ⟨⟩)) ?_ (by simp), rfl⟩
                rw [Pool.set_world, State.sfu_startTap]
                exact hstays
            · have hreturned : Sfu.afterProduce i roomId kind added = .returned i := by
                simp only [Sfu.afterProduce, hrooms, hlookup, htaps]
                rfl
              simp only [Call.stepProduce, hstep _ hreturned, Option.map_some] at h
              cases h
              exact ⟨.returned, rfl⟩
          refine ⟨fun _ => hat.1, iff_of_true (fun hthrew => ?_) (by rintro - ⟨⟩)⟩
          cases hat.2.symm.trans hthrew

theorem step (hnamed : p.WellNamed) (h : ProducingAt i p c)
    (hstep : c.step i ok p.world = some (w, c')) :
    ((c'.produceThrew → w.sfu.Lacks i) → ProducingAt i (p.set i w c') c') ∧
      ((c'.produceThrew → w.sfu.Lacks i) ↔ c.LeavesNoProducer ok p.world) := by
  cases h with
  | call hlacks =>
      obtain ⟨hat, hsfu⟩ := called hnamed hlacks hstep
      exact ⟨fun _ => hat, iff_of_true (fun _ => hsfu ▸ hlacks) trivial⟩
  | transportProduce hlacks hobject hplaced => exact produced hnamed hlacks hobject hplaced hstep
  | @tapProducer roomId peerId transportId kind producer object taps hobject hstays htaps =>
      obtain ⟨⟨s₁, r'⟩, hall, hnext⟩ := Option.bind_eq_some_iff.1 hstep
      obtain ⟨result, hresult, heq⟩ := Option.map_eq_some_iff.1 hall
      cases heq
      have houtcomes := State.all_cases hresult
      clear hstep hall
      cases result with
      | true =>
          cases hnext
          refine ⟨fun _ => .returned, iff_of_true (by rintro ⟨⟩) fun t ht hfalse => ?_⟩
          cases hfalse.symm.trans (houtcomes _ (List.mem_map_of_mem ht))
      | false =>
          cases hnext
          refine ⟨fun hlacks => .threw (hlacks rfl), ?_⟩
          obtain ⟨t, ht, hfalse⟩ := List.mem_map.1 houtcomes
          constructor
          · intro hlacks t' ht' _
            rw [htaps t' ht']
            exact hstays.lacks_iff.1 (hlacks rfl)
          · intro hgone _
            have hgone := hgone t ht hfalse
            rw [htaps t ht] at hgone
            exact hstays.lacks_iff.2 hgone
  | returned => cases hstep
  | threw => cases hstep

/-- Another call moves no peer, and takes no producer away from one. -/
theorem other {j : Ref} (hnamed : p.WellNamed) (h : ProducingAt i p c) (hj : j ≠ i)
    (hstep : Call.Step j ok p.world (p.proc j) w c') : ProducingAt i (p.set j w c') c := by
  have hobject {object : Ref} (hobject : p.Taken object) : Process.Taken (p.set j w c') object :=
    hobject.set fun hnaming => (hstep.naming hnaming).1
  have hlacks (hlacks : p.world.sfu.Lacks i) : w.sfu.Lacks i := by
    refine hstep.peers (Q := fun _ _ _ producers => producers.lookup i = none) hlacks
      hnamed.keyed (fun _ _ _ => rfl) fun r peerId object producers producer hnone => ?_
    rw [Dict.lookup_insert_ite, if_neg (Ne.symm hj), hnone]
  cases h with
  | call hold => exact .call (hlacks hold)
  | transportProduce hold hheld hplaced =>
      refine .transportProduce (hlacks hold) (hobject hheld) ?_
      exact hstep.peers hplaced hnamed.keyed
        (fun hnaming _ _ heq => (hheld j hnaming heq).elim) fun _ _ _ _ _ => id
  | tapProducer hheld hstays htaps =>
      refine .tapProducer (hobject hheld) ?_ htaps
      refine hstep.peers hstays hnamed.keyed (fun hnaming _ _ => ?_) ?_
      · exact iff_of_true rfl (hheld j hnaming)
      · intro r peerId found producers producer hiff
        rwa [Dict.lookup_insert_ite, if_neg (Ne.symm hj)]
  | returned => exact .returned
  | threw hold => exact .threw (hlacks hold)

theorem frame {p' : Process Ref δ} (h : ProducingAt i p c) (hproc : p'.proc = p.proc)
    (hsfu : p'.world.sfu = p.world.sfu) : ProducingAt i p' c := by
  have hobject {object : Ref} (hobject : p.Taken object) : p'.Taken object := by
    rwa [Process.Taken, hproc]
  cases h with
  | call hlacks => exact .call (hsfu ▸ hlacks)
  | transportProduce hlacks hheld hplaced =>
      exact .transportProduce (hsfu ▸ hlacks) (hobject hheld) (hsfu ▸ hplaced)
  | tapProducer hheld hstays htaps => exact .tapProducer (hobject hheld) (hsfu ▸ hstays) htaps
  | returned => exact .returned
  | threw hlacks => exact .threw (hsfu ▸ hlacks)

theorem lacks_of_threw (h : ProducingAt i p c) (hthrew : c.produceThrew) :
    p.world.sfu.Lacks i := by
  cases h with
  | threw hlacks => exact hlacks
  | call | transportProduce | tapProducer | returned => cases hthrew

end ProducingAt

/-! ## Runs -/

/-- No peer has the producer of a call that has thrown. -/
def FailedProduceLacks (i : Ref) (p : Process Ref δ) : Prop :=
  (p.proc i).produceThrew → p.world.sfu.Lacks i

/-- The step does not make the call throw over a peer that has got its producer and is there. -/
def ThrowsWithoutProducer (i : Ref) (p : Process Ref δ) : Happening Ref → Prop
  | .call j ok => j = i → (p.proc i).LeavesNoProducer ok p.world
  | _ => True

instance [Fintype Ref] (i : Ref) (p : Process Ref δ) : ∀ a, Decidable (ThrowsWithoutProducer i p a)
  | .call j ok => inferInstanceAs (Decidable (j = i → (p.proc i).LeavesNoProducer ok p.world))
  | .tap .. | .message .. | .written .. | .close .. | .producerclose _ | .socketError _ =>
      .isTrue trivial

theorem producingAt_step {env : Env δ} {i : Ref} {p p' : Process Ref δ} {a : Happening Ref}
    (hnamed : p.WellNamed) (h : ProducingAt i p (p.proc i))
    (hstep : (process env).step p a = some p') :
    (FailedProduceLacks i p' → ProducingAt i p' (p'.proc i)) ∧
      (FailedProduceLacks i p' ↔ ThrowsWithoutProducer i p a) := by
  -- a step of another call, or of no call
  have hother (hat : ProducingAt i p' (p'.proc i)) (hthrows : ThrowsWithoutProducer i p a) :
      (FailedProduceLacks i p' → ProducingAt i p' (p'.proc i)) ∧
        (FailedProduceLacks i p' ↔ ThrowsWithoutProducer i p a) :=
    ⟨fun _ => hat, iff_of_true hat.lacks_of_threw hthrows⟩
  by_cases hcall : ∃ j ok, a = .call j ok
  · obtain ⟨j, ok, rfl⟩ := hcall
    obtain ⟨⟨w, c⟩, hcall, rfl⟩ := Option.map_eq_some_iff.1 hstep
    by_cases hj : j = i
    · subst hj
      obtain ⟨hat, hiff⟩ := h.step hnamed hcall
      rw [FailedProduceLacks, Pool.set_proc_self]
      exact ⟨hat, hiff.trans ⟨fun hleaves _ => hleaves, fun hthrows => hthrows rfl⟩⟩
    · refine hother ?_ fun heq => (hj heq).elim
      rw [p.set_proc_ne w c (Ne.symm hj)]
      exact h.other hnamed hj (Call.step_cases hcall)
  · simp only [not_exists] at hcall
    obtain ⟨hproc, hsfu⟩ := (process_cases hstep).frame hcall
    refine hother (hproc ▸ h.frame hproc hsfu) ?_
    cases a with
    | call j ok => exact (hcall j ok rfl).elim
    | _ => trivial

/-- A `produce` that throws has left no producer behind exactly when it only throws after
its peer has gone, once it has got the producer. -/
theorem holds_failedProduceLacks_iff (env : Env δ) {roomId : RoomId} {peerId : PeerId}
    {transportId i : Ref} {kind : MediaKind} {p : Process Ref δ}
    (hcall : p.proc i = .produce roomId peerId transportId kind .call .none)
    (hnamed : p.WellNamed) (labels : List (Happening Ref)) :
    (process env).Holds (FailedProduceLacks i) p labels ↔
      (process env).Meets (ThrowsWithoutProducer i) p labels := by
  have hlacks : p.world.sfu.Lacks i := fun r q peer hpeer =>
    (hnamed.free i (by rw [hcall]; rfl) r q peer hpeer).2
  have hat : p.WellNamed ∧ ProducingAt i p (p.proc i) := ⟨hnamed, hcall ▸ .call hlacks⟩
  refine System.holds_iff_meets_of_iff
    (I := fun p => p.WellNamed ∧ ProducingAt i p (p.proc i))
    (fun p h => ?_) (fun p a p' h hstep hholds => ?_) (fun p a p' h hstep => ?_) hat labels
  · exact h.2.lacks_of_threw
  · exact ⟨Process.WellNamed.preserves h.1 trivial hstep, (producingAt_step h.1 h.2 hstep).1 hholds⟩
  · exact (producingAt_step h.1 h.2 hstep).2

/-! Ann's producer and her tap. -/

namespace OnePeer

def beforeProduce : Process Caller Unit :=
  (process env).run (start (.removePeer "r" "p"))
    ([.first, .first, .second, .second, .fourth, .fourth].map fun i => .call i true)

/-- The directory for the recording cannot be made. -/
def producedUntapped (meanwhile : List (Happening Caller)) : List (Happening Caller) :=
  [.call .third true, .call .third true, .tap (.third, .second) true] ++ meanwhile ++
    [.tap (.third, .second) false, .call .third true]

end OnePeer

open OnePeer in
/-- She leaves before the tap fails. -/
theorem holds_failedProduceLacks_left :
    (process env).Holds (FailedProduceLacks .third) beforeProduce
      (producedUntapped [.call .fifth true]) := by
  have hcall : beforeProduce.proc .third = .produce "r" "p" .second .audio .call .none := by
    decide +kernel
  have hnamed : beforeProduce.WellNamed := Process.WellNamed.preserves.run (.spawned [0] _) _
  exact (holds_failedProduceLacks_iff env hcall hnamed _).2 (by decide +kernel)

open OnePeer in
/-- The call throws, and her producer is there and open. -/
theorem not_failedProduceLacks_untapped :
    beforeProduce.world.sfu.Lacks .third ∧
      (((process env).run beforeProduce (producedUntapped [])).proc .third).produceThrew = true ∧
      ((process env).run beforeProduce (producedUntapped [])).world.sfu.openProducer .first "p"
        .third = some .audio := by
  decide +kernel

end MeetServer.Recording
