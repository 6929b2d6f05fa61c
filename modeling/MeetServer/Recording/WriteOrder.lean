import MeetServer.Recording.SessionFiles

/-!
# The order of the writes

Nobody awaits the writes of a packet, so a later write may be carried out first.
The history is what the packets have issued, in the order of their arrival; the
data of the file are a prefix of it as long as every write is the one due next.
-/

namespace MeetServer.Recording

open MeetServer.Foundation

variable {δ : Type}

/-- The datagrams that arrive before the session is closed. -/
def arrived : List SessionEvent → List Bytes
  | [] => []
  | .message msg :: events => msg :: arrived events
  | .closeRecordingSession :: _ | .abandon :: _ => []
  | .written _ :: events | .closeStep _ :: events => arrived events

def issue (env : Env δ) (v : SessionFile δ) : SessionEvent → List Bytes → List Bytes
  | .message msg, issued => issued ++ (handleRtpPacket env v.session msg).2
  | _, issued => issued

abbrev issuing (env : Env δ) : System (SessionFile δ × List Bytes) SessionEvent :=
  (sessionFile env).withHistory (issue env)

/-- The write carries out the bytes that arrival order puts at the end of the file. -/
def WritesDue (s : SessionFile δ × List Bytes) : SessionEvent → Prop
  | .written k => ∀ chunk ∈ s.1.handle.writes[k]?,
      chunk <+: s.2.flatten.drop (s.1.handle.position - wavHeaderSize)
  | _ => True

instance (s : SessionFile δ × List Bytes) : ∀ event, Decidable (WritesDue s event)
  | .written _ => inferInstanceAs (Decidable (∀ _ ∈ _, _))
  | .message _ | .closeRecordingSession | .closeStep _ | .abandon => .isTrue trivial

/-! ## What has been issued -/

theorem issue_of_closed (env : Env δ) {v : SessionFile δ} (hclosed : v.session.closed = true)
    (event : SessionEvent) (issued : List Bytes) : issue env v event issued = issued := by
  cases event with
  | message msg => simp [issue, handleRtpPacket_closed env hclosed]
  | written | closeRecordingSession | closeStep | abandon => rfl

/-- A closed session issues nothing more. -/
theorem run_issuing_of_closed (env : Env δ) {s : SessionFile δ × List Bytes}
    (hclosed : s.1.session.closed = true) (events : List SessionEvent) :
    ((issuing env).run s events).2 = s.2 := by
  have hstays : (issuing env).Preserves (fun _ _ => True)
      fun s' => s'.1.session.closed = true ∧ s'.2 = s.2 := by
    intro s₁ event s₂ h₁ _ hstep
    obtain ⟨hfile, hissued⟩ := System.withHistory_step.1 hstep
    rw [(sessionFile_cases hfile).session_of_closed h₁.1, hissued, issue_of_closed env h₁.1]
    exact h₁
  exact (hstays.run ⟨hclosed, rfl⟩ events).2

/-- The operations on the file leave the session and what it has issued as they are. -/
theorem next_issuing_of_operation (env : Env δ) (s : SessionFile δ × List Bytes)
    {e : SessionEvent} (hevent : ∀ msg, e ≠ .message msg)
    (hclose : e ≠ .closeRecordingSession) (habandon : e ≠ .abandon) :
    ((issuing env).next s e).1.session = s.1.session ∧ ((issuing env).next s e).2 = s.2 := by
  cases hstep : (issuing env).step s e with
  | none =>
      rw [System.next_of_disabled hstep]
      exact ⟨rfl, rfl⟩
  | some s' =>
      obtain ⟨hfile, hissued⟩ := System.withHistory_step.1 hstep
      rw [System.next_of_step hstep, hissued]
      generalize s'.1 = v' at hfile
      cases sessionFile_cases hfile with
      | message msg => exact (hevent msg rfl).elim
      | close => exact (hclose rfl).elim
      | abandon => exact (habandon rfl).elim
      | again _ hagain => exact (hagain.elim hclose habandon).elim
      | written | riffSize | dataSize | closed | failed => exact ⟨rfl, rfl⟩

/-- What has been issued are the writes of the datagrams that have arrived. -/
theorem run_issuing (env : Env δ) {s : SessionFile δ × List Bytes}
    (hopen : s.1.session.closed = false) (events : List SessionEvent) :
    ((issuing env).run s events).2 =
      s.2 ++ (handleRtpPackets env s.1.session (arrived events)).2 := by
  induction events generalizing s with
  | nil => simp [arrived, handleRtpPackets, System.run]
  | cons event events ih =>
      rw [System.run_cons]
      cases event with
      | message msg =>
          have hopen' : (s.1.message env msg).session.closed = false :=
            (handleRtpPacket_frame env s.1.session msg).2.1.trans hopen
          exact (ih hopen').trans (List.append_assoc ..)
      | closeRecordingSession =>
          rw [arrived, handleRtpPackets, List.append_nil]
          refine run_issuing_of_closed env ?_ events
          show s.1.closeRecordingSession.session.closed = true
          simp [SessionFile.closeRecordingSession, hopen]
      | abandon =>
          rw [arrived, handleRtpPackets, List.append_nil]
          refine run_issuing_of_closed env ?_ events
          show s.1.abandon.session.closed = true
          simp [SessionFile.abandon, hopen]
      | written k =>
          obtain ⟨hsession, hissued⟩ :=
            next_issuing_of_operation env s (e := .written k) (by simp) (by simp) (by simp)
          rw [ih (by rw [hsession, hopen]), hsession, hissued, arrived]
      | closeStep ok =>
          obtain ⟨hsession, hissued⟩ :=
            next_issuing_of_operation env s (e := .closeStep ok) (by simp) (by simp) (by simp)
          rw [ih (by rw [hsession, hopen]), hsession, hissued, arrived]

/-! ## The data of the file -/

/-- Every byte that has been issued is in the file or on the way there. -/
structure Accounted (s : SessionFile δ × List Bytes) : Prop where
  position : s.1.file.length = s.1.handle.position
  header : wavHeaderSize ≤ s.1.handle.position
  counted : s.1.handle.position + s.1.handle.writes.flatten.length =
    wavHeaderSize + s.2.flatten.length

def InArrivalOrder (s : SessionFile δ × List Bytes) : Prop :=
  s.1.file.drop wavHeaderSize <+: s.2.flatten

namespace Accounted

variable {env : Env δ} {s s' : SessionFile δ × List Bytes} {event : SessionEvent}

theorem opened (env : Env δ) (path : Path) : Accounted (SessionFile.opened env path, []) :=
  ⟨length_buildWavHeader, Nat.le_refl _, rfl⟩

/-- A size is written into the header. -/
theorem patched (h : Accounted s) (closing : Closing) {p : Nat} {b : Bytes}
    (hpos : p + b.length ≤ wavHeaderSize) :
    Accounted ({ s.1 with closing, file := Bytes.writeAt s.1.file p b }, s.2) ∧
      (Bytes.writeAt s.1.file p b).drop wavHeaderSize = s.1.file.drop wavHeaderSize := by
  have hlength : wavHeaderSize ≤ s.1.file.length := h.position ▸ h.header
  refine ⟨⟨?_, h.header, h.counted⟩, Bytes.drop_writeAt hpos hlength⟩
  rw [Bytes.length_writeAt (by omega), ← h.position]
  omega

theorem written (h : Accounted s) {k : Nat} {chunk : Bytes}
    (hchunk : s.1.handle.writes[k]? = some chunk) :
    Accounted (s.1.writeChunk k chunk, s.2) ∧
      (s.1.writeChunk k chunk).file.drop wavHeaderSize =
        s.1.file.drop wavHeaderSize ++ chunk := by
  have hheader := h.header
  have hcounted := h.counted
  have hfile : (s.1.writeChunk k chunk).file = s.1.file ++ chunk := by
    rw [SessionFile.writeChunk, ← h.position]
    exact Bytes.writeAt_length
  refine ⟨⟨?_, ?_, ?_⟩, ?_⟩
  · rw [hfile, List.length_append, h.position]
    rfl
  · exact Nat.le_add_right_of_le hheader
  · rw [← length_flatten_eraseIdx hchunk, ← Nat.add_assoc] at hcounted
    exact hcounted
  · rw [hfile, List.drop_append_of_le_length (h.position ▸ hheader)]

theorem length_data (h : Accounted s) :
    (s.1.file.drop wavHeaderSize).length = s.1.handle.position - wavHeaderSize := by
  rw [List.length_drop, h.position]

theorem length_data_le (h : Accounted s) :
    (s.1.file.drop wavHeaderSize).length ≤ s.2.flatten.length := by
  have hcounted := h.counted
  have hdata := h.length_data
  omega

theorem inArrivalOrder_iff_of_settled (h : Accounted s) (hsettled : s.1.handle.writes = []) :
    InArrivalOrder s ↔ s.1.file.drop wavHeaderSize = s.2.flatten := by
  refine ⟨fun horder => horder.eq_of_length ?_, fun hsame => ?_⟩
  · have hcounted := h.counted
    rw [hsettled] at hcounted
    rw [h.length_data]
    simp only [List.flatten_nil, List.length_nil] at hcounted
    omega
  · rw [InArrivalOrder, hsame]

/-- The order stays right exactly if a write is the one due next. -/
theorem step (h : Accounted s) (hstep : (issuing env).step s event = some s') :
    Accounted s' ∧ (InArrivalOrder s' ↔ InArrivalOrder s ∧ WritesDue s event) := by
  obtain ⟨hfile, hissued⟩ := System.withHistory_step.1 hstep
  obtain ⟨v', issued'⟩ := s'
  subst hissued
  cases sessionFile_cases hfile with
  | message msg =>
      refine ⟨⟨h.position, h.header, ?_⟩, ?_⟩
      · have hcounted := h.counted
        simp only [issue, List.flatten_append, List.length_append]
        omega
      · show InArrivalOrder (_, s.2 ++ (handleRtpPacket env s.1.session msg).2) ↔ _
        rw [InArrivalOrder, List.flatten_append, List.isPrefix_append_of_length h.length_data_le]
        exact (and_iff_left trivial).symm
  | @written k chunk hchunk =>
      obtain ⟨haccounted, hdata⟩ := h.written hchunk
      refine ⟨haccounted, ?_⟩
      have hdue : WritesDue s (.written k) ↔
          chunk <+: s.2.flatten.drop (s.1.handle.position - wavHeaderSize) := by
        simp [WritesDue, hchunk]
      show (s.1.writeChunk k chunk).file.drop wavHeaderSize <+: s.2.flatten ↔ _
      rw [hdue, hdata, Bytes.append_prefix_iff, h.length_data]
      rfl
  | close | abandon | closed | failed =>
      exact ⟨⟨h.position, h.header, h.counted⟩, (and_iff_left trivial).symm⟩
  | again _ hagain =>
      rcases hagain with rfl | rfl <;>
        exact ⟨⟨h.position, h.header, h.counted⟩, (and_iff_left trivial).symm⟩
  | riffSize =>
      obtain ⟨haccounted, hdata⟩ := h.patched .dataSize (p := 4)
        (b := Bytes.toLE 4 (s.1.session.bytesWritten + wavHeaderSize - 8))
        (by simp [wavHeaderSize])
      refine ⟨haccounted, ?_⟩
      show (Bytes.writeAt s.1.file _ _).drop wavHeaderSize <+: s.2.flatten ↔ _
      rw [hdata]
      exact (and_iff_left trivial).symm
  | dataSize =>
      obtain ⟨haccounted, hdata⟩ := h.patched .close (p := 40)
        (b := Bytes.toLE 4 s.1.session.bytesWritten) (by simp [wavHeaderSize])
      refine ⟨haccounted, ?_⟩
      show (Bytes.writeAt s.1.file _ _).drop wavHeaderSize <+: s.2.flatten ↔ _
      rw [hdata]
      exact (and_iff_left trivial).symm

end Accounted

/-- Once every write has settled, the data are the writes of the datagrams in the order of
their arrival, exactly if each of them was due when it was carried out. -/
theorem data_inArrivalOrder_iff (env : Env δ) (path : Path) (events : List SessionEvent)
    (hsettled :
      ((sessionFile env).run (.opened env path) events).handle.writes = []) :
    ((sessionFile env).run (.opened env path) events).file.drop wavHeaderSize =
        (handleRtpPackets env (SessionFile.opened env path).session
          (arrived events)).2.flatten ↔
      (issuing env).Meets WritesDue (SessionFile.opened env path, []) events := by
  have hpreserves : (issuing env).Preserves (fun _ _ => True) Accounted :=
    fun _ _ _ h _ hstep => (h.step hstep).1
  have hopened := Accounted.opened env path
  have hmeets := System.last_iff_meets hpreserves (fun _ _ _ h _ hstep => (h.step hstep).2)
    hopened (show (issuing env).Meets _ _ events from System.meets_of_forall fun _ _ _ => trivial)
  have hstart : InArrivalOrder (SessionFile.opened env path, []) := by
    simp [InArrivalOrder, SessionFile.opened, ← length_buildWavHeader]
  have hend := hpreserves.run hopened events
  have hissued := run_issuing env (s := (SessionFile.opened env path, [])) rfl events
  have hfst : ((issuing env).run (SessionFile.opened env path, []) events).1 =
      (sessionFile env).run (.opened env path) events := System.withHistory_run_fst _ _
  rw [← hfst] at hsettled ⊢
  rw [and_iff_right hstart] at hmeets
  rw [← hmeets, hend.inArrivalOrder_iff_of_settled hsettled, hissued, List.nil_append]

namespace TwoPackets

/-- A frame of 20 ms. -/
def packet (timestamp : UInt8 × UInt8) (sample : UInt8) : Bytes :=
  [0x80, 111, 0, 0, 0, 0, timestamp.1, timestamp.2, 0, 0, 0, 1, 0xF8, sample]

/-- Two packets, whose writes settle before the session is closed. -/
def events (first second : Nat) : List SessionEvent :=
  [.message (packet (0, 0) 1), .message (packet (3, 192) 2), .written first, .written second,
    .closeRecordingSession, .closeStep true, .closeStep true, .closeStep true]

end TwoPackets

open TwoPackets in
theorem data_inArrivalOrder_twoPackets :
    ((sessionFile steadyDecoder).run (.opened steadyDecoder []) (events 0 0)).file.drop
        wavHeaderSize =
      (handleRtpPackets steadyDecoder (SessionFile.opened steadyDecoder []).session
        (arrived (events 0 0))).2.flatten :=
  (data_inArrivalOrder_iff steadyDecoder [] (events 0 0) (by decide +kernel)).2 (by decide +kernel)

open TwoPackets in
/-- The write of the second packet is carried out first. -/
theorem data_notInArrivalOrder_overtaken :
    ((sessionFile steadyDecoder).run (.opened steadyDecoder []) (events 1 0)).handle.writes = [] ∧
      ((sessionFile steadyDecoder).run (.opened steadyDecoder []) (events 1 0)).file.drop
          wavHeaderSize ≠
        (handleRtpPackets steadyDecoder (SessionFile.opened steadyDecoder []).session
          (arrived (events 1 0))).2.flatten := by
  decide +kernel

/-! ## Oldest first -/

/-- A write is carried out only if it has been under way for the longest. -/
def SessionEvent.OldestFirst : SessionEvent → Prop
  | .written k => k = 0
  | _ => True

/-- The data of the file, and then the writes under way, are what has been issued. -/
def Queued (s : SessionFile δ × List Bytes) : Prop :=
  s.2.flatten = s.1.file.drop wavHeaderSize ++ s.1.handle.writes.flatten

theorem Queued.step {env : Env δ} {s s' : SessionFile δ × List Bytes} {event : SessionEvent}
    (h : Queued s) (haccounted : Accounted s) (holdest : event.OldestFirst)
    (hstep : (issuing env).step s event = some s') : Queued s' := by
  obtain ⟨hfile, hissued⟩ := System.withHistory_step.1 hstep
  obtain ⟨v', issued'⟩ := s'
  subst hissued
  unfold Queued at h ⊢
  cases sessionFile_cases hfile with
  | message msg => simp [issue, h]
  | @written k chunk hchunk =>
      obtain rfl : k = 0 := holdest
      obtain ⟨rest, hwrites⟩ : ∃ rest, s.1.handle.writes = chunk :: rest := by
        cases hwrites : s.1.handle.writes with
        | nil => simp [hwrites] at hchunk
        | cons first rest =>
            obtain rfl : first = chunk := by simpa [hwrites] using hchunk
            exact ⟨rest, rfl⟩
      have hdata := (haccounted.written hchunk).2
      rw [SessionFile.writeChunk] at hdata
      show s.2.flatten = _
      rw [h, hdata, hwrites]
      simp
  | close | abandon | closed | failed => exact h
  | again _ hagain => rcases hagain with rfl | rfl <;> exact h
  | riffSize =>
      show s.2.flatten = (Bytes.writeAt s.1.file _ _).drop wavHeaderSize ++ _
      rw [(haccounted.patched .dataSize (by simp [wavHeaderSize])).2]
      exact h
  | dataSize =>
      show s.2.flatten = (Bytes.writeAt s.1.file _ _).drop wavHeaderSize ++ _
      rw [(haccounted.patched .dataSize (by simp [wavHeaderSize])).2]
      exact h

theorem Queued.writesDue {s : SessionFile δ × List Bytes} {event : SessionEvent}
    (h : Queued s) (haccounted : Accounted s) (holdest : event.OldestFirst) :
    WritesDue s event := by
  cases event with
  | written k =>
      obtain rfl : k = 0 := holdest
      intro chunk hchunk
      have hlength := haccounted.length_data
      rw [h, List.drop_left' hlength]
      cases hwrites : s.1.handle.writes with
      | nil => simp [hwrites] at hchunk
      | cons first rest =>
          obtain rfl : first = chunk := by simpa [hwrites] using hchunk
          exact List.prefix_append ..
  | message | closeRecordingSession | closeStep | abandon => trivial

/-- Writes that are carried out one after the other are all due. -/
theorem writesDue_of_oldestFirst (env : Env δ) (path : Path) {events : List SessionEvent}
    (holdest : ∀ event ∈ events, event.OldestFirst) :
    (issuing env).Meets WritesDue (SessionFile.opened env path, []) events := by
  have hmeets : (issuing env).Meets (fun _ event => event.OldestFirst)
      (SessionFile.opened env path, []) events :=
    System.meets_of_forall fun event hevent _ => holdest event hevent
  have hqueued : Queued (SessionFile.opened env path, []) := by
    simp [Queued, SessionFile.opened, ← length_buildWavHeader]
  refine hmeets.along (I := fun s => Accounted s ∧ Queued s) ?_ ?_
    ⟨Accounted.opened env path, hqueued⟩
  · exact fun s event s' h hevent hstep =>
      ⟨(h.1.step hstep).1, h.2.step h.1 hevent hstep⟩
  · exact fun s event s' h hevent _ => h.2.writesDue h.1 hevent

end MeetServer.Recording
