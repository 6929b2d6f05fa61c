import MeetServer.Foundation.Riff
import MeetServer.Recording.Finalising
import MeetServer.Recording.WriteOrder

/-!
# What a player finds

A file that has been closed is a WAVE file whose samples are what the packets
have issued.  A frame is played when its timestamp says, and 20 ms later for
every gap before it; between the frames there is silence.
-/

namespace MeetServer.Recording

open MeetServer.Foundation

variable {δ : Type}

/-! ## The header and the samples -/

def pcmFormat : PcmFormat := { channels, sampleRate, bitsPerSample }

/-- `buildWavHeader` with the sizes that closing writes into it. -/
def wavHeader (riffSize dataSize : Nat) : Bytes :=
  riffId ++ (Bytes.toLE 4 riffSize ++ (waveId ++ formatId ++ Bytes.toLE 4 16 ++
    pcmFormat.encode ++ dataId ++ Bytes.toLE 4 dataSize))

theorem buildWavHeader_eq : buildWavHeader = wavHeader 0 0 := by decide

theorem length_wavHeader (riffSize dataSize : Nat) :
    (wavHeader riffSize dataSize).length = wavHeaderSize := by
  simp [wavHeader, riffId, waveId, formatId, dataId, PcmFormat.length_encode, wavHeaderSize]

theorem wavHeader_append (data : Bytes) :
    wavHeader (36 + data.length) data.length ++ data = encodeWave pcmFormat data := by
  simp only [wavHeader, encodeWave, List.append_assoc]

theorem writeAt_riffSize (riffSize dataSize n : Nat) (data : Bytes) :
    Bytes.writeAt (wavHeader riffSize dataSize ++ data) 4 (Bytes.toLE 4 n) =
      wavHeader n dataSize ++ data := by
  have hfront (size : Nat) : wavHeader size dataSize ++ data =
      riffId ++ (Bytes.toLE 4 size ++ ((waveId ++ formatId ++ Bytes.toLE 4 16 ++
        pcmFormat.encode ++ dataId ++ Bytes.toLE 4 dataSize) ++ data)) := by
    simp only [wavHeader, List.append_assoc]
  rw [hfront, hfront, Bytes.writeAt_field ?_ (by simp)]
  rfl

theorem writeAt_dataSize (riffSize dataSize n : Nat) (data : Bytes) :
    Bytes.writeAt (wavHeader riffSize dataSize ++ data) 40 (Bytes.toLE 4 n) =
      wavHeader riffSize n ++ data := by
  have hfront (size : Nat) : wavHeader riffSize size ++ data =
      (riffId ++ (Bytes.toLE 4 riffSize ++ (waveId ++ formatId ++ Bytes.toLE 4 16 ++
        pcmFormat.encode ++ dataId))) ++ (Bytes.toLE 4 size ++ data) := by
    simp only [wavHeader, List.append_assoc]
  rw [hfront, hfront, Bytes.writeAt_field ?_ (by simp)]
  simp [riffId, waveId, formatId, dataId, PcmFormat.length_encode]

/-- The sizes that are in the header by now. -/
def Closing.sizes (n : Nat) : Closing → Nat × Nat
  | .dataSize => (n + wavHeaderSize - 8, 0)
  | .close | .closed => (n + wavHeaderSize - 8, n)
  | .no | .riffSize | .threw | .abandoned => (0, 0)

/-- The file is its header and then the samples. -/
structure Playable (s : SessionFile δ × List Bytes) : Prop where
  accounted : Accounted s
  counted : s.1.session.bytesWritten = s.2.flatten.length
  order : InArrivalOrder s
  closed : s.1.closing ≠ .no → s.1.session.closed = true
  settled : s.1.closing = .closed → s.1.handle.writes = []
  fits : s.1.closing = .no ∨ s.1.closing = .threw ∨ s.1.closing = .abandoned ∨
    s.1.session.bytesWritten + wavHeaderSize - 8 < 2 ^ 32
  file : ∃ data, s.1.file =
    wavHeader (s.1.closing.sizes s.1.session.bytesWritten).1
      (s.1.closing.sizes s.1.session.bytesWritten).2 ++ data

namespace Playable

variable {env : Env δ} {s s' : SessionFile δ × List Bytes} {event : SessionEvent}

theorem opened (env : Env δ) (path : Path) : Playable (SessionFile.opened env path, []) where
  accounted := .opened env path
  counted := rfl
  order := by simp [InArrivalOrder, SessionFile.opened, ← length_buildWavHeader]
  closed h := (h rfl).elim
  settled := by rintro ⟨⟩
  fits := .inl rfl
  file := ⟨[], by rw [List.append_nil]; exact buildWavHeader_eq⟩

theorem step (h : Playable s) (hsucceeds : event.Succeeds) (hdue : WritesDue s event)
    (hstep : (issuing env).step s event = some s') : Playable s' := by
  obtain ⟨haccounted, horder⟩ := h.accounted.step hstep
  have horder := horder.2 ⟨h.order, hdue⟩
  obtain ⟨hfile, hissued⟩ := System.withHistory_step.1 hstep
  obtain ⟨v', issued'⟩ := s'
  subst hissued
  obtain ⟨data, hdata⟩ := h.file
  have hopen (hclosed : s.1.session.closed = false) : s.1.closing = .no := by
    by_contra hno
    cases hclosed.symm.trans (h.closed hno)
  cases sessionFile_cases hfile with
  | message msg =>
      cases hclosed : s.1.session.closed with
      | true =>
          show Playable (s.1.message env msg, issue env s.1 (.message msg) s.2)
          rw [SessionFile.message_of_closed env hclosed, issue_of_closed env hclosed]
          exact h
      | false =>
          have hno := hopen hclosed
          obtain ⟨-, hsame, hbytes⟩ := handleRtpPacket_frame env s.1.session msg
          refine ⟨haccounted, ?_, horder, fun hne => (hne hno).elim, fun heq => ?_, .inl hno,
            data, ?_⟩
          · show (handleRtpPacket env s.1.session msg).1.bytesWritten = _
            rw [hbytes, h.counted, issue, List.flatten_append, List.length_append]
          · cases hno.symm.trans heq
          · show s.1.file = wavHeader (s.1.closing.sizes _).1 (s.1.closing.sizes _).2 ++ data
            rw [hno] at hdata ⊢
            exact hdata
  | @written k chunk hchunk =>
      refine ⟨haccounted, h.counted, horder, h.closed, fun heq => ?_, h.fits,
        data ++ chunk, ?_⟩
      · rw [h.settled heq] at hchunk
        cases hchunk
      · have happended : Bytes.writeAt s.1.file s.1.handle.position chunk =
            s.1.file ++ chunk := by
          rw [← h.accounted.position]
          exact Bytes.writeAt_length
        refine happended.trans ?_
        rw [hdata, List.append_assoc]
  | close hclosed =>
      rw [hopen hclosed] at hdata
      refine ⟨haccounted, h.counted, horder, fun _ => rfl, fun heq => ?_, ?_, data, ?_⟩
      · have hbegin : s.1.session.beginClosing = .closed := heq
        unfold RecordingSession.beginClosing at hbegin
        split at hbegin <;> cases hbegin
      · show s.1.session.beginClosing = .no ∨ _
        unfold RecordingSession.beginClosing
        split
        · next hfits => exact .inr (.inr (.inr hfits))
        · exact .inr (.inl rfl)
      · show s.1.file = wavHeader (s.1.session.beginClosing.sizes _).1 _ ++ data
        rw [hdata]
        unfold RecordingSession.beginClosing
        split <;> rfl
  | abandon hclosed =>
      rw [hopen hclosed] at hdata
      exact ⟨haccounted, h.counted, horder, fun _ => rfl, by simp, .inr (.inr (.inl rfl)),
        data, hdata⟩
  | again _ hagain =>
      rcases hagain with rfl | rfl <;> exact h
  | riffSize hclosing =>
      rw [hclosing] at hdata
      refine ⟨haccounted, h.counted, horder, fun _ => ?_, by simp, ?_, data, ?_⟩
      · exact h.closed (by simp [hclosing])
      · have hfits := h.fits
        rw [hclosing] at hfits
        simpa using hfits
      · rw [hdata]
        exact writeAt_riffSize 0 0 _ data
  | dataSize hclosing =>
      rw [hclosing] at hdata
      refine ⟨haccounted, h.counted, horder, fun _ => ?_, by simp, ?_, data, ?_⟩
      · exact h.closed (by simp [hclosing])
      · have hfits := h.fits
        rw [hclosing] at hfits
        simpa using hfits
      · rw [hdata]
        exact writeAt_dataSize _ 0 _ data
  | closed hclosing hwrites =>
      rw [hclosing] at hdata
      refine ⟨haccounted, h.counted, horder, fun _ => ?_, fun _ => hwrites, ?_, data, hdata⟩
      · exact h.closed (by simp [hclosing])
      · have hfits := h.fits
        rw [hclosing] at hfits
        simpa using hfits
  | failed => cases hsucceeds

theorem preserves (env : Env δ) : (issuing env).Preserves
    (fun s event => event.Succeeds ∧ WritesDue s event)
    fun s : SessionFile δ × List Bytes => Playable s :=
  fun _ _ _ h hC hstep => h.step hC.1 hC.2 hstep

/-- A closed file says what the packets have issued. -/
theorem decodeWave?_file (h : Playable s) (hclosed : s.1.closing = .closed)
    (heven : s.2.flatten.length % 2 = 0) :
    decodeWave? s.1.file = some (pcmFormat, s.2.flatten) := by
  have hcounted := h.counted
  have hfits := h.fits
  obtain ⟨data, hdata⟩ := h.file
  rw [hclosed] at hdata hfits
  have hissued : data = s.2.flatten := by
    have hsame := (h.accounted.inArrivalOrder_iff_of_settled (h.settled hclosed)).1 h.order
    rw [hdata, List.drop_left' (length_wavHeader _ _)] at hsame
    exact hsame
  have hsizes : s.1.session.bytesWritten + wavHeaderSize - 8 = 36 + s.2.flatten.length := by
    rw [hcounted, wavHeaderSize]
    omega
  simp only [reduceCtorEq, false_or, hsizes] at hfits
  have hfile : s.1.file = encodeWave pcmFormat s.2.flatten := by
    rw [hdata, hissued, ← wavHeader_append, ← hsizes, hcounted]
    rfl
  rw [hfile]
  refine decodeWave?_encodeWave ⟨?_, ?_, ?_⟩ heven (by omega) <;>
    simp [pcmFormat, channels, sampleRate, bitsPerSample]

end Playable

/-! ## Where the frames are -/

section Frames

variable {env : Env δ} {session : RecordingSession δ} {msg : Bytes} {msgs : List Bytes}

theorem handleRtpPackets_append (env : Env δ) (session : RecordingSession δ)
    (first second : List Bytes) : handleRtpPackets env session (first ++ second) =
      ((handleRtpPackets env (handleRtpPackets env session first).1 second).1,
        (handleRtpPackets env session first).2 ++
          (handleRtpPackets env (handleRtpPackets env session first).1 second).2) := by
  induction first generalizing session with
  | nil => rfl
  | cons msg first ih =>
      simp only [List.cons_append, handleRtpPackets, ih, List.append_assoc]

theorem bytesWritten_eq_add (env : Env δ) (session : RecordingSession δ) (msgs : List Bytes) :
    (handleRtpPackets env session msgs).1.bytesWritten =
      session.bytesWritten + (handleRtpPackets env session msgs).2.flatten.length := by
  induction msgs generalizing session with
  | nil => rfl
  | cons msg msgs ih =>
      rw [handleRtpPackets, ih, (handleRtpPacket_frame env session msg).2.2]
      simp only [List.flatten_append, List.length_append, Nat.add_assoc]

/-- What the decoder makes of a packet after those before it. -/
def frame (env : Env δ) (session : RecordingSession δ) (before : List Bytes) (msg : Bytes) :
    Bytes :=
  (env.decode (handleRtpPackets env session before).1.decoder
    (msg.drop ((payloadOffset msg).getD 0))).2.getD []

/-- The byte at which the last of the packets is played. -/
def startOf (msgs : List Bytes) : Nat :=
  bytesPerSample * (elapsed msgs / 3 + targetFrameSamples * gaps msgs)

/-- Every frame is at its place, and the rest is silence. -/
structure Plays (env : Env δ) (session : RecordingSession δ) (msgs : List Bytes)
    (data : Bytes) : Prop where
  frames : ∀ before msg after, msgs = before ++ msg :: after →
    Bytes.slice data (startOf (before ++ [msg])) (targetFrameSamples * bytesPerSample) =
      frame env session before msg
  silent : ∀ i < data.length, (∀ before msg after, msgs = before ++ msg :: after →
      i < startOf (before ++ [msg]) ∨
        startOf (before ++ [msg]) + targetFrameSamples * bytesPerSample ≤ i) →
    data[i]? = some 0

theorem exists_silence (last : Option Nat) (timestamp : Nat) :
    ∃ n, (silence last timestamp).toList.flatten = List.replicate n 0 := by
  unfold silence
  split
  · exact ⟨0, rfl⟩
  · dsimp only
    split
    · exact ⟨_, List.append_nil _⟩
    · exact ⟨0, rfl⟩

theorem handleRtpPacket_frames (hopen : session.closed = false) (hframe : CarriesFrame env msg) :
    ∃ n, (handleRtpPacket env session msg).2.flatten =
      List.replicate n 0 ++ frame env session [] msg ∧
        (frame env session [] msg).length = targetFrameSamples * bytesPerSample := by
  obtain ⟨offset, hoffset, hdecode⟩ := hframe
  obtain ⟨pcm, hpcm, hlength⟩ := hdecode session.decoder
  obtain ⟨n, hsilence⟩ := exists_silence session.lastRtpTimestamp (rtpTimestamp msg)
  have hframe : frame env session [] msg = pcm := by
    simp [frame, handleRtpPackets, hoffset, hpcm]
  refine ⟨n, ?_, by rw [hframe, hlength]⟩
  rw [hframe, ← hsilence]
  simp [handleRtpPacket, hopen, hoffset, hpcm, rtpTimestamp]

/-- The stream up to a packet ends with its frame. -/
theorem length_flatten_of_fresh (hopen : session.closed = false)
    (hempty : session.bytesWritten = 0) (hfirst : session.lastRtpTimestamp = none)
    (hframes : ∀ next ∈ msgs, CarriesFrame env next) (happart : msgs.IsChain FramesApart)
    (hne : msgs ≠ []) : (handleRtpPackets env session msgs).2.flatten.length =
      startOf msgs + targetFrameSamples * bytesPerSample := by
  obtain ⟨msg, msgs, rfl⟩ := List.exists_cons_of_ne_nil hne
  have hbytes := bytesWritten_of_fresh hopen hempty hfirst hframes happart
  rw [bytesWritten_eq_add, hempty] at hbytes
  simp only [startOf, targetFrameSamples, bytesPerSample]
  omega

theorem Plays.nil : Plays env session [] [] where
  frames before msg after h := by simp at h
  silent i hi := by simp at hi

/-- The next packet adds silence and its frame. -/
theorem Plays.snoc {data : Bytes} {n : Nat} {next : Bytes} (h : Plays env session msgs data)
    (hstart : startOf (msgs ++ [next]) = data.length + n)
    (hlength : (frame env session msgs next).length = targetFrameSamples * bytesPerSample)
    (hbefore : ∀ before msg after, msgs = before ++ msg :: after →
      startOf (before ++ [msg]) + targetFrameSamples * bytesPerSample ≤ data.length) :
    Plays env session (msgs ++ [next])
      (data ++ (List.replicate n 0 ++ frame env session msgs next)) := by
  constructor
  · intro before msg after hmsgs
    rcases List.eq_nil_or_concat' after with rfl | ⟨after, last, rfl⟩
    · obtain ⟨rfl, hnext⟩ := List.append_inj' hmsgs rfl
      obtain rfl : next = msg := by simpa using hnext
      have hfront : (data ++ List.replicate n 0).length = startOf (msgs ++ [next]) := by
        rw [hstart, List.length_append, List.length_replicate]
      rw [← List.append_assoc, Bytes.slice, List.drop_left' hfront,
        List.take_of_length_le hlength.le]
    · rw [← List.cons_append, ← List.append_assoc] at hmsgs
      obtain ⟨hmsgs, -⟩ := List.append_inj' hmsgs rfl
      rw [Bytes.slice_append_left (hbefore before msg after hmsgs)]
      exact h.frames before msg after hmsgs
  · intro i hi hsilent
    by_cases hold : i < data.length
    · rw [List.getElem?_append_left hold]
      refine h.silent i hold fun before msg after hmsgs => ?_
      exact hsilent before msg (after ++ [next]) (by simp [hmsgs])
    · have hlast := hsilent msgs next [] rfl
      simp only [List.length_append, List.length_replicate, hlength] at hi
      have hzero : i - data.length < n := by omega
      rw [List.getElem?_append_right (by omega), List.getElem?_append_left (by simpa using hzero),
        List.getElem?_replicate, if_pos hzero]

theorem plays_of_fresh (hopen : session.closed = false) (hempty : session.bytesWritten = 0)
    (hfirst : session.lastRtpTimestamp = none) (hframes : ∀ next ∈ msgs, CarriesFrame env next)
    (happart : msgs.IsChain FramesApart) :
    Plays env session msgs (handleRtpPackets env session msgs).2.flatten := by
  induction msgs using List.reverseRecOn with
  | nil => exact .nil
  | append_singleton msgs next ih =>
      have hframes' : ∀ msg ∈ msgs, CarriesFrame env msg := fun msg h =>
        hframes msg (List.mem_append_left _ h)
      have happart' : msgs.IsChain FramesApart := happart.left_of_append
      have hlast : (handleRtpPackets env session msgs).1.closed = false := by
        rw [handleRtpPackets_closed, hopen]
      obtain ⟨n, hwrites, hlength⟩ := handleRtpPacket_frames hlast
        (hframes next (List.mem_append_right _ (List.mem_singleton_self next)))
      have hdata : (handleRtpPackets env session (msgs ++ [next])).2.flatten =
          (handleRtpPackets env session msgs).2.flatten ++
            (List.replicate n 0 ++ frame env session msgs next) := by
        rw [handleRtpPackets_append, List.flatten_append]
        congr 1
        refine Eq.trans ?_ hwrites
        simp [handleRtpPackets]
      have hend := length_flatten_of_fresh hopen hempty hfirst hframes happart (by simp)
      have hlength' : (frame env session msgs next).length = targetFrameSamples * bytesPerSample :=
        hlength
      rw [hdata]
      refine (ih hframes' happart').snoc ?_ hlength' fun before msg after hmsgs => ?_
      · rw [hdata] at hend
        simp only [List.length_append, List.length_replicate, hlength'] at hend
        omega
      · have hsplit : msgs = (before ++ [msg]) ++ after := by simp [hmsgs]
        rw [hsplit] at hframes' happart'
        have hprefix := length_flatten_of_fresh hopen hempty hfirst
          (fun other h => hframes' other (List.mem_append_left _ h)) happart'.left_of_append
          (by simp)
        rw [hsplit, handleRtpPackets_append, List.flatten_append, List.length_append, hprefix]
        exact Nat.le_add_right ..

theorem length_flatten_even (hopen : session.closed = false)
    (hempty : session.bytesWritten = 0) (hfirst : session.lastRtpTimestamp = none)
    (hframes : ∀ next ∈ msgs, CarriesFrame env next) (happart : msgs.IsChain FramesApart) :
    (handleRtpPackets env session msgs).2.flatten.length % 2 = 0 := by
  by_cases hne : msgs = []
  · subst hne
    rfl
  · rw [length_flatten_of_fresh hopen hempty hfirst hframes happart hne, startOf, bytesPerSample]
    omega

end Frames

/-- A session whose packets each carry a frame and come whole frames apart leaves, once it
is closed, a WAVE file in which every frame is at its place and the rest is silence. -/
theorem recording_plays (env : Env δ) (path : Path) {events : List SessionEvent}
    (hsucceed : ∀ event ∈ events, event.Succeeds)
    (hdue : (issuing env).Meets WritesDue (SessionFile.opened env path, []) events)
    (hframes : ∀ msg ∈ arrived events, CarriesFrame env msg)
    (happart : (arrived events).IsChain FramesApart)
    (hclosed : ((sessionFile env).run (.opened env path) events).closing = .closed) :
    ∃ data, decodeWave? ((sessionFile env).run (.opened env path) events).file =
        some (pcmFormat, data) ∧
      Plays env (SessionFile.opened env path).session (arrived events) data := by
  have hmeets : (issuing env).Meets (fun _ event => event.Succeeds)
      (SessionFile.opened env path, []) events :=
    System.meets_of_forall fun event hevent _ => hsucceed event hevent
  have hplayable := ((hmeets.and hdue).holds (Playable.preserves env) (fun _ h => h)
    (Playable.opened env path)).last
  have hissued := run_issuing env (s := (SessionFile.opened env path, [])) rfl events
  have hfst : ((issuing env).run (SessionFile.opened env path, []) events).1 =
      (sessionFile env).run (.opened env path) events := System.withHistory_run_fst _ _
  have hplays : Plays env (SessionFile.opened env path).session (arrived events) _ :=
    plays_of_fresh rfl rfl rfl hframes happart
  rw [List.nil_append] at hissued
  refine ⟨_, ?_, hplays⟩
  rw [← hfst, ← hissued]
  refine hplayable.decodeWave?_file (by rw [hfst, hclosed]) ?_
  rw [hissued]
  exact length_flatten_even rfl rfl rfl hframes happart

/-- Two packets arrive, and the session is closed after their writes. -/
def twoFrames : List SessionEvent :=
  [.message (packetAt (0, 0)), .message (packetAt (3, 192)), .written 0, .written 0,
    .closeRecordingSession, .closeStep true, .closeStep true, .closeStep true]

theorem recording_plays_twoFrames :
    ∃ data, decodeWave? ((sessionFile steadyDecoder).run (.opened steadyDecoder [])
          twoFrames).file = some (pcmFormat, data) ∧
      Plays steadyDecoder (SessionFile.opened steadyDecoder []).session
        (arrived twoFrames) data := by
  have hnext := ticks_packetAt.1
  refine recording_plays steadyDecoder [] ?_ ?_ ?_ ?_ (by decide +kernel)
  · simp [twoFrames, SessionEvent.Succeeds]
  · exact writesDue_of_oldestFirst steadyDecoder [] (by simp [twoFrames, SessionEvent.OldestFirst])
  · simp [twoFrames, arrived, packetAt_carriesFrame]
  · simp [twoFrames, arrived, FramesApart, hnext, opusFrameSamples, maxSilenceGapTicks]

end MeetServer.Recording
