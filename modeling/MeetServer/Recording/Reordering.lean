import MeetServer.Recording.Datagrams

/-!
# Packets out of order

A late packet takes `lastRtpTimestamp` back, and the packet after it is then
measured from there.  A recording is as long as the one in order exactly when no
packet lands within the silence limit of the packet delivered before it.
-/

namespace MeetServer.Recording

open MeetServer.Foundation

variable {δ : Type} {env : Env δ} {session : RecordingSession δ} {msgs order : List Bytes}

/-- More than a frame after the packet before it, and within the limit for silence. -/
def JumpsAhead (msg next : Bytes) : Prop :=
  opusFrameSamples < ticks msg next ∧ ticks msg next < maxSilenceGapTicks

instance : DecidableRel JumpsAhead := fun msg next =>
  inferInstanceAs (Decidable (opusFrameSamples < ticks msg next ∧
    ticks msg next < maxSilenceGapTicks))

def NextFrame (msg next : Bytes) : Prop := ticks msg next = opusFrameSamples

theorem NextFrame.not_jumpsAhead {msg next : Bytes} (h : NextFrame msg next) :
    ¬ JumpsAhead msg next := by
  unfold NextFrame at h
  unfold JumpsAhead
  omega

theorem length_silence_eq (msg next : Bytes) :
    (silence (some (rtpTimestamp msg)) (rtpTimestamp next)).toList.flatten.length =
      if JumpsAhead msg next then gapAtTargetRate (ticks msg next) * bytesPerSample else 0 := by
  have hsilence : silence (some (rtpTimestamp msg)) (rtpTimestamp next) =
      if JumpsAhead msg next then
        some (List.replicate (gapAtTargetRate (ticks msg next) * bytesPerSample) 0)
      else none := rfl
  rw [hsilence]
  split <;> simp

theorem length_silence_eq_zero_iff (msg next : Bytes) :
    (silence (some (rtpTimestamp msg)) (rtpTimestamp next)).toList.flatten.length = 0 ↔
      ¬ JumpsAhead msg next := by
  rw [length_silence_eq]
  by_cases hjump : JumpsAhead msg next
  · have hpos := (gapAtTargetRate_bounds hjump.1 hjump.2).1
    simp [hjump, bytesPerSample, hpos.ne']
  · simp [hjump]

theorem silenceBytes_eq_zero_iff (msgs : List Bytes) :
    silenceBytes msgs = 0 ↔ msgs.IsChain fun msg next => ¬ JumpsAhead msg next := by
  induction msgs with
  | nil => simp [silenceBytes]
  | cons msg msgs ih =>
      cases msgs with
      | nil => simp [silenceBytes]
      | cons next msgs =>
          rw [silenceBytes, Nat.add_eq_zero_iff, length_silence_eq_zero_iff, ih,
            List.isChain_cons_cons]

/-- The order of delivery does not show in the length of the recording exactly when
no delivered packet jumps ahead of the one before it. -/
theorem reordering_sameLength_iff (hopen : session.closed = false)
    (hfirst : session.lastRtpTimestamp = none) (hframes : ∀ msg ∈ msgs, CarriesFrame env msg)
    (hstream : msgs.IsChain NextFrame) (horder : order.Perm msgs) :
    (handleRtpPackets env session order).1.bytesWritten =
        (handleRtpPackets env session msgs).1.bytesWritten ↔
      order.IsChain fun msg next => ¬ JumpsAhead msg next := by
  have hframes' : ∀ msg ∈ order, CarriesFrame env msg := fun msg h =>
    hframes msg (horder.mem_iff.1 h)
  have hquiet : silenceBytes msgs = 0 :=
    (silenceBytes_eq_zero_iff msgs).2 (hstream.imp fun _ _ => NextFrame.not_jumpsAhead)
  rw [bytesWritten_of_first hopen hfirst hframes, bytesWritten_of_first hopen hfirst hframes',
    horder.length_eq, hquiet, ← silenceBytes_eq_zero_iff]
  omega

/-- Two packets in the wrong order and nothing after them. -/
theorem reordering_sameLength_of_two :
    (handleRtpPackets steadyDecoder newSession
        [packetAt (3, 192), packetAt (0, 0)]).1.bytesWritten =
      (handleRtpPackets steadyDecoder newSession
        [packetAt (0, 0), packetAt (3, 192)]).1.bytesWritten := by
  obtain ⟨hnext, -, -⟩ := ticks_packetAt
  refine (reordering_sameLength_iff rfl rfl ?_ ?_ ?_).2 ?_
  · simp [packetAt_carriesFrame]
  · simpa [NextFrame, opusFrameSamples] using hnext
  · exact List.Perm.swap ..
  · decide

/-- The first two of three packets arrive in the wrong order: nothing is lost, and
60 ms become 100 ms. -/
theorem reordering_lengthens :
    (∀ msg ∈ [packetAt (0, 0), packetAt (3, 192), packetAt (7, 128)],
        CarriesFrame steadyDecoder msg) ∧
      [packetAt (0, 0), packetAt (3, 192), packetAt (7, 128)].IsChain NextFrame ∧
      ([packetAt (0, 0), packetAt (3, 192), packetAt (7, 128)].map rtpTimestamp).Nodup ∧
      [packetAt (3, 192), packetAt (0, 0), packetAt (7, 128)].Perm
        [packetAt (0, 0), packetAt (3, 192), packetAt (7, 128)] ∧
      (handleRtpPackets steadyDecoder newSession
        [packetAt (0, 0), packetAt (3, 192), packetAt (7, 128)]).1.bytesWritten = 1920 ∧
      (handleRtpPackets steadyDecoder newSession
        [packetAt (3, 192), packetAt (0, 0), packetAt (7, 128)]).1.bytesWritten = 3200 := by
  obtain ⟨hfirst, hsecond, hskip⟩ := ticks_packetAt
  have hframes : ∀ msg ∈ [packetAt (0, 0), packetAt (3, 192), packetAt (7, 128)],
      CarriesFrame steadyDecoder msg := by
    simp [packetAt_carriesFrame]
  have hstream : [packetAt (0, 0), packetAt (3, 192), packetAt (7, 128)].IsChain NextFrame := by
    simp [NextFrame, hfirst, hsecond, opusFrameSamples]
  have horder : [packetAt (3, 192), packetAt (0, 0), packetAt (7, 128)].Perm
      [packetAt (0, 0), packetAt (3, 192), packetAt (7, 128)] := List.Perm.swap ..
  have hinOrder : silenceBytes [packetAt (0, 0), packetAt (3, 192), packetAt (7, 128)] = 0 :=
    (silenceBytes_eq_zero_iff _).2 (hstream.imp fun _ _ => NextFrame.not_jumpsAhead)
  have hback : ¬ JumpsAhead (packetAt (3, 192)) (packetAt (0, 0)) := by decide
  have hjump : JumpsAhead (packetAt (0, 0)) (packetAt (7, 128)) := by decide
  have hsamples : gapAtTargetRate 1920 = 640 := gapAtTargetRate_frames (k := 2) (by omega)
  have hlate : silenceBytes [packetAt (3, 192), packetAt (0, 0), packetAt (7, 128)] = 1280 := by
    simp only [silenceBytes, length_silence_eq, if_neg hback, if_pos hjump, hskip, hsamples,
      bytesPerSample]
  have hopen : newSession.closed = false := rfl
  refine ⟨hframes, hstream, by decide, horder, ?_, ?_⟩
  · rw [bytesWritten_of_first hopen rfl hframes, hinOrder]
    rfl
  · rw [bytesWritten_of_first hopen rfl fun msg h => hframes msg (horder.mem_iff.1 h), hlate]
    rfl

end MeetServer.Recording
