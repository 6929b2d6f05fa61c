import MeetServer.Recording.Rtcp

/-!
# Any datagram

Every sender can reach the port of a tap, and nothing catches what its message
handler throws.  Here each read of `handleRtpPacket` is checked against the end
of the datagram; no check fails, whatever has been received.
-/

namespace MeetServer.Recording

open MeetServer.Foundation

variable {δ : Type}

/-- Where `readUInt16BE` and `readUInt32BE` throw, and `msg[0]` is `undefined`. -/
structure OutOfRange where
  offset : Nat
  width : Nat
  length : Nat
deriving Repr, DecidableEq

def readUIntBE (msg : Bytes) (offset width : Nat) : Except OutOfRange Nat :=
  if offset + width ≤ msg.length then .ok (Bytes.ofBE (Bytes.slice msg offset width))
  else .error ⟨offset, width, msg.length⟩

/-- The guards of `handleRtpPacket` up to `payloadOffset >= msg.length`. -/
def readPayloadOffset (msg : Bytes) : Except OutOfRange (Option Nat) :=
  if msg.length < rtpHeaderMinSize then return none
  else do
    let firstByte ← readUIntBE msg 0 1
    if firstByte / 64 % 4 ≠ 2 then return none
    else
      let csrcCount := firstByte % 16
      let payloadOffset := rtpHeaderMinSize + csrcCount * 4
      if firstByte / 16 % 2 = 1 then
        if msg.length < payloadOffset + 4 then return none
        else do
          let extensionLength ← readUIntBE msg (payloadOffset + 2) 2
          let payloadOffset := payloadOffset + (4 + extensionLength * 4)
          if payloadOffset ≥ msg.length then return none else return some payloadOffset
      else if payloadOffset ≥ msg.length then return none
      else return some payloadOffset

def handleRtpDatagram (env : Env δ) (session : RecordingSession δ) (msg : Bytes) :
    Except OutOfRange (RecordingSession δ × List Bytes) :=
  if session.closed then return (session, [])
  else do
    match ← readPayloadOffset msg with
    | none => return (session, [])
    | some payloadOffset =>
        let rtpTimestamp ← readUIntBE msg 4 4
        let opusPayload := msg.drop payloadOffset
        let (session, gapWrites) :=
          match silence session.lastRtpTimestamp rtpTimestamp with
          | none => (session, [])
          | some zeros =>
              ({ session with bytesWritten := session.bytesWritten + zeros.length }, [zeros])
        let session := { session with lastRtpTimestamp := some rtpTimestamp }
        let (decoder, pcm) := env.decode session.decoder opusPayload
        let session := { session with decoder := decoder }
        match pcm with
        | none => return (session, gapWrites)
        | some pcm =>
            return ({ session with bytesWritten := session.bytesWritten + pcm.length },
              gapWrites ++ [pcm])

/-! ## No check fails -/

variable {msg : Bytes}

theorem readUIntBE_bind {β : Type} {offset width : Nat} {f : Nat → Except OutOfRange β}
    (h : offset + width ≤ msg.length) :
    readUIntBE msg offset width >>= f = f (Bytes.ofBE (Bytes.slice msg offset width)) := by
  rw [readUIntBE, if_pos h]
  rfl

theorem readPayloadOffset_eq (msg : Bytes) :
    readPayloadOffset msg = .ok (payloadOffset msg) := by
  unfold readPayloadOffset payloadOffset
  by_cases hshort : msg.length < rtpHeaderMinSize
  · rw [if_pos hshort, if_pos hshort]
    rfl
  · have hfirst : 0 + 1 ≤ msg.length := by
      rw [rtpHeaderMinSize] at hshort
      omega
    rw [if_neg hshort, if_neg hshort, readUIntBE_bind hfirst]
    generalize Bytes.ofBE (Bytes.slice msg 0 1) = firstByte
    by_cases hextension : msg.length < rtpHeaderMinSize + firstByte % 16 * 4 + 4
    · simp only [hextension, if_true, pure, Except.pure]
      grind
    · have hlength : rtpHeaderMinSize + firstByte % 16 * 4 + 2 + 2 ≤ msg.length := by omega
      simp only [readUIntBE_bind hlength, pure, Except.pure]
      grind

theorem handleRtpDatagram_eq (env : Env δ) (session : RecordingSession δ) (msg : Bytes) :
    handleRtpDatagram env session msg = .ok (handleRtpPacket env session msg) := by
  unfold handleRtpDatagram handleRtpPacket
  split
  · rfl
  · cases hoffset : payloadOffset msg with
    | none =>
        rw [readPayloadOffset_eq, hoffset]
        rfl
    | some offset =>
        obtain ⟨hheader, hlength⟩ := payloadOffset_bounds hoffset
        rw [rtpHeaderMinSize] at hheader
        rw [readPayloadOffset_eq, hoffset]
        change readUIntBE msg 4 4 >>= _ = _
        rw [readUIntBE_bind (by omega)]
        generalize Bytes.ofBE (Bytes.slice msg 4 4) = rtpTimestamp
        cases hgap : silence session.lastRtpTimestamp rtpTimestamp <;>
          cases hpcm : (env.decode session.decoder (msg.drop offset)).2 <;>
          simp [hgap, hpcm, pure, Except.pure, Nat.add_assoc]

/-! ## What a datagram does -/

/-- Too short, of another version, or all header. -/
def Malformed (msg : Bytes) : Prop :=
  msg.length < rtpHeaderMinSize ∨ firstByte msg / 64 % 4 ≠ 2 ∨ TooShortForRtp msg

instance : DecidablePred Malformed := fun msg =>
  inferInstanceAs (Decidable (msg.length < rtpHeaderMinSize ∨ firstByte msg / 64 % 4 ≠ 2 ∨
    TooShortForRtp msg))

theorem payloadOffset_of_malformed (h : Malformed msg) : payloadOffset msg = none := by
  by_cases hversion : firstByte msg / 64 % 4 = 2
  · rw [payloadOffset_eq_none_iff hversion]
    rcases h with hlength | hother | hshort
    · apply Nat.le_trans hlength.le
      unfold headerEnd
      dsimp only
      split <;> omega
    · exact absurd hversion hother
    · exact hshort
  · rw [firstByte] at hversion
    unfold payloadOffset
    split
    · rfl
    · exact if_pos hversion

theorem payloadOffset_of_not_malformed (h : ¬ Malformed msg) :
    payloadOffset msg = some (headerEnd msg) := by
  simp only [Malformed, not_or, not_not] at h
  rw [payloadOffset_eq h.2.1, if_neg h.2.2]

theorem handleRtpPacket_of_malformed (env : Env δ) (session : RecordingSession δ)
    (h : Malformed msg) : handleRtpPacket env session msg = (session, []) := by
  simp [handleRtpPacket, payloadOffset_of_malformed h]

theorem length_silence_bounds {last : Option Nat} {timestamp : Nat} {zeros : Bytes}
    (h : silence last timestamp = some zeros) : 0 < zeros.length ∧ zeros.length < 32000 := by
  unfold silence at h
  split at h
  · cases h
  · dsimp only at h
    split at h
    · next hgap =>
      obtain ⟨hpos, hlimit⟩ := gapAtTargetRate_bounds hgap.1 hgap.2
      rw [sampleRate] at hlimit
      cases h
      rw [List.length_replicate, bytesPerSample]
      omega
    · cases h

/-- Whatever arrives, no read is out of range; a closed session and a malformed
datagram change nothing, and everything else is counted as it is written. -/
theorem handleRtpDatagram_harmless (env : Env δ) (session : RecordingSession δ) (msg : Bytes) :
    ∃ session' writes, handleRtpDatagram env session msg = .ok (session', writes) ∧
      (session.closed ∨ Malformed msg → session' = session ∧ writes = []) ∧
      (session.closed = false → ¬ Malformed msg →
        ∃ gap pcm : Option Bytes, writes = gap.toList ++ pcm.toList ∧
          gap = silence session.lastRtpTimestamp (rtpTimestamp msg) ∧
          pcm = (env.decode session.decoder (msg.drop (headerEnd msg))).2 ∧
          session'.bytesWritten = session.bytesWritten + writes.flatten.length ∧
          gap.toList.flatten.length < 32000) := by
  refine ⟨(handleRtpPacket env session msg).1, (handleRtpPacket env session msg).2,
    handleRtpDatagram_eq env session msg, ?_, ?_⟩
  · rintro (hclosed | hmalformed)
    · simp [handleRtpPacket_closed env hclosed]
    · simp [handleRtpPacket_of_malformed env session hmalformed]
  · intro hopen hwell
    refine ⟨silence session.lastRtpTimestamp (rtpTimestamp msg),
      (env.decode session.decoder (msg.drop (headerEnd msg))).2, ?_, rfl, rfl,
      (handleRtpPacket_frame env session msg).2.2, ?_⟩
    · simp [handleRtpPacket, hopen, payloadOffset_of_not_malformed hwell, rtpTimestamp]
    · cases hgap : silence session.lastRtpTimestamp (rtpTimestamp msg) with
      | none => simp
      | some zeros => simpa using (length_silence_bounds hgap).2

end MeetServer.Recording
