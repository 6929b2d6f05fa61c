import MeetServer.Recording.Rtcp

/-!
# The origin of the timestamps

A sender starts its clock anywhere.  Two runs whose clocks differ by a constant,
modulo `2 ^ 32`, stay in step: `handleRtpPacket` only ever looks at differences.
-/

namespace MeetServer.Recording

open MeetServer.Foundation

variable {δ : Type} {c : Nat} {msg : Bytes}

/-- `c` ticks later on a clock of 32 bits. -/
def later (c timestamp : Nat) : Nat := (timestamp + c) % 2 ^ 32

/-- The datagram of a sender whose clock is `c` ahead. -/
def shiftTimestamp (c : Nat) (msg : Bytes) : Bytes :=
  if rtpHeaderMinSize ≤ msg.length then
    msg.take 4 ++ Bytes.toBE 4 (later c (rtpTimestamp msg)) ++ msg.drop 8
  else msg

def RecordingSession.shift (c : Nat) (session : RecordingSession δ) : RecordingSession δ :=
  { session with lastRtpTimestamp := session.lastRtpTimestamp.map (later c) }

def RecordingSession.InRange (session : RecordingSession δ) : Prop :=
  ∀ last ∈ session.lastRtpTimestamp, last < 2 ^ 32

theorem rtpTimestamp_lt (msg : Bytes) : rtpTimestamp msg < 2 ^ 32 := by
  have hlength : (Bytes.slice msg 4 4).length ≤ 4 := List.length_take_le ..
  calc
    rtpTimestamp msg < 256 ^ (Bytes.slice msg 4 4).length := Bytes.ofBE_lt _
    _ ≤ 256 ^ 4 := Nat.pow_le_pow_right (by omega) hlength

/-! ## The shifted datagram -/

@[simp] theorem length_shiftTimestamp : (shiftTimestamp c msg).length = msg.length := by
  unfold shiftTimestamp
  split
  · next h =>
    rw [rtpHeaderMinSize] at h
    simp only [List.length_append, List.length_take, Bytes.length_toBE, List.length_drop]
    omega
  · rfl

theorem drop_shiftTimestamp {pos : Nat} (h : 8 ≤ pos) :
    (shiftTimestamp c msg).drop pos = msg.drop pos := by
  unfold shiftTimestamp
  split
  · next hlong =>
    rw [rtpHeaderMinSize] at hlong
    have hhead : (msg.take 4 ++ Bytes.toBE 4 (later c (rtpTimestamp msg))).length = 8 := by
      simp only [List.length_append, List.length_take, Bytes.length_toBE]
      omega
    rw [← Nat.add_sub_of_le h, ← hhead, List.drop_length_add_append]
    simp
  · rfl

theorem slice_shiftTimestamp {pos length : Nat} (h : 8 ≤ pos ∨ pos + length ≤ 4) :
    Bytes.slice (shiftTimestamp c msg) pos length = Bytes.slice msg pos length := by
  rcases h with h | h
  · rw [Bytes.slice, Bytes.slice, drop_shiftTimestamp h]
  · unfold shiftTimestamp
    split
    · next hlong =>
      rw [rtpHeaderMinSize] at hlong
      have hfront : (msg.take 4).length = 4 := by simp; omega
      have hmsg : Bytes.slice msg pos length = Bytes.slice (msg.take 4) pos length := by
        conv_lhs => rw [← List.take_append_drop 4 msg]
        exact Bytes.slice_append_left (by omega) _
      rw [List.append_assoc, Bytes.slice_append_left (by omega), hmsg]
    · rfl

theorem payloadOffset_shiftTimestamp :
    payloadOffset (shiftTimestamp c msg) = payloadOffset msg := by
  have hextension (n : Nat) : Bytes.slice (shiftTimestamp c msg) (rtpHeaderMinSize + n + 2) 2 =
      Bytes.slice msg (rtpHeaderMinSize + n + 2) 2 := by
    apply slice_shiftTimestamp
    rw [rtpHeaderMinSize]
    omega
  unfold payloadOffset
  rw [length_shiftTimestamp, slice_shiftTimestamp (.inr (by omega : 0 + 1 ≤ 4))]
  simp only [hextension]

theorem rtpTimestamp_shiftTimestamp (h : rtpHeaderMinSize ≤ msg.length) :
    rtpTimestamp (shiftTimestamp c msg) = later c (rtpTimestamp msg) := by
  have hfront : (msg.take 4).length = 4 := by
    rw [rtpHeaderMinSize] at h
    simp
    omega
  have hfield : Bytes.slice (shiftTimestamp c msg) 4 4 =
      Bytes.toBE 4 (later c (rtpTimestamp msg)) := by
    rw [shiftTimestamp, if_pos h, List.append_assoc]
    exact Bytes.slice_field hfront (Bytes.length_toBE ..)
  rw [rtpTimestamp, hfield]
  exact Bytes.ofBE_toBE 4 (Nat.mod_lt _ (by omega))

theorem silence_later {timestamp : Nat} {last : Option Nat} (hlast : ∀ t ∈ last, t < 2 ^ 32)
    (htimestamp : timestamp < 2 ^ 32) :
    silence (last.map (later c)) (later c timestamp) = silence last timestamp := by
  cases last with
  | none => rfl
  | some last =>
      have hgap : (later c timestamp + 2 ^ 32 - later c last) % 2 ^ 32 =
          (timestamp + 2 ^ 32 - last) % 2 ^ 32 := by
        have := hlast last rfl
        unfold later
        omega
      simp only [silence, Option.map_some, hgap]

/-! ## Two runs in step -/

variable {session : RecordingSession δ} (env : Env δ)

theorem handleRtpPacket_shift (hrange : session.InRange) (msg : Bytes) :
    handleRtpPacket env (session.shift c) (shiftTimestamp c msg) =
      ((handleRtpPacket env session msg).1.shift c, (handleRtpPacket env session msg).2) := by
  cases hoffset : payloadOffset msg with
  | none =>
      simp [handleRtpPacket, payloadOffset_shiftTimestamp, hoffset]
  | some offset =>
      obtain ⟨hheader, hlength⟩ := payloadOffset_bounds hoffset
      have htimestamp := rtpTimestamp_shiftTimestamp (c := c) (hheader.trans hlength.le)
      have hsilence := silence_later (c := c) hrange (rtpTimestamp_lt msg)
      have hdrop : (shiftTimestamp c msg).drop offset = msg.drop offset := by
        apply drop_shiftTimestamp
        rw [rtpHeaderMinSize] at hheader
        omega
      simp only [rtpTimestamp] at htimestamp hsilence
      simp only [handleRtpPacket, payloadOffset_shiftTimestamp, hoffset, hdrop,
        RecordingSession.shift, hsilence, htimestamp]
      split <;> rfl

theorem handleRtpPacket_inRange (hrange : session.InRange) (msg : Bytes) :
    (handleRtpPacket env session msg).1.InRange := by
  unfold handleRtpPacket
  split
  · exact hrange
  · split
    · exact hrange
    · intro last hlast
      cases hlast
      exact rtpTimestamp_lt msg

theorem handleRtpPackets_shift (hrange : session.InRange) (msgs : List Bytes) :
    handleRtpPackets env (session.shift c) (msgs.map (shiftTimestamp c)) =
      ((handleRtpPackets env session msgs).1.shift c, (handleRtpPackets env session msgs).2) := by
  induction msgs generalizing session with
  | nil => rfl
  | cons msg msgs ih =>
      have hone := handleRtpPacket_shift (c := c) env hrange msg
      have hrest := ih (handleRtpPacket_inRange env hrange msg)
      simp only [List.map_cons, handleRtpPackets, hone, hrest]

/-- The same writes and the same length, wherever the sender's clock started. -/
theorem origin_immaterial (c : Nat) (msgs : List Bytes) (outputPath : Path) (decoder : δ) :
    let session : RecordingSession δ := { outputPath := outputPath, decoder := decoder }
    let original := handleRtpPackets env session msgs
    let shifted := handleRtpPackets env session (msgs.map (shiftTimestamp c))
    shifted.2 = original.2 ∧ shifted.1.bytesWritten = original.1.bytesWritten ∧
      shifted.1.lastRtpTimestamp =
        original.1.lastRtpTimestamp.map fun last => (last + c) % 2 ^ 32 := by
  intro session original shifted
  have hrange : session.InRange := by
    intro last hlast
    cases hlast
  have hshift : shifted = (original.1.shift c, original.2) :=
    handleRtpPackets_shift (c := c) env hrange msgs
  rw [hshift]
  exact ⟨rfl, rfl, rfl⟩

end MeetServer.Recording
