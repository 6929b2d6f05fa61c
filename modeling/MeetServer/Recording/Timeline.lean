import Mathlib.Tactic.Linarith
import MeetServer.Recording.Packets

/-!
# The timeline of a recording

Every packet carries one frame, and the timestamps of consecutive packets are
whole frames apart.  Silence for the whole gap is written next to the frame
that covers the first 20 ms of it, so each gap moves the rest of the recording
by one frame.
-/

namespace MeetServer.Recording

open MeetServer.Foundation

variable {δ : Type}

/-! ## Doubles that are natural numbers -/

theorem log_natCast_le {n : Nat} (hfits : n < 2 ^ 53) : Int.log 2 (n : ℚ) ≤ 52 := by
  rw [Int.log_natCast]
  have hlog : Nat.log 2 n < 53 := by
    by_cases h : n = 0
    · simp [h]
    · exact (Nat.log_lt_iff_lt_pow (by omega) h).2 hfits
  omega

theorem toDouble_natCast {n : Nat} (hfits : n < 2 ^ 53) : toDouble (n : ℚ) = n := by
  obtain ⟨k, hk⟩ := Int.eq_ofNat_of_zero_le (sub_nonneg.2 (log_natCast_le hfits))
  have hulp : (2 : ℚ) ^ (Int.log 2 (n : ℚ) - 52) = ((2 : ℚ) ^ k)⁻¹ := by
    rw [← zpow_natCast, ← zpow_neg]
    congr 1
    omega
  have hscaled : (n : ℚ) / ((2 : ℚ) ^ k)⁻¹ = ((n * 2 ^ k : Nat) : ℚ) := by
    rw [div_inv_eq_mul]
    push_cast
    rfl
  have hfloor : ⌊((n * 2 ^ k : Nat) : ℚ)⌋ = ((n * 2 ^ k : Nat) : Int) := Int.floor_natCast _
  simp only [toDouble, hulp, hscaled, hfloor]
  rw [if_pos (.inl (by norm_num))]
  push_cast
  field_simp

theorem gapAtTargetRate_frames {k : Nat} (h : k < 2 ^ 32) :
    gapAtTargetRate (960 * k) = 320 * k := by
  have hgap : ((960 * k : Nat) : ℚ) / opusFrameSamples = k := by
    rw [opusFrameSamples]
    push_cast
    field_simp
  have hsamples : (k : ℚ) * targetFrameSamples = ((320 * k : Nat) : ℚ) := by
    rw [targetFrameSamples]
    push_cast
    ring
  rw [gapAtTargetRate, hgap, toDouble_natCast (by omega), hsamples,
    toDouble_natCast (by omega), Nat.floor_natCast]

/-! ## Doubles near a rational number -/

theorem abs_toDouble_sub_le {q : ℚ} (hq : 0 < q) : |toDouble q - q| ≤ q / 2 ^ 52 := by
  have hsmall : (2 : ℚ) ^ (Int.log 2 q - 52) ≤ q / 2 ^ 52 := by
    have hlog := Int.zpow_log_le_self (b := 2) (by omega) hq
    rw [zpow_sub₀ (by norm_num)]
    exact div_le_div_of_nonneg_right (by exact_mod_cast hlog) (by norm_num)
  refine le_trans ?_ hsmall
  have hulp : (0 : ℚ) < 2 ^ (Int.log 2 q - 52) := zpow_pos (by norm_num) _
  simp only [toDouble]
  generalize (2 : ℚ) ^ (Int.log 2 q - 52) = ulp at *
  have hlow := Int.floor_le (q / ulp)
  have hhigh := Int.lt_floor_add_one (q / ulp)
  rw [le_div_iff₀ hulp] at hlow
  rw [div_lt_iff₀ hulp] at hhigh
  rw [abs_le]
  split <;> push_cast <;> constructor <;> linarith

/-- Both roundings together move a gap by less than one part in `2 ^ 50`. -/
theorem abs_samples_sub_le {gap : Nat} (hpos : 0 < gap) :
    |toDouble (toDouble (gap / opusFrameSamples) * targetFrameSamples) - (gap : ℚ) / 3| ≤
      gap / 2 ^ 52 := by
  rw [opusFrameSamples, targetFrameSamples]
  have hgap : (0 : ℚ) < gap := by exact_mod_cast hpos
  have hframes := abs_le.1 (abs_toDouble_sub_le (q := (gap : ℚ) / 960) (by positivity))
  push_cast
  generalize toDouble ((gap : ℚ) / 960) = frames at *
  have hpos : 0 < frames * 320 := by linarith [hframes.1]
  have hsamples := abs_le.1 (abs_toDouble_sub_le hpos)
  generalize toDouble (frames * 320) = samples at *
  rw [abs_le]
  constructor <;> linarith [hframes.1, hframes.2, hsamples.1, hsamples.2]

/-- Silence is never empty, and less than a second of samples. -/
theorem gapAtTargetRate_bounds {gap : Nat} (hlong : opusFrameSamples < gap)
    (hlimit : gap < maxSilenceGapTicks) :
    0 < gapAtTargetRate gap ∧ gapAtTargetRate gap < sampleRate := by
  rw [opusFrameSamples] at hlong
  rw [maxSilenceGapTicks] at hlimit
  have hpos : 0 < gap := by omega
  have hnear := abs_le.1 (abs_samples_sub_le hpos)
  have hlow : (960 : ℚ) < gap := by exact_mod_cast hlong
  have hhigh : (gap : ℚ) ≤ 47999 := by exact_mod_cast (by omega : gap ≤ 47999)
  rw [gapAtTargetRate, sampleRate, Nat.floor_pos, Nat.floor_lt' (by norm_num)]
  push_cast
  constructor <;> linarith [hnear.1, hnear.2]

/-! ## The clock of the packets -/

def rtpTimestamp (msg : Bytes) : Nat := Bytes.ofBE (Bytes.slice msg 4 4)

/-- From one packet to the next, on a clock of 32 bits. -/
def ticks (msg next : Bytes) : Nat := (rtpTimestamp next + 2 ^ 32 - rtpTimestamp msg) % 2 ^ 32

def elapsed : List Bytes → Nat
  | msg :: next :: msgs => ticks msg next + elapsed (next :: msgs)
  | _ => 0

/-- The packets that are more than one frame after the one before. -/
def gaps : List Bytes → Nat
  | msg :: next :: msgs =>
      (if opusFrameSamples < ticks msg next then 1 else 0) + gaps (next :: msgs)
  | _ => 0

/-- The silence that is written between the packets. -/
def silenceBytes : List Bytes → Nat
  | msg :: next :: msgs =>
      (silence (some (rtpTimestamp msg)) (rtpTimestamp next)).toList.flatten.length +
        silenceBytes (next :: msgs)
  | _ => 0

/-- Whole frames apart, and less than the limit for silence. -/
def FramesApart (msg next : Bytes) : Prop :=
  0 < ticks msg next ∧ opusFrameSamples ∣ ticks msg next ∧
    ticks msg next < maxSilenceGapTicks

/-- An RTP packet whose payload is one frame of 20 ms. -/
def CarriesFrame (env : Env δ) (msg : Bytes) : Prop :=
  ∃ offset, payloadOffset msg = some offset ∧ ∀ decoder, ∃ pcm,
    (env.decode decoder (msg.drop offset)).2 = some pcm ∧
      pcm.length = targetFrameSamples * bytesPerSample

/-- The sizes of the silence in bytes. -/
theorem length_silence {msg next : Bytes} (h : FramesApart msg next) :
    (silence (some (rtpTimestamp msg)) (rtpTimestamp next)).toList.flatten.length =
      if opusFrameSamples < ticks msg next then 2 * (ticks msg next / 3) else 0 := by
  obtain ⟨-, ⟨k, hk⟩, hlimit⟩ := h
  rw [opusFrameSamples] at hk
  rw [maxSilenceGapTicks] at hlimit
  have hgap : (rtpTimestamp next + 2 ^ 32 - rtpTimestamp msg) % 2 ^ 32 = 960 * k := hk
  simp only [silence, hgap, hk]
  split
  next h =>
    rw [if_pos h.1, gapAtTargetRate_frames (by omega), bytesPerSample]
    simp
    omega
  next h =>
    rw [if_neg (fun hlong => h ⟨hlong, by rw [maxSilenceGapTicks]; omega⟩)]
    rfl

/-! ## One packet, and the whole stream -/

section Stream

variable {env : Env δ} {session : RecordingSession δ} {msg next : Bytes}
  {msgs : List Bytes}

theorem handleRtpPacket_of_carriesFrame (hopen : session.closed = false)
    (hframe : CarriesFrame env msg) :
    (handleRtpPacket env session msg).1.bytesWritten =
        session.bytesWritten +
          (silence session.lastRtpTimestamp (rtpTimestamp msg)).toList.flatten.length + 640 ∧
      (handleRtpPacket env session msg).1.lastRtpTimestamp = some (rtpTimestamp msg) ∧
      (handleRtpPacket env session msg).1.closed = false := by
  obtain ⟨offset, hoffset, hdecode⟩ := hframe
  obtain ⟨pcm, hpcm, hlength⟩ := hdecode session.decoder
  rw [targetFrameSamples, bytesPerSample] at hlength
  simp [handleRtpPacket, hopen, hoffset, hpcm, hlength, rtpTimestamp, Nat.add_assoc]

theorem elapsed_cons (h : FramesApart msg next) :
    elapsed (msg :: next :: msgs) / 3 =
      ticks msg next / 3 + elapsed (next :: msgs) / 3 := by
  obtain ⟨-, ⟨k, hk⟩, -⟩ := h
  rw [opusFrameSamples] at hk
  rw [elapsed, hk]
  omega

/-- Every gap adds a frame too much. -/
theorem silenceBytes_of_framesApart (happart : (msg :: msgs).IsChain FramesApart) :
    silenceBytes (msg :: msgs) + 640 * msgs.length =
      2 * (elapsed (msg :: msgs) / 3) + 640 * gaps (msg :: msgs) := by
  induction msgs generalizing msg with
  | nil => simp [silenceBytes, elapsed, gaps]
  | cons next msgs ih =>
      obtain ⟨hnext, hrest⟩ := List.isChain_cons_cons.1 happart
      have hstream := ih hrest
      rw [silenceBytes, length_silence hnext, elapsed_cons hnext, gaps, List.length_cons]
      obtain ⟨hpos, ⟨k, hk⟩, -⟩ := hnext
      rw [opusFrameSamples] at hk ⊢
      split <;> omega

theorem bytesWritten_handleRtpPackets (hopen : session.closed = false)
    (hlast : session.lastRtpTimestamp = some (rtpTimestamp msg))
    (hframes : ∀ next ∈ msgs, CarriesFrame env next) :
    (handleRtpPackets env session msgs).1.bytesWritten =
      session.bytesWritten + silenceBytes (msg :: msgs) + 640 * msgs.length := by
  induction msgs generalizing session msg with
  | nil => simp [handleRtpPackets, silenceBytes]
  | cons next msgs ih =>
      obtain ⟨hbytes, hlast', hopen'⟩ := handleRtpPacket_of_carriesFrame hopen
        (hframes next (List.mem_cons_self ..))
      have hstream := ih hopen' hlast' fun other h => hframes other (.tail _ h)
      rw [hlast] at hbytes
      rw [handleRtpPackets, hstream, hbytes, silenceBytes, List.length_cons]
      omega

/-- One frame for each packet, and the silence between them. -/
theorem bytesWritten_of_first (hopen : session.closed = false)
    (hfirst : session.lastRtpTimestamp = none) (hframes : ∀ msg ∈ msgs, CarriesFrame env msg) :
    (handleRtpPackets env session msgs).1.bytesWritten =
      session.bytesWritten + silenceBytes msgs + 640 * msgs.length := by
  cases msgs with
  | nil => simp [handleRtpPackets, silenceBytes]
  | cons msg msgs =>
      obtain ⟨hbytes, hlast, hopen'⟩ := handleRtpPacket_of_carriesFrame hopen
        (hframes msg (List.mem_cons_self ..))
      have hstream := bytesWritten_handleRtpPackets hopen' hlast
        fun next h => hframes next (.tail _ h)
      have hnone : silence none (rtpTimestamp msg) = none := rfl
      rw [hfirst, hnone] at hbytes
      rw [handleRtpPackets, hstream, hbytes, List.length_cons]
      simp only [Option.toList_none, List.flatten_nil, List.length_nil]
      omega

theorem gaps_eq_zero_iff (happart : (msg :: msgs).IsChain FramesApart) :
    gaps (msg :: msgs) = 0 ↔
      (msg :: msgs).IsChain fun msg next => ticks msg next = opusFrameSamples := by
  induction msgs generalizing msg with
  | nil => simp [gaps]
  | cons next msgs ih =>
      obtain ⟨⟨hpos, ⟨k, hk⟩, -⟩, hrest⟩ := List.isChain_cons_cons.1 happart
      rw [gaps, List.isChain_cons_cons, Nat.add_eq_zero_iff, ih hrest]
      refine and_congr_left fun _ => ?_
      rw [opusFrameSamples] at hk ⊢
      split <;> omega

theorem bytesWritten_of_fresh (hopen : session.closed = false)
    (hempty : session.bytesWritten = 0) (hfirst : session.lastRtpTimestamp = none)
    (hframes : ∀ next ∈ msg :: msgs, CarriesFrame env next)
    (happart : (msg :: msgs).IsChain FramesApart) :
    (handleRtpPackets env session (msg :: msgs)).1.bytesWritten =
      640 + 2 * (elapsed (msg :: msgs) / 3) + 640 * gaps (msg :: msgs) := by
  have hsilence := silenceBytes_of_framesApart happart
  rw [bytesWritten_of_first hopen hfirst hframes, hempty, List.length_cons]
  omega

/-- Without loss or suppression, and only then, every sample is written where
its timestamp says. -/
theorem bytesWritten_follows_clock_iff (hopen : session.closed = false)
    (hempty : session.bytesWritten = 0) (hfirst : session.lastRtpTimestamp = none)
    (hframes : ∀ next ∈ msg :: msgs, CarriesFrame env next)
    (happart : (msg :: msgs).IsChain FramesApart) :
    (handleRtpPackets env session (msg :: msgs)).1.bytesWritten =
        bytesPerSample * (elapsed (msg :: msgs) / 3 + targetFrameSamples) ↔
      (msg :: msgs).IsChain fun msg next => ticks msg next = opusFrameSamples := by
  rw [bytesWritten_of_fresh hopen hempty hfirst hframes happart, ← gaps_eq_zero_iff happart,
    bytesPerSample, targetFrameSamples]
  omega

end Stream

/-! ## One packet is lost -/

/-- A packet without extension, whose payload is a silent frame of 20 ms. -/
def packetAt (timestamp : UInt8 × UInt8) : Bytes :=
  [0x80, 111, 0, 0, 0, 0, timestamp.1, timestamp.2, 0, 0, 0, 1, 0xF8]

theorem packetAt_carriesFrame (timestamp : UInt8 × UInt8) :
    CarriesFrame steadyDecoder (packetAt timestamp) := by
  refine ⟨12, by simp [packetAt, payloadOffset, Bytes.slice, Bytes.ofBE, Bytes.ofLE,
    rtpHeaderMinSize], fun _ => ⟨List.replicate 640 0, rfl, ?_⟩⟩
  rw [List.length_replicate, targetFrameSamples, bytesPerSample]

def newSession : RecordingSession Unit := { outputPath := [], decoder := () }

theorem ticks_packetAt :
    ticks (packetAt (0, 0)) (packetAt (3, 192)) = 960 ∧
      ticks (packetAt (3, 192)) (packetAt (7, 128)) = 960 ∧
      ticks (packetAt (0, 0)) (packetAt (7, 128)) = 1920 := by
  decide

theorem bytesWritten_follows_clock_of_three :
    (handleRtpPackets steadyDecoder newSession
        [packetAt (0, 0), packetAt (3, 192), packetAt (7, 128)]).1.bytesWritten =
      bytesPerSample * (elapsed [packetAt (0, 0), packetAt (3, 192), packetAt (7, 128)] / 3 +
        targetFrameSamples) := by
  obtain ⟨hfirst, hsecond, -⟩ := ticks_packetAt
  refine (bytesWritten_follows_clock_iff rfl rfl rfl ?_ ?_).2 ?_
  · simp [packetAt_carriesFrame]
  · simp [FramesApart, hfirst, hsecond, opusFrameSamples, maxSilenceGapTicks]
  · simp [hfirst, hsecond, opusFrameSamples]

/-- The second of three packets is lost: 80 ms are written for 60 ms. -/
theorem bytesWritten_ahead_of_clock :
    (∀ msg ∈ [packetAt (0, 0), packetAt (7, 128)], CarriesFrame steadyDecoder msg) ∧
      [packetAt (0, 0), packetAt (7, 128)].IsChain FramesApart ∧
      (handleRtpPackets steadyDecoder newSession
        [packetAt (0, 0), packetAt (7, 128)]).1.bytesWritten = 2560 ∧
      bytesPerSample * (elapsed [packetAt (0, 0), packetAt (7, 128)] / 3 +
        targetFrameSamples) = 1920 := by
  obtain ⟨-, -, hticks⟩ := ticks_packetAt
  have hframes : ∀ msg ∈ [packetAt (0, 0), packetAt (7, 128)],
      CarriesFrame steadyDecoder msg := by
    simp [packetAt_carriesFrame]
  have happart : [packetAt (0, 0), packetAt (7, 128)].IsChain FramesApart := by
    simp [FramesApart, hticks, opusFrameSamples, maxSilenceGapTicks]
  have hopen : newSession.closed = false := rfl
  rw [bytesWritten_of_fresh hopen rfl rfl hframes happart]
  refine ⟨hframes, happart, ?_, ?_⟩
  · simp [elapsed, gaps, hticks, opusFrameSamples]
  · simp [elapsed, hticks, bytesPerSample, targetFrameSamples]

end MeetServer.Recording
