import Mathlib.Data.Fintype.Prod
import MeetServer.Recording.Paths

/-!
# The sizes in the header

`closeRecordingSession` patches the two sizes into the header, and
`MediaRoom.stopPeerRecording` does not.  The invariant relates the file of a
session to the bytes it has counted, up to the writes that are under way.
-/

namespace MeetServer.Recording

open MeetServer.Foundation

variable {Ref δ : Type}

/-! ## The file of a session -/

/-- The sizes that the closing has written for `n` bytes. -/
def Closing.Patched (file : Bytes) (n : Nat) : Closing → Prop
  | .no => True
  | .riffSize => n + wavHeaderSize - 8 < 2 ^ 32
  | .dataSize =>
      n + wavHeaderSize - 8 < 2 ^ 32 ∧
        Bytes.ofLE (Bytes.slice file 4 4) = n + wavHeaderSize - 8
  | .close | .closed =>
      n + wavHeaderSize - 8 < 2 ^ 32 ∧
        Bytes.ofLE (Bytes.slice file 4 4) = n + wavHeaderSize - 8 ∧
        Bytes.ofLE (Bytes.slice file 40 4) = n
  | .threw => ¬ n + wavHeaderSize - 8 < 2 ^ 32
  | .abandoned => False

/-- What a session has counted is in its file or on the way there. -/
structure RecordingSession.Filed (session : RecordingSession δ) (closing : Closing)
    (handle : FileHandle) (file : Bytes) : Prop where
  position : file.length = handle.position
  header : wavHeaderSize ≤ handle.position
  counted : handle.position + handle.writes.flatten.length =
    wavHeaderSize + session.bytesWritten
  recording : closing = .no ↔ session.closed = false
  patched : closing.Patched file session.bytesWritten

namespace Closing

variable {closing : Closing} {file file' : Bytes} {n : Nat}

theorem Patched.of_slices (h : closing.Patched file n)
    (hriff : Bytes.slice file' 4 4 = Bytes.slice file 4 4)
    (hdata : Bytes.slice file' 40 4 = Bytes.slice file 40 4) :
    closing.Patched file' n := by
  cases closing <;> simp only [Patched, hriff, hdata] at h ⊢ <;> exact h

end Closing

theorem length_flatten_eraseIdx {writes : List Bytes} {k : Nat} {chunk : Bytes}
    (h : writes[k]? = some chunk) :
    chunk.length + (writes.eraseIdx k).flatten.length = writes.flatten.length := by
  induction writes generalizing k with
  | nil => simp at h
  | cons first rest ih =>
      cases k with
      | zero =>
          obtain rfl : first = chunk := by simpa using h
          simp
      | succ k =>
          have hrest := ih (k := k) (by simpa using h)
          simp only [List.eraseIdx_cons_succ, List.flatten_cons, List.length_append]
          omega

namespace RecordingSession.Filed

variable {session : RecordingSession δ} {closing : Closing} {handle : FileHandle}
  {file : Bytes}

theorem new (path path' : Path) (decoder : δ) (hfile : file.length = wavHeaderSize) :
    ({ outputPath := path, decoder } : RecordingSession δ).Filed .no
      { path := path', position := wavHeaderSize } file :=
  ⟨hfile, Nat.le_refl _, rfl, ⟨fun _ => rfl, fun _ => rfl⟩, trivial⟩

theorem message (h : session.Filed closing handle file) (env : Env δ) (msg : Bytes) :
    (handleRtpPacket env session msg).1.Filed closing
      { handle with writes := handle.writes ++ (handleRtpPacket env session msg).2 }
      file := by
  by_cases hclosed : session.closed
  · rw [handleRtpPacket_closed env hclosed]
    simpa using h
  · obtain ⟨-, hsame, hbytes⟩ := handleRtpPacket_frame env session msg
    have hno : closing = .no := h.recording.2 (by simpa using hclosed)
    subst hno
    refine ⟨h.position, h.header, ?_, ?_, trivial⟩
    · have hcounted := h.counted
      rw [hbytes, List.flatten_append, List.length_append, ← Nat.add_assoc, hcounted,
        Nat.add_assoc]
    · rw [hsame]
      exact h.recording

theorem written (h : session.Filed closing handle file) {k : Nat} {chunk : Bytes}
    (hchunk : handle.writes[k]? = some chunk) :
    session.Filed closing
      { handle with
        position := handle.position + chunk.length
        writes := handle.writes.eraseIdx k }
      (Bytes.writeAt file handle.position chunk) := by
  have hheader := h.header
  have hle : handle.position ≤ file.length := h.position.ge
  refine ⟨?_, Nat.le_add_right_of_le hheader, ?_, h.recording, ?_⟩
  · rw [Bytes.length_writeAt hle, h.position]
    exact Nat.max_eq_right (Nat.le_add_right _ _)
  · have hcounted := h.counted
    rw [← length_flatten_eraseIdx hchunk, ← Nat.add_assoc] at hcounted
    exact hcounted
  · rw [wavHeaderSize] at hheader
    exact h.patched.of_slices (Bytes.slice_writeAt_of_disjoint hle (.inl (by omega)))
      (Bytes.slice_writeAt_of_disjoint hle (.inl (by omega)))

theorem close (h : session.Filed closing handle file) :
    ({ session with closed := true } : RecordingSession δ).Filed session.beginClosing
      handle file := by
  refine ⟨h.position, h.header, h.counted, ?_, ?_⟩
  · unfold beginClosing
    split <;> simp
  · unfold beginClosing
    split
    · assumption
    · assumption

theorem riffSize (h : session.Filed .riffSize handle file) :
    session.Filed .dataSize handle (Bytes.writeAt file 4
      (Bytes.toLE 4 (session.bytesWritten + wavHeaderSize - 8))) := by
  have hlength : 44 ≤ file.length := h.position ▸ h.header
  have hfits : session.bytesWritten + wavHeaderSize - 8 < 2 ^ 32 := h.patched
  generalize hsize : Bytes.toLE 4 (session.bytesWritten + wavHeaderSize - 8) = size
  have hwidth : size.length = 4 := by rw [← hsize, Bytes.length_toLE]
  have hslice : Bytes.slice (Bytes.writeAt file 4 size) 4 size.length = size :=
    Bytes.slice_writeAt (by omega)
  refine ⟨?_, h.header, h.counted, by simpa using h.recording, hfits, ?_⟩
  · rw [Bytes.length_writeAt (by omega), ← h.position]
    omega
  · rw [hwidth] at hslice
    rw [hslice, ← hsize, Bytes.ofLE_toLE 4 hfits]

theorem dataSize (h : session.Filed .dataSize handle file) :
    session.Filed .close handle
      (Bytes.writeAt file 40 (Bytes.toLE 4 session.bytesWritten)) := by
  have hlength : 44 ≤ file.length := h.position ▸ h.header
  obtain ⟨hfits, hriff⟩ := h.patched
  have hbytes : session.bytesWritten < 256 ^ 4 := by
    rw [wavHeaderSize] at hfits
    omega
  generalize hsize : Bytes.toLE 4 session.bytesWritten = size
  have hwidth : size.length = 4 := by rw [← hsize, Bytes.length_toLE]
  have hslice : Bytes.slice (Bytes.writeAt file 40 size) 40 size.length = size :=
    Bytes.slice_writeAt (by omega)
  refine ⟨?_, h.header, h.counted, by simpa using h.recording, hfits, ?_, ?_⟩
  · rw [Bytes.length_writeAt (by omega), ← h.position]
    omega
  · rw [Bytes.slice_writeAt_of_disjoint (by omega) (.inl (by omega)), hriff]
  · rw [hwidth] at hslice
    rw [hslice, ← hsize, Bytes.ofLE_toLE 4 hbytes]

theorem closed (h : session.Filed .close handle file) :
    session.Filed .closed handle file :=
  ⟨h.position, h.header, h.counted, by simpa using h.recording, h.patched⟩

end RecordingSession.Filed

/-! ## The files of the taps -/

/-- The header is being written, or the socket is being bound. -/
def TapPoint.preparesFile : TapPoint Ref → Bool
  | .writeHeader | .bind => true
  | _ => false

/-- The tap has a session, or may still get one for its file. -/
def Tap.Records (tap : Tap Ref δ) : Prop := tap.session.isSome ∨ tap.point.preparesFile

/-- The file of a tap, at each point. -/
structure Tap.Wav (disk : Path → Bytes) (tap : Tap Ref δ) : Prop where
  writeHeader : tap.point = .writeHeader → ∀ handle, tap.fileHandle = some handle →
    handle = { path := handle.path } ∧ disk handle.path = []
  bind : tap.point = .bind → ∀ handle, tap.fileHandle = some handle →
    handle = { path := handle.path, position := wavHeaderSize } ∧
      (disk handle.path).length = wavHeaderSize
  unrecorded : tap.session = none → tap.closing = .no ∧
    ∀ handle, tap.fileHandle = some handle → handle.writes = []
  session : ∀ session, tap.session = some session → tap.point.preparesFile = false ∧
    ∃ handle, tap.fileHandle = some handle ∧
      session.Filed tap.closing handle (disk handle.path)

/-- Every tap has its file for itself. -/
structure State.Headers (s : State Ref δ) : Prop where
  wav : s.Taps (Tap.Wav s.disk)
  apart : ∀ t t' tap tap' handle handle', t ≠ t' → s.tap t = some tap →
    s.tap t' = some tap' → tap.Records → tap'.Records → tap.fileHandle = some handle →
    tap'.fileHandle = some handle' → handle.path ≠ handle'.path

theorem Tap.New.not_records {tap : Tap Ref δ} (h : tap.New) : ¬ tap.Records := by
  obtain ⟨closing, hpoint⟩ := h.point
  rintro (hsome | hprepares)
  · rw [h.session] at hsome
    cases hsome
  · rw [hpoint] at hprepares
    cases hprepares

theorem Tap.Stops.records {A : Prop} {tap tap' : Tap Ref δ} (h : tap.Stops A tap')
    (hrecords : tap'.Records) : tap.Records := by
  rw [Tap.Records, h.point] at hrecords
  refine hrecords.imp_left fun hsome => ?_
  rcases h.session with ⟨hsame, -⟩ | ⟨x, hx, -⟩
  · rw [← hsame]
    exact hsome
  · rw [hx]
    rfl

theorem State.Grows.records {A : Prop} {s s' : State Ref δ} (h : s.Grows A s')
    {t : TapId Ref} {tap' : Tap Ref δ} (htap' : s'.tap t = some tap')
    (hrecords : tap'.Records) : ∃ tap, s.tap t = some tap ∧ tap.Records ∧
      tap'.fileHandle = tap.fileHandle := by
  rcases h.tap t with ⟨new, hnew, hfresh⟩ | hrel
  · obtain rfl := Option.some.inj (hnew.symm.trans htap')
    exact (hfresh.not_records hrecords).elim
  · rw [htap'] at hrel
    generalize s.tap t = tap at hrel
    cases hrel with
    | some hstops => exact ⟨_, rfl, hstops.records hrecords, hstops.fileHandle⟩

namespace Tap.Wav

variable {disk disk' : Path → Bytes} {tap tap' : Tap Ref δ}

theorem new (h : tap.New) : tap.Wav disk := by
  obtain ⟨closing, hpoint⟩ := h.point
  refine ⟨?_, ?_, fun _ => ⟨h.closing, ?_⟩, ?_⟩
  · rw [hpoint]
    nofun
  · rw [hpoint]
    nofun
  · rw [h.fileHandle]
    nofun
  · rw [h.session]
    nofun

theorem session_none (h : tap.Wav disk) (hpoint : tap.point.preparesFile) :
    tap.session = none := by
  refine Option.eq_none_iff_forall_ne_some.2 fun session hsession => ?_
  cases hpoint.symm.trans (h.session session hsession).1

theorem of_disk (h : tap.Wav disk) (hdisk : ∀ handle, tap.Records →
    tap.fileHandle = some handle → disk' handle.path = disk handle.path) :
    tap.Wav disk' := by
  refine ⟨fun hpoint handle hhandle => ?_, fun hpoint handle hhandle => ?_,
    h.unrecorded, fun session hsession => ?_⟩
  · rw [hdisk handle (.inr (by rw [hpoint]; rfl)) hhandle]
    exact h.writeHeader hpoint handle hhandle
  · rw [hdisk handle (.inr (by rw [hpoint]; rfl)) hhandle]
    exact h.bind hpoint handle hhandle
  · obtain ⟨hpoint, handle, hhandle, hfiled⟩ := h.session session hsession
    refine ⟨hpoint, handle, hhandle, ?_⟩
    rw [hdisk handle (.inl (by rw [hsession]; rfl)) hhandle]
    exact hfiled

/-- A session that is not abandoned begins to patch its header. -/
theorem stops (h : tap.Stops False tap') (hwav : tap.Wav disk) : tap'.Wav disk := by
  refine ⟨?_, ?_, fun hnone => ?_, fun session hsession => ?_⟩
  · rw [h.point, h.fileHandle]
    exact hwav.writeHeader
  · rw [h.point, h.fileHandle]
    exact hwav.bind
  · rw [h.fileHandle]
    rcases h.session with ⟨hsame, hclosing⟩ | ⟨x, -, -, hclosed, -⟩
    · rw [hclosing]
      exact hwav.unrecorded (hsame.symm.trans hnone)
    · cases hclosed.symm.trans hnone
  · rw [h.point, h.fileHandle]
    rcases h.session with ⟨hsame, hclosing⟩ | ⟨x, hx, -, hclosed, hclosing | ⟨hfalse, -⟩⟩
    · rw [hclosing]
      exact hwav.session session (hsame.symm.trans hsession)
    · obtain rfl := Option.some.inj (hclosed.symm.trans hsession)
      obtain ⟨hpoint, handle, hhandle, hfiled⟩ := hwav.session x hx
      rw [hclosing]
      exact ⟨hpoint, handle, hhandle, hfiled.close⟩
    · exact hfalse.elim

theorem same (h : tap.Wav disk) (hhandle : tap'.fileHandle = tap.fileHandle)
    (hsession : tap'.session = tap.session) (hclosing : tap'.closing = tap.closing)
    (hpoint : tap'.point.preparesFile = false) : tap'.Wav disk := by
  refine ⟨fun h' => ?_, fun h' => ?_, ?_, ?_⟩
  · rw [h'] at hpoint
    cases hpoint
  · rw [h'] at hpoint
    cases hpoint
  · rw [hsession, hclosing, hhandle]
    exact h.unrecorded
  · rw [hsession, hclosing, hhandle, hpoint]
    exact fun session hs => ⟨rfl, (h.session session hs).2⟩

theorem of_session {session : RecordingSession δ} {handle : FileHandle}
    (hpoint : tap.point.preparesFile = false) (hsession : tap.session = some session)
    (hhandle : tap.fileHandle = some handle)
    (hfiled : session.Filed tap.closing handle (disk handle.path)) : tap.Wav disk := by
  refine ⟨fun h' => ?_, fun h' => ?_, fun hnone => ?_, fun session' hsession' => ?_⟩
  · rw [h'] at hpoint
    cases hpoint
  · rw [h'] at hpoint
    cases hpoint
  · cases hsession.symm.trans hnone
  · obtain rfl := Option.some.inj (hsession.symm.trans hsession')
    exact ⟨hpoint, handle, hhandle, hfiled⟩

end Tap.Wav

namespace State.Headers

variable {s s' : State Ref δ}

theorem grows (h : s.Headers) (hgrows : s.Grows False s') : s'.Headers := by
  refine ⟨?_, ?_⟩
  · rw [hgrows.disk]
    exact h.wav.grows (fun _ => .new) (fun _ _ => .stops) hgrows
  · intro t t' tap tap' handle handle' hne htap htap' hrecords hrecords' hhandle hhandle'
    obtain ⟨old, hold, hrec, hsame⟩ := hgrows.records htap hrecords
    obtain ⟨old', hold', hrec', hsame'⟩ := hgrows.records htap' hrecords'
    exact h.apart t t' old old' handle handle' hne hold hold' hrec hrec'
      (hsame.symm.trans hhandle) (hsame'.symm.trans hhandle')

variable [DecidableEq Ref]

/-- A tap moves on, to a file that nobody else records to. -/
theorem move (h : s.Headers) {t : TapId Ref} {tap : Tap Ref δ}
    {f : Tap Ref δ → Tap Ref δ} {disk : Path → Bytes} (htap : s.tap t = some tap)
    (hapart : ∀ t' tap' handle handle', t' ≠ t → s.tap t' = some tap' →
      (f tap).Records → tap'.Records → (f tap).fileHandle = some handle →
      tap'.fileHandle = some handle' → handle.path ≠ handle'.path)
    (hdisk : ∀ t' tap' handle', t' ≠ t → s.tap t' = some tap' → tap'.Records →
      tap'.fileHandle = some handle' → disk handle'.path = s.disk handle'.path)
    (hwav : (f tap).Wav disk) : ({ s with disk := disk }.updateTap t f).Headers := by
  have hself : ({ s with disk := disk }.updateTap t f).tap t = some (f tap) := by
    simp [htap]
  have hother {t' : TapId Ref} (ht' : t' ≠ t) :
      ({ s with disk := disk }.updateTap t f).tap t' = s.tap t' :=
    State.tap_updateTap_of_ne { s with disk := disk } f ht'
  refine ⟨fun t' tap' htap' => ?_, ?_⟩
  · by_cases ht' : t' = t
    · subst ht'
      obtain rfl := Option.some.inj (hself.symm.trans htap')
      exact hwav
    · rw [hother ht'] at htap'
      exact (h.wav t' tap' htap').of_disk fun handle' => hdisk t' tap' handle' ht' htap'
  · intro t₁ t₂ tap₁ tap₂ handle₁ handle₂ hne htap₁ htap₂ hrec₁ hrec₂ hhandle₁ hhandle₂
    by_cases ht₁ : t₁ = t
    · subst ht₁
      obtain rfl := Option.some.inj (hself.symm.trans htap₁)
      rw [hother hne.symm] at htap₂
      exact hapart t₂ tap₂ handle₁ handle₂ hne.symm htap₂ hrec₁ hrec₂ hhandle₁ hhandle₂
    · rw [hother ht₁] at htap₁
      by_cases ht₂ : t₂ = t
      · subst ht₂
        obtain rfl := Option.some.inj (hself.symm.trans htap₂)
        exact (hapart t₁ tap₁ handle₂ handle₁ hne htap₁ hrec₂ hrec₁ hhandle₂ hhandle₁).symm
      · rw [hother ht₂] at htap₂
        exact h.apart t₁ t₂ tap₁ tap₂ handle₁ handle₂ hne htap₁ htap₂ hrec₁ hrec₂
          hhandle₁ hhandle₂

theorem updateTap (h : s.Headers) {t : TapId Ref} {tap : Tap Ref δ}
    {f : Tap Ref δ → Tap Ref δ} {disk : Path → Bytes} (htap : s.tap t = some tap)
    (hrecords : (f tap).Records → tap.Records)
    (hpath : (f tap).fileHandle.map FileHandle.path = tap.fileHandle.map FileHandle.path)
    (hdisk : ∀ path, (∀ handle, tap.Records → tap.fileHandle = some handle →
      path ≠ handle.path) → disk path = s.disk path)
    (hwav : (f tap).Wav disk) : ({ s with disk := disk }.updateTap t f).Headers := by
  refine h.move htap ?_ ?_ hwav
  · intro t' tap' handle handle' hne htap' hrec hrec' hhandle hhandle'
    rw [hhandle, Option.map_some] at hpath
    obtain ⟨own, hown, hsame⟩ := Option.map_eq_some_iff.1 hpath.symm
    rw [← hsame]
    exact h.apart t t' tap tap' own handle' hne.symm htap htap' (hrecords hrec) hrec'
      hown hhandle'
  · intro t' tap' handle' hne htap' hrec' hhandle'
    refine hdisk handle'.path fun handle hrec hhandle => ?_
    exact h.apart t' t tap' tap handle' handle hne htap' htap hrec' hrec hhandle' hhandle

theorem goes (h : s.Headers) {t : TapId Ref} {tap : Tap Ref δ}
    {f : Tap Ref δ → Tap Ref δ} (htap : s.tap t = some tap)
    (hhandle : (f tap).fileHandle = tap.fileHandle)
    (hsession : (f tap).session = tap.session) (hclosing : (f tap).closing = tap.closing)
    (hpoint : (f tap).point.preparesFile = false) : (s.updateTap t f).Headers := by
  refine h.updateTap htap (fun hrecords => .inl ?_) (by rw [hhandle]) (fun _ _ => rfl)
    ((h.wav t tap htap).same hhandle hsession hclosing hpoint)
  rw [Tap.Records, hsession, hpoint] at hrecords
  simpa using hrecords

theorem updatePeer (h : s.Headers) (object : Ref) (f : TappedPeer Ref → TappedPeer Ref) :
    (s.updatePeer object f).Headers :=
  ⟨h.wav, h.apart⟩

/-- A file that nobody else records to is truncated. -/
theorem opened (h : s.Headers) {t : TapId Ref} {tap : Tap Ref δ} {path : Path}
    (htap : s.tap t = some tap) (hsession : tap.session = none)
    (hfree : ∀ t' tap' handle, t' ≠ t → s.tap t' = some tap' → tap'.Records →
      tap'.fileHandle = some handle → handle.path ≠ path) :
    ({ s with disk := Function.update s.disk path [] }.updateTap t fun tap =>
      { tap with fileHandle := some { path }, point := .writeHeader }).Headers := by
  refine h.move htap ?_ ?_ ?_
  · rintro t' tap' _ handle' hne htap' - hrec' ⟨rfl⟩ hhandle'
    exact (hfree t' tap' handle' hne htap' hrec' hhandle').symm
  · intro t' tap' handle' hne htap' hrec' hhandle'
    exact Function.update_of_ne (hfree t' tap' handle' hne htap' hrec' hhandle') ..
  · refine ⟨?_, nofun, fun _ => ⟨((h.wav t tap htap).unrecorded hsession).1, ?_⟩, ?_⟩
    · rintro - _ ⟨rfl⟩
      exact ⟨rfl, Function.update_self ..⟩
    · rintro _ ⟨rfl⟩
      rfl
    · intro session hsome
      cases hsession.symm.trans hsome

theorem headed (h : s.Headers) {t : TapId Ref} {tap : Tap Ref δ} {handle : FileHandle}
    (htap : s.tap t = some tap) (hpoint : tap.point = .writeHeader)
    (hhandle : tap.fileHandle = some handle) :
    ((s.writeAt handle.path handle.position buildWavHeader).updateTap t fun tap =>
      { tap with
        fileHandle := some { handle with position := handle.position + wavHeaderSize }
        point := .bind }).Headers := by
  have hwav := h.wav t tap htap
  obtain ⟨hhead, hempty⟩ := hwav.writeHeader hpoint handle hhandle
  have hsession := hwav.session_none (by rw [hpoint]; rfl)
  have hrecords : tap.Records := .inr (by rw [hpoint]; rfl)
  have hposition : handle.position = 0 := by rw [hhead]
  have hwrites : handle.writes = [] := by rw [hhead]
  refine h.updateTap htap (fun _ => hrecords) (by rw [hhandle]; rfl) ?_ ?_
  · exact fun path hne => Function.update_of_ne (hne handle hrecords hhandle) ..
  · refine ⟨nofun, ?_, fun _ => ⟨(hwav.unrecorded hsession).1, ?_⟩, ?_⟩
    · rintro - _ ⟨rfl⟩
      refine ⟨by rw [hposition, hwrites, Nat.zero_add], ?_⟩
      rw [Function.update_self, hempty, hposition, Bytes.length_writeAt (Nat.le_refl 0),
        length_buildWavHeader]
      rfl
    · rintro _ ⟨rfl⟩
      exact hwrites
    · intro session hsome
      cases hsession.symm.trans hsome

theorem bound (h : s.Headers) (env : Env δ) {t : TapId Ref} {tap : Tap Ref δ}
    {handle : FileHandle} (htap : s.tap t = some tap) (hpoint : tap.point = .bind)
    (hhandle : tap.fileHandle = some handle) :
    (s.updateTap t fun tap =>
      { tap with
        session := some { outputPath := handle.path, decoder := env.newDecoder }
        point := .startRecordingSession }).Headers := by
  have hwav := h.wav t tap htap
  obtain ⟨hhead, hlength⟩ := hwav.bind hpoint handle hhandle
  have hsession := hwav.session_none (by rw [hpoint]; rfl)
  refine h.updateTap htap (fun _ => .inr (by rw [hpoint]; rfl)) rfl (fun _ _ => rfl) ?_
  refine .of_session rfl rfl hhandle ?_
  rw [(hwav.unrecorded hsession).1, hhead]
  exact .new handle.path handle.path env.newDecoder hlength

theorem tapStep {env : Env δ} {t : TapId Ref} {tap : Tap Ref δ} {ok : Bool}
    (h : s.Headers) (hnamed : tap.Named env) (htap : s.tap t = some tap)
    (hfree : ok = true → tap.point = .open → ∀ t' tap' handle, t' ≠ t →
      s.tap t' = some tap' → tap'.Records → tap'.fileHandle = some handle →
      handle.path ≠ tap.outputPath env)
    (hstep : TapStep env s t tap ok s') : s'.Headers := by
  cases hstep with
  | passed hpasses =>
      refine h.goes htap rfl rfl rfl ?_
      generalize tap.point = point at hpasses
      cases hpasses <;> rfl
  | named => exact h.goes htap rfl rfl rfl rfl
  | created => exact (h.goes htap rfl rfl rfl rfl).updatePeer t.2 _
  | consumed => exact (h.goes htap rfl rfl rfl rfl).updatePeer t.2 _
  | notConsumed =>
      have hclosed := State.Stops.closePlainTransport (A := False) s t
      obtain ⟨tap', htap', -⟩ := hclosed.of_some htap
      exact ((h.grows hclosed.grows).goes htap' rfl rfl rfl rfl).updatePeer t.2 _
  | opened hpoint =>
      exact h.opened htap (hnamed.sessionless (by rw [hpoint]; rfl)) (hfree rfl hpoint)
  | headed hpoint hhandle => exact h.headed htap hpoint hhandle
  | bound hpoint hhandle => exact h.bound env htap hpoint hhandle
  | started => exact (h.goes htap rfl rfl rfl rfl).updatePeer t.2 _
  | connected => exact h.goes htap rfl rfl rfl rfl
  | notConnected =>
      have hstopped := State.Stops.stopPeerRecording (A := False) s t.2
      obtain ⟨tap', htap', -⟩ := hstopped.of_some htap
      exact (h.grows hstopped.grows).goes htap' rfl rfl rfl rfl

theorem message {env : Env δ} {t : TapId Ref} {msg : Bytes} (h : s.Headers)
    (hs : s.message env t msg = some s') : s'.Headers := by
  obtain ⟨tap, session, handle, htap, hsession, hhandle, rfl⟩ := State.message_cases hs
  obtain ⟨hpoint, handle', hhandle', hfiled⟩ := (h.wav t tap htap).session session hsession
  obtain rfl := Option.some.inj (hhandle.symm.trans hhandle')
  refine h.updateTap htap (fun _ => .inl (by rw [hsession]; rfl)) (by rw [hhandle]; rfl)
    (fun _ _ => rfl) ?_
  exact .of_session hpoint rfl rfl (hfiled.message env msg)

theorem written {t : TapId Ref} {k : Nat} (h : s.Headers)
    (hs : s.written t k = some s') : s'.Headers := by
  obtain ⟨tap, handle, chunk, htap, hhandle, hchunk, rfl⟩ := State.written_cases hs
  have hwav := h.wav t tap htap
  cases hsession : tap.session with
  | none =>
      rw [(hwav.unrecorded hsession).2 handle hhandle] at hchunk
      cases hchunk
  | some session =>
      obtain ⟨hpoint, handle', hhandle', hfiled⟩ := hwav.session session hsession
      obtain rfl := Option.some.inj (hhandle.symm.trans hhandle')
      have hrecords : tap.Records := .inl (by rw [hsession]; rfl)
      refine h.updateTap htap (fun _ => hrecords) (by rw [hhandle]; rfl) ?_ ?_
      · exact fun path hne => Function.update_of_ne (hne handle hrecords hhandle) ..
      · refine .of_session hpoint hsession rfl ?_
        rw [Function.update_self]
        exact hfiled.written hchunk

theorem closeStep {t : TapId Ref} (h : s.Headers) (hs : s.closeStep t true = some s') :
    s'.Headers := by
  obtain ⟨tap, session, handle, htap, hsession, hhandle, hstep⟩ := State.closeStep_cases hs
  obtain ⟨hpoint, handle', hhandle', hfiled⟩ := (h.wav t tap htap).session session hsession
  obtain rfl := Option.some.inj (hhandle.symm.trans hhandle')
  have hrecords : tap.Records := .inl (by rw [hsession]; rfl)
  have hpatch {pos : Nat} {size : Bytes} {closing : Closing}
      (hfile : session.Filed closing handle
        (Bytes.writeAt (s.disk handle.path) pos size)) :
      ((s.writeAt handle.path pos size).setClosing t closing).Headers := by
    refine h.updateTap htap (fun _ => hrecords) rfl ?_ ?_
    · exact fun path hne => Function.update_of_ne (hne handle hrecords hhandle) ..
    · refine .of_session hpoint hsession hhandle ?_
      rw [Function.update_self]
      exact hfile
  cases hstep with
  | riffSize hclosing => exact hpatch (hclosing ▸ hfiled).riffSize
  | dataSize hclosing => exact hpatch (hclosing ▸ hfiled).dataSize
  | close hclosing =>
      refine h.updateTap htap (fun _ => hrecords) rfl (fun _ _ => rfl) ?_
      exact .of_session hpoint hsession hhandle (hclosing ▸ hfiled).closed

end State.Headers

/-! ## Every ended recording is a valid WAV file -/

instance (tap : Tap Ref δ) : Decidable tap.Records := inferInstanceAs (Decidable (_ ∨ _))

/-- The session has been ended, and the writes that it started have completed. -/
def Tap.Ended (tap : Tap Ref δ) (session : RecordingSession δ) (handle : FileHandle) :
    Prop :=
  session.closed = true ∧ handle.writes = [] ∧ tap.closing ≠ .riffSize ∧
    tap.closing ≠ .dataSize
  deriving Decidable

/-- The sizes in the header of `file` are right for `n` bytes. -/
def ValidWav (file : Bytes) (n : Nat) : Prop :=
  Bytes.ofLE (Bytes.slice file 4 4) = 36 + n ∧ Bytes.ofLE (Bytes.slice file 40 4) = n
  deriving Decidable

/-- The bytes after the header have been written through the handle one after the
other. -/
def FileHandle.dataBytes (handle : FileHandle) : Nat := handle.position - wavHeaderSize

def ValidWavs (p : Process Ref δ) : Prop :=
  ∀ t, ∀ tap ∈ p.world.tap t, ∀ session ∈ tap.session, ∀ handle ∈ tap.fileHandle,
    tap.Ended session handle → handle.dataBytes < 2 ^ 32 - 36 →
    ValidWav (p.world.disk handle.path) handle.dataBytes

instance [DecidableEq Ref] [Fintype Ref] (p : Process Ref δ) : Decidable (ValidWavs p) :=
  inferInstanceAs (Decidable (∀ t, ∀ tap ∈ p.world.tap t, _))

theorem RecordingSession.Filed.validWav {session : RecordingSession δ}
    {closing : Closing} {handle : FileHandle} {file : Bytes}
    (h : session.Filed closing handle file) (hclosed : session.closed = true)
    (hwrites : handle.writes = []) (hriff : closing ≠ .riffSize)
    (hdata : closing ≠ .dataSize) (hsize : handle.dataBytes < 2 ^ 32 - 36) :
    ValidWav file handle.dataBytes := by
  have hbytes : handle.dataBytes = session.bytesWritten := by
    have hcounted := h.counted
    rw [hwrites, List.flatten_nil, List.length_nil, Nat.add_zero] at hcounted
    rw [FileHandle.dataBytes, hcounted, Nat.add_sub_cancel_left]
  have hpatched := h.patched
  rw [hbytes] at hsize ⊢
  cases closing with
  | no =>
      rw [h.recording.1 rfl] at hclosed
      cases hclosed
  | riffSize => exact (hriff rfl).elim
  | dataSize => exact (hdata rfl).elim
  | close | closed =>
      obtain ⟨-, hriffSize, hdataSize⟩ := hpatched
      refine ⟨?_, hdataSize⟩
      rw [hriffSize, wavHeaderSize]
      omega
  | threw =>
      rw [Closing.Patched, wavHeaderSize] at hpatched
      omega
  | abandoned => exact hpatched.elim

theorem State.Headers.validWavs {p : Process Ref δ} (h : p.world.Headers) :
    ValidWavs p := by
  intro t tap htap session hsession handle hhandle hended hsize
  obtain ⟨hclosed, hwrites, hriff, hdata⟩ := hended
  obtain ⟨-, handle', hhandle', hfiled⟩ := (h.wav t tap htap).session session hsession
  obtain rfl : handle = handle' := Option.some.inj ((Option.mem_def.1 hhandle).symm.trans hhandle')
  exact hfiled.validWav hclosed hwrites hriff hdata hsize

variable [DecidableEq Ref]

/-- The writes that are awaited at closing succeed. -/
def Happening.WritesSucceed : Happening Ref → Prop
  | .close _ ok => ok = true
  | _ => True

instance : ∀ a : Happening Ref, Decidable a.WritesSucceed
  | .close _ ok => inferInstanceAs (Decidable (ok = true))
  | .call _ _ | .tap _ _ | .message _ _ | .written _ _ | .producerclose _
  | .socketError _ => .isTrue trivial

/--
No open session is left to `MediaRoom.stopPeerRecording`, and no file is opened
that another tap records to.
-/
def KeepsHeaders (env : Env δ) (p : Process Ref δ) : Happening Ref → Prop
  | .call i ok => ∀ object ∈ (p.proc i).removing ok p.world,
      ∀ t ∈ (p.world.peer object).recordingSession, p.world.sessionOpen t = false
  | .tap t true => ∀ tap ∈ p.world.tap t, tap.point = .open →
      ∀ t', t' ≠ t → ∀ tap' ∈ p.world.tap t', tap'.Records →
        ∀ handle ∈ tap'.fileHandle, handle.path ≠ tap.outputPath env
  | _ => True

instance [Fintype Ref] (env : Env δ) (p : Process Ref δ) :
    ∀ a, Decidable (KeepsHeaders env p a)
  | .call _ _ | .tap _ true => inferInstanceAs (Decidable (∀ _ ∈ _, _))
  | .tap _ false | .message _ _ | .written _ _ | .close _ _ | .producerclose _
  | .socketError _ => .isTrue trivial

theorem State.Headers.preserves (env : Env δ) :
    (process env : System (Process Ref δ) (Happening Ref)).Preserves
      (fun p a => KeepsHeaders env p a ∧ a.WritesSucceed)
      fun p => p.world.Taps (Tap.Named env) ∧ p.world.Headers := by
  intro p a p' h hC hstep
  obtain ⟨hnamed, h⟩ := h
  obtain ⟨hkeeps, hok⟩ := hC
  refine ⟨Tap.Named.preserves hnamed trivial hstep, ?_⟩
  cases process_cases hstep with
  | call hcall =>
      refine h.grows (hcall.grows fun object t hremoving hsession hopen => ?_)
      cases (hkeeps object hremoving t hsession).symm.trans hopen
  | tap htap htapStep =>
      refine h.tapStep (hnamed _ _ htap) htap ?_ htapStep
      rintro rfl hpoint t' tap' handle hne htap' hrecords hhandle
      exact hkeeps _ htap hpoint t' hne tap' htap' hrecords handle hhandle
  | message hs => exact h.message hs
  | written hs => exact h.written hs
  | close hs =>
      cases hok
      exact h.closeStep hs
  | producerclose hs => exact h.grows (State.producerclose_stops hs).grows
  | socketError hs => exact h.grows (State.socketError_stops hs).grows

/--
A run whose closing writes succeed, that leaves no open session to
`MediaRoom.stopPeerRecording` and opens no file that another tap records to,
leaves a valid WAV file at the end of every session.
-/
theorem holds_validWavs (env : Env δ) (sfu : Sfu.State Ref)
    (requests : Ref → Request Ref) (labels : List (Happening Ref))
    (hok : ∀ a ∈ labels, a.WritesSucceed)
    (h : (process env).Meets (KeepsHeaders env) (Process.start sfu requests) labels) :
    (process env).Holds ValidWavs (Process.start sfu requests) labels := by
  have hstart : (State.unrecorded sfu : State Ref δ).Headers :=
    ⟨.unrecorded sfu, fun _ _ _ _ _ _ _ hnone => (Option.some_ne_none _ hnone.symm).elim⟩
  have hwrites : (process env).Meets (fun _ a => a.WritesSucceed)
      (Process.start sfu requests) labels :=
    System.meets_of_forall fun a ha _ => hok a ha
  exact (h.and hwrites).holds (State.Headers.preserves env) (fun _ hI => hI.2.validWavs)
    ⟨.unrecorded sfu, hstart⟩

open OnePeer in
/-- The recording is stopped by `stopRecording`. -/
theorem holds_validWavs_stopRecording :
    (process env).Holds ValidWavs (start (.stopRecording "r"))
      (recorded ++ .call .fifth true :: closed) :=
  holds_validWavs env _ _ _ (by decide +kernel) (by decide +kernel)

open OnePeer in
/-- The recording is ended by `removePeer`; the header says that it is empty. -/
theorem not_holds_validWavs_removePeer :
    ¬ (process env).Holds ValidWavs (start (.removePeer "r" "p"))
      (recorded ++ [.call .fifth true]) := by
  intro h
  have hlast := h.last
  revert hlast
  decide +kernel

end MeetServer.Recording
