import MeetServer.Realtime.StaleClose

/-!
# One node for each room

`getOrCreateRoom` calls for a room that does not exist yet.  The calls of one
instance share one creation.  Creations on different instances choose a node
each, and they agree only if the first choice is not changed by the room that it
brings about.
-/

namespace MeetServer.Realtime

open MeetServer.Foundation

variable {ι κ : Type}

/-- The `getOrCreateRoom` calls of all instances for one room id. -/
abbrev RoomCalls (ι κ : Type) := Pool ι (World ι κ) (GetOrCreateRoom ι κ)

def RoomCalls.issued (w : World ι κ) : RoomCalls ι κ :=
  ⟨w, fun _ => .getRoom⟩

def roomsService [DecidableEq ι] [DecidableEq κ] (roomId : RoomId)
    (instanceOf : ι → Instance) : System (RoomCalls ι κ) (ι × Event) :=
  Pool.system fun i event w point =>
    point.step i (instanceOf i) roomId event w

/-- Neither Redis nor an instance nor a node knows the room; no call has been
made. -/
structure NotYetExisting (roomId : RoomId) (w : World ι κ) : Prop where
  room : w.redis.room = none
  pendingRooms : ∀ instanceId, w.pendingRooms instanceId = none
  creation : ∀ i, w.creation i = none
  mediaRoom : ∀ url, (w.sfu url).rooms.lookup roomId = none
  sfuPending : ∀ url, (w.sfu url).pendingRooms roomId = none
  sfuCreation : ∀ url i, (w.sfu url).creation (.inl i) = none

namespace GetOrCreateRoom

def hasReturned : GetOrCreateRoom ι κ → Bool
  | .returned _ => true
  | .getRoom | .expire _ | .pending _ | .getStats _ | .createOrGetMediaRoom _ _
  | .set _ | .threw => false

/-- The node that the call has been led to. -/
def url : GetOrCreateRoom ι κ → Option Url
  | .createOrGetMediaRoom url _ => some url
  | .expire room | .set room | .returned room => some room.sfuNodeUrl
  | .getRoom | .pending _ | .getStats _ | .threw => none

/-- The call has got the record. -/
def informed : GetOrCreateRoom ι κ → Bool
  | .expire _ | .returned _ => true
  | .getRoom | .pending _ | .getStats _ | .createOrGetMediaRoom _ _ | .set _
  | .threw => false

end GetOrCreateRoom

/-! ## Calls that have been led to one node -/

structure PinnedTo (roomId : RoomId) (url : Url) (s : RoomCalls ι κ) : Prop where
  stored : ∀ room, s.world.redis.room = some room → room.sfuNodeUrl = url
  created : ∀ i room, s.world.creation i = some (.fulfilled room) →
    room.sfuNodeUrl = url ∧ s.world.redis.room.isSome
  led : ∀ i url', (s.proc i).url = some url' → url' = url
  informed : ∀ i, (s.proc i).informed → s.world.redis.room.isSome
  elsewhere : ∀ url', url' ≠ url →
    (s.world.sfu url').rooms.lookup roomId = none
  recorded : s.world.redis.room.isSome → (s.world.sfu url).serves roomId
  relied : ∀ i url', (s.proc i).reliesOn s.world = some url' →
    (s.world.sfu url').serves roomId
  sound : ∀ url', (s.world.sfu url').Sound roomId
  unborn : ∀ i url', (s.proc i).unborn →
    (s.world.sfu url').creation (.inl i) = none

theorem NotYetExisting.pinnedTo {roomId : RoomId} {w : World ι κ}
    (h : NotYetExisting roomId w) (url : Url) :
    PinnedTo roomId url (.issued w) where
  stored room hroom := by simp [RoomCalls.issued, h.room] at hroom
  created i room hi := by simp [RoomCalls.issued, h.creation] at hi
  led i url' hi := by cases hi
  informed i hi := by cases hi
  elsewhere url' _ := h.mediaRoom url'
  recorded hroom := by simp [RoomCalls.issued, h.room] at hroom
  relied i url' hi := by cases hi
  sound url' := ⟨by simp [RoomCalls.issued, h.mediaRoom],
    by simp [RoomCalls.issued, h.sfuPending]⟩
  unborn i url' _ := h.sfuCreation url' i

variable [DecidableEq ι] [DecidableEq κ] {roomId : RoomId}
  {instanceOf : ι → Instance}

theorem PinnedTo.put_step {url url' : Url} {s : RoomCalls ι κ} {i : ι}
    {ok : Bool} {request request' : Sfu.GetOrCreateRoom (ι ⊕ κ)}
    {node : Sfu.State (ι ⊕ κ)} (h : PinnedTo roomId url s)
    (hi : s.proc i = .createOrGetMediaRoom url' request)
    (hput : request.step (.inl i) roomId ok (s.world.sfu url') =
      some (node, request')) :
    PinnedTo roomId url (s.set i (s.world.setSfu url' node)
      (.createOrGetMediaRoom url' request')) := by
  have hled := h.led i
  have hrelied := h.relied i url'
  have hborn := h.unborn i url'
  rw [hi] at hled hrelied hborn
  obtain rfl : url' = url := hled _ rfl
  obtain ⟨hsound, hserves, hown, hothers, hcreation⟩ :=
    Sfu.GetOrCreateRoom.step_serves hput (h.sound url') hborn
      (fun hgiven => hrelied (by simp [GetOrCreateRoom.reliesOn, hgiven]))
  refine ⟨h.stored, h.created, fun j url hj => ?_, fun j hj => ?_,
    fun url hurl => ?_, fun hroom => ?_, fun j url hj => ?_, fun url => ?_,
    fun j url hj => ?_⟩
  · rw [Pool.set_proc] at hj
    split at hj
    · exact (Option.some.inj hj).symm
    · exact h.led j url hj
  · rw [Pool.set_proc] at hj
    split at hj
    · cases hj
    · exact h.informed j hj
  · rw [Pool.set_world, World.sfu_setSfu, if_neg hurl]
    exact h.elsewhere url hurl
  · rw [Pool.set_world, World.sfu_setSfu, if_pos rfl]
    exact hserves (h.recorded hroom)
  · rw [Pool.set_proc, Pool.set_world] at hj
    rw [Pool.set_world]
    split at hj
    · simp only [GetOrCreateRoom.reliesOn, World.sfu_setSfu, if_true,
        Option.ite_none_right_eq_some, Option.some.injEq] at hj
      obtain ⟨hgiven, rfl⟩ := hj
      simpa [World.sfu_setSfu] using hown hgiven
    · rcases GetOrCreateRoom.reliesOn_setSfu hothers hj with hj | ⟨rfl, hnode⟩
      · rw [World.sfu_setSfu]
        split
        · next heq => exact hserves (heq ▸ h.relied j url hj)
        · exact h.relied j url hj
      · simpa [World.sfu_setSfu] using hnode
  · rw [Pool.set_world, World.sfu_setSfu]
    split
    · exact hsound
    · exact h.sound url
  · rw [Pool.set_proc] at hj
    rw [Pool.set_world, World.sfu_setSfu]
    split at hj
    · next hji =>
      subst hji
      obtain ⟨hunborn, hsame⟩ := Sfu.GetOrCreateRoom.step_unborn hput hj
      have hold : (s.proc j).unborn := by rw [hi]; exact hunborn
      split
      · rw [hsame]
        exact h.unborn j url' hold
      · exact h.unborn j url hold
    · next hji =>
      split
      · next heq =>
        rw [hcreation _ (by simpa using hji), ← heq]
        exact h.unborn j url hj
      · exact h.unborn j url hj

omit [DecidableEq κ] in
theorem PinnedTo.frame {url : Url} {s : RoomCalls ι κ} {i : ι} {w' : World ι κ}
    {point' : GetOrCreateRoom ι κ} (h : PinnedTo roomId url s)
    (hroom : w'.redis.room = s.world.redis.room) (hsfu : w'.sfu = s.world.sfu)
    (hcreated : ∀ j room, w'.creation j = some (.fulfilled room) →
      s.world.creation j = some (.fulfilled room))
    (hled : ∀ url', point'.url = some url' → url' = url)
    (hinformed : point'.informed → s.world.redis.room.isSome)
    (hrelied : ∀ url', point'.reliesOn s.world = some url' →
      (s.world.sfu url').serves roomId)
    (hunborn : point'.unborn → ∀ url', (s.world.sfu url').creation (.inl i) = none) :
    PinnedTo roomId url (s.set i w' point') := by
  have hkeeps : ∀ point : GetOrCreateRoom ι κ,
      point.reliesOn w' = point.reliesOn s.world :=
    GetOrCreateRoom.reliesOn_congr fun url' => by rw [hsfu]
  constructor <;> simp only [Pool.set_world, Pool.set_proc, hroom, hsfu, hkeeps]
  case stored => exact h.stored
  case created => exact fun j room hj => h.created j room (hcreated j room hj)
  case elsewhere => exact h.elsewhere
  case recorded => exact h.recorded
  case sound => exact h.sound
  case led =>
    intro j url' hj
    split at hj
    · exact hled url' hj
    · exact h.led j url' hj
  case informed =>
    intro j hj
    split at hj
    · exact hinformed hj
    · exact h.informed j hj
  case relied =>
    intro j url' hj
    split at hj
    · exact hrelied url' hj
    · exact h.relied j url' hj
  case unborn =>
    intro j url' hj
    split at hj
    · next heq =>
      rw [heq]
      exact hunborn hj url'
    · exact h.unborn j url' hj

omit [DecidableEq κ] in
theorem World.created_of_rejected {w : World ι κ} {instanceId : Instance} {i j : ι}
    {room : Room}
    (h : (w.settleCreation instanceId i .rejected).creation j =
      some (.fulfilled room)) : w.creation j = some (.fulfilled room) := by
  rw [creation_settleCreation] at h
  split at h
  · cases h
  · exact h

omit [DecidableEq κ] in
theorem PinnedTo.recorded_step {url : Url} {s : RoomCalls ι κ} {i : ι}
    {instanceId : Instance} {room : Room} (h : PinnedTo roomId url s)
    (hi : s.proc i = .set room) :
    PinnedTo roomId url (s.set i ((s.world.setRedis
      (s.world.redis.set room)).settleCreation instanceId i (.fulfilled room))
      (.returned room)) := by
  have hkeeps : ∀ point : GetOrCreateRoom ι κ,
      point.reliesOn ((s.world.setRedis (s.world.redis.set room)).settleCreation
        instanceId i (.fulfilled room)) = point.reliesOn s.world :=
    GetOrCreateRoom.reliesOn_congr fun _ => rfl
  have hled_room : room.sfuNodeUrl = url := h.led i _ (by rw [hi]; rfl)
  have hserves := h.relied i room.sfuNodeUrl (by rw [hi]; rfl)
  obtain ⟨-, hcreated, hled, hinformed, helsewhere, hrecorded, hrelied, hsound,
    hunborn⟩ := h
  constructor <;> simp only [Pool.set_world, Pool.set_proc, hkeeps,
    World.redis_settleCreation, World.sfu_settleCreation,
    World.creation_settleCreation, World.redis_setRedis,
    World.sfu_setRedis, World.creation_setRedis] <;>
    grind [RoomKeys.set, GetOrCreateRoom.url, GetOrCreateRoom.informed,
      GetOrCreateRoom.reliesOn, GetOrCreateRoom.unborn]

/-- Only a choice of another node leads a call elsewhere. -/
theorem PinnedTo.step {url : Url} {s : RoomCalls ι κ} {i : ι}
    {instanceId : Instance} {ok : Bool} {w' : World ι κ} {point' : GetOrCreateRoom ι κ}
    (h : PinnedTo roomId url s)
    (hs : GetOrCreateRoom.Step i instanceId roomId s.world ok (s.proc i) w'
      point')
    (hpick : ∀ readings url', s.proc i = .getStats readings →
      point' = .createOrGetMediaRoom url' .call → url' = url) :
    PinnedTo roomId url (s.set i w' point') := by
  have hled := h.led i
  have hinformed := h.informed i
  have hrelied := h.relied i
  have hunborn := h.unborn i
  generalize hpoint : s.proc i = point at hs hled hinformed hrelied hunborn
  have hkept (j : ι) (room : Room)
      (hj : s.world.creation j = some (.fulfilled room)) := hj
  cases hs with
  | put hnode => exact h.put_step hpoint hnode
  | recorded => exact h.recorded_step hpoint
  | found hroom =>
      exact h.frame rfl rfl hkept
        (fun _ hurl => Option.some.inj hurl ▸ h.stored _ hroom)
        (fun _ => by simp [hroom]) (by rintro _ ⟨⟩) (by rintro ⟨⟩)
  | refreshed => exact h.frame rfl rfl hkept hled hinformed (by rintro _ ⟨⟩) (by rintro ⟨⟩)
  | resumed hcreation =>
      obtain ⟨hroom, hsome⟩ := h.created _ _ hcreation
      exact h.frame rfl rfl hkept (fun _ hurl => Option.some.inj hurl ▸ hroom)
        (fun _ => hsome) (by rintro _ ⟨⟩) (by rintro ⟨⟩)
  | begins | read =>
      exact h.frame rfl rfl hkept (by rintro _ ⟨⟩) (by rintro ⟨⟩) (by rintro _ ⟨⟩)
        fun _ url' => hunborn url' rfl
  | picked =>
      obtain rfl := hpick _ _ hpoint rfl
      exact h.frame rfl rfl hkept (fun _ hurl => (Option.some.inj hurl).symm) (by rintro ⟨⟩)
        (by rintro _ ⟨⟩) fun _ url' => hunborn url' rfl
  | answered =>
      exact h.frame rfl rfl hkept hled (by rintro ⟨⟩)
        (fun url' hurl => hrelied url' (by simpa [GetOrCreateRoom.reliesOn,
          Sfu.GetOrCreateRoom.given] using hurl)) (by rintro ⟨⟩)
  | waits | lostRoom | unrefreshed | rejected =>
      exact h.frame rfl rfl hkept (by rintro _ ⟨⟩) (by rintro ⟨⟩)
        (by rintro _ ⟨⟩) (by rintro ⟨⟩)
  | unserved | unreachable | unanswered | unrecorded =>
      exact h.frame rfl rfl (fun _ _ => World.created_of_rejected) (by rintro _ ⟨⟩)
        (by rintro ⟨⟩) (by rintro _ ⟨⟩) (by rintro ⟨⟩)

/-! ## The url that the calls agree on -/

/-- The step does not change a url that is stored. -/
def KeepsUrl (calls : System (RoomCalls ι κ) (ι × Event)) (s : RoomCalls ι κ)
    (a : ι × Event) : Prop :=
  ∀ room, s.world.redis.room = some room →
    (calls.next s a).world.redis.room.map Room.sfuNodeUrl = some room.sfuNodeUrl

/-- All calls have been given the node that is stored, and no other node holds
the room. -/
structure Converged (roomId : RoomId) (s : RoomCalls ι κ) : Prop where
  agreed : ∃ url, s.world.redis.room.map Room.sfuNodeUrl = some url ∧
    ∀ i room, s.proc i = .returned room → room.sfuNodeUrl = url
  one : ∃! url, ((s.world.sfu url).rooms.lookup roomId).isSome

theorem GetOrCreateRoom.Step.redis_room {i : ι} {instanceId : Instance}
    {ok : Bool} {w w' : World ι κ} {point point' : GetOrCreateRoom ι κ}
    (h : Step i instanceId roomId w ok point w' point') :
    w'.redis.room = w.redis.room ∨
      ∃ room, point = .set room ∧ w'.redis.room = some room := by
  cases h with
  | recorded => exact .inr ⟨_, rfl, rfl⟩
  | _ => exact .inl rfl

theorem PinnedTo.keepsUrl {url : Url} {s s' : RoomCalls ι κ} {a : ι × Event}
    (h : PinnedTo roomId url s)
    (hstep : (roomsService roomId instanceOf).step s a = some s') :
    KeepsUrl (roomsService roomId instanceOf) s a := by
  obtain ⟨i, event⟩ := a
  intro room hroom
  rw [System.next_of_step hstep]
  obtain ⟨w', point', hpoint, rfl⟩ := Pool.step_eq_some.1 hstep
  rw [Pool.set_world]
  rcases (GetOrCreateRoom.step_cases hpoint).redis_room with
    hsame | ⟨room', hi, hroom'⟩
  · rw [hsame, hroom, Option.map_some]
  · have hled := h.led i room'.sfuNodeUrl (by rw [hi]; rfl)
    rw [hroom', Option.map_some, hled, h.stored room hroom]

omit [DecidableEq ι] [DecidableEq κ] in
theorem PinnedTo.converged [Nonempty ι] {url : Url} {s : RoomCalls ι κ}
    (h : PinnedTo roomId url s) (hdone : ∀ i, (s.proc i).hasReturned) :
    Converged roomId s := by
  have hi := hdone (Classical.arbitrary ι)
  have hinformed := h.informed (Classical.arbitrary ι)
  generalize s.proc (Classical.arbitrary ι) = point at hi hinformed
  have hroom : s.world.redis.room.isSome := by
    cases point <;> first | exact hinformed rfl | cases hi
  obtain ⟨room, hroom⟩ := Option.isSome_iff_exists.1 hroom
  obtain ⟨r, hr, -⟩ := Sfu.State.serves_iff.1 (h.recorded (by rw [hroom]; rfl))
  refine ⟨⟨url, ?_, fun i room hi => ?_⟩, url, ?_, fun url' hurl' => ?_⟩
  · rw [hroom, Option.map_some, h.stored room hroom]
  · exact h.led i _ (by rw [hi]; rfl)
  · simp [hr]
  · by_contra hne
    simp [h.elsewhere url' hne] at hurl'

/-! ## A clear choice -/

/-- What the nodes have answered so far. -/
def Readings.Counted (roomCount : Url → Nat) (urls : List Url) (url : Url)
    (readings : Readings) : Prop :=
  readings.map Prod.fst = urls ∧
    ∀ other answer, (other, some answer) ∈ readings →
      ∃ n, answer = .fulfilled n ∧ (other = url → n ≤ roomCount url + 1) ∧
        (other ≠ url → n = roomCount other)

structure Counted (roomId : RoomId) (roomCount : Url → Nat) (urls : List Url)
    (url : Url) (s : RoomCalls ι κ) : Prop where
  serviceUrls : s.world.serviceUrls = urls
  own : (s.world.sfu url).roomCount ≤ roomCount url + 1
  uncounted : (s.world.sfu url).rooms.lookup roomId = none →
    (s.world.sfu url).roomCount = roomCount url
  other : ∀ other, other ≠ url → (s.world.sfu other).roomCount = roomCount other
  readings : ∀ i readings, s.proc i = .getStats readings →
    readings.Counted roomCount urls url

omit [DecidableEq ι] [DecidableEq κ] in
theorem Readings.Counted.answered {roomCount : Url → Nat} {urls : List Url}
    {url : Url} {w : World ι κ} {readings readings' : Readings}
    (h : readings.Counted roomCount urls url)
    (hown : (w.sfu url).roomCount ≤ roomCount url + 1)
    (hother : ∀ other, other ≠ url → (w.sfu other).roomCount = roomCount other)
    (hanswered : readings.Answered w true readings') :
    readings'.Counted roomCount urls url := by
  obtain ⟨k, node, hk, rfl⟩ := hanswered
  refine ⟨?_, fun other answer hmem => ?_⟩
  · rw [Readings.map_fst_set hk, h.1]
  · rcases List.mem_or_eq_of_mem_set hmem with hmem | heq
    · exact h.2 other answer hmem
    · simp only [if_true, Prod.mk.injEq, Option.some.injEq] at heq
      obtain ⟨rfl, rfl⟩ := heq
      exact ⟨_, rfl, fun heq => heq ▸ hown, hother other⟩

theorem Readings.Counted.pick {roomCount : Url → Nat} {urls : List Url}
    {url : Url} {readings : Readings} (h : readings.Counted roomCount urls url)
    (hclear : ClearlyLeast roomCount urls url) (hsettled : readings.settled) :
    pickLeastLoaded readings = some url := by
  refine hclear.pickLeastLoaded h.1 (fun answer hmem => ?_)
    fun other n hne hmem => ?_
  · obtain ⟨answer, rfl⟩ := Option.isSome_iff_exists.1
      (List.all_eq_true.1 hsettled _ hmem)
    obtain ⟨n, rfl, hn, -⟩ := h.2 url answer hmem
    exact ⟨n, rfl, hn rfl⟩
  · obtain ⟨n', heq, -, hn⟩ := h.2 other _ hmem
    cases heq
    exact hn hne

theorem Counted.picks {roomCount : Url → Nat} {urls : List Url} {url url' : Url}
    {s : RoomCalls ι κ} {i : ι} {instanceId : Instance} {w' : World ι κ} {readings : Readings}
    (h : Counted roomId roomCount urls url s)
    (hclear : ClearlyLeast roomCount urls url)
    (hi : s.proc i = .getStats readings)
    (hs : GetOrCreateRoom.Step i instanceId roomId s.world true (s.proc i) w'
      (.createOrGetMediaRoom url' .call)) : url' = url := by
  rw [hi] at hs
  cases hs with
  | picked hanswered hsettled hpick =>
      have hcounted := (h.readings i readings hi).answered h.own h.other hanswered
      rw [hcounted.pick hclear hsettled] at hpick
      exact (Option.some.inj hpick).symm

omit [DecidableEq κ] in
theorem Counted.quiet {roomCount : Url → Nat} {urls : List Url} {url : Url}
    {s : RoomCalls ι κ} {i : ι} {w' : World ι κ} {point' : GetOrCreateRoom ι κ}
    (h : Counted roomId roomCount urls url s)
    (hurls : w'.serviceUrls = s.world.serviceUrls)
    (hsfu : w'.sfu = s.world.sfu)
    (hpoint : ∀ readings, point' = .getStats readings →
      readings.Counted roomCount urls url) :
    Counted roomId roomCount urls url (s.set i w' point') where
  serviceUrls := hurls.trans h.serviceUrls
  own := by rw [Pool.set_world, hsfu]; exact h.own
  uncounted := by rw [Pool.set_world, hsfu]; exact h.uncounted
  other := by rw [Pool.set_world, hsfu]; exact h.other
  readings j readings hj := by
    rw [Pool.set_proc] at hj
    split at hj
    · exact hpoint readings hj
    · exact h.readings j readings hj

theorem Counted.put_step {roomCount : Url → Nat} {urls : List Url} {url : Url}
    {s : RoomCalls ι κ} {i : ι} {ok : Bool}
    {request request' : Sfu.GetOrCreateRoom (ι ⊕ κ)} {node : Sfu.State (ι ⊕ κ)}
    (h : Counted roomId roomCount urls url s)
    (hput : request.step (.inl i) roomId ok (s.world.sfu url) =
      some (node, request')) :
    Counted roomId roomCount urls url (s.set i (s.world.setSfu url node)
      (.createOrGetMediaRoom url request')) := by
  have hcount : node.roomCount ≤ roomCount url + 1 ∧
      (node.rooms.lookup roomId = none → node.roomCount = roomCount url) := by
    rcases Sfu.GetOrCreateRoom.step_rooms hput with hrooms | hrooms
    · simp only [Sfu.State.roomCount, hrooms]
      exact ⟨h.own, h.uncounted⟩
    · by_cases hmem : roomId ∈ (s.world.sfu url).rooms
      · simp only [Sfu.State.roomCount, hrooms, Dict.size_insert_of_mem _ hmem]
        exact ⟨h.own, fun hnone => by simp at hnone⟩
      · simp only [Sfu.State.roomCount, hrooms, Dict.size_insert_of_notMem _ hmem]
        refine ⟨?_, fun hnone => by simp at hnone⟩
        exact (congrArg (· + 1) (h.uncounted (AList.lookup_eq_none.2 hmem))).le
  refine ⟨h.serviceUrls, ?_, ?_, fun other hother => ?_, fun j readings hj => ?_⟩
  · rw [Pool.set_world, World.sfu_setSfu, if_pos rfl]
    exact hcount.1
  · rw [Pool.set_world, World.sfu_setSfu, if_pos rfl]
    exact hcount.2
  · rw [Pool.set_world, World.sfu_setSfu, if_neg hother]
    exact h.other other hother
  · rw [Pool.set_proc] at hj
    split at hj
    · cases hj
    · exact h.readings j readings hj

theorem Counted.step {roomCount : Url → Nat} {urls : List Url} {url : Url}
    {s : RoomCalls ι κ} {i : ι} {instanceId : Instance} {w' : World ι κ}
    {point' : GetOrCreateRoom ι κ}
    (h : Counted roomId roomCount urls url s) (hpinned : PinnedTo roomId url s)
    (hs : GetOrCreateRoom.Step i instanceId roomId s.world true (s.proc i) w'
      point') : Counted roomId roomCount urls url (s.set i w' point') := by
  have hled := hpinned.led i
  have hreadings := h.readings i
  generalize s.proc i = point at hs hled hreadings
  cases hs with
  | @put _ url' request request' node hput =>
      obtain rfl := hled url' rfl
      exact h.put_step hput
  | read hanswered =>
      refine h.quiet rfl rfl fun readings' heq => ?_
      cases heq
      exact (hreadings _ rfl).answered h.own h.other hanswered
  | begins =>
      refine h.quiet rfl rfl fun readings' heq => ?_
      cases heq
      rw [h.serviceUrls]
      exact ⟨by simp [Function.comp_def], by simp⟩
  | _ => exact h.quiet rfl rfl nofun

/-- The url that the calls have been given never changes, and the room ends up
on its node only. -/
structure Converges (calls : System (RoomCalls ι κ) (ι × Event)) (roomId : RoomId)
    (w : World ι κ) (schedule : List (ι × Event)) : Prop where
  kept : calls.Meets (KeepsUrl calls) (.issued w) schedule
  converged : Converged roomId (calls.run (.issued w) schedule)

/-- However the calls interleave, they all choose the node that clearly is the
least loaded. -/
theorem ClearlyLeast.converges [Nonempty ι] {w : World ι κ} {url : Url}
    (hw : NotYetExisting roomId w)
    (hclear : ClearlyLeast (fun url => (w.sfu url).roomCount) w.serviceUrls url)
    {schedule : List (ι × Event)} (hok : ∀ a ∈ schedule, a.2.ok = true)
    (hdone : ∀ i, (((roomsService roomId instanceOf).run (.issued w)
      schedule).proc i).hasReturned) :
    Converges (roomsService roomId instanceOf) roomId w schedule := by
  have hmeets : (roomsService roomId instanceOf).Meets
      (fun _ a => a.2.ok = true) (.issued w) schedule :=
    System.meets_of_forall fun a ha _ => hok a ha
  have hstart : PinnedTo roomId url (.issued w) ∧
      Counted roomId (fun url => (w.sfu url).roomCount) w.serviceUrls url
        (.issued w) :=
    ⟨hw.pinnedTo url, rfl, Nat.le_succ _, fun _ => rfl, fun _ _ => rfl, nofun⟩
  have hpreserves : (roomsService roomId instanceOf).Preserves
      (fun _ a => a.2.ok = true) (fun s : RoomCalls ι κ =>
        PinnedTo roomId url s ∧ Counted roomId (fun url => (w.sfu url).roomCount)
          w.serviceUrls url s) := by
    rintro s ⟨i, event⟩ s' ⟨hpinned, hcounted⟩ hevent hstep
    obtain ⟨w', point', hpoint, rfl⟩ := Pool.step_eq_some.1 hstep
    have hs := GetOrCreateRoom.step_cases hpoint
    rw [show event.ok = true from hevent] at hs
    refine ⟨hpinned.step hs fun readings url' hi heq => ?_,
      hcounted.step hpinned hs⟩
    subst heq
    exact hcounted.picks hclear hi hs
  refine ⟨hmeets.along hpreserves (fun s a s' h _ hstep => h.1.keepsUrl hstep)
    hstart, ?_⟩
  exact (hmeets.holds hpreserves (fun _ h => h) hstart).last.1.converged hdone

/-! ## One instance -/

/-- The one creation of the instance has chosen its node. -/
structure Decided (roomId : RoomId) (instanceId : Instance) (url : Url)
    (s : RoomCalls ι κ) : Prop where
  pinned : PinnedTo roomId url s
  chosen : ∀ i readings, s.proc i ≠ .getStats readings
  under : s.world.redis.room = none → s.world.pendingRooms instanceId ≠ none

/-- The calls of one instance, before and after the choice. -/
structure Sharing (roomId : RoomId) (instanceId : Instance)
    (s : RoomCalls ι κ) : Prop where
  creations : Creations s.world fun i => some (instanceId, s.proc i)
  decision : (∀ url, PinnedTo roomId url s) ∨
    ∃ url, Decided roomId instanceId url s

theorem Decided.step {instanceId : Instance} {url : Url} {s : RoomCalls ι κ}
    {i : ι} {ok : Bool} {w' : World ι κ} {point' : GetOrCreateRoom ι κ}
    (h : Decided roomId instanceId url s)
    (hs : GetOrCreateRoom.Step i instanceId roomId s.world ok (s.proc i) w'
      point') (hthrew : point' ≠ .threw) :
    Decided roomId instanceId url (s.set i w' point') := by
  have hpinned : PinnedTo roomId url (s.set i w' point') :=
    h.pinned.step hs
      fun readings _ hi => absurd hi (h.chosen i readings)
  have hchosen := h.chosen i
  have hunder := h.under
  generalize s.proc i = point at hs hchosen
  refine ⟨hpinned, fun j readings => ?_, ?_⟩
  · rw [Pool.set_proc]
    split
    · cases hs with
      | begins hroom hpending => exact absurd hpending (hunder hroom)
      | read => exact absurd rfl (hchosen _)
      | _ => exact nofun
    · exact h.chosen j readings
  · rw [Pool.set_world]
    cases hs with
    | begins hroom hpending => exact absurd hpending (hunder hroom)
    | recorded => exact nofun
    | read | picked => exact absurd rfl (hchosen _)
    | unserved | unreachable | unanswered | unrecorded => exact absurd rfl hthrew
    | _ => exact hunder

/-- No other call of the instance is choosing when one has chosen. -/
theorem Decided.of_picked {instanceId : Instance} {url : Url}
    {s : RoomCalls ι κ} {i : ι} {ok : Bool} {w' : World ι κ} {readings : Readings}
    (hcreations : Creations s.world fun i => some (instanceId, s.proc i))
    (hopen : ∀ url, PinnedTo roomId url s) (hi : s.proc i = .getStats readings)
    (hs : GetOrCreateRoom.Step i instanceId roomId s.world ok (s.proc i) w'
      (.createOrGetMediaRoom url .call)) :
    Decided roomId instanceId url
      (s.set i w' (.createOrGetMediaRoom url .call)) := by
  have hpending : ∀ j readings, s.proc j = .getStats readings →
      s.world.pendingRooms instanceId = some j := fun j readings hj =>
    hcreations.creating j instanceId _ rfl (by rw [hj]; rfl)
  refine ⟨(hopen url).step hs
    fun _ url' _ heq => ?_, fun j readings' hj => ?_, ?_⟩
  · cases heq
    rfl
  · rw [Pool.set_proc] at hj
    split at hj
    · cases hj
    · next hji =>
      have heq := (hpending j readings' hj).symm.trans (hpending i readings hi)
      exact hji (Option.some.inj heq)
  · rw [Pool.set_world]
    rw [hi] at hs
    cases hs with
    | picked => exact fun _ => by simp [hpending i readings hi]

theorem Sharing.step {instanceId : Instance} {s : RoomCalls ι κ}
    {i : ι} {ok : Bool} {w' : World ι κ} {point' : GetOrCreateRoom ι κ}
    (h : Sharing roomId instanceId s)
    (hs : GetOrCreateRoom.Step i instanceId roomId s.world ok (s.proc i) w'
      point') (hthrew : point' ≠ .threw) :
    Sharing roomId instanceId (s.set i w' point') := by
  obtain ⟨hcreations, hdecision⟩ := h
  refine ⟨hcreations.step rfl hs (fun j => ?_) (.inl (by simp)), ?_⟩
  · by_cases hji : j = i
    · exact .inl hji
    · exact .inr (by rw [Pool.set_proc_ne _ _ _ hji])
  · rcases hdecision with hopen | ⟨url, hdecided⟩
    · by_cases hpick : ∃ readings url, s.proc i = .getStats readings ∧
          point' = .createOrGetMediaRoom url .call
      · obtain ⟨readings, url, hi, rfl⟩ := hpick
        exact .inr ⟨url, .of_picked hcreations hopen hi hs⟩
      · refine .inl fun url => (hopen url).step hs
          fun readings url' hi heq => absurd ⟨readings, url', hi, heq⟩ hpick
    · exact .inr ⟨url, hdecided.step hs hthrew⟩

omit [DecidableEq ι] [DecidableEq κ] in
theorem Sharing.pinnedTo {instanceId : Instance} {s : RoomCalls ι κ}
    (h : Sharing roomId instanceId s) : ∃ url, PinnedTo roomId url s := by
  rcases h.decision with hopen | ⟨url, hdecided⟩
  · exact ⟨"", hopen ""⟩
  · exact ⟨url, hdecided.pinned⟩

theorem RoomCalls.threw_stays :
    (roomsService (ι := ι) (κ := κ) roomId instanceOf).Preserves
      (fun _ _ => True) fun s => ¬ ∀ i, s.proc i ≠ .threw := by
  rintro s ⟨i, event⟩ s' hthrew - hstep hnone
  obtain ⟨w', point', hpoint, rfl⟩ := Pool.step_eq_some.1 hstep
  refine hthrew fun j hj => ?_
  by_cases hji : j = i
  · subst hji
    rw [hj] at hpoint
    cases event <;> cases hpoint
  · exact hnone j (by rw [Pool.set_proc_ne _ _ _ hji, hj])

/-- The calls of one instance share one creation. -/
theorem converges_of_oneInstance [Nonempty ι] {w : World ι κ}
    (hw : NotYetExisting roomId w) (hone : ∀ i j, instanceOf i = instanceOf j)
    {schedule : List (ι × Event)}
    (hdone : ∀ i, (((roomsService roomId instanceOf).run (.issued w)
      schedule).proc i).hasReturned) :
    Converges (roomsService roomId instanceOf) roomId w schedule := by
  have hmeets : (roomsService roomId instanceOf).Meets
      (fun s a => ∀ i,
        ((roomsService roomId instanceOf).next s a).proc i ≠ .threw)
      (.issued w) schedule := by
    refine System.meets_of_last RoomCalls.threw_stays fun i hi => ?_
    have hreturned := hdone i
    rw [hi] at hreturned
    cases hreturned
  obtain ⟨i₀⟩ := ‹Nonempty ι›
  have hstart : Sharing roomId (instanceOf i₀) (.issued w) := by
    refine ⟨⟨fun n i hi => ?_, nofun, fun i _ _ _ _ => hw.creation i⟩,
      .inl hw.pinnedTo⟩
    simp [RoomCalls.issued, hw.pendingRooms] at hi
  have hpreserves : (roomsService (κ := κ) roomId instanceOf).Preserves
      (fun s a => ∀ i,
        ((roomsService roomId instanceOf).next s a).proc i ≠ .threw)
      (Sharing roomId (instanceOf i₀)) := by
    rintro s ⟨i, event⟩ s' hsharing hthrew hstep
    have hnext := System.next_of_step hstep
    obtain ⟨w', point', hpoint, rfl⟩ := Pool.step_eq_some.1 hstep
    have hs := GetOrCreateRoom.step_cases hpoint
    rw [hone i i₀] at hs
    refine hsharing.step hs ?_
    have hi := hthrew i
    rwa [hnext, Pool.set_proc_self] at hi
  have hkeeps := hmeets.along hpreserves (fun s a s' h _ hstep =>
    h.pinnedTo.elim fun url hpinned => hpinned.keepsUrl hstep) hstart
  obtain ⟨url, hpinned⟩ :=
    (hmeets.holds hpreserves (fun _ h => h) hstart).last.pinnedTo
  exact ⟨hkeeps, have := Nonempty.intro i₀; hpinned.converged hdone⟩

end MeetServer.Realtime
