import MeetServer.Realtime.Pinning

/-!
# Creations that no node agrees with

When no node is clearly the least loaded, two instances can be made to create
the room on two nodes: both find no record, and one of them reads the loads
after the other has created its MediaRoom.  When the room's id does not survive
the URL, the node that the record names gets a MediaRoom under another id.
-/

namespace MeetServer.Realtime

open MeetServer.Foundation

variable {ι κ : Type} [DecidableEq ι] [DecidableEq κ]

/-- The `getOrCreateRoom` calls with the requests that their URLs come to. -/
def routedRoomsService (roomId : RoomId) (instanceOf : ι → Instance) :
    System (RoomCalls ι κ) (ι × Event) :=
  Pool.system fun i event w point =>
    point.routedStep i (instanceOf i) roomId event w

theorem routedRoomsService_eq {roomId : RoomId} (instanceOf : ι → Instance)
    (h : Rest.Survives .createOrGetRoom
      (Rest.Operation.createOrGetMediaRoom roomId).params) :
    routedRoomsService (κ := κ) roomId instanceOf = roomsService roomId instanceOf := by
  simp only [routedRoomsService, GetOrCreateRoom.routedStep_eq h, roomsService]

abbrev Reaches (roomId : RoomId) (instanceOf : ι → Instance)
    (s s' : RoomCalls ι κ) : Prop :=
  (routedRoomsService roomId instanceOf).ReachableWhen (fun _ a => a.2.ok = true) s s'

variable {roomId : RoomId} {instanceOf : ι → Instance} {s : RoomCalls ι κ}
  {i : ι}

theorem Reaches.one (event : Event) {w' : World ι κ}
    {point' : GetOrCreateRoom ι κ} (hok : event.ok = true)
    (h : (s.proc i).routedStep i (instanceOf i) roomId event s.world =
      some (w', point')) :
    Reaches roomId instanceOf s (s.set i w' point') :=
  .step (a := (i, event)) .start hok (Pool.step_eq_some.2 ⟨w', point', h, rfl⟩)

theorem Reaches.next {w w' : World ι κ} {point point' : GetOrCreateRoom ι κ}
    (h : Reaches roomId instanceOf s (s.set i w point)) (event : Event)
    (hok : event.ok = true)
    (hstep : point.routedStep i (instanceOf i) roomId event w = some (w', point')) :
    Reaches roomId instanceOf s (s.set i w' point') := by
  have hone : Reaches roomId instanceOf (s.set i w point)
      ((s.set i w point).set i w' point') :=
    .one event hok (by rw [Pool.set_proc_self]; exact hstep)
  rw [Pool.set_set] at hone
  exact h.trans hone

/-! ## The steps of one creation -/

variable (roomId instanceOf) in
theorem reaches_getStats (hi : s.proc i = .getRoom)
    (hroom : s.world.redis.room = none)
    (hpending : s.world.pendingRooms (instanceOf i) = none)
    (hurls : s.world.serviceUrls ≠ []) :
    Reaches roomId instanceOf s
      (s.set i (s.world.beginCreation (instanceOf i) i)
        (.getStats (s.world.serviceUrls.map fun url => (url, none)))) := by
  refine .one (.settle true) rfl ?_
  rw [hi]
  simp only [GetOrCreateRoom.routedStep, GetOrCreateRoom.step, GetOrCreateRoom.settle,
    if_true, GetOrCreateRoom.afterGetRoom, hroom, hpending, GetOrCreateRoom.afterStats]
  cases hcons : s.world.serviceUrls with
  | nil => exact absurd hcons hurls
  | cons url urls => simp [Readings.settled]

theorem GetOrCreateRoom.routedStep_stats (roomId : RoomId) (i : ι)
    (instanceId : Instance) (w : World ι κ) (done rest : Readings) (node : Url) :
    (getStats (done ++ (node, none) :: rest)).routedStep i instanceId roomId
        (.stats done.length true) w =
      some (afterStats i instanceId (done ++
        (node, some (.fulfilled (w.sfu node).roomCount)) :: rest) w) := by
  simp [routedStep, step, answerStats]

/-- The nodes answer one after the other. -/
theorem reaches_createOrGetMediaRoom {url : Url} (todo : List Url)
    (htodo : todo ≠ []) (done : Readings) (hdone : done.settled)
    (hi : s.proc i = .getStats (done ++ todo.map fun url => (url, none)))
    (hpick : pickLeastLoaded (done ++
      .of (fun url => (s.world.sfu url).roomCount) todo) = some url) :
    Reaches roomId instanceOf s
      (s.set i s.world (.createOrGetMediaRoom url .call)) := by
  induction todo generalizing done s with
  | nil => exact absurd rfl htodo
  | cons node todo ih =>
      have hstep := GetOrCreateRoom.routedStep_stats roomId i (instanceOf i) s.world
        done (todo.map fun url => (url, none)) node
      simp only [Readings.settled] at hdone
      cases todo with
      | nil =>
          refine .one (.stats done.length true) rfl ?_
          rw [hi, List.map_cons, hstep]
          simp only [List.map_nil, GetOrCreateRoom.afterStats]
          rw [Readings.of, List.map_singleton] at hpick
          rw [if_pos (by simp [Readings.settled, hdone]), hpick]
      | cons next todo =>
          obtain ⟨answered, hanswered⟩ : ∃ answered : Readings, answered =
              done ++ [(node, some (.fulfilled (s.world.sfu node).roomCount))] :=
            ⟨_, rfl⟩
          have hnext : Reaches roomId instanceOf s (s.set i s.world (.getStats
              (answered ++ (next :: todo).map fun url => (url, none)))) := by
            refine .one (.stats done.length true) rfl ?_
            rw [hi, List.map_cons, hstep]
            simp [GetOrCreateRoom.afterStats, Readings.settled, hanswered]
          have hrest := ih (by simp) answered
            (by simpa [Readings.settled, hanswered] using hdone)
            (Pool.set_proc_self s _ _ _)
            (by simpa [Readings.of, hanswered] using hpick)
          rw [Pool.set_set] at hrest
          exact hnext.trans hrest

variable (instanceOf) in
/-- The node creates the MediaRoom that it has received, or finds it. -/
theorem reaches_served {received : RoomId} {url : Url}
    (hreceived : receivedRoomId roomId = some received)
    (hi : s.proc i = .createOrGetMediaRoom url .call)
    (hpending : (s.world.sfu url).pendingRooms received = none)
    (hworkers : (s.world.sfu url).workerPool.workers ≠ []) :
    ∃ w' r, Reaches roomId instanceOf s
        (s.set i w' (.createOrGetMediaRoom url (.returned r))) ∧
      (∀ other, other ≠ url → w'.sfu other = s.world.sfu other) ∧
      ((s.world.sfu url).rooms.lookup received = none →
        (w'.sfu url).roomCount = (s.world.sfu url).roomCount + 1) := by
  cases hroom : (s.world.sfu url).rooms.lookup received with
  | some r =>
      refine ⟨s.world, r, .one (.settle true) rfl ?_, fun _ _ => rfl, nofun⟩
      rw [hi]
      simp [GetOrCreateRoom.routedStep, GetOrCreateRoom.routedPut,
        GetOrCreateRoom.advancePut, Sfu.GetOrCreateRoom.step, hreceived, hroom]
  | none =>
      obtain ⟨⟨worker, pool⟩, hreserve⟩ := Option.isSome_iff_exists.1
        (Sfu.WorkerPool.reserveWorker_isSome hworkers)
      obtain ⟨w₁, hw₁⟩ : ∃ w₁ : World ι κ, w₁ = s.world.setSfu url
          ((s.world.sfu url).beginCreation received (.inl i) pool) := ⟨_, rfl⟩
      have hreserved : Reaches roomId instanceOf s
          (s.set i w₁ (.createOrGetMediaRoom url (.createRouter worker))) := by
        refine .one (.settle true) rfl ?_
        rw [hi]
        simp [GetOrCreateRoom.routedStep, GetOrCreateRoom.routedPut,
          GetOrCreateRoom.advancePut, Sfu.GetOrCreateRoom.step, Sfu.createRoom, hreceived,
          hroom, hpending, hreserve, hw₁]
      obtain ⟨w₂, hw₂⟩ : ∃ w₂ : World ι κ, w₂ = w₁.setSfu url
          (((w₁.sfu url).addRoom received (.inl i) worker).settleCreation received
            (.inl i) (.fulfilled (.inl i))) := ⟨_, rfl⟩
      have hcreated : Reaches roomId instanceOf s
          (s.set i w₂ (.createOrGetMediaRoom url (.returned (.inl i)))) := by
        refine hreserved.next (.settle true) rfl ?_
        simp [GetOrCreateRoom.routedStep, GetOrCreateRoom.routedPut,
          GetOrCreateRoom.advancePut, Sfu.GetOrCreateRoom.step, hreceived, hw₂]
      refine ⟨w₂, .inl i, hcreated, fun other hother => ?_, fun _ => ?_⟩
      · simp [hw₂, hw₁, World.sfu_setSfu, hother]
      · have hnew : received ∉ (s.world.sfu url).rooms := AList.lookup_eq_none.1 hroom
        simp only [hw₂, hw₁, World.sfu_setSfu, if_true, Sfu.State.roomCount,
          Sfu.State.settleCreation, Sfu.State.addRoom, Sfu.State.beginCreation]
        exact Dict.size_insert_of_notMem _ hnew

variable (instanceOf) in
theorem reaches_returned {received : RoomId} {url : Url}
    (hreceived : receivedRoomId roomId = some received)
    (hi : s.proc i = .createOrGetMediaRoom url .call)
    (hpending : (s.world.sfu url).pendingRooms received = none)
    (hworkers : (s.world.sfu url).workerPool.workers ≠ []) :
    ∃ w' room, Reaches roomId instanceOf s (s.set i w' (.returned room)) ∧
      room.sfuNodeUrl = url ∧ w'.redis.room = some room ∧
      (∀ other, other ≠ url → w'.sfu other = s.world.sfu other) ∧
      ((s.world.sfu url).rooms.lookup received = none →
        (w'.sfu url).roomCount = (s.world.sfu url).roomCount + 1) := by
  obtain ⟨w₁, r, hserved, hothers, hcount⟩ :=
    reaches_served instanceOf hreceived hi hpending hworkers
  have hanswered := hserved.next (.settle true) rfl rfl
  have hrecorded := hanswered.next (.settle true) rfl rfl
  exact ⟨_, _, hrecorded, rfl, rfl, hothers, hcount⟩

variable (instanceOf) in
theorem reaches_recorded {received : RoomId} {url : Url} {urls : List Url}
    (hreceived : receivedRoomId roomId = some received) (hurls : urls ≠ [])
    (hi : s.proc i = .getStats (urls.map fun url => (url, none)))
    (hpick : pickLeastLoaded (.of (fun url => (s.world.sfu url).roomCount) urls) =
      some url)
    (hpending : (s.world.sfu url).pendingRooms received = none)
    (hworkers : (s.world.sfu url).workerPool.workers ≠ []) :
    ∃ w' room, Reaches roomId instanceOf s (s.set i w' (.returned room)) ∧
      room.sfuNodeUrl = url ∧ w'.redis.room = some room ∧
      (∀ other, other ≠ url → w'.sfu other = s.world.sfu other) ∧
      ((s.world.sfu url).rooms.lookup received = none →
        (w'.sfu url).roomCount = (s.world.sfu url).roomCount + 1) := by
  have hchosen : Reaches roomId instanceOf s _ :=
    reaches_createOrGetMediaRoom urls hurls [] rfl hi hpick
  obtain ⟨w', room, hreaches, hrest⟩ := reaches_returned instanceOf hreceived
    (Pool.set_proc_self s i s.world _) hpending hworkers
  rw [Pool.set_set] at hreaches
  exact ⟨w', room, hchosen.trans hreaches, hrest⟩

variable (roomId instanceOf) in
/-- Once the record is there, the other calls return one after the other. -/
theorem reaches_hasReturned {room : Room} (hroom : s.world.redis.room = some room)
    (hs : ∀ i, s.proc i = .getRoom ∨ (s.proc i).hasReturned) (l : List ι) :
    ∃ s', Reaches roomId instanceOf s s' ∧ s'.world = s.world ∧
      (∀ i, s'.proc i = .getRoom ∨ (s'.proc i).hasReturned) ∧
      (∀ i, (s.proc i).hasReturned → s'.proc i = s.proc i) ∧
      ∀ i ∈ l, (s'.proc i).hasReturned := by
  induction l with
  | nil => exact ⟨s, .start, rfl, hs, fun _ _ => rfl, by simp⟩
  | cons i l ih =>
      obtain ⟨s', hreaches, hworld, hall, hkept, hl⟩ := ih
      rcases hall i with hi | hi
      · have hfound : Reaches roomId instanceOf s'
            (s'.set i s'.world (.expire room)) := by
          refine .one (.settle true) rfl ?_
          rw [hi]
          simp [GetOrCreateRoom.routedStep, GetOrCreateRoom.step,
            GetOrCreateRoom.settle, GetOrCreateRoom.afterGetRoom, hworld, hroom]
        have hreturns := hfound.next (.settle true) rfl rfl
        refine ⟨_, hreaches.trans hreturns, hworld, fun j => ?_, fun j hj => ?_,
          fun j hj => ?_⟩
        · rw [Pool.set_proc]
          split
          · exact .inr rfl
          · exact hall j
        · rw [Pool.set_proc]
          split
          · next hji =>
            subst hji
            rw [hkept j hj] at hi
            rw [hi] at hj
            cases hj
          · exact hkept j hj
        · rw [Pool.set_proc]
          split
          · rfl
          · next hji => exact hl j ((List.mem_cons.1 hj).resolve_left hji)
      · exact ⟨s', hreaches, hworld, hall, hkept,
          List.forall_mem_cons.2 ⟨hi, hl⟩⟩

/-! ## Two creations -/

/-- Calls on two instances both find no record. -/
theorem reaches_bothChoosing {w : World ι κ} {a b : ι}
    (hw : NotYetExisting roomId w) (hurls : w.serviceUrls ≠ [])
    (hab : instanceOf a ≠ instanceOf b) :
    ∃ s, Reaches roomId instanceOf (.issued w) s ∧ s.world.sfu = w.sfu ∧
      ∀ i, s.proc i = if i = a ∨ i = b then
        .getStats (w.serviceUrls.map fun url => (url, none)) else .getRoom := by
  have hne : b ≠ a := by
    rintro rfl
    exact hab rfl
  obtain ⟨s₁, hs₁⟩ : ∃ s₁ : RoomCalls ι κ, s₁ = (RoomCalls.issued w).set a
      (w.beginCreation (instanceOf a) a)
      (.getStats (w.serviceUrls.map fun url => (url, none))) := ⟨_, rfl⟩
  have hfirst : Reaches roomId instanceOf (.issued w) s₁ := by
    rw [hs₁]
    exact reaches_getStats roomId instanceOf rfl hw.room (hw.pendingRooms _) hurls
  have hidle : s₁.world.pendingRooms (instanceOf b) = none := by
    simp [hs₁, World.beginCreation, hw.pendingRooms, hab.symm]
  have hsecond := reaches_getStats roomId instanceOf (s := s₁) (i := b)
    (by rw [hs₁, Pool.set_proc_ne _ _ _ hne]; rfl) (by rw [hs₁]; exact hw.room)
    hidle (by rw [hs₁]; exact hurls)
  refine ⟨_, hfirst.trans hsecond, by rw [hs₁]; rfl, fun i => ?_⟩
  rw [Pool.set_proc, hs₁, Pool.set_proc]
  by_cases hib : i = b
  · simp [hib, World.beginCreation]
  · by_cases hia : i = a <;> simp [hib, hia, RoomCalls.issued, hne.symm]

/-- The first creation changes the second one's choice. -/
theorem exists_diverging [Fintype ι] {w : World ι κ} {a b : ι}
    (hreceived : receivedRoomId roomId = some roomId)
    (hw : NotYetExisting roomId w) (hurls : w.serviceUrls ≠ [])
    (hworkers : ∀ url ∈ w.serviceUrls, (w.sfu url).workerPool.workers ≠ [])
    (hab : instanceOf a ≠ instanceOf b)
    (hnot : ∀ url, ¬ ClearlyLeast (fun url => (w.sfu url).roomCount)
      w.serviceUrls url) :
    ∃ schedule : List (ι × Event), (∀ a ∈ schedule, a.2.ok = true) ∧
      (∀ i, (((routedRoomsService roomId instanceOf).run (.issued w)
        schedule).proc i).hasReturned) ∧
      ¬ Converged roomId
        ((routedRoomsService roomId instanceOf).run (.issued w) schedule) := by
  have hne : b ≠ a := by
    rintro rfl
    exact hab rfl
  obtain ⟨url, hurl⟩ :=
    exists_pickLeastLoaded (fun url => (w.sfu url).roomCount) hurls
  obtain ⟨url', hurl'⟩ := exists_pickLeastLoaded
    (Function.update (fun url => (w.sfu url).roomCount) url
      ((w.sfu url).roomCount + 1)) hurls
  have hdiffer : url' ≠ url := by
    rintro rfl
    exact hnot url' (clearlyLeast_of_pickLeastLoaded hurl')
  obtain ⟨s, hboth, hsfu, hproc⟩ := reaches_bothChoosing hw hurls hab
  obtain ⟨w₁, room₁, hfirst, hroom₁, -, hothers, hcount⟩ :=
    reaches_recorded instanceOf (s := s) (i := a) hreceived hurls (by simp [hproc])
      (by rwa [hsfu]) (by rw [hsfu]; exact hw.sfuPending url)
      (by rw [hsfu]; exact hworkers url (mem_of_pickLeastLoaded hurl))
  have hcounts : (fun url => (w₁.sfu url).roomCount) = Function.update
      (fun url => (w.sfu url).roomCount) url ((w.sfu url).roomCount + 1) := by
    funext other
    by_cases hother : other = url
    · rw [hother, Function.update_self, hcount (by rw [hsfu]; exact hw.mediaRoom url), hsfu]
    · rw [Function.update_of_ne hother, hothers other hother, hsfu]
  have hnode : w₁.sfu url' = w.sfu url' := by rw [hothers url' hdiffer, hsfu]
  obtain ⟨w₂, room₂, hsecond, hroom₂, hstored, -, -⟩ :=
    reaches_recorded instanceOf (s := s.set a w₁ (.returned room₁))
      (i := b) hreceived hurls (by simp [hproc, Pool.set_proc, hne])
      (by rw [Pool.set_world, hcounts]; exact hurl')
      (by rw [Pool.set_world, hnode]; exact hw.sfuPending url')
      (by rw [Pool.set_world, hnode]
          exact hworkers url' (mem_of_pickLeastLoaded hurl'))
  generalize hs₂ : (s.set a w₁ (.returned room₁)).set b w₂ _ = s₂ at hsecond
  have ha : s₂.proc a = .returned room₁ := by
    rw [← hs₂, Pool.set_proc_ne _ _ _ hne.symm, Pool.set_proc_self]
  have hb : s₂.proc b = .returned room₂ := by
    rw [← hs₂, Pool.set_proc_self]
  have hrest (i : ι) : s₂.proc i = .getRoom ∨ (s₂.proc i).hasReturned := by
    by_cases hib : i = b
    · exact .inr (by rw [hib, hb]; rfl)
    · by_cases hia : i = a
      · exact .inr (by rw [hia, ha]; rfl)
      · exact .inl (by
          rw [← hs₂, Pool.set_proc_ne _ _ _ hib, Pool.set_proc_ne _ _ _ hia, hproc,
            if_neg (by simp [hia, hib])])
  obtain ⟨s₃, hfinish, -, -, hkept, hall⟩ := reaches_hasReturned roomId instanceOf
    (by rw [← hs₂]; exact hstored) hrest Finset.univ.toList
  obtain ⟨schedule, hok, hrun⟩ :=
    (((hboth.trans hfirst).trans hsecond).trans hfinish).exists_run
      (D := fun a : ι × Event => a.2.ok = true)
  refine ⟨schedule, hok, fun i => ?_, fun hconverged => hdiffer ?_⟩
  · rw [hrun]
    exact hall i (by simp)
  · rw [hrun] at hconverged
    obtain ⟨agreed, -, hagreed⟩ := hconverged.agreed
    rw [← hroom₁, ← hroom₂, hagreed a room₁ (by rw [hkept a (by rw [ha]; rfl), ha]),
      hagreed b room₂ (by rw [hkept b (by rw [hb]; rfl), hb])]

/-! ## A room under another id -/

inductive GetOrCreateRoom.RoutedStep (i : ι) (instanceId : Instance) (roomId : RoomId)
    (w : World ι κ) :
    Bool → GetOrCreateRoom ι κ → World ι κ → GetOrCreateRoom ι κ → Prop
  | «local» {ok : Bool} {point point' : GetOrCreateRoom ι κ} {w' : World ι κ} :
      (∀ url request, point ≠ .createOrGetMediaRoom url request) →
      Step i instanceId roomId w ok point w' point' →
      RoutedStep i instanceId roomId w ok point w' point'
  | put {ok : Bool} {received : RoomId} {url : Url}
      {request request' : Sfu.GetOrCreateRoom (ι ⊕ κ)} {node : Sfu.State (ι ⊕ κ)} :
      receivedRoomId roomId = some received →
      request.step (.inl i) received ok (w.sfu url) = some (node, request') →
      RoutedStep i instanceId roomId w ok (.createOrGetMediaRoom url request)
        (w.setSfu url node) (.createOrGetMediaRoom url request')
  | answered {url : Url} {r : ι ⊕ κ} :
      RoutedStep i instanceId roomId w true (.createOrGetMediaRoom url (.returned r)) w
        (.set { id := roomId, rtpCapabilities := (w.sfu url).rtpCapabilities,
                sfuNodeUrl := url })
  | unanswered {ok : Bool} {url : Url} {request : Sfu.GetOrCreateRoom (ι ⊕ κ)} :
      RoutedStep i instanceId roomId w ok (.createOrGetMediaRoom url request)
        (w.settleCreation instanceId i .rejected) .threw

theorem GetOrCreateRoom.routedPut_cases {instanceId : Instance} {url : Url} {ok : Bool}
    {w w' : World ι κ} {request : Sfu.GetOrCreateRoom (ι ⊕ κ)}
    {point' : GetOrCreateRoom ι κ}
    (h : routedPut i instanceId roomId (receivedRoomId roomId) url ok w request =
      some (w', point')) :
    RoutedStep i instanceId roomId w ok (.createOrGetMediaRoom url request) w' point' := by
  unfold routedPut at h
  split at h
  · cases advancePut_cases h with
    | put hput => cases hput
    | answered => exact .answered
    | unanswered => exact .unanswered
  · next hreturned =>
    split at h
    · next received hreceived =>
      cases advancePut_cases h with
      | put hput => exact .put hreceived hput
      | answered => exact absurd rfl (hreturned _)
      | unanswered => exact .unanswered
    · cases h
      exact .unanswered

theorem GetOrCreateRoom.routedStep_cases {instanceId : Instance} {event : Event}
    {w w' : World ι κ} {point point' : GetOrCreateRoom ι κ}
    (h : point.routedStep i instanceId roomId event w = some (w', point')) :
    RoutedStep i instanceId roomId w event.ok point w' point' := by
  unfold routedStep at h
  split at h
  · exact routedPut_cases h
  · next hput =>
    refine .local (fun url request heq => ?_) (step_cases h)
    subst heq
    cases event with
    | settle ok => exact hput ok url request rfl rfl
    | _ => cases h

/-- No node holds a room whose id does not survive the URL. -/
theorem routedRoomsService_unheld (instanceOf : ι → Instance)
    (hreceived : receivedRoomId roomId ≠ some roomId) :
    (routedRoomsService (ι := ι) (κ := κ) roomId instanceOf).Preserves (fun _ _ => True)
      fun s => ∀ url, (s.world.sfu url).rooms.lookup roomId = none := by
  rintro s ⟨i, event⟩ s' h - hstep
  obtain ⟨w', point', hpoint, rfl⟩ := Pool.step_eq_some.1 hstep
  intro url
  rw [Pool.set_world]
  have hs := GetOrCreateRoom.routedStep_cases hpoint
  generalize s.proc i = point at hs
  generalize event.ok = ok at hs
  cases hs with
  | «local» hlocal hs =>
      cases hs with
      | put => exact absurd rfl (hlocal _ _)
      | _ => exact h url
  | @put _ received url' _ _ _ heq hput =>
      rw [World.sfu_setSfu]
      split
      · next hurl =>
        subst hurl
        have hne : roomId ≠ received := by
          rintro rfl
          exact hreceived heq
        rcases Sfu.GetOrCreateRoom.step_rooms hput with hrooms | hrooms
        · rw [hrooms]
          exact h url
        · rw [hrooms, AList.lookup_insert_ne hne]
          exact h url
      · exact h url
  | answered | unanswered => exact h url

/-- The calls agree on a node that does not hold the room. -/
theorem exists_misdirected [Fintype ι] [Nonempty ι] {w : World ι κ} {received : RoomId}
    (hreceived : receivedRoomId roomId = some received) (hne : received ≠ roomId)
    (hw : NotYetExisting roomId w)
    (hidle : ∀ url, (w.sfu url).pendingRooms received = none)
    (hurls : w.serviceUrls ≠ [])
    (hworkers : ∀ url ∈ w.serviceUrls, (w.sfu url).workerPool.workers ≠ []) :
    ∃ schedule : List (ι × Event), (∀ a ∈ schedule, a.2.ok = true) ∧
      (∀ i, (((routedRoomsService roomId instanceOf).run (.issued w)
        schedule).proc i).hasReturned) ∧
      ¬ Converged roomId
        ((routedRoomsService roomId instanceOf).run (.issued w) schedule) := by
  obtain ⟨a⟩ := ‹Nonempty ι›
  obtain ⟨url, hurl⟩ :=
    exists_pickLeastLoaded (fun url => (w.sfu url).roomCount) hurls
  obtain ⟨s₁, hs₁⟩ : ∃ s₁ : RoomCalls ι κ, s₁ = (RoomCalls.issued w).set a
      (w.beginCreation (instanceOf a) a)
      (.getStats (w.serviceUrls.map fun url => (url, none))) := ⟨_, rfl⟩
  have hbegun : Reaches roomId instanceOf (.issued w) s₁ := by
    rw [hs₁]
    exact reaches_getStats roomId instanceOf rfl hw.room (hw.pendingRooms _) hurls
  obtain ⟨w₁, room, hfirst, -, hroom, -, -⟩ :=
    reaches_recorded instanceOf (s := s₁) (i := a) hreceived hurls
      (by rw [hs₁, Pool.set_proc_self]) (by rw [hs₁]; exact hurl)
      (by rw [hs₁]; exact hidle url)
      (by rw [hs₁]; exact hworkers url (mem_of_pickLeastLoaded hurl))
  have hrest (i : ι) : (s₁.set a w₁ (.returned room)).proc i = .getRoom ∨
      ((s₁.set a w₁ (.returned room)).proc i).hasReturned := by
    rw [Pool.set_proc]
    split
    · exact .inr rfl
    · next hi =>
      rw [hs₁, Pool.set_proc_ne _ _ _ hi]
      exact .inl rfl
  obtain ⟨s₂, hfinish, -, -, -, hall⟩ := reaches_hasReturned roomId instanceOf hroom
    hrest Finset.univ.toList
  obtain ⟨schedule, hok, hrun⟩ := ((hbegun.trans hfirst).trans hfinish).exists_run
    (D := fun a : ι × Event => a.2.ok = true)
  refine ⟨schedule, hok, fun i => ?_, fun hconverged => ?_⟩
  · rw [hrun]
    exact hall i (by simp)
  · have hunheld := (routedRoomsService_unheld (κ := κ) instanceOf
      (fun h => hne (Option.some.inj (hreceived.symm.trans h)))).run
        (s := .issued w) hw.mediaRoom schedule
    obtain ⟨url, hheld, -⟩ := hconverged.one
    rw [hunheld url] at hheld
    cases hheld

/-! ## A room that cannot be asked for -/

/-- The call has not been given a room. -/
def GetOrCreateRoom.roomless : GetOrCreateRoom ι κ → Bool
  | .getRoom | .pending _ | .getStats _ | .createOrGetMediaRoom _ .call | .threw => true
  | .createOrGetMediaRoom _ _ | .expire _ | .set _ | .returned _ => false

structure Roomless (s : RoomCalls ι κ) : Prop where
  room : s.world.redis.room = none
  creation : ∀ i room, s.world.creation i ≠ some (.fulfilled room)
  roomless : ∀ i, (s.proc i).roomless

omit [DecidableEq κ] in
theorem Roomless.frame {w' : World ι κ} {point' : GetOrCreateRoom ι κ} (h : Roomless s)
    (hroom : w'.redis.room = s.world.redis.room)
    (hcreation : ∀ j room, w'.creation j = some (.fulfilled room) →
      s.world.creation j = some (.fulfilled room))
    (hpoint : point'.roomless) : Roomless (s.set i w' point') where
  room := hroom.trans h.room
  creation j room hj := h.creation j room (hcreation j room hj)
  roomless j := by
    rw [Pool.set_proc]
    split
    · exact hpoint
    · exact h.roomless j

/-- A PUT without a handler gives nobody a room. -/
theorem routedRoomsService_roomless (instanceOf : ι → Instance)
    (hreceived : receivedRoomId roomId = none) :
    (routedRoomsService (ι := ι) (κ := κ) roomId instanceOf).Preserves (fun _ _ => True)
      Roomless := by
  rintro s ⟨i, event⟩ s' h - hstep
  obtain ⟨w', point', hpoint, rfl⟩ := Pool.step_eq_some.1 hstep
  have hi := h.roomless i
  have hs := GetOrCreateRoom.routedStep_cases hpoint
  generalize s.proc i = point at hs hi
  generalize event.ok = ok at hs
  have hkept (j : ι) (room : Room)
      (hj : s.world.creation j = some (.fulfilled room)) := hj
  cases hs with
  | «local» hlocal hs =>
      cases hs with
      | put | answered | unanswered => exact absurd rfl (hlocal _ _)
      | found hroom => exact absurd (h.room.symm.trans hroom) (by simp)
      | resumed hcreation => exact absurd hcreation (h.creation _ _)
      | refreshed | unrefreshed | recorded | unrecorded => cases hi
      | unserved | unreachable =>
          exact h.frame rfl (fun _ _ => World.created_of_rejected) rfl
      | waits | begins | lostRoom | rejected | read | picked => exact h.frame rfl hkept rfl
  | put heq => exact absurd (hreceived.symm.trans heq) (by simp)
  | answered => cases hi
  | unanswered => exact h.frame rfl (fun _ _ => World.created_of_rejected) rfl

/-- The calls agree on one node that holds the room in every interleaving exactly when
no node gets the request for it, or its id survives the URL and they run on one
instance or one node is clearly the least loaded. -/
theorem converges_iff [Fintype ι] [Nonempty ι] {w : World ι κ}
    (hw : NotYetExisting roomId w)
    (hidle : ∀ received, receivedRoomId roomId = some received →
      ∀ url, (w.sfu url).pendingRooms received = none)
    (hurls : w.serviceUrls ≠ [])
    (hworkers : ∀ url ∈ w.serviceUrls, (w.sfu url).workerPool.workers ≠ []) :
    (∀ schedule : List (ι × Event), (∀ a ∈ schedule, a.2.ok = true) →
      (∀ i, (((routedRoomsService roomId instanceOf).run (.issued w)
        schedule).proc i).hasReturned) →
      Converges (routedRoomsService roomId instanceOf) roomId w schedule) ↔
    receivedRoomId roomId = none ∨
      Rest.Survives .createOrGetRoom
          (Rest.Operation.createOrGetMediaRoom roomId).params ∧
        ((∀ i j, instanceOf i = instanceOf j) ∨
          ∃ url, ClearlyLeast (fun url => (w.sfu url).roomCount) w.serviceUrls url) := by
  rw [← receivedRoomId_eq_self_iff]
  constructor
  · intro h
    cases hreceived : receivedRoomId roomId with
    | none => exact .inl rfl
    | some received =>
        by_contra hnot
        obtain ⟨schedule, hok, hdone, hdiverged⟩ : ∃ schedule : List (ι × Event),
            (∀ a ∈ schedule, a.2.ok = true) ∧
            (∀ i, (((routedRoomsService roomId instanceOf).run (.issued w)
              schedule).proc i).hasReturned) ∧
            ¬ Converged roomId
              ((routedRoomsService roomId instanceOf).run (.issued w) schedule) := by
          by_cases heq : received = roomId
          · subst heq
            obtain ⟨hinstances, hclear⟩ : (¬ ∀ i j, instanceOf i = instanceOf j) ∧
                ¬ ∃ url, ClearlyLeast (fun url => (w.sfu url).roomCount)
                  w.serviceUrls url := by
              simpa using hnot
            obtain ⟨a, ha⟩ := not_forall.1 hinstances
            obtain ⟨b, hab⟩ := not_forall.1 ha
            exact exists_diverging hreceived hw hurls hworkers hab (not_exists.1 hclear)
          · exact exists_misdirected hreceived heq hw (hidle received hreceived) hurls
              hworkers
        exact hdiverged (h schedule hok hdone).converged
  · rintro (hnone | ⟨hsurvives, hagree⟩) schedule hok hdone
    · obtain ⟨i⟩ := ‹Nonempty ι›
      have hroomless := ((routedRoomsService_roomless (κ := κ) instanceOf hnone).run
        (s := .issued w)
          ⟨hw.room, by simp [RoomCalls.issued, hw.creation], fun _ => rfl⟩
          schedule).roomless i
      have hi := hdone i
      generalize ((routedRoomsService roomId instanceOf).run (.issued w)
        schedule).proc i = point at hroomless hi
      cases point <;> first
        | exact absurd hroomless Bool.false_ne_true
        | exact absurd hi Bool.false_ne_true
    · rw [routedRoomsService_eq instanceOf (receivedRoomId_eq_self_iff.1 hsurvives)]
        at hdone ⊢
      rcases hagree with hone | ⟨url, hclear⟩
      · exact converges_of_oneInstance hw hone hdone
      · exact hclear.converges hw hok hdone

/-! Two calls on two instances, two nodes. -/

/-- The second node already holds `older`. -/
def twoNodes (older : Dict RoomId (Fin 2 ⊕ Unit)) : World (Fin 2) Unit :=
  .fresh ["m", "n"] fun url =>
    { Sfu.State.spawned [0] with rooms := if url = "n" then older else ∅ }

/-- Both find no record; the second one reads the loads at the end. -/
def oneAfterTheOther (i j : ι) : List (ι × Event) :=
  [(i, .settle true), (j, .settle true)] ++
    [(i, .stats 0 true), (i, .stats 1 true)] ++ List.replicate 4 (i, .settle true) ++
    [(j, .stats 0 true), (j, .stats 1 true)] ++ List.replicate 4 (j, .settle true)

theorem converges_loadedNode :
    Converges (routedRoomsService "r" Fin.val) "r"
      (twoNodes (AList.insert "old" (.inr ()) ∅)) (oneAfterTheOther 0 1) := by
  have hw : NotYetExisting "r" (twoNodes (AList.insert "old" (.inr ()) ∅)) := by
    refine ⟨rfl, fun _ => rfl, fun _ => rfl, fun url => ?_, fun _ => rfl,
      fun _ _ => rfl⟩
    by_cases hurl : url = "n"
    · subst hurl
      decide
    · simp [twoNodes, World.fresh, hurl]
  have hclear : ClearlyLeast
      (fun url => ((twoNodes (AList.insert "old" (.inr ()) ∅)).sfu url).roomCount)
      ["m", "n"] "m" :=
    ⟨[], ["n"], rfl, by decide, by decide, by decide⟩
  exact (converges_iff hw (fun _ _ _ => rfl) (by decide) (by decide)).2
    (.inr ⟨by decide +kernel, .inr ⟨"m", hclear⟩⟩)
    (oneAfterTheOther 0 1) (by decide) (by decide +kernel)

theorem not_converges_emptyNodes :
    ¬ Converges (routedRoomsService "r" Fin.val) "r" (twoNodes ∅)
      (oneAfterTheOther 0 1) := by
  intro h
  obtain ⟨url, -, hagreed⟩ := h.converged.agreed
  have hfirst := hagreed 0 ⟨"r", "", "m"⟩ (by decide +kernel)
  have hsecond := hagreed 1 ⟨"r", "", "n"⟩ (by decide +kernel)
  rw [← hfirst] at hsecond
  revert hsecond
  decide

end MeetServer.Realtime
