import MeetServer.Realtime.Redis
import MeetServer.Realtime.SfuRegistry
import MeetServer.Sfu.MediaRooms

/-!
# A burst of `RoomsService.createRoom` calls

Many room ids at once: a call `i` creates the room `roomId i`, and every request
is one step.  Nothing is reserved between the answers on which a call chooses its
node and its PUT, unlike in `WorkerPoolService.reserveWorker`.  The counts of the
nodes stay level exactly while every PUT finds one of the least loaded nodes.
-/

namespace MeetServer.Realtime

open MeetServer.Foundation

variable {ι : Type} [DecidableEq ι]

/-- The sfu nodes and the room records in Redis. -/
structure Cluster (ι : Type) where
  serviceUrls : List Url
  sfu : Url → Sfu.State ι
  room : RoomId → Option Room

def Cluster.setSfu (w : Cluster ι) (url : Url) (node : Sfu.State ι) : Cluster ι :=
  { w with sfu := Function.update w.sfu url node }

omit [DecidableEq ι] in
theorem Cluster.sfu_setSfu (w : Cluster ι) (url other : Url) (node : Sfu.State ι) :
    (w.setSfu url node).sfu other = if other = url then node else w.sfu other := by
  simp only [setSfu, Function.update_apply]

inductive CreateRoom where
  | getStats (readings : Readings)
  | createOrGetMediaRoom (url : Url)
  | set (room : Room)
  | returned (room : Room)
  | threw
  deriving DecidableEq

/-- One answer of a request: of the stats request to the node `k`, or of the PUT or the
SET that the call awaits. -/
inductive RequestAnswer where
  | stats (k : Nat) (ok : Bool)
  | settle (ok : Bool)
  deriving DecidableEq, Repr

/-- `MediaRoomsService.getOrCreateRoom` without another call in between. -/
def putMediaRoom (i : ι) (roomId : RoomId) (ok : Bool) (node : Sfu.State ι) :
    Sfu.State ι × Bool :=
  match Sfu.GetOrCreateRoom.step i roomId ok node .call with
  | some (node, .returned _) => (node, true)
  | some (node, .createRouter worker) =>
      match Sfu.GetOrCreateRoom.step i roomId ok node (.createRouter worker) with
      | some (node, .returned _) => (node, true)
      | some (node, _) => (node, false)
      | none => (node, false)
  | some (node, _) => (node, false)
  | none => (node, false)

namespace CreateRoom

/-- `pickLeastLoaded` after the last answer. -/
def afterStats (readings : Readings) : CreateRoom :=
  if readings.settled then
    match pickLeastLoaded readings with
    | none => .threw
    | some url => .createOrGetMediaRoom url
  else .getStats readings

def begin (serviceUrls : List Url) : CreateRoom :=
  afterStats (serviceUrls.map fun url => (url, none))

def step (i : ι) (roomId : RoomId) (answer : RequestAnswer) (w : Cluster ι) :
    CreateRoom → Option (Cluster ι × CreateRoom)
  | .getStats readings =>
      match answer with
      | .stats k ok =>
          match readings[k]? with
          | some (url, none) =>
              let count := if ok then .fulfilled (w.sfu url).roomCount else .rejected
              some (w, afterStats (readings.set k (url, some count)))
          | _ => none
      | .settle _ => none
  | .createOrGetMediaRoom url =>
      match answer with
      | .stats _ _ => none
      | .settle ok =>
          let (node, answered) := putMediaRoom i roomId ok (w.sfu url)
          let w := w.setSfu url node
          if answered then
            some (w, .set {
              id := roomId
              rtpCapabilities := node.rtpCapabilities
              sfuNodeUrl := url })
          else some (w, .threw)
  | .set room =>
      match answer with
      | .stats _ _ => none
      | .settle ok =>
          if ok then
            some ({ w with room := Function.update w.room roomId (some room) }, .returned room)
          else some (w, .threw)
  | .returned _ | .threw => none

def finished : CreateRoom → Bool
  | .returned _ | .threw => true
  | _ => false

end CreateRoom

def burst (roomId : ι → RoomId) : System (Pool ι (Cluster ι) CreateRoom) (ι × RequestAnswer) :=
  Pool.system fun i answer w point => point.step i (roomId i) answer w

omit [DecidableEq ι] in
def Cluster.start (w : Cluster ι) : Pool ι (Cluster ι) CreateRoom :=
  ⟨w, fun _ => .begin w.serviceUrls⟩

omit [DecidableEq ι] in
def Cluster.roomCount (w : Cluster ι) (url : Url) : Nat := (w.sfu url).roomCount

/-- The nodes hold equally many rooms and none of the new ones, and can create more. -/
structure Cluster.Even (w : Cluster ι) (roomId : ι → RoomId) : Prop where
  equal : ∀ url ∈ w.serviceUrls, ∀ other ∈ w.serviceUrls, w.roomCount url = w.roomCount other
  new : ∀ url i, (w.sfu url).rooms.lookup (roomId i) = none
  idle : ∀ url i, (w.sfu url).pendingRooms (roomId i) = none
  workers : ∀ url ∈ w.serviceUrls, (w.sfu url).workerPool.workers ≠ []

/-- A PUT that is answered finds a node with the fewest rooms. -/
def LandsOnLeast (p : Pool ι (Cluster ι) CreateRoom) (a : ι × RequestAnswer) : Prop :=
  ∀ url, p.proc a.1 = .createOrGetMediaRoom url → a.2 = .settle true →
    ∀ other ∈ p.world.serviceUrls, p.world.roomCount url ≤ p.world.roomCount other

/-- The room counts of any two nodes differ by at most one. -/
def Spread (p : Pool ι (Cluster ι) CreateRoom) : Prop :=
  Level p.world.roomCount p.world.serviceUrls

/-! ## One PUT -/

section Put

variable {i : ι} {roomId : RoomId} {node : Sfu.State ι}

structure Puts (roomId : RoomId) (ok : Bool) (node node' : Sfu.State ι) : Prop where
  roomCount : node'.roomCount = node.roomCount + if ok then 1 else 0
  rooms : ∀ id, id ≠ roomId → node'.rooms.lookup id = node.rooms.lookup id
  pendingRooms : ∀ id, node.pendingRooms id = none → node'.pendingRooms id = none
  workers : node'.workerPool.workers = node.workerPool.workers

theorem putMediaRoom_spec (ok : Bool) (hnew : node.rooms.lookup roomId = none)
    (hidle : node.pendingRooms roomId = none) (hworkers : node.workerPool.workers ≠ []) :
    Puts roomId ok node (putMediaRoom i roomId ok node).1 ∧
      (putMediaRoom i roomId ok node).2 = ok := by
  obtain ⟨⟨worker, pool⟩, hreserve⟩ :=
    Option.isSome_iff_exists.1 (Sfu.WorkerPool.reserveWorker_isSome hworkers)
  obtain ⟨-, hpool, -⟩ := Sfu.WorkerPool.reserveWorker_spec hreserve
  have hnotMem : roomId ∉ node.rooms := AList.lookup_eq_none.1 hnew
  have hpending (id : RoomId) (hid : node.pendingRooms id = none) (v : Option ι) :
      Function.update (Function.update node.pendingRooms roomId v) roomId none id = none := by
    by_cases h : id = roomId <;> simp [h, hid]
  cases ok with
  | true =>
      simp only [putMediaRoom, Sfu.GetOrCreateRoom.step, hnew, hidle, Sfu.createRoom, hreserve]
      refine ⟨⟨?_, fun id hid => ?_, fun id hid => hpending id hid _, hpool⟩, rfl⟩
      · exact Dict.size_insert_of_notMem _ hnotMem
      · exact AList.lookup_insert_ne hid
  | false =>
      simp only [putMediaRoom, Sfu.GetOrCreateRoom.step, hnew, hidle, Sfu.createRoom, hreserve]
      refine ⟨⟨rfl, fun id hid => rfl, fun id hid => hpending id hid _, ?_⟩, rfl⟩
      exact (Sfu.WorkerPool.workers_trackRouterClosed pool worker).trans hpool

end Put

/-! ## Every run -/

namespace CreateRoom

def asks : CreateRoom → List Url → Prop
  | .getStats readings, serviceUrls => readings.map Prod.fst = serviceUrls
  | .createOrGetMediaRoom url, serviceUrls => url ∈ serviceUrls
  | _, _ => True

def waiting : CreateRoom → Bool
  | .getStats _ | .createOrGetMediaRoom _ => true
  | _ => false

theorem asks_afterStats (readings : Readings) :
    (afterStats readings).asks (readings.map Prod.fst) := by
  unfold afterStats
  split
  · split
    · trivial
    · next url hurl =>
      rw [pickLeastLoaded_eq_argmin, Option.map_eq_some_iff] at hurl
      obtain ⟨node, hnode, rfl⟩ := hurl
      have hmem := mem_reachable.1 (List.argmin_mem hnode)
      exact List.mem_map_of_mem hmem
  · rfl

theorem asks_of_not_waiting {point : CreateRoom} (h : point.waiting = false)
    (serviceUrls : List Url) : point.asks serviceUrls := by
  cases point with
  | getStats | createOrGetMediaRoom => cases h
  | _ => trivial

/-- The transitions of `CreateRoom.step` for a room that the nodes do not have. -/
inductive Step (i : ι) (roomId : RoomId) (w : Cluster ι) :
    RequestAnswer → CreateRoom → Cluster ι → CreateRoom → Prop
  | stats {k : Nat} {ok : Bool} {readings readings' : Readings} :
      readings'.map Prod.fst = readings.map Prod.fst →
      Step i roomId w (.stats k ok) (.getStats readings) w (afterStats readings')
  | put {ok : Bool} {url : Url} {node : Sfu.State ι} {point' : CreateRoom} :
      Puts roomId ok (w.sfu url) node → point'.waiting = false →
      Step i roomId w (.settle ok) (.createOrGetMediaRoom url) (w.setSfu url node) point'
  | set {ok : Bool} {room : Room} {w' : Cluster ι} {point' : CreateRoom} :
      w'.sfu = w.sfu → w'.serviceUrls = w.serviceUrls → point'.waiting = false →
      Step i roomId w (.settle ok) (.set room) w' point'

theorem step_cases {i : ι} {roomId : RoomId} {answer : RequestAnswer} {w w' : Cluster ι}
    {point point' : CreateRoom} (hasks : point.asks w.serviceUrls)
    (hnew : point.waiting = true → ∀ url, (w.sfu url).rooms.lookup roomId = none)
    (hidle : ∀ url, (w.sfu url).pendingRooms roomId = none)
    (hworkers : ∀ url ∈ w.serviceUrls, (w.sfu url).workerPool.workers ≠ [])
    (h : point.step i roomId answer w = some (w', point')) :
    Step i roomId w answer point w' point' := by
  cases point with
  | getStats readings =>
      cases answer with
      | settle ok => cases h
      | stats k ok =>
          simp only [step] at h
          split at h
          · next url hk =>
            obtain ⟨rfl, rfl⟩ := Prod.mk.inj (Option.some.inj h)
            exact .stats (Readings.map_fst_set hk _)
          · cases h
  | createOrGetMediaRoom url =>
      cases answer with
      | stats k ok => cases h
      | settle ok =>
          obtain ⟨hputs, hanswered⟩ := putMediaRoom_spec (i := i) ok (hnew rfl url) (hidle url)
            (hworkers url hasks)
          simp only [step] at h
          split at h <;> cases h <;> exact .put hputs rfl
  | set room =>
      cases answer with
      | stats k ok => cases h
      | settle ok =>
          simp only [step] at h
          split at h <;> cases h <;> exact .set rfl rfl rfl
  | returned room => cases h
  | threw => cases h

end CreateRoom

/-- The calls know the nodes, and the rooms that they are going to create are new. -/
structure Bursting (roomId : ι → RoomId) (p : Pool ι (Cluster ι) CreateRoom) : Prop where
  spread : Spread p
  asks : ∀ i, (p.proc i).asks p.world.serviceUrls
  new : ∀ i, (p.proc i).waiting = true → ∀ url, (p.world.sfu url).rooms.lookup (roomId i) = none
  idle : ∀ url i, (p.world.sfu url).pendingRooms (roomId i) = none
  workers : ∀ url ∈ p.world.serviceUrls, (p.world.sfu url).workerPool.workers ≠ []

variable {roomId : ι → RoomId} {w : Cluster ι} {p p' : Pool ι (Cluster ι) CreateRoom}
  {a : ι × RequestAnswer}

omit [DecidableEq ι] in
theorem Bursting.start (h : w.Even roomId) : Bursting roomId w.start where
  spread url hurl other hother := by
    have heq := h.equal url hurl other hother
    change w.roomCount url ≤ w.roomCount other + 1
    omega
  asks i := by
    have hasks := CreateRoom.asks_afterStats (w.serviceUrls.map fun url => (url, none))
    rwa [List.map_map, Function.comp_def, List.map_id'] at hasks
  new i _ url := h.new url i
  idle := h.idle
  workers := h.workers

/-- What a step does to the counts: an answered PUT adds one at its node. -/
theorem Bursting.roomCount (h : Bursting roomId p) (hstep : (burst roomId).step p a = some p') :
    p'.world.serviceUrls = p.world.serviceUrls ∧
      ((∃ url, p.proc a.1 = .createOrGetMediaRoom url ∧ a.2 = .settle true ∧
          p'.world.roomCount =
            Function.update p.world.roomCount url (p.world.roomCount url + 1)) ∨
        (∀ url, p.proc a.1 = .createOrGetMediaRoom url → a.2 ≠ .settle true) ∧
          p'.world.roomCount = p.world.roomCount) := by
  obtain ⟨i, answer⟩ := a
  obtain ⟨w', point', hcall, rfl⟩ := Pool.step_eq_some.1 hstep
  have hs := CreateRoom.step_cases (h.asks i) (h.new i) (fun url => h.idle url i) h.workers hcall
  generalize hc : p.proc i = point at hs
  cases hs with
  | stats hurls => exact ⟨rfl, .inr ⟨nofun, rfl⟩⟩
  | set hsfu hurls hdone =>
      refine ⟨hurls, .inr ⟨nofun, ?_⟩⟩
      funext url
      simp [Cluster.roomCount, hsfu]
  | @put ok url node point' hputs hdone =>
      refine ⟨rfl, ?_⟩
      have hcounts : (p.world.setSfu url node).roomCount = Function.update p.world.roomCount url
          (p.world.roomCount url + if ok then 1 else 0) := by
        funext other
        rw [Cluster.roomCount, Cluster.sfu_setSfu, Function.update_apply]
        split
        · exact hputs.roomCount
        · rfl
      cases ok with
      | true => exact .inl ⟨url, rfl, rfl, hcounts⟩
      | false =>
          refine .inr ⟨fun _ _ => nofun, hcounts.trans ?_⟩
          simp

theorem Bursting.step (h : Bursting roomId p) (hdistinct : Function.Injective roomId)
    (hstep : (burst roomId).step p a = some p') (hspread : Spread p') : Bursting roomId p' := by
  obtain ⟨i, answer⟩ := a
  obtain ⟨w', point', hcall, rfl⟩ := Pool.step_eq_some.1 hstep
  have hs := CreateRoom.step_cases (h.asks i) (h.new i) (fun url => h.idle url i) h.workers hcall
  have hasks := h.asks i
  have hnew := h.new i
  generalize hc : p.proc i = point at hs hasks hnew
  cases hs with
  | @stats k ok readings readings' hurls =>
      refine ⟨hspread, fun j => ?_, fun j hj => ?_, h.idle, h.workers⟩ <;>
        simp only [Pool.set_proc] at *
      · split
        · have hkept := CreateRoom.asks_afterStats readings'
          rwa [hurls, hasks] at hkept
        · exact h.asks j
      · split at hj
        · next heq =>
          rw [heq]
          exact hnew rfl
        · exact h.new j hj
  | set hsfu hurls hdone =>
      refine ⟨hspread, fun j => ?_, fun j hj => ?_, ?_, ?_⟩ <;>
        simp only [Pool.set_proc, Pool.set_world, hsfu, hurls] at *
      · split
        · exact CreateRoom.asks_of_not_waiting hdone _
        · exact h.asks j
      · split at hj
        · rw [hdone] at hj
          cases hj
        · exact h.new j hj
      · exact h.idle
      · exact h.workers
  | @put ok url node point' hputs hdone =>
      refine ⟨hspread, fun j => ?_, fun j hj other => ?_, fun other j => ?_, fun other hother => ?_⟩
      · rw [Pool.set_proc]
        split
        · exact CreateRoom.asks_of_not_waiting hdone _
        · exact h.asks j
      · rw [Pool.set_proc] at hj
        split at hj
        · rw [hdone] at hj
          cases hj
        · next hji =>
          have hid : roomId j ≠ roomId i := fun heq => hji (hdistinct heq)
          rw [Pool.set_world, Cluster.sfu_setSfu]
          split
          · rw [hputs.rooms _ hid]
            exact h.new j hj url
          · exact h.new j hj other
      · rw [Pool.set_world, Cluster.sfu_setSfu]
        split
        · exact hputs.pendingRooms _ (h.idle url j)
        · exact h.idle other j
      · rw [Pool.set_world, Cluster.sfu_setSfu]
        split
        · rw [hputs.workers]
          exact h.workers url hasks
        · exact h.workers other hother

/-- The counts stay level in a step exactly when its PUT finds a least loaded node. -/
theorem Bursting.spread_step (h : Bursting roomId p)
    (hstep : (burst roomId).step p a = some p') : Spread p' ↔ LandsOnLeast p a := by
  obtain ⟨hurls, ⟨url, hc, hanswer, hcounts⟩ | ⟨hnot, hcounts⟩⟩ := h.roomCount hstep
  · have hasks := h.asks a.1
    rw [hc] at hasks
    rw [Spread, hurls, hcounts, h.spread.update_iff hasks]
    constructor
    · intro hleast url' hc' _
      rw [hc] at hc'
      cases hc'
      exact hleast
    · exact fun hleast => hleast url hc hanswer
  · rw [Spread, hurls, hcounts]
    exact ⟨fun _ url hc hanswer => (hnot url hc hanswer).elim, fun _ => h.spread⟩

/-- The counts of the nodes are level after every step exactly when every PUT finds a node
that still has the fewest rooms. -/
theorem holds_spread_iff (hdistinct : Function.Injective roomId) (heven : w.Even roomId)
    (schedule : List (ι × RequestAnswer)) :
    (burst roomId).Holds Spread w.start schedule ↔
      (burst roomId).Meets LandsOnLeast w.start schedule :=
  System.holds_iff_meets_of_iff (I := Bursting roomId) (fun _ h => h.spread)
    (fun _ _ _ h => h.step hdistinct) (fun _ _ _ h => h.spread_step) (.start heven) schedule

/-! Two calls that read both nodes before either creates its room. -/

def evenNodes : Cluster (Fin 2) where
  serviceUrls := ["a", "b"]
  sfu _ := .spawned [0]
  room _ := none

def twoRooms : Fin 2 → RoomId
  | 0 => "r"
  | 1 => "s"

def readThenPut (i j : ι) : List (ι × RequestAnswer) :=
  [(i, .stats 0 true), (i, .stats 1 true), (j, .stats 0 true), (j, .stats 1 true),
    (i, .settle true), (j, .settle true), (i, .settle true), (j, .settle true)]

theorem evenNodes_even : evenNodes.Even twoRooms := by
  constructor <;> simp [evenNodes, Cluster.roomCount, Sfu.State.spawned, Sfu.WorkerPool.spawned]

theorem twoRooms_injective : Function.Injective twoRooms := by decide

instance (p : Pool ι (Cluster ι) CreateRoom) : Decidable (Spread p) :=
  inferInstanceAs (Decidable (Level _ _))

/-- Both rooms are on the first node when the calls have finished. -/
theorem not_spread_readThenPut :
    evenNodes.Even twoRooms ∧ Function.Injective twoRooms ∧
      (∀ i, (((burst twoRooms).run evenNodes.start (readThenPut 0 1)).proc i).finished = true) ∧
      ¬ Spread ((burst twoRooms).run evenNodes.start (readThenPut 0 1)) :=
  ⟨evenNodes_even, twoRooms_injective, by decide, by decide⟩

theorem holds_spread_iff_readThenPut :
    (burst twoRooms).Holds Spread evenNodes.start (readThenPut 0 1) ↔
      (burst twoRooms).Meets LandsOnLeast evenNodes.start (readThenPut 0 1) :=
  holds_spread_iff twoRooms_injective evenNodes_even (readThenPut 0 1)

end MeetServer.Realtime
