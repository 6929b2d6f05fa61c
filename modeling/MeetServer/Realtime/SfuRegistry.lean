import MeetServer.Contracts
import MeetServer.Foundation.FirstLeast
import MeetServer.Foundation.Pool

/-!
# `SfuRegistryService`

The choice of a node for a new room
(`apps/realtime/src/sfu-client/sfu-registry.service.ts`).
-/

namespace MeetServer.Realtime

open MeetServer.Foundation

structure ReachableSfuNode where
  nodeUrl : Url
  roomCount : Nat
  deriving DecidableEq, Repr

/-- The requests of `Promise.allSettled`, with the answers received so far. -/
abbrev Readings := List (Url × Option (Settlement Nat))

def reachableNode : Url × Option (Settlement Nat) → Option ReachableSfuNode
  | (nodeUrl, some (.fulfilled roomCount)) => some { nodeUrl, roomCount }
  | _ => none

def Readings.settled (readings : Readings) : Bool :=
  readings.all fun reading => reading.2.isSome

/-- `none` is the error that no node is reachable. -/
def pickLeastLoaded (readings : Readings) : Option Url :=
  match readings.filterMap reachableNode with
  | [] => none
  | first :: rest =>
      some (firstLeast ReachableSfuNode.roomCount first (first :: rest)).nodeUrl

theorem pickLeastLoaded_eq_argmin (readings : Readings) :
    pickLeastLoaded readings =
      ((readings.filterMap reachableNode).argmin
        ReachableSfuNode.roomCount).map ReachableSfuNode.nodeUrl := by
  unfold pickLeastLoaded
  cases readings.filterMap reachableNode with
  | nil => rfl
  | cons first rest => rw [argmin_eq_firstLeast, Option.map_some]

/-- An answer does not change which nodes are asked. -/
theorem Readings.map_fst_set {readings : Readings} {k : Nat} {url : Url}
    {answer : Option (Settlement Nat)} (h : readings[k]? = some (url, answer))
    (answer' : Option (Settlement Nat)) :
    (readings.set k (url, answer')).map Prod.fst = readings.map Prod.fst := by
  rw [List.map_set]
  refine List.ext_getElem? fun n => ?_
  rw [List.getElem?_set]
  split
  · next heq =>
    subst heq
    obtain ⟨hk, hget⟩ := List.getElem?_eq_some_iff.1 h
    simp [hk, hget]
  · rfl

/-! ## Stable choices -/

/-- Every node answers with its count. -/
def Readings.of (roomCount : Url → Nat) (urls : List Url) : Readings :=
  urls.map fun url => (url, some (.fulfilled (roomCount url)))

/-- `url` is the first least loaded node, and would be with one more room. -/
def ClearlyLeast (roomCount : Url → Nat) (urls : List Url) (url : Url) : Prop :=
  ∃ before after, urls = before ++ url :: after ∧ url ∉ before ∧
    (∀ other ∈ before, roomCount url + 2 ≤ roomCount other) ∧
    ∀ other ∈ after, other ≠ url → roomCount url + 1 ≤ roomCount other

theorem mem_reachable {readings : Readings} {node : ReachableSfuNode} :
    node ∈ readings.filterMap reachableNode ↔
      (node.nodeUrl, some (.fulfilled node.roomCount)) ∈ readings := by
  rw [List.mem_filterMap]
  constructor
  · rintro ⟨⟨url, answer⟩, hmem, hnode⟩
    unfold reachableNode at hnode
    split at hnode
    · next heq =>
      cases heq
      cases hnode
      exact hmem
    · cases hnode
  · exact fun hmem => ⟨_, hmem, rfl⟩

/-- The choice does not depend on whether the chosen node's new room has been
counted. -/
theorem ClearlyLeast.pickLeastLoaded {roomCount : Url → Nat} {urls : List Url}
    {url : Url} {readings : Readings} (h : ClearlyLeast roomCount urls url)
    (hurls : readings.map Prod.fst = urls)
    (hown : ∀ answer, (url, answer) ∈ readings →
      ∃ n, answer = some (.fulfilled n) ∧ n ≤ roomCount url + 1)
    (hother : ∀ other n, other ≠ url →
      (other, some (.fulfilled n)) ∈ readings → n = roomCount other) :
    pickLeastLoaded readings = some url := by
  obtain ⟨before, after, rfl, hfirst, hbefore, hafter⟩ := h
  obtain ⟨readBefore, rest, rfl, rfl, hrest⟩ := List.map_eq_append_iff.1 hurls
  obtain ⟨⟨url, answer⟩, readAfter, rfl, rfl, rfl⟩ := List.map_eq_cons_iff.1 hrest
  obtain ⟨n, rfl, hn⟩ := hown answer (by simp)
  rw [pickLeastLoaded_eq_argmin, List.filterMap_append, List.filterMap_cons]
  simp only [reachableNode]
  have hmem (m : ReachableSfuNode) (hm : m ∈ readBefore.filterMap reachableNode ∨
      m ∈ readAfter.filterMap reachableNode) (hne : m.nodeUrl ≠ url) :
      m.roomCount = roomCount m.nodeUrl := by
    refine hother m.nodeUrl m.roomCount hne ?_
    rcases hm with hm | hm
    · simp [mem_reachable.1 hm]
    · simp [mem_reachable.1 hm]
  cases hchosen : List.argmin ReachableSfuNode.roomCount
      (readBefore.filterMap reachableNode ++
        ⟨url, n⟩ :: readAfter.filterMap reachableNode) with
  | none => simp [List.argmin_eq_none] at hchosen
  | some chosen =>
      refine congrArg some (argmin_satisfies
        (P := fun m : ReachableSfuNode => m.nodeUrl = url) (a := ⟨url, n⟩) rfl
        (fun m hm hne => ?_) (fun m hm hne => ?_) hchosen)
      · have hcount := hmem m (.inl hm) hne
        have hmargin := hbefore m.nodeUrl
          (List.mem_map_of_mem (mem_reachable.1 hm))
        change n < m.roomCount
        omega
      · have hcount := hmem m (.inr hm) hne
        have hmargin := hafter m.nodeUrl
          (List.mem_map_of_mem (mem_reachable.1 hm)) hne
        change n ≤ m.roomCount
        omega

theorem filterMap_reachableNode_of (roomCount : Url → Nat) (urls : List Url) :
    (Readings.of roomCount urls).filterMap reachableNode =
      urls.map fun url => ⟨url, roomCount url⟩ := by
  simp [Readings.of, List.filterMap_map, Function.comp_def, reachableNode]

theorem mem_of_pickLeastLoaded {roomCount : Url → Nat} {urls : List Url}
    {url : Url} (h : pickLeastLoaded (.of roomCount urls) = some url) :
    url ∈ urls := by
  rw [pickLeastLoaded_eq_argmin, filterMap_reachableNode_of,
    Option.map_eq_some_iff] at h
  obtain ⟨chosen, hchosen, rfl⟩ := h
  obtain ⟨url, hurl, rfl⟩ := List.mem_map.1 (List.argmin_mem hchosen)
  exact hurl

theorem exists_pickLeastLoaded (roomCount : Url → Nat) {urls : List Url}
    (h : urls ≠ []) : ∃ url, pickLeastLoaded (.of roomCount urls) = some url := by
  rw [← Option.isSome_iff_exists, pickLeastLoaded_eq_argmin,
    filterMap_reachableNode_of, Option.isSome_map, Option.isSome_iff_ne_none, Ne,
    List.argmin_eq_none, List.map_eq_nil_iff]
  exact h

theorem clearlyLeast_of_pickLeastLoaded {roomCount : Url → Nat}
    {urls : List Url} {url : Url}
    (h : pickLeastLoaded (.of (Function.update roomCount url (roomCount url + 1))
      urls) = some url) : ClearlyLeast roomCount urls url := by
  rw [pickLeastLoaded_eq_argmin, filterMap_reachableNode_of,
    Option.map_eq_some_iff] at h
  obtain ⟨chosen, hchosen, hurl⟩ := h
  obtain ⟨least, hmem, rfl⟩ := List.mem_map.1 (List.argmin_mem hchosen)
  simp only at hurl
  subst hurl
  obtain ⟨before, after, rfl, hfirst⟩ := List.eq_append_cons_of_mem hmem
  simp only [List.map_append, List.map_cons] at hchosen
  refine ⟨before, after, rfl, hfirst, fun other hother => ?_,
    fun other hother hne => ?_⟩
  · have hlt := lt_of_mem_argmin (by simpa using hfirst) hchosen
      ⟨other, _⟩ (List.mem_map_of_mem hother)
    have hne : other ≠ least := fun heq => hfirst (heq ▸ hother)
    simp only [Function.update_self, Function.update_of_ne hne] at hlt
    omega
  · have hle := List.le_of_mem_argmin (a := ⟨other, _⟩)
      (List.mem_append_right _ (List.mem_cons_of_mem _
        (List.mem_map_of_mem hother))) hchosen
    simpa only [Function.update_self, Function.update_of_ne hne] using hle

end MeetServer.Realtime
