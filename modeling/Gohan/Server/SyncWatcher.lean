import Gohan.Server.StateWatcher
import Mathlib.Data.List.Sort
import Mathlib.Data.List.Induction
import Mathlib.Data.String.Basic
import Mathlib.Data.Set.Function
import Mathlib.Order.Interval.Set.Defs

/-!
# The list of processes

The processes of a cluster share out the keys to be watched.  Each of them keeps a list of the
processes that are there, from the events on the keys under `processPathPrefix`, and works out its
priority for each watch key from its position on the list and the index of the key.

The list is sorted and has no duplicates, so it is determined by its members
(`ClusterView.processList_eq`), and the priorities for one watch key are the positions rotated by
the index of the key (`priority_eq`).
-/

set_option autoImplicit false

namespace Gohan

/-- Where the processes have their keys. -/
def processPathPrefix : String := "/gohan/cluster/process"

/-- The key a process has its entry under. -/
def processKey (processID : String) : String := processPathPrefix ++ "/" ++ processID

/-- A process, and the paths that are to be watched. -/
structure SyncWatcher where
  processID : String
  watchKeys : List String

namespace SyncWatcher

/-- What the loop has at hand: the list of processes, and the path watchers that have been started
since the last event, each with the path it watches and its priority. -/
structure Loop where
  processList : List String := []
  watches : Option (List (String × ℤ)) := none

/-- The last position of the key on the list. -/
def positionOf (key : String) (processList : List String) : Option ℕ :=
  processList.zipIdx.foldl (fun pos e ↦ if e.1 == key then some e.2 else pos) none

/-- The priority of the process at `position`, for the watch key with index `idx`.  The remainder
is Go's. -/
def priority (size position idx : ℕ) : ℤ :=
  ((position : ℤ) - (idx : ℤ).tmod size + size).tmod size

/-- The path watchers that are started. -/
def runSyncWatches (watcher : SyncWatcher) (size position : ℕ) : List (String × ℤ) :=
  watcher.watchKeys.zipIdx.map fun e ↦ (e.1, priority size position e.2)

/-- The list after a membership event. -/
def updateList (processList : List String) (event : Event) : List String :=
  let pos := positionOf event.Key processList
  if event.Action == "delete" then
    match pos with
    | some pos => processList.eraseIdx pos
    | none => processList
  else
    match pos with
    | some _ => processList
    | none => (processList ++ [event.Key]).insertionSort (· ≤ ·)

/-- One membership event.  The path watchers that run are stopped first. -/
def handleEvent (watcher : SyncWatcher) (loop : Loop) (event : Event) : Loop :=
  let processList := updateList loop.processList event
  match processList.findIdx? (· == processKey watcher.processID) with
  | some myPosition =>
    { processList, watches := some (watcher.runSyncWatches processList.length myPosition) }
  | none => { processList, watches := none }

/-- The loop, from what it has at hand.  An event with an error ends it. -/
def processWatchLoopFrom (watcher : SyncWatcher) (loop : Loop) : List (Go Event) → Go Loop
  | [] => .ok loop
  | .error err :: _ => .error err
  | .ok event :: events => watcher.processWatchLoopFrom (watcher.handleEvent loop event) events

/-- `processWatchLoop`, for the events that it gets. -/
def processWatchLoop (watcher : SyncWatcher) (events : List (Go Event)) : Go Loop :=
  watcher.processWatchLoopFrom {} events

theorem processWatchLoopFrom_map_ok (watcher : SyncWatcher) (loop : Loop) (events : List Event) :
    watcher.processWatchLoopFrom loop (events.map .ok) =
      .ok (Machine.final watcher.handleEvent loop events) := by
  induction events generalizing loop with
  | nil => rfl
  | cons event events ih => exact ih _

@[simp]
theorem handleEvent_processList (watcher : SyncWatcher) (loop : Loop) (event : Event) :
    (watcher.handleEvent loop event).processList = updateList loop.processList event := by
  rw [handleEvent]
  split <;> rfl

end SyncWatcher

open SyncWatcher

/-! ## The members of the list -/

/-- The key has been put, and not been deleted since. -/
def Joined (events : List Event) (key : String) : Prop :=
  ∃ before event after, events = before ++ event :: after ∧
    event.Key = key ∧ event.Action ≠ "delete" ∧
      ∀ e ∈ after, e.Key = key → e.Action ≠ "delete"

/-- The list that the events call for. -/
structure ClusterView (events : List Event) (processList : List String) : Prop where
  /-- The list is sorted, and no key is twice on it. -/
  sorted : processList.Pairwise (· < ·)
  mem_iff : ∀ key, key ∈ processList ↔ Joined events key

theorem not_joined_nil (key : String) : ¬Joined [] key := by
  rintro ⟨before, event, after, h, -⟩
  simp at h

theorem joined_append {events : List Event} {event : Event} {key : String} :
    Joined (events ++ [event]) key ↔
      if event.Key = key then event.Action ≠ "delete" else Joined events key := by
  constructor
  · rintro ⟨before, e, after, heq, hkey, haction, hafter⟩
    rcases List.eq_nil_or_concat after with rfl | ⟨after, last, rfl⟩
    · obtain ⟨-, rfl⟩ : events = before ∧ event = e := by simpa using heq
      rwa [if_pos hkey]
    · rw [List.concat_eq_append, ← List.cons_append, ← List.append_assoc] at heq
      obtain ⟨rfl, hlast⟩ := List.append_inj' heq rfl
      obtain rfl := List.singleton_inj.mp hlast
      split
      · next hlast => exact hafter event (by simp) hlast
      · exact ⟨before, e, after, rfl, hkey, haction, fun e' he' ↦ hafter e' (by simp [he'])⟩
  · intro h
    split at h
    · next hkey => exact ⟨events, event, [], rfl, hkey, h, by simp⟩
    · next hkey =>
      obtain ⟨before, e, after, rfl, hkey', haction, hafter⟩ := h
      refine ⟨before, e, after ++ [event], by simp, hkey', haction, fun e' he' ↦ ?_⟩
      rcases List.mem_append.mp he' with he' | he'
      · exact hafter e' he'
      · obtain rfl := List.mem_singleton.mp he'
        exact fun h ↦ absurd h hkey

theorem positionOf_append (key last : String) (processList : List String) :
    positionOf key (processList ++ [last]) =
      if last == key then some processList.length else positionOf key processList := by
  simp [positionOf, List.zipIdx_append]

theorem positionOf_eq_none {key : String} {processList : List String} :
    positionOf key processList = none ↔ key ∉ processList := by
  induction processList using List.reverseRecOn with
  | nil => simp [positionOf]
  | append_singleton processList last ih =>
    rw [positionOf_append]
    by_cases h : last = key
    · simp [h]
    · simpa [h, Ne.symm h] using ih

theorem getElem?_of_positionOf {key : String} {processList : List String} {pos : ℕ}
    (h : positionOf key processList = some pos) : processList[pos]? = some key := by
  induction processList using List.reverseRecOn with
  | nil => simp [positionOf] at h
  | append_singleton processList last ih =>
    rw [positionOf_append] at h
    split at h
    · next hlast =>
      obtain rfl := Option.some.inj h
      simpa using hlast
    · have hpos := ih h
      rwa [List.getElem?_append_left (List.getElem?_eq_some_iff.mp hpos).1]

/-- What an event does to the members of the list. -/
theorem mem_updateList {processList : List String} (hnodup : processList.Nodup) {event : Event}
    {key : String} :
    key ∈ updateList processList event ↔
      if event.Key = key then event.Action ≠ "delete" else key ∈ processList := by
  rw [updateList]
  by_cases hdelete : event.Action = "delete"
  · rw [if_pos (beq_iff_eq.mpr hdelete)]
    cases hpos : positionOf event.Key processList with
    | none =>
      have habsent := positionOf_eq_none.mp hpos
      show key ∈ processList ↔ _
      split
      · next h => simpa [hdelete, ← h] using habsent
      · rfl
    | some pos =>
      have hget := getElem?_of_positionOf hpos
      obtain ⟨hlt, hget⟩ := List.getElem?_eq_some_iff.mp hget
      show key ∈ processList.eraseIdx pos ↔ _
      rw [← hnodup.erase_getElem pos hlt, hget, hnodup.mem_erase_iff]
      split
      · next h => simp [hdelete, h]
      · next h => simp [Ne.symm h]
  · rw [if_neg (by simpa using hdelete)]
    cases hpos : positionOf event.Key processList with
    | none =>
      show key ∈ (processList ++ [event.Key]).insertionSort (· ≤ ·) ↔ _
      rw [List.mem_insertionSort, List.mem_append, List.mem_singleton]
      split
      · next h => simp [hdelete, h]
      · next h => simp [Ne.symm h]
    | some pos =>
      have hmem := List.mem_of_getElem? (getElem?_of_positionOf hpos)
      show key ∈ processList ↔ _
      split
      · next h => simpa [hdelete, ← h] using hmem
      · rfl

theorem pairwise_updateList {processList : List String} (hsorted : processList.Pairwise (· < ·))
    (event : Event) : (updateList processList event).Pairwise (· < ·) := by
  rw [updateList]
  split
  · split
    · exact hsorted.sublist (List.eraseIdx_sublist ..)
    · exact hsorted
  · split
    · exact hsorted
    · next hpos =>
      have hnodup : (processList ++ [event.Key]).Nodup :=
        List.nodup_append.mpr ⟨hsorted.imp ne_of_lt, List.nodup_singleton _, by
          rintro a ha b hb rfl
          obtain rfl := List.mem_singleton.mp hb
          exact positionOf_eq_none.mp hpos ha⟩
      have hle := List.pairwise_insertionSort (· ≤ ·) (processList ++ [event.Key])
      have hne := (List.perm_insertionSort (· ≤ ·) _).nodup_iff.mpr hnodup
      exact (hle.and hne).imp fun h ↦ lt_of_le_of_ne h.1 h.2

theorem clusterView_nil : ClusterView [] [] where
  sorted := .nil
  mem_iff key := by simp [not_joined_nil key]

namespace ClusterView

variable {events events' : List Event} {processList processList' : List String}

theorem nodup (h : ClusterView events processList) : processList.Nodup := h.sorted.imp ne_of_lt

/-- **What one event preserves.** -/
theorem updateList (h : ClusterView events processList) (event : Event) :
    ClusterView (events ++ [event]) (updateList processList event) where
  sorted := pairwise_updateList h.sorted event
  mem_iff key := by
    rw [mem_updateList h.nodup, joined_append, h.mem_iff key]

/-- The list is determined by the membership. -/
theorem processList_eq (h : ClusterView events processList) (h' : ClusterView events' processList')
    (hsame : ∀ key, Joined events key ↔ Joined events' key) : processList = processList' :=
  h.sorted.eq_of_mem_iff h'.sorted fun key ↦ by rw [h.mem_iff, h'.mem_iff, hsame]

end ClusterView

/-- **What a whole run preserves.** -/
theorem clusterView_final (watcher : SyncWatcher) (events : List Event) :
    ClusterView events (Machine.final watcher.handleEvent {} events).processList := by
  induction events using List.reverseRecOn with
  | nil => exact clusterView_nil
  | append_singleton events event ih =>
    rw [Machine.final_append]
    show ClusterView _ (watcher.handleEvent _ event).processList
    rw [handleEvent_processList]
    exact ih.updateList event

/-! ## The priorities -/

/-- The priority is the position, rotated by the index of the watch key. -/
theorem priority_eq {size position : ℕ} (h : position < size) (idx : ℕ) :
    priority size position idx =
      if position < idx % size then (position : ℤ) - (idx % size : ℕ) + size
      else (position : ℤ) - (idx % size : ℕ) := by
  have hidx : idx % size < size := Nat.mod_lt _ (by omega)
  rw [priority, ← Int.ofNat_tmod, Int.tmod_eq_emod_of_nonneg (by omega)]
  split
  · exact Int.emod_eq_of_lt (by omega) (by omega)
  · rw [Int.add_emod_right]
    exact Int.emod_eq_of_lt (by omega) (by omega)

/-- The priorities there are in a cluster of a size. -/
def priorities (size : ℕ) : Set ℤ := { z | 0 ≤ z ∧ z < size }

/-- **No two positions have the same priority, and each priority is that of a position.** -/
theorem bijOn_priority (size idx : ℕ) :
    Set.BijOn (priority size · idx) (Set.Iio size) (priorities size) := by
  refine ⟨fun p hp ↦ ?_, fun p hp q hq hpq ↦ ?_, fun z hz ↦ ?_⟩
  · show 0 ≤ priority size p idx ∧ priority size p idx < size
    rw [priority_eq (Set.mem_Iio.mp hp)]
    have := Set.mem_Iio.mp hp
    have hidx : idx % size < size := Nat.mod_lt _ (by omega)
    split <;> omega
  · have hp := Set.mem_Iio.mp hp
    have hq := Set.mem_Iio.mp hq
    have hidx : idx % size < size := Nat.mod_lt _ (by omega)
    have hpq : priority size p idx = priority size q idx := hpq
    rw [priority_eq hp, priority_eq hq] at hpq
    split at hpq <;> split at hpq <;> omega
  · obtain ⟨hz, hlt⟩ := hz
    have hidx : idx % size < size := Nat.mod_lt _ (by omega)
    obtain ⟨n, rfl⟩ := Int.eq_ofNat_of_zero_le hz
    by_cases hn : n + idx % size < size
    · refine ⟨n + idx % size, Set.mem_Iio.mpr hn, ?_⟩
      show priority size _ idx = _
      rw [priority_eq hn, if_neg (by omega)]
      omega
    · refine ⟨n + idx % size - size, Set.mem_Iio.mpr (by omega), ?_⟩
      show priority size _ idx = _
      rw [priority_eq (by omega), if_pos (by omega)]
      omega

theorem processKey_injective : Function.Injective processKey := by
  intro p q h
  have h := congrArg String.toList h
  simp only [processKey, String.toList_append, List.append_cancel_left_eq] at h
  exact String.toList_inj.mp h

/-! ## The processes of a cluster -/

/-- What is to be known of a cluster after membership events: of the list of its processes, and of
the priorities they work out. -/
structure Cluster (watchKeys : List String) (events : List Event) (processList : List String) :
    Prop where
  view : ClusterView events processList
  /-- Any process that has seen the same membership has the same list. -/
  agree : ∀ (watcher : SyncWatcher) (seen : List Event) (loop : Loop),
    (∀ key, Joined events key ↔ Joined seen key) →
      watcher.processWatchLoop (seen.map .ok) = .ok loop → loop.processList = processList
  /-- For each watch key the processes on the list have the priorities from 0 on, each of them
  once. -/
  share : ∀ (idx : ℕ) (path : String), watchKeys[idx]? = some path → ∃ prio : String → ℤ,
    (∀ processID, processKey processID ∈ processList →
      ∀ seen : List Event, (∀ key, Joined events key ↔ Joined seen key) →
        ∃ loop watches, processWatchLoop ⟨processID, watchKeys⟩ (seen.map .ok) = .ok loop ∧
          loop.watches = some watches ∧ watches[idx]? = some (path, prio processID)) ∧
    Set.BijOn prio { processID | processKey processID ∈ processList }
      (priorities processList.length) ∧
    (processList ≠ [] →
      ∃! processID, processKey processID ∈ processList ∧ prio processID = 0)

/-- The positions of the processes on the list. -/
theorem bijOn_idxOf {processList : List String} (hnodup : processList.Nodup)
    (hkeys : ∀ key ∈ processList, ∃ processID, key = processKey processID) :
    Set.BijOn (fun processID ↦ processList.idxOf (processKey processID))
      { processID | processKey processID ∈ processList } (Set.Iio processList.length) := by
  refine ⟨fun p hp ↦ List.idxOf_lt_length_of_mem hp, fun p hp q hq hpq ↦ ?_, fun i hi ↦ ?_⟩
  · exact processKey_injective ((List.idxOf_inj hp).mp hpq)
  · have hi : i < processList.length := hi
    obtain ⟨processID, hkey⟩ := hkeys _ (List.getElem_mem hi)
    have hmem : processKey processID ∈ processList := hkey ▸ List.getElem_mem hi
    refine ⟨processID, hmem, ?_⟩
    show processList.idxOf (processKey processID) = i
    rw [← hkey]
    exact hnodup.idxOf_getElem i hi

/-- The path watchers of a process that is on its own list. -/
theorem handleEvent_watches (watcher : SyncWatcher) (loop : Loop) (event : Event)
    (h : processKey watcher.processID ∈ updateList loop.processList event) :
    (watcher.handleEvent loop event).watches =
      some (watcher.runSyncWatches (updateList loop.processList event).length
        ((updateList loop.processList event).idxOf (processKey watcher.processID))) := by
  have hfind : (updateList loop.processList event).findIdx? (· == processKey watcher.processID) =
      some ((updateList loop.processList event).idxOf (processKey watcher.processID)) := by
    rw [List.findIdx?_eq_some_iff_findIdx_eq]
    exact ⟨List.idxOf_lt_length_of_mem h, rfl⟩
  rw [handleEvent]
  simp only [hfind]

theorem final_watches (watcher : SyncWatcher) (events : List Event)
    (h : processKey watcher.processID ∈
      (Machine.final watcher.handleEvent {} events).processList) :
    (Machine.final watcher.handleEvent {} events).watches =
      some (watcher.runSyncWatches (Machine.final watcher.handleEvent {} events).processList.length
        ((Machine.final watcher.handleEvent {} events).processList.idxOf
          (processKey watcher.processID))) := by
  rcases List.eq_nil_or_concat events with rfl | ⟨events, event, rfl⟩
  · simp [Machine.final] at h
  · rw [List.concat_eq_append, Machine.final_append] at h ⊢
    show (watcher.handleEvent _ event).watches = some (watcher.runSyncWatches
      (watcher.handleEvent _ event).processList.length
      ((watcher.handleEvent _ event).processList.idxOf _))
    rw [handleEvent_processList]
    refine handleEvent_watches watcher _ event ?_
    rw [← handleEvent_processList watcher]
    exact h

theorem getElem?_runSyncWatches (watcher : SyncWatcher) (size position : ℕ) {idx : ℕ}
    {path : String} (h : watcher.watchKeys[idx]? = some path) :
    (watcher.runSyncWatches size position)[idx]? = some (path, priority size position idx) := by
  simp [runSyncWatches, h]

/-- **The cluster after any membership events.** -/
theorem processWatchLoop_cluster (watcher : SyncWatcher) (events : List Event)
    (hkeys : ∀ event ∈ events, ∃ processID, event.Key = processKey processID) :
    ∃ loop, watcher.processWatchLoop (events.map .ok) = .ok loop ∧
      Cluster watcher.watchKeys events loop.processList := by
  have hview := clusterView_final watcher events
  refine ⟨_, processWatchLoopFrom_map_ok watcher {} events, hview, ?_, ?_⟩
  · intro watcher' seen loop hsame hloop
    rw [processWatchLoop, processWatchLoopFrom_map_ok] at hloop
    obtain rfl := Except.ok.inj hloop
    exact ((clusterView_final watcher' seen).processList_eq hview fun key ↦ (hsame key).symm)
  · intro idx path hpath
    generalize (Machine.final watcher.handleEvent {} events).processList = processList at hview
    have hkeys : ∀ key ∈ processList, ∃ processID, key = processKey processID := by
      intro key hkey
      obtain ⟨before, event, after, rfl, rfl, -⟩ := (hview.mem_iff key).mp hkey
      exact hkeys event (by simp)
    have hbij := (bijOn_priority processList.length idx).comp (bijOn_idxOf hview.nodup hkeys)
    refine ⟨_, fun processID hmem seen hsame ↦ ?_, hbij, fun hne ↦ ?_⟩
    · have hseen := clusterView_final ⟨processID, watcher.watchKeys⟩ seen
      have hlist := hview.processList_eq hseen hsame
      refine ⟨_, _, processWatchLoopFrom_map_ok _ {} seen, final_watches _ _ (hlist ▸ hmem), ?_⟩
      rw [getElem?_runSyncWatches ⟨processID, watcher.watchKeys⟩ _ _ hpath, ← hlist]
      rfl
    · have hzero : 0 ∈ priorities processList.length :=
        ⟨le_rfl, by exact_mod_cast List.length_pos_of_ne_nil hne⟩
      obtain ⟨processID, hmem, hprio⟩ := hbij.surjOn hzero
      refine ⟨processID, ⟨hmem, hprio⟩, fun other hother ↦ ?_⟩
      exact hbij.injOn hother.1 hmem (hother.2.trans hprio.symm)

/-- Two processes, one of which is put twice, and an unknown one that is deleted. -/
def eventsOfTwo : List Event :=
  [⟨"set", processKey "b", ∅⟩, ⟨"set", processKey "a", ∅⟩, ⟨"set", processKey "b", ∅⟩,
    ⟨"delete", processKey "c", ∅⟩]

theorem processWatchLoop_cluster_two :
    ∃ loop, processWatchLoop ⟨"b", ["/watch/x", "/watch/y"]⟩ (eventsOfTwo.map .ok) = .ok loop ∧
      Cluster ["/watch/x", "/watch/y"] eventsOfTwo loop.processList :=
  processWatchLoop_cluster ⟨"b", ["/watch/x", "/watch/y"]⟩ eventsOfTwo
    (by simp [eventsOfTwo, processKey_injective.eq_iff])

end Gohan
