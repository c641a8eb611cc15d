import Gohan.Etcd.Watch
import Gohan.Server.SyncWatcher

/-!
# The processes of a cluster, as etcd has them

A process registers itself by the lock of its own key under `processPathPrefix`, which goes away
with its lease, and watches the prefix from the current revision on.  The loop of the sync watcher
makes its list of processes of what the watch delivers.

When nothing is outstanding, the list of a process has just the keys that etcd has (`mem_loopOf`):
no process that was registered before the watch began is missed, and none stays that has gone while
it began.  So all processes for whom nothing is outstanding have the same list; what each takes on
follows from the length of the list and its place on it, and for every watch key there is one of the
registered processes that has priority 0 (`leader_of_run`).
-/

set_option autoImplicit false

namespace Gohan.SyncWatcher

open Etcd.Watch

variable {unmarshal : String → Dict} {server : Server} {s : State Dict} {w : Watcher Dict}

/-- An event of the watch, as the loop gets it. -/
def ofWatch (e : Etcd.Watch.Event Dict) : Gohan.Event := ⟨e.Action, e.Key, e.Data⟩

/-- What the loop of a process has at hand. -/
def loopOf (watcher : SyncWatcher) (w : Watcher Dict) : Loop :=
  Machine.final watcher.handleEvent {} (w.received.map ofWatch)

/-- The watch of the processes, with nothing outstanding. -/
structure CaughtUp (unmarshal : String → Dict) (server : Server) (w : Watcher Dict) : Prop where
  path : w.path = processPathPrefix
  loaded : w.Loaded
  idle : w.Idle unmarshal server

/-- etcd has the key of a process. -/
def Registered (server : Server) (processID : String) : Prop :=
  server.contents (processKey processID) ≠ none

instance (server : Server) (processID : String) : Decidable (Registered server processID) :=
  inferInstanceAs (Decidable (_ ≠ none))

/-- The loop has not ended. -/
theorem processWatchLoop_ofWatch (watcher : SyncWatcher) (w : Watcher Dict) :
    watcher.processWatchLoop (w.received.map fun e ↦ .ok (ofWatch e)) = .ok (watcher.loopOf w) := by
  rw [processWatchLoop, loopOf, ← processWatchLoopFrom_map_ok, List.map_map]
  rfl

/-! ## The list -/

/-- The keys that have joined are those of a copy. -/
theorem joined_iff (events : List (Etcd.Watch.Event Dict)) (key : String) :
    Joined (events.map ofWatch) key ↔ mirror events key ≠ none := by
  induction events using List.reverseRecOn with
  | nil => simp [not_joined_nil, mirror, Journal.replay]
  | append_singleton events e ih =>
    have happly : mirror (events ++ [e]) key =
        if e.Key = key then (if e.Action = "delete" then none else some e.Data)
        else mirror events key := by
      rw [mirror, List.map_append, Journal.replay_append]
      show Journal.apply (mirror events) e.entry key = _
      rw [Journal.apply]
      split
      · next h =>
        subst h
        exact Function.update_self _ _ _
      · next h => exact Function.update_of_ne (Ne.symm h) _ _
    rw [List.map_append, List.map_singleton, joined_append, happly, ih]
    show (if e.Key = key then e.Action ≠ "delete" else _) ↔ _
    split
    · split <;> simp_all
    · rfl

theorem hasPrefix_processKey (processID : String) :
    hasPrefix (processKey processID) processPathPrefix = true := by
  rw [hasPrefix, processKey, String.append_assoc, String.toList_append, List.isPrefixOf_iff_prefix]
  exact List.prefix_append _ _

/-- **The list has the keys that etcd has.** -/
theorem mem_loopOf (watcher : SyncWatcher) (h : w.Fed unmarshal server)
    (hw : CaughtUp unmarshal server w) (key : String) :
    key ∈ (watcher.loopOf w).processList ↔
      hasPrefix key processPathPrefix = true ∧ server.contents key ≠ none := by
  have hview := clusterView_final watcher (w.received.map ofWatch)
  rw [loopOf, hview.mem_iff key, joined_iff, h.mirror_idle hw.loaded hw.idle, hw.path]
  split
  · next hunder => simp [hunder]
  · next hunder => simp [hunder]

theorem processKey_mem_loopOf (watcher : SyncWatcher) (h : w.Fed unmarshal server)
    (hw : CaughtUp unmarshal server w) (processID : String) :
    processKey processID ∈ (watcher.loopOf w).processList ↔ Registered server processID := by
  rw [mem_loopOf watcher h hw]
  exact and_iff_right (hasPrefix_processKey processID)

/-- Two processes for whom nothing is outstanding have the same list. -/
theorem loopOf_processList_eq (watcher watcher' : SyncWatcher) {w' : Watcher Dict}
    (h : w.Fed unmarshal server) (h' : w'.Fed unmarshal server) (hw : CaughtUp unmarshal server w)
    (hw' : CaughtUp unmarshal server w') :
    (watcher.loopOf w).processList = (watcher'.loopOf w').processList := by
  have hview := clusterView_final watcher (w.received.map ofWatch)
  have hview' := clusterView_final watcher' (w'.received.map ofWatch)
  refine hview.sorted.eq_of_mem_iff hview'.sorted fun key ↦ ?_
  exact (mem_loopOf watcher h hw key).trans (mem_loopOf watcher' h' hw' key).symm

/-! ## The priorities -/

/-- What a registered process takes on. -/
theorem watches_loopOf (watcher : SyncWatcher) (h : w.Fed unmarshal server)
    (hw : CaughtUp unmarshal server w) (hreg : Registered server watcher.processID) :
    (watcher.loopOf w).watches = some (watcher.runSyncWatches (watcher.loopOf w).processList.length
      ((watcher.loopOf w).processList.idxOf (processKey watcher.processID))) :=
  final_watches watcher _ ((processKey_mem_loopOf watcher h hw watcher.processID).mpr hreg)

/-- On a list of processes that is not empty, one has priority 0. -/
theorem exists_leader {processList : List String} (hnodup : processList.Nodup)
    (hkeys : ∀ key ∈ processList, ∃ processID, key = processKey processID)
    (hne : processList ≠ []) (idx : ℕ) :
    ∃ leader, processKey leader ∈ processList ∧ ∀ processID, processKey processID ∈ processList →
      0 ≤ priority processList.length (processList.idxOf (processKey processID)) idx ∧
      (priority processList.length (processList.idxOf (processKey processID)) idx = 0 ↔
        processID = leader) := by
  have hbij := (bijOn_priority processList.length idx).comp (bijOn_idxOf hnodup hkeys)
  have hzero : 0 ∈ priorities processList.length :=
    ⟨le_rfl, by exact_mod_cast List.length_pos_of_ne_nil hne⟩
  obtain ⟨leader, hleader, hprio⟩ := hbij.surjOn hzero
  refine ⟨leader, hleader, fun processID hmem ↦ ⟨(hbij.mapsTo hmem).1, fun h ↦ ?_, ?_⟩⟩
  · exact hbij.injOn hmem hleader (h.trans hprio.symm)
  · rintro rfl
    exact hprio

/-- **Each process takes its share, and one leads.**  Whatever has been written in etcd and
whenever, if only processes have keys under the prefix: the processes for whom nothing is
outstanding have one and the same list, the registered processes in order; each of them that is
registered takes on the watch keys with the priorities that the length of the list and its place on
it give; and for each watch key one registered process has priority 0. -/
theorem leader_of_run (unmarshal : String → Dict) (server : Server) (acts : List Etcd.Watch.Act)
    (watchKeys : List String) (processID : ℕ → String) :
    ∀ s ∈ Machine.states (step unmarshal) (.start server) acts,
      (∀ key, hasPrefix key processPathPrefix = true → s.server.contents key ≠ none →
        ∃ id, key = processKey id) →
      ∀ i₀ w₀, s.watcher i₀ = some w₀ → CaughtUp unmarshal s.server w₀ →
        Registered s.server (processID i₀) →
      ∃ processList : List String,
        processList.Pairwise (· < ·) ∧
        (∀ key, key ∈ processList ↔ ∃ id, key = processKey id ∧ Registered s.server id) ∧
        (∀ i w, s.watcher i = some w → CaughtUp unmarshal s.server w →
          Registered s.server (processID i) → ∃ loop,
            processWatchLoop ⟨processID i, watchKeys⟩
              (w.received.map fun e ↦ .ok (ofWatch e)) = .ok loop ∧
            loop.processList = processList ∧
            loop.watches = some (runSyncWatches ⟨processID i, watchKeys⟩ processList.length
              (processList.idxOf (processKey (processID i))))) ∧
        ∀ idx : ℕ, ∃ leader, Registered s.server leader ∧ ∀ id, Registered s.server id →
          0 ≤ priority processList.length (processList.idxOf (processKey id)) idx ∧
          (priority processList.length (processList.idxOf (processKey id)) idx = 0 ↔
            id = leader) := by
  intro s hs hkeys i₀ w₀ hw₀ hcaught₀ hreg₀
  have hfed := fed_of_run _ server acts s hs
  have h₀ := hfed i₀ w₀ hw₀
  have hmem := mem_loopOf ⟨processID i₀, watchKeys⟩ h₀ hcaught₀
  have hself := (processKey_mem_loopOf ⟨processID i₀, watchKeys⟩ h₀ hcaught₀ (processID i₀)).mpr
    hreg₀
  have hview := clusterView_final ⟨processID i₀, watchKeys⟩ (w₀.received.map ofWatch)
  have hsorted := hview.sorted
  have hnodup := hview.nodup
  have hlist := fun i w hw hcaught ↦ loopOf_processList_eq ⟨processID i, watchKeys⟩
    ⟨processID i₀, watchKeys⟩ (hfed i w hw) h₀ hcaught hcaught₀
  rw [← loopOf] at hsorted hnodup
  generalize (loopOf ⟨processID i₀, watchKeys⟩ w₀).processList = processList at *
  refine ⟨processList, hsorted, fun key ↦ ?_, fun i w hw hcaught hreg ↦ ?_, fun idx ↦ ?_⟩
  · rw [hmem]
    constructor
    · rintro ⟨hunder, hcontents⟩
      obtain ⟨id, rfl⟩ := hkeys key hunder hcontents
      exact ⟨id, rfl, hcontents⟩
    · rintro ⟨id, rfl, hreg⟩
      exact ⟨hasPrefix_processKey id, hreg⟩
  · have hwatches := watches_loopOf ⟨processID i, watchKeys⟩ (hfed i w hw) hcaught hreg
    rw [hlist i w hw hcaught] at hwatches
    exact ⟨_, processWatchLoop_ofWatch _ w, hlist i w hw hcaught, hwatches⟩
  · obtain ⟨leader, hleader, hprio⟩ := exists_leader hnodup
      (fun key hkey ↦ hkeys key ((hmem key).mp hkey).1 ((hmem key).mp hkey).2)
      (List.ne_nil_of_mem hself) idx
    exact ⟨leader, ((hmem _).mp hleader).2, fun id hreg ↦
      hprio id ((hmem _).mpr ⟨hasPrefix_processKey id, hreg⟩)⟩

/-- Two processes: the second registers while the first has just asked who is there. -/
def twoProcesses : List Etcd.Watch.Act :=
  [.commit [(processKey "b", some "b")], .watch 0 processPathPrefix revisionCurrent,
    .answer 0 [processKey "b"], .commit [(processKey "a", some "a")], .send 0, .stream 0, .send 0,
    .receive 0, .receive 0]

theorem leader_of_run_twoProcesses :
    ∃ (s : State Dict) (w : Watcher Dict) (processList : List String) (loop : Loop)
      (leader : String), s.watcher 0 = some w ∧ Registered s.server leader ∧
      processWatchLoop ⟨"b", ["/watch/x", "/watch/y"]⟩
        (w.received.map fun e ↦ .ok (ofWatch e)) = .ok loop ∧ loop.processList = processList ∧
      loop.watches = some (runSyncWatches ⟨"b", ["/watch/x", "/watch/y"]⟩ processList.length
        (processList.idxOf (processKey "b"))) ∧
      (priority processList.length (processList.idxOf (processKey "b")) 1 = 0 ↔ "b" = leader) := by
  have hwatcher : ∃ w, (Machine.final (step fun _ ↦ (∅ : Dict)) (.start emptyServer)
      twoProcesses).watcher 0 = some w ∧ CaughtUp (fun _ ↦ ∅) (Machine.final
        (step fun _ ↦ (∅ : Dict)) (.start emptyServer) twoProcesses).server w :=
    ⟨_, rfl, rfl, ⟨rfl, by decide, rfl, by decide⟩, ⟨rfl, by decide, rfl⟩⟩
  obtain ⟨w, hw, hcaught⟩ := hwatcher
  have hkeys (key : String) (h : (Machine.final (step fun _ ↦ (∅ : Dict)) (.start emptyServer)
      twoProcesses).server.contents key ≠ none) : key = processKey "b" ∨ key = processKey "a" := by
    by_contra hne
    refine h (Journal.replay_of_forall_ne fun e he ↦ ?_)
    have he : e ∈ [(⟨2, processKey "b", some "b"⟩ : Change), ⟨3, processKey "a", some "a"⟩] := he
    simp only [List.mem_cons, List.not_mem_nil, or_false] at he
    rcases he with rfl | rfl
    · exact fun h ↦ hne (.inl h.symm)
    · exact fun h ↦ hne (.inr h.symm)
  obtain ⟨processList, -, -, hshare, hlead⟩ := leader_of_run (fun _ ↦ ∅) emptyServer twoProcesses
    ["/watch/x", "/watch/y"] (fun _ ↦ "b") _ (Machine.final_mem_states _ _)
    (fun key _ h ↦ (hkeys key h).elim (⟨_, ·⟩) (⟨_, ·⟩)) 0 w hw hcaught (by decide)
  obtain ⟨leader, hleader, hprio⟩ := hlead 1
  obtain ⟨loop, hloop, hlist, hwatches⟩ := hshare 0 w hw hcaught (by decide)
  exact ⟨_, w, processList, loop, leader, hw, hleader, hloop, hlist, hwatches,
    (hprio "b" (by decide)).2⟩

end Gohan.SyncWatcher
