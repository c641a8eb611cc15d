import Gohan.Etcd.Watch
import Gohan.Server.StateWatcher

/-!
# What reaches the state watcher

The state watcher takes a lock, watches from the current revision on, and hands what comes to
`StateUpdate` or `MonitoringUpdate`, by the beginning of its key.  But the path it watches is that
of its own lock, and no key begins with this path and with one of the two prefixes.  So no report
is written, whatever there is in etcd (`writes_nothing`).
-/

set_option autoImplicit false

namespace Gohan.StateWatcher

open Etcd.Watch

variable [FloatConversion]

/-- The prefix of the keys of locks. -/
def lockPath : String := "/gohan/cluster/lock"

/-- The lock of the state watcher, and the path it watches. -/
def lockKey : String := lockPath ++ "/state_watch"

/-- `processEvent`.  An error is logged. -/
def processEvent (schemas : List Schema) (hooks : Gohan.Event → Hooks) (db : Gohan.Store)
    (event : Gohan.Event) : Gohan.Store :=
  if hasPrefix event.Key statePrefix then (stateUpdate schemas event (hooks event) db).1
  else if hasPrefix event.Key monitoringPrefix then
    (monitoringUpdate schemas event (hooks event) db).1
  else db

/-- The loop over what the watch delivers. -/
def processEvents (schemas : List Schema) (hooks : Gohan.Event → Hooks) (db : Gohan.Store)
    (w : Watcher Dict) : Gohan.Store :=
  (w.received.map fun e ↦ (⟨e.Action, e.Key, e.Data⟩ : Gohan.Event)).foldl
    (processEvent schemas hooks) db

omit [FloatConversion] in
/-- A key does not begin with two prefixes neither of which begins with the other. -/
theorem hasPrefix_eq_false {key p q : String} (h : hasPrefix key p = true)
    (hpq : hasPrefix p q = false) (hqp : hasPrefix q p = false) : hasPrefix key q = false := by
  rw [hasPrefix, List.isPrefixOf_iff_prefix] at h
  rw [hasPrefix, ← Bool.not_eq_true, List.isPrefixOf_iff_prefix] at hpq hqp ⊢
  intro hq
  exact (List.prefix_or_prefix_of_prefix h hq).elim hqp hpq

theorem processEvent_of_lockKey (schemas : List Schema) (hooks : Gohan.Event → Hooks)
    (db : Gohan.Store) {event : Gohan.Event} (h : hasPrefix event.Key lockKey = true) :
    processEvent schemas hooks db event = db := by
  rw [processEvent, hasPrefix_eq_false h (by decide) (by decide),
    hasPrefix_eq_false h (by decide) (by decide)]
  rfl

/-- **The state watcher writes nothing.**  Whatever reports are put in etcd, before or after the
watch begins, the database is what it was when the loop has handled all it gets. -/
theorem writes_nothing (unmarshal : String → Dict) (server : Server) (acts : List Etcd.Watch.Act) :
    ∀ s ∈ Machine.states (step unmarshal) (.start server) acts, ∀ i w, s.watcher i = some w →
      w.path = lockKey → ∀ schemas hooks db, processEvents schemas hooks db w = db := by
  intro s hs i w hw hpath schemas hooks db
  have h := fed_of_run _ server acts s hs i w hw
  have hkeys : ∀ e ∈ w.received, hasPrefix e.Key lockKey = true := fun e he ↦
    hpath ▸ h.hasPrefix_of_mem_feed (h.received_sublist.mem he)
  rw [processEvents]
  generalize w.received = received at hkeys
  induction received with
  | nil => rfl
  | cons e received ih =>
    rw [List.map_cons, List.foldl_cons,
      processEvent_of_lockKey schemas hooks db (hkeys e List.mem_cons_self)]
    exact ih fun e' he' ↦ hkeys e' (List.mem_cons_of_mem _ he')

/-- The lock is taken, a report about a network is put, and the watch delivers the lock. -/
def reported : List Etcd.Watch.Act :=
  [.commit [(lockKey, some "node")], .watch 0 lockKey revisionCurrent, .answer 0 [lockKey],
    .commit [(statePrefix ++ "/v2.0/networks/red", some "{}")], .send 0, .stream 0, .receive 0]

omit [FloatConversion] in
theorem writes_nothing_reported : letI := amd64
    let schemas : List Schema := [{
      id := "network", singular := "network", plural := "networks", url := "/v2.0/networks"
      metadata := GoMap.ofList [("state_versioning", .bool true)], properties := [] }]
    let db : Gohan.Store := Store.set (fun _ _ ↦ none) "network" "red" (some ⟨∅, {}⟩)
    let hooks : Gohan.Event → Hooks := fun _ ↦ ⟨.ok, .ok, fun _ ↦ .ok ()⟩
    ∃ w, (Machine.final (step fun _ ↦ (∅ : Dict)) (.start emptyServer) reported).watcher 0 =
        some w ∧
      w.received.length = 1 ∧ processEvents schemas hooks db w = db :=
  letI := amd64
  ⟨_, rfl, by decide, writes_nothing (fun _ ↦ ∅) emptyServer reported _
    (Machine.final_mem_states _ _) 0 _ rfl rfl _ _ _⟩

end Gohan.StateWatcher
