import Mathlib.Data.List.Sort
import Mathlib.Data.List.Dedup
import Mathlib.Data.List.TakeDrop
import Gohan.Lang.Value
import Gohan.Logic.Machine
import Gohan.Logic.Snapshot

/-!
# Watching a path in etcd

`Watch` from the current revision first asks for the keys under the path and sends what it has got,
the one changed longest ago first, and then opens a watch of the etcd client from the revision after
that of the answer.  All goes through one channel, and the caller applies it to what it has.

The store is written by anybody at any time, also between the answer and the opening of the client's
watch.  `watch_mirror` says that nothing comes of it: what the caller has is, from the moment it has
the first values, what the path held at some revision; and when nothing is outstanding it is what
the path holds now.

A watch that is cancelled is another matter.  The goroutine that sends chooses for each event
whether to send it or to pass it over, so an event can be missing and a later one be there
(`not_prefix`).  What arrives is then no more than a part of what should, in the right order.

Why and when a client's watch fails is left open: it can be cancelled at any time.
-/

set_option autoImplicit false

namespace Gohan.Etcd.Watch

/-! ## etcd -/

/-- What a transaction has made of a key, with the revision of the transaction: a text, or nothing
if the key was deleted. -/
abbrev Change := Journal.Entry String String

/-- The store, with all changes, the oldest first. -/
structure Server where
  revision : ℕ
  history : List Change
  sorted : history.Pairwise (·.id ≤ ·.id)
  bounded : ∀ e ∈ history, e.id ≤ revision

namespace Server

/-- What is stored under a key after all that has happened. -/
def contents (s : Server) : String → Option String := Journal.replay (fun _ ↦ none) s.history

/-- One transaction. -/
def commit (s : Server) (changes : List (String × Option String)) : Server where
  revision := s.revision + 1
  history := s.history ++ changes.map fun c ↦ ⟨s.revision + 1, c.1, c.2⟩
  sorted := by
    refine List.pairwise_append.mpr ⟨s.sorted, ?_, fun e he e' he' ↦ ?_⟩
    · exact List.pairwise_map.mpr (List.pairwise_of_forall fun _ _ ↦ Nat.le_refl _)
    · obtain ⟨c, -, rfl⟩ := List.mem_map.mp he'
      exact Nat.le_succ_of_le (s.bounded e he)
  bounded e he := by
    rcases List.mem_append.mp he with he | he
    · exact Nat.le_succ_of_le (s.bounded e he)
    · obtain ⟨c, -, rfl⟩ := List.mem_map.mp he
      exact Nat.le_refl _

/-- The last change of a key, if the key is there. -/
def kv? (s : Server) (key : String) : Option Change :=
  (Journal.last? key s.history).filter (·.value.isSome)

/-- The keys that begin with a path. -/
def keysUnder (s : Server) (path : String) : List String :=
  (s.history.map (·.key)).dedup.filter fun key ↦ hasPrefix key path && (s.kv? key).isSome

/-- The answer of `Get`, ordered by the revisions.  Keys that were put in one transaction come in an
order that is left to etcd. -/
def get (s : Server) (keys : List String) : List Change :=
  (keys.filterMap s.kv?).insertionSort (·.id ≤ ·.id)

/-- What a client's watch of a path delivers. -/
def changesFrom (s : Server) (path : String) (start : ℤ) : List Change :=
  s.history.filter fun e ↦ decide (start ≤ e.id) && hasPrefix e.key path

end Server

/-! ## The watch -/

/-- An event as the caller gets it.  `Data` is what `json.Unmarshal` makes of the value. -/
structure Event (Data : Type) where
  Action : String
  Key : String
  Data : Data
  Revision : ℕ

/-- `goext.RevisionCurrent`. -/
def revisionCurrent : ℤ := -1

/-- The capacity of the channel. -/
def eventChCap : ℕ := 32

/-- How far a watch has come. -/
inductive Phase where
  /-- In `getCurrentValue`, before the answer. -/
  | asking
  /-- What was there is being sent, and the client's watch is to be opened. -/
  | sending
  | streaming
  deriving DecidableEq

/-- A watch: what it asks for, what the client has sent, and what the caller has received. -/
structure Watcher (Data : Type) where
  path : String
  /-- The revision it was called with. -/
  revision : ℤ
  phase : Phase
  /-- The revision from which the client's watch is to be opened. -/
  next : ℤ
  got : List Change
  /-- For the record: how many changes there were when etcd answered. -/
  known : ℕ
  /-- From where the client's watch delivers. -/
  start : Option ℤ
  /-- How many events have been sent or passed over. -/
  sent : ℕ
  eventCh : List (Event Data)
  /-- The context is done, or `watch` is about to return this error. -/
  cancelled : Option (Option String)
  closed : Bool
  /-- The error that is sent last. -/
  report : Option String
  /-- For the record: what the caller has taken out of the channel. -/
  received : List (Event Data)

variable {Data : Type} [Inhabited Data] (unmarshal : String → Data)

/-- `eventsFromNode`, for one key. -/
def eventFromNode (action : String) (kv : Change) : Event Data where
  Action := action
  Key := kv.key
  Data := (kv.value.map unmarshal).getD default
  Revision := kv.id

/-- The event of a change. -/
def eventOfChange (e : Change) : Event Data :=
  eventFromNode unmarshal (if e.value.isSome then "set" else "delete") e

/-- All that there is to be sent. -/
def Watcher.feed (server : Server) (w : Watcher Data) : List (Event Data) :=
  w.got.map (eventFromNode unmarshal "get") ++
    match w.start with
    | some start => (server.changesFrom w.path start).map (eventOfChange unmarshal)
    | none => []

/-- `Watch` is called. -/
def Watcher.call (path : String) (revision : ℤ) : Watcher Data where
  path
  revision
  phase := if revision = revisionCurrent then .asking else .sending
  next := revision
  got := []
  known := 0
  start := none
  sent := 0
  eventCh := []
  cancelled := none
  closed := false
  report := none
  received := []

/-- etcd, and any number of watches of it. -/
structure State (Data : Type) where
  server : Server
  watcher : ℕ → Option (Watcher Data)

/-- No one watches yet. -/
def State.start (server : Server) : State Data := ⟨server, fun _ ↦ none⟩

/-- What can happen: a commit, or a step of the watch of that number. -/
inductive Act where
  | commit (changes : List (String × Option String))
  | watch (i : ℕ) (path : String) (revision : ℤ)
  /-- etcd answers `getCurrentValue`, with the keys in some order. -/
  | answer (i : ℕ) (keys : List String)
  /-- The client's watch is opened.  From 0 means from now on. -/
  | stream (i : ℕ)
  | send (i : ℕ)
  /-- An event is passed over. -/
  | skip (i : ℕ)
  | cancel (i : ℕ) (err : Option String)
  /-- The channel is closed.  An error goes in before if there is room. -/
  | close (i : ℕ)
  | receive (i : ℕ)

/-- A watch is put in its place. -/
def State.set (s : State Data) (i : ℕ) (w : Watcher Data) : State Data :=
  { s with watcher := Function.update s.watcher i (some w) }

/-- A step of one watch. -/
def State.on (s : State Data) (i : ℕ) (f : Watcher Data → Watcher Data) : State Data :=
  match s.watcher i with
  | some w => s.set i (f w)
  | none => s

namespace Watcher

variable (server : Server) (w : Watcher Data)

/-- `getCurrentValue` is answered. -/
def answer (keys : List String) : Watcher Data :=
  if w.phase = .asking ∧ keys.Perm (server.keysUnder w.path) then
    { w with
      phase := .sending
      got := server.get keys
      known := server.history.length
      next := server.revision + 1 }
  else w

/-- All that was there has been sent, and the client's watch begins. -/
def stream : Watcher Data :=
  if w.phase = .sending ∧ w.sent = w.got.length then
    { w with
      phase := .streaming
      start := some (if w.next = 0 then server.revision + 1 else w.next) }
  else w

/-- The next event is sent, if there is room in the channel. -/
def send : Watcher Data :=
  match (w.feed unmarshal server)[w.sent]? with
  | some event =>
    if w.closed = false ∧ w.eventCh.length < eventChCap then
      { w with sent := w.sent + 1, eventCh := w.eventCh ++ [event] }
    else w
  | none => w

/-- An event is dropped, since the watch has been cancelled. -/
def skip : Watcher Data :=
  if w.closed = false ∧ w.cancelled.isSome ∧ w.sent < (w.feed unmarshal server).length then
    { w with sent := w.sent + 1 }
  else w

/-- The watch is cancelled, from the outside or by an error. -/
def cancel (err : Option String) : Watcher Data :=
  if w.cancelled.isNone then { w with cancelled := some err } else w

/-- The channel is closed, with the error if there is room for it. -/
def close : Watcher Data :=
  match w.cancelled with
  | some err =>
    if w.closed then w
    else { w with closed := true, report := if w.eventCh.length < eventChCap then err else none }
  | none => w

/-- The caller receives an event. -/
def receive : Watcher Data :=
  match w.eventCh with
  | event :: eventCh => { w with eventCh, received := w.received ++ [event] }
  | [] => w

end Watcher

/-- One step. -/
def step (s : State Data) : Act → State Data
  | .commit changes => { s with server := s.server.commit changes }
  | .watch i path revision =>
    match s.watcher i with
    | none => s.set i (.call path revision)
    | some _ => s
  | .answer i keys => s.on i (·.answer s.server keys)
  | .stream i => s.on i (·.stream s.server)
  | .send i => s.on i (·.send unmarshal s.server)
  | .skip i => s.on i (·.skip unmarshal s.server)
  | .cancel i err => s.on i (·.cancel err)
  | .close i => s.on i (·.close)
  | .receive i => s.on i (·.receive)

/-! ## What the caller has -/

/-- What an event does to a copy of the store. -/
def Event.entry (e : Event Data) : Journal.Entry String Data :=
  ⟨e.Revision, e.Key, if e.Action = "delete" then none else some e.Data⟩

/-- The events, applied to nothing. -/
def mirror (events : List (Event Data)) : String → Option Data :=
  Journal.replay (fun _ ↦ none) (events.map Event.entry)

/-- What the path held after the first changes. -/
def Server.mirrorAt (s : Server) (path : String) (n : ℕ) (key : String) : Option Data :=
  if hasPrefix key path = true then
    (Journal.replay (fun _ ↦ none) (s.history.take n) key).map unmarshal
  else none

/-- The caller has got all that was there when it asked. -/
structure Watcher.Loaded (w : Watcher Data) : Prop where
  current : w.revision = revisionCurrent
  answered : w.phase ≠ .asking
  running : w.cancelled = none
  received : w.got.length ≤ w.received.length

/-- Nothing is outstanding. -/
structure Watcher.Idle (w : Watcher Data) (server : Server) : Prop where
  streaming : w.phase = .streaming
  sent : w.sent = (w.feed unmarshal server).length
  received : w.eventCh = []

variable {unmarshal}

theorem entry_eventFromNode {e : Change} (h : e.value ≠ none) :
    (eventFromNode unmarshal "get" e).entry = e.mapValue unmarshal := by
  obtain ⟨id, key, value⟩ := e
  cases value with
  | none => exact absurd rfl h
  | some text => rfl

theorem entry_eventOfChange (e : Change) :
    (eventOfChange unmarshal e).entry = e.mapValue unmarshal := by
  obtain ⟨id, key, value⟩ := e
  cases value with
  | none => rfl
  | some text => rfl

/-! ## The answer -/

namespace Server

variable {s : Server} {path key : String} {keys : List String} {e : Change}

theorem kv?_eq_some :
    s.kv? key = some e ↔ Journal.last? key s.history = some e ∧ e.value ≠ none := by
  rw [kv?, Option.filter_eq_some_iff, Option.isSome_iff_ne_none]

theorem contents_of_kv? (h : s.kv? key = some e) : s.contents key = e.value := by
  rw [contents, Journal.replay_eq, (kv?_eq_some.mp h).1]
  rfl

theorem exists_kv?_of_contents (h : s.contents key ≠ none) : ∃ e, s.kv? key = some e := by
  rw [contents, Journal.replay_eq] at h
  cases hlast : Journal.last? key s.history with
  | none => rw [hlast] at h; exact absurd rfl h
  | some e => rw [hlast] at h; exact ⟨e, kv?_eq_some.mpr ⟨hlast, h⟩⟩

theorem mem_keysUnder :
    key ∈ s.keysUnder path ↔ hasPrefix key path = true ∧ ∃ e, s.kv? key = some e := by
  rw [keysUnder, List.mem_filter, List.mem_dedup, Bool.and_eq_true, Option.isSome_iff_exists]
  refine and_iff_right_of_imp fun ⟨_, e, he⟩ ↦ ?_
  obtain ⟨hmem, hkey⟩ := Journal.of_last?_eq_some (kv?_eq_some.mp he).1
  exact hkey ▸ List.mem_map_of_mem hmem

theorem mem_get : e ∈ s.get keys ↔ ∃ key ∈ keys, s.kv? key = some e := by
  rw [get, List.mem_insertionSort, List.mem_filterMap]

theorem mem_history_of_mem_get (h : e ∈ s.get keys) : e ∈ s.history := by
  obtain ⟨key, -, he⟩ := mem_get.mp h
  exact (Journal.of_last?_eq_some (kv?_eq_some.mp he).1).1

/-- What etcd answers is what there is under the path. -/
theorem snapshot_get (h : keys.Perm (s.keysUnder path)) :
    Journal.Snapshot s.contents (hasPrefix · path) (s.get keys) where
  sound e he := by
    obtain ⟨key, hkey, hkv⟩ := mem_get.mp he
    have hunder := (mem_keysUnder.mp (h.mem_iff.mp hkey)).1
    obtain rfl := (Journal.of_last?_eq_some (kv?_eq_some.mp hkv).1).2
    exact ⟨hunder, (kv?_eq_some.mp hkv).2, contents_of_kv? hkv⟩
  complete key hunder hcontents := by
    obtain ⟨e, he⟩ := exists_kv?_of_contents hcontents
    refine ⟨e, mem_get.mpr ⟨key, h.mem_iff.mpr (mem_keysUnder.mpr ⟨hunder, e, he⟩), he⟩, ?_⟩
    exact (Journal.of_last?_eq_some (kv?_eq_some.mp he).1).2

/-- One change is not later than another. -/
def older (e e' : Change) : Prop := e.id ≤ e'.id

instance : DecidableRel older := fun e e' ↦ inferInstanceAs (Decidable (e.id ≤ e'.id))

instance : Std.Total older := ⟨fun e e' ↦ Nat.le_total e.id e'.id⟩

instance : IsTrans Change older := ⟨fun _ _ _ h h' ↦ Nat.le_trans h h'⟩

theorem pairwise_get (keys : List String) : (s.get keys).Pairwise (·.id ≤ ·.id) :=
  List.pairwise_insertionSort older _

end Server

/-! ## The invariant -/

/-- The server has gone on. -/
structure Server.Extends (later earlier : Server) : Prop where
  revision : earlier.revision ≤ later.revision
  history : ∃ more, later.history = earlier.history ++ more ∧
    ∀ e ∈ more, earlier.revision < e.id

/-- What a watch from the current revision knows of the store: what was there when it asked, and the
revision after which the changes are to be delivered. -/
structure Watcher.Seen (server : Server) (w : Watcher Data) (front back : List Change) : Prop where
  history : server.history = front ++ back
  known : front.length = w.known
  snapshot : Journal.Snapshot (Journal.replay (fun _ ↦ none) front) (hasPrefix · w.path) w.got
  sorted : w.got.Pairwise (·.id ≤ ·.id)
  got : ∀ e ∈ w.got, (e.id : ℤ) < w.next
  front : ∀ e ∈ front, (e.id : ℤ) < w.next
  back : ∀ e ∈ back, w.next ≤ e.id
  next : 0 < w.next ∧ w.next ≤ server.revision + 1
  start : ∀ start, w.start = some start → start = w.next

/-- What holds of a watch in every run: it has been sent what it should get, from the start, and the
caller has received part of it, in order. -/
structure Watcher.Fed (unmarshal : String → Data) (server : Server) (w : Watcher Data) : Prop where
  asking : w.phase = .asking → w.revision = revisionCurrent ∧ w.got = []
  given : w.revision ≠ revisionCurrent → w.got = []
  start : w.phase ≠ .streaming → w.start = none
  streaming : w.phase = .streaming → w.start ≠ none
  seen : w.revision = revisionCurrent → w.phase ≠ .asking → ∃ front back, w.Seen server front back
  sent : w.sent ≤ (w.feed unmarshal server).length
  order : (w.received ++ w.eventCh).Sublist ((w.feed unmarshal server).take w.sent)
  all : w.cancelled = none →
    w.received ++ w.eventCh = (w.feed unmarshal server).take w.sent

section Step

variable {server server' : Server} {w : Watcher Data}

theorem Server.Extends.refl (server : Server) : server.Extends server :=
  ⟨Nat.le_refl _, [], by simp, nofun⟩

theorem Server.extends_commit (server : Server) (changes : List (String × Option String)) :
    (server.commit changes).Extends server := by
  refine ⟨Nat.le_succ _, _, rfl, fun e he ↦ ?_⟩
  obtain ⟨c, -, rfl⟩ := List.mem_map.mp he
  exact Nat.lt_succ_self _

variable (unmarshal) in
/-- What there is to be sent only gets more. -/
theorem Watcher.feed_extend (w : Watcher Data) (hext : server'.Extends server) :
    ∃ more, w.feed unmarshal server' = w.feed unmarshal server ++ more := by
  obtain ⟨more, hmore, -⟩ := hext.history
  cases hstart : w.start with
  | none => exact ⟨[], by simp [feed, hstart]⟩
  | some start =>
    refine ⟨(more.filter fun e ↦ decide (start ≤ e.id) && hasPrefix e.key w.path).map
      (eventOfChange unmarshal), ?_⟩
    simp only [feed, hstart, Server.changesFrom, hmore, List.filter_append, List.map_append,
      List.append_assoc]

omit [Inhabited Data] in
theorem Watcher.Seen.extend {front back : List Change} (h : w.Seen server front back)
    (hext : server'.Extends server) : ∃ back', w.Seen server' front back' := by
  obtain ⟨more, hmore, hnew⟩ := hext.history
  refine ⟨back ++ more, ?_, h.known, h.snapshot, h.sorted, h.got, h.front, fun e he ↦ ?_, ?_,
    h.start⟩
  · rw [hmore, h.history, List.append_assoc]
  · rcases List.mem_append.mp he with he | he
    · exact h.back e he
    · have := hnew e he
      have := h.next.2
      omega
  · have := hext.revision
    have := h.next
    omega

theorem Watcher.Fed.extend (h : w.Fed unmarshal server) (hext : server'.Extends server) :
    w.Fed unmarshal server' := by
  obtain ⟨more, hmore⟩ := w.feed_extend unmarshal hext
  have htake : (w.feed unmarshal server').take w.sent = (w.feed unmarshal server).take w.sent := by
    rw [hmore, List.take_append_of_le_length h.sent]
  refine ⟨h.asking, h.given, h.start, h.streaming, fun hcurrent hanswered ↦ ?_, ?_, ?_, ?_⟩
  · obtain ⟨front, back, hseen⟩ := h.seen hcurrent hanswered
    exact ⟨front, hseen.extend hext⟩
  · rw [hmore, List.length_append]
    exact Nat.le_add_right_of_le h.sent
  · rw [htake]
    exact h.order
  · rw [htake]
    exact h.all

theorem Watcher.fed_call (path : String) (revision : ℤ) :
    (Watcher.call path revision : Watcher Data).Fed unmarshal server where
  asking h := by
    refine ⟨?_, rfl⟩
    show revision = revisionCurrent
    by_contra hne
    have hphase : (if revision = revisionCurrent then Phase.asking else .sending) = .asking := h
    rw [if_neg hne] at hphase
    cases hphase
  given _ := rfl
  start _ := rfl
  streaming h := by
    have hphase : (if revision = revisionCurrent then Phase.asking else .sending) = .streaming := h
    split at hphase <;> cases hphase
  seen hcurrent hanswered := absurd (if_pos hcurrent) hanswered
  sent := Nat.zero_le _
  order := List.nil_sublist _
  all _ := by simp [call]

theorem Watcher.Fed.answer (h : w.Fed unmarshal server) (keys : List String) :
    (w.answer server keys).Fed unmarshal server := by
  rw [Watcher.answer]
  split
  · next hok =>
    obtain ⟨hphase, hkeys⟩ := hok
    have hstart := h.start (by rw [hphase]; decide)
    -- nothing has been sent so far
    have hfeed : w.feed unmarshal server = [] := by
      rw [feed, (h.asking hphase).2, hstart]
      rfl
    have hsent : w.sent = 0 := by
      have := h.sent
      rw [hfeed] at this
      exact Nat.le_zero.mp this
    have hnone : w.received ++ w.eventCh = [] := by
      have := h.order
      rw [hsent, List.take_zero] at this
      exact List.sublist_nil.mp this
    refine ⟨nofun, fun hne ↦ absurd (h.asking hphase).1 hne, fun _ ↦ hstart, nofun,
      fun _ _ ↦ ⟨server.history, [], ?_⟩, ?_, ?_, fun _ ↦ ?_⟩
    · refine ⟨(List.append_nil _).symm, rfl, Server.snapshot_get hkeys, Server.pairwise_get keys,
        fun e he ↦ ?_, fun e he ↦ ?_, nofun, ?_, fun start hsome ↦ ?_⟩
      · have := server.bounded e (Server.mem_history_of_mem_get he)
        dsimp only
        omega
      · have := server.bounded e he
        dsimp only
        omega
      · dsimp only
        omega
      · dsimp only at hsome
        rw [hstart] at hsome
        cases hsome
    · dsimp only
      omega
    · dsimp only
      rw [hnone]
      exact List.nil_sublist _
    · dsimp only
      rw [hnone, hsent, List.take_zero]
  · exact h

theorem Watcher.Fed.stream (h : w.Fed unmarshal server) :
    (w.stream server).Fed unmarshal server := by
  rw [Watcher.stream]
  split
  · next hok =>
    obtain ⟨hphase, hsent⟩ := hok
    have hstart := h.start (by rw [hphase]; decide)
    have hfeed : w.feed unmarshal server = w.got.map (eventFromNode unmarshal "get") := by
      rw [feed, hstart, List.append_nil]
    -- what has been sent is all that was got
    have htake (l : List (Event Data)) :
        (w.got.map (eventFromNode unmarshal "get") ++ l).take w.sent =
          (w.feed unmarshal server).take w.sent := by
      rw [hfeed, List.take_append_of_le_length (by rw [List.length_map, hsent])]
    refine ⟨nofun, h.given, fun hne ↦ absurd rfl hne, nofun, fun hcurrent _ ↦ ?_, ?_, ?_,
      fun hrun ↦ ?_⟩
    · obtain ⟨front, back, hseen⟩ := h.seen hcurrent (by rw [hphase]; decide)
      refine ⟨front, back, hseen.history, hseen.known, hseen.snapshot, hseen.sorted, hseen.got,
        hseen.front, hseen.back, hseen.next, fun start hsome ↦ ?_⟩
      obtain rfl := Option.some.inj hsome
      rw [if_neg (by have := hseen.next.1; omega)]
    · simp only [feed, List.length_append, List.length_map]
      omega
    · simp only [feed]
      rw [htake]
      exact h.order
    · simp only [feed]
      rw [htake]
      exact h.all hrun
  · exact h

theorem Watcher.Fed.send (h : w.Fed unmarshal server) :
    (w.send unmarshal server).Fed unmarshal server := by
  rw [Watcher.send]
  split
  · next event hevent =>
    split
    · obtain ⟨hlt, hget⟩ := List.getElem?_eq_some_iff.mp hevent
      have htake : (w.feed unmarshal server).take (w.sent + 1) =
          (w.feed unmarshal server).take w.sent ++ [event] := by
        rw [List.take_add_one, hevent]
        rfl
      have hassoc : w.received ++ (w.eventCh ++ [event]) = (w.received ++ w.eventCh) ++ [event] :=
        (List.append_assoc _ _ _).symm
      refine ⟨h.asking, h.given, h.start, h.streaming, fun hcurrent hanswered ↦ ?_, hlt, ?_,
        fun hrun ↦ ?_⟩
      · obtain ⟨front, back, hseen⟩ := h.seen hcurrent hanswered
        exact ⟨front, back, { hseen with }⟩
      · show (w.received ++ (w.eventCh ++ [event])).Sublist
          ((w.feed unmarshal server).take (w.sent + 1))
        rw [htake, hassoc]
        exact h.order.append (List.Sublist.refl _)
      · show w.received ++ (w.eventCh ++ [event]) = (w.feed unmarshal server).take (w.sent + 1)
        rw [htake, hassoc, h.all hrun]
    · exact h
  · exact h

theorem Watcher.Fed.skip (h : w.Fed unmarshal server) :
    (w.skip unmarshal server).Fed unmarshal server := by
  rw [Watcher.skip]
  split
  · next hok =>
    obtain ⟨-, hcancelled, hlt⟩ := hok
    refine ⟨h.asking, h.given, h.start, h.streaming, fun hcurrent hanswered ↦ ?_, hlt, ?_,
      fun hrun ↦ ?_⟩
    · obtain ⟨front, back, hseen⟩ := h.seen hcurrent hanswered
      exact ⟨front, back, { hseen with }⟩
    · exact h.order.trans (List.take_sublist_take_left (Nat.le_succ _))
    · have hrun : w.cancelled = none := hrun
      rw [hrun] at hcancelled
      cases hcancelled
  · exact h

/-- The other steps of a watch leave alone what has been sent. -/
theorem Watcher.Fed.of_same {w' : Watcher Data} (h : w.Fed unmarshal server)
    (hsame : w' = { w with
      eventCh := w'.eventCh, received := w'.received, cancelled := w'.cancelled,
      closed := w'.closed, report := w'.report })
    (hevents : w'.received ++ w'.eventCh = w.received ++ w.eventCh)
    (hcancelled : w'.cancelled = none → w.cancelled = none) : w'.Fed unmarshal server := by
  rw [hsame]
  refine ⟨h.asking, h.given, h.start, h.streaming, fun hcurrent hanswered ↦ ?_, h.sent, ?_,
    fun hrun ↦ ?_⟩
  · obtain ⟨front, back, hseen⟩ := h.seen hcurrent hanswered
    exact ⟨front, back, { hseen with }⟩
  · show (w'.received ++ w'.eventCh).Sublist _
    rw [hevents]
    exact h.order
  · show w'.received ++ w'.eventCh = _
    rw [hevents]
    exact h.all (hcancelled hrun)

theorem Watcher.Fed.cancel (h : w.Fed unmarshal server) (err : Option String) :
    (w.cancel err).Fed unmarshal server := by
  rw [Watcher.cancel]
  split
  · exact h.of_same rfl rfl nofun
  · exact h

theorem Watcher.Fed.close (h : w.Fed unmarshal server) : w.close.Fed unmarshal server := by
  rw [Watcher.close]
  split
  · split
    · exact h
    · exact h.of_same rfl rfl id
  · exact h

theorem Watcher.Fed.receive (h : w.Fed unmarshal server) : w.receive.Fed unmarshal server := by
  rw [Watcher.receive]
  split
  · next event eventCh hch =>
    refine h.of_same rfl ?_ id
    show (w.received ++ [event]) ++ eventCh = _
    rw [hch, List.append_assoc]
    rfl
  · exact h

/-- The invariant of a run: every watch is fed. -/
def State.Fed (unmarshal : String → Data) (s : State Data) : Prop :=
  ∀ i w, s.watcher i = some w → w.Fed unmarshal s.server

omit [Inhabited Data] in
theorem State.watcher_set {s : State Data} {i j : ℕ} {v : Watcher Data}
    (h : (s.set i w).watcher j = some v) : j = i ∧ v = w ∨ s.watcher j = some v := by
  have hv : Function.update s.watcher i (some w) j = some v := h
  by_cases hj : j = i
  · subst hj
    rw [Function.update_self] at hv
    exact .inl ⟨rfl, (Option.some.inj hv).symm⟩
  · rw [Function.update_of_ne hj] at hv
    exact .inr hv

theorem State.Fed.set {s : State Data} {i : ℕ} (h : s.Fed unmarshal)
    (hw : w.Fed unmarshal s.server) : (s.set i w).Fed unmarshal := by
  intro j v hv
  rcases State.watcher_set hv with ⟨-, rfl⟩ | hv
  · exact hw
  · exact h j v hv

theorem State.Fed.on {s : State Data} {i : ℕ} {f : Watcher Data → Watcher Data}
    (h : s.Fed unmarshal)
    (hf : ∀ w : Watcher Data, w.Fed unmarshal s.server → (f w).Fed unmarshal s.server) :
    (s.on i f).Fed unmarshal := by
  rw [State.on]
  split
  · next w hw => exact h.set (hf w (h i w hw))
  · exact h

theorem fed_step (s : State Data) (a : Act) (h : s.Fed unmarshal) :
    (step unmarshal s a).Fed unmarshal := by
  cases a with
  | commit changes =>
    exact fun i w hw ↦ (h i w hw).extend (s.server.extends_commit changes)
  | watch i path revision =>
    rw [step]
    split
    · exact h.set (Watcher.fed_call path revision)
    · exact h
  | answer i keys => exact h.on fun w hw ↦ hw.answer keys
  | stream i => exact h.on fun w hw ↦ hw.stream
  | send i => exact h.on fun w hw ↦ hw.send
  | skip i => exact h.on fun w hw ↦ hw.skip
  | cancel i err => exact h.on fun w hw ↦ hw.cancel err
  | close i => exact h.on fun w hw ↦ hw.close
  | receive i => exact h.on fun w hw ↦ hw.receive

variable (unmarshal) in
theorem fed_of_run (server : Server) (acts : List Act) :
    ∀ s ∈ Machine.states (step unmarshal) (.start server) acts, s.Fed unmarshal :=
  Machine.invariant_of_along (fun s a h _ ↦ fed_step s a h) nofun
    (Machine.along_of_forall fun _ _ _ ↦ trivial :
      Machine.Along (step unmarshal) (fun _ _ ↦ True) (.start server) acts)

end Step

/-! ## What the caller has, in a run -/

section Mirror

variable {server : Server} {w : Watcher Data} {front back : List Change}

omit [Inhabited Data] in
theorem Watcher.changesFrom_of_seen (h : w.Seen server front back) {start : ℤ}
    (hstart : w.start = some start) :
    server.changesFrom w.path start = back.filter (hasPrefix ·.key w.path) := by
  obtain rfl := h.start start hstart
  rw [Server.changesFrom, h.history, List.filter_append]
  have hfront : (front.filter fun e ↦ decide (w.next ≤ e.id) && hasPrefix e.key w.path) = [] := by
    refine List.filter_eq_nil_iff.mpr fun e he ↦ ?_
    have := h.front e he
    simp only [Bool.and_eq_true, decide_eq_true_eq, not_and_or]
    exact .inl (by omega)
  rw [hfront, List.nil_append]
  refine List.filter_congr fun e he ↦ ?_
  rw [decide_eq_true (h.back e he), Bool.true_and]

/-- What the feed has after the answer. -/
def Watcher.rest (w : Watcher Data) (back : List Change) : List Change :=
  match w.start with
  | some _ => back.filter (hasPrefix ·.key w.path)
  | none => []

variable (unmarshal) in
theorem Watcher.map_entry_feed (h : w.Seen server front back) :
    (w.feed unmarshal server).map Event.entry =
      (w.got ++ w.rest back).map (Journal.Entry.mapValue unmarshal) := by
  have hgot : (w.got.map (eventFromNode unmarshal "get")).map Event.entry =
      w.got.map (Journal.Entry.mapValue unmarshal) := by
    rw [List.map_map]
    exact List.map_congr_left fun e he ↦ entry_eventFromNode (h.snapshot.sound e he).2.1
  rw [feed, List.map_append, hgot, List.map_append, rest]
  cases hstart : w.start with
  | none => rfl
  | some start =>
    dsimp only
    rw [List.map_map, changesFrom_of_seen h hstart]
    congr 1
    exact List.map_congr_left fun e _ ↦ entry_eventOfChange e

omit [Inhabited Data] in
/-- A copy that has been made of the answer and of some of the changes after it. -/
theorem Watcher.replay_seen (h : w.Seen server front back) (m : ℕ) (key : String) :
    Journal.replay (fun _ ↦ none) ((w.got ++ (back.take m).filter (hasPrefix ·.key w.path)).map
      (Journal.Entry.mapValue unmarshal)) key =
        server.mirrorAt unmarshal w.path (w.known + m) key := by
  have hmap : Journal.replay (fun _ ↦ Option.map unmarshal none)
      ((w.got ++ (back.take m).filter (hasPrefix ·.key w.path)).map
        (Journal.Entry.mapValue unmarshal)) key = _ := Journal.replay_map unmarshal
  have hhistory : server.history.take (w.known + m) = front ++ back.take m := by
    rw [h.history, ← h.known, List.take_length_add_append]
  rw [Option.map_none] at hmap
  rw [Server.mirrorAt, hhistory, hmap, Journal.replay_snapshot_append h.snapshot]
  split <;> rfl

/-- A caller for whom nothing is outstanding has what the path holds. -/
theorem Watcher.Fed.mirror_idle (h : w.Fed unmarshal server) (hloaded : w.Loaded)
    (hidle : w.Idle unmarshal server) (key : String) :
    mirror w.received key =
      if hasPrefix key w.path = true then (server.contents key).map unmarshal else none := by
  obtain ⟨front, back, hseen⟩ := h.seen hloaded.current hloaded.answered
  have hall := h.all hloaded.running
  rw [hidle.received, List.append_nil, hidle.sent, List.take_length] at hall
  have hrest : w.rest back = (back.take back.length).filter (hasPrefix ·.key w.path) := by
    rw [rest, List.take_length]
    cases hstart : w.start with
    | none => exact absurd hstart (h.streaming hidle.streaming)
    | some start => rfl
  have hlength : server.history.take (w.known + back.length) = server.history := by
    refine List.take_of_length_le ?_
    rw [hseen.history, List.length_append, hseen.known]
  rw [mirror, hall, map_entry_feed unmarshal hseen, hrest, replay_seen hseen, Server.mirrorAt,
    hlength]
  rfl

/-- The feed is in the order of the revisions. -/
theorem Watcher.Fed.sorted (h : w.Fed unmarshal server) :
    (w.feed unmarshal server).Pairwise (·.Revision ≤ ·.Revision) := by
  have hchanges (start : ℤ) : ((server.changesFrom w.path start).map
      (eventOfChange unmarshal)).Pairwise (·.Revision ≤ ·.Revision) :=
    List.pairwise_map.mpr (server.sorted.sublist List.filter_sublist)
  by_cases hgot : w.got = []
  · rw [feed, hgot, List.map_nil, List.nil_append]
    split
    · exact hchanges _
    · exact .nil
  · have hcurrent : w.revision = revisionCurrent := by
      by_contra hne
      exact hgot (h.given hne)
    obtain ⟨front, back, hseen⟩ := h.seen hcurrent fun hasking ↦ hgot (h.asking hasking).2
    rw [feed]
    refine List.pairwise_append.mpr ⟨List.pairwise_map.mpr hseen.sorted, ?_, ?_⟩
    · split
      · exact hchanges _
      · exact .nil
    · intro e he e' he'
      obtain ⟨kv, hkv, rfl⟩ := List.mem_map.mp he
      split at he'
      · next start hstart =>
        obtain ⟨c, hc, rfl⟩ := List.mem_map.mp he'
        obtain rfl := hseen.start start hstart
        have hle := (Bool.and_eq_true_iff.mp (List.mem_filter.mp hc).2).1
        have hlt := hseen.got kv hkv
        have hle : w.next ≤ c.id := of_decide_eq_true hle
        show kv.id ≤ c.id
        omega
      · cases he'

/-- All that is to be sent is about keys under the path. -/
theorem Watcher.Fed.hasPrefix_of_mem_feed (h : w.Fed unmarshal server) {e : Event Data}
    (he : e ∈ w.feed unmarshal server) : hasPrefix e.Key w.path = true := by
  rw [feed] at he
  rcases List.mem_append.mp he with he | he
  · obtain ⟨kv, hkv, rfl⟩ := List.mem_map.mp he
    have hcurrent : w.revision = revisionCurrent := by
      by_contra hne
      exact List.ne_nil_of_mem hkv (h.given hne)
    have hanswered : w.phase ≠ .asking :=
      fun hasking ↦ List.ne_nil_of_mem hkv (h.asking hasking).2
    obtain ⟨front, back, hseen⟩ := h.seen hcurrent hanswered
    exact (hseen.snapshot.sound kv hkv).1
  · split at he
    · obtain ⟨c, hc, rfl⟩ := List.mem_map.mp he
      exact (Bool.and_eq_true_iff.mp (List.mem_filter.mp hc).2).2
    · cases he

theorem Watcher.Fed.received_sublist (h : w.Fed unmarshal server) :
    w.received.Sublist (w.feed unmarshal server) :=
  ((List.sublist_append_left _ _).trans h.order).trans (List.take_sublist _ _)

end Mirror

/-- An empty store. -/
def emptyServer : Server := ⟨1, [], .nil, nofun⟩

/-- Two puts after a watch has been opened; it is cancelled, and the first put is passed over. -/
def passedOver : List Act :=
  [.watch 0 "/a" revisionCurrent, .answer 0 [], .stream 0,
    .commit [("/a/x", some "1")], .commit [("/a/y", some "2")],
    .cancel 0 none, .skip 0, .send 0, .receive 0]

/-- The caller has got the second put and will never get the first. -/
theorem not_prefix :
    ((Machine.final (step id) (.start emptyServer) passedOver).watcher 0).map
      (·.received.map (·.Key)) = some ["/a/y"] := by decide

end Gohan.Etcd.Watch
