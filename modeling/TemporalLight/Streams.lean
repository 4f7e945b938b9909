import TemporalLight.Tables
import TemporalLight.Library.Dict
import Mathlib.Data.List.Dedup

/-!
# The streams of the API process (api/sse.py, api/server.py)

`stream_workflow` reads the log of a workflow and gives it to the generator `stream_workflow_events`.
The generator replays it, registers a queue in `_subscriber_queues`, and tails the log: it waits for
a notification and reads the events after the last one it has yielded.  It stands still at every
`yield`, at the queue and at the query, and the client may close it wherever it stands.

The generators run beside the system of `System.lean`.  The notifications of a transaction are sent
with its commit, that of `write_event` after it; they reach the process some time later.

* `Stream.Moves`, `Api.Step`  the steps as relations
* `registry_ok`               the registry has the queues of the tailing streams, each once
-/

namespace TemporalLight
open Runs

/-- where a generator stands -/
inductive StreamPhase where
  /-- it has not been started -/
  | created
  /-- at the `yield` of an existing event, with the rest to follow -/
  | replaying (event : EventRecord) (rest : List EventRecord)
  /-- at `notification_queue.get()` -/
  | waiting
  /-- at `load_events_after` -/
  | loading
  /-- at the `yield` of a new event, with the rest to follow -/
  | tailing (event : EventRecord) (rest : List EventRecord)
  /-- it has ended, or has been closed by the client; `replayed` when it has come to the end of the
  first loop -/
  | closed (replayed : Bool)

/-- a generator; `replayed` and `tailed` are the events that its two loops have yielded -/
structure Stream where
  workflowId : String
  existingEvents : List EventRecord
  lastEventId : Nat
  phase : StreamPhase
  /-- the length of its notification queue -/
  queue : Nat
  replayed : List EventRecord
  tailed : List EventRecord

def Stream.isTailing (st : Stream) : Bool :=
  match st.phase with
  | .waiting => true
  | .loading => true
  | .tailing _ _ => true
  | _ => false

def Stream.opened (workflowId : String) (existingEvents : List EventRecord) : Stream where
  workflowId := workflowId
  existingEvents := existingEvents
  lastEventId := 0
  phase := .created
  queue := 0
  replayed := []
  tailed := []

/-- the database and the API process; a notification in flight is the id of its workflow, and the
queue of a stream is known by the index of the stream -/
structure Api (Val : Type) where
  db : Sys Val
  inFlight : List String
  subscriberQueues : List (String × List Nat)
  streams : List Stream

section
variable {Val : Type}

/-! ## the registry -/

/-- `_subscriber_queues.get(workflow_id)`, empty when there is none -/
def queuesOf (subscriberQueues : List (String × List Nat)) (workflowId : String) : List Nat :=
  (Dict.lookup workflowId subscriberQueues).getD []

/-- `_subscriber_queues[workflow_id].append(notification_queue)` -/
def subscribe (subscriberQueues : List (String × List Nat)) (workflowId : String) (queue : Nat) :
    List (String × List Nat) :=
  Dict.insert workflowId (queuesOf subscriberQueues workflowId ++ [queue]) subscriberQueues

/-- the `finally` block -/
def unsubscribe (subscriberQueues : List (String × List Nat)) (workflowId : String) (queue : Nat) :
    List (String × List Nat) :=
  let queues := (queuesOf subscriberQueues workflowId).erase queue
  if queues.isEmpty then Dict.erase workflowId subscriberQueues
  else Dict.insert workflowId queues subscriberQueues

/-! ## the steps -/

def Api.initial : Api Val := ⟨Sys.initial, [], [], []⟩

def Api.setStream (s : Api Val) (k : Nat) (stream : Stream) : Api Val :=
  { s with streams := s.streams.set k stream }

/-- `queue.put_nowait(None)` for the queue of stream `k` -/
def putNowait (streams : List Stream) (k : Nat) : List Stream :=
  streams.modify k fun st => { st with queue := st.queue + 1 }

/-- `_on_notify` -/
def Api.onNotify (s : Api Val) (workflowId : String) : Api Val :=
  { s with streams := (queuesOf s.subscriberQueues workflowId).foldl putNowait s.streams }

/-- `load_events_after` -/
def Sys.eventsAfter (s : Sys Val) (workflowId : String) (afterEventId : Nat) : List EventRecord :=
  (s.history workflowId).filter fun e => decide (afterEventId < e.eventId)

/-- the payload of a `pg_notify` -/
def Stmt.notifies? : Stmt → Option String
  | .notify workflowId => some workflowId
  | _ => none

/-- thread `t` is at the `pg_notify` of `write_event` -/
def Sys.toNotify? (d : Deployment Val) (s : Sys Val) (t : Nat) : Option String :=
  match s.thread? t with
  | some ⟨task, none, _⟩ => match task.next? d t with
    | some ⟨.pgNotify workflowId, _⟩ => some workflowId
    | _ => none
  | _ => none

/-- the notifications that a step sends; equal ones of one transaction are sent once -/
def Sys.sends (d : Deployment Val) (s : Sys Val) : Label Val → List String
  | .commit t => match s.tx? t with
    | some x => match x.result with
      | .ok _ => (x.executed.filterMap Stmt.notifies?).dedup
      | .error _ => []
    | none => []
  | .read t => (s.toNotify? d t).toList
  | _ => []

/-- the first loop goes on with `events`; at its end comes the first `get` of the queue -/
def Stream.replay (st : Stream) : List EventRecord → Stream
  | event :: rest =>
    { st with phase := .replaying event rest, replayed := st.replayed ++ [event] }
  | [] => { st with phase := .waiting }

/-- the second loop goes on with `events` -/
def Stream.tail (st : Stream) : List EventRecord → Stream
  | event :: rest => { st with phase := .tailing event rest, tailed := st.tailed ++ [event] }
  | [] => { st with phase := .waiting }

def Stream.close (st : Stream) (replayed : Bool) : Stream := { st with phase := .closed replayed }

/-- `last_event_id = event.event_id` -/
def Stream.setLastEventId (st : Stream) (eventId : Nat) : Stream := { st with lastEventId := eventId }

/-- stream `k` goes on in its first loop; before it waits it registers its queue -/
def Api.replay (s : Api Val) (k : Nat) (st : Stream) (events : List EventRecord) : Api Val :=
  { s.setStream k (st.replay events) with
    subscriberQueues := if events.isEmpty then subscribe s.subscriberQueues st.workflowId k
      else s.subscriberQueues }

/-- stream `k` leaves its second loop -/
def Api.leave (s : Api Val) (k : Nat) (st : Stream) : Api Val :=
  { s.setStream k (st.close true) with
    subscriberQueues := unsubscribe s.subscriberQueues st.workflowId k }

/-- a step of the database, a notification that arrives, one that nothing has announced, a request
for a stream, and the steps of stream `k`: the client takes the next event, the queue has a
notification, the events are loaded, the client closes the stream -/
inductive ApiLabel (Val : Type) where
  | db (l : Label Val)
  | deliver (workflowId : String)
  | notify (workflowId : String)
  | openStream (workflowId : String)
  | resume (k : Nat)
  | wake (k : Nat)
  | load (k : Nat)
  | close (k : Nat)

def Api.step (d : Deployment Val) (s : Api Val) : ApiLabel Val → Option (Api Val)
  | .db l => (s.db.step d l).map fun db =>
      { s with db := db, inFlight := s.inFlight ++ s.db.sends d l }
  | .deliver workflowId =>
    if s.inFlight.contains workflowId then
      some { s.onNotify workflowId with inFlight := s.inFlight.erase workflowId }
    else none
  | .notify workflowId => some (s.onNotify workflowId)
  | .openStream workflowId =>
    -- 404 without a row
    if (s.db.row? workflowId).isSome then
      some { s with streams := s.streams ++ [.opened workflowId (s.db.history workflowId)] }
    else none
  | .resume k => s.streams[k]?.bind fun st => match st.phase with
    | .created => some (s.replay k st st.existingEvents)
    | .replaying event rest =>
      let st := st.setLastEventId event.eventId
      if event.eventType.isTerminal then some (s.setStream k (st.close true))
      else some (s.replay k st rest)
    | .tailing event rest =>
      let st := st.setLastEventId event.eventId
      if event.eventType.isTerminal then some (s.leave k st)
      else some (s.setStream k (st.tail rest))
    | _ => none
  | .wake k => s.streams[k]?.bind fun st => match st.phase, st.queue with
    | .waiting, queue + 1 => some (s.setStream k { st with phase := .loading, queue := queue })
    | _, _ => none
  | .load k => s.streams[k]?.bind fun st => match st.phase with
    | .loading => some (s.setStream k (st.tail (s.db.eventsAfter st.workflowId st.lastEventId)))
    | _ => none
  | .close k => s.streams[k]?.bind fun st => match st.phase with
    | .created => some (s.setStream k (st.close false))
    | .replaying _ _ => some (s.setStream k (st.close false))
    | .closed _ => none
    | _ => some (s.leave k st)

abbrev Api.Reachable (d : Deployment Val) (ok : Api Val → ApiLabel Val → Prop) (s : Api Val) :
    Prop :=
  Reach (Api.step d) ok Api.initial s

/-! ## the steps as a relation -/

/-- the steps of one stream, beside those of the registry -/
inductive Stream.Moves (db : Sys Val) (st : Stream) : Stream → Prop where
  | start : st.phase = .created → Moves db st (st.replay st.existingEvents)
  | ended {event : EventRecord} {rest : List EventRecord} : st.phase = .replaying event rest →
      event.eventType.isTerminal = true → Moves db st ((st.setLastEventId event.eventId).close true)
  | replay {event : EventRecord} {rest : List EventRecord} : st.phase = .replaying event rest →
      event.eventType.isTerminal = false →
      Moves db st ((st.setLastEventId event.eventId).replay rest)
  | left {event : EventRecord} {rest : List EventRecord} : st.phase = .tailing event rest →
      event.eventType.isTerminal = true → Moves db st ((st.setLastEventId event.eventId).close true)
  | tail {event : EventRecord} {rest : List EventRecord} : st.phase = .tailing event rest →
      event.eventType.isTerminal = false →
      Moves db st ((st.setLastEventId event.eventId).tail rest)
  | wake {queue : Nat} : st.phase = .waiting → st.queue = queue + 1 →
      Moves db st { st with phase := .loading, queue := queue }
  | load : st.phase = .loading →
      Moves db st (st.tail (db.eventsAfter st.workflowId st.lastEventId))
  | closeEarly : st.isTailing = false → (∀ replayed, st.phase ≠ .closed replayed) →
      Moves db st (st.close false)
  | close : st.isTailing = true → Moves db st (st.close true)

/-- the registry after stream `k` has become `st'` -/
def registryAfter (subscriberQueues : List (String × List Nat)) (k : Nat) (st st' : Stream) :
    List (String × List Nat) :=
  if st.isTailing == st'.isTailing then subscriberQueues
  else if st'.isTailing then subscribe subscriberQueues st.workflowId k
  else unsubscribe subscriberQueues st.workflowId k

inductive Api.Step (d : Deployment Val) (s : Api Val) : ApiLabel Val → Api Val → Prop where
  | db {l : Label Val} {db : Sys Val} : s.db.step d l = some db →
      Api.Step d s (.db l) { s with db := db, inFlight := s.inFlight ++ s.db.sends d l }
  | deliver {workflowId : String} : workflowId ∈ s.inFlight →
      Api.Step d s (.deliver workflowId)
        { s.onNotify workflowId with inFlight := s.inFlight.erase workflowId }
  | notify (workflowId : String) : Api.Step d s (.notify workflowId) (s.onNotify workflowId)
  | openStream {workflowId : String} : (s.db.row? workflowId).isSome = true →
      Api.Step d s (.openStream workflowId)
        { s with streams := s.streams ++ [.opened workflowId (s.db.history workflowId)] }
  | move {l : ApiLabel Val} {k : Nat} {st st' : Stream} : s.streams[k]? = some st →
      st.Moves s.db st' →
      Api.Step d s l { s.setStream k st' with
        subscriberQueues := registryAfter s.subscriberQueues k st st' }

variable {d : Deployment Val} {s s' : Api Val} {ok : Api Val → ApiLabel Val → Prop}

@[simp] theorem Stream.isTailing_close (st : Stream) (replayed : Bool) :
    (st.close replayed).isTailing = false := rfl

@[simp] theorem Stream.isTailing_setLastEventId (st : Stream) (eventId : Nat) :
    (st.setLastEventId eventId).isTailing = st.isTailing := rfl

@[simp] theorem Stream.isTailing_replay (st : Stream) (events : List EventRecord) :
    (st.replay events).isTailing = events.isEmpty := by
  cases events <;> rfl

@[simp] theorem Stream.isTailing_tail (st : Stream) (events : List EventRecord) :
    (st.tail events).isTailing = true := by
  cases events <;> rfl

theorem registryAfter_same {sq : List (String × List Nat)} {k : Nat} {st st' : Stream}
    (h : st'.isTailing = st.isTailing) : registryAfter sq k st st' = sq := by
  rw [registryAfter, h, if_pos (beq_self_eq_true _)]

theorem Api.move_same {l : ApiLabel Val} {k : Nat} {st st' : Stream} (hk : s.streams[k]? = some st)
    (hmove : st.Moves s.db st') (h : st'.isTailing = st.isTailing) :
    Api.Step d s l (s.setStream k st') := by
  have hstep : Api.Step d s l _ := .move hk hmove
  rwa [registryAfter_same h] at hstep

theorem Api.move_leave {l : ApiLabel Val} {k : Nat} {st st' : Stream} (hk : s.streams[k]? = some st)
    (hmove : st.Moves s.db (st'.close true)) (h : st.isTailing = true)
    (hw : st'.workflowId = st.workflowId) : Api.Step d s l (s.leave k st') := by
  have hstep : Api.Step d s l _ := .move hk hmove
  rw [registryAfter, h, Stream.isTailing_close, if_neg (by decide), if_neg (by decide), ← hw] at hstep
  exact hstep

theorem Api.move_replay {l : ApiLabel Val} {k : Nat} {st st' : Stream} {events : List EventRecord}
    (hk : s.streams[k]? = some st) (hmove : st.Moves s.db (st'.replay events))
    (h : st.isTailing = false) (hw : st'.workflowId = st.workflowId) :
    Api.Step d s l (s.replay k st' events) := by
  have hstep : Api.Step d s l _ := .move hk hmove
  rw [registryAfter, h, Stream.isTailing_replay, ← hw] at hstep
  unfold Api.replay
  cases events with
  | nil => exact hstep
  | cons event rest => exact hstep

theorem Api.Step.of_step {l : ApiLabel Val} (h : s.step d l = some s') : Api.Step d s l s' := by
  cases l with
  | db l =>
    obtain ⟨db, hdb, rfl⟩ := Option.map_eq_some_iff.mp h
    exact .db hdb
  | deliver w =>
    obtain ⟨hw, h⟩ := Option.ite_none_right_eq_some.mp h
    obtain rfl := Option.some.inj h
    exact .deliver (List.contains_iff_mem.mp hw)
  | notify w =>
    obtain rfl := Option.some.inj h
    exact .notify w
  | openStream w =>
    obtain ⟨hw, h⟩ := Option.ite_none_right_eq_some.mp h
    obtain rfl := Option.some.inj h
    exact .openStream hw
  | resume k =>
    obtain ⟨st, hk, h⟩ := Option.bind_eq_some_iff.mp h
    cases hphase : st.phase with
    | created =>
      rw [hphase] at h
      obtain rfl := Option.some.inj h
      exact Api.move_replay hk (.start hphase) (by rw [Stream.isTailing, hphase]) rfl
    | replaying event rest =>
      rw [hphase] at h
      dsimp only at h
      split at h
      · rename_i hterminal
        obtain rfl := Option.some.inj h
        exact Api.move_same hk (.ended hphase hterminal)
          (by rw [Stream.isTailing_close, Stream.isTailing, hphase])
      · rename_i hterminal
        obtain rfl := Option.some.inj h
        exact Api.move_replay hk (.replay hphase (Bool.eq_false_iff.mpr hterminal))
          (by rw [Stream.isTailing, hphase]) rfl
    | tailing event rest =>
      rw [hphase] at h
      dsimp only at h
      split at h
      · rename_i hterminal
        obtain rfl := Option.some.inj h
        exact Api.move_leave hk (.left hphase hterminal) (by rw [Stream.isTailing, hphase]) rfl
      · rename_i hterminal
        obtain rfl := Option.some.inj h
        exact Api.move_same hk (.tail hphase (Bool.eq_false_iff.mpr hterminal))
          (by rw [Stream.isTailing_tail, Stream.isTailing, hphase])
    | _ =>
      rw [hphase] at h
      cases h
  | wake k =>
    obtain ⟨st, hk, h⟩ := Option.bind_eq_some_iff.mp h
    cases hphase : st.phase with
    | waiting =>
      rw [hphase] at h
      cases hqueue : st.queue with
      | zero =>
        rw [hqueue] at h
        cases h
      | succ queue =>
        rw [hqueue] at h
        obtain rfl := Option.some.inj h
        exact Api.move_same hk (.wake hphase hqueue)
          (by rw [Stream.isTailing, Stream.isTailing, hphase])
    | _ =>
      rw [hphase] at h
      cases h
  | load k =>
    obtain ⟨st, hk, h⟩ := Option.bind_eq_some_iff.mp h
    cases hphase : st.phase with
    | loading =>
      rw [hphase] at h
      obtain rfl := Option.some.inj h
      exact Api.move_same hk (.load hphase) (by rw [Stream.isTailing_tail, Stream.isTailing, hphase])
    | _ =>
      rw [hphase] at h
      cases h
  | close k =>
    obtain ⟨st, hk, h⟩ := Option.bind_eq_some_iff.mp h
    cases hphase : st.phase with
    | closed replayed =>
      rw [hphase] at h
      cases h
    | created =>
      rw [hphase] at h
      obtain rfl := Option.some.inj h
      have htailing : st.isTailing = false := by rw [Stream.isTailing, hphase]
      exact Api.move_same hk (.closeEarly htailing (by simp [hphase])) htailing.symm
    | replaying event rest =>
      rw [hphase] at h
      obtain rfl := Option.some.inj h
      have htailing : st.isTailing = false := by rw [Stream.isTailing, hphase]
      exact Api.move_same hk (.closeEarly htailing (by simp [hphase])) htailing.symm
    | _ =>
      rw [hphase] at h
      obtain rfl := Option.some.inj h
      have htailing : st.isTailing = true := by rw [Stream.isTailing, hphase]
      exact Api.move_leave hk (.close htailing) htailing rfl

/-! ## the registry has the tailing streams -/

variable {sq : List (String × List Nat)} {w : String} {k : Nat}

theorem queuesOf_subscribe (w' : String) :
    queuesOf (subscribe sq w k) w' = if w = w' then queuesOf sq w ++ [k] else queuesOf sq w' := by
  rw [queuesOf, subscribe, Dict.lookup_insert]
  by_cases hw : w = w'
  · rw [if_pos (beq_iff_eq.mpr hw), if_pos hw]
    rfl
  · rw [if_neg (mt beq_iff_eq.mp hw), if_neg hw]
    rfl

theorem queuesOf_unsubscribe (w' : String) :
    queuesOf (unsubscribe sq w k) w'
      = if w = w' then (queuesOf sq w).erase k else queuesOf sq w' := by
  unfold unsubscribe
  dsimp only
  by_cases hempty : ((queuesOf sq w).erase k).isEmpty = true
  · rw [if_pos hempty, queuesOf, Dict.lookup_erase]
    by_cases hw : w = w'
    · rw [if_pos (beq_iff_eq.mpr hw), if_pos hw, List.isEmpty_iff.mp hempty]
      rfl
    · rw [if_neg (mt beq_iff_eq.mp hw), if_neg hw]
      rfl
  · rw [if_neg hempty, queuesOf, Dict.lookup_insert]
    by_cases hw : w = w'
    · rw [if_pos (beq_iff_eq.mpr hw), if_pos hw]
      rfl
    · rw [if_neg (mt beq_iff_eq.mp hw), if_neg hw]
      rfl

theorem lookup_subscribe (h : Dict.lookup w sq ≠ some []) (w' : String) :
    Dict.lookup w (subscribe sq w' k) ≠ some [] := by
  rw [subscribe, Dict.lookup_insert]
  split
  · simp
  · exact h

theorem lookup_unsubscribe (h : Dict.lookup w sq ≠ some []) (w' : String) :
    Dict.lookup w (unsubscribe sq w' k) ≠ some [] := by
  unfold unsubscribe
  dsimp only
  split
  · rw [Dict.lookup_erase]
    split
    · exact nofun
    · exact h
  · rename_i hne
    rw [Dict.lookup_insert]
    split
    · exact fun heq => hne (List.isEmpty_iff.mpr (Option.some.inj heq))
    · exact h

theorem getElem?_putNowait (queues : List Nat) (streams : List Stream) (k : Nat) :
    (queues.foldl putNowait streams)[k]?
      = streams[k]?.map fun st => { st with queue := st.queue + queues.count k } := by
  induction queues generalizing streams with
  | nil => exact Option.map_id'.symm
  | cons j queues ih =>
    rw [List.foldl_cons, ih, putNowait, List.getElem?_modify, List.count_cons]
    cases streams[k]? with
    | none => rfl
    | some st =>
      by_cases hj : j = k
      · simp [hj, Nat.add_assoc, Nat.add_comm 1]
      · simp [hj]

/-- stream `k` of `w` is in its second loop -/
def Api.Tails (s : Api Val) (w : String) (k : Nat) : Prop :=
  ∃ st, s.streams[k]? = some st ∧ st.workflowId = w ∧ st.isTailing = true

/-- the registry has the queues of the tailing streams, each once, and no empty entry -/
structure Api.RegistryOk (s : Api Val) : Prop where
  mem : ∀ w k, k ∈ queuesOf s.subscriberQueues w ↔ s.Tails w k
  nodup : ∀ w, (queuesOf s.subscriberQueues w).Nodup
  nonempty : ∀ w, Dict.lookup w s.subscriberQueues ≠ some []

theorem Stream.Moves.workflowId {db : Sys Val} {st st' : Stream} (h : st.Moves db st') :
    st'.workflowId = st.workflowId := by
  have hreplay (st : Stream) (events : List EventRecord) :
      (st.replay events).workflowId = st.workflowId := by cases events <;> rfl
  have htail (st : Stream) (events : List EventRecord) :
      (st.tail events).workflowId = st.workflowId := by cases events <;> rfl
  cases h with
  | start _ => exact hreplay _ _
  | replay _ _ => exact hreplay _ _
  | tail _ _ => exact htail _ _
  | load _ => exact htail _ _
  | _ => rfl

theorem Api.tails_set {st st' : Stream} (hk : s.streams[k]? = some st) (w : String) (j : Nat)
    (sq : List (String × List Nat)) :
    { s.setStream k st' with subscriberQueues := sq }.Tails w j
      ↔ if j = k then st'.workflowId = w ∧ st'.isTailing = true else s.Tails w j := by
  obtain ⟨hlt, -⟩ := List.getElem?_eq_some_iff.mp hk
  unfold Api.Tails
  show (∃ st, (s.streams.set k st')[j]? = some st ∧ _) ↔ _
  by_cases hj : j = k
  · subst hj
    rw [if_pos rfl, List.getElem?_set_self hlt]
    exact ⟨fun ⟨_, heq, h⟩ => Option.some.inj heq ▸ h, fun h => ⟨st', rfl, h⟩⟩
  · rw [if_neg hj, List.getElem?_set_ne (Ne.symm hj)]

theorem Api.tails_iff {st : Stream} (hk : s.streams[k]? = some st) (w : String) :
    s.Tails w k ↔ st.workflowId = w ∧ st.isTailing = true :=
  ⟨fun ⟨_, hk', h⟩ => Option.some.inj (hk.symm.trans hk') ▸ h, fun h => ⟨st, hk, h⟩⟩

/-- **A stream enters and leaves the registry with its second loop**, and moves no other queue. -/
theorem Api.RegistryOk.move (h : s.RegistryOk) {st st' : Stream} (hk : s.streams[k]? = some st)
    (hw : st'.workflowId = st.workflowId) :
    Api.RegistryOk { s.setStream k st' with
      subscriberQueues := registryAfter s.subscriberQueues k st st' } := by
  have hother (w : String) (j : Nat) (hj : j ≠ k) (sq : List (String × List Nat)) :
      Api.Tails { s.setStream k st' with subscriberQueues := sq } w j ↔ s.Tails w j := by
    rw [Api.tails_set hk, if_neg hj]
  have hself (w : String) (sq : List (String × List Nat)) :
      Api.Tails { s.setStream k st' with subscriberQueues := sq } w k
        ↔ st.workflowId = w ∧ st'.isTailing = true := by
    rw [Api.tails_set hk, if_pos rfl, hw]
  cases htailing : st.isTailing with
  | false =>
    have hnot (w : String) : k ∉ queuesOf s.subscriberQueues w := by
      rw [h.mem, Api.tails_iff hk, htailing]
      simp
    cases htailing' : st'.isTailing with
    | false =>
      rw [registryAfter_same (htailing'.trans htailing.symm)]
      refine ⟨fun w j => ?_, h.nodup, h.nonempty⟩
      by_cases hj : j = k
      · subst hj
        rw [hself, htailing']
        exact iff_of_false (hnot w) (by simp)
      · rw [hother w j hj]
        exact h.mem w j
    | true =>
      have hafter : registryAfter s.subscriberQueues k st st'
          = subscribe s.subscriberQueues st.workflowId k := by
        rw [registryAfter, htailing, htailing']
        rfl
      rw [hafter]
      refine ⟨fun w j => ?_, fun w => ?_, fun w => lookup_subscribe (h.nonempty w) _⟩
      · show j ∈ queuesOf (subscribe _ _ _) w ↔ _
        rw [queuesOf_subscribe]
        by_cases hj : j = k
        · subst hj
          rw [hself, htailing', and_iff_left rfl]
          split
          · rename_i heq
            exact iff_of_true (List.mem_append_right _ List.mem_cons_self) heq
          · rename_i hne
            exact iff_of_false (hnot w) hne
        · rw [hother w j hj, ← h.mem]
          split
          · rename_i heq
            rw [List.mem_append, List.mem_singleton, or_iff_left hj, heq]
          · rfl
      · show (queuesOf (subscribe _ _ _) w).Nodup
        rw [queuesOf_subscribe]
        split
        · exact List.nodup_append.mpr ⟨h.nodup _, List.nodup_singleton k, fun a ha b hb heq =>
            hnot _ (List.mem_singleton.mp hb ▸ heq ▸ ha)⟩
        · exact h.nodup w
  | true =>
    cases htailing' : st'.isTailing with
    | true =>
      rw [registryAfter_same (htailing'.trans htailing.symm)]
      refine ⟨fun w j => ?_, h.nodup, h.nonempty⟩
      by_cases hj : j = k
      · subst hj
        rw [hself, htailing']
        have hmem := h.mem w j
        rw [Api.tails_iff hk, htailing] at hmem
        exact hmem
      · rw [hother w j hj]
        exact h.mem w j
    | false =>
      have hafter : registryAfter s.subscriberQueues k st st'
          = unsubscribe s.subscriberQueues st.workflowId k := by
        rw [registryAfter, htailing, htailing']
        rfl
      rw [hafter]
      refine ⟨fun w j => ?_, fun w => ?_, fun w => lookup_unsubscribe (h.nonempty w) _⟩
      · show j ∈ queuesOf (unsubscribe _ _ _) w ↔ _
        rw [queuesOf_unsubscribe]
        by_cases hj : j = k
        · subst hj
          rw [hself, htailing']
          refine iff_of_false ?_ (by simp)
          split
          · exact (h.nodup _).not_mem_erase
          · rename_i hne
            rw [h.mem, Api.tails_iff hk]
            exact fun hmem => hne hmem.1
        · rw [hother w j hj, ← h.mem]
          split
          · rename_i heq
            rw [List.mem_erase_of_ne hj, heq]
          · rfl
      · show (queuesOf (unsubscribe _ _ _) w).Nodup
        rw [queuesOf_unsubscribe]
        split
        · exact (h.nodup _).erase k
        · exact h.nodup w

theorem Api.onNotify_streams (w : String) (k : Nat) :
    (s.onNotify w).streams[k]? = s.streams[k]?.map fun st =>
      { st with queue := st.queue + (queuesOf s.subscriberQueues w).count k } :=
  getElem?_putNowait _ _ _

theorem Api.tails_onNotify (w w' : String) (k : Nat) :
    (s.onNotify w).Tails w' k ↔ s.Tails w' k := by
  unfold Api.Tails
  rw [Api.onNotify_streams]
  cases s.streams[k]? with
  | none => exact iff_of_false (by rintro ⟨_, h, -⟩; cases h) (by rintro ⟨_, h, -⟩; cases h)
  | some st =>
    constructor
    · rintro ⟨_, heq, h⟩
      obtain rfl := Option.some.inj heq
      exact ⟨st, rfl, h⟩
    · rintro ⟨_, heq, h⟩
      obtain rfl := Option.some.inj heq
      exact ⟨_, rfl, h⟩

theorem Api.RegistryOk.onNotify (h : s.RegistryOk) (w : String) : (s.onNotify w).RegistryOk where
  mem w' k := (h.mem w' k).trans (Api.tails_onNotify w w' k).symm
  nodup := h.nodup
  nonempty := h.nonempty

theorem getElem?_snoc {α : Type} {l : List α} {a b : α} {k : Nat} (h : (l ++ [a])[k]? = some b) :
    l[k]? = some b ∨ (k = l.length ∧ b = a) := by
  rcases Nat.lt_trichotomy k l.length with hlt | rfl | hlt
  · exact .inl ((List.getElem?_append_left hlt).symm.trans h)
  · rw [List.getElem?_concat_length] at h
    exact .inr ⟨rfl, (Option.some.inj h).symm⟩
  · rw [List.getElem?_eq_none (by simp; omega)] at h
    cases h

theorem registry_step {l : ApiLabel Val} (hstep : Api.Step d s l s') (h : s.RegistryOk) :
    s'.RegistryOk := by
  cases hstep with
  | db _ => exact ⟨h.mem, h.nodup, h.nonempty⟩
  | deliver _ => exact ⟨(h.onNotify _).mem, h.nodup, h.nonempty⟩
  | notify w => exact h.onNotify w
  | openStream _ =>
    refine ⟨fun w k => (h.mem w k).trans ?_, h.nodup, h.nonempty⟩
    constructor
    · rintro ⟨st, hk, hst⟩
      obtain ⟨hlt, -⟩ := List.getElem?_eq_some_iff.mp hk
      exact ⟨st, (List.getElem?_append_left hlt).trans hk, hst⟩
    · rintro ⟨st, hk, hw, htailing⟩
      rcases getElem?_snoc hk with hk | ⟨-, rfl⟩
      · exact ⟨st, hk, hw, htailing⟩
      · cases htailing
  | move hk hmove => exact h.move hk hmove.workflowId

theorem registry_initial : (Api.initial : Api Val).RegistryOk where
  mem w k := iff_of_false List.not_mem_nil (by rintro ⟨st, hk, -⟩; cases hk)
  nodup w := List.nodup_nil
  nonempty w := nofun

/-- the stream after a notification for `w` -/
def Stream.notified (st : Stream) (w : String) : Stream :=
  { st with queue := if st.isTailing && st.workflowId == w then st.queue + 1 else st.queue }

theorem registry_reachable (hs : Api.Reachable d ok s) : s.RegistryOk :=
  Reach.invariant (I := Api.RegistryOk) registry_initial
    (fun _ _ _ h _ hstep => registry_step (Api.Step.of_step hstep) h) hs

theorem Api.RegistryOk.notified (h : s.RegistryOk) (w : String) {k : Nat} {st : Stream}
    (hk : s.streams[k]? = some st) : (s.onNotify w).streams[k]? = some (st.notified w) := by
  rw [Api.onNotify_streams, hk, Stream.notified]
  have hmem := (h.mem w k).trans (Api.tails_iff hk w)
  cases htails : st.isTailing && st.workflowId == w with
  | true =>
    rw [Bool.and_eq_true, beq_iff_eq] at htails
    have hcount := List.count_eq_one_of_mem (h.nodup w) (hmem.mpr htails.symm)
    rw [Option.map_some, hcount, if_pos rfl]
  | false =>
    have hcount := List.count_eq_zero.mpr fun hk' => by
      have hboth := hmem.mp hk'
      rw [hboth.2, hboth.1, beq_self_eq_true] at htails
      cases htails
    rw [Option.map_some, hcount, if_neg (by decide), Nat.add_zero]

/-- **The registry has, for every workflow, exactly the queues of its tailing streams, each once,
and no entry for a workflow without one; so a notification reaches every tailing stream of its
workflow once, and no other stream.** -/
theorem registry_ok (hs : Api.Reachable d ok s) (w : String) :
    (∀ k, k ∈ queuesOf s.subscriberQueues w ↔ s.Tails w k)
    ∧ (queuesOf s.subscriberQueues w).Nodup
    ∧ ((Dict.lookup w s.subscriberQueues).isSome = true ↔ ∃ k, s.Tails w k)
    ∧ ∀ (k : Nat) (st : Stream), s.streams[k]? = some st →
      (s.onNotify w).streams[k]? = some (st.notified w) := by
  have h := registry_reachable hs
  refine ⟨h.mem w, h.nodup w, ?_, fun k st hk => ?_⟩
  · have hsome : (Dict.lookup w s.subscriberQueues).isSome = true
        ↔ ∃ k, k ∈ queuesOf s.subscriberQueues w := by
      unfold queuesOf
      cases hlookup : Dict.lookup w s.subscriberQueues with
      | none => exact iff_of_false nofun (by simp)
      | some queues =>
        have hne : queues ≠ [] := fun heq => h.nonempty w (by rw [hlookup, heq])
        exact iff_of_true rfl (List.exists_mem_of_ne_nil _ hne)
    rw [hsome]
    exact exists_congr (h.mem w)
  · exact h.notified w hk

end

/-! ## two streams of one workflow -/

def startsWorkflow : List (Label Json) :=
  [.request (.startWorkflow .w "n" (.obj []))] ++ transact 0 3

/-- a workflow is started; two streams of it come to their second loops, and the client closes the
first one -/
def twoStreams : List (ApiLabel Json) :=
  startsWorkflow.map .db
    ++ [.openStream "w", .openStream "w", .resume 0, .resume 1, .resume 1, .resume 0, .close 0]

theorem registry_ok_two : ∃ s : Api Json, queuesOf s.subscriberQueues "w" = [1] ∧ s.Tails "w" 1
    ∧ ¬ s.Tails "w" 0 := by
  have hrun : (follow (Api.step (.plain fun _ => none)) (fun _ _ => true) Api.initial
      twoStreams).any (fun s => queuesOf s.subscriberQueues "w" == [1]) = true := by
    decide +kernel
  obtain ⟨s, hs, h⟩ := Reach.exists_of_follow _ hrun
  have hqueues := beq_iff_eq.mp h
  have htails := (registry_ok hs "w").1
  rw [hqueues] at htails
  exact ⟨s, hqueues, (htails 1).mp (by decide), mt (htails 0).mpr (by decide)⟩

end TemporalLight
