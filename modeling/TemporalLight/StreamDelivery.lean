import TemporalLight.StreamOrder
import TemporalLight.Notifications
import TemporalLight.Terminal

/-!
# Which events a stream misses

A stream reads the log when it is opened and whenever it is notified, and then the events beyond the
last one it has yielded.  An event is missed when it is committed below an id that the stream has
already read, or when its notification comes before the stream has registered its queue; in between
the stream does not read the log again.

* `Stream.Covers`      the event has been read, or is beyond what has been read and will be read
* `events_delivered`   when neither happens, a stream that waits in vain has yielded every event
* `completion_missed`  a stream waits forever for the end of a workflow that has completed
-/

namespace TemporalLight
open Runs

/-! ## the condition -/

def Stream.read (st : Stream) : List EventRecord := st.yielded ++ st.pending

/-- the stream is open and will not end by itself with what it has read -/
def Stream.isLive (st : Stream) : Bool :=
  (match st.phase with
    | .closed _ => false
    | _ => true) && st.read.all fun e => !e.eventType.isTerminal

/-- the stream is about to read the log -/
def Stream.isAwake (st : Stream) : Bool :=
  match st.phase with
  | .loading => true
  | _ => st.isTailing && decide (0 < st.queue)

section
variable {Val : Type}

/-- a notification for the workflow is in flight, or is still to be sent -/
def Api.isAnnounced (d : Deployment Val) (s : Api Val) (workflowId : String) : Bool :=
  s.inFlight.contains workflowId
    || (List.range s.db.threads.length).any fun t => s.db.toNotify? d t == some workflowId

/-- the step commits no event below one that a live stream has read, it does not take the last
notification away from a live stream that has not registered and lacks an event, and it does not
crash a thread between an `INSERT` and its notification -/
def Api.keepsUp (d : Deployment Val) (s : Api Val) : ApiLabel Val → Bool
  | .db (.commit t) => (s.db.tx? t).all fun x => x.inserted.all fun e => s.streams.all fun st =>
      !(st.isLive && st.workflowId == e.workflowId)
        || st.read.all fun e' => decide (e'.eventId < e.eventId)
  | .db (.crash t) => (s.db.toNotify? d t).isNone
  | .deliver workflowId =>
    ({ s with inFlight := s.inFlight.erase workflowId }).isAnnounced d workflowId
      || s.streams.all fun st => !(st.isLive && st.workflowId == workflowId) || st.isTailing
        || (s.db.history workflowId).all fun e => st.read.any fun e' => e'.eventId == e.eventId
  | _ => true

/-! ## one stream -/

/-- the stream has read the event, or it comes after what has been read and will be read -/
def Stream.Covers (announced : Bool) (st : Stream) (e : EventRecord) : Prop :=
  e ∈ st.read
    ∨ (∀ e' ∈ st.read, e'.eventId < e.eventId) ∧ (announced = true ∨ st.isAwake = true)

/-- the last id is that of an event that has been yielded -/
def Stream.LastOk (st : Stream) : Prop :=
  st.lastEventId = 0 ∨ ∃ e ∈ st.yielded, e.eventId = st.lastEventId

variable {db : Sys Val} {st st' : Stream} {events : List EventRecord} {e : EventRecord}

theorem mem_yielded_replay (h : e ∈ st.yielded) : e ∈ (st.replay events).yielded := by
  cases events with
  | nil => exact h
  | cons event rest =>
    show e ∈ st.replayed ++ [event] ++ st.tailed
    rcases List.mem_append.mp h with h | h
    · exact List.mem_append_left _ (List.mem_append_left _ h)
    · exact List.mem_append_right _ h

theorem mem_yielded_tail (h : e ∈ st.yielded) : e ∈ (st.tail events).yielded := by
  cases events with
  | nil => exact h
  | cons event rest =>
    show e ∈ st.replayed ++ (st.tailed ++ [event])
    rw [← List.append_assoc]
    exact List.mem_append_left _ h

theorem lastEventId_replay : (st.replay events).lastEventId = st.lastEventId := by
  cases events <;> rfl

theorem lastEventId_tail : (st.tail events).lastEventId = st.lastEventId := by
  cases events <;> rfl

theorem Stream.PhaseOk.mem_yielded (h : st.PhaseOk) {rest : List EventRecord}
    (hphase : st.phase = .replaying e rest ∨ st.phase = .tailing e rest) : e ∈ st.yielded := by
  unfold Stream.PhaseOk at h
  rcases hphase with hphase | hphase
  · rw [hphase] at h
    obtain ⟨-, -, done, hdone, -⟩ := h
    refine List.mem_append_left _ ?_
    rw [hdone]
    exact List.mem_append_right _ List.mem_cons_self
  · rw [hphase] at h
    obtain ⟨-, done, hdone, -⟩ := h
    refine List.mem_append_right _ ?_
    rw [hdone]
    exact List.mem_append_right _ List.mem_cons_self

theorem Stream.LastOk.moves (hphase : st.PhaseOk) (h : st.LastOk) (hmove : st.Moves db st') :
    st'.LastOk := by
  cases hmove with
  | start _ =>
    rw [Stream.LastOk, lastEventId_replay]
    exact h.imp_right fun ⟨e, he, hid⟩ => ⟨e, mem_yielded_replay he, hid⟩
  | ended hp _ => exact .inr ⟨_, hphase.mem_yielded (.inl hp), rfl⟩
  | replay hp _ =>
    rw [Stream.LastOk, lastEventId_replay]
    exact .inr ⟨_, mem_yielded_replay (hphase.mem_yielded (.inl hp)), rfl⟩
  | left hp _ => exact .inr ⟨_, hphase.mem_yielded (.inr hp), rfl⟩
  | tail hp _ =>
    rw [Stream.LastOk, lastEventId_tail]
    exact .inr ⟨_, mem_yielded_tail (hphase.mem_yielded (.inr hp)), rfl⟩
  | load _ =>
    rw [Stream.LastOk, lastEventId_tail]
    exact h.imp_right fun ⟨e, he, hid⟩ => ⟨e, mem_yielded_tail he, hid⟩
  | _ => exact h

theorem read_replay (htailed : st.tailed = []) : (st.replay events).read = st.replayed ++ events := by
  cases events with
  | nil =>
    show st.replayed ++ st.tailed ++ [] = st.replayed ++ []
    rw [htailed, List.append_nil]
  | cons event rest =>
    show st.replayed ++ [event] ++ st.tailed ++ rest = st.replayed ++ event :: rest
    rw [htailed, List.append_nil, List.append_assoc, List.singleton_append]

theorem read_tail : (st.tail events).read = st.yielded ++ events := by
  cases events with
  | nil => rfl
  | cons event rest =>
    show st.replayed ++ (st.tailed ++ [event]) ++ rest = st.replayed ++ st.tailed ++ event :: rest
    simp only [List.append_assoc, List.singleton_append]

/-- a stream that is still live has read the same events, or has read the log again -/
theorem Stream.Moves.read (hphaseOk : st.PhaseOk) (hmove : st.Moves db st')
    (hlive : st'.isLive = true) :
    (st'.read = st.read ∧ (st.isAwake = true → st'.isAwake = true))
    ∨ (st.phase = .loading ∧ st.read = st.yielded
      ∧ st'.read = st.yielded ++ db.eventsAfter st.workflowId st.lastEventId) := by
  unfold Stream.PhaseOk at hphaseOk
  cases hmove with
  | start hphase =>
    rw [hphase] at hphaseOk
    obtain ⟨hreplayed, htailed⟩ := hphaseOk
    refine .inl ⟨?_, fun h => ?_⟩
    · rw [read_replay htailed, Stream.read, Stream.yielded, htailed, List.append_nil, Stream.pending,
        hphase]
    · rw [Stream.isAwake, Stream.isTailing, hphase] at h
      cases h
  | replay hphase _ =>
    rw [hphase] at hphaseOk
    refine .inl ⟨?_, fun h => ?_⟩
    · rw [read_replay (by exact hphaseOk.1), Stream.read, Stream.yielded, hphaseOk.1, List.append_nil,
        Stream.pending, hphase]
      rfl
    · rw [Stream.isAwake, Stream.isTailing, hphase] at h
      cases h
  | @tail event rest hphase _ =>
    refine .inl ⟨?_, fun h => ?_⟩
    · rw [read_tail, Stream.read, Stream.pending, hphase]
      rfl
    · rw [Stream.isAwake, hphase] at h
      have hqueue : 0 < st.queue := of_decide_eq_true (Bool.and_eq_true_iff.mp h).2
      cases rest <;> exact decide_eq_true hqueue
  | wake hphase _ =>
    refine .inl ⟨?_, fun _ => rfl⟩
    rw [Stream.read, Stream.read, Stream.pending, Stream.pending, hphase]
    rfl
  | load hphase =>
    refine .inr ⟨hphase, ?_, read_tail⟩
    rw [Stream.read, Stream.pending, hphase, List.append_nil]
  | _ => cases hlive

/-- **A step of a live stream leaves no event behind.** -/
theorem Stream.Covers.moves {announced : Bool} (hphase : st.PhaseOk) (hlast : st.LastOk)
    (hmove : st.Moves db st') (hlive : st'.isLive = true) (he : e ∈ db.history st.workflowId)
    (hpos : 0 < e.eventId) (h : st.isLive = true → st.Covers announced e) :
    st'.Covers announced e := by
  have hopen : st.isLive = st.read.all fun e => !e.eventType.isTerminal := by
    unfold Stream.isLive
    cases hp : st.phase with
    | closed replayed => cases hmove <;> simp_all [Stream.isTailing]
    | _ => rfl
  rw [Stream.isLive, Bool.and_eq_true] at hlive
  rcases hmove.read hphase (by rw [Stream.isLive, Bool.and_eq_true]; exact hlive) with
      ⟨hread, hawake⟩ | ⟨hloading, hread, hread'⟩
  · rw [hread, ← hopen] at hlive
    rw [Stream.Covers, hread]
    exact (h hlive.2).imp_right fun h => ⟨h.1, h.2.imp_right hawake⟩
  · rw [hread', List.all_append, Bool.and_eq_true, ← hread, ← hopen] at hlive
    refine .inl ?_
    rw [hread']
    rcases h hlive.2.1 with hmem | ⟨hlt, -⟩
    · exact List.mem_append_left _ (hread ▸ hmem)
    · refine List.mem_append_right _ (mem_eventsAfter.mpr ⟨he, ?_⟩)
      rcases hlast with hzero | ⟨e', he', hid⟩
      · rwa [hzero]
      · exact hid ▸ hlt e' (hread ▸ he')

/-! ## the database -/

variable {d : Deployment Val} {s s' : Api Val} {ok : Api Val → ApiLabel Val → Prop} {w : String}

theorem isAnnounced_iff : s.isAnnounced d w = true
    ↔ w ∈ s.inFlight ∨ ∃ t, s.db.toNotify? d t = some w := by
  rw [Api.isAnnounced, Bool.or_eq_true, List.contains_iff_mem, List.any_eq_true]
  refine or_congr_right ⟨fun ⟨t, _, h⟩ => ⟨t, beq_iff_eq.mp h⟩, fun ⟨t, h⟩ => ⟨t, ?_, ?_⟩⟩
  · obtain ⟨task, k, hth, -⟩ := toNotify?_eq_some.mp h
    exact List.mem_range.mpr (List.getElem?_eq_some_iff.mp hth).1
  · exact beq_iff_eq.mpr h

theorem isAnnounced_db {l : Label Val} (hl : s.db.step d l = some db)
    (hok : s.keepsUp d (.db l) = true) (h : s.isAnnounced d w = true) :
    Api.isAnnounced d { s with db := db, inFlight := s.inFlight ++ s.db.sends d l } w = true := by
  rw [isAnnounced_iff] at h ⊢
  rcases h with h | ⟨t, h⟩
  · exact .inl (List.mem_append_left _ h)
  · have hcrash : l ≠ .crash t := by
      rintro rfl
      rw [Api.keepsUp, h] at hok
      cases hok
    rcases toNotify_step hl h hcrash with h | h
    · exact .inr ⟨t, h⟩
    · exact .inl (List.mem_append_right _ h)

/-- the ids of the events begin at 1 -/
theorem eventId_pos {s : Sys Val} {ok : Sys Val → Label Val → Prop} (hs : Reachable d ok s)
    {e : EventRecord} (he : e ∈ s.events) : 0 < e.eventId := by
  suffices h : 0 < s.nextId ∧ (∀ e ∈ s.events, 0 < e.eventId)
      ∧ ∀ t x, s.tx? t = some x → ∀ e ∈ x.inserted, 0 < e.eventId from h.2.1 e he
  refine Reach.invariant (I := fun s : Sys Val => 0 < s.nextId ∧ (∀ e ∈ s.events, 0 < e.eventId)
    ∧ ∀ t x, s.tx? t = some x → ∀ e ∈ x.inserted, 0 < e.eventId) ⟨Nat.one_pos, ?_, ?_⟩ ?_ hs
  · intro e he
    cases he
  · intro t x hx
    rw [Sys.initial_tx?] at hx
    cases hx
  · rintro s l s' ⟨hnext, hevents, hinserted⟩ _ hl
    have hstep := Step.of_step hl
    refine ⟨lt_of_lt_of_le hnext hstep.nextId_le, fun e he => ?_, fun t x hx e he => ?_⟩
    · rcases hstep.tables_cases with hsame | ⟨t, task, x, txn, k, -, hth, -, -, rfl⟩
      · exact hevents e (hsame.events ▸ he)
      · rcases (mem_events_publish (t := t)).mp he with he | he
        · exact hevents e he
        · exact hinserted t x (Sys.tx?_eq hth) e he
    · rcases hstep.inserted_cases hx he with ⟨x, hx, he⟩ | ⟨-, hid, -⟩
      · exact hinserted t x hx e he
      · rwa [hid]

theorem history_cases {l : Label Val} {s s' : Sys Val} (h : Step d s l s') {e : EventRecord}
    (he : e ∈ s'.history w) :
    e ∈ s.history w ∨ ∃ t x, l = .commit t ∧ s.tx? t = some x ∧ e ∈ x.inserted ∧ e.workflowId = w := by
  rcases h.tables_cases with hsame | ⟨t, task, x, txn, k, hl, hth, -, -, rfl⟩
  · exact .inl (hsame.history ▸ he)
  · obtain ⟨he, hw⟩ := Sys.mem_history.mp he
    rcases (mem_events_publish (t := t)).mp he with he | he
    · exact .inl (Sys.mem_history.mpr ⟨he, hw⟩)
    · exact .inr ⟨t, x, hl, Sys.tx?_eq hth, he, hw⟩

/-! ## all streams -/

/-- every live stream covers its log -/
structure Api.StreamsOk (d : Deployment Val) (s : Api Val) : Prop where
  row : ∀ (k : Nat) (st : Stream), s.streams[k]? = some st →
    (s.db.row? st.workflowId).isSome = true
  last : ∀ (k : Nat) (st : Stream), s.streams[k]? = some st → st.LastOk
  covers : ∀ (k : Nat) (st : Stream), s.streams[k]? = some st → st.isLive = true →
    ∀ e ∈ s.db.history st.workflowId, st.Covers (s.isAnnounced d st.workflowId) e

theorem covers_db (hs : Api.Reachable d ok s) {l : Label Val} (hl : s.db.step d l = some db)
    (hok : s.keepsUp d (.db l) = true) (h : s.StreamsOk d) {k : Nat} {st : Stream}
    (hk : s.streams[k]? = some st) (hlive : st.isLive = true) {e : EventRecord}
    (he : e ∈ db.history st.workflowId) :
    st.Covers (Api.isAnnounced d { s with db := db, inFlight := s.inFlight ++ s.db.sends d l }
      st.workflowId) e := by
  rcases history_cases (Step.of_step hl) he with he | ⟨t, x, rfl, hx, hmem, hw⟩
  · refine (h.covers k st hk hlive e he).imp_right fun h => ⟨h.1, h.2.imp_left fun h => ?_⟩
    exact isAnnounced_db hl hok h
  · refine .inr ⟨fun e' he' => ?_, .inl (isAnnounced_iff.mpr ?_)⟩
    · rw [Api.keepsUp, hx, Option.all_some] at hok
      have hst := List.all_eq_true.mp (List.all_eq_true.mp hok e hmem) st (List.mem_of_getElem? hk)
      rw [hlive, hw, beq_self_eq_true] at hst
      exact of_decide_eq_true (List.all_eq_true.mp hst e' he')
    · rcases notified_of_commit (reachable_db hs) hx hl hmem with hsend | hnotify | hnone
      · exact .inl (List.mem_append_right _ (hw ▸ hsend))
      · exact .inr ⟨t, hw ▸ hnotify⟩
      · have hrow := h.row k st hk
        rw [← hw, hnone] at hrow
        cases hrow

theorem read_notified (st : Stream) (w : String) : (st.notified w).read = st.read := rfl

theorem isAwake_notified (w : String) (h : st.isAwake = true) : (st.notified w).isAwake = true := by
  have hqueue : st.queue ≤ (st.notified w).queue := by
    unfold Stream.notified
    dsimp only
    split
    · exact Nat.le_succ _
    · exact Nat.le_refl _
  unfold Stream.isAwake at h ⊢
  rw [show (st.notified w).phase = st.phase from rfl,
    show (st.notified w).isTailing = st.isTailing from rfl]
  cases hphase : st.phase with
  | loading => rfl
  | _ =>
    rw [hphase] at h
    obtain ⟨htailing, hpos⟩ := Bool.and_eq_true_iff.mp h
    exact Bool.and_eq_true_iff.mpr ⟨htailing,
      decide_eq_true (lt_of_lt_of_le (of_decide_eq_true hpos) hqueue)⟩

/-- a notification reaches every stream that has registered -/
theorem covers_deliver (hok : s.keepsUp d (.deliver w) = true) (h : s.StreamsOk d)
    {k : Nat} {st : Stream} (hk : s.streams[k]? = some st) (hlive : st.isLive = true)
    {e : EventRecord} (he : e ∈ s.db.history st.workflowId) :
    (st.notified w).Covers
      (Api.isAnnounced d { s.onNotify w with inFlight := s.inFlight.erase w } st.workflowId) e := by
  have hold := h.covers k st hk hlive e he
  rw [Stream.Covers, read_notified]
  refine hold.elim .inl fun ⟨hlt, hread⟩ => ?_
  have hawake (hread : st.isAwake = true) : (st.notified w).isAwake = true :=
    isAwake_notified w hread
  by_cases hw : st.workflowId = w
  · rw [Api.keepsUp, Bool.or_eq_true] at hok
    rcases hok with hannounced | hall
    · exact .inr ⟨hlt, .inl (hw ▸ hannounced)⟩
    · have hall := List.all_eq_true.mp hall st (List.mem_of_getElem? hk)
      rw [hlive, hw, beq_self_eq_true, Bool.or_eq_true, Bool.or_eq_true] at hall
      rcases hall with (hfalse | htailing) | hread
      · cases hfalse
      · refine .inr ⟨hlt, .inr ?_⟩
        have hqueue : 0 < (st.notified w).queue := by
          unfold Stream.notified
          dsimp only
          rw [htailing, hw, beq_self_eq_true, if_pos (by decide)]
          exact Nat.succ_pos _
        unfold Stream.isAwake
        rw [show (st.notified w).isTailing = st.isTailing from rfl, htailing]
        cases (st.notified w).phase <;> first | rfl | exact decide_eq_true hqueue
      · -- the stream has read an event with this id, and there is only one
        obtain ⟨e', he', hid⟩ := List.any_eq_true.mp (List.all_eq_true.mp hread e (hw ▸ he))
        have hid := beq_iff_eq.mp hid
        exact absurd (hlt e' he') (by omega)
  · refine .inr ⟨hlt, hread.imp (fun h => isAnnounced_iff.mpr ?_) hawake⟩
    exact (isAnnounced_iff.mp h).imp_left fun h => (List.mem_erase_of_ne hw).mpr h

theorem streamsOk_step {l : ApiLabel Val} (hs : Api.Reachable d ok s) (hok : s.keepsUp d l = true)
    (hl : s.step d l = some s') (h : s.StreamsOk d) : s'.StreamsOk d := by
  have hnotified (w : String) {k : Nat} {st' : Stream}
      (hk : (s.onNotify w).streams[k]? = some st') :
      ∃ st, s.streams[k]? = some st ∧ st' = st.notified w := by
    rw [Api.onNotify_streams] at hk
    obtain ⟨st, hst, -⟩ := Option.map_eq_some_iff.mp hk
    have hreg := (registry_reachable hs).notified w hst
    rw [Api.onNotify_streams] at hreg
    exact ⟨st, hst, Option.some.inj (hk.symm.trans hreg)⟩
  cases Api.Step.of_step hl with
  | @db l db hdb =>
    refine ⟨fun k st hk => (Step.of_step hdb).row?_isSome (h.row k st hk), h.last, ?_⟩
    exact fun k st hk hlive e he => covers_db hs hdb hok h hk hlive he
  | @deliver w hw =>
    refine ⟨fun k st' hk => ?_, fun k st' hk => ?_, fun k st' hk hlive e he => ?_⟩
    · obtain ⟨st, hst, rfl⟩ := hnotified w hk
      exact h.row k st hst
    · obtain ⟨st, hst, rfl⟩ := hnotified w hk
      exact h.last k st hst
    · obtain ⟨st, hst, rfl⟩ := hnotified w hk
      exact covers_deliver hok h hst hlive he
  | notify w =>
    refine ⟨fun k st' hk => ?_, fun k st' hk => ?_, fun k st' hk hlive e he => ?_⟩
    · obtain ⟨st, hst, rfl⟩ := hnotified w hk
      exact h.row k st hst
    · obtain ⟨st, hst, rfl⟩ := hnotified w hk
      exact h.last k st hst
    · obtain ⟨st, hst, rfl⟩ := hnotified w hk
      refine (h.covers k st hst hlive e he).imp_right fun h => ⟨h.1, h.2.imp_right ?_⟩
      exact isAwake_notified w
  | @openStream w hw =>
    refine ⟨fun k st hk => ?_, fun k st hk => ?_, fun k st hk hlive e he => ?_⟩
    · rcases getElem?_snoc hk with hk | ⟨-, rfl⟩
      · exact h.row k st hk
      · exact hw
    · rcases getElem?_snoc hk with hk | ⟨-, rfl⟩
      · exact h.last k st hk
      · exact .inl rfl
    · rcases getElem?_snoc hk with hk | ⟨-, rfl⟩
      · exact h.covers k st hk hlive e he
      · exact .inl he
  | @move _ j st₀ st' hj hmove =>
    have hst₀ := stream_ok hs hj
    refine ⟨fun k st hk => ?_, fun k st hk => ?_, fun k st hk hlive e he => ?_⟩
    · rcases Api.getElem?_setStream hj hk with ⟨-, rfl⟩ | ⟨-, hk⟩
      · rw [hmove.workflowId]
        exact h.row j st₀ hj
      · exact h.row k st hk
    · rcases Api.getElem?_setStream hj hk with ⟨-, rfl⟩ | ⟨-, hk⟩
      · exact (h.last j st₀ hj).moves hst₀.phase hmove
      · exact h.last k st hk
    · rcases Api.getElem?_setStream hj hk with ⟨-, rfl⟩ | ⟨-, hk⟩
      · have he : e ∈ s.db.history st.workflowId := he
        rw [hmove.workflowId] at he
        have hpos := eventId_pos (reachable_db hs) (Sys.mem_history.mp he).1
        show st.Covers (s.isAnnounced d st.workflowId) e
        rw [hmove.workflowId]
        exact Stream.Covers.moves hst₀.phase (h.last j st₀ hj) hmove hlive he hpos
          fun hlive => h.covers j st₀ hj hlive e he
      · exact h.covers k st hk hlive e he

/-- **When no event is committed below one that a live stream has read, and no notification comes
before a live stream can hear it, then a stream that waits with an empty queue, while no notification
is in flight, has yielded every event of its workflow, and none of them is terminal.** -/
theorem events_delivered (hs : Api.Reachable d (fun s l => s.keepsUp d l) s) {k : Nat} {st : Stream}
    (hk : s.streams[k]? = some st) (hphase : st.phase = .waiting) (hqueue : st.queue = 0)
    (hflight : s.isAnnounced d st.workflowId = false) :
    ∀ e ∈ s.db.history st.workflowId, e ∈ st.yielded ∧ e.eventType.isTerminal = false := by
  have h : s.StreamsOk d := by
    refine Reach.invariant_of_reach (I := fun s => s.StreamsOk d) ?_ ?_ hs
    · refine ⟨?_, ?_, ?_⟩
      · intro k st hk
        cases hk
      · intro k st hk
        cases hk
      · intro k st hk
        cases hk
    · exact fun s l s' hr ih hok hl => streamsOk_step hr hok hl ih
  have hread : st.read = st.yielded := by
    rw [Stream.read, Stream.pending, hphase, List.append_nil]
  have hdate : st.UpToDate := by
    have hphaseOk := (stream_ok hs hk).phase
    unfold Stream.PhaseOk at hphaseOk
    rwa [hphase] at hphaseOk
  have hlive : st.isLive = true := by
    rw [Stream.isLive, hphase, hread]
    refine List.all_eq_true.mpr fun e he => ?_
    rw [hdate.2.1 e he]
    rfl
  intro e he
  have hmem : e ∈ st.yielded := by
    rcases h.covers k st hk hlive e he with hmem | ⟨-, hannounced | hawake⟩
    · exact hread ▸ hmem
    · rw [hflight] at hannounced
      cases hannounced
    · rw [Stream.isAwake, hphase, hqueue] at hawake
      simp at hawake
  exact ⟨hmem, hdate.2.1 e hmem⟩

end

/-! ## a completion that is missed -/

def runsWorkflow : List (Label Json) :=
  [.claim "A" (newRow "w" "n" none 0)] ++ transact 1 2 ++ [.read 1, .advance 1] ++ transact 1 4

/-- the workflow completes after its log has been read for the stream, and before the stream
registers its queue -/
def missesCompletion : List (ApiLabel Json) :=
  startsWorkflow.map .db ++ [.openStream "w"] ++ runsWorkflow.map .db
    ++ [.deliver "w", .resume 0, .resume 0]

/-- the stream of `w` waits, its queue is empty and nothing is in flight -/
def Api.waitsInVain (d : Deployment Json) (s : Api Json) (test : Stream → Bool) : Bool :=
  s.streams[0]?.any fun st => (match st.phase with
    | .waiting => true
    | _ => false) && st.queue == 0 && st.workflowId == "w" && !s.isAnnounced d "w" && test st

theorem Api.waitsInVain_spec {d : Deployment Json} {s : Api Json} {test : Stream → Bool}
    (h : s.waitsInVain d test = true) : ∃ st : Stream, s.streams[0]? = some st
      ∧ st.phase = .waiting ∧ st.queue = 0 ∧ st.workflowId = "w" ∧ s.isAnnounced d "w" = false
      ∧ test st = true := by
  obtain ⟨st, hk, h⟩ := (Option.any_eq_true _ _).mp h
  simp only [Bool.and_eq_true, beq_iff_eq, Bool.not_eq_true'] at h
  obtain ⟨⟨⟨⟨hphase, hqueue⟩, hw⟩, hflight⟩, htest⟩ := h
  refine ⟨st, hk, ?_, hqueue, hw, hflight, htest⟩
  cases hp : st.phase with
  | waiting => rfl
  | _ =>
    rw [hp] at hphase
    cases hphase

/-- a stream that has yielded the STARTED event and a signal -/
theorem events_delivered_signal : ∃ (s : Api Json) (st : Stream), s.streams[0]? = some st
    ∧ st.phase = .waiting ∧ (s.db.history "w").length = 2
    ∧ ∀ e ∈ s.db.history "w", e ∈ st.yielded := by
  have hrun : (follow (Api.step returns) (fun s l => s.keepsUp returns l) Api.initial
      (streamsSignal ++ [.resume 0])).any (fun s =>
        s.waitsInVain returns (fun _ => true) && (s.db.history "w").length == 2) = true := by
    decide +kernel
  obtain ⟨s, hs, h⟩ := Reach.exists_of_follow _ hrun
  obtain ⟨hvain, hlength⟩ := Bool.and_eq_true_iff.mp h
  obtain ⟨st, hk, hphase, hqueue, hw, hflight, -⟩ := Api.waitsInVain_spec hvain
  have hdelivered := events_delivered hs hk hphase hqueue (by rw [hw]; exact hflight)
  rw [hw] at hdelivered
  exact ⟨s, st, hk, hphase, beq_iff_eq.mp hlength, fun e he => (hdelivered e he).1⟩

/-- The workflow has completed, and the stream waits with an empty queue while no notification is in
flight: it has not yielded the terminal event. -/
theorem completion_missed : ∃ (s : Api Json) (st : Stream) (e : EventRecord),
    Api.Reachable returns (fun _ _ => true) s ∧ s.streams[0]? = some st
    ∧ st.phase = .waiting ∧ st.queue = 0 ∧ s.isAnnounced returns st.workflowId = false
    ∧ e ∈ s.db.history st.workflowId ∧ e.eventType.isTerminal = true ∧ e ∉ st.yielded := by
  have hrun : (follow (Api.step returns) (fun _ _ => true) Api.initial missesCompletion).any
      (fun s => s.waitsInVain returns fun st => (s.db.history "w").any fun e =>
        e.eventType.isTerminal && st.yielded.all fun e' => e'.eventId != e.eventId) = true := by
    decide +kernel
  obtain ⟨s, hs, h⟩ := Reach.exists_of_follow _ hrun
  obtain ⟨st, hk, hphase, hqueue, hw, hflight, h⟩ := Api.waitsInVain_spec h
  obtain ⟨e, he, h⟩ := List.any_eq_true.mp h
  obtain ⟨hterminal, hmissed⟩ := Bool.and_eq_true_iff.mp h
  refine ⟨s, st, e, hs, hk, hphase, hqueue, by rw [hw]; exact hflight, by rw [hw]; exact he,
    hterminal, fun hmem => ?_⟩
  have hne := List.all_eq_true.mp hmissed e hmem
  rw [bne_self_eq_false] at hne
  cases hne

end TemporalLight
