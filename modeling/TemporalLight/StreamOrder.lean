import TemporalLight.Streams

/-!
# What a stream yields

The two loops of a stream share the id of the last event: the first loop sets it to the id of each
existing event, the second one reads only events with larger ids and sets it again.  So the events
come in the order of their ids, no matter how many notifications there are for one event, or how the
commits are ordered.

* `ok_replay`, `ok_tail`   a loop goes on with the events that it has read
* `Stream.Ok`              where a generator stands in what it yields
* `stream_ordered`         what all streams have yielded
-/

namespace TemporalLight
open Runs

/-- the events up to the first terminal one -/
def upToTerminal : List EventRecord → List EventRecord
  | [] => []
  | event :: rest => if event.eventType.isTerminal then [event] else event :: upToTerminal rest

def Unfinished (events : List EventRecord) : Prop := ∀ e ∈ events, e.eventType.isTerminal = false

theorem upToTerminal_append {events : List EventRecord} (h : Unfinished events)
    (rest : List EventRecord) : upToTerminal (events ++ rest) = events ++ upToTerminal rest := by
  induction events with
  | nil => rfl
  | cons e events ih =>
    obtain ⟨he, hevents⟩ := List.forall_mem_cons.mp h
    rw [List.cons_append, upToTerminal, if_neg (by rw [he]; decide), ih hevents, List.cons_append]

theorem upToTerminal_eq {events : List EventRecord} (h : Unfinished events) :
    upToTerminal events = events := by
  have happend := upToTerminal_append h []
  rwa [List.append_nil, upToTerminal, List.append_nil] at happend

theorem prefix_upToTerminal (event : EventRecord) (rest : List EventRecord) :
    [event] <+: upToTerminal (event :: rest) := by
  rw [upToTerminal]
  split
  · exact List.prefix_refl _
  · exact ⟨upToTerminal rest, rfl⟩

def Stream.yielded (st : Stream) : List EventRecord := st.replayed ++ st.tailed

def Stream.pending (st : Stream) : List EventRecord :=
  match st.phase with
  | .created => st.existingEvents
  | .replaying _ rest => rest
  | .tailing _ rest => rest
  | _ => []

def Stream.isReplayed (st : Stream) : Bool :=
  match st.phase with
  | .created => false
  | .replaying _ _ => false
  | .closed replayed => replayed
  | _ => true

def Stream.UpToDate (st : Stream) : Prop :=
  st.replayed = st.existingEvents ∧ Unfinished st.yielded
    ∧ ∀ e ∈ st.yielded, e.eventId ≤ st.lastEventId

def Stream.PhaseOk (st : Stream) : Prop :=
  match st.phase with
  | .created => st.replayed = [] ∧ st.tailed = []
  | .replaying event rest => st.tailed = [] ∧ st.existingEvents = st.replayed ++ rest
      ∧ ∃ done, st.replayed = done ++ [event] ∧ Unfinished done
  | .waiting => st.UpToDate
  | .loading => st.UpToDate
  | .tailing event _ => st.replayed = st.existingEvents
      ∧ ∃ done, st.tailed = done ++ [event] ∧ Unfinished (st.replayed ++ done)
  | .closed true => st.replayed = upToTerminal st.existingEvents ∧ Unfinished st.yielded.dropLast
  | .closed false => st.replayed <+: upToTerminal st.existingEvents ∧ st.tailed = []
      ∧ Unfinished st.yielded.dropLast

section
variable {Val : Type} {db db' : Sys Val} {st st' st₁ : Stream} {events : List EventRecord}

structure Stream.Ok (db : Sys Val) (st : Stream) : Prop where
  sorted : (st.yielded ++ st.pending).Pairwise fun a b => a.eventId < b.eventId
  committed : ∀ e ∈ st.yielded ++ st.pending, e ∈ db.history st.workflowId
  phase : st.PhaseOk

theorem Stream.Ok.notified (h : st.Ok db) (queue : Nat) : { st with queue := queue }.Ok db :=
  ⟨h.sorted, h.committed, h.phase⟩

/-! ## the loops -/

/-- the first loop goes on -/
theorem ok_replay (htailed : st.tailed = []) (hexisting : st.existingEvents = st.replayed ++ events)
    (hunfinished : Unfinished st.replayed) (hlast : ∀ e ∈ st.replayed, e.eventId ≤ st.lastEventId)
    (hsorted : (st.replayed ++ events).Pairwise fun a b => a.eventId < b.eventId)
    (hcommitted : ∀ e ∈ st.replayed ++ events, e ∈ db.history st.workflowId) :
    (st.replay events).Ok db := by
  cases events with
  | nil =>
    have hyielded : (st.replay []).yielded ++ (st.replay []).pending = st.replayed ++ [] := by
      show st.replayed ++ st.tailed ++ [] = _
      rw [htailed, List.append_nil]
    refine ⟨hyielded ▸ hsorted, hyielded ▸ hcommitted, ?_⟩
    rw [List.append_nil] at hexisting hyielded
    have hyielded : (st.replay []).yielded = st.replayed := by
      rw [← hyielded]
      exact (List.append_nil _).symm
    exact ⟨hexisting.symm, hyielded ▸ hunfinished, hyielded ▸ hlast⟩
  | cons event rest =>
    have hyielded : (st.replay (event :: rest)).yielded ++ (st.replay (event :: rest)).pending
        = st.replayed ++ event :: rest := by
      show st.replayed ++ [event] ++ st.tailed ++ rest = _
      rw [htailed, List.append_nil, List.append_assoc, List.singleton_append]
    refine ⟨hyielded ▸ hsorted, hyielded ▸ hcommitted, htailed, ?_, st.replayed, rfl, hunfinished⟩
    show st.existingEvents = st.replayed ++ [event] ++ rest
    rw [hexisting, List.append_assoc, List.singleton_append]

theorem ok_tail (hdate : st.UpToDate)
    (hsorted : (st.yielded ++ events).Pairwise fun a b => a.eventId < b.eventId)
    (hcommitted : ∀ e ∈ st.yielded ++ events, e ∈ db.history st.workflowId) :
    (st.tail events).Ok db := by
  obtain ⟨hreplayed, hunfinished, hlast⟩ := hdate
  cases events with
  | nil => exact ⟨hsorted, hcommitted, hreplayed, hunfinished, hlast⟩
  | cons event rest =>
    have hyielded : (st.tail (event :: rest)).yielded ++ (st.tail (event :: rest)).pending
        = st.yielded ++ event :: rest := by
      show st.replayed ++ (st.tailed ++ [event]) ++ rest = st.replayed ++ st.tailed ++ event :: rest
      simp only [List.append_assoc, List.singleton_append]
    exact ⟨hyielded ▸ hsorted, hyielded ▸ hcommitted, hreplayed, st.tailed, rfl, hunfinished⟩

theorem ok_closed (h : st.Ok db) {replayed : Bool} (hphase : (st.close replayed).PhaseOk) :
    (st.close replayed).Ok db := by
  refine ⟨?_, fun e he => h.committed e ?_, hphase⟩
  · show (st.yielded ++ []).Pairwise _
    rw [List.append_nil]
    exact (List.pairwise_append.mp h.sorted).1
  · have he : e ∈ st.yielded ++ [] := he
    rw [List.append_nil] at he
    exact List.mem_append_left _ he

theorem ok_closed_setLastEventId (h : st.Ok db) (eventId : Nat) {replayed : Bool}
    (hphase : (st.close replayed).PhaseOk) : ((st.setLastEventId eventId).close replayed).Ok db := by
  obtain ⟨hsorted, hcommitted, hphase⟩ := ok_closed h hphase
  refine ⟨hsorted, hcommitted, ?_⟩
  cases replayed with
  | true => exact hphase
  | false => exact hphase

theorem le_of_sorted {done : List EventRecord} {event : EventRecord}
    (h : (done ++ [event]).Pairwise fun a b => a.eventId < b.eventId) :
    ∀ e ∈ done ++ [event], e.eventId ≤ event.eventId := by
  intro e he
  rcases List.mem_append.mp he with he | he
  · exact le_of_lt ((List.pairwise_append.mp h).2.2 e he event List.mem_cons_self)
  · rw [List.mem_singleton.mp he]

theorem Unfinished.snoc {done : List EventRecord} {event : EventRecord} (h : Unfinished done)
    (hevent : event.eventType.isTerminal = false) : Unfinished (done ++ [event]) :=
  List.forall_mem_append.mpr ⟨h, List.forall_mem_singleton.mpr hevent⟩

theorem Unfinished.dropLast (h : Unfinished events) : Unfinished events.dropLast :=
  fun e he => h e (List.dropLast_subset _ he)

/-! ## the steps of a stream -/

theorem eventsAfter_sorted (hids : db.IdsOk) (w : String) (n : Nat) :
    (db.eventsAfter w n).Pairwise fun a b => a.eventId < b.eventId :=
  (hids.sorted.filter _).filter _

theorem mem_eventsAfter {w : String} {n : Nat} {e : EventRecord} :
    e ∈ db.eventsAfter w n ↔ e ∈ db.history w ∧ n < e.eventId := by
  rw [Sys.eventsAfter, List.mem_filter, decide_eq_true_eq]

/-- the client leaves the first loop -/
theorem phaseOk_closeEarly (h : st.PhaseOk) (htailing : st.isTailing = false)
    (hopen : ∀ replayed, st.phase ≠ .closed replayed) : (st.close false).PhaseOk := by
  unfold Stream.PhaseOk at h
  cases hphase : st.phase with
  | created =>
    rw [hphase] at h
    obtain ⟨hreplayed, htailed⟩ := h
    refine ⟨?_, htailed, ?_⟩
    · show st.replayed <+: _
      rw [hreplayed]
      exact List.nil_prefix
    · show Unfinished (st.replayed ++ st.tailed).dropLast
      rw [hreplayed, htailed]
      exact nofun
  | replaying event rest =>
    rw [hphase] at h
    obtain ⟨htailed, hexisting, done, hdone, hunfinished⟩ := h
    refine ⟨?_, htailed, ?_⟩
    · show st.replayed <+: upToTerminal st.existingEvents
      rw [hexisting, hdone, List.append_assoc, List.singleton_append,
        upToTerminal_append hunfinished]
      exact (List.prefix_append_right_inj done).mpr (prefix_upToTerminal event rest)
    · show Unfinished (st.replayed ++ st.tailed).dropLast
      rw [htailed, List.append_nil, hdone, List.dropLast_concat]
      exact hunfinished
  | closed replayed => exact absurd hphase (hopen replayed)
  | _ => simp [Stream.isTailing, hphase] at htailing

/-- the second loop is left -/
theorem phaseOk_close (h : st.PhaseOk) (htailing : st.isTailing = true) :
    (st.close true).PhaseOk := by
  have hdate (h : st.UpToDate) : (st.close true).PhaseOk := by
    obtain ⟨hreplayed, hunfinished, -⟩ := h
    refine ⟨?_, hunfinished.dropLast⟩
    show st.replayed = upToTerminal st.existingEvents
    rw [← hreplayed, upToTerminal_eq fun e he => hunfinished e (List.mem_append_left _ he)]
  unfold Stream.PhaseOk at h
  cases hphase : st.phase with
  | waiting =>
    rw [hphase] at h
    exact hdate h
  | loading =>
    rw [hphase] at h
    exact hdate h
  | tailing event rest =>
    rw [hphase] at h
    obtain ⟨hreplayed, done, htailed, hunfinished⟩ := h
    refine ⟨?_, ?_⟩
    · show st.replayed = upToTerminal st.existingEvents
      rw [← hreplayed, upToTerminal_eq fun e he => hunfinished e (List.mem_append_left _ he)]
    · show Unfinished (st.replayed ++ st.tailed).dropLast
      rw [htailed, ← List.append_assoc, List.dropLast_concat]
      exact hunfinished
  | _ => simp [Stream.isTailing, hphase] at htailing

/-- **One step of a stream keeps the order.** -/
theorem Stream.Ok.moves (hids : db.IdsOk) (h : st.Ok db) (hmove : st.Moves db st') : st'.Ok db := by
  obtain ⟨hsorted, hcommitted, hphaseOk⟩ := h
  have hok : st.Ok db := ⟨hsorted, hcommitted, hphaseOk⟩
  cases hmove with
  | start hphase =>
    unfold Stream.PhaseOk at hphaseOk
    rw [hphase] at hphaseOk
    obtain ⟨hreplayed, htailed⟩ := hphaseOk
    rw [Stream.yielded, hreplayed, htailed, Stream.pending, hphase] at hsorted hcommitted
    refine ok_replay htailed ?_ ?_ ?_ ?_ ?_ <;> rw [hreplayed]
    · rfl
    · exact nofun
    · exact nofun
    · exact hsorted
    · exact hcommitted
  | @ended event rest hphase hterminal =>
    unfold Stream.PhaseOk at hphaseOk
    rw [hphase] at hphaseOk
    obtain ⟨htailed, hexisting, done, hdone, hunfinished⟩ := hphaseOk
    have hclosed : (st.close true).PhaseOk := by
      refine ⟨?_, ?_⟩
      · show st.replayed = upToTerminal st.existingEvents
        rw [hexisting, hdone, List.append_assoc, List.singleton_append,
          upToTerminal_append hunfinished, upToTerminal, if_pos hterminal]
      · show Unfinished (st.replayed ++ st.tailed).dropLast
        rw [htailed, List.append_nil, hdone, List.dropLast_concat]
        exact hunfinished
    exact ok_closed_setLastEventId hok _ hclosed
  | @replay event rest hphase hterminal =>
    unfold Stream.PhaseOk at hphaseOk
    rw [hphase] at hphaseOk
    obtain ⟨htailed, hexisting, done, hdone, hunfinished⟩ := hphaseOk
    rw [Stream.yielded, htailed, List.append_nil, Stream.pending, hphase] at hsorted hcommitted
    refine ok_replay htailed hexisting ?_ ?_ hsorted hcommitted
    · show Unfinished st.replayed
      rw [hdone]
      exact hunfinished.snoc hterminal
    · show ∀ e ∈ st.replayed, e.eventId ≤ event.eventId
      have hbefore := (List.pairwise_append.mp hsorted).1
      rw [hdone] at hbefore ⊢
      exact le_of_sorted hbefore
  | @left event rest hphase hterminal =>
    have htailing : st.isTailing = true := by rw [Stream.isTailing, hphase]
    exact ok_closed_setLastEventId hok _ (phaseOk_close hphaseOk htailing)
  | @tail event rest hphase hterminal =>
    unfold Stream.PhaseOk at hphaseOk
    rw [hphase] at hphaseOk
    obtain ⟨hreplayed, done, htailed, hunfinished⟩ := hphaseOk
    rw [Stream.pending, hphase] at hsorted hcommitted
    have hyielded : st.yielded = st.replayed ++ done ++ [event] := by
      rw [Stream.yielded, htailed, List.append_assoc]
    refine ok_tail ⟨hreplayed, ?_, ?_⟩ hsorted hcommitted
    · show Unfinished st.yielded
      rw [hyielded]
      exact hunfinished.snoc hterminal
    · show ∀ e ∈ st.yielded, e.eventId ≤ event.eventId
      have hbefore := (List.pairwise_append.mp hsorted).1
      rw [hyielded] at hbefore ⊢
      exact le_of_sorted hbefore
  | wake hphase _ =>
    unfold Stream.PhaseOk at hphaseOk
    rw [hphase] at hphaseOk
    rw [Stream.pending, hphase] at hsorted hcommitted
    exact ⟨hsorted, hcommitted, hphaseOk⟩
  | load hphase =>
    unfold Stream.PhaseOk at hphaseOk
    rw [hphase] at hphaseOk
    have hlast := hphaseOk.2.2
    rw [Stream.pending, hphase, List.append_nil] at hsorted hcommitted
    refine ok_tail hphaseOk ?_ ?_
    · refine List.pairwise_append.mpr ⟨hsorted, eventsAfter_sorted hids _ _, fun a ha b hb => ?_⟩
      exact lt_of_le_of_lt (hlast a ha) (mem_eventsAfter.mp hb).2
    · exact List.forall_mem_append.mpr ⟨hcommitted, fun e he => (mem_eventsAfter.mp he).1⟩
  | closeEarly htailing hopen => exact ok_closed hok (phaseOk_closeEarly hphaseOk htailing hopen)
  | close htailing => exact ok_closed hok (phaseOk_close hphaseOk htailing)

/-! ## all streams -/

variable {d : Deployment Val} {ok : Api Val → ApiLabel Val → Prop} {s s' : Api Val}

theorem reachable_db (hs : Api.Reachable d ok s) : Reachable d (fun _ _ => True) s.db := by
  refine Reach.invariant (I := fun s : Api Val => Reachable d (fun _ _ => True) s.db) .start ?_ hs
  intro s l s' ih _ hl
  cases Api.Step.of_step hl with
  | db hdb => exact .step _ ih trivial hdb
  | _ => exact ih

theorem Stream.Ok.db_step {l : Label Val} (h : st.Ok db) (hstep : Step d db l db') : st.Ok db' :=
  ⟨h.sorted, fun e he => hstep.mem_history (h.committed e he), h.phase⟩

theorem Stream.ok_opened (hids : db.IdsOk) (w : String) : (Stream.opened w (db.history w)).Ok db where
  sorted := hids.sorted.filter _
  committed _ he := he
  phase := ⟨rfl, rfl⟩

theorem Api.getElem?_setStream {k j : Nat} (hk : s.streams[k]? = some st)
    (hj : (s.setStream k st').streams[j]? = some st₁) :
    (j = k ∧ st₁ = st') ∨ (j ≠ k ∧ s.streams[j]? = some st₁) := by
  have hj : (s.streams.set k st')[j]? = some st₁ := hj
  by_cases heq : j = k
  · subst heq
    obtain ⟨hlt, -⟩ := List.getElem?_eq_some_iff.mp hk
    rw [List.getElem?_set_self hlt] at hj
    exact .inl ⟨rfl, (Option.some.inj hj).symm⟩
  · rw [List.getElem?_set_ne (Ne.symm heq)] at hj
    exact .inr ⟨heq, hj⟩

/-- the streams after a step: those of before, with other queues, one of them moved, or a new one -/
theorem Api.Step.stream_cases {l : ApiLabel Val} (h : Api.Step d s l s') {k : Nat}
    (hk : s'.streams[k]? = some st') :
    (∃ st queue, s.streams[k]? = some st ∧ st' = { st with queue := queue })
    ∨ (∃ st, s.streams[k]? = some st ∧ st.Moves s.db st' ∧ s'.db = s.db)
    ∨ ∃ w, st' = .opened w (s.db.history w) ∧ s'.db = s.db := by
  have hqueue {w : String} (hk : (s.onNotify w).streams[k]? = some st') :
      ∃ st queue, s.streams[k]? = some st ∧ st' = { st with queue := queue } := by
    rw [Api.onNotify_streams] at hk
    obtain ⟨st, hst, rfl⟩ := Option.map_eq_some_iff.mp hk
    exact ⟨st, _, hst, rfl⟩
  cases h with
  | db _ => exact .inl ⟨st', st'.queue, hk, rfl⟩
  | deliver _ => exact .inl (hqueue hk)
  | notify w => exact .inl (hqueue hk)
  | @openStream w _ =>
    rcases getElem?_snoc hk with hk | ⟨-, rfl⟩
    · exact .inl ⟨st', st'.queue, hk, rfl⟩
    · exact .inr (.inr ⟨w, rfl, rfl⟩)
  | move hj hmove =>
    rcases Api.getElem?_setStream hj hk with ⟨rfl, rfl⟩ | ⟨-, hk⟩
    · exact .inr (.inl ⟨_, hj, hmove, rfl⟩)
    · exact .inl ⟨st', st'.queue, hk, rfl⟩

/-- **One step of the process keeps the order of every stream.** -/
theorem stream_ok_step {l : ApiLabel Val} (hids : s.db.IdsOk) (hstep : s.step d l = some s')
    (h : ∀ (k : Nat) (st : Stream), s.streams[k]? = some st → st.Ok s.db) (k : Nat) (st' : Stream)
    (hk : s'.streams[k]? = some st') : st'.Ok s'.db := by
  have hdb : ∀ st : Stream, st.Ok s.db → st.Ok s'.db := by
    intro st hst
    cases Api.Step.of_step hstep with
    | db hdb => exact hst.db_step (Step.of_step hdb)
    | _ => exact hst
  rcases (Api.Step.of_step hstep).stream_cases hk with ⟨st, queue, hk', rfl⟩
      | ⟨st, hk', hmove, -⟩ | ⟨w, rfl, -⟩
  · exact hdb _ ((h k st hk').notified queue)
  · exact hdb _ ((h k st hk').moves hids hmove)
  · exact hdb _ (Stream.ok_opened hids w)

theorem stream_ok (hs : Api.Reachable d ok s) {k : Nat} (hk : s.streams[k]? = some st) :
    st.Ok s.db := by
  refine Reach.invariant_of_reach
    (I := fun s : Api Val => ∀ (k : Nat) (st : Stream), s.streams[k]? = some st → st.Ok s.db)
    ?_ ?_ hs k st hk
  · intro k st hk
    cases hk
  · intro s l s' hr ih _ hl
    exact stream_ok_step (ids_ok (reachable_db hr)) hl ih

/-! ## what has been yielded -/

theorem Stream.PhaseOk.unfinished (h : st.PhaseOk) : Unfinished st.yielded.dropLast := by
  unfold Stream.PhaseOk at h
  cases hphase : st.phase with
  | created =>
    rw [hphase] at h
    rw [Stream.yielded, h.1, h.2]
    exact nofun
  | replaying event rest =>
    rw [hphase] at h
    obtain ⟨htailed, -, done, hdone, hunfinished⟩ := h
    rw [Stream.yielded, htailed, List.append_nil, hdone, List.dropLast_concat]
    exact hunfinished
  | tailing event rest =>
    rw [hphase] at h
    obtain ⟨-, done, htailed, hunfinished⟩ := h
    rw [Stream.yielded, htailed, ← List.append_assoc, List.dropLast_concat]
    exact hunfinished
  | closed replayed =>
    rw [hphase] at h
    cases replayed with
    | true => exact h.2
    | false => exact h.2.2
  | _ =>
    rw [hphase] at h
    exact h.2.1.dropLast

theorem Stream.PhaseOk.closed (h : st.PhaseOk) : (st.close st.isReplayed).PhaseOk := by
  cases hphase : st.phase with
  | closed replayed =>
    have hclose : st.close st.isReplayed = st := by
      unfold Stream.close Stream.isReplayed
      rw [hphase, ← hphase]
    rwa [hclose]
  | _ =>
    have hreplayed : st.isReplayed = st.isTailing := by
      unfold Stream.isReplayed Stream.isTailing
      rw [hphase]
    rw [hreplayed]
    cases htailing : st.isTailing with
    | true => exact phaseOk_close h htailing
    | false => exact phaseOk_closeEarly h htailing (by simp [hphase])

/-- **A stream yields committed events of its workflow in the order of their ids; its first loop
yields the existing events up to the first terminal one, and nothing comes after a terminal one.**
-/
theorem stream_ordered (hs : Api.Reachable d ok s) {k : Nat} (hk : s.streams[k]? = some st) :
    (st.yielded.Pairwise fun a b => a.eventId < b.eventId)
    ∧ (∀ e ∈ st.yielded, e ∈ s.db.history st.workflowId)
    ∧ st.replayed <+: upToTerminal st.existingEvents
    ∧ (if st.isReplayed then st.replayed = upToTerminal st.existingEvents else st.tailed = [])
    ∧ Unfinished st.yielded.dropLast := by
  have h := stream_ok hs hk
  have hclosed := h.phase.closed
  refine ⟨(List.pairwise_append.mp h.sorted).1,
    fun e he => h.committed e (List.mem_append_left _ he), ?_, ?_, h.phase.unfinished⟩
  · cases hreplayed : st.isReplayed with
    | true =>
      rw [hreplayed] at hclosed
      exact hclosed.1 ▸ List.prefix_refl _
    | false =>
      rw [hreplayed] at hclosed
      exact hclosed.1
  · cases hreplayed : st.isReplayed with
    | true =>
      rw [hreplayed] at hclosed
      exact hclosed.1
    | false =>
      rw [hreplayed] at hclosed
      exact hclosed.2.1

end

/-! ## a signal to a streamed workflow -/

def signalsWorkflow : List (Label Json) :=
  [.request (.sendSignal "w" "go" (.int 5)), .read 1] ++ transact 1 4

/-- the stream has yielded the STARTED event when the workflow gets a signal, which it yields next -/
def streamsSignal : List (ApiLabel Json) :=
  startsWorkflow.map .db ++ [.openStream "w", .resume 0, .resume 0] ++ signalsWorkflow.map .db
    ++ [.deliver "w", .wake 0, .load 0]

theorem stream_ordered_signal : ∃ st : Stream, st.yielded.map (·.eventId) = [1, 2]
    ∧ (st.yielded.Pairwise fun a b => a.eventId < b.eventId)
    ∧ st.replayed = upToTerminal st.existingEvents := by
  have hrun : (follow (Api.step (.plain fun _ => none)) (fun _ _ => true) Api.initial
      streamsSignal).any (fun s => s.streams[0]?.any fun st =>
        st.yielded.map (·.eventId) == [1, 2] && st.isReplayed) = true := by
    decide +kernel
  obtain ⟨s, hs, h⟩ := Reach.exists_of_follow _ hrun
  obtain ⟨st, hk, h⟩ := (Option.any_eq_true _ _).mp h
  obtain ⟨hyielded, hreplayed⟩ := Bool.and_eq_true_iff.mp h
  obtain ⟨hsorted, -, -, hfirst, -⟩ := stream_ordered hs hk
  rw [if_pos hreplayed] at hfirst
  exact ⟨st, beq_iff_eq.mp hyielded, hsorted, hfirst⟩

end TemporalLight
