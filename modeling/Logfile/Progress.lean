import Logfile.Fairness
import Logfile.Shutdown
import Logfile.WakeUp

/-!
# Every event is logged

No sink holds up the log thread. It waits for events, and for a retry thread that it joins. The
retry thread that it joins has an empty queue and ends in a few steps, none of which is a write
(`Retry.remaining`). So every event that is enqueued before `do_run` has returned is passed to
`log` in each run that is fair to the threads, whatever the sinks do (`logged_of_fair`).

The rank is what the log thread has to do up to the event (`State.effort`) : the events in front of
it, the nodes that the current one still has to pass, and the way to the next `swap`.
-/

set_option linter.unusedSectionVars false

namespace Logfile

/-! ## The threads -/

/-- Threads that go on when they can. -/
inductive Party
  | log
  /-- between the release of `m_mutex` and `notify_one` -/
  | notifier
  | retry (t : ℕ)
  deriving DecidableEq

/-- Producers and the application are free to do nothing. -/
def Action.party : Action → Option Party
  | .log _ => some .log
  | .notify => some .notifier
  | .retry t _ _ => some (.retry t)
  | _ => none

/-- The thread can make a step. A wake-up without a notification does not count. -/
def Ready (formatTime : ℤ → Bytes) : Party → State → Prop
  | .log, st => st.log ≠ .wait ∧ (step formatTime st (.log true)).isSome = true
  | .notifier, st => (step formatTime st .notify).isSome = true
  | .retry t, st => (step formatTime st (.retry t true 0)).isSome = true

/-- The retry thread that the log thread is about to join. -/
def LogPc.joins : LogPc → Option ℕ
  | body _ _ _ _ (.join t) => some t
  | scanJoin _ t _ _ => some t
  | _ => none

variable {formatTime : ℤ → Bytes} {st st' : State} {t : ℕ} {r : Retry}

theorem logStep_isSome {pc : LogPc} (hlog : st.log = pc) (hret : pc ≠ .returned)
    (hjoin : ∀ t r, pc.joins = some t → st.retry? t = some r → r.pc = .finished) :
    (logStep formatTime st true).isSome = true := by
  unfold logStep
  rw [hlog]
  cases pc with
  | returned => exact absurd rfl hret
  | next rest => cases rest <;> rfl
  | body e rest n s pc =>
    dsimp only
    split
    · rfl
    cases pc with
    | join t =>
      cases hr : st.retry? t with
      | none => simp [bodyStep, hr]
      | some r => simp [bodyStep, hr, hjoin t r rfl hr]
    | find => simp only [bodyStep]; split <;> rfl
    | active => simp only [bodyStep]; split <;> rfl
    | enqueue => simp only [bodyStep]; split <;> rfl
    | first => simp only [bodyStep]; split <;> rfl
    | write => simp only [bodyStep]; split <;> rfl
    | announce => simp only [bodyStep]; split <;> rfl
    | construct => rfl
    | emplace => rfl
  | check => dsimp only; split_ifs <;> rfl
  | scan todo b =>
    cases todo with
    | nil => rfl
    | cons s todo =>
      dsimp only
      split
      · split <;> rfl
      · rfl
  | scanJoin s t todo b =>
    dsimp only
    cases hr : st.retry? t with
    | none => rfl
    | some r => simp [hjoin t r rfl hr]
  | _ => rfl

theorem retryStep_isSome (hr : st.retry? t = some r) (hpc : r.pc ≠ .finished) :
    (retryStep st t true 0).isSome = true := by
  unfold retryStep
  rw [hr]
  cases h : r.pc with
  | finished => exact absurd h hpc
  | front => simp only [h]; split <;> rfl
  | retryTime => simp only [h]; split <;> rfl
  | write => simp only [h]; split <;> rfl
  | report => simp only [h]; split <;> rfl
  | stopping => simp only [h]; split <;> rfl
  | _ => simp only [h]; rfl

/-! ## A retry thread -/

/-- A bound for the steps up to the end of `run()`, if the writes succeed and no event is added. -/
def Retry.remaining (r : Retry) : ℕ :=
  match r.pc with
  | .retryTime => 3 * r.queue.length + 7
  | .sleep => 3 * r.queue.length + 6
  | .front => 3 * r.queue.length + 5
  | .write _ => 3 * r.queue.length + 4
  | .pop => 3 * r.queue.length + 3
  | .expire => if r.queue = [] then 4 else 3 * r.queue.length + 10
  | .report => if r.queue = [] then 3 else 3 * r.queue.length + 9
  | .test => if r.queue = [] then 2 else 3 * r.queue.length + 8
  | .stopping => 1
  | .finished => 0

theorem remaining_le (hq : r.queue = []) : r.remaining ≤ 7 := by
  unfold Retry.remaining
  split <;> simp [hq]

/-- Each step brings the end nearer, unless a write fails. -/
theorem RetryMove.remaining_lt {tr : List Obs} (hr : deref st.retries t = some r)
    (hfacts : RetryFacts tr r) (hs : RetryMove st t r st') : st'.crashed = true ∨
      (∃ e, r.pc = .write e ∧
        st' = st.modifyRetry t fun r => { r with pc := .expire }) ∨
      ∃ r', deref st'.retries t = some r' ∧ r'.remaining < r.remaining := by
  have hderef : ∀ f : Retry → Retry, (∀ r, (f r).deleted = r.deleted) →
      deref (st.modifyRetry t f).retries t = some (f r) := by
    intro f hf
    rw [deref_modifyRetry st hf, if_pos rfl, hr, Option.map_some]
  cases hs with
  | crash => exact Or.inl rfl
  | @quiet pc pc' hpc hquiet =>
    by_cases hfail : ∃ e, pc = .write e
    · obtain ⟨e, rfl⟩ := hfail
      cases hquiet
      exact Or.inr (Or.inl ⟨e, hpc, rfl⟩)
    refine Or.inr (Or.inr ⟨_, hderef _ fun _ => rfl, ?_⟩)
    cases hquiet with
    | fail => exact absurd ⟨_, rfl⟩ hfail
    | empty hq => simp [Retry.remaining, hpc, hq]
    | report => by_cases hq : r.queue = [] <;> simp [Retry.remaining, hpc, hq]
    | again hq => simp [Retry.remaining, hpc, hq]
    | leave hq => simp [Retry.remaining, hpc, hq]
    | _ => simp [Retry.remaining, hpc]
  | accept hpc =>
    refine Or.inr (Or.inr ⟨_, hderef _ fun _ => rfl, ?_⟩)
    simp [Retry.remaining, hpc]
  | pop hpc =>
    refine Or.inr (Or.inr ⟨_, hderef _ fun _ => rfl, ?_⟩)
    simp only [RetryFacts, hpc] at hfacts
    obtain ⟨e, he, -⟩ := hfacts
    obtain ⟨rest, hq⟩ := List.head?_eq_some_iff.1 he
    simp only [Retry.remaining, hpc, hq, List.tail_cons, List.length_cons]
    omega
  | @expire now pc hpc hnext =>
    refine Or.inr (Or.inr ⟨_, hderef _ fun _ => rfl, ?_⟩)
    have hlen := List.length_filter_le (fun e : Item => !e.event.expired now) r.queue
    have hnil : r.queue = [] → r.queue.filter (fun e => !e.event.expired now) = [] := by
      intro hq
      simp [hq]
    generalize r.queue.filter (fun e => !e.event.expired now) = queue at hlen hnil
    by_cases hq : r.queue = []
    · rcases hnext with rfl | rfl <;> simp [Retry.remaining, hpc, hq, hnil hq]
    · rcases hnext with rfl | rfl <;>
      · simp only [Retry.remaining, hpc, if_neg hq]
        split <;> omega

/-! ## The log thread -/

/-- The nodes behind the name. -/
def nodesBehind (m : OrdMap String Stream) (n : String) : ℕ :=
  (m.entries.filter (n < ·.1)).length

/-- A bound for the steps of `log` at one node. -/
def BodyPc.steps : BodyPc → ℕ
  | find => 8
  | active _ => 7
  | enqueue _ => 6
  | join _ => 6
  | write => 5
  | construct => 4
  | announce _ => 3
  | first _ => 2
  | emplace _ => 1

/-- A bound for the steps up to the next event, or up to the next `swap`. -/
def LogPc.steps (m : OrdMap String Stream) : LogPc → ℕ
  | body _ _ n _ pc => 3 + 9 * nodesBehind m n + pc.steps
  | next _ => 3
  | scanJoin _ _ todo _ => 4 + 2 * todo.length
  | scan todo _ => 3 + 2 * todo.length
  | check | wait | pause | final => 2
  | swap => 1
  | returned => 0

theorem BodyPc.steps_pos (pc : BodyPc) : 0 < pc.steps := by
  cases pc <;> exact Nat.succ_pos _

theorem nodesBehind_lt {m : OrdMap String Stream} {n : String} {p : String × Stream}
    (hmem : p ∈ m.entries) (hp : n < p.1) : nodesBehind m p.1 < nodesBehind m n := by
  have hsub : m.entries.filter (p.1 < ·.1) =
      (m.entries.filter (n < ·.1)).filter (p.1 < ·.1) := by
    rw [List.filter_filter]
    refine List.filter_congr fun q _ => ?_
    by_cases hq : p.1 < q.1
    · simp [hq, hp.trans hq]
    · simp [hq]
  rw [nodesBehind, hsub, nodesBehind]
  exact List.length_filter_lt_length_iff_exists.2 ⟨p, List.mem_filter.2 ⟨hmem, by simpa using hp⟩,
    by simp⟩

theorem steps_advance (st : State) (e : Item) (rest : List Item) (n : String) :
    (st.advance e rest n).log.steps st.streams ≤ 3 + 9 * nodesBehind st.streams n := by
  unfold State.advance
  cases h : st.streams.next n with
  | none => exact Nat.le_add_right _ _
  | some p =>
    have hlt := nodesBehind_lt (List.mem_of_find?_eq_some h) (OrdMap.lt_of_next h)
    simp only [State.visit, State.goto, LogPc.steps, BodyPc.steps]
    omega

theorem steps_first (st : State) (e : Item) (rest : List Item) :
    (st.visit e rest st.streams.first).log.steps st.streams ≤
      3 + 9 * st.streams.entries.length := by
  cases h : st.streams.first with
  | none => exact Nat.le_add_right _ _
  | some p =>
    have hlt : nodesBehind st.streams p.1 < st.streams.entries.length :=
      List.length_filter_lt_length_iff_exists.2 ⟨p, List.mem_of_head? h, by simp⟩
    simp only [State.visit, State.goto, LogPc.steps, BodyPc.steps]
    omega

theorem visit_streams (e : Item) (rest : List Item) (o : Option (String × Stream)) :
    (st.visit e rest o).streams = st.streams := by
  cases o <;> rfl

/-- Each step at a node brings the end of `log` nearer. -/
theorem BodyMove.steps_lt {e : Item} {rest : List Item} {n : String} {s : Stream} {pc : BodyPc}
    (hs : BodyMove st e rest n s pc st') : st'.crashed = true ∨
      (st'.streams = st.streams ∧ st'.events = st.events ∧ st'.log.rest = rest ∧
        st'.log.steps st.streams < 3 + 9 * nodesBehind st.streams n + pc.steps) := by
  have hadvance : ∀ st₁ : State, st₁.streams = st.streams → st₁.events = st.events →
      (st₁.advance e rest n).streams = st.streams ∧ (st₁.advance e rest n).events = st.events ∧
        (st₁.advance e rest n).log.rest = rest ∧
        (st₁.advance e rest n).log.steps st.streams <
          3 + 9 * nodesBehind st.streams n + pc.steps := by
    intro st₁ hst hev
    have hle := steps_advance st₁ e rest n
    have hpos := pc.steps_pos
    rw [hst] at hle
    exact ⟨(visit_streams ..).trans hst, (visit_events ..).trans hev, rest_visit .., by omega⟩
  cases hs with
  | crash => exact Or.inl rfl
  | enqueue | accept | drop | emplace => exact Or.inr (hadvance _ rfl rfl)
  | _ => exact Or.inr ⟨rfl, rfl, rfl, by simp [State.goto, LogPc.steps, BodyPc.steps]⟩

/-- The event is in the local list of `do_run` or in `m_events`. -/
def State.Waits (st : State) (id : ℕ) : Prop :=
  id ∈ ids (st.log.rest ++ st.events)

/-- A bound for the steps of the log thread up to an event that waits. -/
def State.effort (st : State) (id : ℕ) : ℕ :=
  (9 * st.streams.entries.length + 5) * (ids (st.log.rest ++ st.events)).idxOf id +
    st.log.steps st.streams + if id ∈ ids st.log.rest then 0 else 5

theorem effort_lt_of_steps {id : ℕ} (hw : st.Waits id) (hstreams : st'.streams = st.streams)
    (hevents : st'.events = st.events) (hrest : st'.log.rest = st.log.rest)
    (hlt : st'.log.steps st.streams < st.log.steps st.streams) :
    st'.Waits id ∧ st'.effort id < st.effort id := by
  unfold State.Waits State.effort at *
  rw [hstreams, hevents, hrest]
  exact ⟨hw, by omega⟩

/-- Each step of the log thread brings it nearer to an event that waits. -/
theorem LogMove.effort_lt {pc : LogPc} {id : ℕ} (hlog : st.log = pc)
    (hs : LogMove formatTime st pc st') (hw : st.Waits id) :
    (st'.crashed = true ∨ id ∈ logged st'.trace) ∨
      st'.Waits id ∧ st'.effort id < st.effort id := by
  have hstep : ∀ pc', pc'.rest = pc.rest → pc'.steps st.streams < pc.steps st.streams →
      ∀ m l, ({ st with retryMap := m, retries := l }.goto pc').Waits id ∧
        ({ st with retryMap := m, retries := l }.goto pc').effort id < st.effort id := by
    intro pc' hrest hlt m l
    exact effort_lt_of_steps hw rfl rfl (hrest.trans (by rw [hlog])) (by rwa [hlog])
  cases hs with
  | crash => exact Or.inl (Or.inl rfl)
  | swap =>
    have hmem : id ∈ ids st.events := by simpa [State.Waits, hlog, LogPc.rest] using hw
    have hnil : id ∉ ids [] := List.not_mem_nil
    refine Or.inr ⟨?_, ?_⟩
    · simpa [State.Waits, State.goto, LogPc.rest] using hmem
    · simp [State.effort, State.goto, hlog, LogPc.rest, LogPc.steps, hmem, hnil]
  | @take e rest =>
    by_cases hid : e.id = id
    · exact Or.inl (Or.inr (by simp [logged, State.observe, hid]))
    · have hle := steps_first (st.observe [.logged e.id])
        { e with event.timeString := formatTime e.event.time } rest
      have hrest : id ∈ ids (e :: rest) ↔ id ∈ ids rest := by simp [ids, Ne.symm hid]
      have hidx : (ids (e :: rest ++ st.events)).idxOf id =
          (ids (rest ++ st.events)).idxOf id + 1 := List.idxOf_cons_ne _ hid
      have hbefore : st.effort id = (9 * st.streams.entries.length + 5) *
          ((ids (rest ++ st.events)).idxOf id + 1) + 3 + if id ∈ ids rest then 0 else 5 := by
        rw [State.effort, hlog, ← hidx]
        simp only [LogPc.rest, LogPc.steps, hrest]
      refine Or.inr ⟨?_, ?_⟩
      · rw [State.Waits, rest_visit, visit_events]
        simpa [State.Waits, hlog, LogPc.rest, ids, Ne.symm hid, State.observe] using hw
      · rw [hbefore, State.effort, visit_streams, rest_visit, visit_events, Nat.mul_add,
          Nat.mul_one]
        dsimp only [State.observe] at hle ⊢
        omega
  | @body e rest n s pc st' _ hmove =>
    rcases hmove.steps_lt with hcrash | ⟨hstreams, hevents, hrest, hlt⟩
    · exact Or.inl (Or.inl hcrash)
    · exact Or.inr (effort_lt_of_steps hw hstreams hevents (by rw [hrest, hlog]; rfl)
        (by rwa [hlog]))
  | scan _ hev | sleep _ hev | finish hev => simp [State.Waits, hlog, hev, LogPc.rest, ids] at hw
  | @scanned b =>
    refine Or.inr (hstep _ ?_ ?_ _ _) <;> cases b <;> simp [LogPc.rest, LogPc.steps]
  | scanIdle =>
    refine Or.inr (hstep _ ?_ ?_ _ _)
    · rfl
    · simp only [LogPc.steps, List.length_cons]
      omega
  | _ =>
    refine Or.inr (hstep _ ?_ ?_ _ _)
    · rfl
    · simp [LogPc.steps]

/-! ## The rank -/

/-- A bound for the steps of the retry thread that the log thread is about to join. -/
def State.joinLeft (st : State) : ℕ :=
  (st.log.joins.bind st.retry?).elim 0 Retry.remaining

/-- The thread that brings the log thread on. -/
def State.helpful (st : State) : Party :=
  if st.log = .wait then .notifier
  else
    match st.log.joins with
    | none => .log
    | some t => if st.joinLeft = 0 then .log else .retry t

def State.rank (id : ℕ) (st : State) : ℕ :=
  8 * st.effort id + st.joinLeft

/-- A retry thread that is joined has an empty queue. -/
theorem Inv.queue_of_joins (h : Inv st) (hj : st.log.joins = some t)
    (hr : deref st.retries t = some r) : r.queue = [] := by
  have hfacts := h.log
  cases hlog : st.log with
  | body e rest n s pc =>
    rw [hlog] at hj hfacts
    cases pc with
    | join t' =>
      obtain rfl := Option.some.inj hj
      exact hfacts.2 r hr
    | _ => cases hj
  | scanJoin s t' todo b =>
    rw [hlog] at hj hfacts
    obtain rfl := Option.some.inj hj
    exact hfacts.2.2.1 r hr
  | _ =>
    rw [hlog] at hj
    cases hj

theorem Inv.joinLeft_le (h : Inv st) : st.joinLeft ≤ 7 := by
  unfold State.joinLeft
  cases hj : st.log.joins.bind st.retry? with
  | none => exact Nat.zero_le 7
  | some r =>
    obtain ⟨t, ht, hr⟩ := Option.bind_eq_some_iff.1 hj
    exact remaining_le (h.queue_of_joins ht hr)

theorem remaining_eq_zero : r.remaining = 0 ↔ r.pc = .finished := by
  unfold Retry.remaining
  cases r.pc <;> simp <;> split <;> simp

/-- The helpful thread is ready. -/
theorem ready_helpful {id : ℕ} (hroused : Roused st) (hcrash : st.crashed = false)
    (hret : st.log ≠ .returned) (hw : st.Waits id) : Ready formatTime st.helpful st := by
  have hlog : st.log ≠ .wait → (∀ t r, st.log.joins = some t → st.retry? t = some r →
      r.pc = .finished) → Ready formatTime .log st := by
    refine fun hwait hjoin => ⟨hwait, ?_⟩
    rw [step, hcrash]
    exact logStep_isSome rfl hret hjoin
  unfold State.helpful
  split
  · next hwait =>
    -- somebody has filled the queue, and has not notified yet
    have hdue : 0 < st.notifiers := by
      refine (hroused hwait).resolve_left fun hnothing => ?_
      simp [State.Waits, hwait, hnothing.1, LogPc.rest, ids] at hw
    simp [Ready, step, hcrash, hdue.ne']
  · next hwait =>
    cases hj : st.log.joins with
    | none => exact hlog hwait fun _ _ ht => by rw [hj] at ht; cases ht
    | some t =>
      dsimp only
      split
      · next hleft =>
        refine hlog hwait fun t' r ht hr => remaining_eq_zero.1 ?_
        simpa [State.joinLeft, ht, hr] using hleft
      · next hleft =>
        cases hr : st.retry? t with
        | none => simp [State.joinLeft, hj, hr] at hleft
        | some r =>
          have hpc : r.pc ≠ .finished := by
            intro hpc
            simp [State.joinLeft, hj, hr, remaining_eq_zero.2 hpc] at hleft
          rw [Ready, step, hcrash]
          exact retryStep_isSome hr hpc

theorem steps_mono {m m' : OrdMap String Stream} (h : m'.entries.Sublist m.entries) (pc : LogPc) :
    pc.steps m' ≤ pc.steps m := by
  cases pc with
  | body e rest n s pc =>
    have hle : nodesBehind m' n ≤ nodesBehind m n := (h.filter _).length_le
    simp only [LogPc.steps]
    omega
  | _ => exact le_rfl

/-- More events may come and nodes may go. -/
theorem effort_le {id : ℕ} {new : List Item} (hw : st.Waits id)
    (hevents : st'.events = st.events ++ new) (hlog : st'.log = st.log)
    (hstreams : st'.streams.entries.Sublist st.streams.entries) :
    st'.Waits id ∧ st'.effort id ≤ st.effort id := by
  have hidx : (ids (st'.log.rest ++ st'.events)).idxOf id =
      (ids (st.log.rest ++ st.events)).idxOf id := by
    rw [hevents, hlog, ← List.append_assoc, ids, List.map_append]
    exact List.idxOf_append_of_mem hw
  have hsteps := steps_mono hstreams st.log
  have hlen := hstreams.length_le
  refine ⟨?_, ?_⟩
  · rw [State.Waits, hevents, hlog, ← List.append_assoc, ids, List.map_append]
    exact List.mem_append_left _ hw
  · unfold State.effort
    rw [hidx, hlog]
    gcongr

/-- A step that the log thread and the thread that it joins have no part in. -/
theorem rank_frame {id : ℕ} {new : List Item} (hw : st.Waits id)
    (hevents : st'.events = st.events ++ new) (hlog : st'.log = st.log)
    (hstreams : st'.streams.entries.Sublist st.streams.entries)
    (hretry : ∀ t, st.log.joins = some t → st'.retry? t = st.retry? t) :
    st'.Waits id ∧ st'.rank id ≤ st.rank id ∧ st'.helpful = st.helpful := by
  obtain ⟨hw', hle⟩ := effort_le hw hevents hlog hstreams
  have hleft : st'.joinLeft = st.joinLeft := by
    unfold State.joinLeft
    rw [hlog]
    cases hj : st.log.joins with
    | none => rfl
    | some t => rw [Option.bind_some, Option.bind_some, hretry t hj]
  refine ⟨hw', ?_, ?_⟩
  · unfold State.rank
    omega
  · unfold State.helpful
    rw [hlog, hleft]

theorem joins_of_helpful (h : st.helpful = .retry t) : st.log.joins = some t := by
  unfold State.helpful at h
  split at h
  · cases h
  · split at h
    · cases h
    · next t' hj =>
      split at h
      · cases h
      · rw [hj, Party.retry.inj h]

theorem wait_of_helpful (h : st.helpful = .notifier) : st.log = .wait := by
  unfold State.helpful at h
  split at h
  · next hwait => exact hwait
  · split at h
    · cases h
    · split at h <;> cases h

/-- A retry thread changes nothing but itself and the history. -/
theorem RetryMove.others (hs : RetryMove st t r st') : st'.events = st.events ∧
    st'.log = st.log ∧ st'.streams = st.streams ∧ ∀ t' ≠ t, st'.retry? t' = st.retry? t' := by
  have hderef : ∀ f : Retry → Retry, (∀ r, (f r).deleted = r.deleted) → ∀ t' ≠ t,
      deref (st.modifyRetry t f).retries t' = deref st.retries t' := by
    intro f hf t' ht'
    rw [deref_modifyRetry st hf, if_neg ht'.symm]
  cases hs with
  | crash => exact ⟨rfl, rfl, rfl, fun _ _ => rfl⟩
  | _ => exact ⟨rfl, rfl, rfl, hderef _ fun _ => rfl⟩

/-- A step of a retry thread. -/
theorem rank_retry {id : ℕ} (hinv : Inv st) (hw : st.Waits id) (hr : deref st.retries t = some r)
    (hs : RetryMove st t r st') : st'.crashed = true ∨
      st'.Waits id ∧ (st'.rank id < st.rank id ∨ st'.rank id = st.rank id ∧
        st'.helpful = st.helpful ∧ st.helpful ≠ .retry t) := by
  obtain ⟨hevents, hlog, hstreams, hothers⟩ := hs.others
  have hevents' : st'.events = st.events ++ [] := by rw [hevents, List.append_nil]
  have hsub : st'.streams.entries.Sublist st.streams.entries := by rw [hstreams]
  by_cases hj : st.log.joins = some t
  · have hq := hinv.queue_of_joins hj hr
    rcases hs.remaining_lt hr (hinv.retry t r hr) with hcrash | ⟨e, hpc, -⟩ | ⟨r', hr', hlt⟩
    · exact Or.inl hcrash
    · have hhead := hinv.retry t r hr
      rw [RetryFacts, hpc] at hhead
      simp [hq] at hhead
    · obtain ⟨hw', hle⟩ := effort_le hw hevents' hlog hsub
      refine Or.inr ⟨hw', Or.inl ?_⟩
      have hleft : st.joinLeft = r.remaining := by
        rw [State.joinLeft, hj, Option.bind_some, State.retry?, hr, Option.elim_some]
      have hleft' : st'.joinLeft = r'.remaining := by
        rw [State.joinLeft, hlog, hj, Option.bind_some, State.retry?, hr', Option.elim_some]
      unfold State.rank
      omega
  · have hne : ∀ t', st.log.joins = some t' → t' ≠ t := by
      rintro t' ht' rfl
      exact hj ht'
    obtain ⟨hw', hle, hhelp⟩ := rank_frame hw hevents' hlog hsub fun t' ht' =>
      hothers t' (hne t' ht')
    refine Or.inr ⟨hw', ?_⟩
    rcases hle.lt_or_eq with hlt | heq
    · exact Or.inl hlt
    · exact Or.inr ⟨heq, hhelp, fun h => hj (joins_of_helpful h)⟩

/-- The action adds a stream. -/
def Action.isAdd : Action → Bool
  | .add .. => true
  | _ => false

/-- No stream is added. -/
def NoAdd (_ : State) (a : Action) : Prop :=
  a.isAdd = false

theorem ranking (formatTime : ℤ → Bytes) (id : ℕ) :
    System.Ranking (system formatTime) NoAdd Action.party (Ready formatTime)
      (fun st => st.log ≠ .returned ∧ st.Waits id)
      (fun st => id ∈ logged st.trace ∨ st.crashed = true) (State.rank id) State.helpful where
  ready st hreach := by
    rintro ⟨hret, hw⟩ hgoal
    have hcrash : st.crashed = false := by
      by_contra hcrash
      exact hgoal (Or.inr (by simpa using hcrash))
    exact ready_helpful (roused_of_reach hreach) hcrash hret hw
  step st a st' hreach := by
    rintro ⟨hret, hw⟩ - hadd hs
    have hinv : Inv st := inv_of_reach hreach
    have hinv' : Inv st' := inv_of_reach (.step hreach trivial hs)
    have hret' : st.Waits id → st'.log ≠ .returned := by
      intro hw hret'
      obtain ⟨hfinal, hev, -⟩ := returns_inv (move hs) hret hret'
      simp [State.Waits, hfinal, hev, LogPc.rest, ids] at hw
    -- a step of others that leaves the log thread alone
    have hframe : ∀ {new : List Item}, st'.events = st.events ++ new → st'.log = st.log →
        st'.streams.entries.Sublist st.streams.entries → st'.retries = st.retries →
        a.party ≠ some st.helpful → (id ∈ logged st'.trace ∨ st'.crashed = true) ∨
          (st'.log ≠ .returned ∧ st'.Waits id) ∧ (st'.rank id < st.rank id ∨
            st'.rank id = st.rank id ∧ st'.helpful = st.helpful ∧ a.party ≠ some st.helpful) := by
      intro new hevents hlog hstreams hretries hparty
      obtain ⟨hw', hle, hhelp⟩ := rank_frame hw hevents hlog hstreams fun t _ => by
        rw [State.retry?, State.retry?, hretries]
      refine Or.inr ⟨⟨hret' hw, hw'⟩, ?_⟩
      rcases hle.lt_or_eq with hlt | heq
      · exact Or.inl hlt
      · exact Or.inr ⟨heq, hhelp, hparty⟩
    cases move hs with
    | enqueue =>
      exact hframe rfl rfl (List.Sublist.refl _) rfl (by simp [Action.party])
    | notify hpc =>
      rcases hpc with ⟨hwait, rfl⟩ | ⟨hne, rfl⟩
      · let woken : State := { st with notifiers := st.notifiers - 1, log := .swap }
        obtain ⟨hw', hlt⟩ : woken.Waits id ∧ woken.effort id < st.effort id :=
          effort_lt_of_steps hw rfl rfl (by rw [hwait]; rfl) (by rw [hwait]; exact Nat.one_lt_two)
        have hzero : woken.joinLeft = 0 := rfl
        have hrank : woken.rank id < st.rank id := by
          unfold State.rank
          omega
        exact Or.inr ⟨⟨by simp, hw'⟩, Or.inl hrank⟩
      · exact hframe (List.append_nil _).symm rfl (List.Sublist.refl _) rfl fun h =>
          hne (wait_of_helpful (Option.some.inj h).symm)
    | terminate =>
      exact hframe (List.append_nil _).symm rfl (List.Sublist.refl _) rfl
        (by simp [Action.party])
    | add => cases hadd
    | deleteCrash => exact Or.inl (Or.inr rfl)
    | delete =>
      exact hframe (List.append_nil _).symm rfl (List.Sublist.refl _) rfl
        (by simp [Action.party])
    | erase =>
      exact hframe (List.append_nil _).symm rfl List.filter_sublist rfl
        (by simp [Action.party])
    | log hmove =>
      rcases hmove.effort_lt rfl hw with hgoal | ⟨hw', hlt⟩
      · exact Or.inl hgoal.symm
      · have hle := hinv'.joinLeft_le
        refine Or.inr ⟨⟨hret' hw, hw'⟩, Or.inl ?_⟩
        unfold State.rank
        omega
    | @retry t ok now r st' hr hmove =>
      rcases rank_retry hinv hw hr hmove with hcrash | ⟨hw', hcase⟩
      · exact Or.inl (Or.inr hcrash)
      · refine Or.inr ⟨⟨hret' hw, hw'⟩, hcase.imp_right ?_⟩
        rintro ⟨heq, hhelp, hne⟩
        exact ⟨heq, hhelp, fun h => hne (Option.some.inj h).symm⟩

/-- In every fair run in which no stream is added, an event that was enqueued before `do_run` has
returned is passed to `log`. -/
theorem logged_of_fair (formatTime : ℤ → Bytes) (r : System.Run (system formatTime) NoAdd)
    (hfair : r.Fair Action.party (Ready formatTime)) {k id : ℕ}
    (hid : id ∈ enqueued (r.state k).trace) (hret : (r.state k).log ≠ .returned) :
    ∃ j ≥ k, id ∈ logged (r.state j).trace ∨ (r.state j).crashed = true := by
  by_cases hlogged : id ∈ logged (r.state k).trace
  · exact ⟨k, le_rfl, Or.inl hlogged⟩
  have hcount : Counted (r.state k) := counted_of_reach (r.reachable k)
  have hw : (r.state k).Waits id := by
    have hmem : id ∈ logged (r.state k).trace ++ ids (r.state k).log.rest ++
        ids (r.state k).events := by rwa [hcount.logged, ← hcount.enqueued]
    rw [List.append_assoc, List.mem_append] at hmem
    rw [State.Waits, ids, List.map_append]
    exact hmem.resolve_left hlogged
  exact hfair.leadsTo (ranking formatTime id) ⟨hret, hw⟩

/-! ## A sink that fails -/

/-- The threads wait or have ended. -/
def State.settled (st : State) : Bool :=
  (st.log == .wait || st.log == .returned) && st.notifiers == 0 &&
    st.retries.all fun r => r.pc == .finished

theorem not_ready_of_settled (h : st.settled = true) (p : Party) : ¬Ready formatTime p st := by
  simp only [State.settled, Bool.and_eq_true, Bool.or_eq_true, beq_iff_eq, List.all_eq_true] at h
  obtain ⟨⟨hlog, hdue⟩, hretries⟩ := h
  cases p with
  | log =>
    rintro ⟨hwait, hsome⟩
    have hret := hlog.resolve_left hwait
    cases hcrash : st.crashed <;> simp [step, logStep, hcrash, hret] at hsome
  | notifier => cases hcrash : st.crashed <;> simp [Ready, step, hcrash, hdue]
  | retry t =>
    intro hsome
    cases hcrash : st.crashed with
    | true => simp [Ready, step, hcrash] at hsome
    | false =>
      cases hr : st.retry? t with
      | none => simp [Ready, step, hcrash, retryStep, hr] at hsome
      | some r =>
        have hpc := hretries r (List.mem_of_getElem? (deref_eq_some_iff.1 hr).1)
        simp [Ready, step, hcrash, retryStep, hr, hpc] at hsome

instance (st : State) (a : Action) : Decidable (NoAdd st a) :=
  inferInstanceAs (Decidable (_ = _))

/-- The sink has failed one event, and a second one is enqueued. -/
def secondEvent : List Action :=
  failedWrite ++ List.replicate 3 (.log true) ++ [.enqueue someEvent]

/-- The second event is logged while the retry thread fails again. It delivers both in the end. -/
def failsAgain : List Action :=
  [List.replicate 3 (.retry 0 true 0), [.retry 0 false 0], List.replicate 8 (.log true),
    [.notify, .notify, .log true], List.replicate 14 (.retry 0 true 0)].flatten

theorem logged_failsAgain : ∃ r : System.Run (system fun _ => []) NoAdd,
    r.Fair Action.party (Ready fun _ => []) ∧ 1 ∉ logged (r.state 0).trace ∧
      ∃ j, 1 ∈ logged (r.state j).trace ∨ (r.state j).crashed = true := by
  obtain ⟨st, hreach, hst⟩ := System.exists_reach (T := system fun _ => [])
    (b := fun _ _ => true) (p := fun _ _ => True) (fun _ _ _ => trivial)
    (State.initial_start (OrdMap.empty.emplace "stdout" 1)) secondEvent
    (fun st => enqueued st.trace == [0, 1] && logged st.trace == [0] && st.log != .returned &&
      ((system fun _ => []).exec (fun st a => decide (NoAdd st a)) st failsAgain).any
        State.settled) (by decide +kernel)
  simp only [Bool.and_eq_true, beq_iff_eq, bne_iff_ne, Option.any_eq_true] at hst
  obtain ⟨⟨⟨henqueued, hlogged⟩, hret⟩, st', hexec, hsettled⟩ := hst
  obtain ⟨r, rfl, hend⟩ := System.exists_run (fun _ _ => of_decide_eq_true) hreach
    hexec
  have hfair : r.Fair Action.party (Ready fun _ => []) := by
    refine System.Run.fair_of_settled (n := failsAgain.length) fun j hj => ?_
    rw [hend j hj]
    exact not_ready_of_settled hsettled
  have hid : 1 ∈ enqueued (r.state 0).trace := by rw [henqueued]; decide
  obtain ⟨j, -, hj⟩ := logged_of_fair _ r hfair hid hret
  exact ⟨r, hfair, by rw [hlogged]; decide, j, hj⟩

end Logfile
