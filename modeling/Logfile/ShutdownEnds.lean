import Logfile.Progress
import Logfile.StoppedRetry

/-!
# `terminate` returns

`terminate` joins the log thread, so it returns when `do_run` does. While a retry thread has events
`do_run` only polls, and the retry threads have to make the progress. If from some time on no event
is enqueued, no write and no construction of a retry thread fails and the registrations stay, every
fair run ends (`returns_of_fair`). It may end in undefined behaviour, when a pass of the scan starts
on a null entry or a stream has been deleted. A retry thread that has stopped and owns an event
would keep `do_run` polling for ever; so such a thread must not be there, nor come into being.

The rank has three parts : what is left to log, what is left to the retry threads, and, when these
have all ended, the way of the log thread to the end of `do_run`.
-/

set_option linter.unusedSectionVars false

namespace Logfile

variable {formatTime : ℤ → Bytes} {st st' : State} {t : ℕ} {r : Retry}

/-- The writes and the constructions of retry threads succeed, nothing is enqueued and the
registrations stay. No retry thread stops while `log` is about to queue an event in it. -/
def Closing (st : State) (a : Action) : Prop :=
  exitsInWindow st a = false ∧
    match a with
    | .log ok | .retry _ ok _ => ok = true
    | .notify => True
    | _ => False

/-! ## What is left -/

/-- What is left of the call of `log`. -/
def LogPc.atNode (m : OrdMap String Stream) : LogPc → ℕ
  | body e rest n s pc => (body e rest n s pc).steps m
  | _ => 0

/-- A bound for the steps of the log thread in `log`. -/
def State.work (st : State) : ℕ :=
  (9 * st.streams.entries.length + 4) * (st.log.rest.length + st.events.length) +
    st.log.atNode st.streams

/-- What is left to each retry thread. -/
def State.remaining (st : State) : List ℕ :=
  st.retries.map Retry.remaining

/-- The way to the end of `do_run`, when no retry thread and no event is left. -/
def LogPc.closing (k : ℕ) : LogPc → ℕ
  | returned => 0
  | final => 1
  | scan todo false => 2 * todo.length + 2
  | scanJoin _ _ todo false => 2 * todo.length + 3
  | check => 2 * k + 3
  | next [] => 2 * k + 4
  | swap => 2 * k + 5
  | wait | pause => 2 * k + 6
  | scan todo true => 2 * todo.length + 2 * k + 7
  | scanJoin _ _ todo true => 2 * todo.length + 2 * k + 8
  | next (_ :: _) | body .. => 0

/-- The way to the next `swap` if there are events, else to the end of `do_run`. -/
def State.way (st : State) : ℕ :=
  if st.events = [] then st.log.closing st.retryMap.entries.length else st.log.steps st.streams

/-- The rank. -/
def State.untilReturn (st : State) : ℕ ×ₗ ℕ ×ₗ ℕ :=
  toLex (st.work, toLex (st.remaining.sum, if st.remaining.sum = 0 then st.way else 0))

/-- The thread that brings the end nearer. -/
def State.closer (st : State) : Party :=
  if st.remaining.sum = 0 then if st.log = .wait then .notifier else .log
  else .retry (st.remaining.findIdx (0 < ·))

theorem lt_of_work (h : st'.work < st.work) : st'.untilReturn < st.untilReturn :=
  Prod.Lex.toLex_lt_toLex.2 (Or.inl h)

theorem lt_of_remaining (hwork : st'.work = st.work)
    (h : st'.remaining.sum < st.remaining.sum) : st'.untilReturn < st.untilReturn :=
  Prod.Lex.toLex_lt_toLex.2 (Or.inr ⟨hwork, Prod.Lex.toLex_lt_toLex.2 (Or.inl h)⟩)

/-- A step of the log thread outside of `log`, or of a notifier. -/
theorem untilReturn_of_way (hwork : st'.work = st.work) (hleft : st'.remaining = st.remaining)
    (h : st.remaining.sum = 0 → st'.way < st.way) :
    st'.untilReturn < st.untilReturn ∨
      st'.untilReturn = st.untilReturn ∧ st'.closer = st.closer ∧ ∃ t, st.closer = .retry t := by
  by_cases hzero : st.remaining.sum = 0
  · refine Or.inl (Prod.Lex.toLex_lt_toLex.2 (Or.inr ⟨hwork, ?_⟩))
    rw [hleft, if_pos hzero, if_pos hzero]
    exact Prod.Lex.toLex_lt_toLex.2 (Or.inr ⟨rfl, h hzero⟩)
  · refine Or.inr ⟨?_, ?_, st.remaining.findIdx (0 < ·), ?_⟩
    · rw [State.untilReturn, State.untilReturn, hwork, hleft, if_neg hzero, if_neg hzero]
    · rw [State.closer, State.closer, hleft, if_neg hzero, if_neg hzero]
    · rw [State.closer, if_neg hzero]

/-! ## The log thread -/

theorem atNode_le (m : OrdMap String Stream) (pc : LogPc) : pc.atNode m ≤ pc.steps m := by
  cases pc with
  | body => exact le_rfl
  | _ => exact Nat.zero_le _

theorem BodyMove.work_lt {e : Item} {rest : List Item} {n : String} {s : Stream} {pc : BodyPc}
    (hlog : st.log = .body e rest n s pc) (hs : BodyMove st e rest n s pc st') :
    st'.crashed = true ∨ st'.work < st.work := by
  rcases hs.steps_lt with hcrash | ⟨hstreams, hevents, hrest, hlt⟩
  · exact Or.inl hcrash
  · have hnode := atNode_le st.streams st'.log
    have hbody : (LogPc.body e rest n s pc).atNode st.streams =
        3 + 9 * nodesBehind st.streams n + pc.steps := rfl
    have hbefore : (LogPc.body e rest n s pc).rest = rest := rfl
    refine Or.inr ?_
    rw [State.work, State.work, hstreams, hevents, hrest, hlog, hbody, hbefore]
    omega

theorem remaining_deleteRetry (st : State) (t : ℕ) :
    (st.deleteRetry t).retries.map Retry.remaining = st.remaining := by
  refine List.ext_getElem? fun i => ?_
  simp only [State.deleteRetry, State.modifyRetry, State.remaining, List.getElem?_map,
    List.getElem?_modify]
  split_ifs
  · cases st.retries[i]? <;> rfl
  · simp

/-- Each step of the log thread brings the end nearer, unless a retry thread has to go on first. -/
theorem LogMove.untilReturn_lt {pc : LogPc} (hlog : st.log = pc)
    (hs : LogMove formatTime st pc st') (hterm : st.doTerminate = true)
    (hidle : st.remaining.sum = 0 → ∀ t r, deref st.retries t = some r → r.queue = []) :
    (st'.log = .returned ∨ st'.crashed = true) ∨ st'.untilReturn < st.untilReturn ∨
      st'.untilReturn = st.untilReturn ∧ st'.closer = st.closer ∧ ∃ t, st.closer = .retry t := by
  -- outside of `log`
  have hstep : ∀ pc' m l, pc'.rest = pc.rest → pc'.atNode st.streams = pc.atNode st.streams →
      l.map Retry.remaining = st.remaining →
      (st.events = [] → pc'.closing m.entries.length < pc.closing st.retryMap.entries.length) →
      (st.events ≠ [] → pc'.steps st.streams < pc.steps st.streams) →
      ({ st with retryMap := m, retries := l }.goto pc').untilReturn < st.untilReturn ∨
        ({ st with retryMap := m, retries := l }.goto pc').untilReturn = st.untilReturn ∧
        ({ st with retryMap := m, retries := l }.goto pc').closer = st.closer ∧
        ∃ t, st.closer = .retry t := by
    intro pc' m l hrest hnode hleft hclosing hsteps
    refine untilReturn_of_way ?_ hleft fun _ => ?_
    · rw [State.work, State.work, hlog, ← hrest, ← hnode]
      rfl
    · unfold State.way
      by_cases hev : st.events = []
      · rw [if_pos hev, hlog, State.goto, if_pos hev]
        exact hclosing hev
      · rw [if_neg hev, hlog, State.goto, if_neg hev]
        exact hsteps hev
  cases hs with
  | crash => exact Or.inl (Or.inr rfl)
  | finish => exact Or.inl (Or.inl rfl)
  | body _ hmove =>
    rcases hmove.work_lt hlog with hcrash | hlt
    · exact Or.inl (Or.inr hcrash)
    · exact Or.inr (Or.inl (lt_of_work hlt))
  | @take e rest =>
    have hle := steps_first (st.observe [.logged e.id])
      { e with event.timeString := formatTime e.event.time } rest
    have hnode := atNode_le (st.observe [.logged e.id]).streams
      ((st.observe [.logged e.id]).visit { e with event.timeString := formatTime e.event.time }
        rest st.streams.first).log
    have hbefore : st.work = (9 * st.streams.entries.length + 4) *
        (rest.length + st.events.length) + (9 * st.streams.entries.length + 4) := by
      rw [State.work, hlog, ← Nat.mul_succ]
      simp only [LogPc.rest, LogPc.atNode, List.length_cons, Nat.add_zero]
      rw [Nat.succ_eq_add_one, Nat.add_right_comm]
    refine Or.inr (Or.inl (lt_of_work ?_))
    rw [hbefore, State.work, visit_streams, rest_visit, visit_events]
    dsimp only [State.observe] at hle hnode ⊢
    omega
  | swap =>
    refine Or.inr (untilReturn_of_way ?_ rfl fun _ => ?_)
    · simp [State.work, State.goto, hlog, LogPc.rest, LogPc.atNode]
    · cases hev : st.events with
      | nil => simp [State.way, State.goto, hlog, hev, LogPc.closing]
      | cons e rest => simp [State.way, State.goto, hlog, hev, LogPc.closing, LogPc.steps]
  | sleep hfalse => simp [hterm] at hfalse
  | @scanBusy s todo b t r hf hr hq =>
    -- the thread has something to do, so the log thread polls
    refine Or.inr (untilReturn_of_way ?_ rfl fun hzero => absurd (hidle hzero t r hr) hq)
    rw [State.work, State.work, hlog]
    rfl
  | scan _ hev =>
    refine Or.inr (hstep _ _ _ rfl rfl rfl ?_ fun hne => absurd hev hne)
    simp [LogPc.closing, OrdMap.keys]
  | more hne =>
    exact Or.inr (hstep _ _ _ rfl rfl rfl (fun hev => absurd hev hne) fun _ => Nat.one_lt_two)
  | again hne =>
    exact Or.inr (hstep _ _ _ rfl rfl rfl (fun hev => absurd hev hne) fun _ => Nat.one_lt_two)
  | @scanned b =>
    refine Or.inr (hstep _ _ _ ?_ ?_ rfl (fun _ => ?_) fun _ => ?_) <;> cases b <;>
      simp [LogPc.rest, LogPc.atNode, LogPc.closing, LogPc.steps]
  | @scanIdle s todo b =>
    refine Or.inr (hstep _ _ _ rfl rfl rfl (fun _ => ?_) fun _ => ?_)
    · cases b <;> simp only [LogPc.closing, List.length_cons] <;> omega
    · simp only [LogPc.steps, List.length_cons]
      omega
  | @scanJoin s t todo b =>
    refine Or.inr (hstep _ _ _ rfl rfl (remaining_deleteRetry st t) (fun _ => ?_) fun _ => ?_)
    · cases b <;> simp [LogPc.closing, OrdMap.assign]
    · simp [LogPc.steps]
  | _ =>
    refine Or.inr (hstep _ _ _ ?_ ?_ ?_ (fun _ => ?_) fun _ => ?_)
    · rfl
    · rfl
    · rfl
    · simp [LogPc.closing]
    · simp [LogPc.steps]

/-! ## The retry threads -/

theorem RetryMove.retries_eq (hs : RetryMove st t r st') : st'.crashed = true ∨
    ∃ f : Retry → Retry, st'.retries = st.retries.modify t f := by
  cases hs with
  | crash => exact Or.inl rfl
  | _ => exact Or.inr ⟨_, rfl⟩

theorem sum_map_modify (g : Retry → ℕ) {l : List Retry} {f : Retry → Retry}
    (h : l[t]? = some r) (hlt : g (f r) < g r) : ((l.modify t f).map g).sum < (l.map g).sum := by
  obtain ⟨ht, rfl⟩ := List.getElem?_eq_some_iff.1 h
  have hcut : l = l.take t ++ l[t] :: l.drop (t + 1) := by
    rw [List.cons_getElem_drop_succ, List.take_append_drop]
  rw [List.modify_eq_take_cons_drop ht]
  conv_rhs => rw [hcut]
  simp only [List.map_append, List.map_cons, List.sum_append, List.sum_cons]
  omega

/-- Each step of a retry thread whose writes succeed brings its end nearer. -/
theorem remaining_lt_of_write {now : ℤ} (hinv : Inv st)
    (h : retryStep st t true now = some st') : st'.crashed = true ∨
      st'.work = st.work ∧ st'.remaining.sum < st.remaining.sum := by
  obtain ⟨r, hr, hmove⟩ := retryMove h
  obtain ⟨hevents, hlog, hstreams, -⟩ := hmove.others
  rcases hmove.remaining_lt hr (hinv.retry t r hr) with hcrash | ⟨e, hpc, rfl⟩ | ⟨r', hr', hlt⟩
  · exact Or.inl hcrash
  · -- the write does not fail
    have hretry : st.retry? t = some r := hr
    simp only [retryStep, hretry, hpc] at h
    split at h
    · exact Or.inl (by rw [← Option.some.inj h]; rfl)
    · have htrace := congrArg State.trace (Option.some.inj h)
      simp [State.modifyRetry, State.observe] at htrace
  · rcases hmove.retries_eq with hcrash | ⟨f, hretries⟩
    · exact Or.inl hcrash
    · have hget := (deref_eq_some_iff.1 hr).1
      have hget' := (deref_eq_some_iff.1 hr').1
      obtain rfl : f r = r' := by simpa [hretries, hget] using hget'
      refine Or.inr ⟨?_, ?_⟩
      · rw [State.work, State.work, hevents, hlog, hstreams]
      · rw [State.remaining, hretries]
        exact sum_map_modify _ hget hlt

theorem finished_of_sum (hzero : st.remaining.sum = 0) (hr : deref st.retries t = some r) :
    r.pc = .finished := by
  have hmem := List.mem_of_getElem? (deref_eq_some_iff.1 hr).1
  exact remaining_eq_zero.1 (List.sum_eq_zero_iff.1 hzero _ (List.mem_map_of_mem hmem))

theorem ready_closer (hinv : Inv st) (hroused : Roused st) (hcrash : st.crashed = false)
    (hret : st.log ≠ .returned) (hterm : st.doTerminate = true) :
    Ready formatTime st.closer st := by
  unfold State.closer
  split
  · next hzero =>
    split
    · next hwait =>
      have hdue : 0 < st.notifiers := by
        refine (hroused hwait).resolve_left fun hnothing => ?_
        have hfalse := hnothing.2
        rw [hterm] at hfalse
        cases hfalse
      simp [Ready, step, hcrash, hdue.ne']
    · next hwait =>
      refine ⟨hwait, ?_⟩
      rw [step, hcrash]
      exact logStep_isSome rfl hret fun t r _ hr => finished_of_sum hzero hr
  · next hzero =>
    obtain ⟨x, hx, hpos⟩ : ∃ x ∈ st.remaining, 0 < x := by
      by_contra hnone
      push Not at hnone
      exact hzero (List.sum_eq_zero fun x hx => Nat.le_zero.1 (hnone x hx))
    have hex : ∃ x ∈ st.remaining, decide (0 < x) = true := ⟨x, hx, decide_eq_true hpos⟩
    have hfirst := @List.findIdx_getElem _ (fun x : ℕ => decide (0 < x)) st.remaining
      (List.findIdx_lt_length_of_exists hex)
    obtain ⟨y, hget, hleft⟩ : ∃ y, st.remaining[st.remaining.findIdx (0 < ·)]? = some y ∧ 0 < y :=
      ⟨_, List.findIdx_getElem?_eq_getElem_of_exists hex, of_decide_eq_true hfirst⟩
    generalize st.remaining.findIdx (0 < ·) = t at hget
    rw [State.remaining, List.getElem?_map, Option.map_eq_some_iff] at hget
    obtain ⟨r, hr, rfl⟩ := hget
    have hpc : r.pc ≠ .finished := fun hpc => hleft.ne' (remaining_eq_zero.2 hpc)
    have hlive : r.deleted = false := by
      by_contra hdel
      exact hpc (hinv.deleted t r hr (by simpa using hdel)).2
    rw [Ready, step, hcrash]
    exact retryStep_isSome (deref_eq_some_iff.2 ⟨hr, hlive⟩) hpc

/-! ## The end -/

theorem visit_doTerminate (e : Item) (rest : List Item) (o : Option (String × Stream)) :
    (st.visit e rest o).doTerminate = st.doTerminate := by
  cases o <;> rfl

theorem LogMove.doTerminate {pc : LogPc} (hs : LogMove formatTime st pc st') :
    st'.doTerminate = st.doTerminate := by
  cases hs with
  | take => exact visit_doTerminate ..
  | body _ hmove =>
    cases hmove with
    | enqueue | accept | drop | emplace => exact visit_doTerminate ..
    | _ => rfl
  | _ => rfl

theorem closingRanking (formatTime : ℤ → Bytes) :
    System.Ranking (system formatTime) Closing Action.party (Ready formatTime)
      (fun st => st.doTerminate = true ∧ Served st)
      (fun st => st.log = .returned ∨ st.crashed = true) State.untilReturn State.closer where
  ready st hreach := by
    rintro ⟨hterm, -⟩ hgoal
    rw [not_or] at hgoal
    exact ready_closer (inv_of_reach hreach) (roused_of_reach hreach) (by simpa using hgoal.2)
      hgoal.1 hterm
  step st a st' hreach := by
    rintro ⟨hterm, hserved⟩ - ⟨hexit, hclosing⟩ hs
    have hinv : Inv st := inv_of_reach hreach
    have hserved' : Served st' := hserved.move hexit (move hs)
    have hcrash : st.crashed = false := by
      by_contra hcrash
      simp [system, step, hcrash] at hs
    have hs' := hs
    simp only [system, step, hcrash, Bool.false_eq_true, if_false] at hs'
    cases a with
    | log ok =>
      have hmove := logMove rfl hs'
      rcases hmove.untilReturn_lt rfl hterm fun hzero t r hr =>
        hserved.empty t r hr (by rw [finished_of_sum hzero hr]; rfl) with hgoal | hcase
      · exact Or.inl hgoal
      · refine Or.inr ⟨⟨hmove.doTerminate.trans hterm, hserved'⟩, hcase.imp_right ?_⟩
        rintro ⟨heq, hcloser, t, ht⟩
        exact ⟨heq, hcloser, by simp [ht, Action.party]⟩
    | retry t ok now =>
      obtain rfl : ok = true := hclosing
      rcases remaining_lt_of_write hinv hs' with hcrash' | ⟨hwork, hlt⟩
      · exact Or.inl (Or.inr hcrash')
      · refine Or.inr ⟨⟨?_, hserved'⟩, Or.inl (lt_of_remaining hwork hlt)⟩
        obtain ⟨r, -, hmove⟩ := retryMove hs'
        cases hmove <;> exact hterm
    | notify =>
      have hmove : Move formatTime st .notify st' := move hs
      cases hmove with
      | @notify pc hpc =>
        rcases hpc with ⟨hwait, rfl⟩ | ⟨hne, rfl⟩
        · let woken : State := { st with notifiers := st.notifiers - 1, log := .swap }
          have hwork : woken.work = st.work := by
            simp [woken, State.work, hwait, LogPc.rest, LogPc.atNode]
          have hway : woken.way < st.way := by
            unfold State.way
            rw [hwait]
            dsimp only [woken]
            split <;> simp [LogPc.closing, LogPc.steps]
          refine Or.inr ⟨⟨hterm, hserved'⟩,
            (untilReturn_of_way hwork rfl fun _ => hway).imp_right ?_⟩
          rintro ⟨heq, hcloser, t, ht⟩
          exact ⟨heq, hcloser, by simp [ht, Action.party]⟩
        · refine Or.inr ⟨⟨hterm, hserved'⟩, Or.inr ⟨rfl, rfl, ?_⟩⟩
          unfold State.closer
          split_ifs <;> simp [Action.party]
    | _ => exact hclosing.elim

/-- Termination has been requested, and no stopped retry thread owns an event or is about to get
one. From there on, a fair run in which no event is enqueued, no write fails and no stream is added
or removed gets to the return of `do_run`, or to undefined behaviour. -/
theorem returns_of_fair (formatTime : ℤ → Bytes) (r : System.Run (system formatTime) Closing)
    (hfair : r.Fair Action.party (Ready formatTime)) (hterm : (r.state 0).doTerminate = true)
    (hserved : Served (r.state 0)) :
    ∃ j, (r.state j).log = .returned ∨ (r.state j).crashed = true := by
  obtain ⟨j, -, hj⟩ := hfair.leadsTo (closingRanking formatTime) ⟨hterm, hserved⟩
  exact ⟨j, hj⟩

instance (st : State) : ∀ a, Decidable (Closing st a)
  | .log ok => inferInstanceAs (Decidable (exitsInWindow st (.log ok) = false ∧ ok = true))
  | .retry t ok now =>
    inferInstanceAs (Decidable (exitsInWindow st (.retry t ok now) = false ∧ ok = true))
  | .notify => inferInstanceAs (Decidable (exitsInWindow st .notify = false ∧ True))
  | .enqueue _ | .terminate | .add .. | .delete _ | .erase _ => .isFalse fun h => h.2

/-- The sink has failed an event, and termination is requested. -/
def terminatedEarly : List Action :=
  failedWrite ++ List.replicate 3 (.log true) ++ [.terminate]

/-- The log thread polls once, then the retry thread delivers. -/
def polledOnce : List Action :=
  [[.notify, .notify], List.replicate 5 (.log true), List.replicate 9 (.retry 0 true 0),
    List.replicate 7 (.log true)].flatten

theorem returns_polledOnce : ∃ r : System.Run (system fun _ => []) Closing,
    r.Fair Action.party (Ready fun _ => []) ∧ (∃ t ∈ (r.state 0).retries, t.active = true) ∧
      ∃ j, (r.state j).log = .returned ∨ (r.state j).crashed = true := by
  obtain ⟨st, hreach, hst⟩ := System.exists_reach (T := system fun _ => [])
    (b := fun st a => !exitsInWindow st a) (p := fun st a => exitsInWindow st a = false)
    (fun _ _ h => by simpa using h)
    (State.initial_start (OrdMap.empty.emplace "stdout" 1)) terminatedEarly
    (fun st => st.doTerminate && st.retries.any Retry.active &&
      ((system fun _ => []).exec (fun st a => decide (Closing st a)) st polledOnce).any
        State.settled) (by decide +kernel)
  simp only [Bool.and_eq_true, List.any_eq_true, Option.any_eq_true] at hst
  obtain ⟨⟨hterm, hactive⟩, st', hexec, hsettled⟩ := hst
  obtain ⟨r, rfl, hend⟩ := System.exists_run (fun _ _ => of_decide_eq_true)
    (hreach.mono fun _ _ _ => trivial) hexec
  have hfair : r.Fair Action.party (Ready fun _ => []) := by
    refine System.Run.fair_of_settled (n := polledOnce.length) fun j hj => ?_
    rw [hend j hj]
    exact not_ready_of_settled hsettled
  exact ⟨r, hfair, hactive, returns_of_fair _ r hfair hterm (servedStopped_of_reach hreach)⟩

end Logfile
