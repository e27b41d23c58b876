import Logfile.LogThread

/-!
# What a step can do

The branches of the step functions as rules, one inductive relation for each function
(`BodyMove`, `LogMove`, `RetryMove`, `Move`). A proof about a step goes through the rules and
never unfolds the step functions. A rule keeps what later proofs use of the guard; it may
leave the rest of it out.
-/

namespace Logfile

/-! ## The log thread -/

/-- The rules of `bodyStep`. -/
inductive BodyMove (st : State) (e : Item) (rest : List Item) (n : String) (s : Stream) :
    BodyPc → State → Prop
  | crash {pc} : BodyMove st e rest n s pc st.crash
  | absent : st.retryMap.find s = none →
      BodyMove st e rest n s .find (st.goto (.body e rest n s .write))
  | null : st.retryMap.find s = some none →
      BodyMove st e rest n s .find
        ({ st with retryMap := st.retryMap.erase s }.goto (.body e rest n s .write))
  | entry {t} : st.retryMap.find s = some (some t) →
      BodyMove st e rest n s .find (st.goto (.body e rest n s (.active t)))
  | busy {t r} : deref st.retries t = some r → r.queue ≠ [] →
      BodyMove st e rest n s (.active t) (st.goto (.body e rest n s (.enqueue t)))
  | idle {t r} : deref st.retries t = some r → r.queue = [] →
      BodyMove st e rest n s (.active t) (st.goto (.body e rest n s (.join t)))
  | enqueue {t r} : deref st.retries t = some r →
      BodyMove st e rest n s (.enqueue t) ((st.enqueueRetry t e).advance e rest n)
  | join {t r} : deref st.retries t = some r → r.pc = .finished →
      BodyMove st e rest n s (.join t)
        ({ st.deleteRetry t with retryMap := st.retryMap.erase s }.goto (.body e rest n s .write))
  | accept : BodyMove st e rest n s .write ((st.observe [.accepted s e.id]).advance e rest n)
  | fail : BodyMove st e rest n s .write (st.goto (.body e rest n s .construct))
  | construct : BodyMove st e rest n s .construct
      ({ st with retries := st.retries ++ [Retry.new s] }.goto
        (.body e rest n s (.announce st.retries.length)))
  | drop : BodyMove st e rest n s .construct
      ((st.observe [.dropped s e.id]).advance e rest n)
  | announce {t} : BodyMove st e rest n s (.announce t) (st.goto (.body e rest n s (.first t)))
  | first {t r} : deref st.retries t = some r →
      BodyMove st e rest n s (.first t)
        ((st.enqueueRetry t e).goto (.body e rest n s (.emplace t)))
  | emplace {t} : BodyMove st e rest n s (.emplace t)
      ({ st with retryMap := st.retryMap.emplace s (some t) }.advance e rest n)

theorem bodyMove {st st' : State} {ok : Bool} {e : Item} {rest : List Item} {n : String}
    {s : Stream} {pc : BodyPc} (h : bodyStep st ok e rest n s pc = some st') :
    BodyMove st e rest n s pc st' := by
  cases pc with
  | find =>
    simp only [bodyStep] at h
    split at h <;> obtain rfl := Option.some.inj h
    · next hf => exact .absent hf
    · next hf => exact .null hf
    · next t hf => exact .entry hf
  | active t =>
    simp only [bodyStep] at h
    split at h <;> obtain rfl := Option.some.inj h
    · exact .crash
    · next r hr =>
      by_cases hq : r.queue = []
      · simpa [Retry.active, hq] using BodyMove.idle hr hq
      · simpa [Retry.active, hq] using BodyMove.busy hr hq
  | enqueue t =>
    simp only [bodyStep] at h
    split at h <;> obtain rfl := Option.some.inj h
    · exact .crash
    · next r hr => exact .enqueue hr
  | join t =>
    simp only [bodyStep] at h
    split at h
    · obtain rfl := Option.some.inj h
      exact .crash
    · next r hr =>
      split at h
      · next hpc =>
        obtain rfl := Option.some.inj h
        exact .join hr hpc
      · cases h
  | write =>
    simp only [bodyStep] at h
    split at h
    · obtain rfl := Option.some.inj h
      exact .crash
    · split at h <;> obtain rfl := Option.some.inj h
      · exact .accept
      · exact .fail
  | construct =>
    simp only [bodyStep] at h
    split at h <;> obtain rfl := Option.some.inj h
    · exact .construct
    · exact .drop
  | announce t =>
    simp only [bodyStep] at h
    split at h <;> obtain rfl := Option.some.inj h
    · exact .crash
    · exact .announce
  | first t =>
    simp only [bodyStep] at h
    split at h <;> obtain rfl := Option.some.inj h
    · exact .crash
    · next r hr => exact .first hr
  | emplace t =>
    obtain rfl := Option.some.inj h
    exact .emplace

/-- The rules of `logStep`. -/
inductive LogMove (formatTime : ℤ → Bytes) (st : State) : LogPc → State → Prop
  | crash {pc} : LogMove formatTime st pc st.crash
  | swap : LogMove formatTime st .swap ({ st with events := [] }.goto (.next st.events))
  | done : LogMove formatTime st (.next []) (st.goto .check)
  | take {e rest} : LogMove formatTime st (.next (e :: rest))
      ((st.observe [.logged e.id]).visit
        { e with event.timeString := formatTime e.event.time } rest st.streams.first)
  | body {e rest n s pc st'} : st.dangling = false → BodyMove st e rest n s pc st' →
      LogMove formatTime st (.body e rest n s pc) st'
  | scan : st.doTerminate = true → st.events = [] →
      LogMove formatTime st .check (st.goto (.scan st.retryMap.keys false))
  | sleep : st.doTerminate = false → st.events = [] →
      LogMove formatTime st .check (st.goto .wait)
  | more : st.events ≠ [] → LogMove formatTime st .check (st.goto .swap)
  | wake : LogMove formatTime st .wait (st.goto .swap)
  | scanned {b} : LogMove formatTime st (.scan [] b) (st.goto (if b then .pause else .final))
  | scanBusy {s todo b t r} : st.retryMap.find s = some (some t) →
      deref st.retries t = some r → r.queue ≠ [] →
      LogMove formatTime st (.scan (s :: todo) b) (st.goto (.scan todo true))
  | scanIdle {s todo b t r} : st.retryMap.find s = some (some t) →
      deref st.retries t = some r → r.queue = [] →
      LogMove formatTime st (.scan (s :: todo) b) (st.goto (.scanJoin s t todo b))
  | scanJoin {s t todo b r} : deref st.retries t = some r → r.pc = .finished →
      LogMove formatTime st (.scanJoin s t todo b)
        ({ st.deleteRetry t with retryMap := st.retryMap.assign s none }.goto (.scan todo b))
  | pause : LogMove formatTime st .pause (st.goto .swap)
  | finish : st.events = [] → LogMove formatTime st .final (st.goto .returned)
  | again : st.events ≠ [] → LogMove formatTime st .final (st.goto .swap)

theorem logMove {formatTime : ℤ → Bytes} {st st' : State} {ok : Bool} {pc : LogPc}
    (hlog : st.log = pc) (h : logStep formatTime st ok = some st') :
    LogMove formatTime st pc st' := by
  unfold logStep at h
  rw [hlog] at h
  cases pc with
  | swap =>
    obtain rfl := Option.some.inj h
    exact .swap
  | next rest =>
    cases rest <;> obtain rfl := Option.some.inj h
    · exact .done
    · exact .take
  | body e rest n s pc =>
    simp only at h
    split at h
    · obtain rfl := Option.some.inj h
      exact .crash
    · next hd => exact .body (Bool.eq_false_iff.2 hd) (bodyMove h)
  | check =>
    by_cases he : st.events = []
    · cases ht : st.doTerminate <;> obtain rfl : _ = st' := by simpa [he, ht] using h
      · exact .sleep ht he
      · exact .scan ht he
    · obtain rfl : _ = st' := by simpa [he] using h
      exact .more he
  | wait =>
    obtain rfl := Option.some.inj h
    exact .wake
  | scan todo b =>
    cases todo with
    | nil =>
      obtain rfl := Option.some.inj h
      exact .scanned
    | cons s todo =>
      simp only at h
      split at h
      · next t hf =>
        split at h <;> obtain rfl := Option.some.inj h
        · exact .crash
        · next r hr =>
          by_cases hq : r.queue = []
          · simpa [Retry.active, hq] using LogMove.scanIdle hf hr hq
          · simpa [Retry.active, hq] using LogMove.scanBusy hf hr hq
      · obtain rfl := Option.some.inj h
        exact .crash
  | scanJoin s t todo b =>
    simp only at h
    split at h
    · obtain rfl := Option.some.inj h
      exact .crash
    · next r hr =>
      split at h
      · next hpc =>
        obtain rfl := Option.some.inj h
        exact .scanJoin hr hpc
      · cases h
  | pause =>
    obtain rfl := Option.some.inj h
    exact .pause
  | final =>
    by_cases he : st.events = [] <;> obtain rfl : _ = st' := by simpa [he] using h
    · exact .finish he
    · exact .again he
  | returned => cases h

/-! ## A retry thread -/

/-- Changes of a retry thread that neither queue nor remove an event. -/
inductive RetryPc.Quiet (r : Retry) : RetryPc → RetryPc → Prop
  | retryTime : Quiet r .retryTime .sleep
  | sleep : Quiet r .sleep .front
  | empty : r.queue = [] → Quiet r .front .expire
  | front {e} : r.queue.head? = some e → Quiet r .front (.write e)
  | fail {e} : Quiet r (.write e) .expire
  | report : Quiet r .report .test
  | again : r.queue ≠ [] → Quiet r .test .retryTime
  | leave : r.queue = [] → Quiet r .test .stopping
  | stopping : Quiet r .stopping .finished

/-- The rules of `retryStep` for the thread `r` behind the pointer `t`. -/
inductive RetryMove (st : State) (t : ℕ) (r : Retry) : State → Prop
  | crash : RetryMove st t r st.crash
  | quiet {pc pc'} : r.pc = pc → pc.Quiet r pc' →
      RetryMove st t r (st.modifyRetry t fun r => { r with pc := pc' })
  | accept {e} : r.pc = .write e →
      RetryMove st t r
        ((st.observe [.accepted r.stream e.id]).modifyRetry t fun r => { r with pc := .pop })
  | pop : r.pc = .pop →
      RetryMove st t r
        (st.modifyRetry t fun r => { r with queue := r.queue.tail, pc := .front })
  | expire {now pc} : r.pc = .expire → (pc = .test ∨ pc = .report) →
      RetryMove st t r
        ((st.observe ((r.queue.filter fun e => e.event.expired now).map fun e =>
          .expired r.stream e.id)).modifyRetry t fun r =>
            { r with queue := r.queue.filter fun e => !e.event.expired now, pc := pc })

theorem State.modifyRetry_congr {st : State} {t : ℕ} {r : Retry} {f g : Retry → Retry}
    (hr : deref st.retries t = some r) (h : f r = g r) :
    st.modifyRetry t f = st.modifyRetry t g := by
  have hget : st.retries[t]? = some r := by
    simp only [deref, Option.filter_eq_some_iff] at hr
    exact hr.1
  have hmod : st.retries.modify t f = st.retries.modify t g := by
    refine List.ext_getElem? fun i => ?_
    simp only [List.getElem?_modify]
    split_ifs with hi
    · subst hi
      simp [hget, h]
    · rfl
  simp only [State.modifyRetry, hmod]

theorem retryMove {st st' : State} {t : ℕ} {ok : Bool} {now : ℤ}
    (h : retryStep st t ok now = some st') :
    ∃ r, deref st.retries t = some r ∧ RetryMove st t r st' := by
  unfold retryStep at h
  split at h
  · cases h
  · next r hr =>
    refine ⟨r, hr, ?_⟩
    cases hpc : r.pc with
    | retryTime =>
      simp only [hpc] at h
      split at h <;> obtain rfl := Option.some.inj h
      · exact .crash
      · exact .quiet hpc .retryTime
    | sleep =>
      simp only [hpc] at h
      obtain rfl := Option.some.inj h
      exact .quiet hpc .sleep
    | front =>
      simp only [hpc] at h
      split at h <;> obtain rfl := Option.some.inj h
      · next hq => exact .quiet hpc (.empty hq)
      · next e rest hq => exact .quiet hpc (.front (by simp [hq]))
    | write e =>
      simp only [hpc] at h
      split at h
      · obtain rfl := Option.some.inj h
        exact .crash
      · split at h <;> obtain rfl := Option.some.inj h
        · exact .accept hpc
        · exact .quiet hpc .fail
    | pop =>
      simp only [hpc] at h
      obtain rfl := Option.some.inj h
      exact .pop hpc
    | expire =>
      simp only [hpc] at h
      obtain rfl := Option.some.inj h
      refine .expire hpc ?_
      split_ifs
      · exact Or.inl rfl
      · exact Or.inr rfl
    | report =>
      simp only [hpc] at h
      split at h <;> obtain rfl := Option.some.inj h
      · exact .crash
      · exact .quiet hpc .report
    | test =>
      simp only [hpc] at h
      obtain rfl := Option.some.inj h
      by_cases hq : r.queue = []
      · rw [State.modifyRetry_congr (g := fun r => { r with pc := .stopping }) hr
          (by simp [Retry.active, hq])]
        exact .quiet hpc (.leave hq)
      · rw [State.modifyRetry_congr (g := fun r => { r with pc := .retryTime }) hr
          (by simp [Retry.active, hq])]
        exact .quiet hpc (.again hq)
    | stopping =>
      simp only [hpc] at h
      split at h <;> obtain rfl := Option.some.inj h
      · exact .crash
      · exact .quiet hpc .stopping
    | finished =>
      simp only [hpc] at h
      cases h

/-! ## The process -/

/-- The rules of `step`. -/
inductive Move (formatTime : ℤ → Bytes) (st : State) : Action → State → Prop
  | enqueue {ev} : Move formatTime st (.enqueue ev)
      { st.observe [.enqueued st.count] with
        events := st.events ++ [⟨st.count, ev⟩]
        notifiers := st.notifiers + 1
        count := st.count + 1 }
  | notify {pc} : (st.log = .wait ∧ pc = .swap ∨ st.log ≠ .wait ∧ pc = st.log) →
      Move formatTime st .notify { st with notifiers := st.notifiers - 1, log := pc }
  | terminate : Move formatTime st .terminate
      { st with doTerminate := true, notifiers := st.notifiers + 1 }
  | add {n s live} : Move formatTime st (.add n s)
      { st with streams := st.streams.emplace n s, live := live }
  | deleteCrash {n} : Move formatTime st (.delete n) st.crash
  | delete {n live} : Move formatTime st (.delete n)
      { st with live := live, erasing := n :: st.erasing }
  | erase {n dangling} : Move formatTime st (.erase n)
      { st with
        streams := st.streams.erase n
        erasing := st.erasing.erase n
        dangling := dangling }
  | log {ok st'} : LogMove formatTime st st.log st' → Move formatTime st (.log ok) st'
  | retry {t ok now r st'} : deref st.retries t = some r → RetryMove st t r st' →
      Move formatTime st (.retry t ok now) st'

theorem move {formatTime : ℤ → Bytes} {st st' : State} {a : Action}
    (h : step formatTime st a = some st') : Move formatTime st a st' := by
  unfold step at h
  split at h
  · cases h
  · cases a with
    | enqueue ev =>
      obtain rfl := Option.some.inj h
      exact .enqueue
    | notify =>
      simp only at h
      split at h
      · cases h
      · obtain rfl := Option.some.inj h
        refine .notify ?_
        split_ifs with hw
        · exact Or.inl ⟨hw, rfl⟩
        · exact Or.inr ⟨hw, rfl⟩
    | terminate =>
      obtain rfl := Option.some.inj h
      exact .terminate
    | add n s =>
      obtain rfl := Option.some.inj h
      exact .add
    | delete n =>
      simp only at h
      split at h
      · cases h
      · split at h <;> obtain rfl := Option.some.inj h
        · exact .deleteCrash
        · exact .delete
    | erase n =>
      simp only at h
      split at h
      · cases h
      · obtain rfl := Option.some.inj h
        exact .erase
    | log ok => exact .log (logMove rfl h)
    | retry t ok now =>
      obtain ⟨r, hr, hmove⟩ := retryMove h
      exact .retry hr hmove

end Logfile
