import Logfile.Composition
import Logfile.Delivery
import Logfile.Subsystems

/-!
# The log thread with a sink

One stream of the process is a sink with a state of its own. When the log thread or a retry
thread calls `output_stream::write` on it, the event goes to `do_write` unless it is below the
minimum level of the stream, and the result of the write is no choice of the environment any
more but what `do_write` returns. Everything else in the process is as before, the other streams
included.

The state keeps the events in the order of `enqueue` and the calls of `write` (`offers`). The
process in it makes a run of its own (`process_of_reach`), the events it has accepted for the
stream are those of the offers (`accepted_offers`), and what is offered is an event that was
enqueued, with the text of its time (`offered`).
-/

set_option linter.unusedSectionVars false

namespace Logfile

/-- `do_write` of a sink with the state `κ`. What its environment decides comes as an `ε`. -/
structure Sink (κ ε : Type*) where
  doWrite : κ → LogEvent → ε → Bool × κ

/-! ## Writes of the process -/

/-- The write on the stream `s` that an action is, with the event written. -/
def State.writeOn (st : State) (s : Stream) : Action → Option Item
  | .log _ =>
    match st.log with
    | .body e _ _ s' .write => if s' = s ∧ s ∈ st.live ∧ st.dangling = false then some e else none
    | _ => none
  | .retry t _ _ =>
    (st.retry? t).bind fun r =>
      match r.pc with
      | .write e => if r.stream = s ∧ s ∈ st.live then some e else none
      | _ => none
  | _ => none

/-- The result of a write, if the action is one. -/
def Action.result : Action → Bool
  | .log ok => ok
  | .retry _ ok _ => ok
  | _ => false

/-- The action with another result of its write. -/
def Action.withResult (ok : Bool) : Action → Action
  | .log _ => .log ok
  | .retry t _ now => .retry t ok now
  | a => a

/-- The event that an action enqueues. -/
def Action.enqueues : Action → List LogEvent
  | .enqueue ev => [ev]
  | _ => []

section Writes

variable {formatTime : ℤ → Bytes} {st st' : State} {s : Stream} {a : Action} {e : Item}

@[simp] theorem writeOn_withResult (ok : Bool) :
    st.writeOn s (a.withResult ok) = st.writeOn s a := by
  cases a <;> rfl

theorem result_withResult (h : st.writeOn s a = some e) (ok : Bool) :
    (a.withResult ok).result = ok := by
  cases a with
  | log => rfl
  | retry => rfl
  | _ => cases h

theorem enqueues_withResult (ok : Bool) : (a.withResult ok).enqueues = a.enqueues := by
  cases a <;> rfl

theorem enqueues_of_writeOn (h : st.writeOn s a = some e) : a.enqueues = [] := by
  cases a with
  | enqueue => cases h
  | _ => rfl

/-- What a step adds to the events that the stream has accepted. -/
def State.acceptedBy (st : State) (s : Stream) (a : Action) : List ℕ :=
  ((st.writeOn s a).filter fun _ => a.result).toList.map Item.id

theorem acceptedBy_of_writeOn_eq_none (h : st.writeOn s a = none) : st.acceptedBy s a = [] := by
  simp [State.acceptedBy, h]

theorem acceptedBy_of_result_eq_false (h : a.result = false) : st.acceptedBy s a = [] := by
  simp [State.acceptedBy, h]

/-- A successful write on the stream `s'`. -/
theorem acceptedBy_eq {s' : Stream} (h : st.writeOn s a = if s' = s then some e else none)
    (hok : a.result = true) : st.acceptedBy s a = accepted s [.accepted s' e.id] := by
  by_cases hs : s' = s <;> simp [State.acceptedBy, h, hok, hs, accepted]

theorem accepted_bodyMove {rest : List Item} {n : String} {s' : Stream} {pc : BodyPc}
    (hpc : pc ≠ .write) (hs : BodyMove st e rest n s' pc st') :
    accepted s st'.trace = accepted s st.trace := by
  cases hs with
  | drop => simp [State.observe, accepted]
  | accept => exact absurd rfl hpc
  | _ => simp [State.crash, State.goto, State.enqueueRetry, State.deleteRetry, State.modifyRetry]

/-- The log thread at the node of a stream that exists. -/
theorem writeOn_log {ok : Bool} {rest : List Item} {n : String} {s' : Stream}
    (hlog : st.log = .body e rest n s' .write) (hlive : s' ∈ st.live)
    (hd : st.dangling = false) :
    st.writeOn s (.log ok) = if s' = s then some e else none := by
  by_cases hs : s' = s
  · subst hs
    simp [State.writeOn, hlog, hlive, hd]
  · simp [State.writeOn, hlog, hs]

theorem writeOn_log_eq_none {ok : Bool} {rest : List Item} {n : String} {s' : Stream} {pc : BodyPc}
    (hlog : st.log = .body e rest n s' pc)
    (h : pc ≠ .write ∨ s' ∉ st.live ∨ st.dangling = true) : st.writeOn s (.log ok) = none := by
  by_cases hpc : pc = .write
  · subst hpc
    have hnone : ¬(s' = s ∧ s ∈ st.live ∧ st.dangling = false) := by
      rintro ⟨rfl, hlive, hd⟩
      simp [hlive, hd] at h
    simp [State.writeOn, hlog, hnone]
  · simp only [State.writeOn, hlog]
    split
    · next heq =>
      cases heq
      exact absurd rfl hpc
    · rfl

theorem accepted_logStep {ok : Bool} (h : logStep formatTime st ok = some st') :
    accepted s st'.trace = accepted s st.trace ++ st.acceptedBy s (.log ok) := by
  cases hlog : st.log with
  | body e rest n s' pc =>
    unfold logStep at h
    rw [hlog] at h
    dsimp only at h
    split_ifs at h with hd
    · obtain rfl := Option.some.inj h
      rw [acceptedBy_of_writeOn_eq_none (writeOn_log_eq_none hlog (.inr (.inr hd))),
        List.append_nil]
      rfl
    by_cases hpc : pc = .write
    · subst hpc
      simp only [bodyStep] at h
      split_ifs at h with hlive hok <;> obtain rfl := Option.some.inj h
      · rw [advance_trace, State.observe, accepted_append,
          acceptedBy_eq (writeOn_log hlog hlive (Bool.eq_false_iff.2 hd)) hok]
      · have hfail : (Action.log ok).result = false := Bool.eq_false_iff.2 hok
        rw [acceptedBy_of_result_eq_false hfail, List.append_nil]
        rfl
      · rw [acceptedBy_of_writeOn_eq_none (writeOn_log_eq_none hlog (.inr (.inl hlive))),
          List.append_nil]
        rfl
    · rw [acceptedBy_of_writeOn_eq_none (writeOn_log_eq_none hlog (.inl hpc)), List.append_nil]
      exact accepted_bodyMove hpc (bodyMove h)
  | _ =>
    rw [acceptedBy_of_writeOn_eq_none (by simp [State.writeOn, hlog]), List.append_nil]
    cases logMove hlog h <;>
      simp [State.crash, State.goto, State.observe, State.deleteRetry, State.modifyRetry, accepted]

theorem accepted_retryStep {t : ℕ} {ok : Bool} {now : ℤ}
    (h : retryStep st t ok now = some st') :
    accepted s st'.trace = accepted s st.trace ++ st.acceptedBy s (.retry t ok now) := by
  obtain ⟨r, hr, hmove⟩ := retryMove h
  have hr' : st.retry? t = some r := hr
  by_cases hpc : ∃ e, r.pc = .write e
  · obtain ⟨e, hpc⟩ := hpc
    simp only [retryStep, hr', hpc] at h
    split_ifs at h with hlive hok <;> obtain rfl := Option.some.inj h
    · have hwrite : st.writeOn s (.retry t ok now) = if r.stream = s then some e else none := by
        by_cases hs : r.stream = s
        · subst hs
          simp [State.writeOn, hr', hpc, hlive]
        · simp [State.writeOn, hr', hpc, hs]
      rw [acceptedBy_eq hwrite hok, ← accepted_append]
      rfl
    · have hfail : (Action.retry t ok now).result = false := Bool.eq_false_iff.2 hok
      rw [acceptedBy_of_result_eq_false hfail, List.append_nil]
      rfl
    · have hnone : ¬(r.stream = s ∧ s ∈ st.live) := by
        rintro ⟨rfl, hmem⟩
        exact hlive hmem
      rw [acceptedBy_of_writeOn_eq_none (by simp [State.writeOn, hr', hpc, hnone]),
        List.append_nil]
      rfl
  · push Not at hpc
    have hnone : st.writeOn s (.retry t ok now) = none := by
      simp only [State.writeOn, hr', Option.bind_some]
    rw [acceptedBy_of_writeOn_eq_none hnone, List.append_nil]
    cases hmove with
    | accept hw => exact absurd hw (hpc _)
    | expire => simp [State.modifyRetry, State.observe, accepted_append, accepted_expire]
    | _ => simp [State.crash, State.modifyRetry]

/-- What the stream accepts in a step is what is written on it with success. -/
theorem accepted_step (h : step formatTime st a = some st') :
    accepted s st'.trace = accepted s st.trace ++ st.acceptedBy s a := by
  have hmove := move h
  cases a with
  | log ok =>
    rw [step, Option.ite_none_left_eq_some] at h
    exact accepted_logStep h.2
  | retry t ok now =>
    rw [step, Option.ite_none_left_eq_some] at h
    exact accepted_retryStep h.2
  | _ =>
    rw [acceptedBy_of_result_eq_false rfl, List.append_nil]
    cases hmove <;> simp [State.observe, State.crash, accepted]

end Writes

/-! ## The events in the process -/

/-- An event with the text of its time. -/
def stamped (formatTime : ℤ → Bytes) (ev : LogEvent) : LogEvent :=
  { ev with timeString := formatTime ev.time }

/-- The events in the process : `P` holds of those that `log` has not seen, and `Q` of the
others. -/
structure Carries (P Q : Item → Prop) (st : State) : Prop where
  events : ∀ e ∈ st.events, P e
  rest : ∀ e ∈ st.log.rest, P e
  body : ∀ e rest n s pc, st.log = .body e rest n s pc → Q e
  queue : ∀ r ∈ st.retries, ∀ e ∈ r.queue, Q e

namespace Carries

variable {formatTime : ℤ → Bytes} {P Q P' Q' : Item → Prop} {st st' : State} {a : Action}

theorem mono (h : Carries P Q st) (hP : ∀ e, P e → P' e) (hQ : ∀ e, Q e → Q' e) :
    Carries P' Q' st where
  events e he := hP e (h.events e he)
  rest e he := hP e (h.rest e he)
  body e rest n s pc hlog := hQ e (h.body e rest n s pc hlog)
  queue r hr e he := hQ e (h.queue r hr e he)

theorem init (h : st.Initial) : Carries P Q st where
  events := by simp [h.events]
  rest := by simp [h.log, LogPc.rest]
  body e rest n s pc hlog := by
    rw [h.log] at hlog
    cases hlog
  queue := by simp [h.retries]

/-- A change of neither the events nor the retry threads. -/
theorem frame (h : Carries P Q st) (he : st'.events = st.events) (hl : st'.log = st.log)
    (hr : st'.retries = st.retries) : Carries P Q st' := by
  obtain ⟨hevents, hrest, hbody, hqueue⟩ := h
  rw [← he] at hevents
  rw [← hl] at hrest hbody
  rw [← hr] at hqueue
  exact ⟨hevents, hrest, hbody, hqueue⟩

/-- The log thread goes to a place where it has no other event in hand. -/
theorem goto (h : Carries P Q st) {pc : LogPc} (hrest : ∀ e ∈ pc.rest, P e)
    (hbody : ∀ e rest n s pc', pc = .body e rest n s pc' → Q e) : Carries P Q (st.goto pc) :=
  ⟨h.events, hrest, hbody, h.queue⟩

theorem visit (h : Carries P Q st) {e : Item} {rest : List Item} (he : Q e)
    (hrest : ∀ e ∈ rest, P e) (o : Option (String × Stream)) :
    Carries P Q (st.visit e rest o) := by
  cases o with
  | none => exact h.goto hrest (by simp)
  | some i =>
    refine h.goto hrest ?_
    rintro _ _ _ _ _ ⟨⟩
    exact he

/-- The queue of a retry thread gets shorter, or gets an event that `log` has seen. -/
theorem modifyRetry (h : Carries P Q st) {t : ℕ} {f : Retry → Retry}
    (hf : ∀ r ∈ st.retries, ∀ e ∈ (f r).queue, e ∈ r.queue ∨ Q e) :
    Carries P Q (st.modifyRetry t f) := by
  refine ⟨h.events, h.rest, h.body, fun r hr e he => ?_⟩
  obtain ⟨i, hi⟩ := List.mem_iff_getElem?.1 hr
  simp only [State.modifyRetry, List.getElem?_modify] at hi
  split_ifs at hi with ht
  · obtain ⟨r', hr', rfl⟩ := Option.map_eq_some_iff.1 hi
    have hmem := List.mem_of_getElem? hr'
    exact (hf r' hmem e he).elim (h.queue r' hmem e) id
  · rw [id_map'] at hi
    exact h.queue r (List.mem_of_getElem? hi) e he

theorem deleteRetry (h : Carries P Q st) (t : ℕ) : Carries P Q (st.deleteRetry t) :=
  h.modifyRetry fun _ _ _ he => Or.inl he

theorem bodyMove (h : Carries P Q st) {e : Item} {rest : List Item} {n : String} {s : Stream}
    {pc : BodyPc} (hlog : st.log = .body e rest n s pc) (hs : BodyMove st e rest n s pc st') :
    Carries P Q st' := by
  have he : Q e := h.body e rest n s pc hlog
  have hrest : ∀ e ∈ rest, P e := by
    have := h.rest
    rwa [hlog] at this
  have hbody : ∀ (e' : Item) (rest' : List Item) (n' : String) (s' : Stream) (pc' pc'' : BodyPc),
      LogPc.body e rest n s pc'' = .body e' rest' n' s' pc' → Q e' := by
    rintro _ _ _ _ _ _ ⟨⟩
    exact he
  have hqueued : ∀ t, Carries P Q (st.enqueueRetry t e) := by
    intro t
    refine h.modifyRetry fun r _ e' he' => ?_
    rcases List.mem_append.1 he' with hmem | hmem
    · exact Or.inl hmem
    · exact Or.inr (List.mem_singleton.1 hmem ▸ he)
  have hframe : ∀ st₁ : State, st₁.events = st.events → st₁.log = st.log →
      st₁.retries = st.retries → Carries P Q (st₁.advance e rest n) := fun st₁ he₁ hl₁ hr₁ =>
    (h.frame he₁ hl₁ hr₁).visit he hrest _
  cases hs with
  | crash => exact h.frame rfl rfl rfl
  | enqueue => exact (hqueued _).visit he hrest _
  | join => exact ⟨h.events, hrest, (hbody · · · · · _), (h.deleteRetry _).queue⟩
  | accept => exact hframe _ rfl rfl rfl
  | construct =>
    refine ⟨h.events, hrest, (hbody · · · · · _), fun r hr e' he' => ?_⟩
    rcases List.mem_append.1 hr with hmem | hmem
    · exact h.queue r hmem e' he'
    · rw [List.mem_singleton.1 hmem] at he'
      cases he'
  | drop => exact hframe _ rfl rfl rfl
  | first => exact (hqueued _).goto hrest (hbody · · · · · _)
  | emplace => exact hframe _ rfl rfl rfl
  | _ => exact ⟨h.events, hrest, (hbody · · · · · _), h.queue⟩

theorem logMove (h : Carries P Q st) (hstamp : ∀ e : Item, P e →
      Q ⟨e.id, stamped formatTime e.event⟩) {pc : LogPc} (hlog : st.log = pc)
    (hs : LogMove formatTime st pc st') : Carries P Q st' := by
  have hrest : ∀ e ∈ pc.rest, P e := hlog ▸ h.rest
  cases hs with
  | crash => exact h.frame rfl rfl rfl
  | body _ hmove => exact h.bodyMove hlog hmove
  | swap => exact ⟨by simp [State.goto], h.events, by simp [State.goto], h.queue⟩
  | @take e rest =>
    obtain ⟨he, hrest⟩ := List.forall_mem_cons.1 hrest
    have hseen : Carries P Q (st.observe [.logged e.id]) := h.frame rfl rfl rfl
    exact hseen.visit (hstamp e he) hrest _
  | @scanned b => cases b <;> exact h.goto (by simp [LogPc.rest]) (by simp)
  | scanJoin =>
    exact ⟨h.events, by simp [State.goto, LogPc.rest], by simp [State.goto],
      (h.deleteRetry _).queue⟩
  | _ => exact h.goto (by simp [LogPc.rest]) (by simp)

theorem retryMove (h : Carries P Q st) {t : ℕ} {r : Retry} (hs : RetryMove st t r st') :
    Carries P Q st' := by
  cases hs with
  | crash => exact h.frame rfl rfl rfl
  | quiet => exact h.modifyRetry fun r _ e he => Or.inl he
  | accept =>
    refine modifyRetry ?_ fun r _ e he => Or.inl he
    exact h.frame rfl rfl rfl
  | pop => exact h.modifyRetry fun r _ e he => Or.inl (List.mem_of_mem_tail he)
  | expire =>
    refine modifyRetry ?_ fun r _ e he => Or.inl (List.mem_filter.1 he).1
    exact h.frame rfl rfl rfl

/-- What holds of the events when they are enqueued, and after `log` has set the text of their
time, holds of all events in the process. -/
theorem move (h : Carries P Q st) (hnew : ∀ ev, a = .enqueue ev → P ⟨st.count, ev⟩)
    (hstamp : ∀ e : Item, P e → Q ⟨e.id, stamped formatTime e.event⟩)
    (hs : Move formatTime st a st') : Carries P Q st' := by
  cases hs with
  | enqueue =>
    refine ⟨fun e he => ?_, h.rest, h.body, h.queue⟩
    rcases List.mem_append.1 he with hmem | hmem
    · exact h.events e hmem
    · rw [List.mem_singleton.1 hmem]
      exact hnew _ rfl
  | notify hpc =>
    rcases hpc with ⟨-, rfl⟩ | ⟨-, rfl⟩
    · exact ⟨h.events, by simp [LogPc.rest], by simp, h.queue⟩
    · exact h.frame rfl rfl rfl
  | log hmove => exact h.logMove hstamp rfl hmove
  | retry _ hmove => exact h.retryMove hmove
  | _ => exact h.frame rfl rfl rfl

/-- Whatever is written is an event that `log` has seen. -/
theorem writeOn (h : Carries P Q st) (hinv : Inv st) {s : Stream} {e : Item}
    (hw : st.writeOn s a = some e) : Q e := by
  cases a with
  | log ok =>
    simp only [State.writeOn] at hw
    split at hw
    · next e' rest n s' hlog =>
      split_ifs at hw
      obtain rfl := Option.some.inj hw
      exact h.body _ _ _ _ _ hlog
    · cases hw
  | retry t ok now =>
    obtain ⟨r, hr, hw⟩ := Option.bind_eq_some_iff.1 hw
    split at hw
    · next e' hpc =>
      split_ifs at hw
      obtain rfl := Option.some.inj hw
      have hfront := hinv.retry t r hr
      simp only [RetryFacts, hpc] at hfront
      exact h.queue r (List.mem_of_getElem? (deref_eq_some_iff.1 hr).1) _
        (List.mem_of_mem_head? hfront)
    · cases hw
  | _ => cases hw

end Carries

/-! ## The process and the sink -/

namespace Attached

/-- A call of `output_stream::write`, with the minimum level of the stream. -/
structure Offer where
  item : Item
  minLogLevel : LogLevel
  /-- what `do_write` returned, if it was called -/
  written : Option Bool
  deriving DecidableEq

/-- What `write` returned. -/
def Offer.result (o : Offer) : Bool :=
  o.written.getD true

/-- The call of `do_write`, if there was one, with its result. -/
def Offer.call (o : Offer) : Option (LogEvent × Bool) :=
  o.written.map fun ok => (o.item.event, ok)

/-- `output_stream::write` -/
def write {κ ε : Type*} (sink : Sink κ ε) (minLogLevel : LogLevel) (k : κ) (e : Item) (env : ε) :
    Offer × κ :=
  if e.event.level < minLogLevel then (⟨e, minLogLevel, none⟩, k)
  else
    let (ok, k) := sink.doWrite k e.event env
    (⟨e, minLogLevel, some ok⟩, k)

structure State (κ : Type*) where
  process : Logfile.State
  minLogLevel : LogLevel
  sink : κ
  events : List LogEvent
  offers : List Offer

inductive Action (ε : Type*)
  /-- a step of the process, with what `do_write` finds if it is called -/
  | process (a : Logfile.Action) (env : ε)
  /-- `output_stream::set_min_log_level` -/
  | setMinLogLevel (level : LogLevel)

variable {κ ε : Type*}

def step (formatTime : ℤ → Bytes) (s : Stream) (sink : Sink κ ε) (st : State κ) :
    Action ε → Option (State κ)
  | .setMinLogLevel level => some { st with minLogLevel := level }
  | .process a env =>
    match st.process.writeOn s a with
    | none =>
      (Logfile.step formatTime st.process a).map fun process =>
        { st with process, events := st.events ++ a.enqueues }
    | some e =>
      let (offer, k) := write sink st.minLogLevel st.sink e env
      (Logfile.step formatTime st.process (a.withResult offer.result)).map fun process =>
        { st with process, sink := k, offers := st.offers ++ [offer] }

/-- The process with a sink that starts in one of the given states. -/
def system (formatTime : ℤ → Bytes) (s : Stream) (sink : Sink κ ε) (init : κ → Prop) :
    System (State κ) (Action ε) where
  init st := st.process.Initial ∧ init st.sink ∧ st.events = [] ∧ st.offers = []
  step := step formatTime s sink

/-- What `write` does with the event `e`. -/
inductive Writes (sink : Sink κ ε) (st : State κ) (e : Item) (env : ε) : Offer → κ → Prop
  | filter : e.event.level < st.minLogLevel →
      Writes sink st e env ⟨e, st.minLogLevel, none⟩ st.sink
  | write : ¬e.event.level < st.minLogLevel →
      Writes sink st e env ⟨e, st.minLogLevel, some (sink.doWrite st.sink e.event env).1⟩
        (sink.doWrite st.sink e.event env).2

/-- What a step does : it is a write on the sink, or leaves the sink alone. -/
inductive Move (formatTime : ℤ → Bytes) (s : Stream) (sink : Sink κ ε) (st : State κ) :
    Action ε → State κ → Prop
  | level {level} : Move formatTime s sink st (.setMinLogLevel level)
      { st with minLogLevel := level }
  | other {a env process} : st.process.writeOn s a = none →
      Logfile.step formatTime st.process a = some process →
      Move formatTime s sink st (.process a env)
        { st with process, events := st.events ++ a.enqueues }
  | write {a env e process offer k} : st.process.writeOn s a = some e →
      Writes sink st e env offer k →
      Logfile.step formatTime st.process (a.withResult offer.result) = some process →
      Move formatTime s sink st (.process a env)
        { st with process, sink := k, offers := st.offers ++ [offer] }

variable {formatTime : ℤ → Bytes} {s : Stream} {sink : Sink κ ε} {init : κ → Prop}
  {st st' : State κ} {a : Action ε} {ok : State κ → Action ε → Prop}

theorem writes_write (sink : Sink κ ε) (st : State κ) (e : Item) (env : ε) :
    Writes sink st e env (write sink st.minLogLevel st.sink e env).1
      (write sink st.minLogLevel st.sink e env).2 := by
  unfold write
  split_ifs with h
  · exact .filter h
  · exact .write h

theorem move (h : step formatTime s sink st a = some st') : Move formatTime s sink st a st' := by
  cases a with
  | setMinLogLevel level =>
    obtain rfl := Option.some.inj h
    exact .level
  | process a env =>
    simp only [step] at h
    split at h <;> obtain ⟨process, hp, rfl⟩ := Option.map_eq_some_iff.1 h
    · next hw => exact .other hw hp
    · next e hw => exact .write hw (writes_write sink st e env) hp

/-- After a write the sink is as `write` leaves it. -/
theorem sink_of_writeOn {b : Logfile.Action} {env : ε} {e : Item}
    (hw : st.process.writeOn s b = some e)
    (hs : step formatTime s sink st (.process b env) = some st') :
    st'.sink = (write sink st.minLogLevel st.sink e env).2 := by
  simp only [step, hw] at hs
  obtain ⟨process, -, rfl⟩ := Option.map_eq_some_iff.1 hs
  rfl

/-! ## The process in it -/

/-- The process makes a run of its own. -/
theorem process_of_reach {C : Logfile.State → Prop} (hC : ∀ st a, ok st a → C st.process)
    (h : (system formatTime s sink init).Reach ok st) :
    (Logfile.system formatTime).Reach (fun p _ => C p) st.process := by
  refine h.project (fun st hi => .init hi.1) fun st a st' _ _ hok hs => ?_
  cases move hs with
  | level => exact .refl
  | other _ hp => exact .single (hC _ _ hok) hp
  | write _ _ hp => exact .single (hC _ _ hok) hp

/-- What is offered to the sink. -/
structure Offered (formatTime : ℤ → Bytes) (s : Stream) (st : State κ) : Prop where
  /-- the process counts the offers that succeeded -/
  accepted : accepted s st.process.trace = (st.offers.filter Offer.result).map (·.item.id)
  count : st.process.count = st.events.length
  /-- an event that was enqueued, with the text of its time -/
  item : ∀ o ∈ st.offers, ∃ ev, st.events[o.item.id]? = some ev ∧
    o.item.event = stamped formatTime ev
  /-- exactly the events below the minimum level do not get to `do_write` -/
  level : ∀ o ∈ st.offers, o.written = none ↔ o.item.event.level < o.minLogLevel

/-- The offers that get to `do_write`. -/
def wantedOf (offers : List Offer) : List LogEvent :=
  (offers.filter fun o => !decide (o.item.event.level < o.minLogLevel)).map (·.item.event)

/-- The events that were offered to the sink, without those below its minimum level. -/
def State.wanted (st : State κ) : List LogEvent :=
  wantedOf st.offers

theorem map_fst_calls : ∀ {offers : List Offer},
    (∀ o ∈ offers, o.written = none ↔ o.item.event.level < o.minLogLevel) →
      (offers.filterMap Offer.call).map Prod.fst = wantedOf offers
  | [], _ => rfl
  | o :: offers, h => by
    obtain ⟨ho, hoffers⟩ := List.forall_mem_cons.1 h
    have ih := map_fst_calls hoffers
    cases hw : o.written with
    | none => simpa [wantedOf, Offer.call, hw, ho.1 hw] using ih
    | some ok =>
      have hl : ¬o.item.event.level < o.minLogLevel := fun hl => by simp [ho.2 hl] at hw
      simpa [wantedOf, Offer.call, hw, hl] using ih

/-- The event with the number of the item, before or after `log` has set the text. -/
def Known (events : List LogEvent) (f : LogEvent → LogEvent) (e : Item) : Prop :=
  ∃ ev, events[e.id]? = some ev ∧ e.event = f ev

theorem Known.append {events : List LogEvent} {f : LogEvent → LogEvent} {e : Item}
    (h : Known events f e) (more : List LogEvent) : Known (events ++ more) f e := by
  obtain ⟨ev, hev, he⟩ := h
  refine ⟨ev, ?_, he⟩
  rw [List.getElem?_append_left (List.getElem?_eq_some_iff.1 hev).1, hev]

theorem count_step {p p' : Logfile.State} {a : Logfile.Action}
    (hs : Logfile.step formatTime p a = some p') : p'.count = p.count + a.enqueues.length := by
  cases Logfile.move hs with
  | log hmove =>
    generalize p.log = pc at hmove
    cases hmove with
    | body _ hmove => cases hmove <;> first | rfl | exact visit_count ..
    | take => exact visit_count ..
    | _ => rfl
  | retry _ hmove => cases hmove <;> rfl
  | _ => rfl

/-- All events of the process are known. -/
structure Tracked (formatTime : ℤ → Bytes) (s : Stream) (st : State κ) : Prop where
  carries : Carries (Known st.events id) (Known st.events (stamped formatTime)) st.process
  offered : Offered formatTime s st

theorem Tracked.move (h : Tracked formatTime s st) (hinv : Inv st.process)
    (hs : Move formatTime s sink st a st') : Tracked formatTime s st' := by
  have hstamp : ∀ (events : List LogEvent) (e : Item), Known events id e →
      Known events (stamped formatTime) ⟨e.id, stamped formatTime e.event⟩ := by
    rintro events e ⟨ev, hev, he⟩
    exact ⟨ev, hev, congrArg (stamped formatTime) he⟩
  obtain ⟨hcarries, hoff⟩ := h
  cases hs with
  | level => exact ⟨hcarries, hoff.accepted, hoff.count, hoff.item, hoff.level⟩
  | @other a env process hw hp =>
    refine ⟨?_, ?_, ?_, fun o ho => ?_, hoff.level⟩
    · have hgrown := hcarries.mono (fun e he => he.append a.enqueues)
        (fun e he => he.append a.enqueues)
      refine hgrown.move (fun ev ha => ?_) (hstamp _) (Logfile.move hp)
      subst ha
      refine ⟨ev, ?_, rfl⟩
      rw [hoff.count]
      exact List.getElem?_concat_length
    · dsimp only
      rw [accepted_step hp, acceptedBy_of_writeOn_eq_none hw, List.append_nil, hoff.accepted]
    · dsimp only
      rw [count_step hp, hoff.count, List.length_append]
    · exact Known.append (hoff.item o ho) _
  | @write a env e process offer k hw hwrites hp =>
    have hknown : Known st.events (stamped formatTime) e := hcarries.writeOn hinv hw
    have hitem : offer.item = e := by cases hwrites <;> rfl
    have hlevel : offer.written = none ↔ e.event.level < offer.minLogLevel := by
      cases hwrites with
      | filter hl => exact iff_of_true rfl hl
      | write hl => exact iff_of_false (by simp) hl
    have haccepted : st.process.acceptedBy s (a.withResult offer.result) =
        ([offer].filter Offer.result).map (·.item.id) := by
      have hresult := result_withResult hw offer.result
      cases hres : offer.result with
      | true =>
        rw [hres] at hresult
        simp [State.acceptedBy, hw, hresult, hres, hitem]
      | false =>
        rw [hres] at hresult
        simp [acceptedBy_of_result_eq_false hresult, hres]
    refine ⟨?_, ?_, ?_, fun o ho => ?_, fun o ho => ?_⟩
    · refine hcarries.move (fun ev ha => ?_) (hstamp _) (Logfile.move hp)
      have hnone := congrArg Action.enqueues ha
      rw [enqueues_withResult, enqueues_of_writeOn hw] at hnone
      cases hnone
    · dsimp only
      rw [accepted_step hp, haccepted, hoff.accepted, List.filter_append, List.map_append]
    · dsimp only
      rw [count_step hp, enqueues_withResult, enqueues_of_writeOn hw, hoff.count]
      rfl
    · rcases List.mem_append.1 ho with ho | ho
      · exact hoff.item o ho
      · rw [List.mem_singleton.1 ho, hitem]
        exact hknown
    · rcases List.mem_append.1 ho with ho | ho
      · exact hoff.level o ho
      · rw [List.mem_singleton.1 ho, hitem]
        exact hlevel

theorem tracked_of_reach (h : (system formatTime s sink init).Reach ok st) :
    Tracked formatTime s st := by
  refine h.invariant (fun st hi => ?_) fun st a st' hr htr _ hs => ?_
  · obtain ⟨hprocess, -, hevents, hoffers⟩ := hi
    refine ⟨.init hprocess, ?_, ?_, ?_, ?_⟩
    · simp [hprocess.trace, hoffers, accepted]
    · simp [hprocess.count, hevents]
    · simp [hoffers]
    · simp [hoffers]
  · have hp := process_of_reach (C := fun _ => True) (fun _ _ _ => trivial) hr
    exact htr.move (inv_of_reach hp) (move hs)

/-- What the sink is offered, in every run. -/
theorem offered_of_reach (h : (system formatTime s sink init).Reach ok st) :
    Offered formatTime s st :=
  (tracked_of_reach h).offered

/-! ## Any sink -/

/-- A sink about which nothing is known. -/
def anySink : Sink Unit Bool where
  doWrite _ _ ok := (ok, ())

/-- The steps of a process with `anySink`. -/
def scripted (as : List Logfile.Action) : List (Action Bool) :=
  as.map fun a => .process a a.result

/-- The only stream is of the kind. -/
def withAny : State Unit :=
  ⟨.start (OrdMap.empty.emplace "stdout" 1), .finest, (), [], []⟩

theorem init_withAny (formatTime : ℤ → Bytes) :
    (system formatTime 1 anySink fun _ => True).init withAny :=
  ⟨Logfile.State.initial_start _, trivial, rfl, rfl⟩

end Attached

end Logfile
