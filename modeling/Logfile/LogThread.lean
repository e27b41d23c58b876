import Logfile.LogEvent
import Logfile.OrdMap
import Logfile.Runs

/-!
# The log thread and its retry threads

The state and the steps of `log_thread`, of the `retry_thread`s it starts, of the
producers calling `enqueue`, and of the application adding and removing streams. Each
section under a mutex is one step, so is each call into a stream, each access to one of
the two maps, each `notify_one`, and each `join`; a thread about to sleep or to wait may
stay there for any time. What the environment decides (whether a write succeeds, whether
a thread can be constructed, what the clock shows) comes with the action.

A `retry_thread` object is the index of its construction, so an address is not reused
and a freed object is recognised. A stream is its address, and the address may be reused
once the stream is deleted. Undefined behaviour ends the run : `crashed` is set and no
step is enabled any more.

`new retry_thread` is one step. In the source the order of the members constructs `m_thread` before
`m_event_queue` and `m_mutex`, so that the thread runs before these two exist; it sleeps for
`retry_time` seconds before it uses them.

`trace` records what happened to each event; no step reads it.
-/

namespace Logfile

/-- A `log_event` on its way, numbered in the order of `enqueue`. -/
structure Item where
  id : ℕ
  event : LogEvent
  deriving DecidableEq, Repr

/-- The address of an `output_stream`. -/
abbrev Stream := ℕ

/-- What can be seen of the events and of the retry threads. -/
inductive Obs
  /-- `m_events.emplace_back` -/
  | enqueued (id : ℕ)
  /-- a call of `log_thread::log` -/
  | logged (id : ℕ)
  /-- `output_stream::write` returned true -/
  | accepted (s : Stream) (id : ℕ)
  /-- `new retry_thread` threw, so the event is dropped for the stream -/
  | dropped (s : Stream) (id : ℕ)
  /-- the expiry pass erased the event -/
  | expired (s : Stream) (id : ℕ)
  deriving DecidableEq, Repr

/-- Where a retry thread is in `retry_thread::run`. -/
inductive RetryPc
  /-- the argument of `sleep_for` -/
  | retryTime
  /-- `sleep_for` -/
  | sleep
  /-- the emptiness test and `front()` -/
  | front
  /-- `m_stream->write(first_event)` -/
  | write (firstEvent : Item)
  /-- `pop_front()` -/
  | pop
  /-- the expiry pass -/
  | expire
  /-- the message about expired entries -/
  | report
  /-- `if (!active())` -/
  | test
  /-- out of the loop, before the message that it stops -/
  | stopping
  /-- `run()` has returned -/
  | finished
  deriving DecidableEq, Repr

/-- `run()` has left its loop. -/
def RetryPc.left : RetryPc → Bool
  | stopping => true
  | finished => true
  | _ => false

/-- A `retry_thread` object and its thread. -/
structure Retry where
  stream : Stream
  queue : List Item
  pc : RetryPc
  deleted : Bool
  deriving DecidableEq, Repr

/-- A `retry_thread` right after its thread was started. -/
def Retry.new (s : Stream) : Retry :=
  ⟨s, [], .retryTime, false⟩

/-- `retry_thread::active` -/
def Retry.active (t : Retry) : Bool :=
  !t.queue.isEmpty

/-- The object behind a pointer, unless it is deleted. -/
def deref (l : List Retry) (t : ℕ) : Option Retry :=
  l[t]?.filter fun r => !r.deleted

/-- Where the log thread is inside the loop of `log_thread::log` over `m_streams`. -/
inductive BodyPc
  /-- `m_retry_map.find(j.second)` -/
  | find
  /-- `t->second->active()` -/
  | active (t : ℕ)
  /-- `t->second->enqueue(_event)` -/
  | enqueue (t : ℕ)
  /-- `t->second->m_thread.join()` -/
  | join (t : ℕ)
  /-- `j.second->write(_event)` -/
  | write
  /-- `new retry_thread(j.second)` -/
  | construct
  /-- the message of the constructor -/
  | announce (t : ℕ)
  /-- `thread->enqueue(_event)` -/
  | first (t : ℕ)
  /-- `m_retry_map.emplace(j.second, thread)` -/
  | emplace (t : ℕ)
  deriving DecidableEq, Repr

/-- Where the log thread is in `log_thread::do_run`. `rest` is the part of the local
list still to be processed. -/
inductive LogPc
  /-- `m_events.swap(local)` -/
  | swap
  /-- `for (const auto &i : local)` -/
  | next (rest : List Item)
  /-- in `log(e)`, at the node of the stream `s` under the name `n` -/
  | body (e : Item) (rest : List Item) (n : String) (s : Stream) (pc : BodyPc)
  /-- the test of `m_do_terminate` and `m_events` -/
  | check
  /-- `m_cond.wait(lock)` -/
  | wait
  /-- `for (auto &i : m_retry_map)`, with the keys not yet visited -/
  | scan (todo : List Stream) (stillActive : Bool)
  /-- `i.second->m_thread.join()` -/
  | scanJoin (s : Stream) (t : ℕ) (todo : List Stream) (stillActive : Bool)
  /-- the sleep before the next pass -/
  | pause
  /-- the second test of `m_events` -/
  | final
  /-- `do_run` has returned -/
  | returned
  deriving DecidableEq, Repr

/-- The whole process as far as `log_thread` is concerned. -/
structure State where
  streams : OrdMap String Stream
  /-- addresses of the streams that exist -/
  live : List Stream
  /-- names whose stream `remove_output_stream` has deleted and not yet erased -/
  erasing : List String
  events : List Item
  doTerminate : Bool
  /-- threads between releasing `m_mutex` and their `notify_one` -/
  notifiers : ℕ
  retryMap : OrdMap Stream (Option ℕ)
  retries : List Retry
  log : LogPc
  /-- the node the loop of `log` stands at has been erased -/
  dangling : Bool
  crashed : Bool
  /-- events enqueued so far -/
  count : ℕ
  trace : List Obs

namespace State

/-- The process when the log thread starts, with the given streams. -/
def start (streams : OrdMap String Stream) : State where
  streams := streams
  live := streams.entries.map Prod.snd
  erasing := []
  events := []
  doTerminate := false
  notifiers := 0
  retryMap := .empty
  retries := []
  log := .swap
  dangling := false
  crashed := false
  count := 0
  trace := []

/-- Before the first event. Any streams may have been added. -/
structure Initial (st : State) : Prop where
  live : ∀ n s, st.streams.find n = some s → s ∈ st.live
  erasing : st.erasing = []
  events : st.events = []
  doTerminate : st.doTerminate = false
  notifiers : st.notifiers = 0
  retryMap : st.retryMap = .empty
  retries : st.retries = []
  log : st.log = .swap
  dangling : st.dangling = false
  crashed : st.crashed = false
  count : st.count = 0
  trace : st.trace = []

theorem initial_start (streams : OrdMap String Stream) : (start streams).Initial :=
  ⟨fun n s h => List.mem_map.2 ⟨(n, s), OrdMap.find_eq_some_iff.1 h, rfl⟩,
    rfl, rfl, rfl, rfl, rfl, rfl, rfl, rfl, rfl, rfl, rfl⟩

variable (st : State)

/-- Undefined behaviour. -/
def crash : State :=
  { st with crashed := true }

def goto (pc : LogPc) : State :=
  { st with log := pc }

def observe (o : List Obs) : State :=
  { st with trace := st.trace ++ o }

/-- Change a retry thread. -/
def modifyRetry (t : ℕ) (f : Retry → Retry) : State :=
  { st with retries := st.retries.modify t f }

def retry? (t : ℕ) : Option Retry :=
  deref st.retries t

/-- Go on with the loop of `log` at the node its iterator points to. -/
def visit (e : Item) (rest : List Item) : Option (String × Stream) → State
  | some (n, s) => st.goto (.body e rest n s .find)
  | none => st.goto (.next rest)

/-- `++` of the iterator of `log`. -/
def advance (e : Item) (rest : List Item) (n : String) : State :=
  st.visit e rest (st.streams.next n)

/-- `retry_thread::enqueue` -/
def enqueueRetry (t : ℕ) (e : Item) : State :=
  st.modifyRetry t fun r => { r with queue := r.queue ++ [e] }

/-- `delete` of a joined retry thread. -/
def deleteRetry (t : ℕ) : State :=
  st.modifyRetry t fun r => { r with deleted := true }

end State

/-! ## The steps -/

/-- `log_thread::log` for the stream `s` at the node `n`. `ok` is the result of the write,
or whether the thread can be constructed. -/
def bodyStep (st : State) (ok : Bool) (e : Item) (rest : List Item) (n : String) (s : Stream) :
    BodyPc → Option State
  | .find =>
    match st.retryMap.find s with
    | none => some <| st.goto (.body e rest n s .write)
    | some none =>
      some <| { st with retryMap := st.retryMap.erase s }.goto (.body e rest n s .write)
    | some (some t) => some <| st.goto (.body e rest n s (.active t))
  | .active t =>
    match st.retry? t with
    | none => some st.crash
    | some r => some <| st.goto (.body e rest n s (if r.active then .enqueue t else .join t))
  | .enqueue t =>
    match st.retry? t with
    | none => some st.crash
    | some _ => some <| (st.enqueueRetry t e).advance e rest n
  | .join t =>
    match st.retry? t with
    | none => some st.crash
    | some r =>
      if r.pc = .finished then
        some <| { st.deleteRetry t with retryMap := st.retryMap.erase s }.goto
          (.body e rest n s .write)
      else none
  | .write =>
    if s ∉ st.live then some st.crash
    else if ok then some <| (st.observe [.accepted s e.id]).advance e rest n
    else some <| st.goto (.body e rest n s .construct)
  | .construct =>
    if ok then
      some <| { st with retries := st.retries ++ [Retry.new s] }.goto
        (.body e rest n s (.announce st.retries.length))
    else some <| (st.observe [.dropped s e.id]).advance e rest n
  | .announce t =>
    if s ∉ st.live then some st.crash else some <| st.goto (.body e rest n s (.first t))
  | .first t =>
    match st.retry? t with
    | none => some st.crash
    | some _ => some <| (st.enqueueRetry t e).goto (.body e rest n s (.emplace t))
  | .emplace t =>
    some <| { st with retryMap := st.retryMap.emplace s (some t) }.advance e rest n

/-- `log_thread::do_run`. A thread in `wait` may wake up without a notification. -/
def logStep (formatTime : ℤ → Bytes) (st : State) (ok : Bool) : Option State :=
  match st.log with
  | .swap => some <| { st with events := [] }.goto (.next st.events)
  | .next [] => some <| st.goto .check
  | .next (e :: rest) =>
    let e' := { e with event.timeString := formatTime e.event.time }
    some <| (st.observe [.logged e.id]).visit e' rest st.streams.first
  | .body e rest n s pc =>
    if st.dangling then some st.crash else bodyStep st ok e rest n s pc
  | .check =>
    if st.doTerminate && st.events.isEmpty then some <| st.goto (.scan st.retryMap.keys false)
    else if st.events.isEmpty then some <| st.goto .wait
    else some <| st.goto .swap
  | .wait => some <| st.goto .swap
  | .scan [] stillActive => some <| st.goto (if stillActive then .pause else .final)
  | .scan (s :: todo) stillActive =>
    match st.retryMap.find s with
    | some (some t) =>
      match st.retry? t with
      | none => some st.crash
      | some r =>
        some <| st.goto
          (if r.active then .scan todo true else .scanJoin s t todo stillActive)
    -- `i.second` is null
    | _ => some st.crash
  | .scanJoin s t todo stillActive =>
    match st.retry? t with
    | none => some st.crash
    | some r =>
      if r.pc = .finished then
        some <| { st.deleteRetry t with retryMap := st.retryMap.assign s none }.goto
          (.scan todo stillActive)
      else none
  | .pause => some <| st.goto .swap
  | .final => some <| st.goto (if st.events.isEmpty then .returned else .swap)
  | .returned => none

/-- `retry_thread::run` of the thread `t`. `ok` is the result of the write and `now` the
clock of the expiry pass. -/
def retryStep (st : State) (t : ℕ) (ok : Bool) (now : ℤ) : Option State :=
  match st.retry? t with
  | none => none
  | some r =>
    match r.pc with
    | .retryTime =>
      if r.stream ∉ st.live then some st.crash
      else some <| st.modifyRetry t fun r => { r with pc := .sleep }
    | .sleep => some <| st.modifyRetry t fun r => { r with pc := .front }
    | .front =>
      match r.queue with
      | [] => some <| st.modifyRetry t fun r => { r with pc := .expire }
      | e :: _ => some <| st.modifyRetry t fun r => { r with pc := .write e }
    | .write e =>
      if r.stream ∉ st.live then some st.crash
      else if ok then
        some <| (st.observe [.accepted r.stream e.id]).modifyRetry t fun r => { r with pc := .pop }
      else some <| st.modifyRetry t fun r => { r with pc := .expire }
    | .pop => some <| st.modifyRetry t fun r => { r with queue := r.queue.tail, pc := .front }
    | .expire =>
      let old := r.queue.filter fun e => e.event.expired now
      some <| (st.observe (old.map fun e => .expired r.stream e.id)).modifyRetry t fun r =>
        { r with
          queue := r.queue.filter fun e => !e.event.expired now
          pc := if old.isEmpty then .test else .report }
    | .report =>
      if r.stream ∉ st.live then some st.crash
      else some <| st.modifyRetry t fun r => { r with pc := .test }
    | .test =>
      some <| st.modifyRetry t fun r => { r with pc := if r.active then .retryTime else .stopping }
    | .stopping =>
      if r.stream ∉ st.live then some st.crash
      else some <| st.modifyRetry t fun r => { r with pc := .finished }
    | .finished => none

/-- The name of the node the loop of `log` stands at. -/
def LogPc.node : LogPc → Option String
  | body _ _ n _ _ => some n
  | _ => none

/-- Who moves, with the choices of the environment. -/
inductive Action
  /-- the critical section of `log_thread::enqueue`, called by any producer -/
  | enqueue (ev : LogEvent)
  /-- a `notify_one` that is due -/
  | notify
  /-- the critical section of `log_thread::terminate` -/
  | terminate
  /-- `logger::add_output_stream` -/
  | add (n : String) (s : Stream)
  /-- `delete i->second` in `logger::remove_output_stream` -/
  | delete (n : String)
  /-- `m_streams.erase(i)` in `logger::remove_output_stream` -/
  | erase (n : String)
  /-- the log thread -/
  | log (ok : Bool)
  /-- the retry thread `t` -/
  | retry (t : ℕ) (ok : Bool) (now : ℤ)
  deriving DecidableEq, Repr

/-- One step of the process. -/
def step (formatTime : ℤ → Bytes) (st : State) (a : Action) : Option State :=
  if st.crashed then none
  else
    match a with
    | .enqueue ev =>
      some { st.observe [.enqueued st.count] with
        events := st.events ++ [⟨st.count, ev⟩]
        notifiers := st.notifiers + 1
        count := st.count + 1 }
    | .notify =>
      if st.notifiers = 0 then none
      else
        some { st with
          notifiers := st.notifiers - 1
          log := if st.log = .wait then .swap else st.log }
    | .terminate => some { st with doTerminate := true, notifiers := st.notifiers + 1 }
    | .add n s =>
      some { st with
        streams := st.streams.emplace n s
        live := if s ∈ st.live then st.live else s :: st.live }
    | .delete n =>
      match st.streams.find n with
      | none => none
      | some s =>
        if s ∉ st.live then some st.crash
        else some { st with live := st.live.filter (· ≠ s), erasing := n :: st.erasing }
    | .erase n =>
      if n ∉ st.erasing then none
      else
        some { st with
          streams := st.streams.erase n
          erasing := st.erasing.erase n
          dangling := st.dangling || decide (st.log.node = some n) }
    | .log ok => logStep formatTime st ok
    | .retry t ok now => retryStep st t ok now

/-- The process as a transition system. -/
def system (formatTime : ℤ → Bytes) : System State Action :=
  ⟨State.Initial, step formatTime⟩

/-! ## A run on one sink -/

/-- An event for runs. -/
def someEvent : LogEvent :=
  ⟨.info, 0, ascii "Hallo Welt.", 0, ascii "main", ascii "example", []⟩

/-- The log thread takes an event, fails to write it and constructs a retry thread. -/
def failedWrite : List Action :=
  [.enqueue someEvent, .log true, .log true, .log true, .log false, .log true]

example : (((system fun _ => []).exec (fun _ _ => true)
    (State.start (OrdMap.empty.emplace "stdout" 1)) failedWrite).map State.retries) =
      some [Retry.new 1] := by
  rfl

end Logfile
