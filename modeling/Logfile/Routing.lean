import Logfile.Expiry
import Logfile.Subsystems

/-!
# From the log statement to the sink

The registry of subsystems in front of the log thread. A log statement below `SuS_LOG_MINLEVEL` is
eliminated, one below the level of its subsystem is ignored by `log`, and the others are enqueued
with the name of the subsystem. As in `Subsystems`, the calls to the registry are made one after the
other; between them the threads go on.

The events are the statements that pass, in their order, under the names that their subsystems were
registered with, and the sink is offered nothing else (`routed_of_reach`). When `do_run` returns,
each of them has been accepted once, unless it was too old or no retry thread could be constructed
(`routed_of_returns`). What passes is read off the history of the calls, not off the registry.
-/

set_option linter.unusedSectionVars false

namespace Logfile.Routing

open Text
open Attached (Offer ClockUpTo)

/-- A log statement that is reached, with the time that `log` reads. -/
structure Statement where
  level : LogLevel
  subsystem : UInt32
  message : Bytes
  now : ℤ
  function : Bytes
  deriving DecidableEq

/-- `SuS_LOG`, unless the assertion in `log` fails. -/
def susLog (minLevel : LogLevel) (d : Logger.LoggerPrivate) (x : Statement) :
    Option Logger.LoggerPrivate :=
  if x.level < minLevel then some d
  else Logger.log d x.level x.subsystem x.message x.now x.function

structure State (κ : Type*) where
  logger : Logger.State
  attached : Attached.State κ
  /-- the statements, with the level that was last set for the subsystem then -/
  statements : List (Statement × LogLevel)

inductive Action (ε : Type*)
  | register (name : Bytes)
  | setLevel (subsystem : UInt32) (level : LogLevel)
  | statement (x : Statement) (env : ε)
  /-- a step of the process other than `enqueue` -/
  | attached (a : Attached.Action ε)

variable {κ ε : Type*}

/-- The action is a call of `enqueue`. -/
def isEnqueue : Attached.Action ε → Bool
  | .process (.enqueue _) _ => true
  | _ => false

/-- One step. What `log` adds to the events of the registry goes to `enqueue`. -/
def step (minLevel : LogLevel) (formatTime : ℤ → Bytes) (s : Stream) (sink : Sink κ ε)
    (st : State κ) : Action ε → Option (State κ)
  | .register name =>
    (Logger.step minLevel st.logger (.register name)).map fun logger => { st with logger }
  | .setLevel subsystem level =>
    (Logger.step minLevel st.logger (.setLevel subsystem level)).map fun logger =>
      { st with logger }
  | .statement x env =>
    (susLog minLevel st.logger.d x).bind fun d =>
      let statements :=
        st.statements ++ [(x, Logger.lastLevel minLevel st.logger.trace x.subsystem)]
      match d.events.drop st.logger.d.events.length with
      | [] => some { st with logger := { st.logger with d }, statements }
      | ev :: _ =>
        (Attached.step formatTime s sink st.attached (.process (.enqueue ev) env)).map
          fun attached => ⟨{ st.logger with d }, attached, statements⟩
  | .attached a =>
    if isEnqueue a then none
    else
      (Attached.step formatTime s sink st.attached a).map fun attached => { st with attached }

/-- Nothing is registered, and the log thread starts. -/
def system (minLevel : LogLevel) (formatTime : ℤ → Bytes) (s : Stream) (sink : Sink κ ε)
    (init : κ → Prop) : System (State κ) (Action ε) where
  init st := st.logger = ⟨⟨.empty, 0, []⟩, []⟩ ∧
    (Attached.system formatTime s sink init).init st.attached ∧ st.statements = []
  step := step minLevel formatTime s sink

/-- The statement is not eliminated, and `log` does not ignore it. -/
def passes (minLevel : LogLevel) (x : Statement × LogLevel) : Bool :=
  !decide (x.1.level < minLevel) && !decide (x.1.level < x.2)

/-- The event that `log` makes of the statement. -/
def Statement.event (names : List Bytes) (x : Statement) : LogEvent :=
  ⟨x.level, x.subsystem, x.message, x.now, x.function, names[x.subsystem.toNat]?.getD [], []⟩

/-- The rules of `step`. -/
inductive Move (minLevel : LogLevel) (formatTime : ℤ → Bytes) (s : Stream) (sink : Sink κ ε)
    (st : State κ) : Action ε → State κ → Prop
  | register {name logger} : Logger.step minLevel st.logger (.register name) = some logger →
      Move minLevel formatTime s sink st (.register name) { st with logger }
  | setLevel {subsystem level logger} :
      Logger.step minLevel st.logger (.setLevel subsystem level) = some logger →
      Move minLevel formatTime s sink st (.setLevel subsystem level) { st with logger }
  | eliminated {x env} : x.level < minLevel →
      Move minLevel formatTime s sink st (.statement x env)
        { st with
          statements :=
            st.statements ++ [(x, Logger.lastLevel minLevel st.logger.trace x.subsystem)] }
  | ignored {x env i} : st.logger.d.subsystems.find x.subsystem = some i → ¬x.level < minLevel →
      x.level < i.minLevel →
      Move minLevel formatTime s sink st (.statement x env)
        { st with
          statements :=
            st.statements ++ [(x, Logger.lastLevel minLevel st.logger.trace x.subsystem)] }
  | logged {x env i ev d attached} : st.logger.d.subsystems.find x.subsystem = some i →
      ¬x.level < minLevel → ¬x.level < i.minLevel →
      ev = ⟨x.level, x.subsystem, x.message, x.now, x.function, i.name, []⟩ →
      d = { st.logger.d with events := st.logger.d.events ++ [ev] } →
      Attached.step formatTime s sink st.attached (.process (.enqueue ev) env) = some attached →
      Move minLevel formatTime s sink st (.statement x env)
        ⟨{ st.logger with d }, attached,
          st.statements ++ [(x, Logger.lastLevel minLevel st.logger.trace x.subsystem)]⟩
  | attached {a attached} : isEnqueue a = false →
      Attached.step formatTime s sink st.attached a = some attached →
      Move minLevel formatTime s sink st (.attached a) { st with attached }

variable {minLevel : LogLevel} {formatTime : ℤ → Bytes} {s : Stream} {sink : Sink κ ε}
  {init : κ → Prop} {st st' : State κ} {a : Action ε} {ok : State κ → Action ε → Prop}

theorem move (h : step minLevel formatTime s sink st a = some st') :
    Move minLevel formatTime s sink st a st' := by
  cases a with
  | register name =>
    rw [step] at h
    obtain ⟨logger, hl, rfl⟩ := Option.map_eq_some_iff.1 h
    exact .register hl
  | setLevel subsystem level =>
    rw [step] at h
    obtain ⟨logger, hl, rfl⟩ := Option.map_eq_some_iff.1 h
    exact .setLevel hl
  | statement x env =>
    rw [step] at h
    obtain ⟨d, hd, h⟩ := Option.bind_eq_some_iff.1 h
    unfold susLog at hd
    split_ifs at hd with hmin
    · obtain rfl := Option.some.inj hd
      simp only [List.drop_length, Option.some.injEq] at h
      rw [← h]
      exact .eliminated hmin
    · obtain ⟨i, hi, rfl⟩ := Option.map_eq_some_iff.1 hd
      by_cases hlevel : x.level < i.minLevel
      · simp only [if_pos hlevel, List.drop_length, Option.some.injEq] at h
        rw [← h]
        exact .ignored hi hmin hlevel
      · simp only [if_neg hlevel, List.drop_left] at h
        obtain ⟨attached, hattached, rfl⟩ := Option.map_eq_some_iff.1 h
        exact .logged hi hmin hlevel rfl rfl hattached
  | attached a =>
    rw [step, Option.ite_none_left_eq_some] at h
    obtain ⟨hnot, h⟩ := h
    obtain ⟨attached, hattached, rfl⟩ := Option.map_eq_some_iff.1 h
    exact .attached (by simpa using hnot) hattached

/-! ## The parts -/

/-- The registry goes through the calls that are made to it. -/
theorem logger_of_reach (h : (system minLevel formatTime s sink init).Reach ok st) :
    (Logger.calls minLevel).Reachable st.logger := by
  refine h.project (fun st hi => .init hi.1) fun st a st' _ _ _ hs => ?_
  cases move hs with
  | register hl => exact .single (b := .register _) trivial hl
  | setLevel hl => exact .single (b := .setLevel _ _) trivial hl
  | eliminated => exact .refl
  | ignored => exact .refl
  | @logged x env i ev d attached hi _ hlevel hev hd =>
    refine .single (b := .log x.level x.subsystem x.message x.now x.function) trivial ?_
    simp [Logger.calls, Logger.step, Logger.log, hi, hlevel, hev, hd]
  | attached => exact .refl

/-- The step of the process in a step of the whole. -/
def Action.Issues (a : Action ε) (b : Attached.Action ε) : Prop :=
  a = .attached b ∨ ∃ x env ev, a = .statement x env ∧ b = .process (.enqueue ev) env

/-- The process makes no step, or one of its own. -/
theorem attached_step (hs : step minLevel formatTime s sink st a = some st') :
    st'.attached = st.attached ∨
      ∃ b, a.Issues b ∧ Attached.step formatTime s sink st.attached b = some st'.attached := by
  cases move hs with
  | logged _ _ _ _ _ hattached => exact Or.inr ⟨_, Or.inr ⟨_, _, _, rfl, rfl⟩, hattached⟩
  | attached _ hattached => exact Or.inr ⟨_, Or.inl rfl, hattached⟩
  | _ => exact Or.inl rfl

theorem attached_of_reach {C : Attached.State κ → Attached.Action ε → Prop}
    (hC : ∀ st a b, ok st a → a.Issues b → C st.attached b)
    (h : (system minLevel formatTime s sink init).Reach ok st) :
    (Attached.system formatTime s sink init).Reach C st.attached := by
  refine h.project (fun st hi => .init hi.2.1) fun st a st' _ _ hok hs => ?_
  rcases attached_step hs with heq | ⟨b, hb, hs⟩
  · rw [heq]
    exact .refl
  · exact .single (hC _ _ _ hok hb) hs

/-! ## The statements that pass -/

/-- The statements that are neither eliminated nor ignored. -/
def State.passing (minLevel : LogLevel) (st : State κ) : List Statement :=
  (st.statements.filter (passes minLevel)).map Prod.fst

/-- The events are made of the statements that pass, and their subsystems are registered. -/
structure Routed (minLevel : LogLevel) (st : State κ) : Prop where
  events : st.attached.events =
    (st.passing minLevel).map (Statement.event (Logger.names st.logger.trace))
  named : ∀ x ∈ st.passing minLevel,
    x.subsystem.toNat < (Logger.names st.logger.trace).length

/-- A statement that passed is not forgotten. -/
theorem passing_grows (hs : step minLevel formatTime s sink st a = some st') :
    st.passing minLevel <+: st'.passing minLevel := by
  have happend : ∀ (x : Statement × LogLevel) (st' : State κ),
      st'.statements = st.statements ++ [x] → st.passing minLevel <+: st'.passing minLevel := by
    intro x st' hx
    rw [State.passing, State.passing, hx, List.filter_append, List.map_append]
    exact List.prefix_append _ _
  cases move hs with
  | register | setLevel | attached => exact List.prefix_rfl
  | eliminated | ignored | logged => exact happend _ _ rfl

/-- No level stands in the way of a severe statement. -/
theorem passing_of_severe {x : Statement} {env : ε} (hx : x.level = .severe)
    (hs : step minLevel formatTime s sink st (.statement x env) = some st') :
    st'.passing minLevel = st.passing minLevel ++ [x] := by
  cases move hs with
  | eliminated hmin =>
    rw [hx] at hmin
    exact absurd hmin (not_severe_lt _)
  | ignored _ _ hlevel =>
    rw [hx] at hlevel
    exact absurd hlevel (not_severe_lt _)
  | logged => simp [State.passing, passes, hx, not_severe_lt]

/-- A name keeps its position. -/
theorem names_grow {st st' : Logger.State} {c : Logger.Call}
    (h : Logger.step minLevel st c = some st') :
    Logger.names st.trace <+: Logger.names st'.trace := by
  cases c with
  | register name =>
    obtain rfl := Option.some.inj h
    dsimp only
    rw [Logger.names_registered]
    split_ifs
    · exact List.prefix_rfl
    · exact List.prefix_append _ _
  | find name =>
    obtain rfl := Option.some.inj h
    exact List.prefix_rfl
  | setLevel subsystem level =>
    obtain ⟨d', -, rfl⟩ := Option.map_eq_some_iff.1 h
    rw [Logger.names_levelSet]
  | log level subsystem message now function =>
    obtain ⟨d', -, rfl⟩ := Option.map_eq_some_iff.1 h
    exact List.prefix_rfl

theorem names_grow_of_step (hs : step minLevel formatTime s sink st a = some st') :
    Logger.names st.logger.trace <+: Logger.names st'.logger.trace := by
  cases move hs with
  | register hl => exact names_grow hl
  | setLevel hl => exact names_grow hl
  | _ => exact List.prefix_rfl

theorem events_of_enqueue {p p' : Attached.State κ} {ev : LogEvent} {env : ε}
    (h : Attached.step formatTime s sink p (.process (.enqueue ev) env) = some p') :
    p'.events = p.events ++ [ev] := by
  cases Attached.move h with
  | other => rfl
  | write hw => cases hw

theorem events_of_isEnqueue_eq_false {p p' : Attached.State κ} {b : Attached.Action ε}
    (hb : isEnqueue b = false) (h : Attached.step formatTime s sink p b = some p') :
    p'.events = p.events := by
  cases Attached.move h with
  | level => rfl
  | @other a env process =>
    cases a with
    | enqueue ev => cases hb
    | _ => exact List.append_nil _
  | write => rfl

/-- A longer list of names changes nothing in the event. -/
theorem event_of_longer {names names' : List Bytes} (h : names <+: names') {x : Statement}
    (hx : x.subsystem.toNat < names.length) : x.event names' = x.event names := by
  obtain ⟨more, rfl⟩ := h
  rw [Statement.event, Statement.event, List.getElem?_append_left hx]

namespace Routed

/-- The names are those of before, or more. -/
theorem frame (h : Routed minLevel st) (hevents : st'.attached.events = st.attached.events)
    (hpassing : st'.passing minLevel = st.passing minLevel)
    (hnames : Logger.names st.logger.trace <+: Logger.names st'.logger.trace) :
    Routed minLevel st' := by
  refine ⟨?_, fun x hx => ?_⟩
  · rw [hevents, h.events, hpassing]
    exact List.map_congr_left fun x hx => (event_of_longer hnames (h.named x hx)).symm
  · rw [hpassing] at hx
    exact (h.named x hx).trans_le hnames.length_le

/-- A statement that `log` enqueues passes, and one that it does not enqueue does not. -/
theorem move (h : Routed minLevel st) (hreg : Logger.Registry minLevel st.logger)
    (hs : Move minLevel formatTime s sink st a st') : Routed minLevel st' := by
  cases hs with
  | register hl => exact h.frame rfl rfl (names_grow hl)
  | setLevel hl => exact h.frame rfl rfl (names_grow hl)
  | eliminated hmin =>
    refine h.frame rfl ?_ List.prefix_rfl
    simp [State.passing, passes, hmin]
  | ignored hi _ hlevel =>
    refine h.frame rfl ?_ List.prefix_rfl
    rw [(hreg.find_eq_some.1 hi).2] at hlevel
    simp [State.passing, passes, hlevel]
  | @logged x env i ev d attached hi hmin hlevel hev _ hattached =>
    obtain ⟨hname, hlast⟩ := hreg.find_eq_some.1 hi
    rw [hlast] at hlevel
    have hpassing : State.passing minLevel ⟨{ st.logger with d }, attached,
        st.statements ++ [(x, Logger.lastLevel minLevel st.logger.trace x.subsystem)]⟩ =
          st.passing minLevel ++ [x] := by
      simp [State.passing, passes, hmin, hlevel]
    refine ⟨?_, fun y hy => ?_⟩
    · rw [hpassing, List.map_append, ← h.events, events_of_enqueue hattached, hev,
        List.map_singleton, Statement.event, hname]
      rfl
    · rw [hpassing] at hy
      rcases List.mem_append.1 hy with hy | hy
      · exact h.named y hy
      · rw [List.mem_singleton.1 hy]
        exact (List.getElem?_eq_some_iff.1 hname).1
  | attached hnot hattached =>
    exact h.frame (events_of_isEnqueue_eq_false hnot hattached) rfl List.prefix_rfl

end Routed

theorem routed_of_reachable (h : (system minLevel formatTime s sink init).Reach ok st)
    (hlen : (Logger.names st.logger.trace).length < 2 ^ 32) : Routed minLevel st := by
  refine h.invariant
    (I := fun st => (Logger.names st.logger.trace).length < 2 ^ 32 → Routed minLevel st) ?_ ?_ hlen
  · rintro st ⟨-, ⟨-, -, hevents, -⟩, hstatements⟩ -
    exact ⟨by simp [hevents, State.passing, hstatements], by simp [State.passing, hstatements]⟩
  · intro st a st' hr ih _ hs hlen'
    have hlen := (names_grow_of_step hs).length_le.trans_lt hlen'
    exact (ih hlen).move (Logger.registry_of_reach minLevel (logger_of_reach hr) hlen) (move hs)

/-- The events are those of the statements that pass, in their order, under the names that their
subsystems were registered with, and whatever the sink is offered is one of them. -/
theorem routed_of_reach (minLevel : LogLevel) (formatTime : ℤ → Bytes) (s : Stream)
    (sink : Sink κ ε) (init : κ → Prop) {st : State κ}
    (h : (system minLevel formatTime s sink init).Reachable st)
    (hlen : (Logger.names st.logger.trace).length < 2 ^ 32) :
    st.attached.events =
        (st.passing minLevel).map (Statement.event (Logger.names st.logger.trace)) ∧
      ∀ o ∈ st.attached.offers, ∃ x, (st.passing minLevel)[o.item.id]? = some x ∧
        o.item.event = stamped formatTime (x.event (Logger.names st.logger.trace)) := by
  have hrouted := routed_of_reachable h hlen
  refine ⟨hrouted.events, fun o ho => ?_⟩
  have hattached := attached_of_reach (C := fun _ _ => True) (fun _ _ _ _ _ => trivial) h
  obtain ⟨ev, hev, heq⟩ := (Attached.offered_of_reach hattached).item o ho
  rw [hrouted.events, List.getElem?_map, Option.map_eq_some_iff] at hev
  obtain ⟨x, hx, rfl⟩ := hev
  exact ⟨x, hx, heq⟩

/-! ## A statement of two subsystems -/

/-- The statement of the second subsystem is below its level, and the first one is eliminated. -/
def someStatements : List (Action Bool) :=
  [.register (ascii "example"), .register (ascii "net"), .setLevel 1 .warning,
    .statement ⟨.finest, 0, ascii "f", 0, ascii "main"⟩ true,
    .statement ⟨.info, 1, ascii "up", 0, ascii "main"⟩ true,
    .statement ⟨.info, 0, ascii "Hallo Welt.", 0, ascii "main"⟩ true]

def withAny : State Unit :=
  ⟨⟨⟨.empty, 0, []⟩, []⟩, Attached.withAny, []⟩

theorem init_withAny (minLevel : LogLevel) (formatTime : ℤ → Bytes) :
    (system minLevel formatTime 1 Attached.anySink fun _ => True).init withAny :=
  ⟨rfl, Attached.init_withAny formatTime, rfl⟩

/-- The event is offered, refused and retried. -/
def someRun : List (Action Bool) :=
  someStatements ++ (Attached.scripted retriedAtEnd).tail.map .attached

theorem routed_someRun : ∃ st : State Unit, st.attached.offers.length = 2 ∧
    st.attached.events =
        (st.passing .finer).map (Statement.event (Logger.names st.logger.trace)) ∧
      ∀ o ∈ st.attached.offers, ∃ x, (st.passing .finer)[o.item.id]? = some x ∧
        o.item.event = stamped (fun _ => []) (x.event (Logger.names st.logger.trace)) := by
  obtain ⟨st, hreach, hst⟩ := System.exists_reach
    (T := system .finer (fun _ => []) 1 Attached.anySink fun _ => True)
    (b := fun _ _ => true) (p := fun _ _ => True) (fun _ _ _ => trivial) (init_withAny _ _)
    someRun (fun st => st.attached.offers.length == 2 &&
      (Logger.names st.logger.trace).length == 2) (by decide +kernel)
  simp only [Bool.and_eq_true, beq_iff_eq] at hst
  exact ⟨st, hst.1, routed_of_reach .finer _ 1 Attached.anySink _ hreach (by omega)⟩

/-- The registrations of the stream, and the clocks of the expiry passes. -/
def RegisteredUpTo (n : String) (s : Stream) (T : ℤ) (st : State κ) : Action ε → Prop
  | .attached a => RegisteredOnce n s st.attached.process ∧ ClockUpTo T a
  | _ => RegisteredOnce n s st.attached.process

theorem RegisteredUpTo.issues {n : String} {T : ℤ} (h : RegisteredUpTo n s T st a)
    {b : Attached.Action ε}
    (hb : a.Issues b) : RegisteredOnce n s st.attached.process ∧ ClockUpTo T b := by
  obtain rfl | ⟨x, env, ev, rfl, rfl⟩ := hb
  · exact h
  · exact ⟨h, by simp [ClockUpTo, Logfile.Action.clock]⟩

theorem attached_of_registeredUpTo {n : String} {T : ℤ}
    (h : (system minLevel formatTime s sink init).Reach (RegisteredUpTo n s T) st) :
    (Attached.system formatTime s sink init).Reach
      (fun p b => RegisteredOnce n s p.process ∧ ClockUpTo T b) st.attached :=
  attached_of_reach (fun _ _ _ hok hb => hok.issues hb) h

/-- When `do_run` returns, the event of a statement that passes has been accepted. -/
theorem mem_accepted_of_returns {n : String} {T : ℤ}
    (h : (system minLevel formatTime s sink init).Reach (RegisteredUpTo n s T) st)
    (hok : RegisteredUpTo n s T st a) (hs : step minLevel formatTime s sink st a = some st')
    (hlen : (Logger.names st'.logger.trace).length < 2 ^ 32)
    (hrun : st.attached.process.log ≠ .returned) (hret : st'.attached.process.log = .returned)
    {k : ℕ} {x : Statement} (hx : (st'.passing minLevel)[k]? = some x)
    (hyoung : x.level = .severe ∧ T - x.now < 2 ^ 63 ∨ seconds (T - x.now) ≤ expiryTime x.level)
    (hkept : k ∉ dropped s st'.attached.process.trace) :
    k ∈ accepted s st'.attached.process.trace := by
  have hev : st'.attached.events[k]? = some (x.event (Logger.names st'.logger.trace)) := by
    rw [(routed_of_reachable (.step h hok hs) hlen).events, List.getElem?_map, hx, Option.map_some]
  rcases attached_step hs with heq | ⟨b, hb, hs'⟩
  · rw [heq] at hret
    exact absurd hret hrun
  · exact Attached.mem_accepted_of_returns (attached_of_registeredUpTo h) (hok.issues hb) hs' hrun
      hret hev hyoung hkept

/-- When `do_run` returns, the sink has accepted the event of every statement that passes once,
except those whose age is over at `T` and those for which no retry thread could be constructed. -/
theorem routed_of_returns (minLevel : LogLevel) (formatTime : ℤ → Bytes) (n : String) (s : Stream)
    (sink : Sink κ ε) (init : κ → Prop) (T : ℤ) {st st' : State κ} {a : Action ε}
    (h : (system minLevel formatTime s sink init).Reach (RegisteredUpTo n s T) st)
    (hok : RegisteredUpTo n s T st a)
    (hs : step minLevel formatTime s sink st a = some st')
    (hlen : (Logger.names st'.logger.trace).length < 2 ^ 32)
    (hrun : st.attached.process.log ≠ .returned) (hret : st'.attached.process.log = .returned)
    {k : ℕ} {x : Statement} (hx : (st'.passing minLevel)[k]? = some x)
    (hyoung : x.level = .severe ∧ T - x.now < 2 ^ 63 ∨ seconds (T - x.now) ≤ expiryTime x.level)
    (hkept : k ∉ dropped s st'.attached.process.trace) :
    ((st'.attached.offers.filter Offer.result).map Offer.item).count
      ⟨k, stamped formatTime (x.event (Logger.names st'.logger.trace))⟩ = 1 := by
  have hrouted := routed_of_reachable (.step h hok hs) hlen
  have hev : st'.attached.events[k]? = some (x.event (Logger.names st'.logger.trace)) := by
    rw [hrouted.events, List.getElem?_map, hx, Option.map_some]
  have hattached := attached_of_registeredUpTo (.step h hok hs)
  exact Attached.count_accepted (Attached.offered_of_reach hattached)
    (Attached.nodup_accepted (fun _ _ hok => hok.1) hattached) hev
    (mem_accepted_of_returns h hok hs hlen hrun hret hx hyoung hkept)

instance (n : String) (s : Stream) (T : ℤ) (st : State κ) :
    ∀ a : Action ε, Decidable (RegisteredUpTo n s T st a)
  | .attached a => inferInstanceAs (Decidable (RegisteredOnce n s _ ∧ ClockUpTo T a))
  | .register _ => inferInstanceAs (Decidable (RegisteredOnce n s _))
  | .setLevel _ _ => inferInstanceAs (Decidable (RegisteredOnce n s _))
  | .statement _ _ => inferInstanceAs (Decidable (RegisteredOnce n s _))

theorem routed_someRun_returns : ∃ st : State Unit, st.attached.process.log = .returned ∧
    st.attached.offers.length = 2 ∧
      ((st.attached.offers.filter Offer.result).map Offer.item).count
        ⟨0, stamped (fun _ => []) ((⟨.info, 0, ascii "Hallo Welt.", 0, ascii "main"⟩ :
          Statement).event (Logger.names st.logger.trace))⟩ = 1 := by
  obtain ⟨st, hreach, hst⟩ := System.exists_reach
    (T := system .finer (fun _ => []) 1 Attached.anySink fun _ => True)
    (b := fun st a => decide (RegisteredUpTo "stdout" 1 0 st a)) (p := RegisteredUpTo "stdout" 1 0)
    (fun _ _ => of_decide_eq_true) (init_withAny _ _) someRun
    (fun st => decide (RegisteredUpTo "stdout" 1 0 st (.attached (.process (.log true) true))) &&
      st.attached.process.log == .final &&
        (step .finer (fun _ => []) 1 Attached.anySink st
          (.attached (.process (.log true) true))).any fun st' =>
            st'.attached.process.log == .returned && st'.attached.offers.length == 2 &&
              (Logger.names st'.logger.trace).length == 2 &&
                st'.passing .finer == [⟨.info, 0, ascii "Hallo Welt.", 0, ascii "main"⟩] &&
                  dropped 1 st'.attached.process.trace == []) (by decide +kernel)
  simp only [Bool.and_eq_true, decide_eq_true_eq, beq_iff_eq, Option.any_eq_true] at hst
  obtain ⟨⟨hok, hfinal⟩, st', hstep, ⟨⟨⟨hret, hoffers⟩, hnames⟩, hpassing⟩, hdropped⟩ := hst
  refine ⟨st', hret, hoffers, routed_of_returns .finer _ "stdout" 1 Attached.anySink _ 0 hreach hok
    hstep (by omega) (by simp [hfinal]) hret (by rw [hpassing]; rfl) (Or.inr ?_)
      (by simp [hdropped])⟩
  decide

end Logfile.Routing
