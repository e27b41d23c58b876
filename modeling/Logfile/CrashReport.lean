import Logfile.LineSplitter
import Logfile.Routing
import Logfile.ShutdownEnds

/-!
# The report of a crash

`signal_handler` logs the signal and the output of gdb, which a `line_splitter` cuts into lines, or
the symbols of the stack if gdb fails. Then it waits in `logger::terminate` for `do_run`, so that
nothing of the report is lost.

The handler runs in a thread of the application, and the other threads go on. The child process
with gdb is what `read` gets from it. When `do_run` returns, the sink has accepted the lines of the
report in their order, unless a retry thread could not be constructed for one of them
(`reported_of_returns`). All of them are severe, so no level stands in their way, and they do not
expire.
-/

set_option linter.unusedSectionVars false

namespace Logfile.CrashReport

open Text

/-! ## What is reported -/

/-- What the handler finds : the chunks that `read` gets from gdb, if there is a pipe, the result
of `waitpid`, and the symbols of the stack, if the system has `backtrace_symbols`. -/
structure Crash where
  signal : ℤ
  output : Option (List Bytes)
  succeeded : Bool
  symbols : Option (List Bytes)

/-- `gdb_backtrace`, with the lines that the sink of its `line_splitter` gets. -/
def gdbBacktrace (c : Crash) : Option (Bool × List Bytes) :=
  match c.output with
  | none => some (false, [])
  | some bufs =>
    (LineSplitter.new.readAll (bufs.map some)).map fun ls => (c.succeeded, ls.destroy.sink)

/-- `"SIGNAL " << _sig << " received."` -/
def received (signal : ℤ) : Bytes :=
  ascii "SIGNAL " ++ toDecInt signal ++ ascii " received."

/-- The messages of `signal_handler`. -/
def messages (c : Crash) : Option (List Bytes) :=
  (gdbBacktrace c).map fun (ok, lines) =>
    received c.signal ::
      (lines ++ if ok then [] else c.symbols.getD [ascii "No backtrace available."])

/-- The signal and the lines of what gdb has written, whatever `read` made of it. -/
def report (c : Crash) : List Bytes :=
  received c.signal :: ((c.output.elim [] fun bufs => LineSplitter.linesOf bufs.flatten) ++
    if c.output.isSome && c.succeeded then []
    else c.symbols.getD [ascii "No backtrace available."])

theorem messages_eq (c : Crash) : messages c = some (report c) := by
  obtain ⟨signal, output, succeeded, symbols⟩ := c
  cases output with
  | none => rfl
  | some bufs =>
    have hgdb : gdbBacktrace ⟨signal, some bufs, succeeded, symbols⟩ =
        some (succeeded, LineSplitter.linesOf bufs.flatten) := by
      simp [gdbBacktrace, LineSplitter.readAll_eq, LineSplitter.sink_destroy, Function.comp_def]
    simp [messages, hgdb, report]

/-! ## The handler and the logger -/

/-- Where the handler is. -/
inductive Handler
  | idle
  /-- before `SuS_LOG`, with the messages that are left -/
  | logs (rest : List Bytes)
  /-- in `log_thread::join` -/
  | joins
  deriving DecidableEq

structure State (κ : Type*) where
  routing : Routing.State κ
  handler : Handler
  crash : Option Crash

inductive Action (ε : Type*)
  | signal (c : Crash)
  /-- the next message of the handler -/
  | log (now : ℤ) (function : Bytes) (env : ε)
  /-- `logger::terminate` -/
  | terminate (env : ε)
  | other (a : Routing.Action ε)

variable {κ ε : Type*}

/-- One step. `logId` is the handle of the subsystem of the logger. -/
def step (minLevel : LogLevel) (formatTime : ℤ → Bytes) (s : Stream) (sink : Sink κ ε)
    (logId : UInt32) (st : State κ) : Action ε → Option (State κ)
  | .signal c =>
    match st.handler with
    | .idle => (messages c).map fun ms => { st with handler := .logs ms, crash := some c }
    | _ => none
  | .log now function env =>
    match st.handler with
    | .logs (m :: rest) =>
      (Routing.step minLevel formatTime s sink st.routing
        (.statement ⟨.severe, logId, m, now, function⟩ env)).map fun routing =>
          { st with routing, handler := .logs rest }
    | _ => none
  | .terminate env =>
    match st.handler with
    | .logs [] =>
      (Routing.step minLevel formatTime s sink st.routing
        (.attached (.process .terminate env))).map fun routing =>
          { st with routing, handler := .joins }
    | _ => none
  | .other a =>
    (Routing.step minLevel formatTime s sink st.routing a).map fun routing =>
      { st with routing }

def system (minLevel : LogLevel) (formatTime : ℤ → Bytes) (s : Stream) (sink : Sink κ ε)
    (logId : UInt32) (init : κ → Prop) : System (State κ) (Action ε) where
  init st := (Routing.system minLevel formatTime s sink init).init st.routing ∧
    st.handler = .idle ∧ st.crash = none
  step := step minLevel formatTime s sink logId

/-- The rules of `step`. -/
inductive Move (minLevel : LogLevel) (formatTime : ℤ → Bytes) (s : Stream) (sink : Sink κ ε)
    (logId : UInt32) (st : State κ) : Action ε → State κ → Prop
  | signal {c} : st.handler = .idle → Move minLevel formatTime s sink logId st (.signal c)
      { st with handler := .logs (report c), crash := some c }
  | log {m rest now function env routing} : st.handler = .logs (m :: rest) →
      Routing.step minLevel formatTime s sink st.routing
        (.statement ⟨.severe, logId, m, now, function⟩ env) = some routing →
      Move minLevel formatTime s sink logId st (.log now function env)
        { st with routing, handler := .logs rest }
  | terminate {env routing} : st.handler = .logs [] →
      Routing.step minLevel formatTime s sink st.routing
        (.attached (.process .terminate env)) = some routing →
      Move minLevel formatTime s sink logId st (.terminate env)
        { st with routing, handler := .joins }
  | other {a routing} : Routing.step minLevel formatTime s sink st.routing a = some routing →
      Move minLevel formatTime s sink logId st (.other a) { st with routing }

variable {minLevel : LogLevel} {formatTime : ℤ → Bytes} {s : Stream} {sink : Sink κ ε}
  {logId : UInt32} {init : κ → Prop} {st st' : State κ} {a : Action ε}
  {ok : State κ → Action ε → Prop}

theorem move (h : step minLevel formatTime s sink logId st a = some st') :
    Move minLevel formatTime s sink logId st a st' := by
  cases a with
  | signal c =>
    rw [step] at h
    split at h
    · next hidle =>
      rw [messages_eq, Option.map_some, Option.some.injEq] at h
      rw [← h]
      exact .signal hidle
    · cases h
  | log now function env =>
    rw [step] at h
    split at h
    · next m rest hlogs =>
      obtain ⟨routing, hr, rfl⟩ := Option.map_eq_some_iff.1 h
      exact .log hlogs hr
    · cases h
  | terminate env =>
    rw [step] at h
    split at h
    · next hlogs =>
      obtain ⟨routing, hr, rfl⟩ := Option.map_eq_some_iff.1 h
      exact .terminate hlogs hr
    · cases h
  | other a =>
    rw [step] at h
    obtain ⟨routing, hr, rfl⟩ := Option.map_eq_some_iff.1 h
    exact .other hr

/-! ## The end of `do_run` -/

/-- The log thread has seen the request for termination. -/
def ending : LogPc → Bool
  | .scan .. | .scanJoin .. | .final | .returned => true
  | _ => false

theorem ending_visit (p : Logfile.State) (e : Item) (rest : List Item)
    (o : Option (String × Logfile.Stream)) : ending (p.visit e rest o).log = false := by
  cases o <;> rfl

theorem ending_bodyMove {p p' : Logfile.State} {e : Item} {rest : List Item} {n : String}
    {s : Logfile.Stream} {pc : BodyPc} (hlog : p.log = .body e rest n s pc)
    (hs : BodyMove p e rest n s pc p') : ending p'.log = false := by
  cases hs with
  | crash => exact congrArg ending hlog
  | enqueue | accept | drop | emplace => exact ending_visit ..
  | _ => rfl

theorem ending_logMove {p p' : Logfile.State} {pc : LogPc} (hlog : p.log = pc)
    (hs : LogMove formatTime p pc p') (h : ending pc = true → p.doTerminate = true)
    (hend : ending p'.log = true) : p.doTerminate = true := by
  cases hs with
  | crash =>
    rw [← hlog] at h
    exact h hend
  | scan hterm => exact hterm
  | take =>
    rw [ending_visit] at hend
    cases hend
  | body _ hmove =>
    rw [ending_bodyMove hlog hmove] at hend
    cases hend
  | scanned | scanBusy | scanIdle | scanJoin | finish => exact h rfl
  | _ => cases hend

theorem doTerminate_step {p p' : Logfile.State} {b : Logfile.Action}
    (hs : Logfile.step formatTime p b = some p') :
    p'.doTerminate = p.doTerminate ∨ b = .terminate := by
  cases Logfile.move hs with
  | terminate => exact Or.inr rfl
  | log hmove => exact Or.inl hmove.doTerminate
  | retry _ hmove => cases hmove <;> exact Or.inl rfl
  | _ => exact Or.inl rfl

theorem ending_of_reach {okp : Logfile.State → Logfile.Action → Prop} {p : Logfile.State}
    (h : (Logfile.system formatTime).Reach okp p) (hend : ending p.log = true) :
    p.doTerminate = true := by
  refine h.invariant (I := fun p => ending p.log = true → p.doTerminate = true)
    (fun p hi hend => ?_) (fun p b p' _ ih _ hs hend => ?_) hend
  · rw [hi.log] at hend
    cases hend
  · cases Logfile.move hs with
    | terminate => rfl
    | notify hpc =>
      rcases hpc with ⟨-, rfl⟩ | ⟨-, rfl⟩
      · cases hend
      · exact ih hend
    | log hmove => exact hmove.doTerminate.trans (ending_logMove rfl hmove ih hend)
    | retry _ hmove => cases hmove <;> exact ih hend
    | _ => exact ih hend

/-! ## Lists and positions -/

theorem filterMap_getElem?_range {α : Type*} : ∀ l : List α,
    (List.range l.length).filterMap (l[·]?) = l
  | [] => rfl
  | a :: l => by
    rw [List.length_cons, List.range_succ_eq_map, List.filterMap_cons, List.filterMap_map]
    simp [filterMap_getElem?_range l]

/-- The entries that are among the given positions, in the order of these. -/
theorem filter_sublist_of_mem {α : Type*} {l : List α} {q : α → Bool} {ks : List ℕ}
    (hks : ks.Sublist (List.range l.length))
    (hmem : ∀ k x, l[k]? = some x → q x → k ∈ ks) :
    (l.filter q).Sublist (ks.filterMap (l[·]?)) := by
  have hfilter : l.filter q =
      ((List.range l.length).filter fun k => l[k]?.any q).filterMap (l[·]?) := by
    conv_lhs => rw [← filterMap_getElem?_range l, List.filter_filterMap]
    rw [List.filterMap_filter]
    refine List.filterMap_congr fun k _ => ?_
    cases l[k]? with
    | none => simp
    | some x => by_cases hq : q x <;> simp [hq]
  have hsub : ((List.range l.length).filter fun k => l[k]?.any q).Sublist ks := by
    refine List.sublist_of_subperm_of_pairwise (r := (· ≤ ·))
      (List.subperm_of_subset ?_ fun k hk => ?_) ?_ ?_
    · exact List.nodup_range.filter _
    · obtain ⟨-, hk⟩ := List.mem_filter.1 hk
      obtain ⟨x, hx, hq⟩ := (Option.any_eq_true _ _).1 hk
      exact hmem k x hx hq
    · exact List.pairwise_le_range.filter _
    · exact List.pairwise_le_range.sublist hks
  rw [hfilter]
  exact hsub.filterMap _

/-! ## What the handler has logged -/

/-- The messages that are left. -/
def Handler.rest : Handler → List Bytes
  | .logs rest => rest
  | _ => []

/-- The statement is severe, and its age can be told. -/
def Urgent (T : ℤ) (x : Routing.Statement) : Prop :=
  x.level = .severe ∧ T - x.now < 2 ^ 63

/-- The first messages are among the statements that pass, in their order. -/
def Logged (minLevel : LogLevel) (T : ℤ) (st : State κ) (c : Crash) : Prop :=
  ∃ xs : List Routing.Statement, xs.Sublist (st.routing.passing minLevel) ∧
    (∀ x ∈ xs, Urgent T x) ∧ xs.map Routing.Statement.message ++ st.handler.rest = report c

/-- `do_run` is told to end when everything is logged. -/
structure Reported (minLevel : LogLevel) (T : ℤ) (st : State κ) : Prop where
  logged : st.handler ≠ .idle → ∃ c, st.crash = some c ∧ Logged minLevel T st c
  terminate : st.routing.attached.process.doTerminate = true → st.handler = .joins

/-- The action requests the end of `do_run`. -/
def terminates : Attached.Action ε → Bool
  | .process .terminate _ => true
  | _ => false

def isTerminate : Routing.Action ε → Bool
  | .attached a => terminates a
  | _ => false

/-- The registrations of the stream, and the clocks. Only the handler calls `terminate`. -/
def Watched (n : String) (s : Logfile.Stream) (T : ℤ) (st : State κ) : Action ε → Prop
  | .other a => Routing.RegisteredUpTo n s T st.routing a ∧ isTerminate a = false
  | .log now _ _ => RegisteredOnce n s st.routing.attached.process ∧ T - now < 2 ^ 63
  | _ => RegisteredOnce n s st.routing.attached.process

variable {n : String} {T : ℤ}

/-- The registry and the threads make no step, or one of their own. -/
theorem routing_step (hok : Watched n s T st a)
    (hs : step minLevel formatTime s sink logId st a = some st') : st'.routing = st.routing ∨
      ∃ b, Routing.RegisteredUpTo n s T st.routing b ∧
        Routing.step minLevel formatTime s sink st.routing b = some st'.routing := by
  cases move hs with
  | signal => exact Or.inl rfl
  | log _ hr =>
    refine Or.inr ⟨_, ?_, hr⟩
    exact hok.1
  | terminate _ hr =>
    refine Or.inr ⟨_, ?_, hr⟩
    exact ⟨hok, by simp [Attached.ClockUpTo, Logfile.Action.clock]⟩
  | other hr => exact Or.inr ⟨_, hok.1, hr⟩

theorem routing_of_reach
    (h : (system minLevel formatTime s sink logId init).Reach (Watched n s T) st) :
    (Routing.system minLevel formatTime s sink init).Reach (Routing.RegisteredUpTo n s T)
      st.routing := by
  refine h.project (fun st hi => .init hi.1) fun st a st' _ _ hok hs => ?_
  rcases routing_step hok hs with heq | ⟨b, hb, hs⟩
  · rw [heq]
    exact .refl
  · exact .single hb hs

theorem doTerminate_attached {p p' : Attached.State κ} {b : Attached.Action ε}
    (hb : terminates b = false) (hs : Attached.step formatTime s sink p b = some p') :
    p'.process.doTerminate = p.process.doTerminate := by
  cases Attached.move hs with
  | level => rfl
  | @other b env process _ hp =>
    refine (doTerminate_step hp).resolve_right ?_
    rintro rfl
    cases hb
  | @write b env e process offer k hw _ hp =>
    refine (doTerminate_step hp).resolve_right fun heq => ?_
    cases b with
    | log | retry => cases heq
    | _ => cases hw

theorem doTerminate_routing {r r' : Routing.State κ} {b : Routing.Action ε}
    (hb : isTerminate b = false)
    (hs : Routing.step minLevel formatTime s sink r b = some r') :
    r'.attached.process.doTerminate = r.attached.process.doTerminate := by
  rcases Routing.attached_step hs with heq | ⟨b', hissues, hs⟩
  · rw [heq]
  · refine doTerminate_attached ?_ hs
    obtain rfl | ⟨x, env, ev, rfl, rfl⟩ := hissues
    · exact hb
    · rfl

theorem Logged.mono {c : Crash} (h : Logged minLevel T st c)
    (hpassing : st.routing.passing minLevel <+: st'.routing.passing minLevel)
    (hrest : st'.handler.rest = st.handler.rest) : Logged minLevel T st' c := by
  obtain ⟨xs, hsub, hurgent, hxs⟩ := h
  exact ⟨xs, hsub.trans hpassing.sublist, hurgent, by rw [hrest, hxs]⟩

theorem Reported.move (h : Reported minLevel T st) (hok : Watched n s T st a)
    (hs : Move minLevel formatTime s sink logId st a st') : Reported minLevel T st' := by
  cases hs with
  | @signal c hidle =>
    refine ⟨fun _ => ⟨c, rfl, [], List.nil_sublist _, by simp, rfl⟩, fun hterm => ?_⟩
    rw [h.terminate hterm] at hidle
    cases hidle
  | @log m rest now function env routing hlogs hr =>
    obtain ⟨c, hc, xs, hsub, hurgent, hxs⟩ := h.logged (by simp [hlogs])
    have hpassing := Routing.passing_of_severe rfl hr
    refine ⟨fun _ => ⟨c, hc, xs ++ [⟨.severe, logId, m, now, function⟩], ?_, ?_, ?_⟩,
      fun hterm => ?_⟩
    · rw [hpassing]
      exact hsub.append (List.Sublist.refl _)
    · intro x hx
      rcases List.mem_append.1 hx with hx | hx
      · exact hurgent x hx
      · rw [List.mem_singleton.1 hx]
        exact ⟨rfl, hok.2⟩
    · rw [hlogs, Handler.rest] at hxs
      rw [← hxs]
      simp [Handler.rest]
    · rw [doTerminate_routing rfl hr] at hterm
      rw [h.terminate hterm] at hlogs
      cases hlogs
  | @terminate env routing hlogs hr =>
    obtain ⟨c, hc, hlogged⟩ := h.logged (by simp [hlogs])
    refine ⟨fun _ => ⟨c, hc, hlogged.mono (Routing.passing_grows hr) ?_⟩, fun _ => rfl⟩
    rw [hlogs]
    rfl
  | other hr =>
    refine ⟨fun hidle => ?_, fun hterm => ?_⟩
    · obtain ⟨c, hc, hlogged⟩ := h.logged hidle
      exact ⟨c, hc, hlogged.mono (Routing.passing_grows hr) rfl⟩
    · rw [doTerminate_routing hok.2 hr] at hterm
      exact h.terminate hterm

theorem reported_of_reach
    (h : (system minLevel formatTime s sink logId init).Reach (Watched n s T) st) :
    Reported minLevel T st := by
  refine h.invariant (fun st hi => ?_) fun st a st' _ hrep hok hs => hrep.move hok (move hs)
  obtain ⟨⟨-, ⟨hprocess, -⟩, -⟩, hidle, -⟩ := hi
  exact ⟨fun hne => absurd hidle hne, by simp [hprocess.doTerminate]⟩

/-! ## What the sink gets -/

instance (T : ℤ) (x : Routing.Statement) : Decidable (Urgent T x) :=
  inferInstanceAs (Decidable (_ ∧ _))

/-- The messages that the sink has accepted. -/
def accepted (offers : List Attached.Offer) : List Bytes :=
  (offers.filter Attached.Offer.result).map (·.item.event.message)

/-- What is accepted are the messages of the statements with these numbers. -/
theorem accepted_eq {r : Routing.State κ} (hrouted : Routing.Routed minLevel r)
    (hoffered : Attached.Offered formatTime s r.attached) :
    accepted r.attached.offers =
      ((Logfile.accepted s r.attached.process.trace).filterMap ((r.passing minLevel)[·]?)).map
        Routing.Statement.message := by
  rw [hoffered.accepted, List.filterMap_map, List.map_filterMap, accepted,
    ← List.filterMap_eq_map]
  refine List.filterMap_congr fun o ho => ?_
  obtain ⟨ev, hev, heq⟩ := hoffered.item o (List.mem_filter.1 ho).1
  rw [hrouted.events, List.getElem?_map, Option.map_eq_some_iff] at hev
  obtain ⟨x, hx, rfl⟩ := hev
  simp only [Function.comp_apply, hx, Option.map_some, heq]
  rfl

/-- When `do_run` returns, the handler has logged the signal and what gdb has written, and the sink
has accepted all lines of it in their order, unless a retry thread could not be constructed for a
severe statement. -/
theorem reported_of_returns (minLevel : LogLevel) (formatTime : ℤ → Bytes) (n : String)
    (s : Logfile.Stream) (sink : Sink κ ε) (logId : UInt32) (init : κ → Prop) (T : ℤ)
    {st st' : State κ} {a : Action ε}
    (h : (system minLevel formatTime s sink logId init).Reach (Watched n s T) st)
    (hok : Watched n s T st a)
    (hs : step minLevel formatTime s sink logId st a = some st')
    (hlen : (Logger.names st'.routing.logger.trace).length < 2 ^ 32)
    (hrun : st.routing.attached.process.log ≠ .returned)
    (hret : st'.routing.attached.process.log = .returned)
    (hkept : ∀ k x, (st'.routing.passing minLevel)[k]? = some x → x.level = .severe →
      k ∉ dropped s st'.routing.attached.process.trace) :
    ∃ c, st'.crash = some c ∧ (report c).Sublist (accepted st'.routing.attached.offers) := by
  have h' : (system minLevel formatTime s sink logId init).Reach (Watched n s T) st' :=
    .step h hok hs
  have hrouting := routing_of_reach h'
  have hattached := Routing.attached_of_registeredUpTo hrouting
  have hprocess := Attached.process_of_reach (C := RegisteredOnce n s) (fun _ _ hok => hok.1)
    hattached
  have hrep := reported_of_reach h'
  -- only the handler has requested the end
  have hjoins : st'.handler = .joins :=
    hrep.terminate (ending_of_reach hprocess (by rw [hret]; rfl))
  obtain ⟨c, hc, xs, hsub, hurgent, hxs⟩ := hrep.logged (by simp [hjoins])
  rw [hjoins, show Handler.joins.rest = [] from rfl, List.append_nil] at hxs
  refine ⟨c, hc, ?_⟩
  have hrouted := Routing.routed_of_reachable hrouting hlen
  have hoffered := Attached.offered_of_reach hattached
  have hmem : ∀ k x, (st'.routing.passing minLevel)[k]? = some x → decide (Urgent T x) = true →
      k ∈ Logfile.accepted s st'.routing.attached.process.trace := by
    intro k x hx hq
    have hq := of_decide_eq_true hq
    rcases routing_step hok hs with heq | ⟨b, hb, hs⟩
    · rw [heq] at hret
      exact absurd hret hrun
    · exact Routing.mem_accepted_of_returns (routing_of_reach h) hb hs hlen hrun hret hx
        (Or.inl hq) (hkept k x hx hq.1)
  have hlength : (st'.routing.passing minLevel).length = st'.routing.attached.process.count := by
    rw [hoffered.count, hrouted.events, List.length_map]
  have hchan := channel_of_reach hprocess
  have hids : (Logfile.accepted s st'.routing.attached.process.trace).Sublist
      (List.range (st'.routing.passing minLevel).length) := by
    rw [hlength]
    exact (List.sublist_append_left _ _).trans hchan.sublist
  have hurgent' : xs.filter (fun x => decide (Urgent T x)) = xs :=
    List.filter_eq_self.2 fun x hx => decide_eq_true (hurgent x hx)
  rw [accepted_eq hrouted hoffered, ← hxs, ← hurgent']
  exact ((hsub.filter _).trans (filter_sublist_of_mem hids hmem)).map _

instance (n : String) (s : Logfile.Stream) (T : ℤ) (st : State κ) :
    ∀ a : Action ε, Decidable (Watched n s T st a)
  | .other a => inferInstanceAs (Decidable (Routing.RegisteredUpTo n s T _ a ∧ _ = _))
  | .log now _ _ => inferInstanceAs (Decidable (RegisteredOnce n s _ ∧ T - now < 2 ^ 63))
  | .signal _ => inferInstanceAs (Decidable (RegisteredOnce n s _))
  | .terminate _ => inferInstanceAs (Decidable (RegisteredOnce n s _))

/-- gdb writes two lines, which are read in three chunks. -/
def someCrash : Crash where
  signal := 11
  output := some [ascii "#0 main", ascii " ()\n#1 _st", ascii "art ()"]
  succeeded := true
  symbols := none

example : report someCrash =
    [ascii "SIGNAL 11 received.", ascii "#0 main ()", ascii "#1 _start ()"] := by
  decide

def withAny : State Unit :=
  ⟨Routing.withAny, .idle, none⟩

/-- The other threads go on. -/
def others (as : List Logfile.Action) : List (Action Bool) :=
  (Attached.scripted as).map fun a => .other (.attached a)

/-- The sink refuses the first line. A retry thread delivers all of them. -/
def crashRun : List (Action Bool) :=
  [[.other (.register (ascii "logger")), .signal someCrash], List.replicate 3 (.log 0 [] true),
    others (List.replicate 3 (.log true) ++ .log false :: List.replicate 11 (.log true)),
    [.terminate true], others (List.replicate 4 (.log true)),
    others (List.replicate 15 (.retry 0 true 0)), others (List.replicate 8 (.log true))].flatten

theorem reported_crashRun : ∃ st : State Unit, st.routing.attached.process.log = .returned ∧
    (st.routing.attached.offers.map fun o => o.result) = [false, true, true, true] ∧
      ∃ c, st.crash = some c ∧ (report c).Sublist (accepted st.routing.attached.offers) := by
  obtain ⟨st, hreach, hst⟩ := System.exists_reach
    (T := system .finest (fun _ => []) 1 Attached.anySink 0 fun _ => True)
    (b := fun st a => decide (Watched "stdout" 1 0 st a)) (p := Watched "stdout" 1 0)
    (fun _ _ => of_decide_eq_true) (s := withAny) ⟨Routing.init_withAny _ _, rfl, rfl⟩ crashRun
    (fun st => decide (Watched "stdout" 1 0 st
        (.other (.attached (.process (.log true) true)))) &&
      st.routing.attached.process.log == .final &&
        (step .finest (fun _ => []) 1 Attached.anySink 0 st
          (.other (.attached (.process (.log true) true)))).any fun st' =>
            st'.routing.attached.process.log == .returned &&
              (st'.routing.attached.offers.map fun o => o.result) == [false, true, true, true] &&
                (Logger.names st'.routing.logger.trace).length == 1 &&
                  dropped 1 st'.routing.attached.process.trace == []) (by decide +kernel)
  simp only [Bool.and_eq_true, decide_eq_true_eq, beq_iff_eq, Option.any_eq_true] at hst
  obtain ⟨⟨hok, hfinal⟩, st', hstep, ⟨⟨hret, hoffers⟩, hnames⟩, hdropped⟩ := hst
  exact ⟨st', hret, hoffers, reported_of_returns .finest _ "stdout" 1 Attached.anySink 0 _ 0 hreach
    hok hstep (by omega) (by simp [hfinal]) hret (by simp [hdropped])⟩

end Logfile.CrashReport
