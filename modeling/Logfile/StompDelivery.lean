import Logfile.Expiry
import Logfile.Receipts

/-!
# Delivery to the STOMP server

A STOMP stream registered with the log thread. `write` enters `do_write`, which takes any number of
steps of the stream's own threads, of the network and of the server, between which the other threads
of the process go on; when `do_write` returns, so does `write`.

The process and the sessions make runs of their own (`attached_of_reach`, `session_of_reach`), so
what is known of each holds here. An event that was accepted has arrived at the server
(`arrived_of_reach`), and when `do_run` returns, all events have that the stream was to get, except
those whose age is over and those for which no retry thread could be constructed
(`arrived_of_returns`).
-/

set_option linter.unusedSectionVars false

namespace Logfile

/-! ## Results of `do_write` -/

namespace Stomp

/-- The event that `do_write` is called with. -/
def WriterPc.job : WriterPc → Option LogEvent
  | idle => none
  | connect job _ => job
  | send le | lock le _ | wait le _ | take le _ | close le _ | clear le _ => some le

/-- The calls of `do_write` that have returned. -/
def returned (tr : List Obs) : List (Option ℕ × LogEvent × Bool) :=
  tr.filterMap fun
    | .returned call le result => some (call, le, result)
    | _ => none

/-- What `do_write` returned last. -/
def State.lastResult (st : State) : Option Bool :=
  (returned st.trace).getLast?.map fun r => r.2.2

section Returns

variable {p : StompParams} {st st' : State} {a : Action}

theorem returned_append (tr tr' : List Obs) :
    returned (tr ++ tr') = returned tr ++ returned tr' :=
  List.filterMap_append

theorem returned_closed (i : Option ℕ) (o : Option ℕ) :
    returned (o.toList.map (.closed i)) = [] := by
  cases o <;> rfl

theorem mem_returned {call : Option ℕ} {le : LogEvent} {result : Bool} {tr : List Obs} :
    (call, le, result) ∈ returned tr ↔ .returned call le result ∈ tr := by
  simp only [returned, List.mem_filterMap]
  constructor
  · rintro ⟨o, ho, heq⟩
    cases o with
    | returned call' le' result' =>
      obtain ⟨rfl, rfl, rfl⟩ : call' = call ∧ le' = le ∧ result' = result := by simpa using heq
      exact ho
    | _ => cases heq
  · exact fun ho => ⟨_, ho, rfl⟩

/-- `do_write` goes on, or it returns. -/
inductive Progress (st st' : State) : Prop
  | goes : st'.writer.job = st.writer.job → (st.writer = .idle → st'.writer = .idle) →
      returned st'.trace = returned st.trace → Progress st st'
  | returns {call le result} : st.writer.job = some le → st'.writer = .idle →
      returned st'.trace = returned st.trace ++ [(call, le, result)] → Progress st st'

theorem progress_connectReturns (st : State) {job : Option LogEvent} {pc : CallPc} {result : Bool}
    (hw : st.writer = .connect job pc) : Progress st (st.connectReturns job result) := by
  cases job with
  | none => exact .goes (by rw [hw]; rfl) (fun _ => rfl) (by simp [State.connectReturns])
  | some le =>
    cases result with
    | true => exact .goes (by rw [hw]; rfl) (by simp [hw]) (by simp [State.connectReturns])
    | false => exact .returns (by rw [hw]; rfl) rfl (returned_append _ _)

theorem progress_returns {st₀ : State} {call : Option ℕ} {le : LogEvent} {result : Bool}
    (hjob : st.writer.job = some le) (hret : returned st₀.trace = returned st.trace) :
    Progress st (st₀.returns call le result) := by
  have htrace : returned (st₀.returns call le result).trace =
      returned st.trace ++ [(call, le, result)] := by
    rw [← hret]
    exact returned_append _ _
  exact .returns hjob rfl htrace

theorem progress_writerMove (hs : WriterMove p st st.writer st') : Progress st st' := by
  generalize hw : st.writer = pc at hs
  cases hs with
  | connect hmove =>
    cases hmove with
    | connected => exact progress_connectReturns st hw
    | trying => exact progress_connectReturns st hw
    | retest => exact progress_connectReturns st hw
    | spawn =>
      have hspawn : (st.gotoConnect .open).writer = _ := hw
      cases @progress_connectReturns (st.gotoConnect .open) _ _ false hspawn with
      | goes hjob hidle hret => exact .goes hjob hidle hret
      | returns hjob hidle hret => exact .returns hjob hidle hret
    | joinNone => exact .goes rfl id rfl
    | spawnJoinable => exact .goes rfl id rfl
    | _ => exact .goes (by rw [hw]; rfl) (by simp [hw]) rfl
  | @send le conns written =>
    exact .goes (by rw [hw]; cases written <;> rfl) (by simp [hw]) rfl
  | take hq hv =>
    cases hv with
    | drop =>
      exact .goes (by rw [hw]; rfl) (by simp [hw])
        (by simp [State.observe, State.gotoWriter, returned])
    | returns => exact progress_returns (by rw [hw]; rfl) (by simp [State.observe, returned])
  | close =>
    refine .goes (by rw [hw]; rfl) (by simp [hw]) ?_
    simp [State.disconnect, State.gotoWriter, returned_append, returned_closed]
  | clear => exact .returns (by rw [hw]; rfl) rfl (returned_append _ _)
  | takeNone => exact .goes rfl id rfl
  | _ => exact .goes (by rw [hw]; rfl) (by simp [hw]) rfl

/-- A step other than a call. -/
theorem progress_move (ha : ∀ le, a ≠ .call le) (hs : Move p st a st') : Progress st st' := by
  cases hs with
  | @call le => exact absurd rfl (ha le)
  | writer hmove => exact progress_writerMove hmove
  | connect hpc hmove =>
    cases hmove with
    | @take k reply origin replyQueue st' hq hg =>
      cases hg <;>
        exact .goes rfl id (by simp [State.observe, State.gotoConnect, returned])
    | close =>
      exact .goes rfl id
        (by simp [State.disconnect, State.gotoConnect, returned_append, returned_closed])
    | _ => exact .goes rfl id rfl
  | reader hrd hmove =>
    cases hmove <;> first
      | exact .goes rfl id rfl
      | exact .goes rfl id (by simp [State.disconnect, State.gotoReader, State.observe,
          State.modifyConn, returned])
  | _ => exact .goes rfl id rfl

theorem Progress.prefix (h : Progress st st') : returned st.trace <+: returned st'.trace := by
  cases h with
  | goes _ _ hret => rw [hret]
  | returns _ _ hret =>
    rw [hret]
    exact List.prefix_append _ _

theorem outgoing_incoming_of_reach {f : TimeFormat} (hpath : 10 ∉ p.url.path ∧ 0 ∉ p.url.path)
    (hconnect : ConnectClean p)
    (h : (system p).Reach (fun st a => Fair f st a ∧ SendFits p st a) st) :
    Outgoing p st ∧ Incoming p st := by
  refine h.invariant (I := fun st => Outgoing p st ∧ Incoming p st) ?_
    fun st a st' hr ⟨hout, hin⟩ ⟨⟨hhonest, hwhole, htime⟩, hsize⟩ hs => ⟨?_, ?_⟩
  · rintro _ rfl
    exact ⟨outgoing_start p, nofun, nofun, nofun, nofun⟩
  · refine hout.move (control_of_reach hr) hpath.2 hconnect.length ?_ hsize (move hs)
    rintro le rfl
    rw [of_decide_eq_true htime]
    exact nul_not_mem_formatTime f le.time
  · exact hin.move hout hpath.1 hconnect hhonest hwhole (move hs)

end Returns

end Stomp

/-! ## The process and the sessions -/

namespace StompSink

structure State where
  process : Logfile.State
  minLogLevel : LogLevel
  session : Stomp.State
  /-- the event that a thread is in `do_write` with, and the minimum level that `write` has read -/
  busy : Option (Item × LogLevel)
  events : List LogEvent
  offers : List Attached.Offer

inductive Action
  /-- a step of the process outside of `do_write` -/
  | process (a : Logfile.Action)
  /-- `write` calls `do_write` -/
  | enter (a : Logfile.Action)
  /-- a step of the stream's threads, of the network or of the server -/
  | session (b : Stomp.Action)
  /-- `do_write` returns, and `write` -/
  | leave (a : Logfile.Action)
  /-- `output_stream::set_min_log_level` -/
  | setMinLogLevel (level : LogLevel)

/-- The action is a step of the stream's threads, of the network or of the server. -/
def internal : Stomp.Action → Bool
  | .call _ => false
  | _ => true

/-- One step. No two threads are in `write` of one stream. -/
def step (formatTime : ℤ → Bytes) (s : Stream) (p : StompParams) (st : State) :
    Action → Option State
  | .process a =>
    match st.process.writeOn s a with
    | none => (Logfile.step formatTime st.process a).map fun process =>
        { st with process, events := st.events ++ a.enqueues }
    | some e =>
      if st.busy = none ∧ e.event.level < st.minLogLevel then
        (Logfile.step formatTime st.process (a.withResult true)).map fun process =>
          { st with process, offers := st.offers ++ [⟨e, st.minLogLevel, none⟩] }
      else none
  | .enter a =>
    match st.process.writeOn s a with
    | none => none
    | some e =>
      if st.process.crashed = false ∧ st.busy = none ∧ ¬e.event.level < st.minLogLevel then
        (Stomp.step p st.session (.call e.event)).map fun session =>
          { st with session, busy := some (e, st.minLogLevel) }
      else none
  | .session b =>
    if internal b then (Stomp.step p st.session b).map fun session => { st with session }
    else none
  | .leave a =>
    match st.busy, st.session.lastResult with
    | some (e, level), some result =>
      if st.process.writeOn s a = some e ∧ st.session.writer = .idle then
        (Logfile.step formatTime st.process (a.withResult result)).map fun process =>
          { st with process, busy := none, offers := st.offers ++ [⟨e, level, some result⟩] }
      else none
    | _, _ => none
  | .setMinLogLevel level => some { st with minLogLevel := level }

/-- The log thread starts, with a stream that has just been constructed. -/
def system (formatTime : ℤ → Bytes) (s : Stream) (p : StompParams) : System State Action where
  init st := st.process.Initial ∧ st.session = .start ∧ st.busy = none ∧ st.events = [] ∧
    st.offers = []
  step := step formatTime s p

/-- The rules of `step`. -/
inductive Move (formatTime : ℤ → Bytes) (s : Stream) (p : StompParams) (st : State) :
    Action → State → Prop
  | other {a process} : st.process.writeOn s a = none →
      Logfile.step formatTime st.process a = some process →
      Move formatTime s p st (.process a) { st with process, events := st.events ++ a.enqueues }
  | filter {a e process} : st.process.writeOn s a = some e → st.busy = none →
      e.event.level < st.minLogLevel →
      Logfile.step formatTime st.process (a.withResult true) = some process →
      Move formatTime s p st (.process a)
        { st with process, offers := st.offers ++ [⟨e, st.minLogLevel, none⟩] }
  | enter {a e session} : st.process.writeOn s a = some e → st.busy = none →
      ¬e.event.level < st.minLogLevel →
      Stomp.step p st.session (.call e.event) = some session →
      Move formatTime s p st (.enter a) { st with session, busy := some (e, st.minLogLevel) }
  | session {b session} : internal b = true → Stomp.step p st.session b = some session →
      Move formatTime s p st (.session b) { st with session }
  | leave {a e level result process} : st.busy = some (e, level) →
      st.session.lastResult = some result → st.process.writeOn s a = some e →
      st.session.writer = .idle →
      Logfile.step formatTime st.process (a.withResult result) = some process →
      Move formatTime s p st (.leave a)
        { st with process, busy := none, offers := st.offers ++ [⟨e, level, some result⟩] }
  | level {level} : Move formatTime s p st (.setMinLogLevel level) { st with minLogLevel := level }

variable {formatTime : ℤ → Bytes} {s : Stream} {p : StompParams} {st st' : State} {a : Action}
  {ok : State → Action → Prop}

theorem move (h : step formatTime s p st a = some st') : Move formatTime s p st a st' := by
  cases a with
  | process a =>
    simp only [step] at h
    split at h
    · next hw =>
      obtain ⟨process, hp, rfl⟩ := Option.map_eq_some_iff.1 h
      exact .other hw hp
    · next e hw =>
      rw [Option.ite_none_right_eq_some] at h
      obtain ⟨⟨hbusy, hl⟩, h⟩ := h
      obtain ⟨process, hp, rfl⟩ := Option.map_eq_some_iff.1 h
      exact .filter hw hbusy hl hp
  | enter a =>
    simp only [step] at h
    split at h
    · cases h
    · next e hw =>
      rw [Option.ite_none_right_eq_some] at h
      obtain ⟨⟨-, hbusy, hl⟩, h⟩ := h
      obtain ⟨session, hsession, rfl⟩ := Option.map_eq_some_iff.1 h
      exact .enter hw hbusy hl hsession
  | session b =>
    rw [step, Option.ite_none_right_eq_some] at h
    obtain ⟨session, hsession, rfl⟩ := Option.map_eq_some_iff.1 h.2
    exact .session h.1 hsession
  | leave a =>
    simp only [step] at h
    split at h
    · next e level result hbusy hresult =>
      rw [Option.ite_none_right_eq_some] at h
      obtain ⟨⟨hw, hidle⟩, h⟩ := h
      obtain ⟨process, hp, rfl⟩ := Option.map_eq_some_iff.1 h
      exact .leave hbusy hresult hw hidle hp
    · cases h
  | setMinLogLevel level =>
    obtain rfl := Option.some.inj h
    exact .level

/-! ## The process in it -/

/-- The same process with a stream about which nothing is known. -/
structure Matches (st : State) (t : Attached.State Unit) : Prop where
  process : t.process = st.process
  events : t.events = st.events
  offers : t.offers = st.offers

/-- The clock of an expiry pass shows at most `T`. -/
def ClockUpTo (T : ℤ) : Action → Prop
  | .process a => ∀ now ∈ a.clock, now ≤ T
  | .leave a => ∀ now ∈ a.clock, now ≤ T
  | _ => True

/-- The level that a thread in `do_write` has read is not above that of the event. -/
def Entered (st : State) : Prop :=
  ∀ e level, st.busy = some (e, level) → ¬e.event.level < level

theorem entered_of_reach (h : (system formatTime s p).Reach ok st) : Entered st := by
  refine h.invariant (fun st hi e level hbusy => ?_) fun st a st' _ hent _ hs => ?_
  · rw [hi.2.2.1] at hbusy
    cases hbusy
  · cases move hs with
    | enter _ _ hl =>
      rintro _ _ ⟨⟩
      exact hl
    | leave => rintro _ _ ⟨⟩
    | _ => exact hent

/-- A step leaves the process alone, or is one of the process, after a change of the minimum
level. -/
theorem attached_step {t : Attached.State Unit} {T : ℤ} (hmatch : Matches st t)
    (hent : Entered st) (hclock : ClockUpTo T a) (hs : step formatTime s p st a = some st') :
    Matches st' t ∨ ∃ level b t', Attached.ClockUpTo T b ∧
      Attached.step formatTime s Attached.anySink { t with minLogLevel := level } b = some t' ∧
        Matches st' t' := by
  obtain ⟨hprocess, hevents, hoffers⟩ := hmatch
  cases move hs with
  | @other a process hw hp =>
    refine Or.inr ⟨t.minLogLevel, .process a false,
      { t with process, events := t.events ++ a.enqueues }, hclock, ?_, rfl,
      by rw [hevents], hoffers⟩
    simp only [Attached.step, hprocess, hw, hp, Option.map_some]
  | @filter a e process hw _ hl hp =>
    refine Or.inr ⟨st.minLogLevel, .process a false,
      ⟨process, st.minLogLevel, (), t.events, t.offers ++ [⟨e, st.minLogLevel, none⟩]⟩, hclock,
      ?_, rfl, hevents, by rw [hoffers]⟩
    simp only [Attached.step, hprocess, hw, Attached.write, if_pos hl, Attached.Offer.result,
      Option.getD_none, hp, Option.map_some]
  | @leave a e level result process hbusy _ hw _ hp =>
    have hl := hent e level hbusy
    refine Or.inr ⟨level, .process a result,
      ⟨process, level, (), t.events, t.offers ++ [⟨e, level, some result⟩]⟩, hclock, ?_, rfl,
      hevents, by rw [hoffers]⟩
    simp only [Attached.step, hprocess, hw, Attached.write, if_neg hl, Attached.anySink,
      Attached.Offer.result, Option.getD_some, hp, Option.map_some]
  | _ => exact Or.inl ⟨hprocess, hevents, hoffers⟩

/-- The process makes a run of its own, in which the stream may do anything. -/
theorem attached_of_reach {C : Logfile.State → Prop} {T : ℤ}
    (hok : ∀ st a, ok st a → C st.process ∧ ClockUpTo T a)
    (h : (system formatTime s p).Reach ok st) : ∃ t,
      (Attached.system formatTime s Attached.anySink fun _ => True).Reach
        (fun st a => C st.process ∧ Attached.ClockUpTo T a) t ∧ Matches st t := by
  refine h.follow (fun st hi => ?_) fun st a st' t hr _ hmatch hoka hs => ?_
  · exact ⟨⟨st.process, .finest, (), st.events, st.offers⟩, .init ⟨hi.1, trivial, hi.2.2.2⟩, rfl,
      rfl, rfl⟩
  · obtain ⟨hC, hclock⟩ := hok st a hoka
    rcases attached_step hmatch (entered_of_reach hr) hclock hs with hsame |
      ⟨level, b, t', hb, hstep, hmatch'⟩
    · exact ⟨t, .refl, hsame⟩
    · have hCt : C t.process := hmatch.process ▸ hC
      exact ⟨t', .tail (.single ⟨.setMinLogLevel level, ⟨hCt, trivial⟩, rfl⟩)
        ⟨b, ⟨hCt, hb⟩, hstep⟩, hmatch'⟩

/-! ## The sessions in it -/

/-- The stream is registered under one name, the clocks show at most `T`, and what is assumed of the
server and the network. -/
def Fair (n : String) (s : Stream) (p : StompParams) (T : ℤ) (st : State) (a : Action) : Prop :=
  (RegisteredOnce n s st.process ∧ ClockUpTo T a) ∧ ∀ b, a = .session b →
    Stomp.serverHonest st.session b = true ∧ Stomp.framesWhole st.session b = true ∧
      Stomp.SendFits p st.session b

section Sessions

variable {f : TimeFormat} {n : String} {T : ℤ}

/-- The sessions make a run of their own. -/
theorem session_of_reach (h : (system (Logfile.formatTime f) s p).Reach (Fair n s p T) st) :
    (Stomp.system p).Reach (fun st a => Stomp.Fair f st a ∧ Stomp.SendFits p st a) st.session := by
  refine h.project (fun st hi => .init hi.2.1) fun st a st' hr _ hok hs => ?_
  cases move hs with
  | @enter a e session hw _ _ hstep =>
    obtain ⟨t, ht, hmatch⟩ := attached_of_reach (fun _ _ hok => hok.1) hr
    have hinv : Inv t.process :=
      inv_of_reach (Attached.process_of_reach (C := fun _ => True) (fun _ _ _ => trivial) ht)
    have hw' : t.process.writeOn s a = some e := by rw [hmatch.process, hw]
    have hknown := (Attached.tracked_of_reach ht).carries.writeOn hinv hw'
    obtain ⟨ev, -, heq⟩ := hknown
    have htime : e.event.timeString = Logfile.formatTime f e.event.time := by
      rw [heq]
      rfl
    exact .single (b := .call e.event) ⟨⟨rfl, rfl, decide_eq_true htime⟩, nofun⟩ hstep
  | @session b session hb hstep =>
    obtain ⟨hhonest, hwhole, hsize⟩ := hok.2 b rfl
    have htime : Stomp.timeFormatted f b = true := by
      cases b with
      | call => cases hb
      | _ => rfl
    exact .single ⟨⟨hhonest, hwhole, htime⟩, hsize⟩ hstep
  | _ => exact .refl

/-- `do_write` is busy with the event that is written, and what it has returned is the result of the
offer. -/
structure Served (st : State) : Prop where
  idle : st.busy = none → st.session.writer.job = none
  busy : ∀ e level, st.busy = some (e, level) → st.session.writer.job = some e.event ∨
    st.session.writer = .idle ∧ ∃ call result,
      (Stomp.returned st.session.trace).getLast? = some (call, e.event, result)
  offers : ∀ o ∈ st.offers, o.written = some true →
    ∃ call, (call, o.item.event, true) ∈ Stomp.returned st.session.trace

theorem Served.session (h : Served st) {session : Stomp.State}
    (hp : Stomp.Progress st.session session) : Served { st with session } := by
  refine ⟨fun hbusy => ?_, fun e level hbusy => ?_, fun o ho hw => ?_⟩
  · cases hp with
    | goes hjob _ _ => exact hjob.trans (h.idle hbusy)
    | returns hjob =>
      rw [h.idle hbusy] at hjob
      cases hjob
  · rcases h.busy e level hbusy with hjob | ⟨hidle, call, result, hlast⟩
    · cases hp with
      | goes hjob' => exact Or.inl (hjob'.trans hjob)
      | @returns call le result hjob' hidle hret =>
        obtain rfl : e.event = le := Option.some.inj (hjob.symm.trans hjob')
        exact Or.inr ⟨hidle, call, result, by simp [hret]⟩
    · cases hp with
      | goes _ hidle' hret =>
        exact Or.inr ⟨hidle' hidle, call, result, by rw [← hlast, ← hret]⟩
      | returns hjob =>
        rw [hidle] at hjob
        cases hjob
  · obtain ⟨call, hmem⟩ := h.offers o ho hw
    exact ⟨call, hp.prefix.subset hmem⟩

theorem Served.move (h : Served st) (hs : Move formatTime s p st a st') : Served st' := by
  cases hs with
  | other => exact ⟨h.idle, h.busy, h.offers⟩
  | filter =>
    refine ⟨h.idle, h.busy, fun o ho hw => ?_⟩
    rcases List.mem_append.1 ho with ho | ho
    · exact h.offers o ho hw
    · rw [List.mem_singleton.1 ho] at hw
      cases hw
  | @enter a e session hw hbusy _ hstep =>
    cases Stomp.move hstep with
    | call =>
      refine ⟨nofun, ?_, h.offers⟩
      rintro _ _ ⟨⟩
      exact Or.inl rfl
  | session hb hstep =>
    refine h.session (Stomp.progress_move ?_ (Stomp.move hstep))
    rintro le rfl
    cases hb
  | @leave a e level result process hbusy hresult hw hidle hp =>
    refine ⟨fun _ => by rw [hidle]; rfl, nofun, fun o ho hwritten => ?_⟩
    rcases List.mem_append.1 ho with ho | ho
    · exact h.offers o ho hwritten
    · rw [List.mem_singleton.1 ho] at hwritten ⊢
      rcases h.busy e level hbusy with hjob | ⟨-, call, result', hlast⟩
      · rw [hidle] at hjob
        cases hjob
      · rw [Stomp.State.lastResult, hlast, Option.map_some, Option.some.injEq] at hresult
        have htrue : result' = true := hresult.trans (Option.some.inj hwritten)
        rw [htrue] at hlast
        exact ⟨call, List.mem_of_getLast? hlast⟩
  | level => exact ⟨h.idle, h.busy, h.offers⟩

theorem calls_served_of_reach (h : (system formatTime s p).Reach ok st) : Served st := by
  refine h.invariant (fun st hi => ?_) fun st a st' _ hserved _ hs => hserved.move (move hs)
  obtain ⟨-, hsession, hbusy, -, hoffers⟩ := hi
  refine ⟨fun _ => by rw [hsession]; rfl, ?_, by simp [hoffers]⟩
  rw [hbusy]
  nofun

/-! ## What has arrived -/

theorem arrived_of_offer (hpath : 10 ∉ p.url.path ∧ 0 ∉ p.url.path)
    (hconnect : Stomp.ConnectClean p)
    (h : (system (Logfile.formatTime f) s p).Reach (Fair n s p T) st)
    (hcalls : st.session.calls < 2 ^ 32) {o : Attached.Offer} (ho : o ∈ st.offers)
    (hw : o.written = some true) : ∃ m, Stomp.Confirmed p st.session m o.item.event := by
  obtain ⟨call, hmem⟩ := (calls_served_of_reach h).offers o ho hw
  obtain ⟨-, hin⟩ := Stomp.outgoing_incoming_of_reach hpath hconnect (session_of_reach h)
  obtain ⟨m, -, hconfirmed⟩ := hin.returned hcalls call o.item.event (Stomp.mem_returned.1 hmem)
  exact ⟨m, hconfirmed⟩

/-- An event for which `do_write` returned true has arrived at the server. -/
theorem arrived_of_reach (p : StompParams) (f : TimeFormat) (n : String) (s : Stream) (T : ℤ)
    (hpath : 10 ∉ p.url.path ∧ 0 ∉ p.url.path) (hconnect : Stomp.ConnectClean p) {st : State}
    (h : (system (Logfile.formatTime f) s p).Reach (Fair n s p T) st)
    (hcalls : st.session.calls < 2 ^ 32) : ∀ o ∈ st.offers, o.written = some true →
      (∃ ev, st.events[o.item.id]? = some ev ∧
        o.item.event = stamped (Logfile.formatTime f) ev) ∧
      ∃ m, Stomp.Confirmed p st.session m o.item.event := by
  intro o ho hw
  obtain ⟨t, ht, hmatch⟩ := attached_of_reach (fun _ _ hok => hok.1) h
  refine ⟨?_, arrived_of_offer hpath hconnect h hcalls ho hw⟩
  rw [← hmatch.events]
  exact (Attached.offered_of_reach ht).item o (hmatch.offers ▸ ho)

/-- Steps of the stream's threads, of the network and of the server. -/
def sessions (bs : List Stomp.Action) : List Action :=
  bs.map .session

/-- `n` steps of the log thread. -/
def logs (n : ℕ) : List Action :=
  List.replicate n (.process (.log true))

/-- The stream connects, and the only event of a process that ends is written. -/
def sentAtEnd : List Action :=
  sessions (Stomp.firstConnect ++ .deliver 0 2000 :: .serve 0 Stomp.greeting :: Stomp.reads 0 9 ++
    Stomp.connects 5) ++
    [.process (.enqueue someEvent), .process .terminate] ++ logs 3 ++ [.enter (.log true)] ++
    sessions (Stomp.writes 3 ++ .deliver 0 2000 :: .serve 0 Stomp.firstReceipt ::
      Stomp.reads 0 7 ++ Stomp.writes 2) ++
    [.leave (.log true)] ++ logs 3

def withStomp : State :=
  ⟨.start (OrdMap.empty.emplace "stomp" 1), .finest, .start, none, [], []⟩

def fair (n : String) (s : Stream) (p : StompParams) (T : ℤ) (st : State) (a : Action) : Bool :=
  decide (RegisteredOnce n s st.process) &&
    match a with
    | .process a | .leave a => a.clock.all fun now => now ≤ T
    | .session b => Stomp.fair st.session b && Stomp.sendFits p st.session b
    | _ => true

theorem fair_of {a : Action} (h : fair n s p T st a = true) : Fair n s p T st a := by
  obtain ⟨hreg, h⟩ := Bool.and_eq_true_iff.1 h
  refine ⟨⟨of_decide_eq_true hreg, ?_⟩, ?_⟩
  · cases a with
    | process | leave =>
      intro now hnow
      exact of_decide_eq_true ((Option.all_eq_true _ _).1 h now hnow)
    | _ => trivial
  · rintro b rfl
    obtain ⟨hfair, hsize⟩ := Bool.and_eq_true_iff.1 h
    obtain ⟨hhonest, hwhole, -⟩ := Stomp.fair_of hfair
    exact ⟨hhonest, hwhole, Stomp.sendFits_of hsize⟩

/-- The event has been written and the log thread is about to return. -/
def sentFirst (st : State) : Bool :=
  st.process.log == .final && decide (RegisteredOnce "stomp" 1 st.process) &&
    decide (st.session.calls < 2 ^ 32) && st.events == [someEvent] &&
    st.offers.map (fun o => (o.item.id, o.minLogLevel, o.written)) == [(0, .finest, some true)]

theorem exists_sentAtEnd : ∃ st,
    (system (Logfile.formatTime Stomp.someTime) 1 Stomp.someParams).Reach
      (Fair "stomp" 1 Stomp.someParams 0) st ∧ (sentFirst st &&
        (step (Logfile.formatTime Stomp.someTime) 1 Stomp.someParams st (.process (.log true))).any
          fun st' => st'.process.log == .returned && decide (st'.session.calls < 2 ^ 32) &&
            st'.events == [someEvent] && dropped 1 st'.process.trace == [] &&
            st'.offers.all fun o => decide (¬someEvent.level < o.minLogLevel)) = true :=
  System.exists_reach
    (T := system (Logfile.formatTime Stomp.someTime) 1 Stomp.someParams)
    (b := fair "stomp" 1 Stomp.someParams 0)
    (p := Fair "stomp" 1 Stomp.someParams 0) (fun _ _ => fair_of)
    (s := withStomp) ⟨State.initial_start _, rfl, rfl, rfl, rfl⟩ sentAtEnd _ (by decide +kernel)

theorem arrived_sentAtEnd_running : ∃ st : State,
    st.offers.map (·.written) = [some true] ∧
    ∃ m, Stomp.Confirmed Stomp.someParams st.session m
      (stamped (Logfile.formatTime Stomp.someTime) someEvent) := by
  obtain ⟨st, hreach, hst⟩ := exists_sentAtEnd
  simp only [sentFirst, Bool.and_eq_true, beq_iff_eq, decide_eq_true_eq] at hst
  obtain ⟨⟨⟨⟨-, hcalls⟩, hevents⟩, hoffers⟩, -⟩ := hst
  obtain ⟨o, ho, hfields⟩ : ∃ o, st.offers = [o] ∧
      (o.item.id, o.minLogLevel, o.written) = (0, .finest, some true) := by
    simpa [List.map_eq_singleton_iff] using hoffers
  obtain ⟨hid, -, hwritten⟩ : o.item.id = 0 ∧ o.minLogLevel = .finest ∧ o.written = some true := by
    simpa using hfields
  obtain ⟨⟨ev, hev, heq⟩, m, hconfirmed⟩ := arrived_of_reach Stomp.someParams Stomp.someTime
    "stomp" 1 0 (by decide) ⟨by decide, by decide⟩ hreach hcalls o (by simp [ho]) hwritten
  rw [hid, hevents] at hev
  obtain rfl : someEvent = ev := Option.some.inj hev
  exact ⟨st, by simp [ho, hwritten], m, heq ▸ hconfirmed⟩

/-- When `do_run` returns, every event has arrived at the server that was not below the minimum
level of the stream when it was offered, except those whose age is over at `T` and those for which
no retry thread could be constructed. -/
theorem arrived_of_returns (p : StompParams) (f : TimeFormat) (n : String) (s : Stream) (T : ℤ)
    (hpath : 10 ∉ p.url.path ∧ 0 ∉ p.url.path) (hconnect : Stomp.ConnectClean p)
    {st st' : State} {a : Action}
    (h : (system (Logfile.formatTime f) s p).Reach (Fair n s p T) st) (hok : Fair n s p T st a)
    (hs : step (Logfile.formatTime f) s p st a = some st')
    (hrun : st.process.log ≠ .returned) (hret : st'.process.log = .returned)
    (hcalls : st'.session.calls < 2 ^ 32) {id : ℕ} {ev : LogEvent}
    (hev : st'.events[id]? = some ev)
    (hyoung : ev.level = .severe ∧ T - ev.time < 2 ^ 63 ∨
      seconds (T - ev.time) ≤ expiryTime ev.level)
    (hlevel : ∀ o ∈ st'.offers, o.item.id = id → ¬ev.level < o.minLogLevel)
    (hkept : id ∉ dropped s st'.process.trace) :
    ∃ m, Stomp.Confirmed p st'.session m (stamped (Logfile.formatTime f) ev) := by
  have h' : (system (Logfile.formatTime f) s p).Reach (Fair n s p T) st' := .step h hok hs
  obtain ⟨t, ht, hmatch⟩ := attached_of_reach (fun _ _ hok => hok.1) h
  rcases attached_step hmatch (entered_of_reach h) hok.1.2 hs with hsame |
    ⟨level, b, t', hb, hstep, hmatch'⟩
  · have hsame : st'.process = st.process := hsame.process.symm.trans hmatch.process
    exact absurd (hsame ▸ hret) hrun
  have hreg : RegisteredOnce n s t.process := hmatch.process ▸ hok.1.1
  have hlevelok : ∀ level, RegisteredOnce n s t.process ∧
      Attached.ClockUpTo T (.setMinLogLevel level : Attached.Action Bool) :=
    fun _ => ⟨hreg, trivial⟩
  have ht₁ : (Attached.system (Logfile.formatTime f) s Attached.anySink fun _ => True).Reach
      (fun st a => RegisteredOnce n s st.process ∧ Attached.ClockUpTo T a)
        { t with minLogLevel := level } :=
    .step ht (hlevelok level) rfl
  have hev' : t'.events[id]? = some ev := by rw [hmatch'.events, hev]
  have haccepted := Attached.mem_accepted_of_returns ht₁ ⟨hreg, hb⟩ hstep
    (by rw [hmatch.process]; exact hrun) (by rw [hmatch'.process]; exact hret) hev' hyoung
    (by rw [hmatch'.process]; exact hkept)
  have hoffered := Attached.offered_of_reach (.step ht₁ ⟨hreg, hb⟩ hstep)
  obtain ⟨o, ho, hres, hitem⟩ := Attached.exists_offer_of_accepted hoffered hev' haccepted
  have hevent : o.item.event = stamped (Logfile.formatTime f) ev := by rw [hitem]
  have ho' : o ∈ st'.offers := hmatch'.offers ▸ ho
  have hwritten : o.written = some true := by
    cases hw : o.written with
    | none =>
      have hlow := (hoffered.level o ho).1 hw
      rw [hevent] at hlow
      exact absurd hlow (hlevel o ho' (by rw [hitem]))
    | some result =>
      rw [Attached.Offer.result, hw, Option.getD_some] at hres
      rw [hres]
  rw [← hevent]
  exact arrived_of_offer hpath hconnect h' hcalls ho' hwritten

theorem arrived_sentAtEnd : ∃ st' : State, st'.process.log = .returned ∧
    ∃ m, Stomp.Confirmed Stomp.someParams st'.session m
      (stamped (Logfile.formatTime Stomp.someTime) someEvent) := by
  obtain ⟨st, hreach, hst⟩ := exists_sentAtEnd
  simp only [sentFirst, Bool.and_eq_true, beq_iff_eq, decide_eq_true_eq, Option.any_eq_true,
    List.all_eq_true] at hst
  obtain ⟨⟨⟨⟨⟨hfinal, hreg⟩, -⟩, -⟩, -⟩, st', hstep, ⟨⟨⟨hret, hcalls⟩, hevents⟩, hdropped⟩,
    hlevel⟩ := hst
  have hok : Fair "stomp" 1 Stomp.someParams 0 st (.process (.log true)) :=
    ⟨⟨hreg, by simp [ClockUpTo, Logfile.Action.clock]⟩, nofun⟩
  have hev : st'.events[0]? = some someEvent := by rw [hevents]; rfl
  refine ⟨st', hret, arrived_of_returns Stomp.someParams Stomp.someTime "stomp" 1 0 (by decide)
    ⟨by decide, by decide⟩ hreach hok hstep (by simp [hfinal]) hret hcalls hev (Or.inr ?_)
    (fun o ho _ => hlevel o ho) (by simp [hdropped])⟩
  decide

end Sessions

end StompSink

end Logfile
