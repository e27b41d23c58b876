import Logfile.ConsoleLine
import Logfile.Expiry
import Logfile.OfferOrder

/-!
# The console as a sink

`output_stream_stdout` registered with the log thread, on a stream that nobody else writes to : not
the application, and on `std::cout` no retry thread of another sink either, which prints a line when
it starts and one when it stops. `do_write` never clears the state of the stream, so after one
failure all writes fail.

While the stream is good, no write has failed, and when `do_run` returns the console shows all
events that are not below its minimum level, in the order of `enqueue` (`shown_of_returns`). Once
the write of a severe event has failed, `do_run` returns only if no retry thread could be
constructed for the event (`dropped_of_returns`).
-/

set_option linter.unusedSectionVars false

namespace Logfile

/-- `output_stream_stdout` with the state and the content of its stream, to which only `do_write`
writes. -/
structure Console where
  colors : Colors
  good : Bool
  text : Bytes

namespace Console

/-- `do_write`. The environment says whether the characters reach the device, or how many of them
before an error. -/
def doWrite (c : Console) (le : LogEvent) (outcome : Option ℕ) : Bool × Console :=
  let msg := consoleLine c.colors le
  if c.good then
    match outcome with
    | none => (true, { c with text := c.text ++ msg })
    | some k => (false, { c with good := false, text := c.text ++ msg.take k })
  else (false, c)

def sink : Sink Console (Option ℕ) :=
  ⟨doWrite⟩

/-- The constructor has returned. -/
def Constructed (c : Console) : Prop :=
  (∃ env, initColors env = .ok c.colors) ∧ c.good = true ∧ c.text = []

variable {f : TimeFormat} {s : Stream} {n : String} {st st' : Attached.State Console}
  {a : Attached.Action (Option ℕ)} {ok : Attached.State Console → Attached.Action (Option ℕ) → Prop}

/-- A stream that is good has been good before. -/
theorem good_of_step (hs : Attached.step (formatTime f) s sink st a = some st')
    (hgood : st'.sink.good = true) : st.sink.good = true := by
  cases Attached.move hs with
  | level => exact hgood
  | other => exact hgood
  | write _ hwrites =>
    cases hwrites with
    | filter => exact hgood
    | write =>
      by_contra hbad
      simp [sink, doWrite, hbad] at hgood

/-! ## A good stream -/

/-- What a good stream shows. -/
structure Shows (st : Attached.State Console) : Prop where
  text : st.sink.text =
    ((st.offers.filterMap Attached.Offer.call).map Prod.fst).flatMap (consoleLine st.sink.colors)

theorem Shows.step (h : Shows st) (hs : Attached.step (formatTime f) s sink st a = some st')
    (hgood : st'.sink.good = true) : Shows st' := by
  have hgood₀ := good_of_step hs hgood
  cases Attached.move hs with
  | level => exact ⟨h.text⟩
  | other => exact ⟨h.text⟩
  | @write _ env e _ _ _ _ hwrites =>
    cases hwrites with
    | filter =>
      refine ⟨?_⟩
      simpa [List.filterMap_append, List.filterMap_cons, Attached.Offer.call] using h.text
    | write =>
      cases env with
      | some k => simp [sink, doWrite, hgood₀] at hgood
      | none =>
        refine ⟨?_⟩
        simp [sink, doWrite, hgood₀, List.filterMap_append, Attached.Offer.call,
          h.text]

theorem shows_of_reach (h : (Attached.system (formatTime f) s sink Constructed).Reach ok st)
    (hgood : st.sink.good = true) : Shows st := by
  have hall := h.restrict hgood fun _ _ _ hs => good_of_step hs
  refine hall.invariant (fun st hi => ⟨?_⟩) fun st a st' _ hshows hok hs =>
    hshows.step hs (hok.2 st' hs)
  obtain ⟨-, ⟨-, -, htext⟩, -, hoffers⟩ := hi
  rw [htext, hoffers]
  rfl

/-- A write after which the stream is good has succeeded. -/
theorem result_of_good {env : Option ℕ} {e : Item}
    (hgood : (Attached.write sink st.minLogLevel st.sink e env).2.good = true) :
    (Attached.write sink st.minLogLevel st.sink e env).1.result = true := by
  unfold Attached.write at *
  split_ifs at * with hl
  · rfl
  · cases env with
    | none =>
      cases hbefore : st.sink.good with
      | true => simp [sink, doWrite, hbefore, Attached.Offer.result]
      | false => simp [sink, doWrite, hbefore] at hgood
    | some k => cases hbefore : st.sink.good <;> simp [sink, doWrite, hbefore] at hgood

/-- A stream that is good when `do_run` returns shows all events from its minimum level on, in the
order of `enqueue`. It is read back just if no message has the end of a line. -/
theorem shown_of_returns (f : TimeFormat) (hf : f.Numeric) (n : String) (s : Stream)
    {st st' : Attached.State Console} {a : Attached.Action (Option ℕ)}
    (h : (Attached.system (formatTime f) s sink Constructed).Reach
      (fun st _ => RegisteredOnce n s st.process) st)
    (hreg : RegisteredOnce n s st.process)
    (hs : Attached.step (formatTime f) s sink st a = some st')
    (hrun : st.process.log ≠ .returned) (hret : st'.process.log = .returned)
    (hgood : st'.sink.good = true) :
    st'.offers.map (·.item.event) = st'.events.map (stamped (formatTime f)) ∧
      st'.sink.text = st'.wanted.flatMap (consoleLine st'.sink.colors) ∧
        (readSession st'.sink.text = some (st'.wanted.map shownOf) ↔
          ∀ le ∈ st'.wanted, ¬lineEnd <:+: le.message) := by
  have hreach' : (Attached.system (formatTime f) s sink Constructed).Reach
      (fun st _ => RegisteredOnce n s st.process) st' := .step h hreg hs
  have hoffered := Attached.offered_of_reach hreach'
  have htext : st'.sink.text = st'.wanted.flatMap (consoleLine st'.sink.colors) := by
    rw [(shows_of_reach hreach' hgood).text, Attached.map_fst_calls hoffered.level,
      Attached.State.wanted]
  refine ⟨?_, htext, ?_⟩
  · have hrestrict := h.restrict (good_of_step hs hgood) fun _ _ _ hs => good_of_step hs
    have hlast : RegisteredOnce n s st.process ∧
        ∀ st'' ∈ Attached.step (formatTime f) s sink st a, st''.sink.good = true := by
      refine ⟨hreg, fun st'' hs' => ?_⟩
      obtain rfl : st' = st'' := Option.some.inj (hs.symm.trans hs')
      exact hgood
    refine Attached.offers_eq_of_returns (fun _ _ hok => hok.1)
      (fun st a env e st' _ hok hs hw => ?_)
      hrestrict hlast hs hrun hret
    refine result_of_good ?_
    rw [← Attached.sink_of_writeOn hw hs]
    exact hok.2 st' hs
  · rw [htext]
    refine readLines_iff hf (fun le hle => ?_) (length_le_flatMap _ _)
    obtain ⟨o, ho, rfl⟩ := List.mem_map.1 hle
    obtain ⟨ev, -, heq⟩ := hoffered.item o (List.mem_filter.1 ho).1
    rw [heq]
    rfl

/-! ## A stream that is not good -/

/-- After a failure the stream is not good, and a severe event whose write failed is not accepted
any more. -/
structure Refused (s : Stream) (st : Attached.State Console) : Prop where
  bad : ∀ o ∈ st.offers, o.written = some false → st.sink.good = false
  severe : ∀ o ∈ st.offers, o.written = some false → o.item.event.level = .severe →
    o.item.id ∉ accepted s st.process.trace

/-- The stream stays as it is when it is not good. -/
theorem doWrite_bad {c : Console} (h : c.good = false) (le : LogEvent) (outcome : Option ℕ) :
    c.doWrite le outcome = (false, c) := by
  simp [doWrite, h]

/-- A write after which the stream is not good has failed. -/
theorem doWrite_result (c : Console) (le : LogEvent) (outcome : Option ℕ) :
    (c.doWrite le outcome).1 = (c.doWrite le outcome).2.good := by
  unfold doWrite
  cases hgood : c.good <;> cases outcome <;> simp [hgood]

/-- The events with one number are one event. -/
theorem event_eq_of_id {e : Item} {o : Attached.Offer}
    (htracked : Attached.Tracked (formatTime f) s st) (ho : o ∈ st.offers) {p : Logfile.Action}
    (hinv : Inv st.process) (hw : st.process.writeOn s p = some e) (hid : o.item.id = e.id) :
    o.item.event = e.event := by
  obtain ⟨ev, hev, heq⟩ := htracked.offered.item o ho
  obtain ⟨ev', hev', heq'⟩ := htracked.carries.writeOn hinv hw
  rw [hid, hev'] at hev
  rw [heq, heq', Option.some.inj hev]

theorem Refused.step (h : Refused s st) (htracked : Attached.Tracked (formatTime f) s st)
    (hprocess : (Logfile.system (formatTime f)).Reach (fun p _ => RegisteredOnce n s p) st.process)
    (hreg : RegisteredOnce n s st.process)
    (hs : Attached.step (formatTime f) s sink st a = some st') : Refused s st' := by
  cases Attached.move hs with
  | level => exact ⟨h.bad, h.severe⟩
  | @other p _ process hw hp =>
    refine ⟨h.bad, fun o ho hfail hlevel => ?_⟩
    dsimp only
    rw [accepted_step hp, acceptedBy_of_writeOn_eq_none hw, List.append_nil]
    exact h.severe o ho hfail hlevel
  | @write p env e process offer k hw hwrites hp =>
    have hw' : st.process.writeOn s (p.withResult offer.result) = some e := by
      rw [writeOn_withResult, hw]
    have hacc := accepted_step (s := s) hp
    rw [State.acceptedBy, hw', result_withResult hw] at hacc
    cases hwrites with
    | filter hl =>
      refine ⟨?_, ?_⟩
      · intro o ho hfail
        rcases List.mem_append.1 ho with ho | ho
        · exact h.bad o ho hfail
        · rw [List.mem_singleton.1 ho] at hfail
          cases hfail
      · intro o ho hfail hlevel hmem
        rcases List.mem_append.1 ho with ho | ho
        · -- the event that is accepted is below the minimum level
          rw [hacc] at hmem
          rcases List.mem_append.1 hmem with hmem | hmem
          · exact h.severe o ho hfail hlevel hmem
          · have hid : e.id = o.item.id := by
              simpa [Attached.Offer.result] using hmem
            have heq := event_eq_of_id htracked ho (inv_of_reach hprocess) hw hid.symm
            rw [← heq, hlevel] at hl
            exact not_severe_lt _ hl
        · rw [List.mem_singleton.1 ho] at hfail
          cases hfail
    | write hl =>
      have hresult :
          (sink.doWrite st.sink e.event env).1 = (sink.doWrite st.sink e.event env).2.good :=
        doWrite_result _ _ _
      cases hgood : (sink.doWrite st.sink e.event env).2.good with
      | true =>
        have hgood₀ : st.sink.good = true := by
          by_contra hbad
          rw [Bool.not_eq_true] at hbad
          have hsame : sink.doWrite st.sink e.event env = (false, st.sink) := doWrite_bad hbad _ _
          rw [hsame, hbad] at hgood
          cases hgood
        -- no write has failed so far
        have hnone : ∀ o ∈ st.offers ++ [⟨e, st.minLogLevel,
            some (sink.doWrite st.sink e.event env).1⟩], o.written ≠ some false := by
          intro o ho hfail
          rcases List.mem_append.1 ho with ho | ho
          · rw [h.bad o ho hfail] at hgood₀
            cases hgood₀
          · rw [List.mem_singleton.1 ho, hresult, hgood] at hfail
            cases hfail
        exact ⟨fun o ho hfail => absurd hfail (hnone o ho),
          fun o ho hfail => absurd hfail (hnone o ho)⟩
      | false =>
        rw [hgood] at hresult
        have hsame : accepted s process.trace = accepted s st.process.trace := by
          rw [hacc, hresult]
          simp [Attached.Offer.result]
        refine ⟨fun _ _ _ => hgood, fun o ho hfail hlevel => ?_⟩
        dsimp only
        rw [hsame]
        rcases List.mem_append.1 ho with ho | ho
        · exact h.severe o ho hfail hlevel
        · rw [List.mem_singleton.1 ho]
          exact not_mem_accepted_of_writeOn hprocess hreg hw' hp

theorem refused_of_reach (hreg : ∀ st a, ok st a → RegisteredOnce n s st.process)
    (h : (Attached.system (formatTime f) s sink Constructed).Reach ok st) : Refused s st := by
  refine h.invariant (fun st hi => ?_) fun st a st' hr href hok hs =>
    href.step (Attached.tracked_of_reach hr) (Attached.process_of_reach hreg hr) (hreg st a hok) hs
  obtain ⟨-, -, -, hoffers⟩ := hi
  exact ⟨by simp [hoffers], by simp [hoffers]⟩

/-- When `do_run` returns, a severe event whose write failed was dropped, since no retry thread
could be constructed for it. -/
theorem dropped_of_returns (f : TimeFormat) (n : String) (s : Stream) (T : ℤ)
    {st st' : Attached.State Console} {a : Attached.Action (Option ℕ)}
    (h : (Attached.system (formatTime f) s sink Constructed).Reach
      (fun st a => RegisteredOnce n s st.process ∧ Attached.ClockUpTo T a) st)
    (hok : RegisteredOnce n s st.process ∧ Attached.ClockUpTo T a)
    (hs : Attached.step (formatTime f) s sink st a = some st')
    (hrun : st.process.log ≠ .returned) (hret : st'.process.log = .returned)
    {o : Attached.Offer} (ho : o ∈ st'.offers) (hfail : o.written = some false)
    (hlevel : o.item.event.level = .severe) (hage : T - o.item.event.time < 2 ^ 63) :
    o.item.id ∈ dropped s st'.process.trace := by
  have h' : (Attached.system (formatTime f) s sink Constructed).Reach
      (fun st a => RegisteredOnce n s st.process ∧ Attached.ClockUpTo T a) st' := .step h hok hs
  have hoffered := Attached.offered_of_reach h'
  obtain ⟨ev, hev, heq⟩ := hoffered.item o ho
  rw [heq] at hlevel hage
  rcases Attached.settled_of_return h hok hs (fun _ _ hok => hok.1) hrun hret hev with
    hacc | hexp | hdrop
  · refine absurd hacc ((refused_of_reach (fun _ _ hok => hok.1) h').severe o ho hfail ?_)
    rw [heq]
    exact hlevel
  · obtain ⟨ev', hev', hold⟩ := Attached.old_of_reach (fun _ _ hok => hok.2) h' s _ hexp
    obtain rfl : ev' = ev := Option.some.inj (hev'.symm.trans hev)
    have hnot : ev'.expired T = false := not_expired_severe hlevel hage
    rw [hnot] at hold
    cases hold
  · exact hdrop

/-! ## A good and a bad device -/

/-- The only stream is a console with 256 colours. -/
def withConsole : Attached.State Console :=
  ⟨.start (OrdMap.empty.emplace "stdout" 1), .finest, ⟨.dark256, true, []⟩, [], []⟩

theorem init_withConsole :
    (Attached.system (formatTime newYear) 1 sink Constructed).init withConsole := by
  have hterm : initColors ⟨some ⟨ascii "xterm-256color", by decide⟩, none⟩ = .ok .dark256 := rfl
  exact ⟨Logfile.State.initial_start _, ⟨⟨_, hterm⟩, rfl, rfl⟩, rfl, rfl⟩

/-- The events are logged, and then `do_run` looks for retry threads. -/
def session (outcome : Option ℕ) (events : List LogEvent) (as : List Logfile.Action) :
    List (Attached.Action (Option ℕ)) :=
  (events.map Logfile.Action.enqueue ++ Logfile.Action.terminate :: as).map (.process · outcome)

theorem shown_boldEvent : ∃ st : Attached.State Console, st.process.log = .returned ∧
    st.offers.map (·.item.event) = st.events.map (stamped (formatTime newYear)) ∧
      st.events.length = 2 ∧
        readSession st.sink.text = some [shownOf boldEvent, shownOf boldEvent] := by
  obtain ⟨st, hreach, hst⟩ := System.exists_reach
    (T := Attached.system (formatTime newYear) 1 sink Constructed)
    (b := fun st _ => decide (RegisteredOnce "stdout" 1 st.process))
    (p := fun st _ => RegisteredOnce "stdout" 1 st.process) (fun _ _ => of_decide_eq_true)
    init_withConsole (session none [boldEvent, boldEvent] (List.replicate 10 (.log true)))
    (fun st => decide (RegisteredOnce "stdout" 1 st.process) && st.process.log == .final &&
      (Attached.step (formatTime newYear) 1 sink st (.process (.log true) none)).any fun st' =>
        st'.process.log == .returned && st'.sink.good && st'.events.length == 2 &&
          st'.wanted == [boldEvent, boldEvent]) (by decide +kernel)
  simp only [Bool.and_eq_true, decide_eq_true_eq, beq_iff_eq, Option.any_eq_true] at hst
  obtain ⟨⟨hreg, hfinal⟩, st', hstep, ⟨⟨hret, hgood⟩, hlen⟩, hwanted⟩ := hst
  obtain ⟨hoffers, -, hread⟩ :=
    shown_of_returns newYear newYear_numeric "stdout" 1 hreach hreg hstep
    (by simp [hfinal]) hret hgood
  rw [hwanted] at hread
  exact ⟨st', hret, hoffers, hlen, hread.2 (by decide)⟩

theorem dropped_boldEvent : ∃ st : Attached.State Console, st.process.log = .returned ∧
    st.sink.good = false ∧ 0 ∈ dropped 1 st.process.trace := by
  obtain ⟨st, hreach, hst⟩ := System.exists_reach
    (T := Attached.system (formatTime newYear) 1 sink Constructed)
    (b := fun st a => decide (RegisteredOnce "stdout" 1 st.process ∧ Attached.ClockUpTo 0 a))
    (p := fun st a => RegisteredOnce "stdout" 1 st.process ∧ Attached.ClockUpTo 0 a)
    (fun _ _ => of_decide_eq_true) init_withConsole
    (session (some 3) [{ boldEvent with level := .severe }] (List.replicate 8 (.log false)))
    (fun st => decide (RegisteredOnce "stdout" 1 st.process) && st.process.log == .final &&
      (Attached.step (formatTime newYear) 1 sink st (.process (.log true) none)).any fun st' =>
        st'.process.log == .returned && !st'.sink.good &&
          st'.offers == [⟨⟨0, { boldEvent with level := .severe }⟩, .finest, some false⟩])
    (by decide +kernel)
  simp only [Bool.and_eq_true, decide_eq_true_eq, beq_iff_eq, Option.any_eq_true,
    Bool.not_eq_true'] at hst
  obtain ⟨⟨hreg, hfinal⟩, st', hstep, ⟨hret, hbad⟩, hoffers⟩ := hst
  refine ⟨st', hret, hbad, ?_⟩
  exact dropped_of_returns newYear "stdout" 1 0 hreach
    ⟨hreg, by simp [Attached.ClockUpTo, Logfile.Action.clock]⟩ hstep (by simp [hfinal]) hret
    (by rw [hoffers]; exact List.mem_singleton_self _) rfl rfl (by decide)

end Console

end Logfile
