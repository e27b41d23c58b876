import Logfile.FileChronicle
import Logfile.NoFailure

/-!
# From `enqueue` to the log files

A file stream registered with the log thread, in runs in which no file operation fails and no
two archivings have one name. Then no write fails either, and at any time the files are read
back as the events offered so far, without those below the minimum level of the stream
(`files_of_reach`). When `do_run` has returned and the stream is destroyed, these are all events
that were enqueued, in the order of `enqueue` (`files_of_shutdown`).
-/

namespace Logfile

open Xml

namespace FileStream

/-- `output_stream_file::do_write` of a constructed stream. -/
def sink (p : FileParams) : Sink State WriteEnv where
  doWrite st le env :=
    let (ok, st') := st.doWrite p le env
    (ok, { st' with calls := st.calls ++ [(le, ok)] })

/-- The constructor has returned, and no operation in it failed. -/
def Constructed (p : FileParams) (st : State) : Prop :=
  ∃ st₀ env, st₀.Initial ∧ env.Succeeds ∧ step p st₀ (.construct env) = some st

/-- If the action gets to `do_write`, no operation in it fails and an archive has a new name. -/
def Undisturbed (p : FileParams) (s : Stream) (st : Attached.State State) :
    Attached.Action WriteEnv → Prop
  | .process a env => ∀ e ∈ st.process.writeOn s a, e.event.level < st.minLogLevel ∨
      env.Succeeds ∧ NewName p st.sink (.write e.event env)
  | .setMinLogLevel _ => True

/-- The system of a process and a file stream that is registered under one name. -/
def Filed (p : FileParams) (f : TimeFormat) (n : String) (s : Stream) :
    Attached.State State → Prop :=
  (Attached.system (formatTime f) s (sink p) (Constructed p)).Reach fun st a =>
    RegisteredOnce n s st.process ∧ Undisturbed p s st a

/-! ## The stream in it -/

variable {p : FileParams} {f : TimeFormat} {n : String} {s : Stream} {st st' : Attached.State State}

/-- The file stream makes a run of its own, with the calls that the offers have made. -/
structure Part (p : FileParams) (st : Attached.State State) : Prop where
  reach : (system p).Reach (fun st a => Succeeds a ∧ NewName p st a) st.sink
  alive : st.sink.phase = .alive
  calls : st.sink.calls = st.offers.filterMap Attached.Offer.call

theorem part_init (h : (Attached.system (formatTime f) s (sink p) (Constructed p)).init st) :
    Part p st := by
  obtain ⟨-, ⟨st₀, env, hinit, henv, hstep⟩, -, hoffers⟩ := h
  have hok : Succeeds (.construct env) ∧ NewName p st₀ (.construct env) := ⟨henv, by rintro _ ⟨⟩⟩
  have hcalls : st.sink.calls = [] ∧ st.sink.phase = .alive := by
    simp only [step, hinit.phase, if_true, Option.some.injEq] at hstep
    rw [← hstep]
    exact ⟨(State.sameCalls_openLog env).calls.trans hinit.calls, rfl⟩
  refine ⟨.step (.init hinit) hok hstep, hcalls.2, ?_⟩
  rw [hcalls.1, hoffers]
  rfl

/-- `do_write` is a step of the file stream. -/
theorem step_write (halive : st.sink.phase = .alive) (le : LogEvent) (env : WriteEnv) :
    step p st.sink (.write le env) = some ((sink p).doWrite st.sink le env).2 := by
  rw [step, if_pos halive]
  rfl

theorem phase_doWrite (halive : st.sink.phase = .alive) (le : LogEvent) (env : WriteEnv) :
    ((sink p).doWrite st.sink le env).2.phase = .alive :=
  (State.sameCalls_doWrite le env).phase.trans halive

theorem succeeds_write {a : Logfile.Action} {env : WriteEnv} {e : Item}
    (hok : Undisturbed p s st (.process a env)) (hw : st.process.writeOn s a = some e)
    (hl : ¬e.event.level < st.minLogLevel) :
    Succeeds (.write e.event env) ∧ NewName p st.sink (.write e.event env) :=
  (hok e hw).resolve_left hl

theorem Part.move {a : Attached.Action WriteEnv} (h : Part p st) (hok : Undisturbed p s st a)
    (hs : Attached.Move (formatTime f) s (sink p) st a st') : Part p st' := by
  cases hs with
  | level => exact ⟨h.reach, h.alive, h.calls⟩
  | other => exact ⟨h.reach, h.alive, h.calls⟩
  | @write _ env e _ _ _ hw hwrites _ =>
    cases hwrites with
    | filter =>
      refine ⟨h.reach, h.alive, ?_⟩
      simpa [List.filterMap_append, List.filterMap_cons, Attached.Offer.call] using h.calls
    | write hl =>
      refine ⟨.step h.reach (succeeds_write hok hw hl) (step_write h.alive e.event env),
        phase_doWrite h.alive _ _, ?_⟩
      simpa [List.filterMap_append, List.filterMap_cons, Attached.Offer.call, sink] using h.calls

theorem part_of_reach (h : Filed p f n s st) : Part p st :=
  h.invariant (fun _ hi => part_init hi) fun _ _ _ _ hpart hok hs =>
    hpart.move hok.2 (Attached.move hs)

/-- In a run without failures every call has returned true. -/
theorem calls_succeed {st : State}
    (h : (system p).Reach (fun st a => Succeeds a ∧ NewName p st a) st) :
    ∀ c ∈ st.calls, c.2 = true := by
  obtain ⟨parts, rest, hc⟩ := chronicle_of_reach h
  rw [hc.calls]
  simp

/-- No write on the stream fails. -/
theorem write_succeeds (h : Part p st) {a : Logfile.Action} {env : WriteEnv} {e : Item}
    (hok : Undisturbed p s st (.process a env)) (hw : st.process.writeOn s a = some e) :
    (Attached.write (sink p) st.minLogLevel st.sink e env).1.result = true := by
  have hwrites := Attached.writes_write (sink p) st e env
  generalize (Attached.write (sink p) st.minLogLevel st.sink e env).1 = offer,
    (Attached.write (sink p) st.minLogLevel st.sink e env).2 = k at hwrites ⊢
  cases hwrites with
  | filter => rfl
  | write hl =>
    have hreach := System.Reach.step h.reach (succeeds_write hok hw hl)
      (step_write h.alive e.event env)
    have hlast : (e.event, ((sink p).doWrite st.sink e.event env).1) ∈
        ((sink p).doWrite st.sink e.event env).2.calls := by
      simp [sink]
    exact calls_succeed hreach _ hlast

/-! ## What the files have -/

/-- The strings of the event can be written to a log file and read back. -/
def Clean (ev : LogEvent) : Prop :=
  XmlStrings ev ∧ Legible ev

theorem Clean.readable {ev : LogEvent} (h : Clean ev) (f : TimeFormat) :
    Readable f (stamped (formatTime f) ev) :=
  ⟨⟨rfl, h.1⟩, ⟨h.2.subsystem, h.2.function, h.2.message⟩⟩

theorem map_fst_calls_eq_wanted (h : Filed p f n s st) :
    st.sink.calls.map Prod.fst = st.wanted := by
  rw [(part_of_reach h).calls, Attached.map_fst_calls (Attached.offered_of_reach h).level,
    Attached.State.wanted]

/-- A call of `do_write` is about an event that was enqueued, with the text of its time. -/
theorem readable_calls (h : Filed p f n s st) (hclean : ∀ ev ∈ st.events, Clean ev) :
    ∀ c ∈ st.sink.calls, Readable f c.1 := by
  intro c hc
  have hwanted : c.1 ∈ st.wanted := map_fst_calls_eq_wanted h ▸ List.mem_map_of_mem hc
  obtain ⟨o, ho, heq⟩ := List.mem_map.1 hwanted
  obtain ⟨ev, hev, hitem⟩ := (Attached.offered_of_reach h).item o (List.mem_filter.1 ho).1
  rw [← heq, hitem]
  exact (hclean ev (List.mem_of_getElem? hev)).readable f

theorem readBack_eq_wanted (hf : f.Numeric) (h : Filed p f n s st)
    (hclean : ∀ ev ∈ st.events, Clean ev) {stream : State}
    (hreach : (system p).Reach (fun st a => Succeeds a ∧ NewName p st a) stream)
    (hcalls : stream.calls = st.sink.calls) :
    readBack p stream = some (st.wanted.map messageOf) := by
  obtain ⟨parts, rest, hc⟩ := chronicle_of_reach hreach
  rw [hc.readBack_eq hf fun c hc => readable_calls h hclean c (hcalls ▸ hc), hcalls,
    ← map_fst_calls_eq_wanted h, List.map_map]
  rfl

/-- No write on the stream fails in the run. -/
theorem succeeds_of_filed {st : Attached.State State} {a : Logfile.Action} {env : WriteEnv}
    {e : Item}
    (h : Filed p f n s st)
    (hok : RegisteredOnce n s st.process ∧ Undisturbed p s st (.process a env))
    (hw : st.process.writeOn s a = some e) :
    (Attached.write (sink p) st.minLogLevel st.sink e env).1.result = true :=
  write_succeeds (part_of_reach h) hok.2 hw

/-- At any time the stream was offered the first events, in the order of `enqueue` and each
once, and the files have those of them that are not below its minimum level. -/
theorem files_of_reach (p : FileParams) (f : TimeFormat) (hf : f.Numeric) (n : String) (s : Stream)
    {st : Attached.State State} (h : Filed p f n s st) (hclean : ∀ ev ∈ st.events, Clean ev) :
    st.offers.map (·.item.event) =
        (st.events.take st.offers.length).map (stamped (formatTime f)) ∧
      readBack p st.sink = some (st.wanted.map messageOf) := by
  refine ⟨?_, readBack_eq_wanted hf h hclean (part_of_reach h).reach rfl⟩
  exact Attached.offers_eq_take (fun _ _ hok => hok.1)
    (fun _ _ _ _ _ hr hok _ hw => succeeds_of_filed hr hok hw) h

instance (st : Attached.State State) : ∀ a, Decidable (Undisturbed p s st a)
  | .process a env => inferInstanceAs (Decidable (∀ e ∈ st.process.writeOn s a,
      e.event.level < st.minLogLevel ∨ env.Succeeds ∧ NewName p st.sink (.write e.event env)))
  | .setMinLogLevel _ => inferInstanceAs (Decidable True)

instance (ev : LogEvent) : Decidable (XmlStrings ev) :=
  inferInstanceAs (Decidable (_ = true))

instance (ev : LogEvent) : Decidable (Clean ev) :=
  decidable_of_iff (XmlStrings ev ∧ (Plain ev.subsystemString ∧ 13 ∉ ev.subsystemString) ∧
      (Plain ev.function ∧ 13 ∉ ev.function) ∧ 13 ∉ ev.message)
    ⟨fun h => ⟨h.1, h.2.1, h.2.2.1, h.2.2.2⟩,
      fun h => ⟨h.1, h.2.subsystem, h.2.function, h.2.message⟩⟩

/-- The only stream is a file that is archived in front of every event. -/
def withFile : Attached.State State where
  process := .start (OrdMap.empty.emplace "log" 1)
  minLogLevel := .finest
  sink := { ((start false).openLog tinyFile opened).2 with phase := .alive }
  events := []
  offers := []

/-- Steps of the process, with the clock at `now`. -/
def steps (now : ℤ) (as : List Logfile.Action) : List (Attached.Action WriteEnv) :=
  as.map (.process · (written now))

/-- The stream writes one event. Then it asks for more than that, and is offered another. -/
def twoEvents : List (Attached.Action WriteEnv) :=
  steps 0 ([.enqueue bracketsEvent, .terminate] ++ List.replicate 4 (.log true)) ++
    [.setMinLogLevel .severe] ++
    steps 1000000 ([.enqueue { bracketsEvent with level := .info }] ++
      List.replicate 9 (.log true))

/-- A run of a process with the file. -/
theorem exists_filed (as : List (Attached.Action WriteEnv)) (q : Attached.State State → Bool)
    (hq : (((Attached.system (formatTime newYear) 1 (sink tinyFile) (Constructed tinyFile)).exec
      (fun st a => decide (RegisteredOnce "log" 1 st.process ∧ Undisturbed tinyFile 1 st a))
        withFile as).any q) = true) : ∃ st, Filed tinyFile newYear "log" 1 st ∧ q st = true := by
  have hfile : Constructed tinyFile withFile.sink :=
    ⟨start false, opened, initial_start false, ⟨rfl, rfl, rfl, rfl⟩, rfl⟩
  have hinit : (Attached.system (formatTime newYear) 1 (sink tinyFile)
      (Constructed tinyFile)).init withFile :=
    ⟨Logfile.State.initial_start _, hfile, rfl, rfl⟩
  exact System.exists_reach (p := fun st a => RegisteredOnce "log" 1 st.process ∧
    Undisturbed tinyFile 1 st a) (fun _ _ => of_decide_eq_true) hinit as q hq

theorem files_twoEvents_running : ∃ st, Filed tinyFile newYear "log" 1 st ∧
    readBack tinyFile st.sink = some [messageOf bracketsEvent] := by
  obtain ⟨st, hreach, hst⟩ := exists_filed twoEvents
    (fun st => st.events.all (fun ev => decide (Clean ev)) && st.wanted == [bracketsEvent])
    (by decide +kernel)
  simp only [Bool.and_eq_true, List.all_eq_true, decide_eq_true_eq, beq_iff_eq] at hst
  refine ⟨st, hreach, ?_⟩
  have hread := (files_of_reach tinyFile newYear newYear_numeric "log" 1 hreach hst.1).2
  rwa [hst.2] at hread

end FileStream

end Logfile
