import Logfile.NoFailure

/-!
# What expires

The expiry pass of a retry thread erases what its clock shows as too old. Over a run whose clocks
show at most `T`, an event that expires for any stream is too old at `T`, so a severe event never
expires as long as its age is a `duration` of the system clock (`expired_of_reach`). When `do_run`
returns, the sink has accepted every other event exactly once, unless a retry thread could not be
constructed (`delivered_of_returns`).
-/

set_option linter.unusedSectionVars false

namespace Logfile

theorem seconds_mono {t u : ℤ} (h : t ≤ u) : seconds t ≤ seconds u :=
  Int.tdiv_le_tdiv (by decide) h

theorem LogEvent.expired_mono {ev : LogEvent} {now T : ℤ} (h : ev.expired now) (hnow : now ≤ T) :
    ev.expired T := by
  have hsec : seconds (now - ev.time) ≤ seconds (T - ev.time) := seconds_mono (by omega)
  simp only [LogEvent.expired, decide_eq_true_eq] at h ⊢
  omega

theorem not_severe_lt (l : LogLevel) : ¬LogLevel.severe < l := by
  cases l <;> decide

/-- An age that a 64-bit number of nanoseconds can hold is less than `time_t` can. -/
theorem not_expired_severe {ev : LogEvent} {T : ℤ} (hlevel : ev.level = .severe)
    (hage : T - ev.time < 2 ^ 63) : ev.expired T = false := by
  have hsec : seconds (T - ev.time) ≤ seconds (2 ^ 63) := seconds_mono hage.le
  have hmax : seconds (2 ^ 63) < 2 ^ 63 - 1 := by decide
  simp only [LogEvent.expired, hlevel, expiryTime, decide_eq_false_iff_not]
  omega

/-! ## What the steps expire -/

/-- What the clock of the expiry pass shows, if the action gets to it. -/
def Action.clock : Action → Option ℤ
  | .retry _ _ now => some now
  | _ => none

@[simp] theorem clock_withResult (a : Action) (ok : Bool) : (a.withResult ok).clock = a.clock := by
  cases a <;> rfl

section Steps

variable {formatTime : ℤ → Bytes} {st st' : State} {s : Stream}

theorem expired_append (s : Stream) (tr tr' : List Obs) :
    expired s (tr ++ tr') = expired s tr ++ expired s tr' :=
  List.filterMap_append

theorem mem_expired_expire {s' : Stream} {id : ℕ} {l : List Item}
    (h : id ∈ expired s (l.map fun e => .expired s' e.id)) : ∃ e ∈ l, e.id = id := by
  simp only [expired, List.filterMap_map, List.mem_filterMap, Function.comp_apply,
    Option.ite_none_right_eq_some, Option.some.injEq] at h
  obtain ⟨e, he, -, hid⟩ := h
  exact ⟨e, he, hid⟩

/-- The log thread expires nothing. -/
theorem expired_logMove {pc : LogPc} (hs : LogMove formatTime st pc st') :
    expired s st'.trace = expired s st.trace := by
  cases hs with
  | body _ hmove => cases hmove <;> simp [State.crash, State.goto, State.observe,
      State.enqueueRetry, State.deleteRetry, State.modifyRetry, expired]
  | _ => simp [State.crash, State.goto, State.observe, State.deleteRetry, State.modifyRetry,
      expired]

/-- A retry thread expires what its clock shows as too old. -/
theorem expired_retryStep {t id : ℕ} {ok : Bool} {now : ℤ}
    (hs : retryStep st t ok now = some st') (hid : id ∈ expired s st'.trace) :
    id ∈ expired s st.trace ∨
      ∃ r ∈ st.retries, ∃ e ∈ r.queue, e.id = id ∧ e.event.expired now := by
  obtain ⟨r, hr, hmove⟩ := retryMove hs
  have hr' : st.retry? t = some r := hr
  by_cases hpc : r.pc = .expire
  · simp only [retryStep, hr', hpc, Option.some.injEq] at hs
    rw [← hs] at hid
    rw [State.modifyRetry, State.observe, expired_append] at hid
    rcases List.mem_append.1 hid with hold | hnew
    · exact Or.inl hold
    · obtain ⟨e, he, heq⟩ := mem_expired_expire hnew
      obtain ⟨hqueue, hexpired⟩ := List.mem_filter.1 he
      exact Or.inr ⟨r, List.mem_of_getElem? (deref_eq_some_iff.1 hr).1, e, hqueue, heq, hexpired⟩
  · cases hmove with
    | expire h => exact absurd h hpc
    | _ =>
      exact Or.inl (by simpa [State.crash, State.observe, State.modifyRetry, expired] using hid)

theorem expired_step {a : Action} {id : ℕ} (hs : step formatTime st a = some st')
    (hid : id ∈ expired s st'.trace) : id ∈ expired s st.trace ∨ ∃ now ∈ a.clock,
      ∃ r ∈ st.retries, ∃ e ∈ r.queue, e.id = id ∧ e.event.expired now := by
  have hmove := move hs
  cases a with
  | retry t ok now =>
    rw [step, Option.ite_none_left_eq_some] at hs
    rcases expired_retryStep hs.2 hid with hold | hnew
    · exact Or.inl hold
    · exact Or.inr ⟨now, rfl, hnew⟩
  | log =>
    cases hmove with
    | log hmove =>
      rw [expired_logMove hmove] at hid
      exact Or.inl hid
  | _ =>
    cases hmove
    all_goals exact Or.inl (by simpa [State.crash, State.observe, expired] using hid)

end Steps

/-! ## Runs -/

namespace Attached

variable {κ ε : Type*} {formatTime : ℤ → Bytes} {s : Stream} {sink : Sink κ ε} {init : κ → Prop}
  {st st' : State κ} {a : Action ε} {ok : State κ → Action ε → Prop} {n : String} {T : ℤ}

/-- The clock of an expiry pass shows at most `T`. -/
def ClockUpTo (T : ℤ) : Action ε → Prop
  | .process a _ => ∀ now ∈ a.clock, now ≤ T
  | .setMinLogLevel _ => True

/-- Whatever expired is too old at `T`. -/
def Old (T : ℤ) (st : State κ) : Prop :=
  ∀ s id, id ∈ expired s st.process.trace → ∃ ev, st.events[id]? = some ev ∧ ev.expired T

/-- What a step expires is an event that was enqueued, and its age is over at the clock shown. -/
theorem Old.step (h : Old T st) (htracked : Tracked formatTime s st) (hclock : ClockUpTo T a)
    (hs : Attached.step formatTime s sink st a = some st') : Old T st' := by
  have hprocess : ∀ b process, Logfile.step formatTime st.process b = some process →
      (∀ now ∈ b.clock, now ≤ T) → ∀ s id, id ∈ expired s process.trace →
        ∃ ev, st.events[id]? = some ev ∧ ev.expired T := by
    intro b process hb hnow s id hid
    rcases expired_step hb hid with hold | ⟨now, hclock, r, hr, e, he, rfl, hexpired⟩
    · exact h s id hold
    · obtain ⟨ev, hev, heq⟩ := htracked.carries.queue r hr e he
      rw [heq] at hexpired
      exact ⟨ev, hev, LogEvent.expired_mono hexpired (hnow now hclock)⟩
  cases move hs with
  | level => exact h
  | @other b env process _ hb =>
    intro s id hid
    obtain ⟨ev, hev, hexpired⟩ := hprocess b process hb hclock s id hid
    refine ⟨ev, ?_, hexpired⟩
    rw [List.getElem?_append_left (List.getElem?_eq_some_iff.1 hev).1, hev]
  | write _ _ hb => exact hprocess _ _ hb (by simpa [ClockUpTo] using hclock)

theorem old_of_reach (hclock : ∀ st a, ok st a → ClockUpTo T a)
    (h : (system formatTime s sink init).Reach ok st) : Old T st := by
  refine h.invariant (fun st hi => ?_) fun st a st' hr hold hoka hs =>
    hold.step (tracked_of_reach hr) (hclock st a hoka) hs
  obtain ⟨hprocess, -⟩ := hi
  intro s id hid
  simp [hprocess.trace, expired] at hid

/-- Over a run whose clocks show at most `T`, only events whose age is over at `T` expire. Severe
events do not. -/
theorem expired_of_reach (formatTime : ℤ → Bytes) (s : Stream) (sink : Sink κ ε)
    (init : κ → Prop) (T : ℤ) {st : State κ}
    (h : (system formatTime s sink init).Reach (fun _ a => ClockUpTo T a) st) {s' : Stream} {id : ℕ}
    (hid : id ∈ expired s' st.process.trace) : ∃ ev, st.events[id]? = some ev ∧
      seconds (T - ev.time) > expiryTime ev.level ∧
        (T - ev.time < 2 ^ 63 → ev.level ≠ .severe) := by
  obtain ⟨ev, hev, hexpired⟩ := old_of_reach (fun _ _ h => h) h s' id hid
  refine ⟨ev, hev, of_decide_eq_true hexpired, fun hage hlevel => ?_⟩
  rw [not_expired_severe hlevel hage] at hexpired
  cases hexpired

instance (T : ℤ) : ∀ a : Action ε, Decidable (ClockUpTo T a)
  | .process a _ => inferInstanceAs (Decidable (∀ now ∈ a.clock, now ≤ T))
  | .setMinLogLevel _ => inferInstanceAs (Decidable True)

/-- The retry thread fails too, more than an hour after the event. -/
def expiredEvent : List Logfile.Action :=
  failedWrite ++ List.replicate 3 (.log true) ++ List.replicate 5 (.retry 0 false 3601000000000)

theorem expired_expiredEvent : ∃ st : State Unit, expired 1 st.process.trace = [0] ∧
    ∃ ev, st.events[0]? = some ev ∧ seconds (3601000000000 - ev.time) > expiryTime ev.level ∧
      (3601000000000 - ev.time < 2 ^ 63 → ev.level ≠ .severe) := by
  obtain ⟨st, hreach, hst⟩ := System.exists_reach
    (T := system (fun _ => []) 1 anySink fun _ => True)
    (b := fun _ a => decide (ClockUpTo 3601000000000 a))
    (p := fun _ a => ClockUpTo 3601000000000 a) (fun _ _ => of_decide_eq_true)
    (init_withAny _) (scripted expiredEvent) (fun st => expired 1 st.process.trace == [0]) rfl
  rw [beq_iff_eq] at hst
  exact ⟨st, hst, expired_of_reach _ 1 anySink _ 3601000000000 hreach (by rw [hst]; simp)⟩

/-- When `do_run` has returned, every event is settled for the stream. -/
theorem settled_of_return (h : (system formatTime s sink init).Reach ok st) (hok : ok st a)
    (hs : step formatTime s sink st a = some st')
    (hreg : ∀ st a, ok st a → RegisteredOnce n s st.process)
    (hrun : st.process.log ≠ .returned) (hret : st'.process.log = .returned) {id : ℕ}
    {ev : LogEvent} (hev : st'.events[id]? = some ev) : Settled s st'.process.trace id := by
  have h' : (system formatTime s sink init).Reach ok st' := .step h hok hs
  have hprocess' := process_of_reach hreg h'
  have hnone : pending n s st'.process = [] :=
    pending_eq_nil (inv_of_reach hprocess') hret (events_eq_nil_of_returns hs hrun hret)
  have hlt : id < st'.process.count :=
    (offered_of_reach h').count ▸ (List.getElem?_eq_some_iff.1 hev).1
  rcases covered_of_reach (fun _ _ hreg => hreg.find) hprocess' id hlt with hset | hpend
  · exact hset
  · rw [hnone] at hpend
    cases hpend

/-- An event that was offered with success. -/
theorem exists_offer_of_accepted (hoffered : Offered formatTime s st) {id : ℕ} {ev : LogEvent}
    (hev : st.events[id]? = some ev) (hid : id ∈ accepted s st.process.trace) :
    ∃ o ∈ st.offers, o.result = true ∧ o.item = ⟨id, stamped formatTime ev⟩ := by
  rw [hoffered.accepted] at hid
  obtain ⟨o, ho, rfl⟩ := List.mem_map.1 hid
  obtain ⟨hmem, hres⟩ := List.mem_filter.1 ho
  obtain ⟨ev', hev', heq⟩ := hoffered.item o hmem
  obtain rfl : ev' = ev := Option.some.inj (hev'.symm.trans hev)
  exact ⟨o, hmem, hres, by rw [← heq]⟩

/-- An event that was accepted was offered with success once. -/
theorem count_accepted (hoffered : Offered formatTime s st)
    (hnodup : (accepted s st.process.trace).Nodup) {id : ℕ} {ev : LogEvent}
    (hev : st.events[id]? = some ev) (hid : id ∈ accepted s st.process.trace) :
    ((st.offers.filter Offer.result).map Offer.item).count ⟨id, stamped formatTime ev⟩ = 1 := by
  have hids : accepted s st.process.trace =
      ((st.offers.filter Offer.result).map Offer.item).map Item.id := by
    rw [hoffered.accepted, List.map_map]
    rfl
  obtain ⟨o, ho, hres, hitem⟩ := exists_offer_of_accepted hoffered hev hid
  rw [hids] at hnodup
  refine List.count_eq_one_of_mem hnodup.of_map ?_
  rw [← hitem]
  exact List.mem_map_of_mem (List.mem_filter.2 ⟨ho, hres⟩)

/-- When `do_run` returns, an event that is not too old at `T` is accepted, unless no retry thread
could be constructed for it. -/
theorem mem_accepted_of_returns
    (h : (system formatTime s sink init).Reach
      (fun st a => RegisteredOnce n s st.process ∧ ClockUpTo T a) st)
    (hok : RegisteredOnce n s st.process ∧ ClockUpTo T a)
    (hs : step formatTime s sink st a = some st')
    (hrun : st.process.log ≠ .returned) (hret : st'.process.log = .returned)
    {id : ℕ} {ev : LogEvent} (hev : st'.events[id]? = some ev)
    (hyoung : ev.level = .severe ∧ T - ev.time < 2 ^ 63 ∨
      seconds (T - ev.time) ≤ expiryTime ev.level)
    (hkept : id ∉ dropped s st'.process.trace) : id ∈ accepted s st'.process.trace := by
  have h' : (system formatTime s sink init).Reach
      (fun st a => RegisteredOnce n s st.process ∧ ClockUpTo T a) st' := .step h hok hs
  have hexpired : ev.expired T = false := by
    rcases hyoung with ⟨hlevel, hage⟩ | hage
    · exact not_expired_severe hlevel hage
    · exact decide_eq_false (not_lt.2 hage)
  rcases settled_of_return h hok hs (fun _ _ hok => hok.1) hrun hret hev with hacc | hexp | hdrop
  · exact hacc
  · obtain ⟨ev', hev', hold⟩ := old_of_reach (fun _ _ hok => hok.2) h' s id hexp
    obtain rfl : ev' = ev := Option.some.inj (hev'.symm.trans hev)
    rw [hexpired] at hold
    cases hold
  · exact absurd hdrop hkept

/-- No event is accepted twice. -/
theorem nodup_accepted (hreg : ∀ st a, ok st a → RegisteredOnce n s st.process)
    (h : (system formatTime s sink init).Reach ok st) : (accepted s st.process.trace).Nodup := by
  have hchan := channel_of_reach (process_of_reach hreg h)
  exact ((List.sublist_append_left _ _).trans hchan.sublist).nodup hchan.nodup

/-- When `do_run` returns, the sink has accepted every event once, except those whose age is over
at `T` and those for which no retry thread could be constructed. -/
theorem delivered_of_returns (formatTime : ℤ → Bytes) (n : String) (s : Stream) (sink : Sink κ ε)
    (init : κ → Prop) (T : ℤ) {st st' : State κ} {a : Action ε}
    (h : (system formatTime s sink init).Reach
      (fun st a => RegisteredOnce n s st.process ∧ ClockUpTo T a) st)
    (hok : RegisteredOnce n s st.process ∧ ClockUpTo T a)
    (hs : step formatTime s sink st a = some st')
    (hrun : st.process.log ≠ .returned) (hret : st'.process.log = .returned)
    {id : ℕ} {ev : LogEvent} (hev : st'.events[id]? = some ev)
    (hyoung : ev.level = .severe ∧ T - ev.time < 2 ^ 63 ∨
      seconds (T - ev.time) ≤ expiryTime ev.level)
    (hkept : id ∉ dropped s st'.process.trace) :
    ((st'.offers.filter Offer.result).map Offer.item).count ⟨id, stamped formatTime ev⟩ = 1 := by
  have h' : (system formatTime s sink init).Reach
      (fun st a => RegisteredOnce n s st.process ∧ ClockUpTo T a) st' := .step h hok hs
  exact count_accepted (offered_of_reach h') (nodup_accepted (fun _ _ hok => hok.1) h') hev
    (mem_accepted_of_returns h hok hs hrun hret hev hyoung hkept)

theorem delivered_retriedAtEnd : ∃ st : State Unit, st.process.log = .returned ∧
    st.offers.length = 2 ∧
      ((st.offers.filter Offer.result).map Offer.item).count ⟨0, stamped (fun _ => []) someEvent⟩ =
        1 := by
  obtain ⟨st, hreach, hst⟩ := System.exists_reach
    (T := system (fun _ => []) 1 anySink fun _ => True)
    (b := fun st a => decide (RegisteredOnce "stdout" 1 st.process ∧ ClockUpTo 0 a))
    (p := fun st a => RegisteredOnce "stdout" 1 st.process ∧ ClockUpTo 0 a)
    (fun _ _ => of_decide_eq_true) (init_withAny _) (scripted retriedAtEnd)
    (fun st => decide (RegisteredOnce "stdout" 1 st.process) && st.process.log == .final &&
      (step (fun _ => []) 1 anySink st (.process (.log true) true)).any fun st' =>
        st'.process.log == .returned && st'.events == [someEvent] && st'.offers.length == 2 &&
          dropped 1 st'.process.trace == []) rfl
  simp only [Bool.and_eq_true, decide_eq_true_eq, beq_iff_eq, Option.any_eq_true] at hst
  obtain ⟨⟨hreg, hfinal⟩, st', hstep, ⟨⟨hret, hevents⟩, hlen⟩, hdropped⟩ := hst
  refine ⟨st', hret, hlen, delivered_of_returns _ "stdout" 1 anySink _ 0 hreach
    ⟨hreg, by simp [ClockUpTo, Logfile.Action.clock]⟩ hstep (by simp [hfinal]) hret
    (by rw [hevents]; rfl) (Or.inr ?_) (by simp [hdropped])⟩
  decide

end Attached

end Logfile
