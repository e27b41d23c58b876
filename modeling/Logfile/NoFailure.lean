import Logfile.AttachedSink
import Logfile.Shutdown

/-!
# A stream on which no write fails

The log thread starts no retry thread for a stream as long as every write on it succeeds
(`Untroubled`), and then no event is lost for it. What the sink is offered is then a prefix of
what was enqueued (`offers_eq_take`), and all of it when `do_run` returns
(`offers_eq_of_returns`).
-/

set_option linter.unusedSectionVars false

namespace Logfile

/-- The stream never got a retry thread and has lost no event. -/
structure Untroubled (s : Stream) (st : State) : Prop where
  retries : ∀ r ∈ st.retries, r.stream ≠ s
  log : ∀ e rest n pc, st.log = .body e rest n s pc → pc = .find ∨ pc = .write
  lost : lost s st.trace = []

/-- The writes on the stream succeed. -/
def Writes.Succeed (s : Stream) (st : State) (a : Action) : Prop :=
  ∀ e, st.writeOn s a = some e → a.result = true

section Process

variable {formatTime : ℤ → Bytes} {st st' : State} {s : Stream} {a : Action}

/-- What the log thread does with the write on the stream it stands at. -/
theorem write_cases {e : Item} {rest : List Item} {n : String} {ok : Bool}
    (hlog : st.log = .body e rest n s .write) (h : logStep formatTime st ok = some st') :
    st' = st.crash ∨ st.writeOn s (.log ok) = some e ∧
      st' = if ok then (st.observe [.accepted s e.id]).advance e rest n
        else st.goto (.body e rest n s .construct) := by
  unfold logStep at h
  rw [hlog] at h
  dsimp only [bodyStep] at h
  split_ifs at h with hd hlive hok <;> obtain rfl := Option.some.inj h
  · exact Or.inl rfl
  · have hwrite : st.writeOn s (.log ok) = _ := writeOn_log hlog hlive (Bool.eq_false_iff.2 hd)
    rw [if_pos rfl] at hwrite
    exact Or.inr ⟨hwrite, (if_pos hok).symm⟩
  · have hwrite : st.writeOn s (.log ok) = _ := writeOn_log hlog hlive (Bool.eq_false_iff.2 hd)
    rw [if_pos rfl] at hwrite
    exact Or.inr ⟨hwrite, (if_neg hok).symm⟩
  · exact Or.inl rfl

namespace Untroubled

theorem init (h : st.Initial) : Untroubled s st where
  retries := by simp [h.retries]
  log e rest n pc hlog := by
    rw [h.log] at hlog
    cases hlog
  lost := by simp [h.trace, Logfile.lost]

/-- A step that touches neither the retry threads nor the place of the log thread. -/
theorem frame (h : Untroubled s st) (hr : st'.retries = st.retries) (hl : st'.log = st.log)
    {o : List Obs} (ht : st'.trace = st.trace ++ o) (ho : Logfile.lost s o = []) :
    Untroubled s st' := by
  obtain ⟨hretries, hlog, hlost⟩ := h
  rw [← hr] at hretries
  rw [← hl] at hlog
  exact ⟨hretries, hlog, by rw [ht, lost_append, hlost, ho, List.append_nil]⟩

theorem crash (h : Untroubled s st) : Untroubled s st.crash :=
  ⟨h.retries, h.log, h.lost⟩

/-- A change of a retry thread. -/
theorem modifyRetry (h : Untroubled s st) {t : ℕ} {f : Retry → Retry}
    (hf : ∀ r, (f r).stream = r.stream) : Untroubled s (st.modifyRetry t f) := by
  refine ⟨fun r hr => ?_, h.log, h.lost⟩
  obtain ⟨i, hi⟩ := List.mem_iff_getElem?.1 hr
  simp only [State.modifyRetry, List.getElem?_modify] at hi
  obtain ⟨r', hr', rfl⟩ := Option.map_eq_some_iff.1 hi
  have hne := h.retries r' (List.mem_of_getElem? hr')
  split_ifs
  · rwa [hf]
  · exact hne

theorem enqueueRetry (h : Untroubled s st) (t : ℕ) (e : Item) :
    Untroubled s (st.enqueueRetry t e) :=
  h.modifyRetry fun _ => rfl

theorem deleteRetry (h : Untroubled s st) (t : ℕ) : Untroubled s (st.deleteRetry t) :=
  h.modifyRetry fun _ => rfl

/-- A change of `m_retry_map`. -/
theorem setRetryMap (h : Untroubled s st) (m : OrdMap Stream (Option ℕ)) :
    Untroubled s { st with retryMap := m } :=
  ⟨h.retries, h.log, h.lost⟩

/-- The log thread goes to a place that is not at a node of the stream. -/
theorem goto (h : Untroubled s st) {pc : LogPc} (hpc : ∀ e rest n pc', pc ≠ .body e rest n s pc') :
    Untroubled s (st.goto pc) :=
  ⟨h.retries, fun e rest n pc' hlog => absurd hlog (hpc e rest n pc'), h.lost⟩

/-- The log thread goes on with the next node. -/
theorem visit (h : Untroubled s st) (e : Item) (rest : List Item)
    (next : Option (String × Stream)) : Untroubled s (st.visit e rest next) := by
  cases next with
  | none => exact h.goto (by simp)
  | some i =>
    refine ⟨h.retries, ?_, h.lost⟩
    rintro _ _ _ _ ⟨⟩
    exact Or.inl rfl

theorem observe (h : Untroubled s st) {o : List Obs} (ho : Logfile.lost s o = []) :
    Untroubled s (st.observe o) :=
  h.frame rfl rfl rfl ho

/-- The log thread at the node of another stream. -/
theorem bodyMove (h : Untroubled s st) {e : Item} {rest : List Item} {n : String} {s' : Stream}
    {pc : BodyPc} (hne : s' ≠ s) (hs : BodyMove st e rest n s' pc st') : Untroubled s st' := by
  have hpc : ∀ (pc' : BodyPc) (e' : Item) (rest' : List Item) (n' : String) (pc'' : BodyPc),
      LogPc.body e rest n s' pc' ≠ .body e' rest' n' s pc'' := by
    rintro _ _ _ _ _ ⟨⟩
    exact hne rfl
  cases hs with
  | crash => exact h.crash
  | null => exact (h.setRetryMap _).goto (hpc _)
  | enqueue => exact (h.enqueueRetry _ e).visit e rest _
  | join => exact ((h.deleteRetry _).setRetryMap _).goto (hpc _)
  | accept => exact (h.observe rfl).visit e rest _
  | construct =>
    refine ⟨fun r hr => ?_, fun _ _ _ _ hlog => absurd hlog (hpc _ _ _ _ _), h.lost⟩
    rcases List.mem_append.1 hr with hmem | hmem
    · exact h.retries r hmem
    · rw [List.mem_singleton.1 hmem]
      exact hne
  | drop => exact (h.observe (by simp [Logfile.lost, hne])).visit e rest _
  | first => exact (h.enqueueRetry _ e).goto (hpc _)
  | emplace => exact (h.setRetryMap _).visit e rest _
  | _ => exact h.goto (hpc _)

/-- The log thread at the node of the stream. -/
theorem logStep (h : Untroubled s st) (hinv : Inv st) {e : Item} {rest : List Item} {n : String}
    {pc : BodyPc} {ok : Bool} (hlog : st.log = .body e rest n s pc)
    (hok : Writes.Succeed s st (.log ok)) (hs : Logfile.logStep formatTime st ok = some st') :
    Untroubled s st' := by
  rcases h.log e rest n pc hlog with rfl | rfl
  · have hnone : ∀ t, st.retryMap.find s ≠ some (some t) := by
      intro t ht
      obtain ⟨r, hr, hrs⟩ := hinv.deref_of_find ht
      exact h.retries r (List.mem_of_getElem? (deref_eq_some_iff.1 hr).1) hrs
    have hwrite : ∀ m, Untroubled s ({ st with retryMap := m }.goto (.body e rest n s .write)) := by
      refine fun m => ⟨h.retries, ?_, h.lost⟩
      rintro _ _ _ _ ⟨⟩
      exact Or.inr rfl
    cases logMove hlog hs with
    | crash => exact h.crash
    | body _ hmove =>
      cases hmove with
      | crash => exact h.crash
      | absent => exact hwrite st.retryMap
      | null => exact hwrite _
      | entry hfind => exact absurd hfind (hnone _)
  · rcases write_cases hlog hs with rfl | ⟨hw, rfl⟩
    · exact h.crash
    · have htrue : ok = true := hok e hw
      rw [if_pos htrue]
      exact (h.observe rfl).visit e rest _

theorem logMove (h : Untroubled s st) {pc : LogPc} (hlog : st.log = pc)
    (hpc : ∀ e rest n pc', pc ≠ .body e rest n s pc') (hs : LogMove formatTime st pc st') :
    Untroubled s st' := by
  cases hs with
  | crash => exact h.crash
  | swap =>
    have hempty : Untroubled s { st with events := [] } := ⟨h.retries, h.log, h.lost⟩
    exact hempty.goto (by simp)
  | take => exact (h.observe rfl).visit _ _ _
  | @body e rest n s' pc' _ _ hmove =>
    have hne : s' ≠ s := by
      rintro rfl
      exact hpc e rest n pc' rfl
    exact h.bodyMove hne hmove
  | @scanned b => cases b <;> exact h.goto (by simp)
  | scanJoin => exact ((h.deleteRetry _).setRetryMap _).goto (by simp)
  | _ => exact h.goto (by simp)

theorem retryMove (h : Untroubled s st) {t : ℕ} {r : Retry} (hr : deref st.retries t = some r)
    (hs : RetryMove st t r st') : Untroubled s st' := by
  have hne := h.retries r (List.mem_of_getElem? (deref_eq_some_iff.1 hr).1)
  cases hs with
  | crash => exact h.crash
  | quiet => exact h.modifyRetry fun _ => rfl
  | accept => exact (h.observe rfl).modifyRetry fun _ => rfl
  | pop => exact h.modifyRetry fun _ => rfl
  | expire =>
    exact (h.observe (by rw [lost_expire, if_neg hne])).modifyRetry fun _ => rfl

theorem step (h : Untroubled s st) (hinv : Inv st) (hok : Writes.Succeed s st a)
    (hs : Logfile.step formatTime st a = some st') : Untroubled s st' := by
  have hmove := move hs
  cases a with
  | log ok =>
    rw [Logfile.step, Option.ite_none_left_eq_some] at hs
    by_cases hat : ∃ e rest n pc, st.log = .body e rest n s pc
    · obtain ⟨e, rest, n, pc, hlog⟩ := hat
      exact h.logStep hinv hlog hok hs.2
    · push Not at hat
      exact h.logMove rfl hat (Logfile.logMove rfl hs.2)
  | retry t ok now =>
    cases hmove with
    | retry hr hmove => exact h.retryMove hr hmove
  | notify =>
    cases hmove with
    | notify hpc =>
      have hrest : Untroubled s { st with notifiers := st.notifiers - 1 } :=
        ⟨h.retries, h.log, h.lost⟩
      rcases hpc with ⟨-, rfl⟩ | ⟨-, rfl⟩
      · exact hrest.goto (by simp)
      · exact hrest
  | enqueue =>
    cases hmove
    exact h.frame rfl rfl rfl rfl
  | delete =>
    cases hmove with
    | deleteCrash => exact h.crash
    | delete => exact ⟨h.retries, h.log, h.lost⟩
  | _ =>
    cases hmove
    exact ⟨h.retries, h.log, h.lost⟩

end Untroubled

/-! ## What is still pending -/

/-- As long as nothing is lost, what has arrived and what is pending is what was sent. -/
theorem accepted_append_pending {n : String}
    (hreach : (system formatTime).Reach (fun st _ => RegisteredOnce n s st) st)
    (hlost : lost s st.trace = []) :
    accepted s st.trace ++ pending n s st = List.range st.count := by
  have hchan := channel_of_reach hreach
  have hperm := hchan.perm
  have hnone : (view n s st).lost = [] := hlost
  rw [hnone, List.append_nil] at hperm
  exact hchan.sublist.eq_of_length hperm.length_eq

/-- When `do_run` returns, nothing is pending. -/
theorem pending_eq_nil {n : String} (hinv : Inv st) (hlog : st.log = .returned)
    (hev : st.events = []) : pending n s st = [] := by
  have hnone : ∀ k t, st.retryMap.find k ≠ some (some t) := by
    have := hinv.log
    rwa [hlog] at this
  have hqueued : st.queued s = [] := by
    refine queued_eq_nil hinv fun t r hr => ?_
    have hcur := (hinv.owner r.stream t).2 ⟨r, hr, rfl⟩
    rw [current, hlog] at hcur
    exact absurd (Option.join_eq_some_iff.1 (by simpa [LogPc.holds] using hcur)) (hnone _ t)
  simp [pending, hqueued, hlog, hev, LogPc.inHand, LogPc.rest, ids]

end Process

/-! ## The sink is offered everything -/

namespace Attached

variable {κ ε : Type*} {formatTime : ℤ → Bytes} {s : Stream} {sink : Sink κ ε} {init : κ → Prop}
  {st st' : State κ} {a : Action ε} {ok : State κ → Action ε → Prop} {n : String}

/-- If `write` returns true, the stream stays untroubled. -/
theorem untroubled_of_reach (hok : ∀ st a env e st', (system formatTime s sink init).Reach ok st →
      ok st (.process a env) → step formatTime s sink st (.process a env) = some st' →
        st.process.writeOn s a = some e →
          (write sink st.minLogLevel st.sink e env).1.result = true)
    (h : (system formatTime s sink init).Reach ok st) :
    Untroubled s st.process ∧ ∀ o ∈ st.offers, o.result = true := by
  refine h.invariant (I := fun st => Untroubled s st.process ∧ ∀ o ∈ st.offers, o.result = true)
    (fun st hi => ⟨.init hi.1, ?_⟩) fun st a st' hr ⟨hcalm, hoffers⟩ hoka hs => ?_
  · obtain ⟨-, -, -, hnil⟩ := hi
    simp [hnil]
  · have hinv := inv_of_reach (process_of_reach (C := fun _ => True) (fun _ _ _ => trivial) hr)
    cases a with
    | setMinLogLevel level =>
      obtain rfl := Option.some.inj hs
      exact ⟨hcalm, hoffers⟩
    | process a env =>
      have hstep := hs
      simp only [system, step] at hs
      split at hs <;> obtain ⟨process, hp, rfl⟩ := Option.map_eq_some_iff.1 hs
      · next hw =>
        refine ⟨hcalm.step hinv (fun e he => ?_) hp, hoffers⟩
        rw [hw] at he
        cases he
      · next e hw =>
        have htrue := hok st a env e _ hr hoka hstep hw
        refine ⟨hcalm.step hinv (fun e' he' => ?_) hp, fun o ho => ?_⟩
        · exact (result_withResult hw _).trans htrue
        · rcases List.mem_append.1 ho with ho | ho
          · exact hoffers o ho
          · rw [List.mem_singleton.1 ho]
            exact htrue

/-- `do_run` returns with no event left. -/
theorem events_eq_nil_of_returns (hs : step formatTime s sink st a = some st')
    (hrun : st.process.log ≠ .returned) (hret : st'.process.log = .returned) :
    st'.process.events = [] := by
  have hends : ∀ b, Logfile.step formatTime st.process b = some st'.process →
      st'.process.events = [] := by
    intro b hb
    obtain ⟨-, hev, heq⟩ := returns_inv (Logfile.move hb) hrun hret
    rw [heq]
    exact hev
  cases move hs with
  | level => exact absurd hret hrun
  | other _ hp => exact hends _ hp
  | write _ _ hp => exact hends _ hp

/-- Offers with the first numbers are those of the first events. -/
theorem events_of_ids {formatTime : ℤ → Bytes} {st : State κ} (h : Offered formatTime s st)
    {k : ℕ} (hids : st.offers.map (·.item.id) = List.range k) :
    st.offers.map (·.item.event) = (st.events.take k).map (stamped formatTime) := by
  have hlen : st.offers.length = k := by
    simpa using congrArg List.length hids
  refine List.ext_getElem? fun i => ?_
  rw [List.getElem?_map, List.getElem?_map]
  rcases Nat.lt_or_ge i k with hi | hi
  · have hget : i < st.offers.length := hlen ▸ hi
    obtain ⟨ev, hev, heq⟩ := h.item _ (List.getElem_mem hget)
    have hid : (st.offers[i]).item.id = i := by
      have := congrArg (·[i]?) hids
      simpa [hget, hi] using this
    rw [hid] at hev
    rw [List.getElem?_eq_getElem hget, List.getElem?_take_of_lt hi, hev, Option.map_some,
      Option.map_some, heq]
  · rw [List.getElem?_eq_none (hlen ▸ hi), List.getElem?_eq_none]
    · rfl
    · rw [List.length_take]
      omega

section Offers

variable (hreg : ∀ st a, ok st a → RegisteredOnce n s st.process)
  (hok : ∀ st a env e st', (system formatTime s sink init).Reach ok st → ok st (.process a env) →
    step formatTime s sink st (.process a env) = some st' → st.process.writeOn s a = some e →
      (write sink st.minLogLevel st.sink e env).1.result = true)

include hreg hok

/-- The numbers of the offers, and what is pending behind them. -/
theorem ids_append_pending (h : (system formatTime s sink init).Reach ok st) :
    st.offers.map (·.item.id) ++ pending n s st.process = List.range st.events.length := by
  obtain ⟨hcalm, htrue⟩ := untroubled_of_reach hok h
  have hoffered := offered_of_reach h
  have hall : st.offers.filter Offer.result = st.offers := List.filter_eq_self.2 htrue
  have hids := accepted_append_pending (process_of_reach hreg h) hcalm.lost
  rwa [hoffered.accepted, hall, hoffered.count] at hids

/-- The sink is offered the events in the order of `enqueue`, each once and none left out. -/
theorem offers_eq_take (h : (system formatTime s sink init).Reach ok st) :
    st.offers.map (·.item.event) =
      (st.events.take st.offers.length).map (stamped formatTime) := by
  have hids := ids_append_pending hreg hok h
  refine events_of_ids (offered_of_reach h) ?_
  have hfront := congrArg (List.take st.offers.length) hids
  rw [List.take_left' (List.length_map _), List.take_range] at hfront
  have hle : st.offers.length ≤ st.events.length := by
    have := congrArg List.length hids
    simp only [List.length_append, List.length_map, List.length_range] at this
    omega
  rwa [min_eq_left hle] at hfront

/-- When `do_run` returns, the sink has been offered all events. -/
theorem offers_eq_of_returns (h : (system formatTime s sink init).Reach ok st) (hoka : ok st a)
    (hs : step formatTime s sink st a = some st') (hrun : st.process.log ≠ .returned)
    (hret : st'.process.log = .returned) :
    st'.offers.map (·.item.event) = st'.events.map (stamped formatTime) := by
  have hreach' : (system formatTime s sink init).Reach ok st' := .step h hoka hs
  have hinv := inv_of_reach (process_of_reach (C := fun _ => True) (fun _ _ _ => trivial) hreach')
  have hnone : pending n s st'.process = [] :=
    pending_eq_nil hinv hret (events_eq_nil_of_returns hs hrun hret)
  have hids := ids_append_pending hreg hok hreach'
  rw [hnone, List.append_nil] at hids
  rw [events_of_ids (offered_of_reach hreach') hids, List.take_length]

end Offers

end Attached

end Logfile
