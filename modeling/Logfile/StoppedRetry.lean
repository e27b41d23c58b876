import Logfile.Ownership

/-!
# A retry thread that has stopped

`retry_thread::run` leaves its loop when `active()` is false, and the log thread queues
an event when `active()` was true, or right after it has constructed the thread. Between
its decision and `enqueue` the log thread is in a window (`LogPc.handsTo`) in which the
retry thread can still see an empty queue and stop. The event then stays in a queue
nobody serves (`stopped_retry_owns_event`), `active()` is true for ever, and so is every
later event of the stream queued there.

In a run in which no retry thread stops inside the window, a stopped retry thread owns
no event (`stoppedOwnsNothing_of_reach`).
-/

set_option linter.unusedSectionVars false

namespace Logfile

/-- The queue of a retry thread whose `run()` has left the loop is empty. -/
def StoppedOwnsNothing (st : State) : Prop :=
  ∀ (t : ℕ) (r : Retry), st.retries[t]? = some r → r.pc.left = true → r.queue = []

/-- `log` has seen the retry thread active, or has constructed it, and has not yet
queued the event. -/
def LogPc.handsTo (t : ℕ) : LogPc → Bool
  | body _ _ _ _ (.enqueue t') => t' = t
  | body _ _ _ _ (.announce t') => t' = t
  | body _ _ _ _ (.first t') => t' = t
  | _ => false

/-- The step is the test that ends `run()`, taken while `log` is about to queue. -/
def exitsInWindow (st : State) : Action → Bool
  | .retry t _ _ =>
    match st.retry? t with
    | some r => r.pc = .test && !r.active && st.log.handsTo t
    | none => false
  | _ => false

/-- A stopped retry thread owns no event, and no event is about to be queued in one. -/
structure Served (st : State) : Prop where
  empty : ∀ t r, deref st.retries t = some r → r.pc.left = true → r.queue = []
  window : ∀ t r, st.log.handsTo t = true → deref st.retries t = some r → r.pc.left = false

variable {st st' : State}

@[simp] theorem handsTo_visit (e : Item) (rest : List Item) (o : Option (String × Stream))
    (t : ℕ) : (st.visit e rest o).log.handsTo t = false := by
  cases o <;> rfl

/-- A step that leaves the retry threads alone and opens no window. -/
theorem Served.frame (h : Served st) (hl : st'.retries = st.retries)
    (hw : ∀ t, st'.log.handsTo t = true → st.log.handsTo t = true) : Served st' where
  empty t r hr := h.empty t r (hl ▸ hr)
  window t r ht hr := h.window t r (hw t ht) (hl ▸ hr)

/-- A step that queues an event in a thread of the window. -/
theorem Served.enqueueRetry (h : Served st) {t : ℕ} {e : Item}
    (hl : st'.retries = (st.enqueueRetry t e).retries) (hold : st.log.handsTo t = true)
    (hw : ∀ t', st'.log.handsTo t' = false) : Served st' where
  empty t' r hr hleft := by
    rw [hl, deref_enqueueRetry] at hr
    split_ifs at hr with htt
    · subst htt
      obtain ⟨r₀, hr₀, rfl⟩ := Option.map_eq_some_iff.1 hr
      have hrun : r₀.pc.left = false := h.window t r₀ hold hr₀
      exact absurd hleft (by simp [hrun])
    · exact h.empty t' r hr hleft
  window t' r ht := by simp [hw] at ht

/-- A step that deletes a retry thread outside any window. -/
theorem Served.delete (h : Served st) {t : ℕ} (hl : st'.retries = (st.deleteRetry t).retries)
    (hw : ∀ t', st'.log.handsTo t' = false) : Served st' where
  empty t' r hr := by
    rw [hl, deref_deleteRetry] at hr
    split_ifs at hr
    exact h.empty t' r hr
  window t' r ht := by simp [hw] at ht

theorem Served.body (h : Served st) {e : Item} {rest : List Item} {n : String} {s : Stream}
    {pc : BodyPc} (hlog : st.log = .body e rest n s pc) (hs : BodyMove st e rest n s pc st') :
    Served st' := by
  cases hs with
  | crash => exact h.frame rfl fun _ => id
  | absent => exact h.frame rfl (by rintro _ ⟨⟩)
  | null => exact h.frame rfl (by rintro _ ⟨⟩)
  | entry => exact h.frame rfl (by rintro _ ⟨⟩)
  | @busy t r hr hq =>
    refine ⟨h.empty, fun t' r' ht hr' => ?_⟩
    obtain rfl : t = t' := by simpa [State.goto, LogPc.handsTo] using ht
    obtain rfl := Option.some.inj (hr.symm.trans hr')
    by_contra hleft
    exact hq (h.empty t r hr (by simpa using hleft))
  | idle => exact h.frame rfl (by rintro _ ⟨⟩)
  | enqueue =>
    exact h.enqueueRetry (advance_retries ..) (by simp [hlog, LogPc.handsTo]) (handsTo_visit _ _ _)
  | join => exact h.delete rfl fun _ => rfl
  | accept => exact h.frame (advance_retries ..) (by simp [State.advance])
  | fail => exact h.frame rfl (by rintro _ ⟨⟩)
  | construct =>
    have hnew : ∀ t, deref (st.retries ++ [Retry.new s]) t =
        if t = st.retries.length then some (Retry.new s) else deref st.retries t :=
      fun t => deref_append rfl
    refine ⟨fun t r hr => ?_, fun t r ht hr => ?_⟩
    · simp only [State.goto, hnew] at hr
      split_ifs at hr
      · obtain rfl := Option.some.inj hr
        rintro ⟨⟩
      · exact h.empty t r hr
    · obtain rfl : st.retries.length = t := by simpa [State.goto, LogPc.handsTo] using ht
      simp only [State.goto, hnew, if_true, Option.some.injEq] at hr
      exact hr ▸ rfl
  | drop => exact h.frame (advance_retries ..) (by simp [State.advance])
  | announce => exact h.frame rfl (by simp [hlog, State.goto, LogPc.handsTo])
  | first => exact h.enqueueRetry rfl (by simp [hlog, LogPc.handsTo]) fun _ => rfl
  | emplace => exact h.frame (advance_retries ..) (by simp [State.advance])

theorem Served.logMove (h : Served st) {formatTime : ℤ → Bytes} {pc : LogPc} (hlog : st.log = pc)
    (hs : LogMove formatTime st pc st') : Served st' := by
  cases hs with
  | crash => exact h.frame rfl fun _ => id
  | body _ hmove => exact h.body hlog hmove
  | take => exact h.frame (visit_retries ..) (by simp)
  | @scanned b => exact h.frame rfl (by cases b <;> rintro _ ⟨⟩)
  | scanJoin => exact h.delete rfl fun _ => rfl
  | _ => exact h.frame rfl (by rintro _ ⟨⟩)

/-- A step of a retry thread that adds no event to the queue and, if it ends the loop,
finds the queue empty outside the window. -/
theorem Served.modifyRetry (h : Served st) {t : ℕ} {r : Retry} {f : Retry → Retry}
    (hr : deref st.retries t = some r) (hl : st'.retries = (st.modifyRetry t f).retries)
    (hlog : st'.log = st.log) (hd : ∀ r, (f r).deleted = r.deleted)
    (hf : (f r).pc.left = true → (f r).queue = [] ∧ (st.log.handsTo t = true → r.pc.left = true)) :
    Served st' where
  empty t' r' hr' hleft := by
    rw [hl, deref_modifyRetry st hd] at hr'
    split_ifs at hr' with htt
    · subst htt
      obtain rfl : f r = r' := by simpa [hr] using hr'
      exact (hf hleft).1
    · exact h.empty t' r' hr' hleft
  window t' r' ht hr' := by
    rw [hlog] at ht
    rw [hl, deref_modifyRetry st hd] at hr'
    split_ifs at hr' with htt
    · subst htt
      obtain rfl : f r = r' := by simpa [hr] using hr'
      by_contra hleft
      have hrun := (hf (by simpa using hleft)).2 ht
      rw [h.window t r ht hr] at hrun
      cases hrun
    · exact h.window t' r' ht hr'

theorem Served.retryMove (h : Served st) {t : ℕ} {r : Retry} {ok : Bool} {now : ℤ}
    (hr : deref st.retries t = some r) (hexit : exitsInWindow st (.retry t ok now) = false)
    (hs : RetryMove st t r st') : Served st' := by
  cases hs with
  | crash => exact h.frame rfl fun _ => id
  | quiet hpc hq =>
    refine h.modifyRetry hr rfl rfl (fun _ => rfl) ?_
    cases hq with
    | leave hempty =>
      refine fun _ => ⟨hempty, fun ht => ?_⟩
      simp [exitsInWindow, State.retry?, hr, hpc, Retry.active, hempty, ht] at hexit
    | stopping => exact fun _ => ⟨h.empty t r hr (by rw [hpc]; rfl), fun _ => by rw [hpc]; rfl⟩
    | _ => rintro ⟨⟩
  | accept => exact h.modifyRetry hr rfl rfl (fun _ => rfl) (by rintro ⟨⟩)
  | pop => exact h.modifyRetry hr rfl rfl (fun _ => rfl) (by rintro ⟨⟩)
  | expire _ hpc =>
    refine h.modifyRetry hr rfl rfl (fun _ => rfl) ?_
    rcases hpc with rfl | rfl <;> rintro ⟨⟩

theorem Served.move (h : Served st) {formatTime : ℤ → Bytes} {a : Action}
    (hexit : exitsInWindow st a = false) (hs : Move formatTime st a st') : Served st' := by
  cases hs with
  | log hmove => exact h.logMove rfl hmove
  | retry hr hmove => exact h.retryMove hr hexit hmove
  | notify hpc =>
    rcases hpc with ⟨hw, rfl⟩ | ⟨-, rfl⟩
    · exact h.frame rfl (by rintro _ ⟨⟩)
    · exact h.frame rfl fun _ => id
  | _ => exact h.frame rfl fun _ => id

theorem servedStopped_of_reach {formatTime : ℤ → Bytes}
    (h : (system formatTime).Reach (fun st a => exitsInWindow st a = false) st) : Served st := by
  refine h.invariant (fun st hi => ⟨?_, ?_⟩) fun _ _ _ _ hi hok hs => hi.move hok (move hs)
  · intro t r hr
    simp [hi.retries, deref] at hr
  · intro t r _ hr
    simp [hi.retries, deref] at hr

/-- In a run in which no retry thread stops while `log` is between its decision to queue
an event there and the queueing, a retry thread that has stopped owns no event. -/
theorem stoppedOwnsNothing_of_reach (formatTime : ℤ → Bytes) {st : State}
    (h : (system formatTime).Reach (fun st a => exitsInWindow st a = false) st) :
    StoppedOwnsNothing st := by
  intro t r hr hleft
  cases hd : r.deleted with
  | true => exact ((inv_of_reach h).deleted t r hr hd).1
  | false => exact (servedStopped_of_reach h).empty t r (deref_eq_some_iff.2 ⟨hr, hd⟩) hleft

/-! ## Runs on one sink -/

/-- The new thread wakes up, finds nothing and stops; only then is the event queued. -/
def stranding : List Action :=
  failedWrite ++ List.replicate 5 (.retry 0 true 0) ++ [.log true, .log true]

/-- The event is queued first, then delivered, and the thread stops. -/
def retried : List Action :=
  failedWrite ++ List.replicate 3 (.log true) ++ List.replicate 8 (.retry 0 true 0)

/-- The first retry thread has left its loop, with an empty queue or not. -/
def stoppedWith (empty : Bool) (st : State) : Bool :=
  st.retries[0]?.any fun r => r.pc.left && r.queue.isEmpty == empty

theorem stopped_retry_owns_event :
    ¬∀ st, (system fun _ => []).Reachable st → StoppedOwnsNothing st := by
  intro h
  obtain ⟨st, hreach, hst⟩ := System.exists_reach (T := system fun _ => [])
    (b := fun _ _ => true) (p := fun _ _ => True) (fun _ _ _ => trivial)
    (State.initial_start (OrdMap.empty.emplace "stdout" 1)) stranding (stoppedWith false) rfl
  obtain ⟨r, hr, hbad⟩ := (Option.any_eq_true _ _).1 hst
  simp only [Bool.and_eq_true, beq_iff_eq, List.isEmpty_eq_false_iff] at hbad
  exact hbad.2 (h st hreach 0 r hr hbad.1)

theorem stoppedOwnsNothing_retried : ∃ st, stoppedWith true st = true ∧ StoppedOwnsNothing st := by
  obtain ⟨st, hreach, hst⟩ := System.exists_reach (T := system fun _ => [])
    (b := fun st a => !exitsInWindow st a) (p := fun st a => exitsInWindow st a = false)
    (fun _ _ h => by simpa using h)
    (State.initial_start (OrdMap.empty.emplace "stdout" 1)) retried (stoppedWith true) rfl
  exact ⟨st, hst, stoppedOwnsNothing_of_reach (fun _ => []) hreach⟩

end Logfile
