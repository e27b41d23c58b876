import Logfile.LogRules

/-!
# No lost wake-up

`do_run` waits for `m_cond` without a loop around the wait. It tests `m_events` and
`m_do_terminate` in the critical section that the wait ends, so whoever fills the queue or
asks for termination while the thread sleeps does so behind the test, and still has its
`notify_one` to do (`Roused`). A sleeping log thread to which no notification is due has
nothing to do (`noLostWakeUp_of_reach`).
-/

namespace Logfile

variable {formatTime : ℤ → Bytes} {st st' : State}

/-- The log thread has nothing to do. -/
def State.nothingToDo (st : State) : Prop :=
  st.events = [] ∧ st.doTerminate = false

/-- A sleeping log thread that has something to do will be notified. -/
def Roused (st : State) : Prop :=
  st.log = .wait → st.nothingToDo ∨ 0 < st.notifiers

theorem visit_ne_wait (st : State) (e : Item) (rest : List Item) (o : Option (String × Stream)) :
    (st.visit e rest o).log ≠ .wait := by
  cases o <;> simp [State.visit, State.goto]

/-- `log` does not wait. -/
theorem BodyMove.ne_wait {e : Item} {rest : List Item} {n : String} {s : Stream} {pc : BodyPc}
    (hlog : st.log = .body e rest n s pc) (hs : BodyMove st e rest n s pc st') :
    st'.log ≠ .wait := by
  cases hs with
  | crash => simp [State.crash, hlog]
  | enqueue | accept | drop | emplace => exact visit_ne_wait _ _ _ _
  | _ => simp [State.goto]

/-- The log thread falls asleep only after a test that found nothing to do. -/
theorem LogMove.roused {pc : LogPc} (hlog : st.log = pc) (hs : LogMove formatTime st pc st')
    (h : Roused st) : Roused st' := by
  cases hs with
  | crash => exact h
  | sleep hterm hevents => exact fun _ => Or.inl ⟨hevents, hterm⟩
  | take => exact fun hw => absurd hw (visit_ne_wait _ _ _ _)
  | body _ hmove => exact fun hw => absurd hw (hmove.ne_wait hlog)
  | @scanned b => cases b <;> simp [Roused, State.goto]
  | _ => simp [Roused, State.goto]

theorem RetryMove.roused {t : ℕ} {r : Retry} (hs : RetryMove st t r st') (h : Roused st) :
    Roused st' := by
  cases hs <;> exact h

theorem Move.roused {a : Action} (hs : Move formatTime st a st') (h : Roused st) :
    Roused st' := by
  cases hs with
  | enqueue => exact fun _ => Or.inr (Nat.succ_pos _)
  | terminate => exact fun _ => Or.inr (Nat.succ_pos _)
  | notify hpc =>
    intro hw
    rcases hpc with ⟨-, rfl⟩ | ⟨hne, rfl⟩
    · cases hw
    · exact absurd hw hne
  | log hmove => exact hmove.roused rfl h
  | retry _ hmove => exact hmove.roused h
  | _ => exact h

theorem roused_of_reach {ok : State → Action → Prop} (h : (system formatTime).Reach ok st) :
    Roused st := by
  refine h.invariant (fun st hinit hw => ?_) fun _ _ _ _ hi _ hs => (move hs).roused hi
  rw [hinit.log] at hw
  cases hw

/-- In every run, when the log thread is blocked in `m_cond.wait` and nobody is between
releasing `m_mutex` and `notify_one`, the queue is empty and termination is not requested. -/
theorem noLostWakeUp_of_reach (formatTime : ℤ → Bytes) {st : State}
    (h : (system formatTime).Reachable st) (hwait : st.log = .wait) (hdue : st.notifiers = 0) :
    st.events = [] ∧ st.doTerminate = false := by
  rcases roused_of_reach h hwait with hnothing | hpos
  · exact hnothing
  · rw [hdue] at hpos
    exact absurd hpos (lt_irrefl 0)

/-- The log thread handles an event and falls asleep. -/
def handledOne : List Action :=
  [.enqueue someEvent, .notify, .log true, .log true, .log true, .log true, .log true, .log true]

theorem noLostWakeUp_handledOne : ∃ st : State, st.log = .wait ∧ st.trace ≠ [] ∧
    st.events = [] ∧ st.doTerminate = false := by
  obtain ⟨st, hreach, hst⟩ := System.exists_reach (T := system fun _ => [])
    (b := fun _ _ => true) (p := fun _ _ => True) (fun _ _ _ => trivial)
    (State.initial_start (OrdMap.empty.emplace "stdout" 1)) handledOne
    (fun st => st.log == .wait && st.notifiers == 0 && !st.trace.isEmpty) rfl
  simp only [Bool.and_eq_true, beq_iff_eq] at hst
  obtain ⟨⟨hwait, hdue⟩, htrace⟩ := hst
  exact ⟨st, hwait, by simpa using htrace, noLostWakeUp_of_reach _ hreach hwait hdue⟩

end Logfile
