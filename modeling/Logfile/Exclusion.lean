import Logfile.Ownership

/-!
# Writes to a stream exclude each other

No lock protects a stream. The log thread constructs a retry thread only when there is none
for the stream, joins it before it forgets it, and writes to the stream itself only when it
has found none. Since a retry thread that has not returned is always the one that the log
thread has for its stream (`Inv.current_of_running`), two threads are never inside `write` of
one stream (`writesExclusive_of_reach`). Nothing is assumed about the names a stream is
registered under.
-/

namespace Logfile

/-- The threads that write to streams. -/
inductive Writer
  | log
  | retry (t : ℕ)
  deriving DecidableEq, Repr

/-- The thread is inside `output_stream::write` of the stream. -/
def State.inWrite (st : State) (s : Stream) : Writer → Prop
  | .log => ∃ e rest n, st.log = .body e rest n s .write
  | .retry t => ∃ r e, st.retries[t]? = some r ∧ r.stream = s ∧ r.pc = .write e

/-- `run()` of the retry thread `t`, a thread for the stream `s`, has not returned. -/
def State.running (st : State) (t : ℕ) (s : Stream) : Prop :=
  ∃ r : Retry, st.retries[t]? = some r ∧ r.stream = s ∧ r.pc ≠ .finished

/-- The retry threads that run and the writes to the streams. -/
structure WritesExclusive (st : State) : Prop where
  /-- a running retry thread is the entry of its stream, unless `log` is about to make it so -/
  recorded : ∀ t s, st.running t s →
    st.retryMap.find s = some (some t) ∨ st.log.holds = some (s, t)
  /-- there is at most one for each stream -/
  single : ∀ t t' s, st.running t s → st.running t' s → t = t'
  /-- at most one thread is inside `write` of a stream -/
  writing : ∀ s w w', st.inWrite s w → st.inWrite s w' → w = w'

variable {st : State}

/-- The log thread has every retry thread that runs. -/
theorem Inv.current_of_running (h : Inv st) {t : ℕ} {s : Stream} (hrun : st.running t s) :
    current st.retryMap st.log s = some t := by
  obtain ⟨r, hr, hs, hpc⟩ := hrun
  have hlive : r.deleted = false := by
    by_contra hdel
    exact hpc (h.deleted t r hr (by simpa using hdel)).2
  exact (h.owner s t).2 ⟨r, deref_eq_some_iff.2 ⟨hr, hlive⟩, hs⟩

theorem recorded_of_current {s : Stream} {t : ℕ} (h : current st.retryMap st.log s = some t) :
    st.retryMap.find s = some (some t) ∨ st.log.holds = some (s, t) := by
  unfold current at h
  rcases Option.or_eq_some_iff.1 h with hfind | ⟨-, hholds⟩
  · exact Or.inl (Option.join_eq_some_iff.1 hfind)
  · obtain ⟨⟨s', t'⟩, hmem, rfl⟩ := Option.map_eq_some_iff.1 hholds
    obtain ⟨hsome, hs⟩ := Option.filter_eq_some_iff.1 hmem
    obtain rfl : s' = s := of_decide_eq_true hs
    exact Or.inr hsome

theorem State.inWrite.running {s : Stream} {t : ℕ} (h : st.inWrite s (.retry t)) :
    st.running t s := by
  obtain ⟨r, e, hr, hs, hpc⟩ := h
  exact ⟨r, hr, hs, by simp [hpc]⟩

/-- While the log thread writes to a stream, no retry thread of the stream runs. -/
theorem Inv.not_running_of_inWrite (h : Inv st) {s : Stream} (hw : st.inWrite s .log) (t : ℕ) :
    ¬st.running t s := by
  intro hrun
  obtain ⟨e, rest, n, hlog⟩ := hw
  have hfacts : st.retryMap.find s = none := by
    have := h.log
    rwa [hlog] at this
  rcases recorded_of_current (h.current_of_running hrun) with hfind | hholds
  · rw [hfacts] at hfind
    cases hfind
  · rw [hlog] at hholds
    cases hholds

/-- In every run, whatever streams are registered under whatever names. -/
theorem writesExclusive_of_reach (formatTime : ℤ → Bytes) {st : State}
    (h : (system formatTime).Reachable st) : WritesExclusive st := by
  have hinv : Inv st := inv_of_reach h
  have hsingle : ∀ t t' s, st.running t s → st.running t' s → t = t' := by
    intro t t' s ht ht'
    have hcur := hinv.current_of_running ht
    rw [hinv.current_of_running ht', Option.some.injEq] at hcur
    exact hcur.symm
  refine ⟨fun t s hrun => recorded_of_current (hinv.current_of_running hrun), hsingle, ?_⟩
  intro s w w' hw hw'
  cases w with
  | log =>
    cases w' with
    | log => rfl
    | retry t' => exact absurd hw'.running (hinv.not_running_of_inWrite hw t')
  | retry t =>
    cases w' with
    | log => exact absurd hw.running (hinv.not_running_of_inWrite hw' t)
    | retry t' => exact congrArg Writer.retry (hsingle t t' s hw.running hw'.running)

/-- Both sinks fail, one stream under two names, and the retry thread tries again. -/
def retriedTwoNames : List Action :=
  failedWrite ++ [.log true, .log true, .log true] ++
    [.retry 0 true 0, .retry 0 true 0, .retry 0 true 0]

theorem writesExclusive_retriedTwoNames :
    ∃ st : State, (∃ t, st.inWrite 1 (.retry t)) ∧ WritesExclusive st := by
  obtain ⟨st, hreach, hst⟩ := System.exists_reach (T := system fun _ => [])
    (b := fun _ _ => true) (p := fun _ _ => True) (fun _ _ _ => trivial)
    (State.initial_start ((OrdMap.empty.emplace "stdout" 1).emplace "copy" 1)) retriedTwoNames
    (fun st => st.retries.any fun r => r.stream == 1 && r.pc == .write ⟨0, someEvent⟩) rfl
  obtain ⟨r, hr, hwrite⟩ := List.any_eq_true.1 hst
  simp only [Bool.and_eq_true, beq_iff_eq] at hwrite
  obtain ⟨t, ht⟩ := List.mem_iff_getElem?.1 hr
  exact ⟨st, ⟨t, r, _, ht, hwrite.1, hwrite.2⟩, writesExclusive_of_reach _ hreach⟩

end Logfile
