import Logfile.Pending

/-!
# Shutting down

Once termination is requested and no event is left, `do_run` scans `m_retry_map`, joins
the retry threads that are not active and leaves null entries behind. While another retry
thread is active, or when new events have arrived, it scans again, and it does not expect
the entries it has left (`scan_meets_null`). In a run in which no pass starts on a null
entry, every entry the scan looks at is a retry thread that is not deleted
(`scanSafe_of_reach`).

When `do_run` does return, nothing is left : every event was passed to `log` once, every
retry thread was joined with an empty queue, and each event is settled for every stream
that was registered all the time (`complete`).
-/

set_option linter.unusedSectionVars false

namespace Logfile

/-! ## The scan of the retry threads -/

/-- The scan evaluates `i.second->active()` for a retry thread that is not deleted. -/
def ScanSafe (st : State) : Prop :=
  ∀ s todo b, st.log = .scan (s :: todo) b →
    ∃ t r, st.retryMap.find s = some (some t) ∧ deref st.retries t = some r

/-- The step is the one that starts a pass of the scan. -/
def startsScan (st : State) : Action → Bool
  | .log _ => st.log = .check && st.doTerminate && st.events.isEmpty
  | _ => false

/-- No pass of the scan starts on an entry that an earlier pass has left null. -/
def NoNullAtStart (st : State) (a : Action) : Prop :=
  startsScan st a = true → ∀ k, st.retryMap.find k ≠ some none

/-- The entries the scan will still visit. -/
def LogPc.todo : LogPc → List Stream
  | scan todo _ => todo
  | scanJoin _ _ todo _ => todo
  | _ => []

/-- The scan will find a retry thread at each entry it will still visit. -/
def ScanEntries (st : State) : Prop :=
  ∀ k ∈ st.log.todo, ∃ t, st.retryMap.find k = some (some t)

section Scan

variable {st st' : State}

theorem ScanEntries.frame (h : ScanEntries st) (hm : st'.retryMap = st.retryMap)
    (hl : st'.log.todo ⊆ st.log.todo) : ScanEntries st' :=
  fun _ hk => hm ▸ h _ (hl hk)

theorem scanEntries_of_todo_eq_nil (hl : st'.log.todo = []) : ScanEntries st' :=
  fun _ hk => absurd (hl ▸ hk) List.not_mem_nil

theorem todo_visit (st : State) (e : Item) (rest : List Item) (o : Option (String × Stream)) :
    (st.visit e rest o).log.todo = [] := by
  cases o <;> rfl

theorem ScanEntries.logMove (h : ScanEntries st) (hinv : Inv st) {formatTime : ℤ → Bytes}
    {ok : Bool} {pc : LogPc} (hlog : st.log = pc) (hnull : NoNullAtStart st (.log ok))
    (hs : LogMove formatTime st pc st') : ScanEntries st' := by
  cases hs with
  | crash => exact h
  | body _ hmove =>
    cases hmove with
    | crash => exact h
    | enqueue => exact scanEntries_of_todo_eq_nil (todo_visit ..)
    | accept => exact scanEntries_of_todo_eq_nil (todo_visit ..)
    | drop => exact scanEntries_of_todo_eq_nil (todo_visit ..)
    | emplace => exact scanEntries_of_todo_eq_nil (todo_visit ..)
    | _ => exact scanEntries_of_todo_eq_nil rfl
  | take => exact scanEntries_of_todo_eq_nil (todo_visit ..)
  | scan hterm hev =>
    intro k hk
    obtain ⟨v, hv⟩ := OrdMap.mem_keys.1 hk
    have hne := hnull (by simp [startsScan, hlog, hterm, hev]) k
    cases v with
    | none => exact absurd hv hne
    | some t => exact ⟨t, hv⟩
  | @scanned b => exact scanEntries_of_todo_eq_nil (by cases b <;> rfl)
  | scanBusy => exact h.frame rfl (by rw [hlog]; exact List.subset_cons_self ..)
  | scanIdle => exact h.frame rfl (by rw [hlog]; exact List.subset_cons_self ..)
  | @scanJoin s t todo b r =>
    -- the entry that becomes null is not visited again in this pass
    obtain ⟨hnodup, hfind, -⟩ : LogFacts st.retryMap st.retries (.scanJoin s t todo b) :=
      hlog ▸ hinv.log
    intro k hk
    have hks : k ≠ s := fun hks => (List.nodup_cons.1 hnodup).1 (hks ▸ hk)
    obtain ⟨t', ht'⟩ := h k (by rw [hlog]; exact hk)
    exact ⟨t', by simpa [State.goto, OrdMap.find_assign hfind, hks] using ht'⟩
  | _ => exact scanEntries_of_todo_eq_nil rfl

theorem ScanEntries.move (h : ScanEntries st) (hinv : Inv st) {formatTime : ℤ → Bytes}
    {a : Action} (hnull : NoNullAtStart st a) (hs : Move formatTime st a st') :
    ScanEntries st' := by
  cases hs with
  | notify hpc =>
    rcases hpc with ⟨-, rfl⟩ | ⟨-, rfl⟩
    · exact scanEntries_of_todo_eq_nil rfl
    · exact h
  | log hmove => exact h.logMove hinv rfl hnull hmove
  | retry _ hmove => cases hmove <;> exact h
  | _ => exact h

/-- In a run in which no pass starts on a null entry, the scan never meets a null or
deleted retry thread. -/
theorem scanSafe_of_reach (formatTime : ℤ → Bytes)
    (h : (system formatTime).Reach NoNullAtStart st) : ScanSafe st := by
  have hentries : ScanEntries st :=
    h.invariant (fun st hi => scanEntries_of_todo_eq_nil (by rw [hi.log]; rfl))
      fun st a st' hr hi hok hs => hi.move (inv_of_reach hr) hok (move hs)
  intro s todo b hlog
  obtain ⟨t, ht⟩ := hentries s (by rw [hlog]; exact List.mem_cons_self)
  obtain ⟨r, hr, -⟩ := (inv_of_reach h).deref_of_find ht
  exact ⟨t, r, ht, hr⟩

end Scan

/-- Both sinks fail the event, and termination has been requested meanwhile. -/
def bothFail : List Action :=
  failedWrite ++ [.terminate] ++ List.replicate 4 (.log true) ++ [.log false] ++
    List.replicate 6 (.log true)

/-- The first retry thread delivers and stops. One pass joins it and sees the second one
active, and the next pass starts. -/
def secondPass : List Action :=
  bothFail ++ List.replicate 9 (.retry 0 true 0) ++ List.replicate 8 (.log true)

/-- The scan is about to look at an entry, which is null or not. -/
def scanMeets (null : Bool) (st : State) : Bool :=
  match st.log with
  | .scan (s :: _) _ => (st.retryMap.find s == some none) == null
  | _ => false

theorem scan_meets_null : ¬∀ st, (system fun _ => []).Reachable st → ScanSafe st := by
  intro h
  obtain ⟨st, hreach, hst⟩ := System.exists_reach (T := system fun _ => [])
    (b := fun _ _ => true) (p := fun _ _ => True) (fun _ _ _ => trivial)
    (State.initial_start ((OrdMap.empty.emplace "a" 1).emplace "b" 2)) secondPass
    (scanMeets true) rfl
  unfold scanMeets at hst
  split at hst
  · next s todo b hlog =>
    obtain ⟨t, r, hfind, -⟩ := h st hreach s todo b hlog
    simp [hfind] at hst
  · cases hst

instance (st : State) (a : Action) : Decidable (NoNullAtStart st a) :=
  decidable_of_iff (startsScan st a = true → ∀ p ∈ st.retryMap.entries, p.2 ≠ none)
    ⟨fun h hs _ hk => h hs _ (OrdMap.find_eq_some_iff.1 hk) rfl,
      fun h hs p hp hnone => h hs p.1 (hnone ▸ OrdMap.find_eq_some_iff.2 hp)⟩

theorem scanSafe_bothFail : ∃ st, scanMeets false st = true ∧ ScanSafe st := by
  obtain ⟨st, hreach, hst⟩ := System.exists_reach (T := system fun _ => [])
    (b := fun st a => decide (NoNullAtStart st a)) (p := NoNullAtStart)
    (fun _ _ h => of_decide_eq_true h)
    (State.initial_start ((OrdMap.empty.emplace "a" 1).emplace "b" 2)) bothFail
    (scanMeets false) rfl
  exact ⟨st, hst, scanSafe_of_reach (fun _ => []) hreach⟩

/-! ## What is settled when `do_run` returns -/

/-- The stream accepted the event, or the event expired or was dropped for it. -/
def Settled (s : Stream) (tr : List Obs) (id : ℕ) : Prop :=
  id ∈ accepted s tr ∨ id ∈ expired s tr ∨ id ∈ dropped s tr

/-- No event is lost silently for the stream `s` registered under `n`. -/
def Covered (n : String) (s : Stream) (st : State) : Prop :=
  ∀ id < st.count, Settled s st.trace id ∨ id ∈ pending n s st

section Covered

variable {st st' : State} {n : String} {s : Stream}

theorem settled_iff {tr : List Obs} {id : ℕ} :
    Settled s tr id ↔ id ∈ accepted s tr ∨ id ∈ lost s tr := by
  simp only [Settled, (lost_perm s tr).mem_iff, List.mem_append]
  tauto

theorem Settled.append {tr tr' : List Obs} {id : ℕ} (h : Settled s tr id) :
    Settled s (tr ++ tr') id := by
  simp only [settled_iff, accepted_append, lost_append, List.mem_append] at *
  tauto

/-- A step that enqueues nothing and settles what is no longer pending. -/
theorem Covered.of_pending (h : Covered n s st) {o : List Obs} (hc : st'.count = st.count)
    (ht : st'.trace = st.trace ++ o)
    (hp : ∀ id ∈ pending n s st, Settled s st'.trace id ∨ id ∈ pending n s st') :
    Covered n s st' := by
  intro id hid
  rcases h id (hc ▸ hid) with hset | hpend
  · exact Or.inl (ht ▸ hset.append)
  · exact hp id hpend

theorem Covered.effect (h : Covered n s st) (hat : st.log.At fun m s' => m = n → s' = s)
    (he : Effect n s st st') : Covered n s st' := by
  cases he with
  | keep o hp hc ht => exact h.of_pending hc ht fun id hid => Or.inr (hp ▸ hid)
  | send hp hc ht =>
    intro id hid
    rw [hc, Nat.lt_succ_iff_lt_or_eq] at hid
    rcases hid with hlt | rfl
    · rcases h id hlt with hset | hpend
      · exact Or.inl (ht ▸ hset.append)
      · exact Or.inr (by simp [hp, hpend])
    · exact Or.inr (by simp [hp])
  | arrive x hp hc ht =>
    refine h.of_pending hc ht fun id hid => ?_
    rcases List.mem_cons.1 (hp ▸ hid) with rfl | hpend
    · exact Or.inl (settled_iff.2 (by simp [ht, accepted]))
    · exact Or.inr hpend
  | lose o hsub hperm hc ht =>
    refine h.of_pending hc ht fun id hid => ?_
    rcases List.mem_append.1 (hperm.mem_iff.2 hid) with hlost | hpend
    · exact Or.inl (settled_iff.2 (by simp [ht, lost_append, hlost]))
    · exact Or.inr hpend
  | @pass e rest m s' pc o q Q R hlog hp hp' hc ht hq =>
    have hms : m = n → s' = s := by rwa [hlog] at hat
    refine h.of_pending hc ht fun id hid => ?_
    by_cases hmn : m = n
    · -- at the node the event is queued, accepted or dropped
      have hs := hms hmn
      simp only [hp, hmn, le_refl, if_true, List.mem_append, List.mem_singleton] at hid
      simp only [hp', hmn, lt_irrefl, if_false, List.mem_append, List.append_nil]
      rcases hid with (hid | rfl) | hid
      · exact Or.inr (by simp [hid])
      · rcases hq with ⟨-, rfl⟩ | ⟨-, -, rfl | rfl⟩
        · exact Or.inr (by simp [hs])
        · exact Or.inl (settled_iff.2 (by simp [ht, accepted, hs]))
        · exact Or.inl (settled_iff.2 (by simp [ht, lost, hs]))
      · exact Or.inr (by simp [hid])
    · -- at any other node it stays in hand
      refine Or.inr ?_
      simp only [hp, le_iff_lt_or_eq, hmn, or_false] at hid
      simp only [hp', List.mem_append] at hid ⊢
      rcases hid with (hid | hid) | hid
      · exact Or.inl (Or.inl (Or.inl hid))
      · exact Or.inl (Or.inr hid)
      · exact Or.inr hid

theorem covered_of_reach {formatTime : ℤ → Bytes} {ok : State → Action → Prop}
    (hreg : ∀ st a, ok st a → st.streams.find n = some s)
    (h : (system formatTime).Reach ok st) : Covered n s st := by
  have hboth : Covered n s st ∧ st.log.At fun m s' => m = n → s' = s := by
    refine h.invariant (I := fun st => Covered n s st ∧ st.log.At fun m s' => m = n → s' = s)
      (fun st hi => ⟨?_, ?_⟩) fun st a st' hr ⟨hcov, hat⟩ hok hs => ?_
    · intro id hid
      simp [hi.count] at hid
    · rw [hi.log]
      trivial
    · have hfind := hreg st a hok
      refine ⟨hcov.effect hat (effect_move (inv_of_reach hr) hfind (move hs)),
        hat.move (fun m s' hm hmn => ?_) (move hs)⟩
      exact Option.some.inj ((hmn ▸ hm).symm.trans hfind)
  exact hboth.1

end Covered

/-! ## The return of `do_run` -/

section Return

variable {st st' : State}

theorem visit_log_ne (st : State) (e : Item) (rest : List Item) (o : Option (String × Stream)) :
    (st.visit e rest o).log ≠ .returned := by
  cases o <;> nofun

/-- `do_run` returns after it has found `m_events` empty again. -/
theorem returns_inv {formatTime : ℤ → Bytes} {a : Action} (hs : Move formatTime st a st')
    (hrun : st.log ≠ .returned) (hret : st'.log = .returned) :
    st.log = .final ∧ st.events = [] ∧ st' = st.goto .returned := by
  cases hs with
  | notify hpc =>
    rcases hpc with ⟨-, rfl⟩ | ⟨-, rfl⟩
    · cases hret
    · exact (hrun hret).elim
  | log hmove =>
    generalize hlog : st.log = pc at hmove hrun
    cases hmove with
    | crash => exact (hrun (hlog.symm.trans hret)).elim
    | body _ hbody =>
      cases hbody with
      | crash => cases hlog.symm.trans hret
      | enqueue => exact (visit_log_ne _ _ _ _ hret).elim
      | accept => exact (visit_log_ne _ _ _ _ hret).elim
      | drop => exact (visit_log_ne _ _ _ _ hret).elim
      | emplace => exact (visit_log_ne _ _ _ _ hret).elim
      | _ => cases hret
    | take => exact (visit_log_ne _ _ _ _ hret).elim
    | @scanned b => cases b <;> cases hret
    | finish hev => exact ⟨rfl, hev, rfl⟩
    | _ => cases hret
  | retry _ hmove => cases hmove <;> exact (hrun hret).elim
  | _ => exact (hrun hret).elim

/-- Without an entry of `m_retry_map` no retry thread is left. -/
theorem Inv.all_joined (h : Inv st) (hh : st.log.holds = none)
    (hnone : ∀ k t, st.retryMap.find k ≠ some (some t)) {t : ℕ} {r : Retry}
    (hr : st.retries[t]? = some r) : r.deleted = true ∧ r.pc = .finished ∧ r.queue = [] := by
  cases hd : r.deleted with
  | true =>
    obtain ⟨hq, hpc⟩ := h.deleted t r hr hd
    exact ⟨rfl, hpc, hq⟩
  | false =>
    have hcur := (h.owner r.stream t).2 ⟨r, deref_eq_some_iff.2 ⟨hr, hd⟩, rfl⟩
    rw [current, hh] at hcur
    exact (hnone r.stream t (Option.join_eq_some_iff.1 (by simpa using hcur))).elim

/-- When `do_run` returns, `m_events` is empty, every event was passed to `log` once, every
retry thread was joined with an empty queue, and every event is settled for each stream
that was registered in all the run. -/
theorem complete (formatTime : ℤ → Bytes) {ok : State → Action → Prop} {a : Action}
    (h : (system formatTime).Reach ok st) (hs : step formatTime st a = some st')
    (hrun : st.log ≠ .returned) (hret : st'.log = .returned) :
    st'.events = [] ∧
      (logged st'.trace = enqueued st'.trace ∧ (enqueued st'.trace).Nodup) ∧
      (∀ (t : ℕ) (r : Retry), st'.retries[t]? = some r →
        r.deleted = true ∧ r.pc = .finished ∧ r.queue = []) ∧
      (∀ k v, st'.retryMap.find k = some v → v = none) ∧
      ∀ n s, (∀ st a, ok st a → st.streams.find n = some s) →
        ∀ id ∈ enqueued st'.trace, Settled s st'.trace id := by
  obtain ⟨hfinal, hev, rfl⟩ := returns_inv (move hs) hrun hret
  have hinv := inv_of_reach h
  have hcount := counted_of_reach h
  have hnone : ∀ k t, st.retryMap.find k ≠ some (some t) := by
    have := hinv.log
    rwa [hfinal] at this
  have hholds : st.log.holds = none := by rw [hfinal]; rfl
  refine ⟨hev, ⟨?_, ?_⟩, fun t r hr => hinv.all_joined hholds hnone hr, fun k v hv => ?_,
    fun n s hreg id hid => ?_⟩
  · have hlogged := hcount.logged
    rw [hfinal, hev] at hlogged
    exact (by simpa [LogPc.rest, ids] using hlogged : logged st.trace = _).trans
      hcount.enqueued.symm
  · exact hcount.enqueued ▸ List.nodup_range
  · cases v with
    | none => rfl
    | some t => exact (hnone k t hv).elim
  · have hlt : id < st.count := List.mem_range.1 (hcount.enqueued ▸ hid)
    rcases covered_of_reach hreg h id hlt with hset | hpend
    · exact hset
    · -- nothing is pending any more
      have hqueued : st.queued s = [] := by
        refine queued_eq_nil hinv fun t r hr => ?_
        obtain ⟨hget, hd⟩ := deref_eq_some_iff.1 hr
        exact absurd (hinv.all_joined hholds hnone hget).1 (by simp [hd])
      simp [pending, hqueued, hfinal, hev, LogPc.inHand, LogPc.rest, ids] at hpend

end Return

/-- The event is delivered by a retry thread, which is joined by the only pass. -/
def retriedAtEnd : List Action :=
  failedWrite ++ [.terminate] ++ List.replicate 4 (.log true) ++
    List.replicate 9 (.retry 0 true 0) ++ List.replicate 4 (.log true)

theorem complete_retriedAtEnd : ∃ st' : State, st'.log = .returned ∧ accepted 1 st'.trace = [0] ∧
    (∀ (t : ℕ) (r : Retry), st'.retries[t]? = some r →
      r.deleted = true ∧ r.pc = .finished ∧ r.queue = []) ∧
    ∀ id ∈ enqueued st'.trace, Settled 1 st'.trace id := by
  obtain ⟨st, hreach, hst⟩ := System.exists_reach (T := system fun _ => [])
    (b := fun st _ => st.streams.find "stdout" == some 1)
    (p := fun st _ => st.streams.find "stdout" = some 1) (fun _ _ h => eq_of_beq h)
    (State.initial_start (OrdMap.empty.emplace "stdout" 1)) retriedAtEnd
    (fun st => st.log == .final && (step (fun _ => []) st (.log true)).any fun st' =>
      st'.log == .returned && accepted 1 st'.trace == [0]) rfl
  simp only [Bool.and_eq_true, beq_iff_eq, Option.any_eq_true] at hst
  obtain ⟨hfinal, st', hstep, hret, hacc⟩ := hst
  obtain ⟨-, -, hjoined, -, hsettled⟩ :=
    complete (fun _ => []) hreach hstep (by simp [hfinal]) hret
  exact ⟨st', hret, hacc, hjoined, hsettled "stdout" 1 fun _ _ h => h⟩

end Logfile
