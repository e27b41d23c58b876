import Logfile.LogRules

/-!
# Who owns a retry thread

A retry thread that is not deleted belongs to one stream, and the log thread finds it
under that stream : in `m_retry_map`, or in the local variable of `log` between its
construction and the `emplace` (`Inv.owner`). What the log thread knows at each point of
`do_run` is `LogFacts`, what a retry thread knows in `run` is `RetryFacts`. A deleted
retry thread had returned and owned no event (`Inv.deleted`). All of it holds in every
reachable state (`inv_of_reach`).
-/

set_option linter.unusedSectionVars false

namespace Logfile

/-! ## Pointers to retry threads -/

section Deref

variable {l : List Retry} {t t' : ℕ} {r : Retry}

theorem deref_eq_some_iff : deref l t = some r ↔ l[t]? = some r ∧ r.deleted = false := by
  simp [deref, Option.filter_eq_some_iff]

/-- A change that keeps the object where it is. -/
theorem deref_modify {f : Retry → Retry} (hf : ∀ r, (f r).deleted = r.deleted) :
    deref (l.modify t f) t' = if t = t' then (deref l t').map f else deref l t' := by
  simp only [deref, List.getElem?_modify]
  split_ifs with h
  · cases l[t']? with
    | none => rfl
    | some r => by_cases hd : r.deleted <;> simp [Option.filter, hf, hd]
  · simp

theorem deref_modifyRetry (st : State) {f : Retry → Retry}
    (hf : ∀ r, (f r).deleted = r.deleted) :
    deref (st.modifyRetry t f).retries t' =
      if t = t' then (deref st.retries t').map f else deref st.retries t' :=
  deref_modify hf

theorem deref_enqueueRetry (st : State) (e : Item) :
    deref (st.enqueueRetry t e).retries t' =
      if t = t' then (deref st.retries t').map fun r => { r with queue := r.queue ++ [e] }
      else deref st.retries t' :=
  deref_modify fun _ => rfl

theorem deref_deleteRetry (st : State) :
    deref (st.deleteRetry t).retries t' = if t = t' then none else deref st.retries t' := by
  simp only [State.deleteRetry, State.modifyRetry, deref, List.getElem?_modify]
  split_ifs with h
  · cases st.retries[t']? <;> simp [Option.filter]
  · simp

theorem deref_append (hr : r.deleted = false) :
    deref (l ++ [r]) t = if t = l.length then some r else deref l t := by
  simp only [deref]
  split_ifs with h
  · simp [h, hr]
  · rcases Nat.lt_or_ge t l.length with hlt | hge
    · rw [List.getElem?_append_left hlt]
    · rw [List.getElem?_eq_none (by simp; omega), List.getElem?_eq_none hge]

theorem lt_of_deref (h : deref l t = some r) : t < l.length :=
  (List.getElem?_eq_some_iff.1 (deref_eq_some_iff.1 h).1).1

end Deref

/-! ## The invariant -/

/-- The retry thread in the local variable of `log`, before the `emplace`. -/
def LogPc.holds : LogPc → Option (Stream × ℕ)
  | body _ _ _ s (.announce t) => some (s, t)
  | body _ _ _ s (.first t) => some (s, t)
  | body _ _ _ s (.emplace t) => some (s, t)
  | _ => none

section Holds

variable (e : Item) (rest : List Item) (n : String) (s : Stream) (t : ℕ)

@[simp] theorem holds_announce : (LogPc.body e rest n s (.announce t)).holds = some (s, t) := rfl
@[simp] theorem holds_first : (LogPc.body e rest n s (.first t)).holds = some (s, t) := rfl
@[simp] theorem holds_emplace : (LogPc.body e rest n s (.emplace t)).holds = some (s, t) := rfl

end Holds

/-- The retry thread the log thread has for a stream. -/
def current (m : OrdMap Stream (Option ℕ)) (pc : LogPc) (s : Stream) : Option ℕ :=
  (m.find s).join.or ((pc.holds.filter (·.1 = s)).map Prod.snd)

/-- What the log thread knows about the stream it is busy with. -/
def BodyPc.Facts (m : OrdMap Stream (Option ℕ)) (l : List Retry) (s : Stream) : BodyPc → Prop
  | find => True
  | active t | enqueue t => m.find s = some (some t)
  | join t => m.find s = some (some t) ∧ ∀ r, deref l t = some r → r.queue = []
  | write | construct => m.find s = none
  | announce t | first t => m.find s = none ∧ ∀ r, deref l t = some r → r.queue = []
  | emplace _ => m.find s = none

/-- What the log thread knows. While it scans, the entries behind it are null unless it
has seen an active retry thread; once it has seen none, all entries are null. -/
def LogFacts (m : OrdMap Stream (Option ℕ)) (l : List Retry) : LogPc → Prop
  | .body _ _ _ s pc => pc.Facts m l s
  | .scan todo stillActive =>
    todo.Nodup ∧ ∀ k t, k ∉ todo → m.find k = some (some t) → stillActive
  | .scanJoin s t todo stillActive =>
    (s :: todo).Nodup ∧ m.find s = some (some t) ∧ (∀ r, deref l t = some r → r.queue = []) ∧
      ∀ k t, k ∉ s :: todo → m.find k = some (some t) → stillActive
  | .final | .returned => ∀ k t, m.find k ≠ some (some t)
  | _ => True

/-- What a retry thread knows about its queue : the event it writes is the front, and
the event it pops is a front that was accepted. -/
def RetryFacts (tr : List Obs) (r : Retry) : Prop :=
  match r.pc with
  | .write e => r.queue.head? = some e
  | .pop => ∃ e, r.queue.head? = some e ∧ .accepted r.stream e.id ∈ tr
  | _ => True

/-- The invariant. -/
structure Inv (st : State) : Prop where
  owner : ∀ s t, current st.retryMap st.log s = some t ↔
    ∃ r, deref st.retries t = some r ∧ r.stream = s
  log : LogFacts st.retryMap st.retries st.log
  retry : ∀ t r, deref st.retries t = some r → RetryFacts st.trace r
  deleted : ∀ (t : ℕ) (r : Retry), st.retries[t]? = some r → r.deleted = true →
    r.queue = [] ∧ r.pc = .finished

theorem inv_init {st : State} (h : st.Initial) : Inv st where
  owner s t := by simp [h.retryMap, h.log, h.retries, current, LogPc.holds, deref]
  log := by simp [h.log, LogFacts]
  retry t r hr := by simp [h.retries, deref] at hr
  deleted t r hr := by simp [h.retries] at hr

/-! ## Steps that leave the retry threads where they are -/

section Visit

variable (st : State) (e : Item) (rest : List Item) (o : Option (String × Stream))

@[simp] theorem visit_retryMap : (st.visit e rest o).retryMap = st.retryMap := by cases o <;> rfl
@[simp] theorem visit_retries : (st.visit e rest o).retries = st.retries := by cases o <;> rfl
@[simp] theorem visit_trace : (st.visit e rest o).trace = st.trace := by cases o <;> rfl
@[simp] theorem visit_events : (st.visit e rest o).events = st.events := by cases o <;> rfl
@[simp] theorem visit_count : (st.visit e rest o).count = st.count := by cases o <;> rfl
@[simp] theorem visit_holds : (st.visit e rest o).log.holds = none := by cases o <;> rfl

@[simp] theorem advance_retryMap (n : String) :
    (st.advance e rest n).retryMap = st.retryMap := visit_retryMap ..
@[simp] theorem advance_retries (n : String) :
    (st.advance e rest n).retries = st.retries := visit_retries ..
@[simp] theorem advance_trace (n : String) :
    (st.advance e rest n).trace = st.trace := visit_trace ..
@[simp] theorem advance_holds (n : String) :
    (st.advance e rest n).log.holds = none := visit_holds ..

@[simp] theorem logFacts_visit (m : OrdMap Stream (Option ℕ)) (l : List Retry) :
    LogFacts m l (st.visit e rest o).log := by
  cases o <;> trivial

end Visit

theorem RetryFacts.mono {tr tr' : List Obs} {r : Retry} (h : RetryFacts tr r) (ht : tr ⊆ tr') :
    RetryFacts tr' r := by
  unfold RetryFacts at *
  split at h
  · exact h
  · obtain ⟨e, he, hmem⟩ := h
    exact ⟨e, he, ht hmem⟩
  · trivial

variable {st st' : State}

/-- A step that moves neither an entry of `m_retry_map` nor a retry thread. -/
theorem Inv.frame (h : Inv st) (hm : st'.retryMap = st.retryMap)
    (hl : st'.retries = st.retries) (ht : st.trace ⊆ st'.trace)
    (hh : st'.log.holds = st.log.holds) (hf : LogFacts st.retryMap st.retries st'.log) :
    Inv st' where
  owner s t := by rw [hl, ← h.owner, current, current, hm, hh]
  log := by rw [hm, hl]; exact hf
  retry t r hr := (h.retry t r (hl ▸ hr)).mono ht
  deleted t r hr := h.deleted t r (hl ▸ hr)

theorem Inv.crash (h : Inv st) : Inv st.crash :=
  h.frame rfl rfl (List.Subset.refl _) rfl h.log

/-- A step that changes one retry thread in place. -/
theorem Inv.modify (h : Inv st) {t : ℕ} {f : Retry → Retry} {r : Retry}
    (hr : deref st.retries t = some r) (hm : st'.retryMap = st.retryMap)
    (hl : st'.retries = st.retries.modify t f) (ht : st.trace ⊆ st'.trace)
    (hh : st'.log.holds = st.log.holds) (hs : ∀ r, (f r).stream = r.stream)
    (hd : ∀ r, (f r).deleted = r.deleted)
    (hf : LogFacts st.retryMap (st.retries.modify t f) st'.log) (hfr : RetryFacts st'.trace (f r)) :
    Inv st' where
  owner s t' := by
    rw [hl, deref_modify hd, current, hm, hh, ← current, h.owner]
    split_ifs with htt
    · subst htt
      simp [hr, hs]
    · rfl
  log := by rw [hm, hl]; exact hf
  retry t' r' hr' := by
    rw [hl, deref_modify hd] at hr'
    split_ifs at hr' with htt
    · subst htt
      obtain rfl : f r = r' := by simpa [hr] using hr'
      exact hfr
    · exact (h.retry t' r' hr').mono ht
  deleted t' r' hr' hdel := by
    rw [hl, List.getElem?_modify] at hr'
    obtain ⟨r₀, hr₀, rfl⟩ := Option.map_eq_some_iff.1 hr'
    split_ifs at hdel ⊢ with htt
    · subst htt
      have hlive := deref_eq_some_iff.1 hr
      rw [hr₀, Option.some.injEq] at hlive
      simp [hd, hlive.1, hlive.2] at hdel
    · exact h.deleted t' r₀ hr₀ hdel

/-- Changing a retry thread without queueing keeps what the log thread knows. -/
theorem LogFacts.modify {m : OrdMap Stream (Option ℕ)} {l : List Retry} {pc : LogPc} {t : ℕ}
    {f : Retry → Retry} (hd : ∀ r, (f r).deleted = r.deleted)
    (hq : ∀ r, deref l t = some r → r.queue = [] → (f r).queue = []) (h : LogFacts m l pc) :
    LogFacts m (l.modify t f) pc := by
  have hempty : ∀ t', (∀ r, deref l t' = some r → r.queue = []) →
      ∀ r, deref (l.modify t f) t' = some r → r.queue = [] := by
    intro t' h' r hr
    rw [deref_modify hd] at hr
    split_ifs at hr with htt
    · subst htt
      obtain ⟨r₀, hr₀, rfl⟩ := Option.map_eq_some_iff.1 hr
      exact hq r₀ hr₀ (h' r₀ hr₀)
    · exact h' r hr
  cases pc with
  | body e rest n s pc =>
    cases pc with
    | join t' => exact ⟨h.1, hempty t' h.2⟩
    | announce t' => exact ⟨h.1, hempty t' h.2⟩
    | first t' => exact ⟨h.1, hempty t' h.2⟩
    | _ => exact h
  | scanJoin s t' todo stillActive => exact ⟨h.1, h.2.1, hempty t' h.2.2.1, h.2.2.2⟩
  | _ => exact h

/-- A step that deletes the retry thread the log thread has just joined. -/
theorem Inv.delete (h : Inv st) {t : ℕ} {r : Retry} {m : OrdMap Stream (Option ℕ)} {pc : LogPc}
    (hr : deref st.retries t = some r) (hfind : st.retryMap.find r.stream = some (some t))
    (hm : ∀ k, k ≠ r.stream → m.find k = st.retryMap.find k)
    (hnull : ∀ t', m.find r.stream ≠ some (some t')) (hold : st.log.holds = none)
    (hh : pc.holds = none) (hq : r.queue = []) (hpc : r.pc = .finished)
    (hf : LogFacts m (st.deleteRetry t).retries pc) :
    Inv ({ st.deleteRetry t with retryMap := m }.goto pc) where
  owner s t' := by
    change current m pc s = some t' ↔
      ∃ r', deref (st.deleteRetry t).retries t' = some r' ∧ r'.stream = s
    have hown := h.owner s t'
    rw [deref_deleteRetry]
    by_cases hs : s = r.stream
    · subst hs
      have hcur : current m pc r.stream = none := by
        cases hj : (m.find r.stream).join with
        | none => simp [current, hj, hh]
        | some t'' => exact (hnull t'' (Option.join_eq_some_iff.1 hj)).elim
      rw [hcur]
      constructor
      · rintro ⟨⟩
      · rintro ⟨r', hr', hs'⟩
        split_ifs at hr' with htt
        have hcur' : current st.retryMap st.log r.stream = some t' := hown.2 ⟨r', hr', hs'⟩
        exact (htt (by simpa [current, hfind] using hcur')).elim
    · have hcur : current m pc s = current st.retryMap st.log s := by
        rw [current, current, hm s hs, hh, hold]
      rw [hcur, hown]
      split_ifs with htt
      · subst htt
        simp [hr, Ne.symm hs]
      · rfl
  log := hf
  retry t' r' hr' := by
    change deref (st.deleteRetry t).retries t' = some r' at hr'
    rw [deref_deleteRetry] at hr'
    split_ifs at hr'
    exact h.retry t' r' hr'
  deleted t' r' hr' hdel := by
    change (st.retries.modify t fun r => { r with deleted := true })[t']? = some r' at hr'
    rw [List.getElem?_modify] at hr'
    obtain ⟨r₀, hr₀, rfl⟩ := Option.map_eq_some_iff.1 hr'
    split_ifs at hdel ⊢ with htt
    · subst htt
      rw [(deref_eq_some_iff.1 hr).1, Option.some.injEq] at hr₀
      exact hr₀ ▸ ⟨hq, hpc⟩
    · exact h.deleted t' r₀ hr₀ hdel

/-! ## Every step keeps the invariant -/

/-- What `join` and `delete` of the thread of `s` need : the object, its queue and its pc. -/
theorem Inv.deref_of_find (h : Inv st) {s : Stream} {t : ℕ}
    (hfind : st.retryMap.find s = some (some t)) :
    ∃ r, deref st.retries t = some r ∧ r.stream = s :=
  (h.owner s t).1 (by simp [current, hfind])

/-- A stream without entry has no retry thread outside the local variable of `log`. -/
theorem Inv.stream_ne (h : Inv st) {s : Stream} (hfind : st.retryMap.find s = none)
    (hh : st.log.holds = none) {t : ℕ} {r : Retry} (hr : deref st.retries t = some r) :
    r.stream ≠ s := by
  rintro rfl
  have := (h.owner r.stream t).2 ⟨r, hr, rfl⟩
  simp [current, hfind, hh] at this

/-- A step that queues an event in a retry thread. -/
theorem Inv.enqueueRetry (h : Inv st) {t : ℕ} {r : Retry} {e : Item}
    (hr : deref st.retries t = some r) (hm : st'.retryMap = st.retryMap)
    (hl : st'.retries = (st.enqueueRetry t e).retries) (ht : st'.trace = st.trace)
    (hh : st'.log.holds = st.log.holds)
    (hf : LogFacts st.retryMap (st.enqueueRetry t e).retries st'.log) : Inv st' := by
  refine h.modify hr hm hl (by simp [ht]) hh (fun _ => rfl) (fun _ => rfl) hf ?_
  rw [ht]
  have hret := h.retry t r hr
  unfold RetryFacts at *
  cases hpc : r.pc with
  | write e' => simp_all [List.head?_append]
  | pop =>
    simp only [hpc] at hret
    obtain ⟨e', he', hmem⟩ := hret
    exact ⟨e', by simp [he'], hmem⟩
  | _ => simp

/-- Removing a null entry. -/
theorem Inv.eraseNull (h : Inv st) {s : Stream} {e : Item} {rest : List Item} {n : String}
    (hfind : st.retryMap.find s = some none) (hh : st.log.holds = none) :
    Inv ({ st with retryMap := st.retryMap.erase s }.goto (.body e rest n s .write)) where
  owner s' t := by
    refine Iff.trans (Eq.congr_left ?_) (h.owner s' t)
    simp only [State.goto, current, OrdMap.find_erase, hh]
    split_ifs with hs
    · simp [hs, hfind, LogPc.holds]
    · simp [LogPc.holds]
  log := by simp [State.goto, LogFacts, BodyPc.Facts, OrdMap.find_erase]
  retry := h.retry
  deleted := h.deleted

theorem Inv.construct (h : Inv st) {e : Item} {rest : List Item} {n : String} {s : Stream}
    (hfind : st.retryMap.find s = none) (hh : st.log.holds = none) :
    Inv ({ st with retries := st.retries ++ [Retry.new s] }.goto
      (.body e rest n s (.announce st.retries.length))) where
  owner s' t := by
    simp only [State.goto, deref_append (r := Retry.new s) rfl]
    by_cases hs : s' = s
    · subst hs
      simp only [current, hfind, holds_announce, Option.filter_some, decide_true, if_true,
        Option.map_some, Option.join_none, Option.none_or, Option.some.injEq]
      constructor
      · rintro rfl
        exact ⟨Retry.new s', by simp, rfl⟩
      · rintro ⟨r, hr, hrs⟩
        split_ifs at hr with ht
        · exact ht.symm
        · exact (h.stream_ne hfind hh hr hrs).elim
    · have hcur : current st.retryMap (.body e rest n s (.announce st.retries.length)) s' =
          current st.retryMap st.log s' := by
        simp [current, hh, Option.filter, Ne.symm hs]
      rw [hcur, h.owner]
      split_ifs with ht
      · subst ht
        constructor
        · rintro ⟨r, hr, -⟩
          exact (lt_irrefl _ (lt_of_deref hr)).elim
        · rintro ⟨r, hr, hrs⟩
          obtain rfl : Retry.new s = r := by simpa using hr
          exact (hs hrs.symm).elim
      · rfl
  log := by
    refine ⟨hfind, fun r hr => ?_⟩
    simp only [State.goto, deref_append (r := Retry.new s) rfl, if_true, Option.some.injEq] at hr
    exact hr ▸ rfl
  retry t r hr := by
    simp only [State.goto, deref_append (r := Retry.new s) rfl] at hr
    split_ifs at hr with ht
    · obtain rfl := Option.some.inj hr
      trivial
    · exact h.retry t r hr
  deleted t r hr hdel := by
    simp only [State.goto, List.getElem?_append] at hr
    split_ifs at hr with ht
    · exact h.deleted t r hr hdel
    · obtain rfl : Retry.new s = r := by
        have hlt := (List.getElem?_eq_some_iff.1 hr).1
        simp only [List.length_singleton, Nat.lt_one_iff] at hlt
        simpa [hlt] using hr
      cases hdel

theorem Inv.emplace (h : Inv st) {e : Item} {rest : List Item} {n : String} {s : Stream} {t : ℕ}
    (hlog : st.log = .body e rest n s (.emplace t)) :
    Inv ({ st with retryMap := st.retryMap.emplace s (some t) }.advance e rest n) := by
  have hfind : st.retryMap.find s = none := by
    have := h.log
    rwa [hlog] at this
  refine ⟨fun s' t' => ?_, by simp [State.advance], fun t' r hr => ?_, fun t' r hr => ?_⟩
  · simp only [State.advance, visit_retryMap, visit_retries, ← h.owner, current, visit_holds,
      OrdMap.find_emplace hfind, hlog, holds_emplace]
    by_cases hs : s' = s
    · simp [hs, hfind]
    · simp [hs, Ne.symm hs]
  · simp only [State.advance, visit_retries, visit_trace] at hr ⊢
    exact h.retry t' r hr
  · simp only [State.advance, visit_retries] at hr
    exact h.deleted t' r hr

theorem Inv.body (h : Inv st) {e : Item} {rest : List Item} {n : String} {s : Stream}
    {pc : BodyPc} (hlog : st.log = .body e rest n s pc) (hs : BodyMove st e rest n s pc st') :
    Inv st' := by
  have hfacts : pc.Facts st.retryMap st.retries s := by
    have := h.log
    rwa [hlog] at this
  have hsub : st.trace ⊆ st.trace := List.Subset.refl _
  cases hs with
  | crash => exact h.crash
  | absent hfind => exact h.frame rfl rfl hsub (by rw [hlog]; rfl) hfind
  | null hfind => exact h.eraseNull hfind (by rw [hlog]; rfl)
  | entry hfind => exact h.frame rfl rfl hsub (by rw [hlog]; rfl) hfind
  | busy hr hq => exact h.frame rfl rfl hsub (by rw [hlog]; rfl) hfacts
  | idle hr hq =>
    refine h.frame rfl rfl hsub (by rw [hlog]; rfl) ⟨hfacts, fun r' hr' => ?_⟩
    rw [hr, Option.some.injEq] at hr'
    exact hr' ▸ hq
  | enqueue hr =>
    exact h.enqueueRetry hr (advance_retryMap ..) (advance_retries ..) (advance_trace ..)
      (by rw [hlog]; exact advance_holds ..) (logFacts_visit ..)
  | join hr hpc =>
    obtain ⟨r', hr', rfl⟩ := h.deref_of_find hfacts.1
    obtain rfl := Option.some.inj (hr.symm.trans hr')
    exact h.delete hr hfacts.1 (fun k hk => by rw [OrdMap.find_erase, if_neg hk])
      (fun t' => by simp [OrdMap.find_erase]) (by rw [hlog]; rfl) rfl (hfacts.2 _ hr) hpc
      (by simp [LogFacts, BodyPc.Facts, OrdMap.find_erase])
  | accept =>
    exact h.frame (advance_retryMap ..) (advance_retries ..)
      (by rw [advance_trace]; exact List.subset_append_left ..)
      (by rw [hlog]; exact advance_holds ..) (logFacts_visit ..)
  | fail => exact h.frame rfl rfl hsub (by rw [hlog]; rfl) hfacts
  | construct => exact h.construct hfacts (by rw [hlog]; rfl)
  | drop =>
    exact h.frame (advance_retryMap ..) (advance_retries ..)
      (by rw [advance_trace]; exact List.subset_append_left ..)
      (by rw [hlog]; exact advance_holds ..) (logFacts_visit ..)
  | announce => exact h.frame rfl rfl hsub (by rw [hlog]; rfl) hfacts
  | first hr => exact h.enqueueRetry hr rfl rfl rfl (by rw [hlog]; rfl) hfacts.1
  | emplace => exact h.emplace hlog

/-- What a scan knows when it goes on with the next entry. -/
theorem LogFacts.scan {m : OrdMap Stream (Option ℕ)} {l : List Retry} {s : Stream}
    {todo : List Stream} {b b' : Bool} (h : LogFacts m l (.scan (s :: todo) b))
    (hb : b = true → b' = true) (hs : ∀ t, m.find s = some (some t) → b' = true) :
    LogFacts m l (.scan todo b') := by
  refine ⟨(List.nodup_cons.1 h.1).2, fun k t hk hf => ?_⟩
  by_cases hks : k = s
  · exact hs t (hks ▸ hf)
  · exact hb (h.2 k t (by simp [hks, hk]) hf)

theorem Inv.logMove (h : Inv st) {formatTime : ℤ → Bytes} {pc : LogPc} (hlog : st.log = pc)
    (hs : LogMove formatTime st pc st') : Inv st' := by
  have hfacts : LogFacts st.retryMap st.retries pc := hlog ▸ h.log
  have hsub : st.trace ⊆ st.trace := List.Subset.refl _
  cases hs with
  | crash => exact h.crash
  | body _ hmove => exact h.body hlog hmove
  | take =>
    exact h.frame (visit_retryMap ..) (visit_retries ..)
      (by rw [visit_trace]; exact List.subset_append_left ..)
      (by rw [hlog]; exact visit_holds ..) (logFacts_visit ..)
  | swap => exact h.frame rfl rfl hsub (by rw [hlog]; rfl) trivial
  | done => exact h.frame rfl rfl hsub (by rw [hlog]; rfl) trivial
  | scan =>
    refine h.frame rfl rfl hsub (by rw [hlog]; rfl) ⟨st.retryMap.nodup_keys, fun k t hk hf => ?_⟩
    exact (hk (OrdMap.mem_keys.2 ⟨_, hf⟩)).elim
  | sleep => exact h.frame rfl rfl hsub (by rw [hlog]; rfl) trivial
  | more => exact h.frame rfl rfl hsub (by rw [hlog]; rfl) trivial
  | wake => exact h.frame rfl rfl hsub (by rw [hlog]; rfl) trivial
  | @scanned b =>
    cases b with
    | true => exact h.frame rfl rfl hsub (by rw [hlog]; rfl) trivial
    | false =>
      refine h.frame rfl rfl hsub (by rw [hlog]; rfl) fun k t hf => ?_
      exact absurd (hfacts.2 k t List.not_mem_nil hf) (by decide)
  | scanBusy hf hr hq =>
    exact h.frame rfl rfl hsub (by rw [hlog]; rfl) (hfacts.scan (fun _ => rfl) fun _ _ => rfl)
  | scanIdle hf hr hq =>
    refine h.frame rfl rfl hsub (by rw [hlog]; rfl) ⟨hfacts.1, hf, fun r' hr' => ?_, hfacts.2⟩
    rw [hr, Option.some.injEq] at hr'
    exact hr' ▸ hq
  | @scanJoin s t todo b r hr hpc =>
    obtain ⟨hnd, hf, hq, hb⟩ := hfacts
    obtain ⟨r', hr', rfl⟩ := h.deref_of_find hf
    obtain rfl := Option.some.inj (hr.symm.trans hr')
    have hassign := fun k => @OrdMap.find_assign _ _ _ _ _ k none _ hf
    refine h.delete hr hf (fun k hk => by rw [hassign, if_neg hk]) (fun t' => by simp [hassign])
      (by rw [hlog]; rfl) rfl (hq _ hr) hpc ⟨(List.nodup_cons.1 hnd).2, fun k t' hk hfk => ?_⟩
    rw [hassign] at hfk
    split_ifs at hfk with hks
    · simp at hfk
    · exact hb k t' (by simp [hks, hk]) hfk
  | pause => exact h.frame rfl rfl hsub (by rw [hlog]; rfl) trivial
  | finish => exact h.frame rfl rfl hsub (by rw [hlog]; rfl) hfacts
  | again => exact h.frame rfl rfl hsub (by rw [hlog]; rfl) trivial

theorem Inv.retryMove (h : Inv st) {t : ℕ} {r : Retry} (hr : deref st.retries t = some r)
    (hs : RetryMove st t r st') : Inv st' := by
  have hret := h.retry t r hr
  cases hs with
  | crash => exact h.crash
  | quiet _ hq =>
    refine h.modify hr rfl rfl (List.Subset.refl _) rfl (fun _ => rfl) (fun _ => rfl)
      (h.log.modify (fun _ => rfl) fun _ _ hq => hq) ?_
    cases hq with
    | front he => exact he
    | _ => trivial
  | @accept e hpc =>
    refine h.modify hr rfl rfl (List.subset_append_left ..) rfl (fun _ => rfl) (fun _ => rfl)
      (h.log.modify (fun _ => rfl) fun _ _ hq => hq)
      ⟨e, ?_, by simp [State.modifyRetry, State.observe]⟩
    simpa [RetryFacts, hpc] using hret
  | pop hpc =>
    exact h.modify hr rfl rfl (List.Subset.refl _) rfl (fun _ => rfl) (fun _ => rfl)
      (h.log.modify (fun _ => rfl) fun _ _ hq => by simp [hq]) trivial
  | expire hpc hpc' =>
    refine h.modify hr rfl rfl (List.subset_append_left ..) rfl (fun _ => rfl) (fun _ => rfl)
      (h.log.modify (fun _ => rfl) fun _ _ hq => by simp [hq]) ?_
    rcases hpc' with rfl | rfl <;> trivial

theorem Inv.move (h : Inv st) {formatTime : ℤ → Bytes} {a : Action}
    (hs : Move formatTime st a st') : Inv st' := by
  have hsub : st.trace ⊆ st.trace := List.Subset.refl _
  cases hs with
  | enqueue => exact h.frame rfl rfl (List.subset_append_left ..) rfl h.log
  | notify hpc =>
    rcases hpc with ⟨hw, rfl⟩ | ⟨-, rfl⟩
    · exact h.frame rfl rfl hsub (by rw [hw]; rfl) trivial
    · exact h.frame rfl rfl hsub rfl h.log
  | terminate => exact h.frame rfl rfl hsub rfl h.log
  | add => exact h.frame rfl rfl hsub rfl h.log
  | deleteCrash => exact h.crash
  | delete => exact h.frame rfl rfl hsub rfl h.log
  | erase => exact h.frame rfl rfl hsub rfl h.log
  | log hmove => exact h.logMove rfl hmove
  | retry hr hmove => exact h.retryMove hr hmove

/-- The invariant holds in every reachable state. -/
theorem inv_of_reach {formatTime : ℤ → Bytes} {ok : State → Action → Prop}
    (h : (system formatTime).Reach ok st) : Inv st :=
  h.invariant (fun _ => inv_init) fun _ _ _ _ hi _ hs => hi.move (move hs)

end Logfile
