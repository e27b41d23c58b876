import Logfile.Exclusion

/-!
# Removing a stream

`logger::remove_output_stream` deletes the stream and then erases its node, without a word
to the log thread or to a retry thread. A stream may be in use at that time, by the
retry thread that `m_retry_map` has for it, or by the log thread standing at its node or
about to reach it : a retry thread that sleeps goes on to use the deleted stream
(`sleeping_thread_uses_removed`).

When a stream is removed only while it has no entry in `m_retry_map`, the log thread is not
at it, and it has no second name, and when the loop of `log` does not enter the node until it
is erased, then nothing refers to a deleted stream (`removedUnused_of_reach`), and a stream
created at the same address starts without an entry.
-/

namespace Logfile

variable {formatTime : ℤ → Bytes} {st st' : State}

/-! ## Streams in use -/

/-- The node the loop of `log` stands at. -/
def LogPc.here : LogPc → Option (String × Stream)
  | body _ _ n s _ => some (n, s)
  | _ => none

/-- The stream a member of which the log thread calls next. -/
def LogPc.calls : LogPc → Option Stream
  | body _ _ _ s .write => some s
  | body _ _ _ s (.announce _) => some s
  | _ => none

/-- A retry thread calls a member of its stream next. -/
def RetryPc.calls : RetryPc → Bool
  | retryTime => true
  | write _ => true
  | report => true
  | stopping => true
  | _ => false

/-- The stream a member of which the step calls. -/
def State.calls (st : State) : Action → Option Stream
  | .log _ => st.log.calls
  | .retry t _ _ => (st.retries[t]?.filter fun r => r.pc.calls).map Retry.stream
  | _ => none

/-- No thread calls a deleted stream, or has come to it or got it into `m_retry_map`. -/
structure RemovedUnused (st : State) : Prop where
  calls : ∀ a s, st.calls a = some s → s ∈ st.live
  here : ∀ n s, st.log.here = some (n, s) → s ∈ st.live
  entry : ∀ s, s ∉ st.live → st.retryMap.find s = none
  running : ∀ t s, st.running t s → s ∈ st.live

/-- The stream to be deleted is not in use, and the loop of `log` does not enter a node whose
stream is deleted. -/
structure RemovalQuiet (formatTime : ℤ → Bytes) (st : State) (a : Action) : Prop where
  delete : ∀ n s, a = .delete n → st.streams.find n = some s →
    st.retryMap.find s = none ∧ (∀ m, st.log.here ≠ some (m, s)) ∧
      ∀ m, st.streams.find m = some s → m = n
  enter : ∀ ok st' n s, a = .log ok → logStep formatTime st ok = some st' →
    st'.log.here = some (n, s) → n ∉ st.erasing

/-! ## What a step does to the nodes and the entries -/

theorem here_visit (st : State) (e : Item) (rest : List Item) (o : Option (String × Stream)) :
    (st.visit e rest o).log.here = o := by
  cases o <;> rfl

theorem here_of_calls {pc : LogPc} {s : Stream} (h : pc.calls = some s) :
    ∃ n, pc.here = some (n, s) := by
  unfold LogPc.calls at h
  split at h <;> cases h
  · exact ⟨_, rfl⟩
  · exact ⟨_, rfl⟩

theorem here_of_holds {pc : LogPc} {s : Stream} {t : ℕ} (h : pc.holds = some (s, t)) :
    ∃ n, pc.here = some (n, s) := by
  unfold LogPc.holds at h
  split at h <;> cases h
  · exact ⟨_, rfl⟩
  · exact ⟨_, rfl⟩
  · exact ⟨_, rfl⟩

/-- A step of the log thread leaves the streams alone, stays at its node or goes to one of
`m_streams`, and makes an entry only for the stream it stands at. -/
structure LogEffect (st st' : State) : Prop where
  streams : st'.streams = st.streams
  live : st'.live = st.live
  erasing : st'.erasing = st.erasing
  here : ∀ n s, st'.log.here = some (n, s) →
    st.log.here = some (n, s) ∨ st.streams.find n = some s
  entry : ∀ s, st.retryMap.find s = none →
    st'.retryMap.find s = none ∨ ∃ n, st.log.here = some (n, s)

namespace LogEffect

/-- A step that only goes on, here or elsewhere. -/
theorem stay (hs : st'.streams = st.streams) (hl : st'.live = st.live)
    (he : st'.erasing = st.erasing) (hm : st'.retryMap = st.retryMap)
    (hh : st'.log.here = st.log.here ∨ st'.log.here = none) : LogEffect st st' := by
  refine ⟨hs, hl, he, fun n s hhere => ?_, fun s hnone => Or.inl (hm ▸ hnone)⟩
  rcases hh with hh | hh
  · exact Or.inl (hh ▸ hhere)
  · rw [hh] at hhere
    cases hhere

/-- A step to another node. -/
theorem visit {st₀ : State} {e : Item} {rest : List Item} {o : Option (String × Stream)}
    (hs : st₀.streams = st.streams) (hl : st₀.live = st.live) (he : st₀.erasing = st.erasing)
    (ho : ∀ n s, o = some (n, s) → st.streams.find n = some s)
    (hm : ∀ s, st.retryMap.find s = none →
      st₀.retryMap.find s = none ∨ ∃ n, st.log.here = some (n, s)) :
    LogEffect st (st₀.visit e rest o) := by
  refine ⟨?_, ?_, ?_, ?_, ?_⟩
  · cases o <;> exact hs
  · cases o <;> exact hl
  · cases o <;> exact he
  · intro n s hhere
    rw [here_visit] at hhere
    exact Or.inr (ho n s hhere)
  · intro s hnone
    rw [visit_retryMap]
    exact hm s hnone

theorem of_body {e : Item} {rest : List Item} {n : String} {s : Stream} {pc : BodyPc}
    (hlog : st.log = .body e rest n s pc) (hs : BodyMove st e rest n s pc st') :
    LogEffect st st' := by
  have hhere : st.log.here = some (n, s) := by rw [hlog]; rfl
  have hnext : ∀ m s', st.streams.next n = some (m, s') → st.streams.find m = some s' :=
    fun m s' => OrdMap.find_of_next
  cases hs with
  | crash => exact .stay rfl rfl rfl rfl (Or.inl rfl)
  | null | join =>
    refine ⟨rfl, rfl, rfl, fun m s' hm => Or.inl ?_, fun s' hnone => Or.inl ?_⟩
    · rw [hhere]
      exact hm
    · exact OrdMap.find_erase.trans (by simp [hnone])
  | enqueue | accept | drop => exact .visit rfl rfl rfl hnext fun s' hnone => Or.inl hnone
  | emplace =>
    refine .visit rfl rfl rfl hnext fun s' hnone => ?_
    by_cases hs' : s' = s
    · exact Or.inr ⟨n, hs' ▸ hhere⟩
    · refine Or.inl ?_
      cases hf : st.retryMap.find s with
      | none => exact (OrdMap.find_emplace hf).trans (by simp [hs', hnone])
      | some v => exact (congrArg (·.find s') (OrdMap.emplace_of_find hf)).trans hnone
  | _ => exact .stay rfl rfl rfl rfl (Or.inl (by rw [hhere]; rfl))

end LogEffect

theorem LogMove.effect {pc : LogPc} (hlog : st.log = pc) (hinv : Inv st)
    (hs : LogMove formatTime st pc st') : LogEffect st st' := by
  cases hs with
  | crash => exact .stay rfl rfl rfl rfl (Or.inl rfl)
  | take => exact .visit rfl rfl rfl (fun n s => OrdMap.find_of_first) fun s hnone => Or.inl hnone
  | body _ hmove => exact .of_body hlog hmove
  | scanJoin =>
    refine ⟨rfl, rfl, rfl, nofun, fun s' hnone => Or.inl ?_⟩
    have hfacts := hinv.log
    rw [hlog] at hfacts
    obtain ⟨-, hfind, -⟩ := hfacts
    refine (OrdMap.find_assign hfind).trans ?_
    rw [if_neg, hnone]
    rintro rfl
    rw [hnone] at hfind
    cases hfind
  | @scanned b => exact .stay rfl rfl rfl rfl (Or.inr (by cases b <;> rfl))
  | scanBusy | scanIdle => exact .stay rfl rfl rfl rfl (Or.inr rfl)
  | _ => exact .stay rfl rfl rfl rfl (Or.inr rfl)

/-! ## Nothing refers to a deleted stream -/

/-- Only nodes about to be erased have a deleted stream, and the log thread is not at one. -/
structure Alive (st : State) : Prop where
  nodes : ∀ n s, st.streams.find n = some s → n ∉ st.erasing → s ∈ st.live
  here : ∀ n s, st.log.here = some (n, s) → s ∈ st.live
  entry : ∀ s, s ∉ st.live → st.retryMap.find s = none

namespace Alive

theorem logMove (h : Alive st) (he : LogEffect st st')
    (henter : ∀ n s, st'.log.here = some (n, s) → n ∉ st.erasing) : Alive st' where
  nodes n s hfind hn := by
    rw [he.streams] at hfind
    rw [he.erasing] at hn
    exact he.live ▸ h.nodes n s hfind hn
  here n s hhere := by
    rw [he.live]
    rcases he.here n s hhere with hold | hnode
    · exact h.here n s hold
    · exact h.nodes n s hnode (henter n s hhere)
  entry s hs := by
    rw [he.live] at hs
    rcases he.entry s (h.entry s hs) with hnone | ⟨n, hhere⟩
    · exact hnone
    · exact absurd (h.here n s hhere) hs

/-- A step that changes neither the streams nor what the log thread has. -/
theorem frame (h : Alive st) (hs : st'.streams = st.streams) (hl : st'.live = st.live)
    (he : st'.erasing = st.erasing) (hm : st'.retryMap = st.retryMap)
    (hh : st'.log.here = st.log.here ∨ st'.log.here = none) : Alive st' where
  nodes := by rw [hs, hl, he]; exact h.nodes
  here n s hhere := by
    rcases hh with hh | hh
    · rw [hl]
      exact h.here n s (hh ▸ hhere)
    · rw [hh] at hhere
      cases hhere
  entry := by rw [hl, hm]; exact h.entry

theorem add (h : Alive st) {n : String} {s : Stream}
    (hs : step formatTime st (.add n s) = some st') :
    Alive st' := by
  have hst : st' = { st with
      streams := st.streams.emplace n s
      live := if s ∈ st.live then st.live else s :: st.live } := by
    unfold step at hs
    split at hs
    · cases hs
    · exact (Option.some.inj hs).symm
  have hmem : ∀ s', s' ∈ st'.live ↔ s' = s ∨ s' ∈ st.live := by
    intro s'
    subst hst
    by_cases hs : s ∈ st.live
    · simp only [if_pos hs]
      exact ⟨Or.inr, fun h => h.elim (fun h => h ▸ hs) id⟩
    · simp [if_neg hs]
  refine ⟨fun m s' hfind hm => (hmem s').2 ?_, fun m s' hhere => (hmem s').2 ?_, fun s' hs' => ?_⟩
  · rw [hst] at hfind hm
    cases hf : st.streams.find n with
    | some v =>
      rw [OrdMap.emplace_of_find hf] at hfind
      exact Or.inr (h.nodes m s' hfind hm)
    | none =>
      rw [OrdMap.find_emplace hf] at hfind
      split_ifs at hfind with hmn
      · exact Or.inl (Option.some.inj hfind).symm
      · exact Or.inr (h.nodes m s' hfind hm)
  · rw [hst] at hhere
    exact Or.inr (h.here m s' hhere)
  · rw [hmem, not_or] at hs'
    rw [hst]
    exact h.entry s' hs'.2

/-- A stream that is not in use is deleted. -/
theorem delete (h : Alive st) {n : String} (hquiet : RemovalQuiet formatTime st (.delete n))
    (hs : step formatTime st (.delete n) = some st') : Alive st' := by
  unfold step at hs
  split at hs
  · cases hs
  · simp only at hs
    split at hs
    · cases hs
    · next s hfind =>
      split at hs <;> obtain rfl := Option.some.inj hs
      · exact h.frame rfl rfl rfl rfl (Or.inl rfl)
      · obtain ⟨hentry, hhere, hname⟩ := hquiet.delete n s rfl hfind
        refine ⟨fun m s' hm hmem => ?_, fun m s' hm => ?_, fun s' hs' => ?_⟩
        · simp only [List.mem_cons, not_or] at hmem
          have hne : s' ≠ s := fun heq => hmem.1 (hname m (heq ▸ hm))
          exact List.mem_filter.2 ⟨h.nodes m s' hm hmem.2, by simpa using hne⟩
        · have hne : s' ≠ s := fun heq => hhere m (heq ▸ hm)
          exact List.mem_filter.2 ⟨h.here m s' hm, by simpa using hne⟩
        · by_cases heq : s' = s
          · exact heq ▸ hentry
          · exact h.entry s' fun hmem => hs' (List.mem_filter.2 ⟨hmem, by simpa using heq⟩)

theorem erase (h : Alive st) {n : String} (hs : step formatTime st (.erase n) = some st') :
    Alive st' := by
  unfold step at hs
  split at hs
  · cases hs
  · simp only at hs
    split at hs
    · cases hs
    · obtain rfl := Option.some.inj hs
      refine ⟨fun m s hfind hm => ?_, h.here, h.entry⟩
      rw [OrdMap.find_erase] at hfind
      split_ifs at hfind with hmn
      exact h.nodes m s hfind fun hmem => hm ((List.mem_erase_of_ne hmn).2 hmem)

theorem step (h : Alive st) (hinv : Inv st) {a : Action} (hquiet : RemovalQuiet formatTime st a)
    (hs : Logfile.step formatTime st a = some st') : Alive st' := by
  cases a with
  | add n s => exact h.add hs
  | delete n => exact h.delete hquiet hs
  | erase n => exact h.erase hs
  | log ok =>
    have hlog : logStep formatTime st ok = some st' := by
      unfold Logfile.step at hs
      split at hs
      · cases hs
      · exact hs
    exact h.logMove ((Logfile.logMove rfl hlog).effect rfl hinv) fun n s =>
      hquiet.enter ok st' n s rfl hlog
  | enqueue | terminate =>
    cases move hs with
    | _ => exact h.frame rfl rfl rfl rfl (Or.inl rfl)
  | notify =>
    cases move hs with
    | notify hpc =>
      rcases hpc with ⟨hw, rfl⟩ | ⟨-, rfl⟩
      · exact h.frame rfl rfl rfl rfl (Or.inr rfl)
      · exact h.frame rfl rfl rfl rfl (Or.inl rfl)
  | retry t ok now =>
    cases move hs with
    | retry _ hmove => cases hmove <;> exact h.frame rfl rfl rfl rfl (Or.inl rfl)

end Alive

/-- In every run that removes only streams that are not in use. -/
theorem removedUnused_of_reach (formatTime : ℤ → Bytes) {st : State}
    (h : (system formatTime).Reach (RemovalQuiet formatTime) st) : RemovedUnused st := by
  have halive : Alive st := by
    refine h.invariant (fun st hinit => ?_) fun _ _ _ hr hi hok hs =>
      hi.step (inv_of_reach hr) hok hs
    refine ⟨fun n s hfind _ => hinit.live n s hfind, fun n s hhere => ?_, fun s _ => ?_⟩
    · rw [hinit.log] at hhere
      cases hhere
    · rw [hinit.retryMap, OrdMap.find_empty]
  have hrunning : ∀ t s, st.running t s → s ∈ st.live := by
    intro t s hrun
    rcases recorded_of_current ((inv_of_reach h).current_of_running hrun) with hfind | hholds
    · by_contra hdead
      rw [halive.entry s hdead] at hfind
      cases hfind
    · obtain ⟨n, hhere⟩ := here_of_holds hholds
      exact halive.here n s hhere
  refine ⟨fun a s hcalls => ?_, halive.here, halive.entry, hrunning⟩
  cases a with
  | log ok =>
    obtain ⟨n, hhere⟩ := here_of_calls hcalls
    exact halive.here n s hhere
  | retry t ok now =>
    obtain ⟨r, hr, rfl⟩ := Option.map_eq_some_iff.1 hcalls
    obtain ⟨hget, hpc⟩ := Option.filter_eq_some_iff.1 hr
    refine hrunning t r.stream ⟨r, hget, rfl, fun hfin => ?_⟩
    rw [hfin] at hpc
    cases hpc
  | _ => cases hcalls

/-- A sink is removed while its retry thread sleeps. -/
def removedAsleep : List Action :=
  failedWrite ++ [.log true, .log true, .log true, .retry 0 true 0, .delete "stdout",
    .erase "stdout", .retry 0 true 0, .retry 0 true 0]

theorem sleeping_thread_uses_removed :
    ¬∀ st, (system fun _ => []).Reachable st → RemovedUnused st := by
  intro h
  obtain ⟨st, hreach, hst⟩ := System.exists_reach (T := system fun _ => [])
    (b := fun _ _ => true) (p := fun _ _ => True) (fun _ _ _ => trivial)
    (State.initial_start (OrdMap.empty.emplace "stdout" 1)) removedAsleep
    (fun st => st.calls (.retry 0 true 0) == some 1 && !st.live.contains 1) rfl
  simp only [Bool.and_eq_true, beq_iff_eq, Bool.not_eq_true', ← Bool.not_eq_true,
    List.contains_iff_mem] at hst
  exact hst.2 ((h st hreach).calls _ 1 hst.1)

/-- `RemovalQuiet`, computed. -/
def removalQuiet (formatTime : ℤ → Bytes) (st : State) : Action → Bool
  | .delete n => (st.streams.find n).all fun s =>
    (st.retryMap.find s).isNone && st.log.here.all (fun p => p.2 != s) &&
      st.streams.entries.all fun p => p.2 != s || p.1 == n
  | .log ok => (logStep formatTime st ok).all fun st' =>
    st'.log.here.all fun p => !st.erasing.contains p.1
  | _ => true

theorem removalQuiet_of {a : Action} (h : removalQuiet formatTime st a = true) :
    RemovalQuiet formatTime st a := by
  refine ⟨?_, ?_⟩
  · rintro n s rfl hfind
    simp only [removalQuiet, hfind, Option.all_some, Bool.and_eq_true, Option.isNone_iff_eq_none,
      List.all_eq_true, Bool.or_eq_true, bne_iff_ne, beq_iff_eq] at h
    obtain ⟨⟨hentry, hhere⟩, hname⟩ := h
    refine ⟨hentry, fun m hm => ?_, fun m hm => ?_⟩
    · rw [hm] at hhere
      simp at hhere
    · rcases hname (m, s) (OrdMap.find_eq_some_iff.1 hm) with hne | heq
      · exact absurd rfl hne
      · exact heq
  · rintro ok st' n s rfl hstep hhere
    simpa [removalQuiet, hstep, hhere] using h

/-- A sink is removed after its event has been written, and another event comes. -/
def removedQuietly : List Action :=
  [.enqueue someEvent, .log true, .log true, .log true, .log true, .delete "stdout",
    .erase "stdout", .enqueue someEvent, .log true, .log true, .log true, .log true]

theorem removedUnused_removedQuietly :
    ∃ st, (st.live = [] ∧ st.trace.length = 5) ∧ RemovedUnused st := by
  obtain ⟨st, hreach, hst⟩ := System.exists_reach (T := system fun _ => [])
    (b := removalQuiet fun _ => []) (p := RemovalQuiet fun _ => [])
    (fun _ _ => removalQuiet_of) (State.initial_start (OrdMap.empty.emplace "stdout" 1))
    removedQuietly (fun st => st.live.isEmpty && st.trace.length == 5) rfl
  simp only [Bool.and_eq_true, List.isEmpty_iff, beq_iff_eq] at hst
  exact ⟨st, hst, removedUnused_of_reach _ hreach⟩

end Logfile
