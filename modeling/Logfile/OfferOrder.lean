import Logfile.Composition
import Logfile.AttachedSink

/-!
# The order of the offers

A write on a stream that is registered under one name is always about the oldest event that is
still pending for it (`pending_of_writeOn`), whoever writes. So the calls of `write` go through the
events in the order of `enqueue` : an event is offered again and again until `write` returns true
or the event is given up, and no earlier event is offered after a later one
(`offersOrdered_of_reach`).
-/

set_option linter.unusedSectionVars false

namespace Logfile

section Process

variable {formatTime : ℤ → Bytes} {st st' : State} {s : Stream} {a : Action} {e : Item} {n : String}

/-- A write that is possible may have any result. -/
theorem exists_step_withResult (hw : st.writeOn s a = some e)
    (h : step formatTime st a = some st') (ok : Bool) :
    ∃ st'', step formatTime st (a.withResult ok) = some st'' := by
  cases a with
  | log ok' =>
    rw [step, Option.ite_none_left_eq_some] at h
    simp only [State.writeOn] at hw
    split at hw
    · next e' rest m s' hlog =>
      split_ifs at hw with hcond
      obtain ⟨rfl, hlive, hd⟩ := hcond
      simp only [Action.withResult, step, if_neg h.1, logStep, hlog, hd, bodyStep]
      rw [if_neg (by simp), if_neg (not_not_intro hlive)]
      split_ifs <;> exact ⟨_, rfl⟩
    · cases hw
  | retry t ok' now =>
    rw [step, Option.ite_none_left_eq_some] at h
    obtain ⟨r, hr, hw⟩ := Option.bind_eq_some_iff.1 hw
    split at hw
    · next e' hpc =>
      split_ifs at hw with hcond
      obtain ⟨rfl, hlive⟩ := hcond
      simp only [Action.withResult, step, if_neg h.1, retryStep, hr, hpc]
      rw [if_neg (not_not_intro hlive)]
      split_ifs <;> exact ⟨_, rfl⟩
    · cases hw
  | _ => cases hw

/-- The log thread stands at a node of the stream only under its name. -/
theorem at_of_reach (h : (system formatTime).Reach (fun st _ => RegisteredOnce n s st) st) :
    st.log.At fun m s' => m = n ↔ s' = s := by
  refine h.invariant (I := fun st => st.log.At fun m s' => m = n ↔ s' = s) (fun st hi => ?_)
    fun st a st' _ hat hreg hs => hat.move (fun _ _ => hreg.atNode) (move hs)
  rw [hi.log]
  trivial

/-- A step of the process is a step of the channel to the stream. -/
theorem follows_of_reach (h : (system formatTime).Reach (fun st _ => RegisteredOnce n s st) st)
    (hreg : RegisteredOnce n s st) (hs : step formatTime st a = some st') :
    Follows (view n s st) (view n s st') :=
  follows (at_of_reach h) (effect_move (inv_of_reach h) hreg.find (move hs))

/-- A step that accepts an event takes the oldest one that is pending. -/
theorem pending_of_accepted {id : ℕ} (h : Follows (view n s st) (view n s st'))
    (hacc : accepted s st'.trace = accepted s st.trace ++ [id]) :
    pending n s st = id :: pending n s st' := by
  have hne : accepted s st'.trace ≠ accepted s st.trace := by
    rw [hacc]
    simp
  rcases h with heq | ⟨b, hb⟩
  · exact absurd (congrArg Channel.arrived heq) hne
  · cases b with
    | send x =>
      simp only [Channel.step, Option.ite_none_left_eq_some, Option.some.injEq] at hb
      exact absurd (congrArg Channel.arrived hb.2).symm hne
    | lose gone keep =>
      simp only [Channel.step, Option.ite_none_right_eq_some, Option.some.injEq] at hb
      exact absurd (congrArg Channel.arrived hb.2).symm hne
    | arrive =>
      have hpend : (view n s st).pending = pending n s st := rfl
      simp only [Channel.step] at hb
      cases hp : pending n s st with
      | nil => simp [hpend, hp] at hb
      | cons x rest =>
        simp only [hpend, hp, Option.some.injEq] at hb
        have harr : accepted s st.trace ++ [x] = accepted s st'.trace := congrArg Channel.arrived hb
        rw [hacc, List.append_cancel_left_eq, List.singleton_inj] at harr
        rw [harr]
        exact congrArg (List.cons id) (congrArg Channel.pending hb)

/-- What is written is the oldest event that is pending. -/
theorem pending_of_writeOn
    (h : (system formatTime).Reach (fun st _ => RegisteredOnce n s st) st)
    (hreg : RegisteredOnce n s st) (hw : st.writeOn s a = some e)
    (hs : step formatTime st a = some st') : ∃ rest, pending n s st = e.id :: rest := by
  -- the same write could have succeeded
  obtain ⟨st'', hs'⟩ := exists_step_withResult hw hs true
  have hacc := accepted_step (s := s) hs'
  rw [State.acceptedBy, writeOn_withResult, hw, Option.filter_some,
    if_pos (result_withResult hw true)] at hacc
  exact ⟨_, pending_of_accepted (follows_of_reach h hreg hs') hacc⟩

/-- What is written was not accepted before. -/
theorem not_mem_accepted_of_writeOn
    (h : (system formatTime).Reach (fun st _ => RegisteredOnce n s st) st)
    (hreg : RegisteredOnce n s st) (hw : st.writeOn s a = some e)
    (hs : step formatTime st a = some st') : e.id ∉ accepted s st.trace := by
  obtain ⟨rest, hpend⟩ := pending_of_writeOn h hreg hw hs
  have hchan := channel_of_reach h
  have hnodup := hchan.sublist.nodup hchan.nodup
  intro hmem
  exact (List.nodup_append'.1 hnodup).2.2 hmem (by simp [view, hpend])

/-- What is pending after a step was pending before, or is the new event. -/
theorem pending_subset (h : Follows (view n s st) (view n s st')) {x : ℕ}
    (hx : x ∈ pending n s st') : x ∈ pending n s st ∨ st.count ≤ x := by
  have hpend : (view n s st').pending = pending n s st' := rfl
  rw [← hpend] at hx
  rcases h with heq | ⟨b, hb⟩
  · rw [heq] at hx
    exact Or.inl hx
  · cases b with
    | send y =>
      simp only [Channel.step, Option.ite_none_left_eq_some, Option.some.injEq] at hb
      rw [← hb.2] at hx
      rcases List.mem_append.1 hx with hx | hx
      · exact Or.inl hx
      · rw [List.mem_singleton.1 hx]
        exact Or.inr (not_lt.1 fun hlt => hb.1 (List.mem_range.2 hlt))
    | lose gone keep =>
      simp only [Channel.step, Option.ite_none_right_eq_some, Option.some.injEq] at hb
      rw [← hb.2] at hx
      exact Or.inl (hb.1.1.subset hx)
    | arrive =>
      simp only [Channel.step] at hb
      split at hb
      · cases hb
      · next y rest hp =>
        rw [← Option.some.inj hb] at hx
        have hmem : x ∈ (view n s st).pending := by
          rw [hp]
          exact List.mem_cons_of_mem y hx
        exact Or.inl hmem

end Process

namespace Attached

variable {κ ε : Type*} {formatTime : ℤ → Bytes} {s : Stream} {sink : Sink κ ε} {init : κ → Prop}
  {st st' : State κ} {a : Action ε} {ok : State κ → Action ε → Prop} {n : String}

/-- The first offer is not about a later event, and if it succeeded it is about an earlier one. -/
def Before (o o' : Offer) : Prop :=
  o.item.id ≤ o'.item.id ∧ (o.result = true → o.item.id < o'.item.id)

/-- Also what is still pending is not about an earlier event than the offers. -/
structure Ordered (n : String) (s : Stream) (st : State κ) : Prop where
  offers : st.offers.Pairwise Before
  pending : ∀ o ∈ st.offers, ∀ x ∈ pending n s st.process,
    o.item.id ≤ x ∧ (o.result = true → o.item.id < x)

theorem Ordered.step (h : Ordered n s st) (hoffered : Offered formatTime s st)
    (hprocess : (Logfile.system formatTime).Reach (fun p _ => RegisteredOnce n s p) st.process)
    (hreg : RegisteredOnce n s st.process)
    (hs : Attached.step formatTime s sink st a = some st') : Ordered n s st' := by
  have hlt : ∀ o ∈ st.offers, o.item.id < st.process.count := by
    intro o ho
    obtain ⟨ev, hev, -⟩ := hoffered.item o ho
    rw [hoffered.count]
    exact (List.getElem?_eq_some_iff.1 hev).1
  have hold : ∀ b process, Logfile.step formatTime st.process b = some process →
      ∀ o ∈ st.offers, ∀ x ∈ Logfile.pending n s process,
        o.item.id ≤ x ∧ (o.result = true → o.item.id < x) := by
    intro b process hb o ho x hx
    rcases pending_subset (follows_of_reach hprocess hreg hb) hx with hx | hx
    · exact h.pending o ho x hx
    · have := hlt o ho
      exact ⟨by omega, fun _ => by omega⟩
  cases move hs with
  | level => exact ⟨h.offers, h.pending⟩
  | other _ hb => exact ⟨h.offers, hold _ _ hb⟩
  | @write b env e process offer k hw hwrites hb =>
    have hitem : offer.item = e := by cases hwrites <;> rfl
    have hw' : st.process.writeOn s (b.withResult offer.result) = some e := by
      rw [writeOn_withResult, hw]
    obtain ⟨rest, hpend⟩ := pending_of_writeOn hprocess hreg hw' hb
    have hfollows := follows_of_reach hprocess hreg hb
    refine ⟨?_, fun o ho x hx => ?_⟩
    · rw [List.pairwise_append]
      refine ⟨h.offers, List.pairwise_singleton .., fun o ho o' ho' => ?_⟩
      rw [List.mem_singleton.1 ho', Before, hitem]
      exact h.pending o ho e.id (by simp [hpend])
    · rcases List.mem_append.1 ho with ho | ho
      · exact hold _ _ hb o ho x hx
      · rw [List.mem_singleton.1 ho, hitem]
        have hchan := channel_of_reach hprocess
        have hsorted : (Logfile.pending n s st.process).Pairwise (· < ·) :=
          List.Pairwise.sublist ((List.sublist_append_right _ _).trans hchan.sublist)
            List.pairwise_lt_range
        rw [hpend, List.pairwise_cons] at hsorted
        have hcount : e.id < st.process.count := by
          have hmem : e.id ∈ (view n s st.process).sent :=
            (List.sublist_append_right _ _ |>.trans hchan.sublist).subset (by simp [view, hpend])
          exact List.mem_range.1 hmem
        have hle : e.id ≤ x ∧ (x = e.id ∨ e.id < x) := by
          rcases pending_subset hfollows hx with hx | hx
          · rw [hpend] at hx
            rcases List.mem_cons.1 hx with rfl | hx
            · exact ⟨le_rfl, Or.inl rfl⟩
            · exact ⟨(hsorted.1 x hx).le, Or.inr (hsorted.1 x hx)⟩
          · exact ⟨by omega, Or.inr (by omega)⟩
        refine ⟨hle.1, fun hres => hle.2.resolve_left ?_⟩
        rintro rfl
        -- the event that was accepted is not pending any more
        have hacc := accepted_step (s := s) hb
        rw [State.acceptedBy, hw', Option.filter_some,
          if_pos ((result_withResult hw _).trans hres)] at hacc
        have hcons := pending_of_accepted hfollows hacc
        rw [hpend] at hcons
        rw [(List.cons.inj hcons).2] at hsorted
        exact lt_irrefl _ (hsorted.1 _ hx)

/-- The offers go through the events in the order of `enqueue`, and an event that `write` has
returned true for is not offered again. -/
theorem offersOrdered_of_reach (formatTime : ℤ → Bytes) (n : String) (s : Stream) (sink : Sink κ ε)
    (init : κ → Prop) {st : State κ}
    (h : (system formatTime s sink init).Reach (fun st _ => RegisteredOnce n s st.process) st) :
    st.offers.Pairwise Before := by
  have hordered : Ordered n s st := by
    refine h.invariant (fun st hi => ?_) fun st a st' hr hord hreg hs =>
      hord.step (offered_of_reach hr) (process_of_reach (fun _ _ hok => hok) hr) hreg hs
    obtain ⟨-, -, -, hoffers⟩ := hi
    exact ⟨by simp [hoffers], by simp [hoffers]⟩
  exact hordered.offers

/-- The first event is retried twice, and then comes a second one. -/
def retriedTwice : List Logfile.Action :=
  [failedWrite, List.replicate 3 (.log true), [.enqueue someEvent], List.replicate 8 (.log true),
    List.replicate 6 (.retry 0 false 0), List.replicate 7 (.retry 0 true 0)].flatten

theorem offersOrdered_retriedTwice : ∃ st : State Unit,
    st.offers.map (fun o => (o.item.id, o.result)) =
      [(0, false), (0, false), (0, true), (1, true)] ∧
      st.offers.Pairwise Before := by
  obtain ⟨st, hreach, hst⟩ := System.exists_reach
    (T := system (fun _ => []) 1 anySink fun _ => True)
    (b := fun st _ => decide (RegisteredOnce "stdout" 1 st.process))
    (p := fun st _ => RegisteredOnce "stdout" 1 st.process) (fun _ _ => of_decide_eq_true)
    (init_withAny _) (scripted retriedTwice) (fun st => st.offers.map (fun o =>
      (o.item.id, o.result)) == [(0, false), (0, false), (0, true), (1, true)]) rfl
  exact ⟨st, eq_of_beq hst, offersOrdered_of_reach _ "stdout" 1 anySink _ hreach⟩

end Attached

end Logfile
