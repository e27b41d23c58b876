import Logfile.Ownership

/-!
# Where the events are

For a stream `s` registered under `n`, an event that was enqueued is pending until the
stream accepts it or it is given up. It passes, oldest first, through `m_events`, the
local list of `do_run`, the event `log` is busy with, and the stream's retry queue
(`pending`). What a step does to these is `Effect`, whatever else is registered
(`effect_move`).
-/

set_option linter.unusedSectionVars false

namespace Logfile

/-! ## What happened to the events -/

/-- Numbers of the events enqueued so far. -/
def enqueued (tr : List Obs) : List ℕ :=
  tr.filterMap fun
    | .enqueued id => some id
    | _ => none

/-- Events passed to `log`, in this order. -/
def logged (tr : List Obs) : List ℕ :=
  tr.filterMap fun
    | .logged id => some id
    | _ => none

/-- Events for which a write on `s` returned true. -/
def accepted (s : Stream) (tr : List Obs) : List ℕ :=
  tr.filterMap fun
    | .accepted s' id => if s' = s then some id else none
    | _ => none

/-- Events dropped for `s` because no retry thread could be constructed. -/
def dropped (s : Stream) (tr : List Obs) : List ℕ :=
  tr.filterMap fun
    | .dropped s' id => if s' = s then some id else none
    | _ => none

/-- Events that expired in a retry queue of `s`. -/
def expired (s : Stream) (tr : List Obs) : List ℕ :=
  tr.filterMap fun
    | .expired s' id => if s' = s then some id else none
    | _ => none

/-- Events given up for `s`. -/
def lost (s : Stream) (tr : List Obs) : List ℕ :=
  tr.filterMap fun
    | .dropped s' id => if s' = s then some id else none
    | .expired s' id => if s' = s then some id else none
    | _ => none

section Traces

variable (s s' : Stream) (tr tr' : List Obs)

theorem enqueued_append : enqueued (tr ++ tr') = enqueued tr ++ enqueued tr' :=
  List.filterMap_append

theorem logged_append : logged (tr ++ tr') = logged tr ++ logged tr' :=
  List.filterMap_append

theorem accepted_append : accepted s (tr ++ tr') = accepted s tr ++ accepted s tr' :=
  List.filterMap_append

theorem lost_append : lost s (tr ++ tr') = lost s tr ++ lost s tr' :=
  List.filterMap_append

theorem enqueued_expire (l : List Item) :
    enqueued (l.map fun e => .expired s' e.id) = [] := by
  simp [enqueued, List.filterMap_map]

theorem logged_expire (l : List Item) :
    logged (l.map fun e => .expired s' e.id) = [] := by
  simp [logged, List.filterMap_map]

theorem accepted_expire (l : List Item) :
    accepted s (l.map fun e => .expired s' e.id) = [] := by
  simp [accepted, List.filterMap_map]

theorem lost_expire (l : List Item) :
    lost s (l.map fun e => .expired s' e.id) = if s' = s then l.map Item.id else [] := by
  simp only [lost, List.filterMap_map, Function.comp_def]
  split_ifs with hs
  · exact congrFun List.filterMap_eq_map l
  · simp

end Traces

theorem lost_perm (s : Stream) : ∀ tr : List Obs, (lost s tr).Perm (dropped s tr ++ expired s tr)
  | [] => .refl _
  | o :: tr => by
    have ih := lost_perm s tr
    simp only [lost, dropped, expired, List.filterMap_cons] at ih ⊢
    cases o with
    | dropped s' id =>
      by_cases hs : s' = s
      · simpa [hs] using ih.cons id
      · simpa [hs] using ih
    | expired s' id =>
      by_cases hs : s' = s
      · simpa [hs] using (ih.cons id).trans List.perm_middle.symm
      · simpa [hs] using ih
    | _ => simpa using ih

/-! ## Where the events are -/

/-- The part of a retry queue not yet written : while the front is being popped, it has
been. -/
def Retry.unwritten (r : Retry) : List Item :=
  if r.pc = .pop then r.queue.tail else r.queue

/-- The current retry thread of a stream. -/
def State.retryOf (st : State) (s : Stream) : Option Retry :=
  (current st.retryMap st.log s).bind (deref st.retries)

/-- What waits in the retry queue of a stream. -/
def State.queued (st : State) (s : Stream) : List Item :=
  (st.retryOf s).elim [] Retry.unwritten

/-- The local list of `do_run` without the event `log` is busy with. -/
def LogPc.rest : LogPc → List Item
  | next rest => rest
  | body _ rest _ _ _ => rest
  | _ => []

/-- The event `log` is busy with, as long as the node `n` has not handed it over. -/
def LogPc.inHand (n : String) : LogPc → List Item
  | body e _ m _ pc =>
    if m < n then [e]
    else if m = n then
      match pc with
      | .emplace _ => []
      | _ => [e]
    else []
  | _ => []

def ids (l : List Item) : List ℕ :=
  l.map Item.id

/-- The events on their way to the stream `s` registered under `n`, the oldest first. -/
def pending (n : String) (s : Stream) (st : State) : List ℕ :=
  ids (st.queued s ++ st.log.inHand n ++ st.log.rest ++ st.events)

/-! ## The node `log` stands at -/

section Node

variable {st st' : State} {P : String → Stream → Prop}

/-- A property of the node `log` stands at, if it stands at one. -/
def LogPc.At (P : String → Stream → Prop) : LogPc → Prop
  | body _ _ m s _ => P m s
  | _ => True

theorem at_visit (st : State) (e : Item) (rest : List Item) {o : Option (String × Stream)}
    (ho : ∀ m s, o = some (m, s) → P m s) : (st.visit e rest o).log.At P := by
  cases o with
  | none => trivial
  | some p => exact ho p.1 p.2 rfl

theorem LogPc.At.body {e : Item} {rest : List Item} {m : String} {s : Stream} {pc : BodyPc}
    (hP : ∀ m s, st.streams.find m = some s → P m s) (h : st.log.At P)
    (hlog : st.log = .body e rest m s pc) (hs : BodyMove st e rest m s pc st') :
    st'.log.At P := by
  have hnext : ∀ k v, st.streams.next m = some (k, v) → P k v :=
    fun k v hk => hP k v (OrdMap.find_of_next hk)
  have hat : P m s := by rwa [hlog] at h
  cases hs with
  | crash => exact h
  | enqueue => exact at_visit _ _ _ hnext
  | accept => exact at_visit _ _ _ hnext
  | drop => exact at_visit _ _ _ hnext
  | emplace => exact at_visit _ _ _ hnext
  | _ => exact hat

/-- What holds of every registered stream holds at the node `log` stands at. -/
theorem LogPc.At.move {formatTime : ℤ → Bytes} {a : Action}
    (hP : ∀ m s, st.streams.find m = some s → P m s) (h : st.log.At P)
    (hs : Move formatTime st a st') : st'.log.At P := by
  cases hs with
  | notify hpc =>
    rcases hpc with ⟨-, rfl⟩ | ⟨-, rfl⟩
    · trivial
    · exact h
  | log hmove =>
    generalize hlog : st.log = pc at hmove
    cases hmove with
    | crash => exact h
    | take => exact at_visit _ _ _ fun m s hm => hP m s (OrdMap.find_of_first hm)
    | body _ hbody => exact h.body hP hlog hbody
    | @scanned b => cases b <;> trivial
    | _ => trivial
  | retry _ hmove => cases hmove <;> exact h
  | _ => exact h

end Node

/-! ## The retry thread of the stream -/

section View

variable {st st' : State} {n : String} {s : Stream}

theorem retryOf_of_deref (h : Inv st) {t : ℕ} {r : Retry} (hr : deref st.retries t = some r) :
    st.retryOf r.stream = some r := by
  simp [State.retryOf, (h.owner r.stream t).2 ⟨r, hr, rfl⟩, hr]

theorem retryOf_eq_none (h : Inv st) (hs : ∀ t r, deref st.retries t = some r → r.stream ≠ s) :
    st.retryOf s = none := by
  cases hc : current st.retryMap st.log s with
  | none => simp [State.retryOf, hc]
  | some t =>
    obtain ⟨r, hr, hrs⟩ := (h.owner s t).1 hc
    exact (hs t r hr hrs).elim

/-- The current retry thread depends on the objects of the stream only. -/
theorem retryOf_congr (h : Inv st) (h' : Inv st')
    (hs : ∀ t r, r.stream = s → (deref st'.retries t = some r ↔ deref st.retries t = some r)) :
    st'.retryOf s = st.retryOf s := by
  by_cases hex : ∃ t r, deref st.retries t = some r ∧ r.stream = s
  · obtain ⟨t, r, hr, rfl⟩ := hex
    rw [retryOf_of_deref h hr, retryOf_of_deref h' ((hs t r rfl).2 hr)]
  · have hno : ∀ t r, deref st.retries t = some r → r.stream ≠ s :=
      fun t r hr hrs => hex ⟨t, r, hr, hrs⟩
    rw [retryOf_eq_none h hno,
      retryOf_eq_none h' fun t r hr hrs => hno t r ((hs t r hrs).1 hr) hrs]

@[simp] theorem rest_visit (st : State) (e : Item) (rest : List Item)
    (o : Option (String × Stream)) : (st.visit e rest o).log.rest = rest := by
  cases o <;> rfl

theorem inHand_first (hfind : st.streams.find n = some s) (st' : State) (e : Item)
    (rest : List Item) : (st'.visit e rest st.streams.first).log.inHand n = [e] := by
  cases hf : st.streams.first with
  | none => exact absurd hfind (by simp [OrdMap.find_of_first_eq_none hf])
  | some p =>
    have hle : p.1 ≤ n := OrdMap.first_le hf hfind
    rcases hle.lt_or_eq with hlt | heq
    · simp [State.visit, State.goto, LogPc.inHand, hlt]
    · simp [State.visit, State.goto, LogPc.inHand, heq]

/-- Moving on from the node `m` keeps the event in hand until `n` is passed. -/
theorem inHand_next (hfind : st.streams.find n = some s) (st' : State) (e : Item) (rest : List Item)
    (m : String) : (st'.visit e rest (st.streams.next m)).log.inHand n =
      if m < n then [e] else [] := by
  cases hf : st.streams.next m with
  | none =>
    have hle := OrdMap.not_lt_of_next_eq_none hf hfind
    simp [State.visit, State.goto, LogPc.inHand, hle]
  | some p =>
    have hmp : m < p.1 := OrdMap.lt_of_next hf
    split_ifs with hmn
    · rcases (OrdMap.next_le hf hfind hmn).lt_or_eq with hlt | heq
      · simp [State.visit, State.goto, LogPc.inHand, hlt]
      · simp [State.visit, State.goto, LogPc.inHand, heq]
    · have hnp : n < p.1 := (not_lt.1 hmn).trans_lt hmp
      simp [State.visit, State.goto, LogPc.inHand, hnp.not_gt, hnp.ne']

/-- The retry thread the log thread is busy with. -/
def BodyPc.thread : BodyPc → Option ℕ
  | active t | enqueue t | join t | announce t | first t | emplace t => some t
  | _ => none

theorem Inv.busyWith (h : Inv st) {e : Item} {rest : List Item} {m : String} {s' : Stream}
    {pc : BodyPc} {t : ℕ} {r : Retry} (hlog : st.log = .body e rest m s' pc)
    (ht : pc.thread = some t) (hr : deref st.retries t = some r) : r.stream = s' := by
  have hfacts := h.log
  rw [hlog] at hfacts
  have hcur : current st.retryMap st.log s' = some t := by
    rw [hlog, current]
    cases pc <;> simp_all [BodyPc.thread, LogFacts, BodyPc.Facts]
  obtain ⟨r', hr', hs'⟩ := (h.owner s' t).1 hcur
  rw [hr, Option.some.injEq] at hr'
  exact hr' ▸ hs'

/-- Queueing an event puts it last. -/
theorem RetryFacts.unwritten_append {tr : List Obs} {r : Retry} (h : RetryFacts tr r)
    (e : Item) : Retry.unwritten { r with queue := r.queue ++ [e] } = r.unwritten ++ [e] := by
  unfold Retry.unwritten
  by_cases hpc : r.pc = .pop
  · simp only [RetryFacts, hpc] at h
    obtain ⟨e', he', -⟩ := h
    have hne : r.queue ≠ [] := by
      intro hq
      simp [hq] at he'
    simp [hpc, List.tail_append_of_ne_nil hne]
  · simp [hpc]

theorem queued_eq (h' : Inv st') {t : ℕ} {r : Retry} (hr : deref st'.retries t = some r)
    (hs : r.stream = s) : st'.queued s = r.unwritten := by
  rw [State.queued, ← hs, retryOf_of_deref h' hr]
  rfl

theorem queued_congr (h : Inv st) (h' : Inv st') (hl : st'.retries = st.retries) :
    st'.queued s = st.queued s := by
  rw [State.queued, retryOf_congr h h' fun t r _ => by rw [hl]]
  rfl

theorem queued_eq_nil (h : Inv st) (hs : ∀ t r, deref st.retries t = some r → r.stream ≠ s) :
    st.queued s = [] := by
  rw [State.queued, retryOf_eq_none h hs]
  rfl

/-- A change of one retry thread. -/
theorem queued_modify (h : Inv st) (h' : Inv st') {t : ℕ} {r : Retry} {f : Retry → Retry}
    (hr : deref st.retries t = some r) (hl : st'.retries = st.retries.modify t f)
    (hs : ∀ r, (f r).stream = r.stream) (hd : ∀ r, (f r).deleted = r.deleted) :
    st'.queued s = if r.stream = s then (f r).unwritten else st.queued s := by
  split_ifs with hrs
  · refine queued_eq h' (t := t) ?_ ((hs r).trans hrs)
    rw [hl, deref_modify hd, if_pos rfl, hr]
    rfl
  · rw [State.queued, State.queued, retryOf_congr h h' fun t' r' hrs' => ?_]
    rw [hl, deref_modify hd]
    split_ifs with htt
    · subst htt
      rw [hr]
      constructor
      · rintro ⟨⟩
        exact (hrs ((hs r).symm.trans hrs')).elim
      · rintro ⟨⟩
        exact (hrs hrs').elim
    · rfl

theorem queued_enqueue (h : Inv st) (h' : Inv st') {t : ℕ} {r : Retry} {e : Item}
    (hr : deref st.retries t = some r) (hl : st'.retries = (st.enqueueRetry t e).retries) :
    st'.queued s = st.queued s ++ if r.stream = s then [e] else [] := by
  rw [queued_modify h h' hr hl (fun _ => rfl) fun _ => rfl]
  split_ifs with hrs
  · rw [(h.retry t r hr).unwritten_append, queued_eq h hr hrs]
  · simp

/-- A new retry thread has an empty queue. -/
theorem queued_new (h : Inv st) (h' : Inv st') {s' : Stream}
    (hl : st'.retries = st.retries ++ [Retry.new s']) : st'.queued s = st.queued s := by
  by_cases hex : ∃ t r, deref st.retries t = some r ∧ r.stream = s
  · obtain ⟨t, r, hr, hrs⟩ := hex
    have hr' : deref st'.retries t = some r := by
      rw [hl, deref_append rfl, if_neg (lt_of_deref hr).ne, hr]
    rw [queued_eq h hr hrs, queued_eq h' hr' hrs]
  · have hno : ∀ t r, deref st.retries t = some r → r.stream ≠ s :=
      fun t r hr hrs => hex ⟨t, r, hr, hrs⟩
    rw [queued_eq_nil h hno]
    by_cases hs : s' = s
    · refine queued_eq h' (t := st.retries.length) (r := Retry.new s') ?_ hs
      rw [hl, deref_append rfl, if_pos rfl]
    · refine queued_eq_nil h' fun t r hr => ?_
      rw [hl, deref_append rfl] at hr
      split_ifs at hr
      · obtain rfl := Option.some.inj hr
        exact hs
      · exact hno t r hr

/-- Deleting a retry thread with an empty queue. -/
theorem queued_delete (h : Inv st) (h' : Inv st') {t : ℕ} {r : Retry}
    (hr : deref st.retries t = some r) (hq : r.queue = [])
    (hl : st'.retries = (st.deleteRetry t).retries) : st'.queued s = st.queued s := by
  by_cases hrs : r.stream = s
  · have hold : st.queued s = [] := by simp [queued_eq h hr hrs, Retry.unwritten, hq]
    rw [hold]
    refine queued_eq_nil h' fun t' r' hr' hrs' => ?_
    rw [hl, deref_deleteRetry] at hr'
    split_ifs at hr' with htt
    have h₁ := (h.owner s t).2 ⟨r, hr, hrs⟩
    have h₂ := (h.owner s t').2 ⟨r', hr', hrs'⟩
    exact htt (Option.some.inj (h₁.symm.trans h₂))
  · rw [State.queued, State.queued, retryOf_congr h h' fun t' r' hrs' => ?_]
    rw [hl, deref_deleteRetry]
    split_ifs with htt
    · subst htt
      constructor
      · rintro ⟨⟩
      · intro hr'
        rw [hr, Option.some.injEq] at hr'
        exact (hrs (hr' ▸ hrs')).elim
    · rfl

/-! ## The effect of a step -/

/-- What a step does to the stream `s` registered under `n`. -/
inductive Effect (n : String) (s : Stream) (st st' : State) : Prop
  /-- nothing -/
  | keep (o : List Obs) (hp : pending n s st' = pending n s st) (hc : st'.count = st.count)
    (ht : st'.trace = st.trace ++ o) (ha : accepted s o = []) (hl : lost s o = [])
  /-- an event is enqueued -/
  | send (hp : pending n s st' = pending n s st ++ [st.count]) (hc : st'.count = st.count + 1)
    (ht : st'.trace = st.trace ++ [.enqueued st.count])
  /-- `log` passes a node : the event is queued in the stream's retry thread, or the stream
  has none and accepts the event, or no retry thread can be constructed -/
  | pass {e : Item} {rest : List Item} {m : String} {s' : Stream} {pc : BodyPc} {o : List Obs}
    {q : List ℕ} (Q R : List ℕ) (hlog : st.log = .body e rest m s' pc)
    (hp : pending n s st = Q ++ (if m ≤ n then [e.id] else []) ++ R)
    (hp' : pending n s st' = Q ++ q ++ (if m < n then [e.id] else []) ++ R)
    (hc : st'.count = st.count) (ht : st'.trace = st.trace ++ o)
    (hq : o = [] ∧ q = (if s' = s then [e.id] else []) ∨
      q = [] ∧ (s' = s → Q = []) ∧ (o = [.accepted s' e.id] ∨ o = [.dropped s' e.id]))
  /-- the retry thread writes the front of its queue -/
  | arrive (x : ℕ) (hp : pending n s st = x :: pending n s st') (hc : st'.count = st.count)
    (ht : st'.trace = st.trace ++ [.accepted s x])
  /-- events expire -/
  | lose (o : List Obs) (hsub : (pending n s st').Sublist (pending n s st))
    (hperm : (lost s o ++ pending n s st').Perm (pending n s st)) (hc : st'.count = st.count)
    (ht : st'.trace = st.trace ++ o) (ha : accepted s o = [])

theorem Effect.same (hp : pending n s st' = pending n s st) (hc : st'.count = st.count)
    (ht : st'.trace = st.trace) : Effect n s st st' :=
  .keep [] hp hc (by rw [ht, List.append_nil]) rfl rfl

/-- A step that moves nothing. -/
theorem Effect.frame (h : Inv st) (h' : Inv st') (hr : st'.retries = st.retries)
    (hh : st'.log.inHand n = st.log.inHand n) (hl : st'.log.rest = st.log.rest)
    (he : st'.events = st.events) (hc : st'.count = st.count) (ht : st'.trace = st.trace) :
    Effect n s st st' :=
  .same (by rw [pending, queued_congr h h' hr, hh, hl, he, pending]) hc ht

theorem inHand_body {e : Item} {rest : List Item} {m : String} {s' : Stream} {pc : BodyPc}
    (hpc : ∀ t, pc ≠ .emplace t) :
    (LogPc.body e rest m s' pc).inHand n = if m ≤ n then [e] else [] := by
  rcases lt_trichotomy m n with hm | hm | hm
  · simp [LogPc.inHand, hm, hm.le]
  · cases pc <;> simp_all [LogPc.inHand]
  · simp [LogPc.inHand, hm.not_gt, hm.ne', hm.not_ge]

theorem inHand_emplace {e : Item} {rest : List Item} {m : String} {s' : Stream} {t : ℕ} :
    (LogPc.body e rest m s' (.emplace t)).inHand n = if m < n then [e] else [] := by
  simp [LogPc.inHand]

/-- `log` at a node. -/
theorem effect_body (h : Inv st) (h' : Inv st') (hfind : st.streams.find n = some s) {e : Item}
    {rest : List Item} {m : String} {s' : Stream} {pc : BodyPc}
    (hlog : st.log = .body e rest m s' pc) (hs : BodyMove st e rest m s' pc st') :
    Effect n s st st' := by
  have hrest : st.log.rest = rest := by rw [hlog]; rfl
  have hstay : ∀ pc', (∀ t, pc ≠ .emplace t) → (∀ t, pc' ≠ .emplace t) →
      (LogPc.body e rest m s' pc').inHand n = st.log.inHand n := by
    intro pc' hpc hpc'
    rw [hlog, inHand_body hpc, inHand_body hpc']
  have hnext : ∀ st₁ : State, (st₁.visit e rest (st.streams.next m)).log.inHand n =
      if m < n then [e] else [] := fun st₁ => inHand_next hfind st₁ e rest m
  -- what is pending before a step that passes the node, and after it
  have hbefore : (∀ t, pc ≠ .emplace t) → pending n s st =
      ids (st.queued s) ++ (if m ≤ n then [e.id] else []) ++ ids (rest ++ st.events) := by
    intro hpc
    rw [pending, hrest, hlog, inHand_body hpc]
    split_ifs <;> simp [ids]
  have hafter : st'.log.inHand n = (if m < n then [e] else []) → st'.log.rest = rest →
      st'.events = st.events → pending n s st' =
        ids (st'.queued s) ++ (if m < n then [e.id] else []) ++ ids (rest ++ st.events) := by
    intro h₁ h₂ h₃
    rw [pending, h₁, h₂, h₃]
    split_ifs <;> simp [ids]
  have hgone : s' = s → st.retryMap.find s' = none → st.log.holds = none →
      ids (st.queued s) = [] := by
    intro hs' hf hh
    rw [queued_eq_nil h fun t r hr => hs' ▸ h.stream_ne hf hh hr]
    rfl
  have hfacts : pc.Facts st.retryMap st.retries s' := by
    have := h.log
    rwa [hlog] at this
  cases hs with
  | crash => exact .frame h h' rfl rfl rfl rfl rfl rfl
  | absent => exact .frame h h' rfl (hstay _ (by simp) (by simp)) hrest.symm rfl rfl rfl
  | null => exact .frame h h' rfl (hstay _ (by simp) (by simp)) hrest.symm rfl rfl rfl
  | entry => exact .frame h h' rfl (hstay _ (by simp) (by simp)) hrest.symm rfl rfl rfl
  | busy => exact .frame h h' rfl (hstay _ (by simp) (by simp)) hrest.symm rfl rfl rfl
  | idle => exact .frame h h' rfl (hstay _ (by simp) (by simp)) hrest.symm rfl rfl rfl
  | fail => exact .frame h h' rfl (hstay _ (by simp) (by simp)) hrest.symm rfl rfl rfl
  | announce => exact .frame h h' rfl (hstay _ (by simp) (by simp)) hrest.symm rfl rfl rfl
  | @enqueue t r hr =>
    refine .pass _ _ hlog (hbefore (by simp)) ?_ (visit_count ..)
      ((advance_trace ..).trans (List.append_nil _).symm) (.inl ⟨rfl, rfl⟩)
    rw [hafter (hnext _) (rest_visit ..) (visit_events ..),
      queued_enqueue h h' hr (advance_retries ..), h.busyWith hlog rfl hr]
    split_ifs <;> simp [ids]
  | @join t r hr hpc =>
    refine .same ?_ rfl rfl
    rw [pending, queued_delete h h' hr (hfacts.2 r hr) rfl, State.goto,
      hstay .write (by simp) (by simp)]
    exact congrArg (fun l => ids (_ ++ l ++ st.events)) hrest.symm
  | accept =>
    refine .pass _ _ hlog (hbefore (by simp)) ?_ (visit_count ..) (advance_trace ..)
      (.inr ⟨rfl, fun hs' => hgone hs' hfacts (by rw [hlog]; rfl), .inl rfl⟩)
    rw [hafter (hnext _) (rest_visit ..) (visit_events ..),
      queued_congr h h' (advance_retries ..), List.append_nil]
  | construct =>
    refine .same ?_ rfl rfl
    rw [pending, queued_new h h' rfl, State.goto, hstay (.announce _) (by simp) (by simp)]
    exact congrArg (fun l => ids (_ ++ l ++ st.events)) hrest.symm
  | drop =>
    refine .pass _ _ hlog (hbefore (by simp)) ?_ (visit_count ..) (advance_trace ..)
      (.inr ⟨rfl, fun hs' => hgone hs' hfacts (by rw [hlog]; rfl), .inr rfl⟩)
    rw [hafter (hnext _) (rest_visit ..) (visit_events ..),
      queued_congr h h' (advance_retries ..), List.append_nil]
  | @first t r hr =>
    refine .pass _ _ hlog (hbefore (by simp)) ?_ rfl (List.append_nil _).symm (.inl ⟨rfl, rfl⟩)
    rw [hafter inHand_emplace rfl rfl, queued_enqueue h h' hr rfl, h.busyWith hlog rfl hr]
    split_ifs <;> simp [ids]
  | @emplace t =>
    refine .frame h h' (advance_retries ..) ?_ ?_ (visit_events ..) (visit_count ..)
      (advance_trace ..)
    · rw [hlog, inHand_emplace]
      exact hnext _
    · rw [hrest]
      exact rest_visit ..

/-- The log thread. -/
theorem effect_log (h : Inv st) (h' : Inv st') (hfind : st.streams.find n = some s)
    {formatTime : ℤ → Bytes} {pc : LogPc} (hlog : st.log = pc)
    (hs : LogMove formatTime st pc st') : Effect n s st st' := by
  have hfacts := h.log
  rw [hlog] at hfacts
  -- outside `log` and the local list nothing is in hand
  have hquiet : ∀ pc', pc.inHand n = [] → pc.rest = [] → pc'.inHand n = [] → pc'.rest = [] →
      st' = st.goto pc' → Effect n s st st' := by
    rintro pc' h₁ h₂ h₃ h₄ rfl
    exact .frame h h' rfl (by rw [hlog, h₁]; exact h₃) (by rw [hlog, h₂]; exact h₄) rfl rfl rfl
  cases hs with
  | crash => exact .frame h h' rfl rfl rfl rfl rfl rfl
  | body _ hmove => exact effect_body h h' hfind hlog hmove
  | swap =>
    refine .same ?_ rfl rfl
    rw [pending, queued_congr h h' rfl, pending, hlog]
    simp [State.goto, LogPc.inHand, LogPc.rest]
  | done => exact hquiet _ rfl rfl rfl rfl rfl
  | @take e rest =>
    refine .keep [.logged e.id] ?_ (visit_count ..) (visit_trace ..) rfl rfl
    rw [pending, queued_congr h h' (visit_retries ..), rest_visit, visit_events,
      inHand_first hfind, pending, hlog]
    simp [State.observe, LogPc.inHand, LogPc.rest, ids]
  | scan => exact hquiet _ rfl rfl rfl rfl rfl
  | sleep => exact hquiet _ rfl rfl rfl rfl rfl
  | more => exact hquiet _ rfl rfl rfl rfl rfl
  | wake => exact hquiet _ rfl rfl rfl rfl rfl
  | @scanned b => cases b <;> exact hquiet _ rfl rfl rfl rfl rfl
  | scanBusy => exact hquiet _ rfl rfl rfl rfl rfl
  | scanIdle => exact hquiet _ rfl rfl rfl rfl rfl
  | scanJoin hr hpc =>
    refine .same ?_ rfl rfl
    rw [pending, queued_delete h h' hr (hfacts.2.2.1 _ hr) rfl, pending, hlog]
    rfl
  | pause => exact hquiet _ rfl rfl rfl rfl rfl
  | finish => exact hquiet _ rfl rfl rfl rfl rfl
  | again => exact hquiet _ rfl rfl rfl rfl rfl

/-- The expiry pass of a retry thread. -/
theorem effect_expire (h : Inv st) (h' : Inv st') {t : ℕ} {r : Retry} {now : ℤ} {pc : RetryPc}
    (hr : deref st.retries t = some r) (hpc : r.pc = .expire) (hpc' : pc = .test ∨ pc = .report)
    (hst : st' = (st.observe ((r.queue.filter fun e => e.event.expired now).map fun e =>
      .expired r.stream e.id)).modifyRetry t fun r =>
        { r with queue := r.queue.filter fun e => !e.event.expired now, pc := pc }) :
    Effect n s st st' := by
  have hqueued' : st'.queued s = if r.stream = s then
      Retry.unwritten { r with queue := r.queue.filter fun e => !e.event.expired now, pc := pc }
      else st.queued s :=
    queued_modify h h' (f := fun r =>
      { r with queue := r.queue.filter fun e => !e.event.expired now, pc := pc })
      hr (by rw [hst]; rfl) (fun _ => rfl) fun _ => rfl
  have htrace : st'.trace = st.trace ++ (r.queue.filter fun e => e.event.expired now).map
      fun e => .expired r.stream e.id := by rw [hst]; rfl
  have hrest : pending n s st' = ids (st'.queued s) ++
      ids (st.log.inHand n ++ st.log.rest ++ st.events) := by
    rw [pending, hst]
    simp [ids, State.modifyRetry, State.observe]
  have hcount : st'.count = st.count := by rw [hst]; rfl
  by_cases hrs : r.stream = s
  · have hold : pending n s st = ids r.queue ++
        ids (st.log.inHand n ++ st.log.rest ++ st.events) := by
      simp [pending, queued_eq h hr hrs, Retry.unwritten, hpc, ids]
    have hpop : pc ≠ .pop := by rcases hpc' with rfl | rfl <;> simp
    simp only [if_pos hrs, Retry.unwritten, hpop, if_false] at hqueued'
    refine .lose _ ?_ ?_ hcount htrace (accepted_expire ..)
    all_goals rw [hrest, hqueued', hold]
    · exact ((List.filter_sublist).map _).append_right _
    · rw [lost_expire, if_pos hrs, ← List.append_assoc]
      refine List.Perm.append_right _ ?_
      simpa only [ids, List.map_append] using
        (List.filter_append_perm (fun e => e.event.expired now) r.queue).map Item.id
  · rw [if_neg hrs] at hqueued'
    refine .keep _ ?_ hcount htrace (accepted_expire ..) (by rw [lost_expire, if_neg hrs])
    rw [hrest, hqueued']
    simp [pending, ids]

/-- A retry thread, of this or of another stream. -/
theorem effect_retry (h : Inv st) (h' : Inv st') {t : ℕ} {r : Retry}
    (hr : deref st.retries t = some r) (hs : RetryMove st t r st') :
    Effect n s st st' := by
  have hret := h.retry t r hr
  have hqueued : r.stream = s → st.queued s = r.unwritten := queued_eq h hr
  cases hs with
  | crash => exact .frame h h' rfl rfl rfl rfl rfl rfl
  | @quiet pc pc' hpc hq =>
    refine .same ?_ rfl rfl
    rw [pending, queued_modify h h' hr rfl (fun _ => rfl) fun _ => rfl]
    split_ifs with hrs
    · rw [pending, hqueued hrs]
      cases hq <;> simp [Retry.unwritten, hpc, State.modifyRetry]
    · rfl
  | @accept e hpc =>
    by_cases hrs : r.stream = s
    · refine .arrive e.id ?_ rfl (by rw [← hrs]; rfl)
      have hhead : r.queue = e :: r.queue.tail := by
        simp only [RetryFacts, hpc] at hret
        exact (List.cons_head?_tail hret).symm
      rw [pending, hqueued hrs, pending,
        queued_modify h h' hr rfl (fun _ => rfl) fun _ => rfl, if_pos hrs]
      simp only [Retry.unwritten, hpc, reduceCtorEq, if_false, if_true]
      rw [hhead]
      rfl
    · refine .keep [.accepted r.stream e.id] ?_ rfl rfl (by simp [accepted, hrs]) rfl
      rw [pending, queued_modify h h' hr rfl (fun _ => rfl) fun _ => rfl, if_neg hrs]
      rfl
  | pop hpc =>
    refine .same ?_ rfl rfl
    rw [pending, queued_modify h h' hr rfl (fun _ => rfl) fun _ => rfl]
    split_ifs with hrs
    · rw [pending, hqueued hrs]
      simp [Retry.unwritten, hpc, State.modifyRetry]
    · rfl
  | expire hpc hpc' => exact effect_expire h h' hr hpc hpc' rfl

/-- The effect of a step of the process. -/
theorem effect_move (h : Inv st) (hfind : st.streams.find n = some s)
    {formatTime : ℤ → Bytes} {a : Action} (hs : Move formatTime st a st') :
    Effect n s st st' := by
  have h' := h.move hs
  cases hs with
  | enqueue =>
    refine .send ?_ rfl rfl
    rw [pending, queued_congr h h' rfl]
    simp [pending, ids, State.observe]
  | notify hpc =>
    refine .frame h h' rfl ?_ ?_ rfl rfl rfl
    all_goals rcases hpc with ⟨hw, rfl⟩ | ⟨-, rfl⟩
    · rw [hw]; rfl
    · rfl
    · rw [hw]; rfl
    · rfl
  | terminate => exact .frame h h' rfl rfl rfl rfl rfl rfl
  | add => exact .frame h h' rfl rfl rfl rfl rfl rfl
  | deleteCrash => exact .frame h h' rfl rfl rfl rfl rfl rfl
  | delete => exact .frame h h' rfl rfl rfl rfl rfl rfl
  | erase => exact .frame h h' rfl rfl rfl rfl rfl rfl
  | log hmove => exact effect_log h h' hfind rfl hmove
  | retry hr hmove => exact effect_retry h h' hr hmove

end View

/-! ## Every event passes through `log` once -/

section Counted

variable {st st' : State}

/-- The events are numbered in the order of `enqueue`, and each one was passed to `log`,
is in the local list of `do_run`, or is in `m_events`, in this order. -/
structure Counted (st : State) : Prop where
  enqueued : enqueued st.trace = List.range st.count
  logged : logged st.trace ++ ids st.log.rest ++ ids st.events = List.range st.count

theorem Counted.frame (h : Counted st) {o : List Obs} (ht : st'.trace = st.trace ++ o)
    (he : Logfile.enqueued o = []) (hg : Logfile.logged o = []) (hc : st'.count = st.count)
    (hv : ids st'.log.rest ++ ids st'.events = ids st.log.rest ++ ids st.events) :
    Counted st' where
  enqueued := by rw [ht, enqueued_append, he, List.append_nil, hc, h.enqueued]
  logged := by
    rw [ht, logged_append, hg, List.append_nil, hc, ← h.logged, List.append_assoc, hv,
      List.append_assoc]

/-- A step that passes the node. -/
theorem Counted.advance (h : Counted st) {o : List Obs} {e : Item} {rest : List Item}
    {m : String} (hrest : st.log.rest = rest) (ht : st'.trace = st.trace ++ o)
    (he : Logfile.enqueued o = []) (hg : Logfile.logged o = []) (hc : st'.count = st.count)
    (hv : st'.events = st.events) : Counted (st'.advance e rest m) := by
  refine h.frame (o := o) ((advance_trace ..).trans ht) he hg ((visit_count ..).trans hc) ?_
  rw [State.advance, rest_visit, visit_events, hv, hrest]

theorem Counted.body (h : Counted st) {e : Item} {rest : List Item} {m : String} {s' : Stream}
    {pc : BodyPc} (hlog : st.log = .body e rest m s' pc) (hs : BodyMove st e rest m s' pc st') :
    Counted st' := by
  have hrest : st.log.rest = rest := by rw [hlog]; rfl
  have hnil : st.trace = st.trace ++ [] := (List.append_nil _).symm
  cases hs with
  | crash => exact h.frame hnil rfl rfl rfl rfl
  | enqueue => exact h.advance hrest hnil rfl rfl rfl rfl
  | accept => exact h.advance hrest rfl rfl rfl rfl rfl
  | drop => exact h.advance hrest rfl rfl rfl rfl rfl
  | emplace => exact h.advance hrest hnil rfl rfl rfl rfl
  | _ => exact h.frame hnil rfl rfl rfl (by rw [hrest]; rfl)

theorem Counted.logMove (h : Counted st) {formatTime : ℤ → Bytes} {pc : LogPc}
    (hlog : st.log = pc) (hs : LogMove formatTime st pc st') : Counted st' := by
  have hnil : st.trace = st.trace ++ [] := (List.append_nil _).symm
  cases hs with
  | crash => exact h.frame hnil rfl rfl rfl rfl
  | body _ hmove => exact h.body hlog hmove
  | swap => exact h.frame hnil rfl rfl rfl (by simp [hlog, State.goto, LogPc.rest, ids])
  | @take e rest =>
    have hlogged := h.logged
    rw [hlog] at hlogged
    constructor
    · rw [visit_trace, visit_count]
      simpa [State.observe, Logfile.enqueued] using h.enqueued
    · rw [visit_trace, visit_count, rest_visit, visit_events]
      simpa [State.observe, Logfile.logged, LogPc.rest, ids] using hlogged
  | @scanned b => exact h.frame hnil rfl rfl rfl (by rw [hlog]; cases b <;> rfl)
  | _ => exact h.frame hnil rfl rfl rfl (by rw [hlog]; rfl)

theorem Counted.move (h : Counted st) {formatTime : ℤ → Bytes} {a : Action}
    (hs : Move formatTime st a st') : Counted st' := by
  have hnil : st.trace = st.trace ++ [] := (List.append_nil _).symm
  cases hs with
  | enqueue =>
    constructor
    · rw [List.range_succ, ← h.enqueued]
      simp [State.observe, Logfile.enqueued]
    · rw [List.range_succ, ← h.logged]
      simp [State.observe, Logfile.logged, ids]
  | notify hpc =>
    refine h.frame hnil rfl rfl rfl ?_
    rcases hpc with ⟨hw, rfl⟩ | ⟨-, rfl⟩
    · rw [hw]; rfl
    · rfl
  | log hmove => exact h.logMove rfl hmove
  | retry _ hmove =>
    cases hmove with
    | accept => exact h.frame rfl rfl rfl rfl rfl
    | expire => exact h.frame rfl (enqueued_expire ..) (logged_expire ..) rfl rfl
    | _ => exact h.frame hnil rfl rfl rfl rfl
  | _ => exact h.frame hnil rfl rfl rfl rfl

theorem counted_of_reach {formatTime : ℤ → Bytes} {ok : State → Action → Prop}
    (h : (system formatTime).Reach ok st) : Counted st := by
  refine h.invariant (fun st hi => ⟨?_, ?_⟩) fun _ _ _ _ hi _ hs => hi.move (move hs)
  · simp [hi.trace, hi.count, Logfile.enqueued]
  · simp [hi.trace, hi.count, hi.log, hi.events, Logfile.logged, LogPc.rest, ids]

end Counted

end Logfile
