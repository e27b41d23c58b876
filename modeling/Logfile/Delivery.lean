import Logfile.Channel
import Logfile.Pending

/-!
# Delivery to one stream

For a stream that is registered under one name, the process is a channel that may lose
(`view`) : an event is sent when it is enqueued, arrives when a write on the stream
returns true, and is lost when it expires or when no retry thread can be constructed.
Every step of the process is a step of this channel or leaves it unchanged (`follows`), so
the writes keep the order of `enqueue` and no event is lost silently (`delivery`).
-/

set_option linter.unusedSectionVars false

namespace Logfile

/-- The channel to the stream `s` registered under `n`. -/
def view (n : String) (s : Stream) (st : State) : Channel ℕ where
  sent := List.range st.count
  pending := pending n s st
  arrived := accepted s st.trace
  lost := lost s st.trace

/-- The stream `s` is registered under `n` and under no other name. -/
structure RegisteredOnce (n : String) (s : Stream) (st : State) : Prop where
  find : st.streams.find n = some s
  only : ∀ m, st.streams.find m = some s → m = n

section View

variable {st st' : State} {n : String} {s : Stream}

theorem RegisteredOnce.atNode (h : RegisteredOnce n s st) {m : String} {s' : Stream}
    (hm : st.streams.find m = some s') : m = n ↔ s' = s := by
  constructor
  · rintro rfl
    exact Option.some.inj (hm.symm.trans h.find)
  · rintro rfl
    exact h.only m hm

/-! ## Each step as a step of the channel -/

/-- The channel makes at most one step. -/
def Follows (c c' : Channel ℕ) : Prop :=
  c' = c ∨ ∃ a, Channel.step c a = some c'

theorem follows_arrive {x : ℕ} (hp : pending n s st = x :: pending n s st')
    (hc : st'.count = st.count) (ht : st'.trace = st.trace ++ [.accepted s x]) :
    Follows (view n s st) (view n s st') := by
  refine Or.inr ⟨.arrive, ?_⟩
  simp only [Channel.step, view, hp, hc, ht]
  simp [accepted, lost]

theorem follows_lose {o : List Obs} (hsub : (pending n s st').Sublist (pending n s st))
    (hperm : (lost s o ++ pending n s st').Perm (pending n s st))
    (hc : st'.count = st.count) (ht : st'.trace = st.trace ++ o) (ha : accepted s o = []) :
    Follows (view n s st) (view n s st') := by
  refine Or.inr ⟨.lose (lost s o) (pending n s st'), ?_⟩
  rw [Channel.step, if_pos ⟨hsub, hperm⟩]
  simp [view, accepted_append, lost_append, hc, ht, ha]

theorem follows_keep {o : List Obs} (hp : pending n s st' = pending n s st)
    (hc : st'.count = st.count) (ht : st'.trace = st.trace ++ o) (ha : accepted s o = [])
    (hl : lost s o = []) : Follows (view n s st) (view n s st') :=
  Or.inl (by simp only [view, hp, hc, ht, accepted_append, lost_append, ha, hl, List.append_nil])

/-- Every step of the process is a step of the channel or leaves it unchanged. -/
theorem follows (hat : st.log.At fun m s' => m = n ↔ s' = s) (he : Effect n s st st') :
    Follows (view n s st) (view n s st') := by
  cases he with
  | keep o hp hc ht ha hl => exact follows_keep hp hc ht ha hl
  | send hp hc ht =>
    refine Or.inr ⟨.send st.count, ?_⟩
    simp [Channel.step, view, hp, hc, ht, List.range_succ, accepted, lost]
  | arrive x hp hc ht => exact follows_arrive hp hc ht
  | lose o hsub hperm hc ht ha => exact follows_lose hsub hperm hc ht ha
  | @pass e rest m s' pc o q Q R hlog hp hp' hc ht hq =>
    have hms : m = n ↔ s' = s := by rwa [hlog] at hat
    by_cases hs : s' = s
    · -- at the node of the stream the event is handed over
      obtain rfl := hms.2 hs
      simp only [le_refl, if_true, lt_irrefl, if_false, List.append_nil] at hp hp'
      rcases hq with ⟨rfl, rfl⟩ | ⟨rfl, hQ, rfl | rfl⟩
      · exact follows_keep (by rw [hp, hp', if_pos hs]) hc ht rfl rfl
      · rw [hQ hs] at hp hp'
        exact follows_arrive (by rw [hp, hp']; rfl) hc (hs ▸ ht)
      · rw [hQ hs] at hp hp'
        refine follows_lose ?_ ?_ hc ht rfl
        · simp [hp, hp']
        · simp [hp, hp', lost, hs]
    · -- at another node it stays in hand as long as it was
      have hmn : m ≠ n := fun h => hs (hms.1 h)
      have hpend : q = [] → pending n s st' = pending n s st := by
        rintro rfl
        simp [hp, hp', lt_iff_le_and_ne, hmn]
      rcases hq with ⟨rfl, rfl⟩ | ⟨rfl, -, rfl | rfl⟩
      · exact follows_keep (hpend (if_neg hs)) hc ht rfl rfl
      · exact follows_keep (hpend rfl) hc ht (by simp [accepted, hs]) rfl
      · exact follows_keep (hpend rfl) hc ht rfl (by simp [lost, hs])

/-- What every state of a run knows about the stream. -/
theorem channel_of_reach {formatTime : ℤ → Bytes}
    (h : (system formatTime).Reach (fun st _ => RegisteredOnce n s st) st) :
    Channel.Inv (view n s st) := by
  have hsim : ∃ c, (Channel.system ℕ).Reachable c ∧ c = view n s st ∧
      st.log.At fun m s' => m = n ↔ s' = s := by
    refine h.simulate (A := Channel.system ℕ)
      (R := fun st c => c = view n s st ∧ st.log.At fun m s' => m = n ↔ s' = s)
      (fun st hi => ⟨_, rfl, ?_, ?_⟩) fun st a st' c hr ⟨hc, hat⟩ hreg hs => ?_
    · have hq : st.queued s = [] := queued_eq_nil (inv_init hi) (by simp [hi.retries, deref])
      simp [view, pending, Channel.empty, hq, hi.events, hi.log, hi.count, hi.trace, ids,
        LogPc.inHand, LogPc.rest, accepted, lost]
    · rw [hi.log]
      trivial
    · subst hc
      refine ⟨view n s st', ?_, rfl, hat.move (fun _ _ => hreg.atNode) (move hs)⟩
      rcases follows hat (effect_move (inv_of_reach hr) hreg.find (move hs)) with heq | ⟨b, hb⟩
      · rw [heq]
      · exact .single ⟨b, hb⟩
  obtain ⟨c, hc, rfl, -⟩ := hsim
  exact Channel.inv_of_reachable hc

end View

/-! ## The delivery guarantee -/

/-- The places where an event is for a stream that has not accepted it. -/
inductive Place
  /-- in `m_events` or in the local list of `do_run` -/
  | waiting
  /-- in `log`, and not yet handed to a retry queue -/
  | handled
  /-- in the queue of the current retry thread -/
  | queued
  /-- dropped since no retry thread could be constructed -/
  | dropped
  /-- expired in a retry queue -/
  | expired
  deriving DecidableEq, Repr

/-- The events in a place, for the stream `s` registered under `n`. -/
def Place.events (n : String) (s : Stream) (st : State) : Place → List ℕ
  | waiting => ids (st.log.rest ++ st.events)
  | handled => ids (st.log.inHand n)
  | queued => ids ((st.retryOf s).elim [] Retry.queue)
  | dropped => Logfile.dropped s st.trace
  | expired => Logfile.expired s st.trace

theorem mem_accepted {s : Stream} {id : ℕ} {tr : List Obs} :
    id ∈ accepted s tr ↔ .accepted s id ∈ tr := by
  simp only [accepted, List.mem_filterMap]
  constructor
  · rintro ⟨o, ho, hid⟩
    cases o with
    | accepted s' id' =>
      obtain ⟨rfl, rfl⟩ : s' = s ∧ id' = id := by simpa using hid
      exact ho
    | _ => cases hid
  · exact fun ho => ⟨_, ho, by simp⟩

/-- An event that was not accepted is in the retry queue exactly when it is unwritten. -/
theorem mem_queued {n : String} {s : Stream} {st : State} (h : Inv st) {id : ℕ}
    (ha : id ∉ accepted s st.trace) :
    id ∈ Place.queued.events n s st ↔ id ∈ ids (st.queued s) := by
  simp only [State.queued, State.retryOf, Place.events]
  cases hcur : current st.retryMap st.log s with
  | none => rfl
  | some t =>
    obtain ⟨r, hr, rfl⟩ := (h.owner s t).1 hcur
    simp only [Option.bind_some, hr, Option.elim_some, Retry.unwritten]
    split_ifs with hpc
    · have hret := h.retry t r hr
      simp only [RetryFacts, hpc] at hret
      obtain ⟨e, he, hacc⟩ := hret
      have hne : id ≠ e.id := fun hid => ha (hid ▸ mem_accepted.2 hacc)
      rw [← List.cons_head?_tail he]
      simp [ids, hne]
    · rfl

/-- For a stream registered under one name, the writes that succeed keep the order of
`enqueue` and none succeeds twice for an event, and an event that the stream has not
accepted is in exactly one place. -/
theorem delivery (formatTime : ℤ → Bytes) (n : String) (s : Stream) {st : State}
    (h : (system formatTime).Reach (fun st _ => RegisteredOnce n s st) st) :
    (accepted s st.trace).Sublist (enqueued st.trace) ∧ (accepted s st.trace).Nodup ∧
      ∀ id ∈ enqueued st.trace, id ∉ accepted s st.trace →
        ∃! p : Place, id ∈ p.events n s st := by
  have hinv := inv_of_reach h
  have hchan := channel_of_reach h
  have hsent : enqueued st.trace = (view n s st).sent := (counted_of_reach h).enqueued
  have hsub : (accepted s st.trace).Sublist (view n s st).sent :=
    (List.sublist_append_left _ _).trans hchan.sublist
  rw [hsent]
  refine ⟨hsub, hsub.nodup hchan.nodup, fun id hid ha => ?_⟩
  let f : Place → List ℕ := fun p => if p = .queued then ids (st.queued s) else p.events n s st
  have hf : ([.queued, .handled, .waiting, .dropped, .expired].flatMap f).Perm
      ((view n s st).pending ++ (view n s st).lost) := by
    have hlost := (lost_perm s st.trace).symm.append_left (pending n s st)
    simpa [f, view, Place.events, pending, ids] using hlost
  obtain ⟨p, hp, hunique⟩ := hchan.part (by rintro (_ | _ | _ | _ | _) <;> simp) hf hid ha
  have hqueued : ∀ p, id ∈ p.events n s st ↔ id ∈ f p := by
    intro p
    by_cases hpq : p = .queued
    · subst hpq
      simpa [f] using mem_queued hinv ha
    · simp [f, hpq]
  exact ⟨p, (hqueued p).2 hp, fun p' hp' => hunique p' ((hqueued p').1 hp')⟩

instance (n : String) (s : Stream) (st : State) : Decidable (RegisteredOnce n s st) :=
  decidable_of_iff
    (st.streams.find n = some s ∧ ∀ p ∈ st.streams.entries, p.2 = s → p.1 = n)
    ⟨fun h => ⟨h.1, fun m hm => h.2 (m, s) (OrdMap.find_eq_some_iff.1 hm) rfl⟩,
      fun h => ⟨h.find, fun p hp hps => h.only p.1 (hps ▸ OrdMap.find_eq_some_iff.2 hp)⟩⟩

/-- A second event arrives while the first one is retried, and only the first is written. -/
def secondQueued : List Action :=
  failedWrite ++ List.replicate 3 (.log true) ++ [.enqueue someEvent] ++
    List.replicate 8 (.log true) ++ List.replicate 4 (.retry 0 true 0)

theorem delivery_secondQueued : ∃ st, accepted 1 st.trace = [0] ∧
    (Place.queued.events "stdout" 1 st).contains 1 ∧ ∀ id ∈ enqueued st.trace,
      id ∉ accepted 1 st.trace → ∃! p : Place, id ∈ p.events "stdout" 1 st := by
  obtain ⟨st, hreach, hst⟩ := System.exists_reach (T := system fun _ => [])
    (b := fun st _ => decide (RegisteredOnce "stdout" 1 st))
    (p := fun st _ => RegisteredOnce "stdout" 1 st) (fun _ _ h => of_decide_eq_true h)
    (State.initial_start (OrdMap.empty.emplace "stdout" 1)) secondQueued
    (fun st => accepted 1 st.trace == [0] && (Place.queued.events "stdout" 1 st).contains 1) rfl
  simp only [Bool.and_eq_true, beq_iff_eq] at hst
  exact ⟨st, hst.1, hst.2, (delivery (fun _ => []) "stdout" 1 hreach).2.2⟩

end Logfile
