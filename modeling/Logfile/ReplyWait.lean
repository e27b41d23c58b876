import Logfile.StompControl

/-!
# Waiting for a reply

`m_reply_cv.wait_for` in `connect_thread` and in `do_write`. A wait is ended by a `notify_one` of a
reader that has pushed a reply and released the mutex, by a spurious wake-up, or when its time runs
out. The thread goes on once it holds `m_reply_mutex` again, and the result is a time-out if the
time has run out by then, whatever has ended the wait. The rest is a session of the stream, and the
sessions are what is left when the waits are forgotten (`session_of_reach`,
`exists_reach_of_session`).

There is no loop around the waits. A notification can come late, to the next wait, after its
reply has been consumed (`late_notification`), and a wait that timed out does not look at the queue
again. `m_reply_queue` is treated right in a run exactly if in each of its waits either a reply is
pushed or the time runs out, and not both (`waitSound_iff_of_reach`).
-/

namespace Logfile.ReplyWait

/-! ## The waits -/

/-- The threads that wait for replies. -/
inductive Waiter
  /-- in `do_write` -/
  | writer
  /-- in `connect_thread` -/
  | connect
  deriving DecidableEq, Repr

/-- What happens while a thread is in `wait_for`. -/
inductive Event
  /-- a reader pushes a reply -/
  | pushed
  | notified
  | spurious
  /-- the time runs out -/
  | expired
  deriving DecidableEq, Repr

/-- The event ends the wait, unless another one has. -/
def Event.wakes : Event → Bool
  | pushed => false
  | _ => true

/-- The thread is inside `wait_for`. -/
def waits (s : Stomp.State) : Waiter → Bool
  | .writer => match s.writer with
    | .wait _ _ => true
    | _ => false
  | .connect => match s.connectThread with
    | some (.wait _) => true
    | _ => false

/-- The thread is about to take the front of `m_reply_queue`. -/
def takes (s : Stomp.State) : Waiter → Bool
  | .writer => match s.writer with
    | .take _ _ => true
    | _ => false
  | .connect => match s.connectThread with
    | some (.take _) => true
    | _ => false

/-- The thread that makes the step, if it is one that waits for replies, and the outcome. -/
def mover : Stomp.Action → Option (Waiter × Stomp.Outcome)
  | .writer r => some (.writer, r)
  | .connect r => some (.connect, r)
  | _ => none

/-- A reader pushes a reply. -/
def pushes (s : Stomp.State) : Stomp.Action → Bool
  | .reader i _ => s.readers[i]?.any fun rd => match rd.pc with
    | .push _ _ _ _ => true
    | _ => false
  | _ => false

/-- What is done to `m_reply_queue`. -/
inductive Obs
  /-- `front()` and `pop_front()`, with what had happened in the wait before it if there was one,
  and the queue -/
  | front (w : Waiter) (wait : Option (List Event)) (queue : List StompReply)
  /-- a wait is treated as timed out, with the queue when the mutex is held again -/
  | gaveUp (w : Waiter) (wait : List Event) (queue : List StompReply)
  deriving DecidableEq

/-- A session, and what has happened in the last wait of each thread, until its result is used. -/
structure State where
  session : Stomp.State
  wait : Waiter → Option (List Event)
  /-- readers between releasing `m_reply_mutex` and their `notify_one` -/
  notifiers : ℕ
  trace : List Obs

namespace State

def start : State :=
  ⟨.start, fun _ => none, 0, []⟩

variable (st : State)

/-- The thread is inside `wait_for`, and its wait has not ended. -/
def blocked (w : Waiter) : Bool :=
  waits st.session w && (st.wait w).any fun t => !t.any Event.wakes

def happens (w : Waiter) (e : Event) : State :=
  { st with wait := Function.update st.wait w ((st.wait w).map (· ++ [e])) }

/-- A thread returns from `wait_for` only if its wait has ended. The result is a time-out if the
time has run out. -/
def allows (a : Stomp.Action) : Bool :=
  (mover a).all fun (w, r) => !waits st.session w ||
    (st.wait w).any fun t => t.any Event.wakes && decide (r = .timeout) == t.contains .expired

/-- `m_reply_queue` -/
def queue : List StompReply :=
  st.session.replyQueue.map Prod.fst

/-- What a step of the session does to the queue, apart from pushing. -/
def observes (a : Stomp.Action) : List Obs :=
  match mover a with
  | none => []
  | some (w, r) =>
    if takes st.session w then [.front w (st.wait w) st.queue]
    else if waits st.session w && r = .timeout then [.gaveUp w ((st.wait w).getD []) st.queue]
    else []

/-- The waits behind a step of the session that leads to `s`. -/
def waitsAfter (a : Stomp.Action) (s : Stomp.State) (w : Waiter) : Option (List Event) :=
  match mover a with
  | some (w', _) =>
    if w ≠ w' then st.wait w
    else if waits s w then some []
    else if waits st.session w then st.wait w
    else none
  | none =>
    if pushes st.session a && waits st.session w then (st.wait w).map (· ++ [.pushed])
    else st.wait w

end State

inductive Action
  /-- a step of the session -/
  | session (a : Stomp.Action)
  /-- a `notify_one` that is due, and the thread it wakes -/
  | notify (w : Option Waiter)
  | spurious (w : Waiter)
  /-- the time of a wait runs out, also of one that has ended and not yet the mutex -/
  | expire (w : Waiter)
  deriving DecidableEq

def step (p : StompParams) (st : State) : Action → Option State
  | .session a =>
    if st.allows a then
      (Stomp.step p st.session a).map fun s => {
        session := s
        wait := st.waitsAfter a s
        notifiers := if pushes st.session a then st.notifiers + 1 else st.notifiers
        trace := st.trace ++ st.observes a }
    else none
  | .notify none =>
    if st.notifiers = 0 ∨ st.blocked .writer ∨ st.blocked .connect then none
    else some { st with notifiers := st.notifiers - 1 }
  | .notify (some w) =>
    if st.notifiers = 0 ∨ !st.blocked w then none
    else some { st.happens w .notified with notifiers := st.notifiers - 1 }
  | .spurious w => if st.blocked w then some (st.happens w .spurious) else none
  | .expire w =>
    if waits st.session w && (st.wait w).any fun t => !t.contains .expired then
      some (st.happens w .expired)
    else none

def system (p : StompParams) : System State Action where
  init st := st = .start
  step := step p

/-! ## What a step of the session does to the queue -/

section Effect

variable {p : StompParams} {s s' : Stomp.State} {a : Stomp.Action}

/-- The writer can only start or join a connect thread. -/
theorem connectThread_of_writerMove {pc : Stomp.WriterPc} (hs : Stomp.WriterMove p s pc s') :
    s'.connectThread = s.connectThread ∨ s'.connectThread = none ∨
      s'.connectThread = some .open := by
  cases hs with
  | connect hmove =>
    cases hmove with
    | join => exact Or.inr (Or.inl rfl)
    | spawn => exact Or.inr (Or.inr rfl)
    | _ => exact Or.inl rfl
  | take _ hv => cases hv <;> exact Or.inl rfl
  | _ => exact Or.inl rfl

theorem writer_of_connectMove {r : Stomp.Outcome} {pc : Stomp.ConnectPc}
    (hs : Stomp.ConnectMove p s r pc s') : s'.writer = s.writer := by
  cases hs with
  | take _ hg => cases hg <;> rfl
  | _ => rfl

/-- Somebody else's steps neither bring a thread into `wait_for` nor to the queue. -/
theorem stays (hs : Stomp.Move p s a s') {w : Waiter} (hw : ∀ r, mover a ≠ some (w, r)) :
    (waits s' w = true → waits s w = true) ∧ (takes s' w = true → takes s w = true) := by
  cases w with
  | writer =>
    cases hs with
    | writer => exact absurd rfl (hw _)
    | connect _ hmove => simp [waits, takes, writer_of_connectMove hmove]
    | call => exact ⟨fun h => (by cases h), fun h => (by cases h)⟩
    | reader _ hmove => cases hmove <;> exact ⟨id, id⟩
    | _ => exact ⟨id, id⟩
  | connect =>
    cases hs with
    | connect => exact absurd rfl (hw _)
    | writer hmove =>
      rcases connectThread_of_writerMove hmove with hth | hth | hth
      · simp [waits, takes, hth]
      · simp [waits, takes, hth]
      · simp [waits, takes, hth]
    | reader _ hmove => cases hmove <;> exact ⟨id, id⟩
    | _ => exact ⟨id, id⟩

/-- A reader adds to the queue when nobody holds the mutex. -/
theorem push_or_same (hs : Stomp.Move p s a s') (hm : mover a = none) :
    pushes s a = false ∧ s'.replyQueue = s.replyQueue ∨
      pushes s a = true ∧ s.locked = false ∧ ∃ e, s'.replyQueue = s.replyQueue ++ [e] := by
  cases hs with
  | writer => cases hm
  | connect => cases hm
  | reader hr hmove =>
    cases hmove with
    | push hpc hfree => exact Or.inr ⟨by simp [pushes, hr, hpc], hfree, _, rfl⟩
    | @jump pc hj =>
      refine Or.inl ⟨?_, rfl⟩
      generalize hpc : Stomp.Reader.pc _ = pc₀ at hj
      cases hj <;> simp [pushes, hr, hpc]
    | read hpc | fail hpc | append hpc | reject hpc | clear hpc | close hpc | drop hpc
    | tolerate hpc => exact Or.inl ⟨by simp [pushes, hr, hpc], rfl⟩
  | _ => exact Or.inl ⟨rfl, rfl⟩

theorem not_takes_of_waits {w : Waiter} (h : waits s w = true) : takes s w = false := by
  cases w <;> simp only [waits] at h <;> split at h
  · simp [takes, *]
  · cases h
  · simp [takes, *]
  · cases h

/-- What a step of a thread that waits for replies is for the queue. -/
inductive Own (s s' : Stomp.State) (w : Waiter) (r : Stomp.Outcome) : Prop
  /-- it calls `wait_for` -/
  | enter : waits s w = false → takes s w = false → waits s' w = true →
      s.replyQueue = [] → s'.replyQueue = [] → Own s s' w r
  /-- it finds a reply -/
  | ready : waits s w = false → takes s w = false → takes s' w = true →
      s.replyQueue ≠ [] → s'.replyQueue = s.replyQueue → Own s s' w r
  /-- `wait_for` returns -/
  | returned : waits s w = true → waits s' w = false → (takes s' w = true ↔ r ≠ .timeout) →
      s'.replyQueue = s.replyQueue → Own s s' w r
  /-- it takes the front of the queue -/
  | front : takes s w = true → waits s' w = false → (takes s' w = true → s'.crashed = true) →
      Own s s' w r
  | away : waits s w = false → takes s w = false → waits s' w = false → takes s' w = false →
      s'.replyQueue = s.replyQueue → Own s s' w r

theorem own_of_waits (hs : Stomp.step p s a = some s') {w : Waiter} {r : Stomp.Outcome}
    (hw : mover a = some (w, r)) (hwaits : waits s w = true) : Own s s' w r := by
  unfold Stomp.step at hs
  split at hs
  · cases hs
  · cases a with
    | writer r' =>
      obtain ⟨rfl, rfl⟩ : .writer = w ∧ r' = r := by simpa [mover] using hw
      have hin := hwaits
      simp only [waits] at hwaits
      split at hwaits
      · next le k hpc =>
        simp only [Stomp.writerStep, hpc] at hs
        split_ifs at hs with hlocked hr
        · obtain rfl := Option.some.inj hs
          exact .returned hin rfl (by simp [takes, Stomp.State.gotoWriter, hr]) rfl
        · obtain rfl := Option.some.inj hs
          exact .returned hin rfl (by simp [takes, Stomp.State.gotoWriter, hr]) rfl
      · cases hwaits
    | connect r' =>
      obtain ⟨rfl, rfl⟩ : .connect = w ∧ r' = r := by simpa [mover] using hw
      have hin := hwaits
      simp only [waits] at hwaits
      split at hwaits
      · next k hpc =>
        simp only [hpc, Option.bind_some, Stomp.connectStep] at hs
        split_ifs at hs with hlocked hr
        · obtain rfl := Option.some.inj hs
          exact .returned hin rfl (by simp [takes, Stomp.State.gotoConnect, hr]) rfl
        · obtain rfl := Option.some.inj hs
          exact .returned hin rfl (by simp [takes, Stomp.State.gotoConnect, hr]) rfl
      · cases hwaits
    | _ => cases hw

theorem own_of_callMove {job : Option LogEvent} {pc : Stomp.CallPc} {r : Stomp.Outcome}
    (hw : s.writer = .connect job pc) (hs : Stomp.CallMove s job pc s') :
    Own s s' .writer r := by
  have hret : ∀ (s₀ : Stomp.State) result, s₀.replyQueue = s.replyQueue →
      Own s (s₀.connectReturns job result) .writer r := by
    intro s₀ result hq
    refine .away (by simp [waits, hw]) (by simp [takes, hw]) ?_ ?_ hq
    · cases job <;> cases result <;> rfl
    · cases job <;> cases result <;> rfl
  cases hs with
  | connected | trying | retest | spawn => exact hret _ _ rfl
  | joinNone | spawnJoinable =>
    exact .away (by simp [waits, hw]) (by simp [takes, hw])
      (by simp [waits, Stomp.State.crash, hw]) (by simp [takes, Stomp.State.crash, hw]) rfl
  | _ => exact .away (by simp [waits, hw]) (by simp [takes, hw]) rfl rfl rfl

theorem own (hs : Stomp.step p s a = some s') {w : Waiter} {r : Stomp.Outcome}
    (hw : mover a = some (w, r)) : Own s s' w r := by
  by_cases hwaits : waits s w = true
  · exact own_of_waits hs hw hwaits
  have hwaits : waits s w = false := by simpa using hwaits
  cases Stomp.move hs with
  | @writer r' s' hmove =>
    obtain ⟨rfl, rfl⟩ : .writer = w ∧ r' = r := by simpa [mover] using hw
    generalize hpc : s.writer = pc at hmove
    cases hmove with
    | connect hmove => exact own_of_callMove hpc hmove
    | wait _ hq => exact .enter hwaits (by simp [takes, hpc]) rfl hq hq
    | ready _ hq => exact .ready hwaits (by simp [takes, hpc]) rfl hq rfl
    | timeout | woken => exact absurd hwaits (by simp [waits, hpc])
    | takeNone hq =>
      exact .front (by simp [takes, hpc]) (by simp [waits, Stomp.State.crash, hpc]) fun _ => rfl
    | take _ hv => cases hv <;> exact .front (by simp [takes, hpc]) rfl fun h => by cases h
    | @send le conns written =>
      cases written <;> exact .away hwaits (by simp [takes, hpc]) rfl rfl rfl
    | _ => exact .away hwaits (by simp [takes, hpc]) rfl rfl rfl
  | @connect r' pc s' hpc hmove =>
    obtain ⟨rfl, rfl⟩ : .connect = w ∧ r' = r := by simpa [mover] using hw
    cases hmove with
    | wait _ hq => exact .enter hwaits (by simp [takes, hpc]) rfl hq hq
    | ready _ hq => exact .ready hwaits (by simp [takes, hpc]) rfl hq rfl
    | timeout | woken => exact absurd hwaits (by simp [waits, hpc])
    | takeNone hq =>
      exact .front (by simp [takes, hpc]) (by simp [waits, Stomp.State.crash, hpc]) fun _ => rfl
    | take _ hg => cases hg <;> exact .front (by simp [takes, hpc]) rfl fun h => by cases h
    | @write conns written =>
      cases written <;> exact .away hwaits (by simp [takes, hpc]) rfl rfl rfl
    | _ => exact .away hwaits (by simp [takes, hpc]) rfl rfl rfl
  | _ => cases hw

end Effect

/-! ## The mutex -/

/-- The thread holds `m_reply_mutex` between two steps. -/
def holds (s : Stomp.State) : Waiter → Bool
  | .writer => match s.writer with
    | .take _ _ | .close _ true | .clear _ true => true
    | _ => false
  | .connect => match s.connectThread with
    | some (.take _) | some (.close true) | some (.clear true) | some .setConnected
    | some (.setDone true) | some (.leave true) => true
    | _ => false

def Waiter.other : Waiter → Waiter
  | writer => connect
  | connect => writer

/-- The mutex is locked just if one of the two threads holds it. -/
structure Exclusive (s : Stomp.State) : Prop where
  locked : s.locked = (holds s .writer || holds s .connect)
  once : (holds s .writer && holds s .connect) = false

section Exclusive

variable {p : StompParams} {s s' : Stomp.State} {a : Stomp.Action}

theorem holds_of_takes {w : Waiter} (h : takes s w = true) : holds s w = true := by
  cases w <;> simp only [takes] at h <;> split at h
  · simp [holds, *]
  · cases h
  · simp [holds, *]
  · cases h

theorem Exclusive.locked_of_takes (h : Exclusive s) {w : Waiter} (ht : takes s w = true) :
    s.locked = true := by
  have hw := holds_of_takes ht
  rw [h.locked]
  cases w <;> simp [hw]

/-- A step that neither takes nor releases the mutex. -/
theorem Exclusive.frame (h : Exclusive s) (hw : holds s' .writer = holds s .writer)
    (hc : holds s' .connect = holds s .connect) (hl : s'.locked = s.locked) : Exclusive s' :=
  ⟨by rw [hl, hw, hc, h.locked], by rw [hw, hc, h.once]⟩

/-- The thread takes the mutex. -/
theorem Exclusive.acquire (h : Exclusive s) (w : Waiter) (hfree : s.locked = false)
    (hw : holds s' w = true) (hother : holds s' w.other = holds s w.other)
    (hl : s'.locked = true) : Exclusive s' := by
  obtain ⟨hwriter, hconnect⟩ := Bool.or_eq_false_iff.1 (h.locked.symm.trans hfree)
  cases w with
  | writer =>
    have hnone : holds s' .connect = false := hother.trans hconnect
    exact ⟨by rw [hl, hw, Bool.true_or], by rw [hnone, Bool.and_false]⟩
  | connect =>
    have hnone : holds s' .writer = false := hother.trans hwriter
    exact ⟨by rw [hl, hw, Bool.or_true], by rw [hnone, Bool.false_and]⟩

/-- The thread releases the mutex. -/
theorem Exclusive.release (h : Exclusive s) (w : Waiter) (hheld : holds s w = true)
    (hw : holds s' w = false) (hother : holds s' w.other = holds s w.other)
    (hl : s'.locked = false) : Exclusive s' := by
  have honce := h.once
  cases w with
  | writer =>
    rw [hheld, Bool.true_and] at honce
    have hnone : holds s' .connect = false := hother.trans honce
    exact ⟨by rw [hl, hw, hnone]; rfl, by rw [hw, Bool.false_and]⟩
  | connect =>
    rw [hheld, Bool.and_true] at honce
    have hnone : holds s' .writer = false := hother.trans honce
    exact ⟨by rw [hl, hw, hnone]; rfl, by rw [hw, Bool.and_false]⟩

theorem Exclusive.callMove (h : Exclusive s) {job : Option LogEvent} {pc : Stomp.CallPc}
    (hw : s.writer = .connect job pc) (hs : Stomp.CallMove s job pc s') : Exclusive s' := by
  have hbefore : holds s .writer = false := by simp [holds, hw]
  have hret : ∀ (s₀ : Stomp.State) result,
      holds (s₀.connectReturns job result) .writer = false := by
    intro s₀ result
    cases job <;> cases result <;> rfl
  cases hs with
  | connected | trying | retest => exact h.frame ((hret _ _).trans hbefore.symm) rfl rfl
  | spawn hnone =>
    exact h.frame ((hret _ _).trans hbefore.symm) (by simp [holds, hnone]; rfl) rfl
  | joinNone | spawnJoinable => exact h.frame rfl rfl rfl
  | join hdone => exact h.frame hbefore.symm (by simp [holds, hdone]) rfl
  | _ => exact h.frame hbefore.symm rfl rfl

theorem Exclusive.writerMove (h : Exclusive s) {pc : Stomp.WriterPc} (hw : s.writer = pc)
    (hs : Stomp.WriterMove p s pc s') : Exclusive s' := by
  cases hs with
  | connect hmove => exact h.callMove hw hmove
  | @send le conns written => cases written <;> exact h.frame (by simp [holds, hw]; rfl) rfl rfl
  | wait => exact h.frame (by simp [holds, hw]; rfl) rfl rfl
  | ready hfree | timeout hfree | woken hfree => exact h.acquire .writer hfree rfl rfl rfl
  | takeNone => exact h.frame rfl rfl rfl
  | take _ hv =>
    have hheld : holds s .writer = true := by simp [holds, hw]
    cases hv <;> exact h.release .writer hheld rfl rfl rfl
  | @close le held => cases held <;> exact h.frame (by simp [holds, hw]; rfl) rfl rfl
  | @clear le held =>
    cases held with
    | false => exact h.frame (by simp [holds, hw]; rfl) rfl (by simp)
    | true => exact h.release .writer (by simp [holds, hw]) rfl rfl (by simp)

theorem Exclusive.connectMove (h : Exclusive s) {r : Stomp.Outcome} {pc : Stomp.ConnectPc}
    (hc : s.connectThread = some pc) (hs : Stomp.ConnectMove p s r pc s') : Exclusive s' := by
  cases hs with
  | @write conns written => cases written <;> exact h.frame rfl (by simp [holds, hc]; rfl) rfl
  | ready hfree | timeout hfree | woken hfree => exact h.acquire .connect hfree rfl rfl rfl
  | takeNone => exact h.frame rfl rfl rfl
  | take _ hg => cases hg <;> exact h.frame rfl (by simp [holds, hc]; rfl) rfl
  | @close held | @clear held | @setDone held =>
    cases held <;> exact h.frame rfl (by simp [holds, hc]; rfl) rfl
  | @leave held =>
    cases held with
    | false => exact h.frame rfl (by simp [holds, hc]; rfl) (by simp)
    | true => exact h.release .connect (by simp [holds, hc]) rfl rfl (by simp)
  | _ => exact h.frame rfl (by simp [holds, hc]; rfl) rfl

theorem Exclusive.move (h : Exclusive s) (hs : Stomp.Move p s a s') : Exclusive s' := by
  cases hs with
  | writer hmove => exact h.writerMove rfl hmove
  | connect hc hmove => exact h.connectMove hc hmove
  | call hidle => exact h.frame (by simp [holds, hidle]; rfl) rfl rfl
  | reader _ hmove => cases hmove <;> exact h.frame rfl rfl rfl
  | _ => exact h.frame rfl rfl rfl

theorem exclusive_of_reach (h : (Stomp.system p).Reachable s) : Exclusive s := by
  refine h.invariant ?_ fun s a s' _ hi _ hs => hi.move (Stomp.move hs)
  rintro _ rfl
  exact ⟨rfl, rfl⟩

end Exclusive

/-! ## The sessions -/

section Sessions

variable {p : StompParams} {st st' : State}

/-- A step of the session or none. -/
theorem session_of_step {a : Action} (h : step p st a = some st') :
    st'.session = st.session ∨
      ∃ b, a = .session b ∧ Stomp.step p st.session b = some st'.session := by
  cases a with
  | session b =>
    simp only [step] at h
    split at h
    · obtain ⟨s, hs, rfl⟩ := Option.map_eq_some_iff.1 h
      exact Or.inr ⟨b, rfl, hs⟩
    · cases h
  | notify w =>
    cases w <;> simp only [step] at h <;> split_ifs at h <;> obtain rfl := Option.some.inj h
    · exact Or.inl rfl
    · exact Or.inl rfl
  | spurious w | expire w =>
    simp only [step] at h
    split_ifs at h
    obtain rfl := Option.some.inj h
    exact Or.inl rfl

/-- Without the waits, a run is a run of the session. -/
theorem session_of_reach {ok : State → Action → Prop} (h : (system p).Reach ok st) :
    (Stomp.system p).Reachable st.session := by
  refine h.invariant (I := fun st => (Stomp.system p).Reachable st.session) ?_
    fun st a st' _ hr _ hs => ?_
  · rintro _ rfl
    exact .init rfl
  · rcases session_of_step hs with heq | ⟨b, -, hstep⟩
    · exact heq ▸ hr
    · exact .step hr trivial hstep

theorem step_session {a : Stomp.Action} {s : Stomp.State} (hallows : st.allows a = true)
    (hs : Stomp.step p st.session a = some s) :
    ∃ st', step p st (.session a) = some st' ∧ st'.session = s ∧ st'.wait = st.waitsAfter a s := by
  refine ⟨{
    session := s
    wait := st.waitsAfter a s
    notifiers := if pushes st.session a then st.notifiers + 1 else st.notifiers
    trace := st.trace ++ st.observes a }, ?_, rfl, rfl⟩
  rw [step, if_pos hallows, hs]
  rfl

/-- No wait has ended whose thread is still inside `wait_for`. -/
def Quiet (st : State) : Prop :=
  ∀ w, waits st.session w = true → st.blocked w = true

theorem blocked_iff {w : Waiter} : st.blocked w = true ↔ waits st.session w = true ∧
    ∃ t, st.wait w = some t ∧ ∀ e ∈ t, e = .pushed := by
  have hwakes : ∀ e : Event, e.wakes = false ↔ e = .pushed := by
    rintro (_ | _ | _ | _) <;> decide
  simp [State.blocked, Option.any_eq_true, hwakes]

/-- The waits behind a step of another thread than `w` have gone on. -/
theorem blocked_of_other {a : Stomp.Action} {s : Stomp.State} {w : Waiter}
    (hs : Stomp.step p st.session a = some s) (hw : ∀ r, mover a ≠ some (w, r))
    (hquiet : Quiet st) (hwait : st'.wait = st.waitsAfter a s) (hsession : st'.session = s)
    (hwaits : waits s w = true) : st'.blocked w = true := by
  have hin := (stays (Stomp.move hs) hw).1 hwaits
  obtain ⟨-, t, ht, hpushed⟩ := blocked_iff.1 (hquiet w hin)
  refine blocked_iff.2 ⟨hsession ▸ hwaits, ?_⟩
  rw [hwait, State.waitsAfter]
  cases hm : mover a with
  | some wr =>
    have hne : w ≠ wr.1 := fun heq => hw wr.2 (by rw [hm, heq])
    exact ⟨t, by simp [hne, ht], hpushed⟩
  | none =>
    by_cases hpush : pushes st.session a = true
    · refine ⟨t ++ [.pushed], by simp [hpush, hin, ht], fun e he => ?_⟩
      rcases List.mem_append.1 he with he | he
      · exact hpushed e he
      · exact List.mem_singleton.1 he
    · exact ⟨t, by simp [hpush, ht], hpushed⟩

/-- A step of the session of which no wait is the end. -/
theorem moves_session (hquiet : Quiet st) {a : Stomp.Action} {s : Stomp.State}
    (hm : ∀ w r, mover a = some (w, r) → waits st.session w = false)
    (hs : Stomp.step p st.session a = some s) :
    ∃ st', (system p).Moves st st' ∧ st'.session = s ∧ Quiet st' := by
  have hallows : st.allows a = true := by
    unfold State.allows
    cases h : mover a with
    | none => rfl
    | some wr => simp [hm wr.1 wr.2 h]
  obtain ⟨st', hst', hsession, hwait⟩ := step_session hallows hs
  refine ⟨st', ⟨.session a, hst'⟩, hsession, fun w hwaits => ?_⟩
  rw [hsession] at hwaits
  by_cases hw : ∃ r, mover a = some (w, r)
  · obtain ⟨r, hw⟩ := hw
    refine blocked_iff.2 ⟨hsession ▸ hwaits, [], ?_, by simp⟩
    simp [hwait, State.waitsAfter, hw, hwaits]
  · exact blocked_of_other hs (not_exists.1 hw) hquiet hwait hsession hwaits

/-- A wait ends, and its thread goes on. -/
theorem moves_wait (hquiet : Quiet st) {a : Stomp.Action} {s : Stomp.State}
    {w : Waiter} {r : Stomp.Outcome} (hm : mover a = some (w, r))
    (hwaits : waits st.session w = true) (hs : Stomp.step p st.session a = some s) :
    ∃ st', Relation.ReflTransGen (system p).Moves st st' ∧ st'.session = s ∧ Quiet st' := by
  have hblocked := hquiet w hwaits
  obtain ⟨-, t, ht, hpushed⟩ := blocked_iff.1 hblocked
  have hexpired : Event.expired ∉ t := fun h => by cases hpushed _ h
  -- the wait ends in the way that the outcome tells
  obtain ⟨e, hallows, hend⟩ : ∃ e, (st.happens w e).allows a = true ∧
      (system p).Moves st (st.happens w e) := by
    by_cases hr : r = .timeout
    · refine ⟨.expired, ?_, .expire w, ?_⟩
      · simp [State.allows, hm, State.happens, ht, hr, Event.wakes]
      · simp [system, step, hwaits, ht, hexpired]
    · refine ⟨.spurious, ?_, .spurious w, by simp [system, step, hblocked]⟩
      simp [State.allows, hm, State.happens, ht, hr, Event.wakes, hexpired]
  obtain ⟨st', hst', hsession, hwait⟩ := step_session hallows hs
  refine ⟨st', .tail (.single hend) ⟨.session a, hst'⟩, hsession, fun w' hwaits' => ?_⟩
  rw [hsession] at hwaits'
  -- its thread has left `wait_for`, and the other one has not been there
  have hne : w' ≠ w := by
    rintro rfl
    cases own_of_waits hs hm hwaits with
    | returned _ hout => simp [hout] at hwaits'
    | _ => simp_all
  have hin := (stays (Stomp.move hs) (w := w') (by simp [hm, hne.symm])).1 hwaits'
  obtain ⟨-, t', ht', hpushed'⟩ := blocked_iff.1 (hquiet w' hin)
  refine blocked_iff.2 ⟨hsession ▸ hwaits', t', ?_, hpushed'⟩
  simp [hwait, State.waitsAfter, hm, hne, State.happens, ht']

/-- Every run of the session is what is left of a run in which a wait ends when its thread goes
on. -/
theorem exists_reach_of_session {s : Stomp.State} (h : (Stomp.system p).Reachable s) :
    ∃ st, (system p).Reachable st ∧ st.session = s := by
  obtain ⟨st, hreach, hs, -⟩ := h.simulate (A := system p)
    (R := fun s st => st.session = s ∧ Quiet st)
    (fun s hs => ⟨.start, rfl, hs.symm, fun w hw => by cases w <;> cases hw⟩)
    fun s a s' st _ ⟨hsession, hquiet⟩ _ hstep => by
      subst hsession
      by_cases hw : ∃ w r, mover a = some (w, r) ∧ waits st.session w = true
      · obtain ⟨w, r, hm, hwaits⟩ := hw
        exact moves_wait hquiet hm hwaits hstep
      · obtain ⟨st', hmove, hst'⟩ := moves_session hquiet (fun w r hm => by
          by_contra hwaits
          exact hw ⟨w, r, hm, by simpa using hwaits⟩) hstep
        exact ⟨st', .single hmove, hst'⟩
  exact ⟨st, hreach, hs⟩

end Sessions

/-! ## Every reply that is taken is there -/

/-- `front()` and `pop_front()` are executed with a reply in the queue, and a wait is treated as
timed out only when there is none. -/
structure WaitSound (st : State) : Prop where
  front : ∀ w wait queue, .front w wait queue ∈ st.trace → queue ≠ []
  gaveUp : ∀ w wait queue, .gaveUp w wait queue ∈ st.trace → queue = []

/-- What has happened in the wait. -/
def Obs.wait : Obs → Option (List Event)
  | front _ wait _ => wait
  | gaveUp _ wait _ => some wait

/-- In every wait either a reply was pushed or the time ran out, and not both. -/
def Scheduled (st : State) : Prop :=
  ∀ o ∈ st.trace, ∀ t, o.wait = some t → (.pushed ∈ t ↔ .expired ∉ t)

/-- What a thread that takes the front knows of the queue. -/
def Finds {α : Type} (wait : Option (List Event)) (queue : List α) : Prop :=
  match wait with
  | none => queue ≠ []
  | some t => .expired ∉ t ∧ (queue = [] ↔ .pushed ∉ t)

theorem finds_map {α β : Type} {wait : Option (List Event)} {queue : List α} (f : α → β) :
    Finds wait (queue.map f) ↔ Finds wait queue := by
  cases wait <;> simp [Finds]

def Consistent : Obs → Prop
  | .front _ wait queue => Finds wait queue
  | .gaveUp _ t queue => .expired ∈ t ∧ (queue = [] ↔ .pushed ∉ t)

/-- A wait begins with the queue empty, and while it lasts nobody else takes from the queue. -/
structure Tells (st : State) : Prop where
  waits : ∀ w, waits st.session w = true → ∃ t, st.wait w = some t ∧
    (st.session.replyQueue = [] ↔ .pushed ∉ t)
  takes : st.session.crashed = false → ∀ w, takes st.session w = true →
    Finds (st.wait w) st.session.replyQueue
  trace : ∀ o ∈ st.trace, Consistent o

section Tells

variable {p : StompParams} {st st' : State}

/-- Only one thread waits for replies at a time. -/
theorem waiter_unique {s : Stomp.State} (h : Stomp.Control s) {w w' : Waiter}
    (hw : waits s w = true ∨ takes s w = true) (hw' : waits s w' = true ∨ takes s w' = true) :
    w = w' := by
  have hnot : (waits s .writer = true ∨ takes s .writer = true) →
      ¬(waits s .connect = true ∨ takes s .connect = true) := by
    intro hwriter hconnect
    have hsending : s.writer.sending = true := by
      rcases hwriter with h | h <;> simp only [waits, takes] at h <;> split at h
      · simp [*, Stomp.WriterPc.sending]
      · cases h
      · simp [*, Stomp.WriterPc.sending]
      · cases h
    have htrying : ∃ pc, s.connectThread = some pc ∧ pc.trying = true := by
      rcases hconnect with h | h <;> simp only [waits, takes] at h <;> split at h
      · exact ⟨_, ‹_›, rfl⟩
      · cases h
      · exact ⟨_, ‹_›, rfl⟩
      · cases h
    obtain ⟨pc, hpc, htry⟩ := htrying
    rw [(h.trying pc hpc htry).2] at hsending
    cases hsending
  cases w <;> cases w'
  · rfl
  · exact absurd hw' (hnot hw)
  · exact absurd hw (hnot hw')
  · rfl

theorem crashed_of_step {s s' : Stomp.State} {a : Stomp.Action}
    (hs : Stomp.step p s a = some s') : s.crashed = false := by
  cases hc : s.crashed with
  | false => rfl
  | true => simp [Stomp.step, hc] at hs

/-- The end of a wait, or the end of its time. -/
theorem Tells.happens (h : Tells st) {w : Waiter} {e : Event} {n : ℕ} (he : e ≠ .pushed)
    (hw : ReplyWait.waits st.session w = true) :
    Tells { st.happens w e with notifiers := n } := by
  refine ⟨fun w' hw' => ?_, fun hc w' ht => ?_, h.trace⟩
  · obtain ⟨t, ht, hqueue⟩ := h.waits w' hw'
    by_cases heq : w' = w
    · subst heq
      exact ⟨t ++ [e], by simp [State.happens, ht], by simp [State.happens, hqueue, he.symm]⟩
    · exact ⟨t, by simp [State.happens, heq, ht], hqueue⟩
  · have hne : w' ≠ w := by
      rintro rfl
      have hnot := not_takes_of_waits hw
      exact absurd ht (by simp [State.happens, hnot])
    simpa [State.happens, hne] using h.takes hc w' ht

/-- A step of a thread that does not wait for replies. -/
theorem Tells.other (h : Tells st) (hmutex : Exclusive st.session) {a : Stomp.Action}
    {s : Stomp.State} {n : ℕ} (hm : mover a = none) (hs : Stomp.step p st.session a = some s) :
    Tells { session := s, wait := st.waitsAfter a s, notifiers := n, trace := st.trace } := by
  have hmove := Stomp.move hs
  have hstays : ∀ w, _ := fun w => stays hmove (w := w) (by simp [hm])
  have hcrash := crashed_of_step hs
  rcases push_or_same hmove hm with ⟨hpush, hq⟩ | ⟨hpush, hfree, e, hq⟩
  · have hwait : st.waitsAfter a s = st.wait := by
      funext w
      simp [State.waitsAfter, hm, hpush]
    rw [hwait]
    refine ⟨fun w hw => ?_, fun _ w ht => ?_, h.trace⟩
    · dsimp only
      rw [hq]
      exact h.waits w ((hstays w).1 hw)
    · dsimp only
      rw [hq]
      exact h.takes hcrash w ((hstays w).2 ht)
  · refine ⟨fun w hw => ?_, fun _ w ht => ?_, h.trace⟩
    · have hin := (hstays w).1 hw
      obtain ⟨t, ht, -⟩ := h.waits w hin
      exact ⟨t ++ [.pushed], by simp [State.waitsAfter, hm, hpush, hin, ht], by simp [hq]⟩
    · -- whoever takes from the queue holds the mutex
      have hlocked := hmutex.locked_of_takes ((hstays w).2 ht)
      rw [hfree] at hlocked
      cases hlocked

/-- The queue stays as it is, unless the thread takes its front. -/
theorem Own.queue {s s' : Stomp.State} {w : Waiter} {r : Stomp.Outcome} (h : Own s s' w r)
    (hw : ReplyWait.takes s w = false) : s'.replyQueue = s.replyQueue := by
  cases h with
  | enter _ _ _ hq hq' => rw [hq, hq']
  | ready _ _ _ _ hq => exact hq
  | returned _ _ _ hq => exact hq
  | front ht => simp [hw] at ht
  | away _ _ _ _ hq => exact hq

/-- A step of a thread that waits for replies, or does something else. -/
theorem Tells.own (h : Tells st) (hctl : Stomp.Control st.session) {a : Stomp.Action}
    {s : Stomp.State} {n : ℕ} {w : Waiter} {r : Stomp.Outcome} (hm : mover a = some (w, r))
    (hallows : st.allows a = true) (hs : Stomp.step p st.session a = some s) :
    Tells { session := s, wait := st.waitsAfter a s, notifiers := n,
            trace := st.trace ++ st.observes a } := by
  have hmove := Stomp.move hs
  have hown := ReplyWait.own hs hm
  have hcrash := crashed_of_step hs
  -- the result of a wait is a time-out just if its time has run out
  have hresult : ReplyWait.waits st.session w = true → ∀ t, st.wait w = some t →
      (r = .timeout ↔ .expired ∈ t) := by
    intro hwaits t ht
    simp only [State.allows, hm, Option.all_some, hwaits, Bool.not_true, Bool.false_or, ht,
      Option.any_some, Bool.and_eq_true, beq_iff_eq] at hallows
    rw [← List.contains_iff_mem, ← hallows.2, decide_eq_true_iff]
  have hstays : ∀ w' ≠ w, _ := fun w' hne => stays hmove (w := w') (by simp [hm, hne.symm])
  have hother : ∀ w' ≠ w, ReplyWait.waits st.session w' = true ∨
      ReplyWait.takes st.session w' = true → s.replyQueue = st.session.replyQueue := by
    intro w' hne hw'
    refine hown.queue ?_
    by_contra htakes
    exact hne (waiter_unique hctl hw' (Or.inr (by simpa using htakes)))
  refine ⟨fun w' hw' => ?_, fun hc w' ht' => ?_, fun o ho => ?_⟩
  · by_cases heq : w' = w
    · subst heq
      cases hown with
      | enter _ _ hin _ hq =>
        exact ⟨[], by simp [State.waitsAfter, hm, hin], by simp [hq]⟩
      | ready _ _ htakes => simp [not_takes_of_waits hw'] at htakes
      | returned _ hout | front _ hout | away _ _ hout => simp [hout] at hw'
    · have hin := (hstays w' heq).1 hw'
      obtain ⟨t, ht, hqueue⟩ := h.waits w' hin
      refine ⟨t, by simp [State.waitsAfter, hm, heq, ht], ?_⟩
      dsimp only
      rw [hother w' heq (Or.inl hin)]
      exact hqueue
  · by_cases heq : w' = w
    · subst heq
      have hout : ReplyWait.waits s w' = false := by
        by_contra hin
        have hnot := not_takes_of_waits (w := w') (by simpa using hin)
        rw [hnot] at ht'
        cases ht'
      cases hown with
      | enter _ _ hin => simp [hout] at hin
      | ready hbefore _ _ hne hq =>
        simpa [State.waitsAfter, hm, hout, hbefore, Finds, hq] using hne
      | returned hin _ htakes hq =>
        obtain ⟨t, ht, hqueue⟩ := h.waits w' hin
        have hexpired : .expired ∉ t := fun hmem =>
          htakes.1 ht' ((hresult hin t ht).2 hmem)
        simpa [State.waitsAfter, hm, hout, hin, ht, Finds, hq] using And.intro hexpired hqueue
      | front _ _ hbad => simp [hbad ht'] at hc
      | away _ _ _ hnot => simp [hnot] at ht'
    · have hin := (hstays w' heq).2 ht'
      have hfinds := h.takes hcrash w' hin
      simpa [State.waitsAfter, hm, heq, hother w' heq (Or.inr hin)] using hfinds
  · rcases List.mem_append.1 ho with ho | ho
    · exact h.trace o ho
    · simp only [State.observes, hm] at ho
      split_ifs at ho with htakes hgave
      · obtain rfl := List.mem_singleton.1 ho
        exact (finds_map _).2 (h.takes hcrash w htakes)
      · obtain rfl := List.mem_singleton.1 ho
        obtain ⟨hin, hr⟩ : ReplyWait.waits st.session w = true ∧ r = .timeout := by
          simpa using hgave
        obtain ⟨t, ht, hqueue⟩ := h.waits w hin
        have hexpired := (hresult hin t ht).1 hr
        simpa [Consistent, ht, State.queue] using And.intro hexpired hqueue
      · cases ho

theorem Tells.session (h : Tells st) (hctl : Stomp.Control st.session)
    (hmutex : Exclusive st.session) {a : Stomp.Action}
    (hs : step p st (.session a) = some st') : Tells st' := by
  simp only [step] at hs
  split at hs
  · next hallows =>
    obtain ⟨s, hstep, rfl⟩ := Option.map_eq_some_iff.1 hs
    cases hm : mover a with
    | none =>
      have hobs : st.observes a = [] := by simp [State.observes, hm]
      rw [hobs, List.append_nil]
      exact h.other hmutex hm hstep
    | some wr => exact h.own hctl hm hallows hstep
  · cases hs

theorem Tells.step (h : Tells st) (hctl : Stomp.Control st.session)
    (hmutex : Exclusive st.session) {a : Action} (hs : ReplyWait.step p st a = some st') :
    Tells st' := by
  cases a with
  | session a => exact h.session hctl hmutex hs
  | notify w =>
    cases w with
    | none =>
      simp only [ReplyWait.step] at hs
      split_ifs at hs
      obtain rfl := Option.some.inj hs
      exact ⟨h.waits, h.takes, h.trace⟩
    | some w =>
      simp only [ReplyWait.step] at hs
      split_ifs at hs with hblocked
      obtain rfl := Option.some.inj hs
      have hblocked : st.blocked w = true := by simpa using (not_or.1 hblocked).2
      exact h.happens (by decide) (blocked_iff.1 hblocked).1
  | spurious w =>
    simp only [ReplyWait.step] at hs
    split_ifs at hs with hblocked
    obtain rfl := Option.some.inj hs
    exact h.happens (by decide) (blocked_iff.1 hblocked).1
  | expire w =>
    simp only [ReplyWait.step] at hs
    split_ifs at hs with hwaits
    obtain rfl := Option.some.inj hs
    exact h.happens (by decide) (Bool.and_eq_true_iff.1 hwaits).1

theorem tells_of_reach (h : (system p).Reachable st) : Tells st := by
  refine h.invariant ?_ fun st a st' hr hi _ hs =>
    have hsession := session_of_reach hr
    hi.step (Stomp.control_of_reach hsession) (exclusive_of_reach hsession) hs
  rintro _ rfl
  refine ⟨fun w hw => ?_, fun _ w ht => ?_, by simp [State.start]⟩
  · cases w <;> cases hw
  · cases w <;> cases ht

end Tells

/-- What is done to the queue is right just if the wait had one end. -/
theorem Consistent.iff {o : Obs} (h : Consistent o) :
    (∀ t, o.wait = some t → (.pushed ∈ t ↔ .expired ∉ t)) ↔
      (∀ w wait queue, o = .front w wait queue → queue ≠ []) ∧
        ∀ w wait queue, o = .gaveUp w wait queue → queue = [] := by
  cases o with
  | front w wait queue =>
    cases wait with
    | none => simpa [Obs.wait, Consistent, Finds] using h
    | some t =>
      obtain ⟨hexpired, hqueue⟩ := h
      simp [Obs.wait, hexpired, hqueue]
  | gaveUp w t queue =>
    obtain ⟨hexpired, hqueue⟩ := h
    simp [Obs.wait, hexpired, hqueue]

/-- In every run, the replies are taken and missed as they should be exactly if in every wait
either a reply was pushed or the time ran out, and not both. -/
theorem waitSound_iff_of_reach (p : StompParams) {st : State} (h : (system p).Reachable st) :
    WaitSound st ↔ Scheduled st := by
  have htrace := (tells_of_reach h).trace
  constructor
  · intro hsound o ho
    refine (htrace o ho).iff.2 ⟨?_, ?_⟩
    · rintro w wait queue rfl
      exact hsound.front w wait queue ho
    · rintro w wait queue rfl
      exact hsound.gaveUp w wait queue ho
  · intro hsched
    have hright := fun o ho => (htrace o ho).iff.1 (hsched o ho)
    exact ⟨fun w wait queue ho => (hright _ ho).1 w wait queue rfl,
      fun w wait queue ho => (hright _ ho).2 w wait queue rfl⟩

/-! ## Runs -/

/-- Steps of the session. -/
def sessions (as : List Stomp.Action) : List Action :=
  as.map .session

/-- CONNECTED is in the queue before `connect_thread` looks, and the reader has not yet called
`notify_one` when `do_write` waits for its reply. -/
def notifiedLate : List Action :=
  sessions (Stomp.writes 4 ++ Stomp.connects 3 ++ .serve 0 Stomp.greeting :: Stomp.reads 0 7 ++
    Stomp.connects 5 ++ .call Stomp.someEvent :: Stomp.writes 3) ++
    .notify (some .writer) :: sessions (Stomp.writes 2)

theorem late_notification :
    ¬∀ p st, (system p).Reachable st → WaitSound st := by
  intro h
  obtain ⟨st, hreach, hst⟩ := System.exists_reach (T := system Stomp.someParams)
    (b := fun _ _ => true) (p := fun _ _ => True) (fun _ _ _ => trivial) rfl notifiedLate
    (fun st => st.trace.contains (.front .writer (some [.notified]) [])) (by decide +kernel)
  exact (h _ st hreach).front _ _ _ (List.contains_iff_mem.1 hst) rfl

/-- `connect_thread` is notified of CONNECTED, and its time runs out before it has the mutex. -/
def overtaken : List Action :=
  sessions (Stomp.writes 4 ++ Stomp.connects 4 ++ .serve 0 Stomp.greeting :: Stomp.reads 0 7) ++
    [.notify (some .connect), .expire .connect, .session (.connect .timeout)]

example : ((system Stomp.someParams).exec (fun _ _ => true) .start overtaken).any
    (fun st => st.trace.map Obs.wait == [some [.pushed, .notified, .expired]] &&
      st.session.replyQueue.length == 1) = true := by
  decide +kernel

/-- `connect_thread` waits, the reader notifies it of CONNECTED, and the reply is taken. -/
def notifiedInTime : List Action :=
  sessions (Stomp.writes 4 ++ Stomp.connects 4 ++ .serve 0 Stomp.greeting :: Stomp.reads 0 7) ++
    .notify (some .connect) :: sessions (Stomp.connects 2)

theorem waitSound_notifiedInTime :
    ∃ st, st.trace.map Obs.wait = [some [.pushed, .notified]] ∧ WaitSound st := by
  obtain ⟨st, hreach, hst⟩ := System.exists_reach (T := system Stomp.someParams)
    (b := fun _ _ => true) (p := fun _ _ => True) (fun _ _ _ => trivial) rfl notifiedInTime
    (fun st => st.trace.map Obs.wait == [some [.pushed, .notified]]) (by decide +kernel)
  rw [beq_iff_eq] at hst
  refine ⟨st, hst, (waitSound_iff_of_reach _ hreach).2 fun o ho t ht => ?_⟩
  have hmem : some t ∈ st.trace.map Obs.wait := ht ▸ List.mem_map_of_mem ho
  rw [hst, List.mem_singleton, Option.some.injEq] at hmem
  simp [hmem]

end Logfile.ReplyWait
