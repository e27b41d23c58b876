import Logfile.StompControl

/-!
# The threads that `connect` starts

`connect` alone : its callers call it one at a time, the threads it starts succeed or fail,
and anybody may call `disconnect` at any time. `m_connect_thread` is the index of a thread
that has been started, unless it is not joinable. Where the program would end in
`std::terminate`, by an assignment to a joinable thread or a `join` of one that is not,
`terminated` is set.

A thread is started only when there is none to be joined, and joined only behind its last
assignment, so `connect` never waits for a connection attempt, and no two attempts run at
the same time (`threadsHandled_of_reach`). The sessions of the stream are runs of this
(`refines_of_reach`).
-/

namespace Logfile.ConnectThreads

open Stomp (CallPc ConnectPc WriterPc)

/-! ## The callers and the threads -/

/-- Where a thread is in `connect_thread`. -/
inductive ThreadPc
  /-- up to the decision about the attempt -/
  | trying
  /-- `m_connected = true` -/
  | setConnected
  /-- `m_connect_thread_done = true` -/
  | setDone
  /-- up to the end -/
  | leave
  | finished
  deriving DecidableEq, Repr

/-- The thread has set `m_connect_thread_done`. -/
def ThreadPc.isDone : ThreadPc → Bool
  | leave => true
  | finished => true
  | _ => false

structure State where
  connected : Bool
  connecting : Bool
  connectThreadDone : Bool
  /-- the threads started so far -/
  threads : List ThreadPc
  /-- `m_connect_thread` -/
  connectThread : Option ℕ
  /-- where the call of `connect` is, if there is one -/
  caller : Option CallPc
  terminated : Bool
  deriving DecidableEq

namespace State

/-- The constructor calls `connect`. -/
def start : State where
  connected := false
  connecting := false
  connectThreadDone := false
  threads := []
  connectThread := none
  caller := some .test
  terminated := false

variable (st : State)

def goto (pc : CallPc) : State :=
  { st with caller := some pc }

/-- `connect` returns. -/
def returns : State :=
  { st with caller := none }

def terminate : State :=
  { st with terminated := true }

/-- The thread `i` has not returned. -/
def running (i : ℕ) : Prop :=
  ∃ pc, st.threads[i]? = some pc ∧ pc ≠ .finished

end State

/-- A step of `connect`. -/
def callStep (st : State) : CallPc → Option State
  | .test => some (if st.connected then st.returns else st.goto .exchange)
  | .exchange =>
    some { st.goto (if st.connecting then .testDone else .clearDone) with connecting := true }
  | .testDone => some (if st.connectThreadDone then st.goto .clearConnecting else st.returns)
  | .clearConnecting => some { st.goto .join with connecting := false }
  | .join =>
    match st.connectThread with
    | none => some st.terminate
    | some i =>
      if st.threads[i]? = some .finished then some { st.goto .retest with connectThread := none }
      else none
  | .retest => some st.returns
  | .clearDone => some { st.goto .spawn with connectThreadDone := false }
  | .spawn =>
    match st.connectThread with
    | none => some { st.returns with
        threads := st.threads ++ [.trying]
        connectThread := some st.threads.length }
    | some _ => some st.terminate

/-- A step of the thread `i` that matters here. `ok` tells whether its attempt succeeds. -/
def threadStep (st : State) (i : ℕ) (ok : Bool) : ThreadPc → Option State
  | .trying => some { st with threads := st.threads.set i (if ok then .setConnected else .setDone) }
  | .setConnected => some { st with threads := st.threads.set i .setDone, connected := true }
  | .setDone => some { st with threads := st.threads.set i .leave, connectThreadDone := true }
  | .leave => some { st with threads := st.threads.set i .finished }
  | .finished => none

inductive Action
  | call
  | caller
  | thread (i : ℕ) (ok : Bool)
  /-- `disconnect`, called by anybody -/
  | disconnect
  deriving DecidableEq, Repr

def step (st : State) (a : Action) : Option State :=
  if st.terminated then none
  else
    match a with
    | .call => if st.caller = none then some (st.goto .test) else none
    | .caller => st.caller.bind (callStep st)
    | .thread i ok => st.threads[i]?.bind (threadStep st i ok)
    | .disconnect => some { st with connected := false }

def system : System State Action where
  init st := st = .start
  step := step

/-! ## The thread behind `m_connect_thread` -/

/-- Only the thread in `m_connect_thread` runs, and `m_connect_thread_done` is its flag. -/
structure Owned (st : State) : Prop where
  running : ∀ i, st.running i → st.connectThread = some i
  started : ∀ i, st.connectThread = some i → i < st.threads.length
  done : ∀ i pc, st.connectThread = some i → st.threads[i]? = some pc →
    (st.connectThreadDone = true ↔ pc.isDone = true)

namespace Owned

variable {st st' : State}

theorem frame (h : Owned st) (ht : st'.threads = st.threads)
    (hm : st'.connectThread = st.connectThread)
    (hd : st'.connectThreadDone = st.connectThreadDone) : Owned st' := by
  refine ⟨fun i hi => ?_, fun i hi => ?_, fun i pc hi hpc => ?_⟩
  · rw [hm]
    exact h.running i (by simpa [State.running, ht] using hi)
  · rw [ht]
    exact h.started i (hm ▸ hi)
  · rw [hd]
    exact h.done i pc (hm ▸ hi) (ht ▸ hpc)

/-- While `m_connect_thread` is not joinable, no thread runs. -/
theorem of_none (h : Owned st) (hnone : st.connectThread = none) (i : ℕ) : ¬st.running i := by
  intro hi
  have := h.running i hi
  rw [hnone] at this
  cases this

/-- The thread has ended and is joined. -/
theorem join (h : Owned st) {i : ℕ} (hi : st.connectThread = some i)
    (hfin : st.threads[i]? = some .finished) (ht : st'.threads = st.threads)
    (hm : st'.connectThread = none) : Owned st' := by
  refine ⟨fun j hj => ?_, fun j hj => ?_, fun j pc hj => ?_⟩
  · obtain ⟨pc, hpc, hne⟩ := hj
    rw [ht] at hpc
    obtain rfl : i = j := Option.some.inj (hi.symm.trans (h.running j ⟨pc, hpc, hne⟩))
    exact absurd (Option.some.inj (hpc.symm.trans hfin)) hne
  · rw [hm] at hj
    cases hj
  · rw [hm] at hj
    cases hj

theorem spawn (h : Owned st) (hnone : st.connectThread = none)
    (hd : st.connectThreadDone = false) (ht : st'.threads = st.threads ++ [.trying])
    (hm : st'.connectThread = some st.threads.length)
    (hd' : st'.connectThreadDone = st.connectThreadDone) : Owned st' := by
  refine ⟨fun i hi => ?_, fun i hi => ?_, fun i pc hi hpc => ?_⟩
  · obtain ⟨pc, hpc, hne⟩ := hi
    rw [ht] at hpc
    rcases lt_or_ge i st.threads.length with hlt | hge
    · rw [List.getElem?_append_left hlt] at hpc
      exact absurd ⟨pc, hpc, hne⟩ (h.of_none hnone i)
    · have hlen := (List.getElem?_eq_some_iff.1 hpc).1
      rw [List.length_append, List.length_singleton] at hlen
      rw [hm, show i = st.threads.length by omega]
  · rw [hm, Option.some.injEq] at hi
    simp [ht, ← hi]
  · rw [hm, Option.some.injEq] at hi
    subst hi
    obtain rfl : .trying = pc := by simpa [ht] using hpc
    simp [hd', hd, ThreadPc.isDone]

/-- The thread `i` makes a step. -/
theorem threadStep (h : Owned st) {i : ℕ} {pc pc' : ThreadPc} (hpc : st.threads[i]? = some pc)
    (hne : pc ≠ .finished) (ht : st'.threads = st.threads.set i pc')
    (hm : st'.connectThread = st.connectThread)
    (hd : pc'.isDone = (pc.isDone || pc == .setDone))
    (hd' : st'.connectThreadDone = (st.connectThreadDone || pc == .setDone)) : Owned st' := by
  have hi : st.connectThread = some i := h.running i ⟨pc, hpc, hne⟩
  have hlt : i < st.threads.length := h.started i hi
  refine ⟨fun j hj => ?_, fun j hj => ?_, fun j pcj hj hpcj => ?_⟩
  · obtain ⟨pcj, hpcj, hnej⟩ := hj
    rw [ht, List.getElem?_set] at hpcj
    split_ifs at hpcj with hij
    · rw [hm, hi, hij]
    · exact hm ▸ h.running j ⟨pcj, hpcj, hnej⟩
  · rw [ht, List.length_set]
    exact h.started j (hm ▸ hj)
  · obtain rfl : i = j := Option.some.inj (hi.symm.trans (hm ▸ hj))
    obtain rfl : pc' = pcj := by simpa [ht, hlt] using hpcj
    rw [hd', hd, Bool.or_eq_true, Bool.or_eq_true, h.done i pc hi hpc]

end Owned

/-! ## The call -/

/-- What the call of `connect` knows at its position. -/
structure Flags (st : State) : Prop where
  idle : st.connecting = false → st.caller ≠ some .join → st.connectThread = none
  busy : st.connecting = true → st.connectThread = none →
    st.caller = some .clearDone ∨ st.caller = some .spawn
  clearing : st.caller = some .clearDone → st.connecting = true ∧ st.connectThread = none
  spawning : st.caller = some .spawn →
    st.connecting = true ∧ st.connectThread = none ∧ st.connectThreadDone = false
  testing : st.caller = some .testDone → st.connecting = true
  joining : st.caller = some .clearConnecting →
    st.connecting = true ∧ st.connectThreadDone = true
  join : st.caller = some .join →
    st.connecting = false ∧ st.connectThreadDone = true ∧ st.connectThread ≠ none
  alive : st.terminated = false

namespace Flags

variable {st st' : State}

/-- A step of somebody else, who may set `m_connect_thread_done` if a thread is there. -/
theorem frame (h : Flags st) (hi : st'.connecting = st.connecting)
    (hm : st'.connectThread = st.connectThread) (hc : st'.caller = st.caller)
    (hd : st'.connectThreadDone = st.connectThreadDone ∨
      st.connectThread ≠ none ∧ st'.connectThreadDone = true)
    (ht : st'.terminated = st.terminated) : Flags st' where
  idle := by rw [hi, hc, hm]; exact h.idle
  busy := by rw [hi, hc, hm]; exact h.busy
  clearing := by rw [hi, hc, hm]; exact h.clearing
  spawning hpc := by
    obtain ⟨hconn, hnone, hdone⟩ := h.spawning (hc ▸ hpc)
    rcases hd with hd | ⟨hsome, -⟩
    · rw [hi, hm, hd]
      exact ⟨hconn, hnone, hdone⟩
    · exact absurd hnone hsome
  testing := by rw [hi, hc]; exact h.testing
  joining hpc := by
    obtain ⟨hconn, hdone⟩ := h.joining (hc ▸ hpc)
    refine ⟨hi ▸ hconn, ?_⟩
    rcases hd with hd | ⟨-, hd⟩
    · rw [hd, hdone]
    · exact hd
  join hpc := by
    obtain ⟨hconn, hdone, hsome⟩ := h.join (hc ▸ hpc)
    refine ⟨hi ▸ hconn, ?_, hm ▸ hsome⟩
    rcases hd with hd | ⟨-, hd⟩
    · rw [hd, hdone]
    · exact hd
  alive := ht ▸ h.alive

/-- The flag of an attempt is set while a thread is there. -/
theorem free (h : Flags st) (hjoin : st.caller ≠ some .join) (hclear : st.caller ≠ some .clearDone)
    (hspawn : st.caller ≠ some .spawn) : st.connecting = true ↔ st.connectThread ≠ none := by
  constructor
  · intro hconn hnone
    rcases h.busy hconn hnone with hpc | hpc
    · exact hclear hpc
    · exact hspawn hpc
  · intro hsome
    by_contra hconn
    exact hsome (h.idle (by simpa using hconn) hjoin)

/-- `connect` is where it relies on no flag, or not running. -/
theorem of_free {c : Option CallPc} (hc : st.caller = c)
    (hfree : st.connecting = true ↔ st.connectThread ≠ none)
    (hout : c = none ∨ c = some .exchange ∨ c = some .retest)
    (halive : st.terminated = false) : Flags st := by
  subst hc
  refine ⟨fun hconn _ => ?_, fun hconn hnone => absurd hnone (hfree.1 hconn), ?_, ?_, ?_, ?_, ?_,
    halive⟩
  · by_contra hsome
    rw [hfree.2 hsome] at hconn
    cases hconn
  all_goals
    intro hpc
    rw [hpc] at hout
    simp at hout

theorem callStep (h : Flags st) {pc : CallPc} (hpc : st.caller = some pc)
    (hs : ConnectThreads.callStep st pc = some st') : Flags st' := by
  have hfree : pc ≠ .join → pc ≠ .clearDone → pc ≠ .spawn →
      (st.connecting = true ↔ st.connectThread ≠ none) := by
    intro hjoin hclear hspawn
    exact h.free (by simpa [hpc]) (by simpa [hpc]) (by simpa [hpc])
  cases pc with
  | test =>
    have hfree := hfree (by simp) (by simp) (by simp)
    obtain rfl := Option.some.inj hs
    split_ifs
    · exact of_free rfl hfree (Or.inl rfl) h.alive
    · exact of_free rfl hfree (Or.inr (Or.inl rfl)) h.alive
  | exchange =>
    have hfree := hfree (by simp) (by simp) (by simp)
    obtain rfl := Option.some.inj hs
    split_ifs with hconn
    · have hsome := hfree.1 hconn
      constructor <;> simp [State.goto, hsome, h.alive]
    · have hnone : st.connectThread = none := by
        simpa [hconn] using hfree
      constructor <;> simp [State.goto, hnone, h.alive]
  | testDone =>
    have hfree := hfree (by simp) (by simp) (by simp)
    have hconn := h.testing hpc
    have hsome := hfree.1 hconn
    obtain rfl := Option.some.inj hs
    split_ifs with hdone
    · constructor <;> simp [State.goto, hconn, hdone, hsome, h.alive]
    · exact of_free rfl hfree (Or.inl rfl) h.alive
  | clearConnecting =>
    obtain ⟨hconn, hdone⟩ := h.joining hpc
    have hsome := (hfree (by simp) (by simp) (by simp)).1 hconn
    obtain rfl := Option.some.inj hs
    constructor <;> simp [State.goto, hdone, hsome, h.alive]
  | join =>
    obtain ⟨hconn, -, hsome⟩ := h.join hpc
    simp only [ConnectThreads.callStep] at hs
    split at hs
    · next hnone => exact absurd hnone hsome
    · next i hi =>
      split_ifs at hs with hfin
      obtain rfl := Option.some.inj hs
      exact of_free rfl (by simp [State.goto, hconn]) (Or.inr (Or.inr rfl)) h.alive
  | retest =>
    have hfree := hfree (by simp) (by simp) (by simp)
    obtain rfl := Option.some.inj hs
    exact of_free rfl hfree (Or.inl rfl) h.alive
  | clearDone =>
    obtain ⟨hconn, hnone⟩ := h.clearing hpc
    obtain rfl := Option.some.inj hs
    constructor <;> simp [State.goto, hconn, hnone, h.alive]
  | spawn =>
    obtain ⟨hconn, hnone, -⟩ := h.spawning hpc
    simp only [ConnectThreads.callStep] at hs
    split at hs
    · obtain rfl := Option.some.inj hs
      exact of_free rfl (by simp [State.returns, hconn]) (Or.inl rfl) h.alive
    · next i hi => exact absurd hnone (by simp [hi])

end Flags

/-! ## Every run -/

theorem Owned.callStep {st st' : State} (h : Owned st) (hf : Flags st) {pc : CallPc}
    (hpc : st.caller = some pc) (hs : ConnectThreads.callStep st pc = some st') : Owned st' := by
  cases pc with
  | test =>
    obtain rfl := Option.some.inj hs
    split_ifs
    · exact h.frame rfl rfl rfl
    · exact h.frame rfl rfl rfl
  | testDone =>
    obtain rfl := Option.some.inj hs
    split_ifs
    · exact h.frame rfl rfl rfl
    · exact h.frame rfl rfl rfl
  | exchange | clearConnecting | retest =>
    obtain rfl := Option.some.inj hs
    exact h.frame rfl rfl rfl
  | join =>
    simp only [ConnectThreads.callStep] at hs
    split at hs
    · next hnone => exact absurd hnone (hf.join hpc).2.2
    · next i hi =>
      split_ifs at hs with hfin
      obtain rfl := Option.some.inj hs
      exact h.join hi hfin rfl rfl
  | clearDone =>
    obtain rfl := Option.some.inj hs
    obtain ⟨-, hnone⟩ := hf.clearing hpc
    refine ⟨h.running, h.started, fun i pc hi => ?_⟩
    cases hnone.symm.trans hi
  | spawn =>
    obtain ⟨-, hnone, hdone⟩ := hf.spawning hpc
    simp only [ConnectThreads.callStep, hnone] at hs
    obtain rfl := Option.some.inj hs
    exact h.spawn hnone hdone rfl rfl rfl

theorem handled_step {st st' : State} (h : Owned st ∧ Flags st) {a : Action}
    (hs : step st a = some st') : Owned st' ∧ Flags st' := by
  obtain ⟨ho, hf⟩ := h
  unfold step at hs
  split at hs
  · cases hs
  · cases a with
    | call =>
      simp only at hs
      split_ifs at hs with hnone
      obtain rfl := Option.some.inj hs
      refine ⟨ho.frame rfl rfl rfl, fun hoff _ => hf.idle hoff (by simp [hnone]), fun hon hth => ?_,
        nofun, nofun, nofun, nofun, nofun, hf.alive⟩
      have := hf.busy hon hth
      simp [hnone] at this
    | caller =>
      obtain ⟨pc, hpc, hs⟩ := Option.bind_eq_some_iff.1 hs
      exact ⟨ho.callStep hf hpc hs, hf.callStep hpc hs⟩
    | thread i ok =>
      obtain ⟨pc, hpc, hs⟩ := Option.bind_eq_some_iff.1 hs
      have hsome : pc ≠ .finished → st.connectThread ≠ none := by
        intro hne hnone
        exact ho.of_none hnone i ⟨pc, hpc, hne⟩
      cases pc with
      | trying =>
        obtain rfl := Option.some.inj hs
        refine ⟨ho.threadStep hpc nofun rfl rfl ?_ (by simp), hf.frame rfl rfl rfl (Or.inl rfl) rfl⟩
        split_ifs <;> rfl
      | setConnected =>
        obtain rfl := Option.some.inj hs
        exact ⟨ho.threadStep hpc nofun rfl rfl rfl (by simp), hf.frame rfl rfl rfl (Or.inl rfl) rfl⟩
      | setDone =>
        obtain rfl := Option.some.inj hs
        exact ⟨ho.threadStep hpc nofun rfl rfl rfl (by simp),
          hf.frame rfl rfl rfl (Or.inr ⟨hsome nofun, rfl⟩) rfl⟩
      | leave =>
        obtain rfl := Option.some.inj hs
        exact ⟨ho.threadStep hpc nofun rfl rfl rfl (by simp), hf.frame rfl rfl rfl (Or.inl rfl) rfl⟩
      | finished => cases hs
    | disconnect =>
      obtain rfl := Option.some.inj hs
      exact ⟨ho.frame rfl rfl rfl, hf.frame rfl rfl rfl (Or.inl rfl) rfl⟩

theorem handled_of_reach {ok : State → Action → Prop} {st : State} (h : system.Reach ok st) :
    Owned st ∧ Flags st := by
  refine h.invariant ?_ fun _ _ _ _ hi _ hs => handled_step hi hs
  rintro _ rfl
  constructor <;> constructor <;> simp [State.start, State.running]

/-- `connect` handles its thread object correctly. -/
structure ThreadsHandled (st : State) : Prop where
  /-- at most one `connect_thread` runs -/
  single : ∀ i j, st.running i → st.running j → i = j
  /-- the assignment to `m_connect_thread` finds it not joinable -/
  assigns : st.caller = some .spawn → st.connectThread = none
  /-- `join` finds it joinable, and the thread behind its last assignment -/
  joins : st.caller = some .join → ∃ i pc, st.connectThread = some i ∧
    st.threads[i]? = some pc ∧ pc.isDone = true
  /-- between two calls -/
  idle : st.caller = none → st.connecting = false → st.connectThread = none
  alive : st.terminated = false

/-- In every run : `connect` is called by the constructor and then any number of times, every
attempt ends in any way, and `disconnect` is called at any time. -/
theorem threadsHandled_of_reach {st : State} (h : system.Reachable st) : ThreadsHandled st := by
  obtain ⟨ho, hf⟩ := handled_of_reach h
  refine ⟨fun i j hi hj => ?_, fun hpc => (hf.spawning hpc).2.1, fun hpc => ?_, ?_, hf.alive⟩
  · exact Option.some.inj ((ho.running i hi).symm.trans (ho.running j hj))
  · obtain ⟨-, hdone, hsome⟩ := hf.join hpc
    obtain ⟨i, hi⟩ := Option.ne_none_iff_exists'.1 hsome
    have hget := List.getElem?_eq_getElem (ho.started i hi)
    exact ⟨i, _, hi, hget, (ho.done i _ hi hget).1 hdone⟩
  · exact fun hnone hoff => hf.idle hoff (by simp [hnone])

/-- A connection is made and lost, its thread is joined, and another attempt starts. -/
def connectedTwice : List Action :=
  List.replicate 4 .caller ++ List.replicate 4 (.thread 0 true) ++ .disconnect ::
    .call :: List.replicate 6 .caller ++ .call :: List.replicate 4 .caller

theorem threadsHandled_connectedTwice : ∃ st : State,
    (st.threads = [.finished, .trying] ∧ st.connectThread = some 1) ∧ ThreadsHandled st := by
  obtain ⟨st, hreach, hst⟩ := System.exists_reach (T := system) (b := fun _ _ => true)
    (p := fun _ _ => True) (fun _ _ _ => trivial) rfl connectedTwice
    (fun st => st.threads == [.finished, .trying] && st.connectThread == some 1) rfl
  simp only [Bool.and_eq_true, beq_iff_eq] at hst
  exact ⟨st, hst, threadsHandled_of_reach hreach⟩

/-! ## The sessions -/

/-- Where a connect thread of a session is. -/
def threadPc : ConnectPc → ThreadPc
  | .setConnected => .setConnected
  | .setDone _ => .setDone
  | .leave _ => .leave
  | .finished => .finished
  | _ => .trying

/-- Where the writer of a session is in `connect`. -/
def callerPc : WriterPc → Option CallPc
  | .connect _ pc => some pc
  | _ => none

/-- The session, seen from `connect`. -/
structure Refines (s : Stomp.State) (st : State) : Prop where
  connected : st.connected = s.connected
  connecting : st.connecting = s.connecting
  done : st.connectThreadDone = s.connectThreadDone
  caller : st.caller = callerPc s.writer
  joinable : s.connectThread = none → st.connectThread = none
  thread : ∀ pc, s.connectThread = some pc →
    ∃ i, st.connectThread = some i ∧ st.threads[i]? = some (threadPc pc)
  alive : st.terminated = false

namespace Refines

variable {p : StompParams} {s s' : Stomp.State} {st : State}

/-- A step that does not matter to `connect`. -/
theorem keep (h : Refines s st) (hc : s'.connected = s.connected)
    (hi : s'.connecting = s.connecting) (hd : s'.connectThreadDone = s.connectThreadDone)
    (hw : callerPc s'.writer = callerPc s.writer)
    (ht : s'.connectThread.map threadPc = s.connectThread.map threadPc) :
    ∃ st', Relation.ReflTransGen system.Moves st st' ∧ Refines s' st' := by
  refine ⟨st, .refl, hc ▸ h.connected, hi ▸ h.connecting, hd ▸ h.done, hw ▸ h.caller,
    fun hnone => h.joinable ?_, fun pc hpc => ?_, h.alive⟩
  · simpa [hnone] using ht.symm
  · rw [hpc] at ht
    obtain ⟨pc₀, hpc₀, heq⟩ := Option.map_eq_some_iff.1 ht.symm
    exact heq ▸ h.thread pc₀ hpc₀

theorem moves_disconnect (h : st.terminated = false) :
    system.Moves st { st with connected := false } :=
  ⟨.disconnect, by simp [system, step, h]⟩

/-- A step that only clears `m_connected`. -/
theorem disconnect (h : Refines s st) (hc : s'.connected = false)
    (hi : s'.connecting = s.connecting) (hd : s'.connectThreadDone = s.connectThreadDone)
    (hw : callerPc s'.writer = callerPc s.writer) (ht : s'.connectThread = s.connectThread) :
    ∃ st', Relation.ReflTransGen system.Moves st st' ∧ Refines s' st' := by
  refine ⟨_, .single (moves_disconnect h.alive), hc.symm, hi ▸ h.connecting, hd ▸ h.done,
    hw ▸ h.caller, ht ▸ h.joinable, ht ▸ h.thread, h.alive⟩

/-- A step of `connect`. -/
theorem callStep (h : Refines s st) {job : Option LogEvent} {pc : CallPc}
    (hw : s.writer = .connect job pc) (hs : Stomp.callStep s job pc = some s') :
    ∃ st', Relation.ReflTransGen system.Moves st st' ∧ Refines s' st' := by
  have hcaller : st.caller = some pc := h.caller.trans (by rw [hw]; rfl)
  -- the answering step, and what it has to agree with
  have answer : ∀ st', ConnectThreads.callStep st pc = some st' → Refines s' st' →
      ∃ st', Relation.ReflTransGen system.Moves st st' ∧ Refines s' st' := by
    intro st' hst' href
    exact ⟨st', .single ⟨.caller, by simp [system, step, h.alive, hcaller, hst']⟩, href⟩
  have hret : ∀ result, callerPc (s.connectReturns job result).writer = none := by
    intro result
    cases job <;> cases result <;> rfl
  cases pc with
  | test =>
    simp only [Stomp.callStep] at hs
    refine answer _ rfl ?_
    rw [h.connected]
    split_ifs at hs ⊢ with hc <;> obtain rfl := Option.some.inj hs
    · exact ⟨h.connected, h.connecting, h.done, (hret _).symm, h.joinable, h.thread, h.alive⟩
    · exact ⟨h.connected, h.connecting, h.done, rfl, h.joinable, h.thread, h.alive⟩
  | exchange =>
    obtain rfl := Option.some.inj hs
    refine answer _ rfl ?_
    rw [h.connecting]
    exact ⟨h.connected, rfl, h.done, rfl, h.joinable, h.thread, h.alive⟩
  | testDone =>
    simp only [Stomp.callStep] at hs
    refine answer _ rfl ?_
    rw [h.done]
    split_ifs at hs ⊢ with hd <;> obtain rfl := Option.some.inj hs
    · exact ⟨h.connected, h.connecting, h.done, rfl, h.joinable, h.thread, h.alive⟩
    · exact ⟨h.connected, h.connecting, h.done, (hret _).symm, h.joinable, h.thread, h.alive⟩
  | clearConnecting =>
    obtain rfl := Option.some.inj hs
    exact answer _ rfl ⟨h.connected, rfl, h.done, rfl, h.joinable, h.thread, h.alive⟩
  | join =>
    cases hth : s.connectThread with
    | none =>
      simp only [Stomp.callStep, hth] at hs
      obtain rfl := Option.some.inj hs
      exact h.keep rfl rfl rfl rfl rfl
    | some pc =>
      obtain ⟨i, hi, hget⟩ := h.thread pc hth
      cases pc with
      | finished =>
        simp only [Stomp.callStep, hth] at hs
        obtain rfl := Option.some.inj hs
        refine answer _ (by simp only [ConnectThreads.callStep, hi]; exact if_pos hget) ?_
        exact ⟨h.connected, h.connecting, h.done, rfl, fun _ => rfl, by simp, h.alive⟩
      | _ =>
        simp only [Stomp.callStep, hth] at hs
        cases hs
  | retest =>
    obtain rfl := Option.some.inj hs
    exact answer _ rfl
      ⟨h.connected, h.connecting, h.done, (hret _).symm, h.joinable, h.thread, h.alive⟩
  | clearDone =>
    obtain rfl := Option.some.inj hs
    exact answer _ rfl ⟨h.connected, h.connecting, rfl, rfl, h.joinable, h.thread, h.alive⟩
  | spawn =>
    cases hth : s.connectThread with
    | none =>
      simp only [Stomp.callStep, hth] at hs
      obtain rfl := Option.some.inj hs
      refine answer _ (by simp only [ConnectThreads.callStep, h.joinable hth]; rfl) ?_
      refine ⟨h.connected, h.connecting, h.done, (hret _).symm,
        fun hnone => absurd hnone (Option.some_ne_none _), fun pc hpc => ?_, h.alive⟩
      obtain rfl := Option.some.inj hpc
      exact ⟨_, rfl, by simp [threadPc]⟩
    | some pc =>
      simp only [Stomp.callStep, hth] at hs
      obtain rfl := Option.some.inj hs
      exact h.keep rfl rfl rfl rfl rfl

/-- A step of the connect thread that matters here. -/
theorem threadStep (h : Refines s st) (ok : Bool) {pc pc' : ConnectPc}
    (hth : s.connectThread = some pc) (hth' : s'.connectThread = some pc')
    (hpc : threadPc pc = .trying ∧ threadPc pc' = (if ok then .setConnected else .setDone) ∨
      threadPc pc = .setConnected ∧ threadPc pc' = .setDone ∨
      threadPc pc = .setDone ∧ threadPc pc' = .leave ∨
      threadPc pc = .leave ∧ threadPc pc' = .finished)
    (hc : s'.connected = (s.connected || threadPc pc == .setConnected))
    (hd : s'.connectThreadDone = (s.connectThreadDone || threadPc pc == .setDone))
    (hi : s'.connecting = s.connecting) (hw : s'.writer = s.writer) :
    ∃ st', Relation.ReflTransGen system.Moves st st' ∧ Refines s' st' := by
  obtain ⟨i, hith, hget⟩ := h.thread pc hth
  have hlt : i < st.threads.length := (List.getElem?_eq_some_iff.1 hget).1
  have answer : ∀ st', ConnectThreads.threadStep st i ok (threadPc pc) = some st' →
      st' = { st with
        threads := st.threads.set i (threadPc pc')
        connected := s'.connected
        connectThreadDone := s'.connectThreadDone } →
      ∃ st', Relation.ReflTransGen system.Moves st st' ∧ Refines s' st' := by
    rintro st' hst' rfl
    have hmove : step st (.thread i ok) = ConnectThreads.threadStep st i ok (threadPc pc) := by
      rw [step, if_neg (by simp [h.alive])]
      exact congrArg (·.bind (ConnectThreads.threadStep st i ok)) hget
    refine ⟨_, .single ⟨.thread i ok, hmove.trans hst'⟩, rfl, h.connecting.trans hi.symm, rfl,
      h.caller.trans (by rw [hw]), fun hnone => ?_, fun pc₁ hpc₁ => ⟨i, hith, ?_⟩, h.alive⟩
    · cases hth'.symm.trans hnone
    · obtain rfl := Option.some.inj (hth'.symm.trans hpc₁)
      simp [hlt]
  rcases hpc with ⟨h₀, h₁⟩ | ⟨h₀, h₁⟩ | ⟨h₀, h₁⟩ | ⟨h₀, h₁⟩
  all_goals
    rw [h₀] at hc hd answer
    refine answer _ rfl ?_
    simp [h₁, hc, hd, h.connected, h.done]

theorem connectMove (h : Refines s st) {r : Stomp.Outcome} {pc : ConnectPc}
    (hpc : s.connectThread = some pc) (hs : Stomp.ConnectMove p s r pc s') :
    ∃ st', Relation.ReflTransGen system.Moves st st' ∧ Refines s' st' := by
  cases hs with
  | refused | unresolved =>
    exact h.threadStep false hpc rfl (Or.inl ⟨rfl, rfl⟩) (Bool.or_false _).symm
      (Bool.or_false _).symm
      rfl rfl
  | @write conns written hw =>
    refine h.keep rfl rfl rfl rfl ?_
    rw [hpc]
    cases written <;> rfl
  | takeNone => exact h.keep rfl rfl rfl rfl rfl
  | take _ hg =>
    cases hg with
    | drop => exact h.keep rfl rfl rfl rfl (by rw [hpc]; rfl)
    | accept =>
      exact h.threadStep true hpc rfl (Or.inl ⟨rfl, rfl⟩) (Bool.or_false _).symm
        (Bool.or_false _).symm rfl rfl
  | clear =>
    -- `disconnect`, and the attempt has failed
    obtain ⟨st₁, hmoves, h₁⟩ : ∃ st', Relation.ReflTransGen system.Moves st st' ∧
        Refines { s with connected := false } st' := h.disconnect rfl rfl rfl rfl rfl
    obtain ⟨st₂, hmoves', h₂⟩ : ∃ st', Relation.ReflTransGen system.Moves st₁ st' ∧
        Refines { s.gotoConnect (.setDone _) with connected := false } st' :=
      h₁.threadStep false hpc rfl (Or.inl ⟨rfl, rfl⟩) (Bool.or_false _).symm
        (Bool.or_false _).symm rfl rfl
    exact ⟨st₂, hmoves.trans hmoves', h₂⟩
  | setConnected =>
    exact h.threadStep true hpc rfl (Or.inr (Or.inl ⟨rfl, rfl⟩)) (Bool.or_true _).symm
      (Bool.or_false _).symm rfl rfl
  | setDone =>
    exact h.threadStep true hpc rfl (Or.inr (Or.inr (Or.inl ⟨rfl, rfl⟩)))
      (Bool.or_false _).symm (Bool.or_true _).symm rfl rfl
  | leave =>
    exact h.threadStep true hpc rfl (Or.inr (Or.inr (Or.inr ⟨rfl, rfl⟩)))
      (Bool.or_false _).symm (Bool.or_false _).symm rfl rfl
  | _ => exact h.keep rfl rfl rfl rfl (by rw [hpc]; rfl)

theorem writerStep (h : Refines s st) {r : Stomp.Outcome} (hs : Stomp.writerStep p s r = some s') :
    ∃ st', Relation.ReflTransGen system.Moves st st' ∧ Refines s' st' := by
  by_cases hconnect : ∃ job pc, s.writer = .connect job pc
  · obtain ⟨job, pc, hw⟩ := hconnect
    rw [Stomp.writerStep, hw] at hs
    exact h.callStep hw hs
  · have hnone : callerPc s.writer = none := by
      cases hw : s.writer with
      | connect job pc => exact absurd ⟨job, pc, hw⟩ hconnect
      | _ => rfl
    generalize hw : s.writer = pc at hconnect
    have hmove := Stomp.writerMove hs
    rw [hw] at hmove
    cases hmove with
    | connect => exact absurd ⟨_, _, rfl⟩ hconnect
    | @send le conns written =>
      refine h.keep rfl rfl rfl ?_ rfl
      rw [hnone]
      cases written <;> rfl
    | takeNone => exact h.keep rfl rfl rfl rfl rfl
    | take _ hv => cases hv <;> exact h.keep rfl rfl rfl hnone.symm rfl
    | clear => exact h.disconnect rfl rfl rfl hnone.symm rfl
    | _ => exact h.keep rfl rfl rfl hnone.symm rfl

theorem move (h : Refines s st) {a : Stomp.Action} (hs : Stomp.step p s a = some s') :
    ∃ st', Relation.ReflTransGen system.Moves st st' ∧ Refines s' st' := by
  cases a with
  | writer r =>
    refine h.writerStep (p := p) (r := r) ?_
    unfold Stomp.step at hs
    split at hs
    · cases hs
    · exact hs
  | call le =>
    cases Stomp.move hs with
    | call hidle =>
      have hmove : step st .call = some (st.goto .test) := by
        rw [step, if_neg (by simp [h.alive])]
        exact if_pos (h.caller.trans (by rw [hidle]; rfl))
      exact ⟨_, .single ⟨.call, hmove⟩, h.connected, h.connecting, h.done, rfl, h.joinable,
        h.thread, h.alive⟩
  | connect r =>
    cases Stomp.move hs with
    | connect hpc hmove => exact h.connectMove hpc hmove
  | reader i r =>
    cases Stomp.move hs with
    | reader _ hmove =>
      cases hmove with
      | drop => exact h.disconnect rfl rfl rfl rfl rfl
      | _ => exact h.keep rfl rfl rfl rfl rfl
  | deliver | serve | lose =>
    cases Stomp.move hs with
    | _ => exact h.keep rfl rfl rfl rfl rfl

end Refines

/-- The sessions of a stream are runs of `connect` alone. -/
theorem refines_of_reach {p : StompParams} {s : Stomp.State}
    (h : (Stomp.system p).Reachable s) : ∃ st, system.Reachable st ∧ Refines s st := by
  refine h.simulate (fun s hs => ⟨.start, rfl, ?_⟩) fun _ _ _ _ _ hr _ hs => hr.move hs
  obtain rfl : s = .start := hs
  exact ⟨rfl, rfl, rfl, rfl, fun _ => rfl, nofun, rfl⟩

/-- So in a session `join` never waits for a connection attempt. -/
theorem not_trying_of_join {p : StompParams} {s : Stomp.State} (h : (Stomp.system p).Reachable s)
    {job : Option LogEvent} (hw : s.writer = .connect job .join) :
    ∃ pc, s.connectThread = some pc ∧ (threadPc pc).isDone = true := by
  obtain ⟨st, hreach, href⟩ := refines_of_reach h
  have hcaller : st.caller = some .join := href.caller.trans (by rw [hw]; rfl)
  obtain ⟨i, pc, hi, hget, hdone⟩ := (threadsHandled_of_reach hreach).joins hcaller
  cases hth : s.connectThread with
  | none => cases hi.symm.trans (href.joinable hth)
  | some pc' =>
    obtain ⟨j, hj, hgetj⟩ := href.thread pc' hth
    obtain rfl : i = j := Option.some.inj (hi.symm.trans hj)
    obtain rfl := Option.some.inj (hget.symm.trans hgetj)
    exact ⟨pc', rfl, hdone⟩

end Logfile.ConnectThreads
