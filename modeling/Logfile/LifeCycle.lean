import Logfile.Runs

/-!
# The life cycle of the logger

`s_instance` is created by the first call of `instance()`. Two paths lead to its end : the crash
handler calls `terminate`, which joins and deletes the log thread and clears `m_thread`, and
`atexit_handler` deletes the instance, whose destructor joins and deletes the thread if it is still
there. `atexit_handler` does not clear `s_instance`.

Any number of threads call the operations, crash, and exit; the log thread is one of them. Each
reading of one of the two pointers is a step. A crash stacks the handler on what its thread was
doing. `trace` records what the pointers pointed to when they were used, and who has called
`m_thread->terminate()`.
-/

namespace Logfile.LifeCycle

/-! ## Threads and what they do -/

inductive Thread
  | log
  | app (n : ℕ)
  deriving DecidableEq

/-- The operations. `logBelow` is a `log` below the minimum level of its subsystem. -/
inductive Op
  | log
  | logBelow
  | addOutputStream
  | removeOutputStream
  | setMinLogLevel
  | dumpConfiguration
  deriving DecidableEq

/-- The operation gets as far as `m_thread`. -/
def Op.usesThread : Op → Bool
  | logBelow => false
  | _ => true

/-- The operation may use `m_thread` several times. -/
def Op.usesAgain : Op → Bool
  | removeOutputStream => true
  | setMinLogLevel => true
  | dumpConfiguration => true
  | _ => false

inductive OpPc
  /-- `instance()` -/
  | getInstance
  /-- the use of what it returned -/
  | deref
  /-- `m_d->m_thread->` -/
  | access
  deriving DecidableEq

/-- The two ends of the log thread. -/
inductive Path
  | terminate
  /-- `~logger` -/
  | destructor
  deriving DecidableEq

inductive PathPc
  /-- `if (m_thread)` -/
  | check
  /-- `m_thread->terminate()` up to its join -/
  | terminate
  | join
  /-- `delete m_thread` -/
  | delete
  /-- `m_thread = nullptr` -/
  | clear
  /-- the end of `delete s_instance` -/
  | free
  deriving DecidableEq

/-- What a thread is doing, on top of the frames below. -/
inductive Frame
  | op (o : Op) (pc : OpPc)
  | path (p : Path) (pc : PathPc)
  /-- `signal_handler`, before or after its call of `terminate` -/
  | handler (terminated : Bool)
  /-- `exit`, which does not return -/
  | exiting
  deriving DecidableEq

inductive Pointer
  | null
  | alive
  | deleted
  deriving DecidableEq

inductive Obs
  | usedInstance (p : Pointer)
  | usedThread (p : Pointer)
  /-- `m_thread->terminate()` was called -/
  | terminated (t : Thread)
  deriving DecidableEq

structure State where
  /-- `s_instance` -/
  sInstance : Pointer
  /-- `m_d->m_thread` -/
  thread : Pointer
  doTerminate : Bool
  /-- `do_run` has returned -/
  logEnded : Bool
  atexitCalled : Bool
  stack : Thread → List Frame
  /-- undefined behaviour, or the exception of a thread that joins itself -/
  crashed : Bool
  trace : List Obs

namespace State

variable (st : State)

def observe (o : Obs) : State :=
  { st with trace := st.trace ++ [o] }

def setStack (t : Thread) (l : List Frame) : State :=
  { st with stack := Function.update st.stack t l }

/-- Go on with the object behind `s_instance`. -/
def useInstance (k : State → State) : State :=
  let st := st.observe (.usedInstance st.sInstance)
  if st.sInstance = .alive then k st else { st with crashed := true }

/-- Go on with the object behind `m_thread`. -/
def useThread (k : State → State) : State :=
  st.useInstance fun st =>
    let st := st.observe (.usedThread st.thread)
    if st.thread = .alive then k st else { st with crashed := true }

/-- The thread exists and has not ended. -/
def runs (t : Thread) : Bool :=
  t ≠ .log || (st.sInstance ≠ .null && !st.logEnded)

end State

/-! ## The steps -/

/-- An operation. `more` tells whether it uses `m_thread` again. -/
def opStep (st : State) (t : Thread) (o : Op) (rest : List Frame) (more : Bool) : OpPc → State
  | .getInstance =>
    let st := if st.sInstance = .null then { st with sInstance := .alive, thread := .alive } else st
    st.setStack t (.op o .deref :: rest)
  | .deref =>
    st.useInstance fun st => st.setStack t (if o.usesThread then .op o .access :: rest else rest)
  | .access =>
    st.useThread fun st =>
      st.setStack t (if more && o.usesAgain then .op o .access :: rest else rest)

/-- `terminate()` or `~logger`. -/
def pathStep (st : State) (t : Thread) (p : Path) (rest : List Frame) : PathPc → Option State
  | .check =>
    some <| st.useInstance fun st =>
      if st.thread = .null then
        st.setStack t (if p = Path.terminate then rest else .path p .free :: rest)
      else st.setStack t (.path p .terminate :: rest)
  | .terminate =>
    some <| st.useThread fun st =>
      { st.observe (.terminated t) with doTerminate := true, crashed := t = Thread.log }.setStack t
        (.path p .join :: rest)
  | .join => if st.logEnded then some (st.setStack t (.path p .delete :: rest)) else none
  | .delete =>
    some <| st.useThread fun st =>
      { st with thread := .deleted }.setStack t
        (.path p (if p = Path.terminate then .clear else .free) :: rest)
  | .clear => some <| st.useInstance fun st => { st with thread := .null }.setStack t rest
  | .free => some <| st.useInstance fun st => { st with sInstance := .deleted }.setStack t rest

/-- What a thread may do. -/
inductive Move
  /-- a call of `instance()->op(..)` -/
  | call (o : Op)
  /-- to go on -/
  | run (more : Bool)
  /-- SIGSEGV, for which the constructor has installed the handler -/
  | crash
  /-- the handler calls `terminate` -/
  | terminate
  /-- the handler calls the old one, and that returns -/
  | resume
  /-- `exit`, called by the application or by the handler -/
  | exit
  /-- `exit` calls `atexit_handler` -/
  | atexit
  deriving DecidableEq

inductive Action
  | move (t : Thread) (m : Move)
  /-- the log thread ends on request -/
  | logEnds
  deriving DecidableEq

/-- Code that may call an operation. -/
def callable : List Frame → Bool
  | [] => true
  | .handler terminated :: _ => !terminated
  | .exiting :: _ => true
  | _ => false

def Frame.isHandler : Frame → Bool
  | handler _ => true
  | _ => false

/-- A step of a thread that runs. -/
def moveStep (st : State) (t : Thread) : Move → Option State
  | .call o =>
    if callable (st.stack t) then some (st.setStack t (.op o .getInstance :: st.stack t)) else none
  | .run more =>
    match st.stack t with
    | .op o pc :: rest => some (opStep st t o rest more pc)
    | .path p pc :: rest => pathStep st t p rest pc
    | _ => none
  | .crash =>
    if st.sInstance = .null ∨ (st.stack t).any Frame.isHandler then none
    else some (st.setStack t (.handler false :: st.stack t))
  | .terminate =>
    match st.stack t with
    | .handler false :: rest =>
      some (st.setStack t (.path .terminate .check :: .handler true :: rest))
    | _ => none
  | .resume =>
    match st.stack t with
    | .handler true :: rest => some (st.setStack t rest)
    | _ => none
  | .exit =>
    match st.stack t with
    | [] => some (st.setStack t [.exiting])
    | .handler true :: rest => some (st.setStack t (.exiting :: .handler true :: rest))
    | _ => none
  | .atexit =>
    match st.stack t with
    | .exiting :: rest =>
      if st.atexitCalled ∨ st.sInstance = .null then none
      else
        let st := { st with atexitCalled := true }
        some (st.setStack t (.path .destructor .check :: .exiting :: rest))
    | _ => none

def step (st : State) (a : Action) : Option State :=
  if st.crashed then none
  else
    match a with
    | .move t m => if st.runs t then moveStep st t m else none
    | .logEnds =>
      if st.doTerminate && !st.logEnded && (st.stack .log).isEmpty then
        some { st with logEnded := true }
      else none

def start : State where
  sInstance := .null
  thread := .null
  doTerminate := false
  logEnded := false
  atexitCalled := false
  stack := fun _ => []
  crashed := false
  trace := []

def system : System State Action where
  init st := st = start
  step := step

/-! ## What is asked -/

def Obs.isTerminated : Obs → Bool
  | terminated _ => true
  | _ => false

/-- The objects exist when they are used, and the log thread is terminated once, by another. -/
structure Safe (st : State) : Prop where
  sInstance : ∀ p, .usedInstance p ∈ st.trace → p = .alive
  thread : ∀ p, .usedThread p ∈ st.trace → p = .alive
  once : st.trace.countP Obs.isTerminated ≤ 1
  other : ∀ t, .terminated t ∈ st.trace → t ≠ .log

/-- What the operation needs is there, or will be created by it. -/
def Usable (st : State) (o : Op) : Prop :=
  st.sInstance = .null ∨ st.sInstance = .alive ∧ (o.usesThread = true → st.thread = .alive)

/-- `terminate()` or `~logger` behind its test of `m_thread`. -/
def Frame.inside : Frame → Bool
  | path _ pc => pc ≠ .check
  | _ => false

/-- No operation begins or goes on without the objects it needs, the two paths do not overlap,
and the log thread neither crashes nor exits. -/
def Orderly (st : State) : Action → Prop
  | .move _ (.call o) => Usable st o
  | .move t .crash => t ≠ .log ∧ ∀ f ∈ st.stack t, f.inside = false
  | .move t .exit => t ≠ .log
  | .move t .resume => ∀ o pc, .op o pc ∈ st.stack t → Usable st o
  | .move t (.run _) =>
    match st.stack t with
    | .path _ .check :: _ =>
      st.sInstance ≠ .deleted ∧ ∀ t', t' ≠ t → ∀ f ∈ st.stack t', f.inside = false
    | .path _ .delete :: _ => ∀ t', t' ≠ t → ∀ o pc, .op o pc ∈ st.stack t' → o.usesThread = false
    | .path _ .free :: _ => ∀ t', t' ≠ t → ∀ o pc, .op o pc ∉ st.stack t'
    | _ => True
  | _ => True

/-! ## The invariant -/

/-- The objects an operation needs are there. -/
def Ready (st : State) (o : Op) : Prop :=
  st.sInstance = .alive ∧ (o.usesThread = true → st.thread = .alive)

/-- What holds of the frame on top of a stack. -/
def TopFacts (st : State) : Frame → Prop
  | .op o .getInstance => Usable st o
  | .op o .deref => Ready st o
  | .op o .access => Ready st o
  | .path _ .check => True
  | .path _ .terminate =>
    st.sInstance = .alive ∧ st.thread = .alive ∧ st.trace.countP Obs.isTerminated = 0
  | .path _ .join => st.sInstance = .alive ∧ st.thread = .alive
  | .path _ .delete => st.sInstance = .alive ∧ st.thread = .alive
  | .path _ .clear => st.sInstance = .alive ∧ st.thread = .deleted
  | .path _ .free => st.sInstance = .alive ∧ st.thread ≠ .alive
  | .handler _ => True
  | .exiting => True

/-- Frames on which others may lie. -/
def Frame.isBase : Frame → Bool
  | handler _ => true
  | exiting => true
  | _ => false

def Frame.isOp : Frame → Bool
  | op _ _ => true
  | _ => false

/-- Frames that there are only once the instance has been created. -/
def Frame.later : Frame → Bool
  | handler _ => true
  | path _ _ => true
  | _ => false

/-- Operations and paths lie directly on a handler or on `exit`, and only on top is a path behind
its test. -/
structure Shape (l : List Frame) : Prop where
  chain : l.IsChain fun f g => f.isBase = true ∨ g.isBase = true
  below : ∀ f ∈ l.tail, f.inside = false
  access : ∀ o, .op o .access ∈ l → o.usesThread = true

def Obs.fine : Obs → Prop
  | usedInstance q => q = .alive
  | usedThread q => q = .alive
  | terminated s => s ≠ .log

namespace Shape

variable {f g : Frame} {l : List Frame}

theorem cons (h : Shape l) (hchain : f.isBase = true ∨ ∀ g ∈ l.head?, g.isBase = true)
    (hbelow : ∀ g ∈ l.head?, g.inside = false)
    (haccess : ∀ o, f = .op o .access → o.usesThread = true) :
    Shape (f :: l) where
  chain := by
    refine List.isChain_cons.2 ⟨fun g hg => ?_, h.chain⟩
    exact hchain.imp_right fun hbase => hbase g hg
  below g hg := by
    cases l with
    | nil => cases hg
    | cons a l =>
      rcases List.mem_cons.1 hg with rfl | hg
      · exact hbelow _ rfl
      · exact h.below g hg
  access o ho := by
    rcases List.mem_cons.1 ho with heq | ho
    · exact haccess o heq.symm
    · exact h.access o ho

theorem tail (h : Shape (f :: l)) : Shape l where
  chain := (List.isChain_cons.1 h.chain).2
  below g hg := h.below g (List.mem_of_mem_tail hg)
  access o ho := h.access o (List.mem_cons_of_mem f ho)

/-- Under an operation or a path there is a handler or `exit`. -/
theorem base (h : Shape (f :: l)) (hf : f.isBase = false) : ∀ g ∈ l.head?, g.isBase = true := by
  intro g hg
  rcases (List.isChain_cons.1 h.chain).1 g hg with hbase | hbase
  · rw [hf] at hbase
    cases hbase
  · exact hbase

end Shape

theorem Frame.not_inside {f : Frame} (h : f.isBase = true) : f.inside = false := by
  cases f with
  | handler terminated => rfl
  | exiting => rfl
  | _ => cases h

theorem Pointer.ne_null {q : Pointer} (h : q = .alive) : q ≠ .null := by
  rw [h]
  exact Pointer.noConfusion

theorem topFacts_of_base {st : State} {f : Frame} (h : f.isBase = true) : TopFacts st f := by
  cases f with
  | handler terminated => trivial
  | exiting => trivial
  | _ => cases h

/-- At most one thread is inside a path, and the pointers are as far as it has come. -/
structure Inv (st : State) : Prop where
  crashed : st.crashed = false
  shape : ∀ t, Shape (st.stack t)
  log : ∀ f ∈ st.stack .log, f.isOp = true
  later : ∀ t, ∀ f ∈ st.stack t, f.later = true → st.sInstance ≠ .null
  top : ∀ t, ∀ f ∈ (st.stack t).head?, TopFacts st f
  single : ∀ t t', ∀ f ∈ (st.stack t).head?, ∀ f' ∈ (st.stack t').head?,
    f.inside = true → f'.inside = true → t = t'
  idle : (∀ t, ∀ f ∈ (st.stack t).head?, f.inside = false) → st.sInstance = .alive →
    st.thread ≠ .deleted ∧ (st.thread = .alive → st.trace.countP Obs.isTerminated = 0)
  null : st.sInstance = .null → st.trace.countP Obs.isTerminated = 0
  once : st.trace.countP Obs.isTerminated ≤ 1
  trace : ∀ o ∈ st.trace, o.fine

theorem Inv.safe {st : State} (h : Inv st) : Safe st where
  sInstance _ hq := h.trace _ hq
  thread _ hq := h.trace _ hq
  once := h.once
  other _ ht := h.trace _ ht

theorem Inv.init : Inv start where
  crashed := rfl
  shape _ := ⟨.nil, (fun _ h => by cases h), (fun _ h => by cases h)⟩
  log _ h := by cases h
  later _ _ h := by cases h
  top _ _ h := by cases h
  single _ _ _ h := by cases h
  idle _ h := by cases h
  null _ := rfl
  once := Nat.zero_le 1
  trace _ h := by cases h

/-- A step of one thread. The others keep their stacks. -/
theorem Inv.update {st st' : State} {t : Thread} {l : List Frame} (h : Inv st)
    (hstack : st'.stack = Function.update st.stack t l) (hcrashed : st'.crashed = false)
    (hshape : Shape l) (hlog : t = .log → ∀ f ∈ l, f.isOp = true)
    (hinst : st.sInstance ≠ .null → st'.sInstance ≠ .null)
    (hlater : ∀ f ∈ l, f.later = true → st'.sInstance ≠ .null)
    (hothers : ∀ t', t' ≠ t → ∀ f ∈ (st.stack t').head?, TopFacts st f → TopFacts st' f)
    (htop : ∀ f ∈ l.head?, TopFacts st' f)
    (hsingle : ∀ f ∈ l.head?, f.inside = true →
      ∀ t', t' ≠ t → ∀ f' ∈ (st.stack t').head?, f'.inside = false)
    (hidle : (∀ f ∈ l.head?, f.inside = false) →
      (∀ t', t' ≠ t → ∀ f' ∈ (st.stack t').head?, f'.inside = false) → st'.sInstance = .alive →
        st'.thread ≠ .deleted ∧ (st'.thread = .alive → st'.trace.countP Obs.isTerminated = 0))
    (hnull : st'.sInstance = .null → st'.trace.countP Obs.isTerminated = 0)
    (honce : st'.trace.countP Obs.isTerminated ≤ 1) (htrace : ∀ o ∈ st'.trace, o.fine) :
    Inv st' := by
  have hself : st'.stack t = l := by rw [hstack, Function.update_self]
  have hother {t' : Thread} (ht : t' ≠ t) : st'.stack t' = st.stack t' := by
    rw [hstack, Function.update_of_ne ht]
  have hcases (t' : Thread) : t' = t ∧ st'.stack t' = l ∨ t' ≠ t ∧ st'.stack t' = st.stack t' := by
    by_cases ht : t' = t
    · exact Or.inl ⟨ht, ht ▸ hself⟩
    · exact Or.inr ⟨ht, hother ht⟩
  refine ⟨hcrashed, fun t' => ?_, ?_, fun t' f hf hlat => ?_, fun t' f hf => ?_,
    fun t₁ t₂ f₁ h₁ f₂ h₂ hin₁ hin₂ => ?_, fun hnone halive => ?_, hnull, honce, htrace⟩
  · rcases hcases t' with ⟨-, heq⟩ | ⟨-, heq⟩
    · rw [heq]
      exact hshape
    · rw [heq]
      exact h.shape t'
  · rcases hcases .log with ⟨ht, heq⟩ | ⟨-, heq⟩
    · rw [heq]
      exact hlog ht.symm
    · rw [heq]
      exact h.log
  · rcases hcases t' with ⟨-, heq⟩ | ⟨-, heq⟩
    · rw [heq] at hf
      exact hlater f hf hlat
    · rw [heq] at hf
      exact hinst (h.later t' f hf hlat)
  · rcases hcases t' with ⟨-, heq⟩ | ⟨ht, heq⟩
    · rw [heq] at hf
      exact htop f hf
    · rw [heq] at hf
      exact hothers t' ht f hf (h.top t' f hf)
  · rcases hcases t₁ with ⟨ht₁, heq₁⟩ | ⟨ht₁, heq₁⟩
    · rcases hcases t₂ with ⟨ht₂, -⟩ | ⟨ht₂, heq₂⟩
      · exact ht₁.trans ht₂.symm
      · rw [heq₁] at h₁
        rw [heq₂] at h₂
        have hout := hsingle f₁ h₁ hin₁ t₂ ht₂ f₂ h₂
        rw [hin₂] at hout
        cases hout
    · rcases hcases t₂ with ⟨ht₂, heq₂⟩ | ⟨-, heq₂⟩
      · rw [heq₁] at h₁
        rw [heq₂] at h₂
        have hout := hsingle f₂ h₂ hin₂ t₁ ht₁ f₁ h₁
        rw [hin₁] at hout
        cases hout
      · rw [heq₁] at h₁
        rw [heq₂] at h₂
        exact h.single t₁ t₂ f₁ h₁ f₂ h₂ hin₁ hin₂
  · refine hidle (fun f hf => hnone t f (by rwa [hself])) (fun t' ht f hf => ?_) halive
    exact hnone t' f (by rwa [hother ht])

/-- Another operation or path in the place of the one on top. -/
theorem Shape.change {f g : Frame} {l : List Frame} (h : Shape (f :: l)) (hf : f.isBase = false)
    (haccess : ∀ o, g = .op o .access → o.usesThread = true) : Shape (g :: l) :=
  h.tail.cons (Or.inr (h.base hf)) (fun g hg => Frame.not_inside (h.base hf g hg)) haccess

/-! ## The steps that leave the objects alone -/

section Steps

variable {st : State} {t : Thread} {l rest : List Frame}

theorem Inv.observe (h : Inv st) {o : Obs} (ho : o.fine) (hnot : o.isTerminated = false) :
    Inv (st.observe o) := by
  have hcount : (st.trace ++ [o]).countP Obs.isTerminated = st.trace.countP Obs.isTerminated := by
    simp [hnot]
  have htop (f : Frame) (hf : TopFacts st f) : TopFacts (st.observe o) f := by
    cases f with
    | op o pc => cases pc <;> exact hf
    | path p pc =>
      cases pc with
      | terminate => exact ⟨hf.1, hf.2.1, hcount.trans hf.2.2⟩
      | _ => exact hf
    | _ => trivial
  refine ⟨h.crashed, h.shape, h.log, h.later, fun t f hf => htop f (h.top t f hf), h.single,
    fun hnone halive => ?_, fun hnull => hcount.trans (h.null hnull), hcount.le.trans h.once,
    fun o' ho' => ?_⟩
  · exact ⟨(h.idle hnone halive).1, fun hthread => hcount.trans ((h.idle hnone halive).2 hthread)⟩
  · rcases List.mem_append.1 ho' with hold | hnew
    · exact h.trace o' hold
    · rw [List.mem_singleton.1 hnew]
      exact ho

theorem Inv.useInstance (h : Inv st) (halive : st.sInstance = .alive) (k : State → State) :
    ∃ st₁, Inv st₁ ∧ st.useInstance k = k st₁ ∧ st₁.sInstance = .alive ∧ st₁.thread = st.thread ∧
      st₁.stack = st.stack ∧
      st₁.trace.countP Obs.isTerminated = st.trace.countP Obs.isTerminated := by
  refine ⟨st.observe (.usedInstance st.sInstance), h.observe halive rfl, ?_, halive, rfl, rfl, ?_⟩
  · simp [State.useInstance, State.observe, halive]
  · simp [State.observe, Obs.isTerminated]

theorem Inv.useThread (h : Inv st) (halive : st.sInstance = .alive) (hthread : st.thread = .alive)
    (k : State → State) :
    ∃ st₁, Inv st₁ ∧ st.useThread k = k st₁ ∧ st₁.sInstance = .alive ∧ st₁.thread = .alive ∧
      st₁.stack = st.stack ∧
      st₁.trace.countP Obs.isTerminated = st.trace.countP Obs.isTerminated := by
  obtain ⟨st₁, h₁, heq, halive₁, hthread₁, hstack, hcount⟩ := h.useInstance halive fun st =>
    let st := st.observe (.usedThread st.thread)
    if st.thread = .alive then k st else { st with crashed := true }
  have hthread' : st₁.thread = .alive := hthread₁.trans hthread
  refine ⟨st₁.observe (.usedThread st₁.thread), h₁.observe hthread' rfl, ?_, halive₁, hthread',
    hstack, ?_⟩
  · rw [State.useThread, heq]
    simp [State.observe, hthread']
  · rw [← hcount]
    simp [State.observe, Obs.isTerminated]

/-- A step that only changes what its thread is doing, neither from nor to the inside of a path. -/
theorem Inv.setStack (h : Inv st) (hshape : Shape l) (hlog : t = .log → ∀ f ∈ l, f.isOp = true)
    (hlater : ∀ f ∈ l, f.later = true → st.sInstance ≠ .null)
    (htop : ∀ f ∈ l.head?, TopFacts st f) (hout : ∀ f ∈ l.head?, f.inside = false)
    (hwas : ∀ f ∈ (st.stack t).head?, f.inside = false) : Inv (st.setStack t l) := by
  refine h.update (t := t) rfl h.crashed hshape hlog id hlater (fun _ _ _ _ hf => hf) htop
    (fun f hf hin => ?_) (fun _ hothers halive => h.idle (fun t' f hf => ?_) halive) h.null h.once
    h.trace
  · rw [hout f hf] at hin
    cases hin
  · by_cases ht : t' = t
    · exact hwas f (ht ▸ hf)
    · exact hothers t' ht f hf

variable {o : Op} {p : Path} {more : Bool}

theorem Inv.head (h : Inv st) {f : Frame} (hstack : st.stack t = f :: rest) : TopFacts st f :=
  h.top t f (by rw [hstack]; rfl)

/-- A path is not run by the log thread. -/
theorem Inv.not_log (h : Inv st) {f : Frame} (hmem : f ∈ st.stack t) (hf : f.isOp = false) :
    t ≠ .log := by
  rintro rfl
  rw [h.log f hmem] at hf
  cases hf

theorem Inv.log_below (h : Inv st) {f : Frame} (hstack : st.stack t = f :: rest) (ht : t = .log) :
    ∀ g ∈ rest, g.isOp = true := by
  intro g hg
  refine h.log g ?_
  rw [← ht, hstack]
  exact List.mem_cons_of_mem _ hg

theorem Inv.later_below (h : Inv st) {f : Frame} (hstack : st.stack t = f :: rest) :
    ∀ g ∈ rest, g.later = true → st.sInstance ≠ .null := by
  intro g hg
  refine h.later t g ?_
  rw [hstack]
  exact List.mem_cons_of_mem _ hg

theorem Inv.call (h : Inv st) (hcall : callable (st.stack t) = true) (hu : Usable st o) :
    Inv (st.setStack t (.op o .getInstance :: st.stack t)) := by
  have hbase : ∀ f ∈ (st.stack t).head?, f.isBase = true := by
    intro f hf
    cases hl : st.stack t with
    | nil => simp [hl] at hf
    | cons g l =>
      rw [hl] at hf hcall
      obtain rfl : g = f := Option.some.inj hf
      cases g with
      | handler terminated => rfl
      | exiting => rfl
      | _ => cases hcall
  refine h.setStack ((h.shape t).cons (Or.inr hbase) (fun g hg => Frame.not_inside (hbase g hg))
    fun o ho => by cases ho) (fun ht f hf => ?_) (fun f hf hlater => ?_) (fun f hf => ?_)
    (fun f hf => ?_) fun f hf => Frame.not_inside (hbase f hf)
  · rcases List.mem_cons.1 hf with rfl | hf
    · rfl
    · exact h.log f (ht ▸ hf)
  · rcases List.mem_cons.1 hf with rfl | hf
    · cases hlater
    · exact h.later t f hf hlater
  · obtain rfl := Option.some.inj hf
    exact hu
  · obtain rfl := Option.some.inj hf
    rfl

/-- An operation goes on. -/
theorem Inv.opNext (h : Inv st) {pc pc' : OpPc} (hstack : st.stack t = .op o pc :: rest)
    (hfacts : TopFacts st (.op o pc')) (haccess : pc' = .access → o.usesThread = true) :
    Inv (st.setStack t (.op o pc' :: rest)) := by
  have hshape := h.shape t
  rw [hstack] at hshape
  refine h.setStack (hshape.change rfl fun o' ho' => ?_) (fun ht f hf => ?_)
    (fun f hf hlater => ?_) (fun f hf => ?_) (fun f hf => ?_) fun f hf => ?_
  · obtain ⟨rfl, hpc⟩ := Frame.op.inj ho'
    exact haccess hpc
  · rcases List.mem_cons.1 hf with rfl | hf
    · rfl
    · exact h.log_below hstack ht f hf
  · rcases List.mem_cons.1 hf with rfl | hf
    · cases hlater
    · exact h.later_below hstack f hf hlater
  · obtain rfl := Option.some.inj hf
    exact hfacts
  · obtain rfl := Option.some.inj hf
    rfl
  · rw [hstack] at hf
    obtain rfl := Option.some.inj hf
    rfl

/-- The frame on top is done, and what lies below goes on. -/
theorem Inv.pop (h : Inv st) {f : Frame} (hstack : st.stack t = f :: rest)
    (hf : f.inside = false) (htop : ∀ g ∈ rest.head?, TopFacts st g) :
    Inv (st.setStack t rest) := by
  have hshape := h.shape t
  rw [hstack] at hshape
  refine h.setStack hshape.tail (h.log_below hstack) (h.later_below hstack) htop
    (fun g hg => ?_) fun g hg => ?_
  · exact hshape.below g (List.mem_of_mem_head? hg)
  · rw [hstack] at hg
    obtain rfl := Option.some.inj hg
    exact hf

theorem Inv.opDone (h : Inv st) {pc : OpPc} (hstack : st.stack t = .op o pc :: rest) :
    Inv (st.setStack t rest) := by
  have hshape := h.shape t
  rw [hstack] at hshape
  exact h.pop hstack rfl fun g hg => topFacts_of_base (hshape.base rfl g hg)

/-- The first call of `instance()` creates both objects. -/
theorem Inv.create (h : Inv st) (hnull : st.sInstance = .null)
    (hstack : st.stack t = .op o .getInstance :: rest) :
    Inv ({ st with sInstance := .alive, thread := .alive }.setStack t (.op o .deref :: rest)) := by
  have hshape := h.shape t
  rw [hstack] at hshape
  refine h.update (t := t) rfl h.crashed (hshape.change rfl fun o' ho' => by cases ho')
    (fun ht f hf => ?_) (fun _ => Pointer.noConfusion) (fun _ _ _ => Pointer.noConfusion)
    (fun t' _ f _ hf => ?_) (fun f hf => ?_) (fun f hf hin => ?_)
    (fun _ _ _ => ⟨Pointer.noConfusion, fun _ => h.null hnull⟩) (fun hnull' => ?_) h.once h.trace
  · rcases List.mem_cons.1 hf with rfl | hf
    · rfl
    · exact h.log_below hstack ht f hf
  · cases f with
    | op o pc =>
      cases pc with
      | getInstance => exact Or.inr ⟨rfl, fun _ => rfl⟩
      | _ => exact ⟨rfl, fun _ => rfl⟩
    | path p pc =>
      cases pc with
      | check => trivial
      | _ => exact Pointer.noConfusion (hnull.symm.trans hf.1)
    | _ => trivial
  · obtain rfl := Option.some.inj hf
    exact ⟨rfl, fun _ => rfl⟩
  · obtain rfl := Option.some.inj hf
    cases hin
  · cases hnull'

theorem Inv.opStep (h : Inv st) {pc : OpPc} (hstack : st.stack t = .op o pc :: rest) :
    Inv (opStep st t o rest more pc) := by
  have hfacts := h.head hstack
  cases pc with
  | getInstance =>
    rcases hfacts with hnull | hready
    · simp only [LifeCycle.opStep, hnull, if_true]
      exact h.create hnull hstack
    · simp only [LifeCycle.opStep, hready.1, reduceCtorEq, if_false]
      exact h.opNext hstack hready fun hpc => by cases hpc
  | deref =>
    obtain ⟨halive, hthread⟩ := hfacts
    obtain ⟨st₁, h₁, heq, halive₁, hthread₁, hstack₁, -⟩ := h.useInstance halive fun st =>
      st.setStack t (if o.usesThread then .op o .access :: rest else rest)
    have hstack' := (congrFun hstack₁ t).trans hstack
    rw [LifeCycle.opStep, heq]
    split_ifs with huses
    · exact h₁.opNext hstack' ⟨halive₁, fun _ => hthread₁.trans (hthread huses)⟩ fun _ => huses
    · exact h₁.opDone hstack'
  | access =>
    obtain ⟨halive, hthread⟩ := hfacts
    have huses : o.usesThread = true := by
      refine (h.shape t).access o ?_
      rw [hstack]
      exact List.mem_cons_self
    obtain ⟨st₁, h₁, heq, halive₁, hthread₁, hstack₁, -⟩ :=
      h.useThread halive (hthread huses) fun st =>
        st.setStack t (if more && o.usesAgain then .op o .access :: rest else rest)
    have hstack' := (congrFun hstack₁ t).trans hstack
    rw [LifeCycle.opStep, heq]
    split_ifs
    · exact h₁.opNext hstack' ⟨halive₁, fun _ => hthread₁⟩ fun _ => huses
    · exact h₁.opDone hstack'

/-! ## The steps of the two paths -/

theorem Inv.outside (h : Inv st) {f : Frame} (hstack : st.stack t = f :: rest)
    (hf : f.inside = true) :
    ∀ t', t' ≠ t → ∀ f' ∈ (st.stack t').head?, f'.inside = false := by
  intro t' ht f' hf'
  by_contra hin
  refine ht (h.single t t' f (by rw [hstack]; rfl) f' hf' hf ?_).symm
  exact Bool.eq_true_of_not_eq_false hin

/-- A step on a path, while nobody else is inside one. -/
theorem Inv.onPath {st' : State} (h : Inv st) {pc : PathPc}
    (hstack : st.stack t = .path p pc :: rest)
    (hl : l = rest ∨ ∃ pc', l = .path p pc' :: rest ∧ TopFacts st' (.path p pc'))
    (hst : st'.stack = Function.update st.stack t l) (hcrashed : st'.crashed = false)
    (hinst : st'.sInstance ≠ .null)
    (hout : ∀ t', t' ≠ t → ∀ f ∈ (st.stack t').head?, f.inside = false)
    (hops : ∀ t', t' ≠ t → ∀ o pc, .op o pc ∈ (st.stack t').head? → TopFacts st (.op o pc) →
      TopFacts st' (.op o pc))
    (hidle : (∀ f ∈ l.head?, f.inside = false) → st'.sInstance = .alive →
      st'.thread ≠ .deleted ∧ (st'.thread = .alive → st'.trace.countP Obs.isTerminated = 0))
    (honce : st'.trace.countP Obs.isTerminated ≤ 1) (htrace : ∀ o ∈ st'.trace, o.fine) :
    Inv st' := by
  have hshape := h.shape t
  have hlog : t ≠ .log := h.not_log (f := .path p pc) (by rw [hstack]; exact List.mem_cons_self) rfl
  rw [hstack] at hshape
  have hbase := hshape.base rfl
  refine h.update hst hcrashed ?_ (fun ht => absurd ht hlog) (fun _ => hinst)
    (fun _ _ _ => hinst) (fun t' ht f hf hfacts => ?_) (fun f hf => ?_)
    (fun _ _ _ => hout) (fun hnone _ => hidle hnone) (fun hnull => absurd hnull hinst) honce htrace
  · rcases hl with rfl | ⟨pc', rfl, -⟩
    · exact hshape.tail
    · exact hshape.change rfl fun o ho => by cases ho
  · have hin := hout t' ht f hf
    cases f with
    | op o pc => exact hops t' ht o pc hf hfacts
    | path p' pc' =>
      cases pc' with
      | check => trivial
      | _ => cases hin
    | _ => trivial
  · rcases hl with rfl | ⟨pc', rfl, hfacts⟩
    · exact topFacts_of_base (hbase f hf)
    · obtain rfl := Option.some.inj hf
      exact hfacts

/-- Behind the test of `m_thread` while nobody else is, so the thread is still to be terminated or
cleared away. -/
theorem Inv.check (h : Inv st) (hstack : st.stack t = .path p .check :: rest)
    (hlive : st.sInstance ≠ .deleted)
    (hothers : ∀ t', t' ≠ t → ∀ f ∈ st.stack t', f.inside = false) {st' : State}
    (hstep : pathStep st t p rest .check = some st') : Inv st' := by
  have halive : st.sInstance = .alive := by
    have hnull := h.later t (.path p .check) (by rw [hstack]; exact List.mem_cons_self) rfl
    cases hs : st.sInstance with
    | alive => rfl
    | null => exact absurd hs hnull
    | deleted => exact absurd hs hlive
  obtain ⟨st₁, h₁, heq, halive₁, hthread₁, hstack₁, -⟩ := h.useInstance halive fun st =>
    if st.thread = .null then
      st.setStack t (if p = Path.terminate then rest else .path p .free :: rest)
    else st.setStack t (.path p .terminate :: rest)
  have hstack' := (congrFun hstack₁ t).trans hstack
  have hout : ∀ t', t' ≠ t → ∀ f ∈ (st₁.stack t').head?, f.inside = false := by
    intro t' ht f hf
    rw [hstack₁] at hf
    exact hothers t' ht f (List.mem_of_mem_head? hf)
  have hidle := h₁.idle (fun t' f hf => by
    by_cases ht : t' = t
    · rw [ht, hstack'] at hf
      obtain rfl := Option.some.inj hf
      rfl
    · exact hout t' ht f hf) halive₁
  have hnull := Pointer.ne_null halive₁
  rw [LifeCycle.pathStep, heq, Option.some.injEq] at hstep
  subst hstep
  split_ifs with hthread hpath
  · exact h₁.onPath hstack' (Or.inl rfl) rfl h₁.crashed hnull hout (fun _ _ _ _ _ hf => hf)
      (fun _ _ => hidle) h₁.once h₁.trace
  · have hfree : st₁.thread ≠ .alive := by
      rw [hthread]
      exact Pointer.noConfusion
    exact h₁.onPath hstack' (Or.inr ⟨.free, rfl, halive₁, hfree⟩) rfl h₁.crashed hnull hout
      (fun _ _ _ _ _ hf => hf) (fun _ _ => hidle) h₁.once h₁.trace
  · have hthread' : st₁.thread = .alive := by
      cases hs : st₁.thread with
      | alive => rfl
      | null => exact absurd hs hthread
      | deleted => exact absurd hs hidle.1
    exact h₁.onPath hstack' (Or.inr ⟨.terminate, rfl, halive₁, hthread', hidle.2 hthread'⟩) rfl
      h₁.crashed hnull hout (fun _ _ _ _ _ hf => hf) (fun _ _ => hidle) h₁.once h₁.trace

/-- The first to call `m_thread->terminate()`, and not the log thread. -/
theorem Inv.terminate (h : Inv st) (hstack : st.stack t = .path p .terminate :: rest) {st' : State}
    (hstep : pathStep st t p rest .terminate = some st') : Inv st' := by
  obtain ⟨halive, hthread, hzero⟩ := h.head hstack
  have hlog : t ≠ .log := h.not_log (f := .path p .terminate)
    (by rw [hstack]; exact List.mem_cons_self) rfl
  obtain ⟨st₁, h₁, heq, halive₁, hthread₁, hstack₁, hcount⟩ := h.useThread halive hthread fun st =>
    { st.observe (.terminated t) with doTerminate := true, crashed := t = Thread.log }.setStack t
      (.path p .join :: rest)
  have hstack' := (congrFun hstack₁ t).trans hstack
  have hone : (st₁.trace ++ [Obs.terminated t]).countP Obs.isTerminated = 1 := by
    rw [List.countP_append, hcount, hzero]
    rfl
  rw [LifeCycle.pathStep, heq, Option.some.injEq] at hstep
  subst hstep
  refine h₁.onPath hstack' (Or.inr ⟨.join, rfl, halive₁, hthread₁⟩) rfl (decide_eq_false hlog) ?_
    (h₁.outside hstack' rfl) (fun _ _ o pc _ hf => ?_) (fun hnone => ?_) hone.le (fun o ho => ?_)
  · exact Pointer.ne_null halive₁
  · cases pc <;> exact hf
  · cases hnone _ rfl
  · rcases List.mem_append.1 ho with hold | hnew
    · exact h₁.trace o hold
    · rw [List.mem_singleton.1 hnew]
      exact hlog

theorem Inv.join (h : Inv st) (hstack : st.stack t = .path p .join :: rest) :
    Inv (st.setStack t (.path p .delete :: rest)) := by
  obtain ⟨halive, hthread⟩ := h.head hstack
  refine h.onPath hstack (Or.inr ⟨.delete, rfl, halive, hthread⟩) rfl h.crashed ?_
    (h.outside hstack rfl) (fun _ _ o pc _ hf => hf) (fun hnone => ?_) h.once h.trace
  · exact Pointer.ne_null halive
  · cases hnone _ rfl

/-- No operation of another thread is to use the deleted log thread. -/
theorem Inv.delete (h : Inv st) (hstack : st.stack t = .path p .delete :: rest)
    (hothers : ∀ t', t' ≠ t → ∀ o pc, .op o pc ∈ st.stack t' → o.usesThread = false) {st' : State}
    (hstep : pathStep st t p rest .delete = some st') : Inv st' := by
  obtain ⟨halive, hthread⟩ := h.head hstack
  obtain ⟨st₁, h₁, heq, halive₁, -, hstack₁, -⟩ := h.useThread halive hthread fun st =>
    { st with thread := .deleted }.setStack t
      (.path p (if p = Path.terminate then .clear else .free) :: rest)
  have hstack' := (congrFun hstack₁ t).trans hstack
  rw [LifeCycle.pathStep, heq, Option.some.injEq] at hstep
  subst hstep
  refine h₁.onPath hstack' (Or.inr ⟨_, rfl, ?_⟩) rfl h₁.crashed ?_ (h₁.outside hstack' rfl)
    (fun t' ht o pc hmem hf => ?_) (fun hnone => ?_) h₁.once h₁.trace
  · split_ifs
    · exact ⟨halive₁, rfl⟩
    · exact ⟨halive₁, Pointer.noConfusion⟩
  · exact Pointer.ne_null halive₁
  · rw [hstack₁] at hmem
    have huses := hothers t' ht o pc (List.mem_of_mem_head? hmem)
    have hno {x : Pointer} : o.usesThread = true → x = .alive := by
      rw [huses]
      exact fun hu => by cases hu
    cases pc with
    | getInstance => exact Or.inr ⟨halive₁, hno⟩
    | _ => exact ⟨halive₁, hno⟩
  · have hin := hnone _ rfl
    split_ifs at hin <;> cases hin

/-- What could have used the thread no longer runs. -/
theorem Inv.clear (h : Inv st) (hstack : st.stack t = .path p .clear :: rest) {st' : State}
    (hstep : pathStep st t p rest .clear = some st') : Inv st' := by
  obtain ⟨halive, hthread⟩ := h.head hstack
  obtain ⟨st₁, h₁, heq, halive₁, hthread₁, hstack₁, -⟩ := h.useInstance halive fun st =>
    { st with thread := .null }.setStack t rest
  have hstack' := (congrFun hstack₁ t).trans hstack
  rw [LifeCycle.pathStep, heq, Option.some.injEq] at hstep
  subst hstep
  refine h₁.onPath hstack' (Or.inl rfl) rfl h₁.crashed ?_ (h₁.outside hstack' rfl)
    (fun t' ht o pc hmem hf => ?_) (fun _ _ => ⟨Pointer.noConfusion, Pointer.noConfusion⟩) h₁.once
    h₁.trace
  · exact Pointer.ne_null halive₁
  · have hno {x : Pointer} (hready : Ready st₁ o) : o.usesThread = true → x = .alive := fun hu =>
      Pointer.noConfusion ((hready.2 hu).symm.trans (hthread₁.trans hthread))
    cases pc with
    | getInstance =>
      rcases hf with hnull | hready
      · exact Pointer.noConfusion (halive₁.symm.trans hnull)
      · exact Or.inr ⟨hready.1, hno hready⟩
    | _ => exact ⟨hf.1, hno hf⟩

/-- No operation of another thread is in progress when the instance is deleted. -/
theorem Inv.free (h : Inv st) (hstack : st.stack t = .path p .free :: rest)
    (hothers : ∀ t', t' ≠ t → ∀ o pc, .op o pc ∉ st.stack t') {st' : State}
    (hstep : pathStep st t p rest .free = some st') : Inv st' := by
  obtain ⟨halive, -⟩ := h.head hstack
  obtain ⟨st₁, h₁, heq, -, -, hstack₁, -⟩ := h.useInstance halive fun st =>
    { st with sInstance := .deleted }.setStack t rest
  have hstack' := (congrFun hstack₁ t).trans hstack
  rw [LifeCycle.pathStep, heq, Option.some.injEq] at hstep
  subst hstep
  refine h₁.onPath hstack' (Or.inl rfl) rfl h₁.crashed Pointer.noConfusion (h₁.outside hstack' rfl)
    (fun t' ht o pc hmem _ => ?_) (fun _ => Pointer.noConfusion) h₁.once h₁.trace
  rw [hstack₁] at hmem
  exact absurd (List.mem_of_mem_head? hmem) (hothers t' ht o pc)

/-! ## Runs -/

theorem Inv.run (h : Inv st) (hord : Orderly st (.move t (.run more))) {st' : State}
    (hstep : moveStep st t (.run more) = some st') : Inv st' := by
  cases hstack : st.stack t with
  | nil => simp [moveStep, hstack] at hstep
  | cons f rest =>
    cases f with
    | op o pc =>
      simp only [moveStep, hstack, Option.some.injEq] at hstep
      subst hstep
      exact h.opStep hstack
    | path p pc =>
      simp only [moveStep, hstack] at hstep
      simp only [Orderly, hstack] at hord
      cases pc with
      | check => exact h.check hstack hord.1 hord.2 hstep
      | terminate => exact h.terminate hstack hstep
      | join =>
        simp only [pathStep, Option.ite_none_right_eq_some, Option.some.injEq] at hstep
        obtain ⟨-, rfl⟩ := hstep
        exact h.join hstack
      | delete => exact h.delete hstack hord hstep
      | clear => exact h.clear hstack hstep
      | free => exact h.free hstack hord hstep
    | handler terminated => simp [moveStep, hstack] at hstep
    | exiting => simp [moveStep, hstack] at hstep

theorem Inv.crash (h : Inv st) (hlog : t ≠ .log) (hout : ∀ f ∈ st.stack t, f.inside = false)
    (hinst : st.sInstance ≠ .null) : Inv (st.setStack t (.handler false :: st.stack t)) := by
  refine h.setStack ((h.shape t).cons (Or.inl rfl) (fun g hg => hout g (List.mem_of_mem_head? hg))
    fun o ho => by cases ho) (fun ht => absurd ht hlog) (fun _ _ _ => hinst) (fun f hf => ?_)
    (fun f hf => ?_) fun f hf => hout f (List.mem_of_mem_head? hf)
  · obtain rfl := Option.some.inj hf
    trivial
  · obtain rfl := Option.some.inj hf
    rfl

/-- A path begins on a handler or on `exit`. -/
theorem Inv.push (h : Inv st) {b b' : Frame} (hstack : st.stack t = b :: rest)
    (hlog : t ≠ .log) (hb : b'.isBase = true) (hbase : b.isBase = true)
    (hinst : st.sInstance ≠ .null) : Inv (st.setStack t (.path p .check :: b' :: rest)) := by
  have hshape := h.shape t
  rw [hstack] at hshape
  have hbelow : ∀ g ∈ rest.head?, g.inside = false := fun g hg =>
    hshape.below g (List.mem_of_mem_head? hg)
  have hlower : Shape (b' :: rest) :=
    hshape.tail.cons (Or.inl hb) hbelow fun o ho => by rw [ho] at hb; cases hb
  refine h.setStack (hlower.cons (Or.inr fun g hg => ?_) (fun g hg => ?_) fun o ho => by cases ho)
    (fun ht => absurd ht hlog) (fun _ _ _ => hinst) (fun f hf => ?_) (fun f hf => ?_) fun f hf => ?_
  · obtain rfl := Option.some.inj hg
    exact hb
  · obtain rfl := Option.some.inj hg
    exact Frame.not_inside hb
  · obtain rfl := Option.some.inj hf
    trivial
  · obtain rfl := Option.some.inj hf
    rfl
  · rw [hstack] at hf
    obtain rfl := Option.some.inj hf
    exact Frame.not_inside hbase

/-- The interrupted operation finds what it needs. -/
theorem Inv.resume (h : Inv st) (hstack : st.stack t = .handler true :: rest)
    (hu : ∀ o pc, .op o pc ∈ st.stack t → Usable st o) : Inv (st.setStack t rest) := by
  have hshape := h.shape t
  have hinst := h.later t (.handler true) (by rw [hstack]; exact List.mem_cons_self) rfl
  rw [hstack] at hshape hu
  refine h.pop hstack rfl fun g hg => ?_
  have hmem := List.mem_of_mem_head? hg
  cases g with
  | op o pc =>
    have husable := hu o pc (List.mem_cons_of_mem _ hmem)
    have hready : Ready st o := husable.resolve_left hinst
    cases pc with
    | getInstance => exact husable
    | _ => exact hready
  | path p pc =>
    have hin := hshape.below _ hmem
    cases pc with
    | check => trivial
    | _ => cases hin
  | _ => trivial

theorem Inv.exit (h : Inv st) (hlog : t ≠ .log)
    (hbase : ∀ f ∈ (st.stack t).head?, f.isBase = true) :
    Inv (st.setStack t (.exiting :: st.stack t)) := by
  have hout : ∀ f ∈ (st.stack t).head?, f.inside = false := fun f hf =>
    Frame.not_inside (hbase f hf)
  refine h.setStack ((h.shape t).cons (Or.inl rfl) hout fun o ho => by cases ho)
    (fun ht => absurd ht hlog) (fun f hf hlater => ?_) (fun f hf => ?_) (fun f hf => ?_) hout
  · rcases List.mem_cons.1 hf with rfl | hf
    · cases hlater
    · exact h.later t f hf hlater
  · obtain rfl := Option.some.inj hf
    trivial
  · obtain rfl := Option.some.inj hf
    rfl

theorem Inv.move (h : Inv st) {m : Move} (hord : Orderly st (.move t m)) {st' : State}
    (hstep : moveStep st t m = some st') : Inv st' := by
  cases m with
  | call o =>
    simp only [moveStep, Option.ite_none_right_eq_some, Option.some.injEq] at hstep
    obtain ⟨hcall, rfl⟩ := hstep
    exact h.call hcall hord
  | run more => exact h.run hord hstep
  | crash =>
    simp only [moveStep, Option.ite_none_left_eq_some, Option.some.injEq, not_or] at hstep
    obtain ⟨⟨hinst, -⟩, rfl⟩ := hstep
    exact h.crash hord.1 hord.2 hinst
  | terminate =>
    cases hstack : st.stack t with
    | nil => simp [moveStep, hstack] at hstep
    | cons f rest =>
      cases f with
      | handler terminated =>
        cases terminated with
        | false =>
          simp only [moveStep, hstack, Option.some.injEq] at hstep
          subst hstep
          have hmem : .handler false ∈ st.stack t := by
            rw [hstack]
            exact List.mem_cons_self
          exact h.push hstack (h.not_log hmem rfl) rfl rfl (h.later t _ hmem rfl)
        | true => simp [moveStep, hstack] at hstep
      | _ => simp [moveStep, hstack] at hstep
  | resume =>
    cases hstack : st.stack t with
    | nil => simp [moveStep, hstack] at hstep
    | cons f rest =>
      cases f with
      | handler terminated =>
        cases terminated with
        | false => simp [moveStep, hstack] at hstep
        | true =>
          simp only [moveStep, hstack, Option.some.injEq] at hstep
          subst hstep
          exact h.resume hstack hord
      | _ => simp [moveStep, hstack] at hstep
  | exit =>
    cases hstack : st.stack t with
    | nil =>
      simp only [moveStep, hstack, Option.some.injEq] at hstep
      subst hstep
      rw [← hstack]
      exact h.exit hord fun f hf => by simp [hstack] at hf
    | cons f rest =>
      cases f with
      | handler terminated =>
        cases terminated with
        | false => simp [moveStep, hstack] at hstep
        | true =>
          simp only [moveStep, hstack, Option.some.injEq] at hstep
          subst hstep
          rw [← hstack]
          refine h.exit hord fun f hf => ?_
          rw [hstack] at hf
          obtain rfl := Option.some.inj hf
          rfl
      | _ => simp [moveStep, hstack] at hstep
  | atexit =>
    cases hstack : st.stack t with
    | nil => simp [moveStep, hstack] at hstep
    | cons f rest =>
      cases f with
      | exiting =>
        simp only [moveStep, hstack, Option.ite_none_left_eq_some, Option.some.injEq, not_or]
          at hstep
        obtain ⟨⟨-, hinst⟩, rfl⟩ := hstep
        have hmem : .exiting ∈ st.stack t := by
          rw [hstack]
          exact List.mem_cons_self
        have h' : Inv { st with atexitCalled := true } :=
          ⟨h.crashed, h.shape, h.log, h.later, h.top, h.single, h.idle, h.null, h.once, h.trace⟩
        exact h'.push hstack (h.not_log hmem rfl) rfl rfl hinst
      | _ => simp [moveStep, hstack] at hstep

theorem Inv.step (h : Inv st) {a : Action} (hord : Orderly st a) {st' : State}
    (hstep : step st a = some st') : Inv st' := by
  unfold LifeCycle.step at hstep
  split at hstep
  · cases hstep
  cases a with
  | move t m =>
    simp only [Option.ite_none_right_eq_some] at hstep
    exact h.move hord hstep.2
  | logEnds =>
    simp only [Option.ite_none_right_eq_some, Option.some.injEq] at hstep
    obtain ⟨-, rfl⟩ := hstep
    exact ⟨h.crashed, h.shape, h.log, h.later, h.top, h.single, h.idle, h.null, h.once, h.trace⟩

end Steps

/-- In every orderly run the logger is safe. -/
theorem safe_of_reach (st : State) (h : system.Reach Orderly st) : Safe st := by
  refine Inv.safe (h.invariant ?_ fun _ _ _ _ hI hok hstep => hI.step hok hstep)
  rintro st rfl
  exact Inv.init

/-! ## A crash -/

/-- A move of the first thread. -/
def first (m : Move) : Action :=
  .move (.app 0) m

/-- The thread logs, crashes, and terminates the log thread. -/
def crashed : List Action :=
  [first (.call .log), first (.run false), first (.run false), first (.run false), first .crash,
    first .terminate, first (.run false), first (.run false), .logEnds, first (.run false),
    first (.run false), first (.run false)]

/-- What can be seen of it. -/
def crashSeen : List Obs :=
  [.usedInstance .alive, .usedInstance .alive, .usedThread .alive, .usedInstance .alive,
    .usedInstance .alive, .usedThread .alive, .terminated (.app 0), .usedInstance .alive,
    .usedThread .alive, .usedInstance .alive]

theorem forall_ne_first {P : Thread → Prop} (hlog : P .log) (happ : ∀ n, P (.app (n + 1)))
    (t : Thread)
    (ht : t ≠ .app 0) : P t := by
  cases t with
  | log => exact hlog
  | app n =>
    cases n with
    | zero => exact absurd rfl ht
    | succ n => exact happ n

/-- No other thread does anything meanwhile. -/
theorem safe_crash : ∃ st, st.trace = crashSeen ∧ Safe st := by
  have h₀ : system.Reach Orderly start := .init rfl
  have h₁ := h₀.step (a := first (.call .log)) (Or.inl rfl) rfl
  have h₂ := h₁.step (a := first (.run false)) trivial rfl
  have h₃ := h₂.step (a := first (.run false)) trivial rfl
  have h₄ := h₃.step (a := first (.run false)) trivial rfl
  have h₅ := h₄.step (a := first .crash) ⟨Thread.noConfusion, fun _ h => by cases h⟩ rfl
  have h₆ := h₅.step (a := first .terminate) trivial rfl
  have h₇ := h₆.step (a := first (.run false)) ⟨Pointer.noConfusion,
    forall_ne_first (fun _ h => by cases h) fun _ _ h => by cases h⟩ rfl
  have h₈ := h₇.step (a := first (.run false)) trivial rfl
  have h₉ := h₈.step (a := Action.logEnds) trivial rfl
  have h₁₀ := h₉.step (a := first (.run false)) trivial rfl
  have h₁₁ := h₁₀.step (a := first (.run false))
    (forall_ne_first (fun _ _ h => by cases h) fun _ _ _ h => by cases h) rfl
  have h₁₂ := h₁₁.step (a := first (.run false)) trivial rfl
  exact ⟨_, rfl, safe_of_reach _ h₁₂⟩

/-- Another thread logs afterwards. -/
def loggedLater : List Action :=
  crashed ++ [.move (.app 1) (.call .log), .move (.app 1) (.run false),
    .move (.app 1) (.run false), .move (.app 1) (.run false)]

/-- It finds no log thread. -/
theorem logged_after_crash : ¬∀ st, system.Reachable st → Safe st := by
  intro h
  obtain ⟨st, hreach, hst⟩ := System.exists_reach (T := system) (b := fun _ _ => true)
    (p := fun _ _ => True) (fun _ _ _ => trivial) rfl loggedLater
    (fun st => decide (.usedThread .null ∈ st.trace)) rfl
  cases (h st hreach).thread .null (of_decide_eq_true hst)

end Logfile.LifeCycle
