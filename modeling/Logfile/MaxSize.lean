import Logfile.Rotation

/-!
# The maximum size of log files

Where no operation fails, a file with more than one message fits in the maximum size, the footer
included that is still to be written (`maxsize_of_reach`).

`moments` are the states inside an action, behind each operation on a file. The invariant
`Tight` is what holds when `do_write` looks at `tellp`, which is the size of the file then.
-/

namespace Logfile

namespace FileStream

variable (p : FileParams)

/-! ## The states inside an action -/

namespace State

variable (st : State)

/-- `m_stream.close()` of `close` -/
def shut (env : CloseEnv) : State :=
  let st := st.put none logFooter env.footer
  { st with stream := st.stream.close env.close, archivings := st.archivings ++ [env.now] }

/-- The states of `close`. -/
def closeMoments (env : CloseEnv) : List State :=
  [st.put none logFooter env.footer, st.shut env, (st.closeLog p env).2]

/-- The states of `open` when the way is free. -/
def startMoments (env : OpenEnv) : List State :=
  [st.fopen p env.fopen, (st.start p env).2]

/-- The states of `open`. -/
def openMoments (env : OpenEnv) : List State :=
  if st.exists p && env.stat then
    let (ok, st) := st.archive p (env.mtime.time p) env.rename
    st :: if ok then st.startMoments p env else []
  else st.startMoments p env

/-- The states of `do_write` behind the check of `m_isopen`. -/
def lineMoments (le : LogEvent) (env : WriteEnv) : List State :=
  (if st.full p (logLine le) then
    st.closeMoments p env.close ++ (st.closeLog p env.close).2.openMoments p env.second
  else []) ++ [(st.writeLine p le env).2]

end State

/-- The states of an action. -/
def moments (st : State) : Action → List State
  | .construct env => st.openMoments p env
  | .write le env =>
    if st.isopen then st.lineMoments p le env
    else
      st.openMoments p env.first ++
        let (ok, st) := st.openLog p env.first
        if ok then st.lineMoments p le env else []
  | .destroy env => st.closeMoments p env

/-! The last of the states is the one behind the action. -/

section Last

variable {p} {st st' : State} {a : Action}

theorem openMoments_getLast (env : OpenEnv) :
    (st.openMoments p env).getLast? = some (st.openLog p env).2 := by
  unfold State.openMoments State.openLog
  split
  · cases h : st.archive p (env.mtime.time p) env.rename with
    | mk ok st' =>
    cases ok with
    | true => rfl
    | false => rfl
  · rfl

theorem lineMoments_getLast (le : LogEvent) (env : WriteEnv) :
    (st.lineMoments p le env).getLast? = some (st.writeLine p le env).2 := by
  simp [State.lineMoments]

theorem doWrite_getLast (le : LogEvent) (env : WriteEnv) :
    (moments p st (.write le env)).getLast? = some (st.doWrite p le env).2 := by
  unfold moments State.doWrite
  dsimp only
  split
  · exact lineMoments_getLast le env
  · rw [List.getLast?_append, openMoments_getLast]
    split
    · rw [lineMoments_getLast]
      rfl
    · rfl

theorem moments_getLast (h : step p st a = some st') :
    ∃ s, (moments p st a).getLast? = some s ∧ s.fs = st'.fs ∧ s.stream = st'.stream := by
  cases a with
  | construct env =>
    simp only [step, Option.ite_none_right_eq_some, Option.some.injEq] at h
    obtain ⟨-, rfl⟩ := h
    exact ⟨_, openMoments_getLast env, rfl, rfl⟩
  | write le env =>
    simp only [step, Option.ite_none_right_eq_some, Option.some.injEq] at h
    obtain ⟨-, rfl⟩ := h
    exact ⟨_, doWrite_getLast le env, rfl, rfl⟩
  | destroy env =>
    simp only [step, Option.ite_none_right_eq_some, Option.some.injEq] at h
    obtain ⟨-, rfl⟩ := h
    exact ⟨_, rfl, rfl, rfl⟩

end Last

/-! ## What is asked of them -/

/-- The messages in a file. -/
def messages (cs : List (Chunk (Option ℕ))) : ℕ :=
  cs.countP (·.source.isSome)

/-- The bytes of a file. -/
def size (cs : List (Chunk (Option ℕ))) : ℕ :=
  (cs.map (·.bytes.length)).sum

/-- The footer of the file is still to be written. -/
def AwaitsFooter (st : State) (i : ℕ) : Prop :=
  st.stream.file = some i ∧ ⟨none, logFooter⟩ ∉ st.fs.files i

instance (st : State) (i : ℕ) : Decidable (AwaitsFooter st i) :=
  inferInstanceAs (Decidable (_ ∧ _))

/-- The bytes that the file has when it is closed. -/
def totalSize (st : State) (i : ℕ) : ℕ :=
  size (st.fs.files i) + if AwaitsFooter st i then logFooter.length else 0

/-- A file has at most one message of the stream, or it keeps to the maximum size. A file that
was there before the stream has none of its messages. -/
def RespectsMaxsize (st : State) : Prop :=
  ∀ i, messages (st.fs.files i) ≤ 1 ∨ (totalSize st i : ℤ) ≤ p.maxsize

/-! ## The invariant -/

/-- At most one message, or as small as it has to be. -/
def Bounded (cs : List (Chunk (Option ℕ))) (more : ℕ) : Prop :=
  messages cs ≤ 1 ∨ (size cs + more : ℤ) ≤ p.maxsize

/-- The files keep to the bound, and the position in the open one is its size. -/
structure Tight (st : State) : Prop where
  closed : ∀ i, st.stream.file ≠ some i → Bounded p (st.fs.files i) 0
  pos : ∀ i, st.stream.file = some i → st.stream.pos = size (st.fs.files i)
  footer : ∀ i, st.stream.file = some i → ⟨none, logFooter⟩ ∉ st.fs.files i
  current : ∀ i, st.stream.file = some i → Bounded p (st.fs.files i) logFooter.length

@[simp] theorem size_concat (cs : List (Chunk (Option ℕ))) (c : Chunk (Option ℕ)) :
    size (cs ++ [c]) = size cs + c.bytes.length := by
  simp [size]

@[simp] theorem messages_concat_none (cs : List (Chunk (Option ℕ))) (text : Bytes) :
    messages (cs ++ [⟨none, text⟩]) = messages cs := by
  simp [messages]

@[simp] theorem messages_concat_some (cs : List (Chunk (Option ℕ))) (k : ℕ) (text : Bytes) :
    messages (cs ++ [⟨some k, text⟩]) = messages cs + 1 := by
  simp [messages]

variable {p} {st : State} {i : ℕ}

theorem Tight.respects (h : Tight p st) : RespectsMaxsize p st := by
  intro i
  by_cases hfile : st.stream.file = some i
  · have hbound := h.current i hfile
    have hawaits : AwaitsFooter st i := ⟨hfile, h.footer i hfile⟩
    rw [totalSize, if_pos hawaits]
    exact_mod_cast hbound
  · have hbound := h.closed i hfile
    have hawaits : ¬AwaitsFooter st i := fun h => hfile h.1
    rw [totalSize, if_neg hawaits]
    exact_mod_cast hbound

/-- Nothing is open. -/
theorem Tight.of_closed (hfile : st.stream.file = none)
    (h : ∀ i, Bounded p (st.fs.files i) 0) : Tight p st := by
  have hno : ∀ i, st.stream.file ≠ some i := by
    intro i hi
    cases hfile.symm.trans hi
  exact ⟨fun i _ => h i, fun i hi => absurd hi (hno i), fun i hi => absurd hi (hno i),
    fun i hi => absurd hi (hno i)⟩

theorem Tight.bounded (h : Tight p st) (hfile : st.stream.file = none) (i : ℕ) :
    Bounded p (st.fs.files i) 0 := by
  refine h.closed i fun hi => ?_
  cases hfile.symm.trans hi

/-- What is written goes to the open file. -/
theorem put_files (h : st.Writable p i) (source : Option ℕ) (text : Bytes) (j : ℕ) :
    (st.put source text none).fs.files j =
      if j = i then st.fs.files j ++ [⟨source, text⟩] else st.fs.files j := by
  rw [State.put_of_writable h]
  exact FileSystem.append_files _ _ _ _

/-! ## Closing -/

section Close

variable {env : CloseEnv}

/-- The footer has its place. -/
theorem bounded_footer (ht : Tight p st) (h : st.Writable p i) (j : ℕ) :
    Bounded p ((st.put none logFooter none).fs.files j) 0 := by
  rw [put_files h]
  split_ifs with hj
  · subst hj
    rcases ht.current j h.file with hone | hsize
    · exact .inl (by simpa using hone)
    · right
      rw [size_concat]
      push_cast at hsize ⊢
      omega
  · refine ht.closed j ?_
    rw [h.file]
    simpa using Ne.symm hj

theorem respects_footer (ht : Tight p st) (h : st.Writable p i) :
    RespectsMaxsize p (st.put none logFooter none) := by
  intro j
  have hawaits : ¬AwaitsFooter (st.put none logFooter none) j := by
    rintro ⟨hfile, hnot⟩
    rw [State.put, Ofstream.put_file, h.file] at hfile
    obtain rfl := Option.some.inj hfile
    exact hnot (by rw [put_files h, if_pos rfl]; simp)
  rw [totalSize, if_neg hawaits]
  exact_mod_cast bounded_footer ht h j

theorem tight_shut (ht : Tight p st) (h : st.Writable p i) (henv : env.Succeeds) :
    Tight p (st.shut env) := by
  refine Tight.of_closed (Ofstream.close_file _ _) fun j => ?_
  simp only [State.shut, henv.footer]
  exact bounded_footer ht h j

theorem archive_files (t : ℤ) (ok : Bool) : (st.archive p t ok).2.fs.files = st.fs.files := by
  unfold State.archive
  split
  · rfl
  · rfl

theorem Tight.archive (ht : Tight p st) (t : ℤ) (ok : Bool) : Tight p (st.archive p t ok).2 := by
  refine ⟨?_, ?_, ?_, ?_⟩
  · rw [State.archive_stream, archive_files]
    exact ht.closed
  · rw [State.archive_stream, archive_files]
    exact ht.pos
  · rw [State.archive_stream, archive_files]
    exact ht.footer
  · rw [State.archive_stream, archive_files]
    exact ht.current

theorem tight_closeLog (ht : Tight p st) (h : st.Writable p i) (henv : env.Succeeds) :
    Tight p (st.closeLog p env).2 :=
  (tight_shut ht h henv).archive _ _

theorem respects_closeMoments (ht : Tight p st) (h : st.Writable p i) (henv : env.Succeeds) :
    ∀ s ∈ st.closeMoments p env, RespectsMaxsize p s := by
  intro s hs
  simp only [State.closeMoments, henv.footer, List.mem_cons, List.not_mem_nil, or_false] at hs
  rcases hs with rfl | rfl | rfl
  · exact respects_footer ht h
  · exact (tight_shut ht h henv).respects
  · exact (tight_closeLog ht h henv).respects

end Close

/-! ## Opening -/

section Open

variable {env : OpenEnv}

/-- A file that has just been created. -/
theorem create_files (name : Bytes) (j : ℕ) :
    (st.fs.create name).1.files j =
      if j = (st.fs.create name).2 then [] else st.fs.files j := by
  split_ifs with hj
  · rw [hj, FileSystem.create_files]
  · exact FileSystem.create_files_of_ne hj

theorem tight_fopen (ht : Tight p st) (hfile : st.stream.file = none) :
    Tight p (st.fopen p true) := by
  rw [State.fopen, Ofstream.openFile_of_closed hfile]
  have hnew : ∀ j, some (st.fs.create p.filename).2 = some j →
      (st.fs.create p.filename).1.files j = [] := by
    intro j hj
    rw [create_files, if_pos (Option.some.inj hj).symm]
  refine ⟨fun j hj => ?_, fun j hj => ?_, fun j hj => ?_, fun j hj => ?_⟩
  · dsimp only at hj ⊢
    rw [create_files, if_neg fun h => hj (by rw [h])]
    exact ht.bounded hfile j
  · dsimp only at hj ⊢
    rw [hnew j hj]
    rfl
  · dsimp only at hj ⊢
    rw [hnew j hj]
    exact List.not_mem_nil
  · dsimp only at hj ⊢
    rw [hnew j hj]
    exact .inl (Nat.zero_le 1)

/-- The files when the header is written. -/
theorem start_files (hfile : st.stream.file = none) (henv : env.Succeeds) :
    ∃ j, (st.start p env).2.Writable p j ∧ (st.start p env).2.stream.pos = logHeader.length ∧
      ∀ k, (st.start p env).2.fs.files k =
        if k = j then [⟨none, logHeader⟩] else st.fs.files k := by
  refine ⟨(st.fs.create p.filename).2, ?_⟩
  rw [State.start_of_closed hfile henv.fopen henv.header]
  refine ⟨⟨rfl, rfl, FileSystem.create_dir⟩, rfl, fun k => ?_⟩
  dsimp only
  rw [FileSystem.append_files, create_files]
  split_ifs
  · rfl
  · rfl

theorem tight_start (ht : Tight p st) (hfile : st.stream.file = none) (henv : env.Succeeds) :
    Tight p (st.start p env).2 := by
  obtain ⟨j, hj, hpos, hfiles⟩ := start_files (p := p) hfile henv
  have hnew : ∀ k, (st.start p env).2.stream.file = some k →
      (st.start p env).2.fs.files k = [⟨none, logHeader⟩] := by
    intro k hk
    rw [hfiles, if_pos (Option.some.inj (hk.symm.trans hj.file))]
  refine ⟨fun k hk => ?_, fun k hk => ?_, fun k hk => ?_, fun k hk => ?_⟩
  · rw [hfiles, if_neg fun h => hk (by rw [h, hj.file])]
    exact ht.bounded hfile k
  · rw [hnew k hk, hpos]
    rfl
  · rw [hnew k hk]
    decide
  · rw [hnew k hk]
    exact .inl (Nat.zero_le 1)

theorem respects_startMoments (ht : Tight p st) (hfile : st.stream.file = none)
    (henv : env.Succeeds) : ∀ s ∈ st.startMoments p env, RespectsMaxsize p s := by
  intro s hs
  simp only [State.startMoments, henv.fopen, List.mem_cons, List.not_mem_nil, or_false] at hs
  rcases hs with rfl | rfl
  · exact (tight_fopen ht hfile).respects
  · exact (tight_start ht hfile henv).respects

/-- `open` goes on with the way free. -/
theorem openLog_eq (hfile : st.stream.file = none) (henv : env.Succeeds) (ht : Tight p st) :
    ∃ st' : State, st'.stream.file = none ∧ Tight p st' ∧ st'.fs.files = st.fs.files ∧
      st.openLog p env = st'.start p env ∧
        ∀ s ∈ st.openMoments p env, s = st' ∨ s ∈ st'.startMoments p env := by
  cases hexists : st.exists p with
  | true =>
    refine ⟨(st.archive p (env.mtime.time p) true).2, ?_, ht.archive _ _, archive_files _ _, ?_, ?_⟩
    · rw [State.archive_stream]
      exact hfile
    · simp [State.openLog, State.archive, hexists, henv.stat, henv.rename]
    · intro s hs
      simpa [State.openMoments, State.archive, hexists, henv.stat, henv.rename] using hs
  | false =>
    refine ⟨st, hfile, ht, rfl, by simp [State.openLog, hexists], fun s hs => .inr ?_⟩
    simpa [State.openMoments, hexists] using hs

/-- A log file is begun, without a message. -/
theorem openLog_tight (hfile : st.stream.file = none) (henv : env.Succeeds) (ht : Tight p st) :
    Tight p (st.openLog p env).2 ∧
      (∃ j, (st.openLog p env).2.Writable p j ∧
        messages ((st.openLog p env).2.fs.files j) = 0) ∧
      ∀ s ∈ st.openMoments p env, RespectsMaxsize p s := by
  obtain ⟨st', hfile', ht', -, heq, hmoments⟩ := openLog_eq hfile henv ht
  obtain ⟨j, hj, -, hfiles⟩ := start_files (p := p) hfile' henv
  rw [heq]
  refine ⟨tight_start ht' hfile' henv, ⟨j, hj, ?_⟩, fun s hs => ?_⟩
  · rw [hfiles, if_pos rfl]
    rfl
  · rcases hmoments s hs with rfl | hs
    · exact ht'.respects
    · exact respects_startMoments ht' hfile' henv s hs

end Open

/-! ## Writing -/

section Write

variable {le : LogEvent} {env : WriteEnv}

/-- A line that is the first one, or for which there is place in front of the footer. -/
theorem tight_line (ht : Tight p st) (h : st.Writable p i) (k : ℕ) {line : Bytes}
    (hfits : messages (st.fs.files i) = 0 ∨
      (st.stream.pos + (line.length + 12) : ℤ) ≤ p.maxsize) :
    Tight p (st.put (some k) line none) := by
  have hfiles := put_files h (some k) line
  have hnew : ∀ j, (st.put (some k) line none).stream.file = some j → j = i := by
    intro j hj
    rw [(h.put (some k) line).file] at hj
    exact (Option.some.inj hj).symm
  refine ⟨fun j hj => ?_, fun j hj => ?_, fun j hj => ?_, fun j hj => ?_⟩
  · have hne : j ≠ i := fun heq => hj (by rw [heq, (h.put (some k) line).file])
    rw [hfiles, if_neg hne]
    refine ht.closed j ?_
    rw [h.file]
    simpa using Ne.symm hne
  · obtain rfl := hnew j hj
    rw [hfiles, if_pos rfl, size_concat, ← ht.pos j h.file, State.put_of_writable h]
  · obtain rfl := hnew j hj
    rw [hfiles, if_pos rfl]
    simpa using ht.footer j h.file
  · obtain rfl := hnew j hj
    rw [hfiles, if_pos rfl]
    rcases hfits with hnone | hsize
    · exact .inl (by rw [messages_concat_some, hnone])
    · right
      have hfooter : logFooter.length = 11 := by decide
      rw [size_concat, ← ht.pos j h.file, hfooter]
      push_cast
      omega

theorem full_eq_false (h : st.Writable p i) {line : Bytes} (hfull : st.full p line = false) :
    (st.stream.pos + (line.length + 12) : ℤ) ≤ p.maxsize := by
  have htellp : st.stream.tellp = st.stream.pos := by
    simp [Ofstream.tellp, h.good, h.file]
  rw [State.full, htellp] at hfull
  simpa using hfull

/-- The line goes to a file with place for it, or to a new one. -/
theorem writeLine_tight (ht : Tight p st) (h : st.Writable p i) (henv : env.Succeeds) :
    Tight p (st.writeLine p le env).2 ∧ ∀ s ∈ st.lineMoments p le env, RespectsMaxsize p s := by
  cases hfull : st.full p (logLine le) with
  | true =>
    obtain ⟨ht', ⟨j, hj, hnone⟩, hmoments⟩ := openLog_tight
      (closeLog_file (p := p) st env.close) henv.second (tight_closeLog ht h henv.close)
    have hline : Tight p (st.writeLine p le env).2 := by
      simp only [State.writeLine, hfull, if_true, henv.line, State.rotate]
      exact tight_line ht' hj _ (.inl hnone)
    refine ⟨hline, fun s hs => ?_⟩
    simp only [State.lineMoments, hfull, if_true, List.mem_append, List.mem_singleton] at hs
    rcases hs with (hs | hs) | rfl
    · exact respects_closeMoments ht h henv.close s hs
    · exact hmoments s hs
    · exact hline.respects
  | false =>
    have hline : Tight p (st.writeLine p le env).2 := by
      simp only [State.writeLine, hfull, Bool.false_eq_true, if_false, henv.line]
      exact tight_line ht h _ (.inr (full_eq_false h hfull))
    refine ⟨hline, fun s hs => ?_⟩
    simp only [State.lineMoments, hfull, Bool.false_eq_true, if_false, List.nil_append,
      List.mem_singleton] at hs
    rw [hs]
    exact hline.respects

theorem doWrite_tight (ht : Tight p st) (hs : Sound p st) (henv : env.Succeeds) :
    Tight p (st.doWrite p le env).2 ∧
      ∀ s ∈ moments p st (.write le env), RespectsMaxsize p s := by
  rcases hs with ⟨hopen, i, hi⟩ | ⟨hopen, hfile⟩
  · simp only [State.doWrite, moments, hopen, if_true]
    exact writeLine_tight ht hi henv
  · obtain ⟨ht', ⟨j, hj, -⟩, hmoments⟩ := openLog_tight hfile henv.first ht
    have hok : (st.openLog p env.first).1 = true := (openLog_succeeds hfile henv.first).1
    obtain ⟨hline, hlines⟩ := @writeLine_tight p _ j le env ht' hj henv
    simp only [State.doWrite, moments, hopen, Bool.false_eq_true, if_false, hok, if_true]
    refine ⟨hline, fun s hs => ?_⟩
    rcases List.mem_append.1 hs with hs | hs
    · exact hmoments s hs
    · exact hlines s hs

end Write

/-! ## Runs -/

theorem recoverable_of_succeeds {a : Action} (h : Succeeds a) : Recoverable p st a := by
  cases a with
  | construct env =>
    refine ⟨h.header, ?_⟩
    rintro - ⟨-, -, hrename⟩
    cases h.rename.symm.trans hrename
  | write le env =>
    refine ⟨h.first.header, h.second.header, h.line, ?_⟩
    rintro ⟨hrename, -⟩
    cases h.close.rename.symm.trans hrename
  | destroy env => trivial

/-- Nothing is written to a stream without a file. -/
theorem Tight.put_closed (ht : Tight p st) (hfile : st.stream.file = none) (source : Option ℕ)
    (text : Bytes) (o : Option ℕ) : Tight p (st.put source text o) := by
  have hsame : (st.put source text o).stream.file = none := by
    rw [State.put, Ofstream.put_file, hfile]
  have hfs : (st.put source text o).fs = st.fs := by
    cases hfailed : st.stream.failed with
    | true => simp [State.put, Ofstream.put, hfailed]
    | false => simp [State.put, Ofstream.put, hfailed, hfile]
  exact Tight.of_closed hsame fun i => hfs ▸ ht.bounded hfile i

theorem destroy_tight {env : CloseEnv} (ht : Tight p st) (hs : Sound p st) (henv : env.Succeeds) :
    Tight p (st.closeLog p env).2 ∧ ∀ s ∈ st.closeMoments p env, RespectsMaxsize p s := by
  rcases hs with ⟨-, i, hi⟩ | ⟨-, hfile⟩
  · exact ⟨tight_closeLog ht hi henv, respects_closeMoments ht hi henv⟩
  · have hput := ht.put_closed hfile none logFooter env.footer
    have hshut : Tight p (st.shut env) := by
      refine Tight.of_closed (Ofstream.close_file _ _) fun i => ?_
      refine hput.bounded ?_ i
      rw [State.put, Ofstream.put_file, hfile]
    have hclose : Tight p (st.closeLog p env).2 := hshut.archive _ _
    refine ⟨hclose, fun s hs => ?_⟩
    simp only [State.closeMoments, List.mem_cons, List.not_mem_nil, or_false] at hs
    rcases hs with rfl | rfl | rfl
    · exact hput.respects
    · exact hshut.respects
    · exact hclose.respects

/-- An action without failures. -/
theorem tight_step {st' : State} {a : Action} (hheld : Held p st) (ht : Tight p st)
    (hok : Succeeds a) (hstep : step p st a = some st') :
    Tight p st' ∧ ∀ s ∈ moments p st a, RespectsMaxsize p s := by
  cases a with
  | construct env =>
    simp only [step, Option.ite_none_right_eq_some, Option.some.injEq] at hstep
    obtain ⟨hraw, rfl⟩ := hstep
    obtain ⟨ht', -, hmoments⟩ := openLog_tight (hheld.raw hraw) hok ht
    exact ⟨⟨ht'.closed, ht'.pos, ht'.footer, ht'.current⟩, hmoments⟩
  | write le env =>
    simp only [step, Option.ite_none_right_eq_some, Option.some.injEq] at hstep
    obtain ⟨halive, rfl⟩ := hstep
    obtain ⟨ht', hmoments⟩ := doWrite_tight ht (hheld.alive halive) hok
    exact ⟨⟨ht'.closed, ht'.pos, ht'.footer, ht'.current⟩, hmoments⟩
  | destroy env =>
    simp only [step, Option.ite_none_right_eq_some, Option.some.injEq] at hstep
    obtain ⟨halive, rfl⟩ := hstep
    obtain ⟨ht', hmoments⟩ := destroy_tight ht (hheld.alive halive) hok
    exact ⟨⟨ht'.closed, ht'.pos, ht'.footer, ht'.current⟩, hmoments⟩

theorem messages_eq_zero {cs : List (Chunk (Option ℕ))} (h : ∀ c ∈ cs, c.source = none) :
    messages cs = 0 := by
  refine List.countP_eq_zero.2 fun c hc => ?_
  simp [h c hc]

theorem tight_of_reach (h : (system p).Reach (fun _ a => Succeeds a) st) :
    Held p st ∧ Tight p st := by
  refine h.invariant (I := fun st => Held p st ∧ Tight p st) (fun st hinit => ?_)
    fun st a st' _ hboth hok hstep => ?_
  · have hfile : st.stream.file = none := by
      rw [hinit.stream]
      rfl
    refine ⟨⟨fun _ => hfile, fun halive => ?_⟩, Tight.of_closed hfile fun i => .inl ?_⟩
    · rw [hinit.phase] at halive
      cases halive
    · rw [messages_eq_zero (hinit.files i)]
      exact Nat.zero_le 1
  · exact ⟨held_step hboth.1 (recoverable_of_succeeds hok) hstep,
      (tight_step hboth.1 hboth.2 hok hstep).1⟩

/-- In a run without failures every file has at most one message or keeps to the maximum size,
between the actions and at every moment of one. -/
theorem maxsize_of_reach (p : FileParams) {st : State}
    (h : (system p).Reach (fun _ a => Succeeds a) st) :
    RespectsMaxsize p st ∧ ∀ a st', Succeeds a → step p st a = some st' →
      ∀ s ∈ moments p st a, RespectsMaxsize p s := by
  obtain ⟨hheld, ht⟩ := tight_of_reach h
  exact ⟨ht.respects, fun a st' hok hstep => (tight_step hheld ht hok hstep).2⟩

/-! ## A small file -/

/-- A file with place for two events. -/
def smallFile : FileParams :=
  ⟨ascii "log", 350, true⟩

/-- Three events, of which the third begins a new file. -/
theorem maxsize_threeEvents :
    ∃ st, st.calls.length = 3 ∧ st.archivings = [2] ∧ RespectsMaxsize smallFile st := by
  obtain ⟨st, hreach, hst⟩ := System.exists_reach (T := system smallFile)
    (b := fun _ a => decide (Succeeds a)) (p := fun _ a => Succeeds a)
    (fun _ _ => of_decide_eq_true) (initial_start false) (eventsAt [0, 1, 2])
    (fun st => st.calls.length == 3 && st.archivings == [2]) (by decide +kernel)
  rw [Bool.and_eq_true, beq_iff_eq, beq_iff_eq] at hst
  exact ⟨st, hst.1, hst.2, (maxsize_of_reach smallFile hreach).1⟩

end FileStream

end Logfile
