import Logfile.FileStream

/-!
# A file stream that recovers from errors

`m_isopen` says that the log file is open and can be written to, and then, or when nothing is
open, the next `do_write` succeeds if the system lets it (`doWrite_succeeds`). The invariant
`Sound` is what the operations keep as long as no header or line fails, the rename of
`archive` does not fail twice in a rotation, and the constructor does not leave a true
`m_isopen` where it finds one (`recovers_of_reach`).

A line that fails leaves `m_isopen` true over a stream in error, a header that fails leaves
the file open, and `open` returns early without clearing `m_isopen` where `archive` fails.
-/

namespace Logfile

namespace FileStream

variable (p : FileParams)

/-- `m_isopen` is right, and with no further errors the next event is written. -/
structure Recovers (st : State) : Prop where
  isopen : st.isopen = true ↔ ∃ i, st.Writable p i
  next : ∀ le env, env.Succeeds → (st.doWrite p le env).1 = true ∧
    ∃ i, (st.doWrite p le env).2.fs.dir p.filename = some i ∧
      ⟨some st.calls.length, logLine le⟩ ∈ (st.doWrite p le env).2.fs.files i

/-- The log file is open, or nothing is. -/
def Sound (st : State) : Prop :=
  st.isopen = true ∧ (∃ i, st.Writable p i) ∨ st.isopen = false ∧ st.stream.file = none

/-- `open` returns early, because the earlier log file cannot be archived. -/
def Blocked (st : State) (env : OpenEnv) : Prop :=
  st.exists p = true ∧ env.stat = true ∧ env.rename = false

/-- No header or line fails, no rotation fails to archive twice, and the constructor does not
keep a true `m_isopen` that it has found. -/
def Recoverable (st : State) : Action → Prop
  | .construct env => env.header = none ∧ (st.isopen = true → ¬Blocked p st env)
  | .write _ env => env.first.header = none ∧ env.second.header = none ∧ env.line = none ∧
      ¬(env.close.rename = false ∧ env.second.stat = true ∧ env.second.rename = false)
  | .destroy _ => True

variable {p} {st : State} {env : OpenEnv} {close : CloseEnv}

/-! ## The invariant -/

theorem sound_start (hfile : st.stream.file = none) (hheader : env.header = none) :
    Sound p (st.start p env).2 ∧ (st.start p env).1 = (st.start p env).2.isopen := by
  cases hfopen : env.fopen with
  | true =>
    rw [State.start_of_closed hfile hfopen hheader]
    exact ⟨Or.inl ⟨rfl, _, rfl, rfl, FileSystem.create_dir⟩, rfl⟩
  | false =>
    refine ⟨Or.inr ⟨?_, ?_⟩, rfl⟩
    · simp [State.start, hfopen, State.fopen, State.put, Ofstream.openFile_of_not_ok,
        Ofstream.put_of_failed, Ofstream.good]
    · simp [State.start, hfopen, State.fopen, State.put, Ofstream.openFile_of_not_ok, hfile]

/-- The phase and the calls do not matter. -/
theorem Sound.of_eq {st' : State} (h : Sound p st) (hfs : st'.fs = st.fs)
    (hstream : st'.stream = st.stream) (hopen : st'.isopen = st.isopen) : Sound p st' := by
  rcases h with ⟨hisopen, i, hi⟩ | ⟨hisopen, hfile⟩
  · refine Or.inl ⟨hopen.trans hisopen, i, ?_, ?_, ?_⟩
    · rw [hstream]
      exact hi.file
    · rw [hstream]
      exact hi.good
    · rw [hfs]
      exact hi.dir
  · exact Or.inr ⟨hopen.trans hisopen, hstream ▸ hfile⟩

/-- `open` keeps `m_isopen` right unless it is blocked where `m_isopen` is true. -/
theorem sound_openLog (hfile : st.stream.file = none) (hheader : env.header = none)
    (hway : st.isopen = true → ¬Blocked p st env) :
    Sound p (st.openLog p env).2 ∧ (st.openLog p env).1 = (st.openLog p env).2.isopen := by
  unfold State.openLog
  split
  · next hstat =>
    rw [Bool.and_eq_true] at hstat
    cases hrename : env.rename with
    | true =>
      simp only [State.archive, hstat.1, Bool.and_true, if_true]
      exact sound_start hfile hheader
    | false =>
      have hclosed : st.isopen = false := by
        rw [← Bool.not_eq_true]
        exact fun hopen => hway hopen ⟨hstat.1, hstat.2, hrename⟩
      simp only [State.archive, Bool.and_false, Bool.false_eq_true, if_false]
      exact ⟨Or.inr ⟨hclosed, hfile⟩, hclosed.symm⟩
  · exact sound_start hfile hheader

theorem closeLog_file (st : State) (close : CloseEnv) :
    (st.closeLog p close).2.stream.file = none := by
  rw [State.closeLog, State.archive_stream]
  exact Ofstream.close_file _ _

/-- Behind `close` there is a log file only where it could not be archived. -/
theorem rename_of_exists (h : (st.closeLog p close).2.exists p = true) :
    close.rename = false := by
  rw [← Bool.not_eq_true]
  intro hrename
  unfold State.closeLog State.archive at h
  dsimp only at h
  split at h
  · simp [State.exists, FileSystem.rename_dir_old (State.archiveName_ne close.now)] at h
  · next hnot =>
    rw [hrename, Bool.and_true] at hnot
    exact hnot h

theorem sound_rotate (st : State) (hheader : env.header = none)
    (hway : ¬(close.rename = false ∧ env.stat = true ∧ env.rename = false)) :
    Sound p (st.rotate p close env).2 := by
  refine (sound_openLog (closeLog_file st close) hheader ?_).1
  rintro - ⟨hexists, hstat, hrename⟩
  exact hway ⟨rename_of_exists hexists, hstat, hrename⟩

theorem Sound.put (h : Sound p st) (source : Option ℕ) (text : Bytes) :
    Sound p (st.put source text none) := by
  rcases h with ⟨hopen, i, hi⟩ | ⟨hopen, hfile⟩
  · exact Or.inl ⟨hopen, i, hi.put source text⟩
  · refine Or.inr ⟨hopen, ?_⟩
    rw [State.put, Ofstream.put_file]
    exact hfile

theorem Sound.writeLine (h : Sound p st) (le : LogEvent) {env : WriteEnv}
    (hheader : env.second.header = none) (hline : env.line = none)
    (hway : ¬(env.close.rename = false ∧ env.second.stat = true ∧ env.second.rename = false)) :
    Sound p (st.writeLine p le env).2 := by
  unfold State.writeLine
  rw [hline]
  dsimp only
  split
  · exact (sound_rotate st hheader hway).put _ _
  · exact h.put _ _

theorem Sound.doWrite (h : Sound p st) (le : LogEvent) {env : WriteEnv}
    (hok : Recoverable p st (.write le env)) : Sound p (st.doWrite p le env).2 := by
  obtain ⟨hfirst, hsecond, hline, hway⟩ := hok
  unfold State.doWrite
  split
  · exact h.writeLine le hsecond hline hway
  · next hclosed =>
    have hfile : st.stream.file = none := by
      rcases h with ⟨hopen, -⟩ | ⟨-, hfile⟩
      · exact absurd hopen hclosed
      · exact hfile
    have hsound : Sound p (st.openLog p env.first).2 :=
      (sound_openLog hfile hfirst fun hopen => absurd hopen hclosed).1
    dsimp only
    split
    · exact hsound.writeLine le hsecond hline hway
    · exact hsound

/-! ## The next event -/

theorem openLog_succeeds (hfile : st.stream.file = none) (henv : env.Succeeds) :
    (st.openLog p env).1 = true ∧ ∃ i, (st.openLog p env).2.Writable p i := by
  have hstart : ∀ st' : State, st'.stream.file = none →
      (st'.start p env).1 = true ∧ ∃ i, (st'.start p env).2.Writable p i := by
    intro st' hfile'
    rw [State.start_of_closed hfile' henv.fopen henv.header]
    exact ⟨rfl, _, rfl, rfl, FileSystem.create_dir⟩
  unfold State.openLog
  split
  · next hstat =>
    rw [Bool.and_eq_true] at hstat
    simp only [State.archive, hstat.1, henv.rename, Bool.and_true, if_true]
    exact hstart _ hfile
  · exact hstart _ hfile

theorem writeLine_succeeds {i : ℕ} (h : st.Writable p i) (le : LogEvent) {env : WriteEnv}
    (henv : env.Succeeds) : (st.writeLine p le env).1 = true ∧
      ∃ j, (st.writeLine p le env).2.fs.dir p.filename = some j ∧
        ⟨some st.calls.length, logLine le⟩ ∈ (st.writeLine p le env).2.fs.files j := by
  have hput : ∀ {st' : State} {j : ℕ}, st'.Writable p j → st'.calls = st.calls →
      (st'.put (some st'.calls.length) (logLine le) none).stream.good = true ∧
        ∃ j, (st'.put (some st'.calls.length) (logLine le) none).fs.dir p.filename = some j ∧
          ⟨some st.calls.length, logLine le⟩ ∈
            (st'.put (some st'.calls.length) (logLine le) none).fs.files j := by
    intro st' j hj hcalls
    rw [State.put_of_writable hj, hcalls]
    refine ⟨by simp [Ofstream.good, hj.good], j, hj.dir, ?_⟩
    simp [FileSystem.append_files_self]
  unfold State.writeLine
  rw [henv.line]
  dsimp only
  split
  · obtain ⟨-, j, hj⟩ := openLog_succeeds (closeLog_file (p := p) st env.close) henv.second
    exact hput hj (State.sameCalls_rotate env.close env.second).calls
  · exact hput h rfl

theorem Sound.doWrite_succeeds (h : Sound p st) (le : LogEvent) {env : WriteEnv}
    (henv : env.Succeeds) : (st.doWrite p le env).1 = true ∧
      ∃ i, (st.doWrite p le env).2.fs.dir p.filename = some i ∧
        ⟨some st.calls.length, logLine le⟩ ∈ (st.doWrite p le env).2.fs.files i := by
  unfold State.doWrite
  rcases h with ⟨hopen, i, hi⟩ | ⟨hopen, hfile⟩
  · rw [if_pos hopen]
    exact writeLine_succeeds hi le henv
  · obtain ⟨hok, i, hi⟩ := openLog_succeeds (p := p) hfile henv.first
    have hwrite := writeLine_succeeds hi le henv
    rw [(State.sameCalls_openLog env.first).calls] at hwrite
    rw [if_neg (by simp [hopen])]
    simp only [hok, if_true]
    exact hwrite

theorem Sound.recovers (h : Sound p st) : Recovers p st := by
  refine ⟨?_, fun le env henv => h.doWrite_succeeds le henv⟩
  rcases h with ⟨hopen, hi⟩ | ⟨hopen, hfile⟩
  · exact iff_of_true hopen hi
  · refine iff_of_false (by simp [hopen]) ?_
    rintro ⟨i, hi⟩
    rw [hi.file] at hfile
    cases hfile

/-! ## Runs -/

/-- The object is sound, and before it there is no file. -/
structure Held (p : FileParams) (st : State) : Prop where
  raw : st.phase = .raw → st.stream.file = none
  alive : st.phase = .alive → Sound p st

theorem held_step {st' : State} {a : Action} (h : Held p st) (hok : Recoverable p st a)
    (hstep : step p st a = some st') : Held p st' := by
  cases a with
  | construct env =>
    simp only [step, Option.ite_none_right_eq_some, Option.some.injEq] at hstep
    obtain ⟨hraw, rfl⟩ := hstep
    have hsound := (sound_openLog (h.raw hraw) hok.1 hok.2).1
    exact ⟨by simp, fun _ => hsound.of_eq rfl rfl rfl⟩
  | write le env =>
    simp only [step, Option.ite_none_right_eq_some, Option.some.injEq] at hstep
    obtain ⟨halive, rfl⟩ := hstep
    have hphase : (st.doWrite p le env).2.phase = .alive :=
      (State.sameCalls_doWrite le env).phase.trans halive
    have hsound := (h.alive halive).doWrite le hok
    exact ⟨by simp [hphase], fun _ => hsound.of_eq rfl rfl rfl⟩
  | destroy env =>
    simp only [step, Option.ite_none_right_eq_some, Option.some.injEq] at hstep
    obtain ⟨halive, rfl⟩ := hstep
    exact ⟨by simp, by simp⟩

/-- In a run whose steps are recoverable, the stream recovers in every state. -/
theorem recovers_of_reach (p : FileParams) {st : State}
    (h : (system p).Reach (Recoverable p) st) (halive : st.phase = .alive) : Recovers p st := by
  have hheld : Held p st := by
    refine h.invariant (fun st hinit => ?_) fun st a st' _ hheld hok hstep =>
      held_step hheld hok hstep
    refine ⟨fun _ => ?_, fun halive => ?_⟩
    · rw [hinit.stream]
      rfl
    · rw [hinit.phase] at halive
      cases halive
  exact (hheld.alive halive).recovers

/-! ## A failed line, and a log file that is opened late -/

instance (st : State) : ∀ a, Decidable (Recoverable p st a)
  | .construct env => inferInstanceAs (Decidable (env.header = none ∧
      (st.isopen = true → ¬(st.exists p = true ∧ env.stat = true ∧ env.rename = false))))
  | .write _ env => inferInstanceAs (Decidable (env.first.header = none ∧
      env.second.header = none ∧ env.line = none ∧
        ¬(env.close.rename = false ∧ env.second.stat = true ∧ env.second.rename = false)))
  | .destroy _ => inferInstanceAs (Decidable True)

/-- The disk is full for one line. -/
def lineFails : List Action :=
  [.construct opened, .write hello { written 0 with line := some 0 }]

theorem failed_line_never_recovers :
    ¬∀ (p : FileParams) (st : State), (system p).Reachable st → st.phase = .alive →
      Recovers p st := by
  intro h
  obtain ⟨st, hreach, hst⟩ := System.exists_reach (T := system someFile)
    (b := fun _ _ => true) (p := fun _ _ => True) (fun _ _ _ => trivial) (initial_start false)
    lineFails (fun st => st.phase == .alive && st.isopen && st.stream.failed) (by decide +kernel)
  simp only [Bool.and_eq_true, beq_iff_eq] at hst
  obtain ⟨⟨halive, hopen⟩, hfailed⟩ := hst
  obtain ⟨i, hi⟩ := (h someFile st hreach halive).isopen.1 hopen
  rw [hi.good] at hfailed
  cases hfailed

/-- The file cannot be opened at first. -/
def openedLate : List Action :=
  [.construct { opened with fopen := false },
    .write hello { written 0 with first := { opened with fopen := false } },
    .write hello (written 0)]

theorem recovers_openedLate :
    ∃ st, st.calls = [(hello, false), (hello, true)] ∧ Recovers someFile st := by
  obtain ⟨st, hreach, hst⟩ := System.exists_reach (T := system someFile)
    (b := fun st a => decide (Recoverable someFile st a)) (p := Recoverable someFile)
    (fun _ _ => of_decide_eq_true) (initial_start true) openedLate
    (fun st => st.phase == .alive && st.calls == [(hello, false), (hello, true)])
    (by decide +kernel)
  simp only [Bool.and_eq_true, beq_iff_eq] at hst
  exact ⟨st, hst.2, recovers_of_reach someFile hreach hst.1⟩

end FileStream

end Logfile
