import Logfile.FileRecovery

/-!
# Rotation keeps the logged events

Where no operation fails, every event that `do_write` has written is in one file, the log
file or an archive named after the time of its archiving. `rename` replaces an archive of the
same name, so a run has to archive in different milliseconds (`formatTimestamp_eq_iff`, which
is about times from 1970 on), and then nothing is lost (`kept_of_reach`).

The invariant says where the line of every call is (`Accounted`). Each operation on the
directory keeps it.
-/

namespace Logfile

open Text

/-! ## Names of archives -/

namespace FileStream

variable (p : FileParams)

/-- The line of the call `k`, whole, is in the file `name`. -/
def State.Contains (st : State) (name : Bytes) (k : ℕ) (le : LogEvent) : Prop :=
  ∃ i, st.fs.dir name = some i ∧ ⟨some k, logLine le⟩ ∈ st.fs.files i

/-- Every event that was written is in one file, the log file or an archive. -/
def Kept (st : State) : Prop :=
  ∀ k le, st.calls[k]? = some (le, true) → (∃! name, st.Contains name k le) ∧
    ∀ name, st.Contains name k le →
      name = p.filename ∨ ∃ t ∈ st.archivings, name = archiveName p t

/-- No operation fails. -/
def Succeeds : Action → Prop
  | .construct env => env.Succeeds
  | .write _ env => env.Succeeds
  | .destroy env => env.Succeeds

/-- The time that an action archives the log file of the stream at, if it does. -/
def archivedAt (st : State) : Action → Option ℤ
  | .construct _ => none
  | .write le env => if st.full p (logLine le) then some env.close.now else none
  | .destroy env => some env.now

/-- The clock does not go back. -/
def ClockForward (st : State) (a : Action) : Prop :=
  ∀ now ∈ archivedAt p st a, ∀ t ∈ st.archivings, t ≤ now

/-- No earlier archiving was in the same millisecond. -/
def NewName (st : State) (a : Action) : Prop :=
  ∀ now ∈ archivedAt p st a, ∀ t ∈ st.archivings, formatTimestamp t ≠ formatTimestamp now

/-! ## Where the lines are -/

/-- Every line is in one file, which has a name if the call was successful. -/
structure Accounted (fs : FileSystem Bytes (Chunk (Option ℕ))) (archivings : List ℤ)
    (calls : List (LogEvent × Bool)) : Prop where
  old : ∀ {i c k}, c ∈ fs.files i → c.source = some k → k < calls.length
  once : ∀ {i j c c' k}, c ∈ fs.files i → c' ∈ fs.files j → c.source = some k →
    c'.source = some k → i = j
  named : ∀ {k le}, calls[k]? = some (le, true) → ∃ name i, fs.dir name = some i ∧
    ⟨some k, logLine le⟩ ∈ fs.files i ∧
      (name = p.filename ∨ ∃ t ∈ archivings, name = archiveName p t)

variable {p} {fs : FileSystem Bytes (Chunk (Option ℕ))} {archivings : List ℤ}
  {calls : List (LogEvent × Bool)} {i : ℕ}

theorem Accounted.append_none (h : Accounted p fs archivings calls) (i : ℕ) (text : Bytes) :
    Accounted p (fs.append i ⟨none, text⟩) archivings calls := by
  have hmem : ∀ {j c k}, c ∈ (fs.append i (⟨none, text⟩ : Chunk (Option ℕ))).files j →
      c.source = some k → c ∈ fs.files j := by
    intro j c k hc hk
    rcases FileSystem.mem_append.1 hc with hc | ⟨-, rfl⟩
    · exact hc
    · cases hk
  refine ⟨fun hc hk => h.old (hmem hc hk) hk,
    fun hc hc' hk hk' => h.once (hmem hc hk) (hmem hc' hk') hk hk', fun hk => ?_⟩
  obtain ⟨name, j, hdir, hline, hname⟩ := h.named hk
  exact ⟨name, j, hdir, FileSystem.mem_append.2 (Or.inl hline), hname⟩

/-- The archive of a new name replaces no archive of the stream. -/
theorem Accounted.archive (h : Accounted p fs archivings calls) {now : ℤ}
    (hnew : ∀ t ∈ archivings, formatTimestamp t ≠ formatTimestamp now) :
    Accounted p (fs.rename p.filename (archiveName p now)) (archivings ++ [now]) calls := by
  refine ⟨h.old, h.once, fun hk => ?_⟩
  obtain ⟨name, j, hdir, hline, hname⟩ := h.named hk
  rcases hname with rfl | ⟨t, ht, rfl⟩
  · exact ⟨archiveName p now, j, FileSystem.rename_dir_new.trans hdir, hline,
      Or.inr ⟨now, by simp, rfl⟩⟩
  · have hne : archiveName p t ≠ archiveName p now := by
      intro heq
      exact hnew t ht (List.append_cancel_left heq)
    refine ⟨archiveName p t, j, ?_, hline, Or.inr ⟨t, by simp [ht], rfl⟩⟩
    rw [FileSystem.rename_dir_of_ne (State.archiveName_ne t).symm hne, hdir]

/-- A new log file replaces no file. -/
theorem Accounted.create (h : Accounted p fs archivings calls)
    (hnone : fs.dir p.filename = none) :
    Accounted p (fs.create p.filename).1 archivings calls := by
  refine ⟨fun hc hk => h.old (FileSystem.mem_of_mem_create hc) hk,
    fun hc hc' hk hk' => h.once (FileSystem.mem_of_mem_create hc)
      (FileSystem.mem_of_mem_create hc') hk hk', fun hk => ?_⟩
  obtain ⟨name, j, hdir, hline, hname⟩ := h.named hk
  have hne : name ≠ p.filename := by
    rintro rfl
    rw [hnone] at hdir
    cases hdir
  refine ⟨name, j, ?_, ?_, hname⟩
  · rw [FileSystem.create_dir_of_ne hne, hdir]
  · rwa [FileSystem.create_files_of_ne (FileSystem.create_ne_of_dir hnone hdir)]

/-- The line of a call goes to the log file. -/
theorem Accounted.write (h : Accounted p fs archivings calls)
    (hdir : fs.dir p.filename = some i) (le : LogEvent) (ok : Bool) :
    Accounted p (fs.append i ⟨some calls.length, logLine le⟩) archivings
      (calls ++ [(le, ok)]) := by
  have hmem : ∀ {j c k}, c ∈ (fs.append i (⟨some calls.length, logLine le⟩ :
      Chunk (Option ℕ))).files j → c.source = some k →
        c ∈ fs.files j ∧ k < calls.length ∨ j = i ∧ k = calls.length := by
    intro j c k hc hk
    rcases FileSystem.mem_append.1 hc with hc | ⟨hj, rfl⟩
    · exact Or.inl ⟨hc, h.old hc hk⟩
    · exact Or.inr ⟨hj, (Option.some.inj hk).symm⟩
  refine ⟨fun hc hk => ?_, fun hc hc' hk hk' => ?_, fun {k e} hk => ?_⟩
  · rw [List.length_append, List.length_singleton]
    rcases hmem hc hk with ⟨-, hlt⟩ | ⟨-, hlast⟩ <;> omega
  · rcases hmem hc hk with ⟨hc, hlt⟩ | ⟨hi, hlast⟩
    · rcases hmem hc' hk' with ⟨hc', -⟩ | ⟨-, hlast⟩
      · exact h.once hc hc' hk hk'
      · omega
    · rcases hmem hc' hk' with ⟨-, hlt⟩ | ⟨hj, -⟩
      · omega
      · rw [hi, hj]
  · rcases Nat.lt_or_ge k calls.length with hlt | hge
    · rw [List.getElem?_append_left hlt] at hk
      obtain ⟨name, j, hname, hline, hnamed⟩ := h.named hk
      exact ⟨name, j, hname, FileSystem.mem_append.2 (Or.inl hline), hnamed⟩
    · -- the call itself
      obtain ⟨rfl, hlast⟩ : k = calls.length ∧ (le, ok) = (e, true) := by
        have hlen := (List.getElem?_eq_some_iff.1 hk).1
        rw [List.length_append, List.length_singleton] at hlen
        obtain rfl : k = calls.length := by omega
        exact ⟨rfl, by simpa using hk⟩
      obtain ⟨rfl, rfl⟩ := Prod.mk.inj hlast
      exact ⟨p.filename, i, hdir, FileSystem.mem_append.2 (Or.inr ⟨rfl, rfl⟩), Or.inl rfl⟩

/-- What is in files of the stream's is in files with a name. -/
theorem Accounted.kept {st : State} (h : Accounted p st.fs st.archivings st.calls) :
    Kept p st := by
  intro k le hk
  obtain ⟨name, i, hdir, hline, hname⟩ := h.named hk
  have hunique : ∀ name', st.Contains name' k le → name' = name := by
    rintro name' ⟨j, hdir', hline'⟩
    obtain rfl := h.once hline hline' rfl rfl
    exact st.fs.inj hdir' hdir
  refine ⟨⟨name, ⟨i, hdir, hline⟩, hunique⟩, fun name' hname' => ?_⟩
  rw [hunique name' hname']
  exact hname

/-! ## The steps -/

variable {st : State}

/-- The log file of a stream is closed, archived, and a new one is begun. -/
theorem rotate_of_writable {env : OpenEnv} {close : CloseEnv} (h : st.Writable p i)
    (hclose : close.Succeeds) (henv : env.Succeeds) :
    ∃ j, (st.rotate p close env).2.Writable p j ∧
      (st.rotate p close env).2.isopen = true ∧
      (st.rotate p close env).2.archivings = st.archivings ++ [close.now] ∧
      (st.rotate p close env).2.fs =
        ((((st.fs.append i ⟨none, logFooter⟩).rename p.filename
          (archiveName p close.now)).create p.filename).1).append j ⟨none, logHeader⟩ := by
  have hfile := closeLog_file (p := p) st close
  have hclosed := State.closeLog_of_writable h hclose
  have hgone : (st.closeLog p close).2.exists p = false := by
    rw [← Bool.not_eq_true]
    intro hexists
    have hfailed := rename_of_exists hexists
    rw [hclose.rename] at hfailed
    cases hfailed
  rw [State.rotate, State.openLog, hgone]
  simp only [Bool.false_and, Bool.false_eq_true, if_false]
  rw [State.start_of_closed hfile henv.fopen henv.header]
  exact ⟨_, ⟨rfl, rfl, FileSystem.create_dir⟩, rfl, by rw [hclosed], by rw [hclosed]⟩

theorem accounted_rotate {env : OpenEnv} {close : CloseEnv} (h : st.Writable p i)
    (hclose : close.Succeeds) (henv : env.Succeeds)
    (hacc : Accounted p st.fs st.archivings st.calls)
    (hnew : ∀ t ∈ st.archivings, formatTimestamp t ≠ formatTimestamp close.now) :
    Accounted p (st.rotate p close env).2.fs (st.rotate p close env).2.archivings st.calls := by
  obtain ⟨j, -, -, harchivings, hfs⟩ := rotate_of_writable h hclose henv
  rw [harchivings, hfs]
  have harchived := (hacc.append_none i logFooter).archive hnew
  exact (harchived.create (FileSystem.rename_dir_old (State.archiveName_ne _))).append_none j _

/-- The lines are accounted for, and the log file is open while the object lives. -/
structure Ledger (p : FileParams) (st : State) : Prop where
  raw : st.phase = .raw → st.stream.file = none ∧ st.calls = [] ∧ st.archivings = [] ∧
    ∀ i, ∀ c ∈ st.fs.files i, c.source = none
  alive : st.phase = .alive → st.isopen = true ∧ ∃ i, st.Writable p i
  accounted : Accounted p st.fs st.archivings st.calls

theorem accounted_of_none {archivings : List ℤ} (h : ∀ i, ∀ c ∈ fs.files i, c.source = none) :
    Accounted p fs archivings [] := by
  have hno : ∀ {i c k}, c ∈ fs.files i → c.source ≠ some k := by
    intro i c k hc hk
    rw [h i c hc] at hk
    cases hk
  exact ⟨fun hc hk => absurd hk (hno hc), fun hc _ hk _ => absurd hk (hno hc),
    fun hk => by simp at hk⟩

theorem source_openLog {env : OpenEnv} (hfile : st.stream.file = none) (henv : env.Succeeds)
    (h : ∀ i, ∀ c ∈ st.fs.files i, c.source = none) :
    ∀ i, ∀ c ∈ (st.openLog p env).2.fs.files i, c.source = none := by
  have hstart : ∀ st' : State, st'.stream.file = none → st'.fs.files = st.fs.files →
      ∀ i, ∀ c ∈ (st'.start p env).2.fs.files i, c.source = none := by
    intro st' hfile' hfiles i c hc
    rw [State.start_of_closed hfile' henv.fopen henv.header] at hc
    rcases FileSystem.mem_append.1 hc with hc | ⟨-, rfl⟩
    · exact h i c (hfiles ▸ FileSystem.mem_of_mem_create hc)
    · rfl
  unfold State.openLog
  dsimp only
  split
  · next hstat =>
    rw [Bool.and_eq_true] at hstat
    simp only [State.archive, hstat.1, henv.rename, Bool.and_true, if_true]
    exact hstart _ hfile rfl
  · exact hstart _ hfile rfl

theorem ledger_construct {env : OpenEnv} (h : Ledger p st) (hraw : st.phase = .raw)
    (henv : env.Succeeds) :
    Ledger p { (st.openLog p env).2 with phase := .alive } := by
  obtain ⟨hfile, hcalls, -, hsource⟩ := h.raw hraw
  have hunblocked : st.isopen = true → ¬Blocked p st env := by
    rintro - ⟨-, -, hrename⟩
    rw [henv.rename] at hrename
    cases hrename
  obtain ⟨hok, i, hi⟩ := openLog_succeeds (p := p) hfile henv
  have hopen := (sound_openLog hfile henv.header hunblocked).2
  rw [hok] at hopen
  refine ⟨by simp, fun _ => ⟨hopen.symm, i, hi.file, hi.good, hi.dir⟩, ?_⟩
  have hsame : (st.openLog p env).2.calls = [] :=
    (State.sameCalls_openLog env).calls.trans hcalls
  dsimp only
  rw [hsame]
  exact accounted_of_none (source_openLog hfile henv hsource)

/-- A line behind a rotation, if there is one. -/
theorem ledger_write {env : WriteEnv} {le : LogEvent} (h : Ledger p st)
    (halive : st.phase = .alive) (henv : env.Succeeds) (hnew : NewName p st (.write le env)) :
    Ledger p { (st.doWrite p le env).2 with
      calls := st.calls ++ [(le, (st.doWrite p le env).1)] } := by
  obtain ⟨hopen, i, hi⟩ := h.alive halive
  have hfront : ∃ st' : State, ∃ j, st'.Writable p j ∧ st'.isopen = true ∧
      Accounted p st'.fs st'.archivings st.calls ∧ st'.calls = st.calls ∧
        st'.phase = .alive ∧
          (st.doWrite p le env).2 = st'.put (some st'.calls.length) (logLine le) none := by
    simp only [State.doWrite, State.writeLine, if_pos hopen, henv.line]
    cases hfull : st.full p (logLine le) with
    | true =>
      rw [if_pos rfl]
      have hsame : State.SameCalls st (st.rotate p env.close env.second).2 :=
        State.sameCalls_rotate env.close env.second
      obtain ⟨j, hj, hopen', -⟩ := rotate_of_writable hi henv.close henv.second
      have hacc := accounted_rotate hi henv.close henv.second h.accounted
        (hnew env.close.now (if_pos hfull))
      exact ⟨_, j, hj, hopen', hacc, hsame.calls, hsame.phase.trans halive, rfl⟩
    | false =>
      rw [if_neg Bool.false_ne_true]
      exact ⟨st, i, hi, hopen, h.accounted, rfl, halive, rfl⟩
  obtain ⟨st', j, hj, hopen', hacc, hcalls, hphase, heq⟩ := hfront
  have hput := hj.put (some st'.calls.length) (logLine le)
  have hline := hacc.write hj.dir le (st.doWrite p le env).1
  rw [heq, State.put_of_writable hj]
  rw [State.put_of_writable hj] at hput
  refine ⟨by simp [hphase], fun _ => ⟨hopen', j, hput.file, hput.good, hput.dir⟩, ?_⟩
  rw [hcalls]
  exact hline

theorem ledger_destroy {env : CloseEnv} (h : Ledger p st) (halive : st.phase = .alive)
    (henv : env.Succeeds) (hnew : NewName p st (.destroy env)) :
    Ledger p { (st.closeLog p env).2 with phase := .destroyed } := by
  obtain ⟨-, i, hi⟩ := h.alive halive
  rw [State.closeLog_of_writable hi henv]
  exact ⟨by simp, by simp, (h.accounted.append_none i logFooter).archive (hnew env.now rfl)⟩

theorem ledger_step {st' : State} {a : Action} (h : Ledger p st) (hok : Succeeds a)
    (hnew : NewName p st a) (hstep : step p st a = some st') : Ledger p st' := by
  cases a with
  | construct env =>
    simp only [step, Option.ite_none_right_eq_some, Option.some.injEq] at hstep
    obtain ⟨hraw, rfl⟩ := hstep
    exact ledger_construct h hraw hok
  | write le env =>
    simp only [step, Option.ite_none_right_eq_some, Option.some.injEq] at hstep
    obtain ⟨halive, rfl⟩ := hstep
    exact ledger_write h halive hok hnew
  | destroy env =>
    simp only [step, Option.ite_none_right_eq_some, Option.some.injEq] at hstep
    obtain ⟨halive, rfl⟩ := hstep
    exact ledger_destroy h halive hok hnew

/-- In a run without failures that archives under new names, no event is lost. -/
theorem kept_of_reach (p : FileParams) {st : State}
    (h : (system p).Reach (fun st a => Succeeds a ∧ NewName p st a) st) : Kept p st := by
  have hledger : Ledger p st := by
    refine h.invariant (fun st hinit => ?_) fun st a st' _ hl hok hstep =>
      ledger_step hl hok.1 hok.2 hstep
    refine ⟨fun _ => ?_, fun halive => ?_, ?_⟩
    · rw [hinit.stream]
      exact ⟨rfl, hinit.calls, hinit.archivings, hinit.files⟩
    · rw [hinit.phase] at halive
      cases halive
    · rw [hinit.calls]
      exact accounted_of_none hinit.files
  exact hledger.accounted.kept

/-! ## Archivings in one millisecond -/

instance (env : OpenEnv) : Decidable env.Succeeds :=
  decidable_of_iff
    (env.stat = true ∧ env.rename = true ∧ env.fopen = true ∧ env.header = none)
    ⟨fun h => ⟨h.1, h.2.1, h.2.2.1, h.2.2.2⟩, fun h => ⟨h.stat, h.rename, h.fopen, h.header⟩⟩

instance (env : CloseEnv) : Decidable env.Succeeds :=
  decidable_of_iff (env.footer = none ∧ env.close = true ∧ env.rename = true)
    ⟨fun h => ⟨h.1, h.2.1, h.2.2⟩, fun h => ⟨h.footer, h.close, h.rename⟩⟩

instance (env : WriteEnv) : Decidable env.Succeeds :=
  decidable_of_iff
    (env.first.Succeeds ∧ env.close.Succeeds ∧ env.second.Succeeds ∧ env.line = none)
    ⟨fun h => ⟨h.1, h.2.1, h.2.2.1, h.2.2.2⟩, fun h => ⟨h.first, h.close, h.second, h.line⟩⟩

instance : ∀ a, Decidable (Succeeds a)
  | .construct env => inferInstanceAs (Decidable env.Succeeds)
  | .write _ env => inferInstanceAs (Decidable env.Succeeds)
  | .destroy env => inferInstanceAs (Decidable env.Succeeds)

instance (st : State) (a : Action) : Decidable (ClockForward p st a) :=
  inferInstanceAs (Decidable (∀ now ∈ archivedAt p st a, ∀ t ∈ st.archivings, t ≤ now))

instance (st : State) (a : Action) : Decidable (NewName p st a) :=
  inferInstanceAs (Decidable (∀ now ∈ archivedAt p st a, ∀ t ∈ st.archivings,
    formatTimestamp t ≠ formatTimestamp now))

/-- A file that is archived in front of every event. -/
def tinyFile : FileParams :=
  ⟨ascii "log", 0, true⟩

/-- One event at each of the times. -/
def eventsAt (times : List ℤ) : List Action :=
  .construct opened :: times.map fun now => .write hello (written now)

/-- The files that a stream uses do not have the line of the first event. -/
def firstGone (p : FileParams) (st : State) : Bool :=
  (p.filename :: st.archivings.map (archiveName p)).all fun name =>
    (st.fs.dir name).all fun i => !(st.fs.files i).contains ⟨some 0, logLine hello⟩

theorem Kept.firstGone {p : FileParams} {st : State} (h : Kept p st)
    (hcall : st.calls[0]? = some (hello, true)) : firstGone p st = false := by
  obtain ⟨⟨name, hname, -⟩, hnames⟩ := h 0 hello hcall
  have hmem : name ∈ p.filename :: st.archivings.map (archiveName p) := by
    rcases hnames name hname with rfl | ⟨t, ht, rfl⟩
    · exact List.mem_cons_self
    · exact List.mem_cons_of_mem _ (List.mem_map_of_mem ht)
  obtain ⟨i, hdir, hline⟩ := hname
  refine List.all_eq_false.2 ⟨name, hmem, ?_⟩
  rw [hdir]
  simpa using hline

/-- The third archive takes the name of the second, which has the first event. -/
theorem archive_is_replaced :
    ¬∀ (p : FileParams) (st : State),
      (system p).Reach (fun st a => Succeeds a ∧ ClockForward p st a) st → Kept p st := by
  intro h
  obtain ⟨st, hreach, hst⟩ := System.exists_reach (T := system tinyFile)
    (b := fun st a => decide (Succeeds a ∧ ClockForward tinyFile st a))
    (p := fun st a => Succeeds a ∧ ClockForward tinyFile st a)
    (fun _ _ => of_decide_eq_true) (initial_start false) (eventsAt [0, 0, 0])
    (fun st => st.calls[0]? == some (hello, true) && firstGone tinyFile st) (by decide +kernel)
  rw [Bool.and_eq_true, beq_iff_eq] at hst
  have hkept := (h tinyFile st hreach).firstGone hst.1
  rw [hst.2] at hkept
  cases hkept

/-- Three archives of three milliseconds. -/
theorem kept_threeTimes :
    ∃ st, st.calls.length = 3 ∧ st.archivings = [0, 1000000, 2000000] ∧ Kept tinyFile st := by
  obtain ⟨st, hreach, hst⟩ := System.exists_reach (T := system tinyFile)
    (b := fun st a => decide (Succeeds a ∧ NewName tinyFile st a))
    (p := fun st a => Succeeds a ∧ NewName tinyFile st a)
    (fun _ _ => of_decide_eq_true) (initial_start false) (eventsAt [0, 1000000, 2000000])
    (fun st => st.calls.length == 3 && st.archivings == [0, 1000000, 2000000])
    (by decide +kernel)
  rw [Bool.and_eq_true, beq_iff_eq, beq_iff_eq] at hst
  exact ⟨st, hst.1, hst.2, kept_of_reach tinyFile hreach⟩

end FileStream

end Logfile
