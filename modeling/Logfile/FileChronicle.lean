import Logfile.LogDocument
import Logfile.Rotation

/-!
# The log files read one after the other

Where no operation fails and no two archivings have one name, the archives in the order of their
archiving, each a whole document, and then the log file, which still lacks its footer, hold the
lines of the events in the order of the calls of `do_write`, and nothing else (`Chronicle`). So
whoever reads them as XML gets the events back (`readBack_of_reach`).
-/

namespace Logfile

open Text

namespace FileStream

variable (p : FileParams)

/-- The archives hold `parts`, and the log file holds `rest`. -/
structure Chronicle (st : State) (parts : List (List LogEvent)) (rest : List LogEvent) :
    Prop where
  calls : st.calls = (parts.flatten ++ rest).map (·, true)
  archives : List.Forall₂ (fun t part => st.fs.content (archiveName p t) = some (logFile part))
    st.archivings parts
  raw : st.phase = .raw → st.stream.file = none ∧ st.archivings = []
  alive : st.phase = .alive → st.isopen = true ∧ (∃ i, st.Writable p i) ∧
    st.fs.content p.filename = some (logHeader ++ rest.flatMap logLine)
  dead : st.phase ≠ .alive → rest = []

/-! ## What the operations do to the files -/

variable {p} {st : State} {i : ℕ} {env : OpenEnv} {close : CloseEnv} {name : Bytes}

/-- `open` archives an earlier log file, and then starts a new one. -/
theorem openLog_content (hfile : st.stream.file = none) (henv : env.Succeeds) :
    ∃ st' : State, st'.stream.file = none ∧ st'.calls = st.calls ∧
      st'.archivings = st.archivings ∧ st.openLog p env = st'.start p env ∧
        (st'.start p env).2.fs.content p.filename = some logHeader := by
  have hstart : ∀ st' : State, st'.stream.file = none → st'.fs.dir p.filename = none →
      (st'.start p env).2.fs.content p.filename = some logHeader := by
    intro st' hfile' hnone
    rw [State.start_of_closed hfile' henv.fopen henv.header]
    dsimp only
    rw [FileSystem.content_append FileSystem.create_dir, if_pos rfl,
      FileSystem.content_create hnone, if_pos rfl]
    rfl
  unfold State.openLog
  cases hexists : st.exists p with
  | false =>
    simp only [Bool.false_and, Bool.false_eq_true, if_false]
    exact ⟨st, hfile, rfl, rfl, rfl, hstart st hfile (by simpa [State.exists] using hexists)⟩
  | true =>
    simp only [henv.stat, Bool.and_self, if_true, State.archive, hexists, henv.rename]
    exact ⟨{ st with fs := st.fs.rename p.filename (archiveName p (env.mtime.time p)) }, hfile,
      rfl, rfl, rfl, hstart _ hfile (FileSystem.rename_dir_old (State.archiveName_ne _))⟩

theorem content_closeLog (h : st.Writable p i) (hclose : close.Succeeds) :
    (st.closeLog p close).2.fs.content name =
      if name = archiveName p close.now then (st.fs.content p.filename).map (· ++ logFooter)
      else if name = p.filename then none else st.fs.content name := by
  rw [State.closeLog_of_writable h hclose]
  dsimp only
  rw [FileSystem.content_rename, FileSystem.content_append h.dir, if_pos rfl,
    FileSystem.content_append h.dir]
  split_ifs <;> rfl

theorem content_rotate (h : st.Writable p i) (hclose : close.Succeeds) (henv : env.Succeeds) :
    (st.rotate p close env).2.fs.content name = if name = p.filename then some logHeader
      else if name = archiveName p close.now then (st.fs.content p.filename).map (· ++ logFooter)
      else st.fs.content name := by
  obtain ⟨j, hj, -, -, hfs⟩ := rotate_of_writable h hclose henv
  have hdir := hj.dir
  rw [hfs, FileSystem.append_dir] at hdir
  have hgone : ((st.fs.append i (⟨none, logFooter⟩ : Chunk (Option ℕ))).rename p.filename
      (archiveName p close.now)).dir p.filename = none :=
    FileSystem.rename_dir_old (State.archiveName_ne _)
  rw [hfs, FileSystem.content_append hdir, FileSystem.content_create hgone,
    FileSystem.content_rename, FileSystem.content_append h.dir, if_pos rfl,
    FileSystem.content_append h.dir]
  split_ifs <;> rfl

/-! ## The steps -/

variable {parts : List (List LogEvent)} {rest : List LogEvent}

theorem Chronicle.raw_empty (h : Chronicle p st parts rest) (hraw : st.phase = .raw) :
    parts = [] ∧ rest = [] := by
  have hparts := h.archives
  rw [(h.raw hraw).2] at hparts
  exact ⟨List.forall₂_nil_left_iff.1 hparts, h.dead (by simp [hraw])⟩

/-- The archives stay as they are when other files change. -/
theorem Chronicle.archives_congr (h : Chronicle p st parts rest)
    {fs : FileSystem Bytes (Chunk (Option ℕ))} (hcontent : ∀ t ∈ st.archivings,
      fs.content (archiveName p t) = st.fs.content (archiveName p t)) :
    List.Forall₂ (fun t part => fs.content (archiveName p t) = some (logFile part))
      st.archivings parts := by
  have harchives := h.archives
  rw [List.forall₂_iff_get] at harchives ⊢
  refine ⟨harchives.1, fun k hk hk' => ?_⟩
  rw [hcontent _ (List.get_mem _ _)]
  exact harchives.2 k hk hk'

theorem chronicle_construct (h : Chronicle p st parts rest) (hraw : st.phase = .raw)
    (henv : env.Succeeds) :
    Chronicle p { (st.openLog p env).2 with phase := .alive } [] [] := by
  obtain ⟨rfl, rfl⟩ := h.raw_empty hraw
  obtain ⟨hfile, harch⟩ := h.raw hraw
  obtain ⟨st', hfile', hcalls, harch', heq, hcontent⟩ := openLog_content (p := p) hfile henv
  rw [heq]
  rw [State.start_of_closed hfile' henv.fopen henv.header] at hcontent ⊢
  refine ⟨hcalls.trans h.calls, ?_, nofun, fun _ => ⟨rfl, ⟨_, rfl, rfl, FileSystem.create_dir⟩, ?_⟩,
    fun hne => absurd rfl hne⟩
  · dsimp only
    rw [harch', harch]
    exact .nil
  · simpa using hcontent

/-- The log file becomes one more archive. -/
theorem Chronicle.archive (h : Chronicle p st parts rest) (halive : st.phase = .alive) {now : ℤ}
    (hnew : ∀ t ∈ st.archivings, formatTimestamp t ≠ formatTimestamp now)
    {fs : FileSystem Bytes (Chunk (Option ℕ))} (hcontent : ∀ name, name ≠ p.filename →
      fs.content name = if name = archiveName p now then
        (st.fs.content p.filename).map (· ++ logFooter) else st.fs.content name) :
    List.Forall₂ (fun t part => fs.content (archiveName p t) = some (logFile part))
      (st.archivings ++ [now]) (parts ++ [rest]) := by
  refine List.rel_append (h.archives_congr fun t ht => ?_) (.cons ?_ .nil)
  · have hne : archiveName p t ≠ archiveName p now := by
      intro heq
      exact hnew t ht (List.append_cancel_left heq)
    rw [hcontent _ (State.archiveName_ne t).symm, if_neg hne]
  · rw [hcontent _ (State.archiveName_ne now).symm, if_pos rfl, (h.alive halive).2.2,
      Option.map_some, logFile, List.append_assoc]

theorem Chronicle.rotate (h : Chronicle p st parts rest) (halive : st.phase = .alive)
    (hclose : close.Succeeds) (henv : env.Succeeds)
    (hnew : ∀ t ∈ st.archivings, formatTimestamp t ≠ formatTimestamp close.now) :
    Chronicle p (st.rotate p close env).2 (parts ++ [rest]) [] := by
  obtain ⟨-, ⟨i, hi⟩, -⟩ := h.alive halive
  have hsame : State.SameCalls st (st.rotate p close env).2 := State.sameCalls_rotate close env
  obtain ⟨j, hj, hopen, harch, -⟩ := rotate_of_writable hi hclose henv
  have hcontent := fun name => @content_rotate _ _ _ _ _ name hi hclose henv
  refine ⟨?_, ?_, fun hraw => ?_, fun _ => ⟨hopen, ⟨j, hj⟩, ?_⟩, fun _ => rfl⟩
  · rw [hsame.calls, h.calls]
    simp
  · rw [harch]
    refine h.archive halive hnew fun name hname => ?_
    rw [hcontent, if_neg hname]
  · rw [hsame.phase, halive] at hraw
    cases hraw
  · rw [hcontent, if_pos rfl]
    simp

/-- The line of an event goes to the end of the log file. -/
theorem Chronicle.put (h : Chronicle p st parts rest) (halive : st.phase = .alive)
    (source : Option ℕ) (le : LogEvent) :
    Chronicle p { st.put source (logLine le) none with calls := st.calls ++ [(le, true)] }
      parts (rest ++ [le]) := by
  obtain ⟨hopen, ⟨i, hi⟩, hcontent⟩ := h.alive halive
  have hput := hi.put source (logLine le)
  rw [State.put_of_writable hi] at hput ⊢
  refine ⟨?_, h.archives_congr fun t ht => ?_, fun hraw => ?_, fun _ =>
    ⟨hopen, ⟨i, hput.file, hput.good, hput.dir⟩, ?_⟩, fun hne => absurd halive hne⟩
  · simp [h.calls]
  · rw [FileSystem.content_append hi.dir, if_neg (State.archiveName_ne t).symm]
  · rw [halive] at hraw
    cases hraw
  · dsimp only
    rw [FileSystem.content_append hi.dir, if_pos rfl, hcontent]
    simp

theorem chronicle_write (h : Chronicle p st parts rest) (halive : st.phase = .alive)
    {le : LogEvent} {env : WriteEnv} (henv : env.Succeeds) (hnew : NewName p st (.write le env)) :
    ∃ parts' rest', Chronicle p { (st.doWrite p le env).2 with
      calls := st.calls ++ [(le, (st.doWrite p le env).1)] } parts' rest' := by
  obtain ⟨hopen, -, -⟩ := h.alive halive
  have hfront : ∃ st' : State, ∃ parts' rest', Chronicle p st' parts' rest' ∧
      st'.phase = .alive ∧ st'.calls = st.calls ∧ st.doWrite p le env =
        ((st'.put (some st'.calls.length) (logLine le) none).stream.good,
          st'.put (some st'.calls.length) (logLine le) none) := by
    simp only [State.doWrite, State.writeLine, if_pos hopen, henv.line]
    cases hfull : st.full p (logLine le) with
    | true =>
      have hsame : State.SameCalls st (st.rotate p env.close env.second).2 :=
        State.sameCalls_rotate env.close env.second
      have hrotated := h.rotate halive henv.close henv.second
        (hnew env.close.now (if_pos hfull))
      exact ⟨_, _, _, hrotated, hsame.phase.trans halive, hsame.calls, rfl⟩
    | false => exact ⟨st, parts, rest, h, halive, rfl, rfl⟩
  obtain ⟨st', parts', rest', hfront, halive', hcalls, heq⟩ := hfront
  obtain ⟨-, ⟨i, hi⟩, -⟩ := hfront.alive halive'
  have hgood : (st'.put (some st'.calls.length) (logLine le) none).stream.good = true := by
    rw [Ofstream.good, (hi.put _ _).good, Bool.not_false]
  rw [heq, hgood, ← hcalls]
  exact ⟨parts', rest' ++ [le], hfront.put halive' _ le⟩

theorem chronicle_destroy {close : CloseEnv} (h : Chronicle p st parts rest)
    (halive : st.phase = .alive) (hclose : close.Succeeds)
    (hnew : NewName p st (.destroy close)) :
    Chronicle p { (st.closeLog p close).2 with phase := .destroyed } (parts ++ [rest]) [] := by
  obtain ⟨-, ⟨i, hi⟩, -⟩ := h.alive halive
  have hcontent := fun name => @content_closeLog _ _ _ _ name hi hclose
  rw [State.closeLog_of_writable hi hclose] at hcontent ⊢
  refine ⟨?_, h.archive halive (hnew close.now rfl) fun name hname => ?_, nofun, nofun,
    fun _ => rfl⟩
  · simp [h.calls]
  · rw [hcontent, if_neg hname]

theorem chronicle_step {st' : State} {a : Action} (h : ∃ parts rest, Chronicle p st parts rest)
    (hok : Succeeds a) (hnew : NewName p st a) (hstep : step p st a = some st') :
    ∃ parts rest, Chronicle p st' parts rest := by
  obtain ⟨parts, rest, h⟩ := h
  cases a with
  | construct env =>
    simp only [step, Option.ite_none_right_eq_some, Option.some.injEq] at hstep
    obtain ⟨hraw, rfl⟩ := hstep
    exact ⟨[], [], chronicle_construct h hraw hok⟩
  | write le env =>
    simp only [step, Option.ite_none_right_eq_some, Option.some.injEq] at hstep
    obtain ⟨halive, rfl⟩ := hstep
    exact chronicle_write h halive hok hnew
  | destroy env =>
    simp only [step, Option.ite_none_right_eq_some, Option.some.injEq] at hstep
    obtain ⟨halive, rfl⟩ := hstep
    exact ⟨parts ++ [rest], [], chronicle_destroy h halive hok hnew⟩

/-- In a run without failures that archives under new names, the files are a chronicle. -/
theorem chronicle_of_reach (h : (system p).Reach (fun st a => Succeeds a ∧ NewName p st a) st) :
    ∃ parts rest, Chronicle p st parts rest := by
  refine h.invariant (fun st hinit => ⟨[], [], ?_⟩) fun st a st' _ hc hok hstep =>
    chronicle_step hc hok.1 hok.2 hstep
  refine ⟨hinit.calls, ?_, fun _ => ⟨?_, hinit.archivings⟩, fun halive => ?_, fun _ => rfl⟩
  · rw [hinit.archivings]
    exact .nil
  · rw [hinit.stream]
    rfl
  · rw [hinit.phase] at halive
    cases halive

/-! ## Reading the files -/

/-- The elements in the archives of the given times. -/
def readArchives (p : FileParams) (fs : FileSystem Bytes (Chunk (Option ℕ))) :
    List ℤ → Option (List Message)
  | [] => some []
  | t :: ts => do
    let ms ← decodeFile (← fs.content (archiveName p t))
    return ms ++ (← readArchives p fs ts)

/-- The elements in the log file, which has no footer while the stream lives. -/
def readCurrent (p : FileParams) (st : State) : Option (List Message) :=
  if st.phase = .alive then
    (st.fs.content p.filename).bind fun text => decodeFile (text ++ logFooter)
  else some []

/-- The elements in all files of the stream, the oldest first. -/
def readBack (p : FileParams) (st : State) : Option (List Message) := do
  let archived ← readArchives p st.fs st.archivings
  return archived ++ (← readCurrent p st)

/-- The events that a log file can be read back from. -/
def Readable (f : TimeFormat) (le : LogEvent) : Prop :=
  Logged f le ∧ Legible le

theorem decodeFile_logFile {f : TimeFormat} (hf : f.Numeric) {les : List LogEvent}
    (h : ∀ le ∈ les, Readable f le) : decodeFile (logFile les) = some (les.map messageOf) :=
  (decodeFile_iff_legible hf fun le hle => (h le hle).1).2 fun le hle => (h le hle).2

theorem readArchives_eq {f : TimeFormat} (hf : f.Numeric)
    {fs : FileSystem Bytes (Chunk (Option ℕ))} {ts : List ℤ} {parts : List (List LogEvent)}
    (h : List.Forall₂ (fun t part => fs.content (archiveName p t) = some (logFile part)) ts parts)
    (hread : ∀ le ∈ parts.flatten, Readable f le) :
    readArchives p fs ts = some (parts.flatten.map messageOf) := by
  induction h with
  | nil => rfl
  | cons hpart _ ih =>
    rw [List.flatten_cons, List.forall_mem_append] at hread
    simp [readArchives, hpart, decodeFile_logFile hf hread.1, ih hread.2]

theorem Chronicle.readCurrent_eq {f : TimeFormat} (hf : f.Numeric)
    (h : Chronicle p st parts rest) (hread : ∀ le ∈ rest, Readable f le) :
    readCurrent p st = some (rest.map messageOf) := by
  unfold readCurrent
  split_ifs with halive
  · rw [(h.alive halive).2.2, Option.bind_some, List.append_assoc]
    exact decodeFile_logFile hf hread
  · rw [h.dead halive]
    rfl

theorem Chronicle.readBack_eq {f : TimeFormat} (hf : f.Numeric) (h : Chronicle p st parts rest)
    (hread : ∀ c ∈ st.calls, Readable f c.1) :
    readBack p st = some (st.calls.map fun c => messageOf c.1) := by
  rw [h.calls] at hread ⊢
  have hevents : ∀ le ∈ parts.flatten ++ rest, Readable f le := fun le hle =>
    hread (le, true) (List.mem_map_of_mem hle)
  rw [List.forall_mem_append] at hevents
  rw [readBack, readArchives_eq hf h.archives hevents.1, h.readCurrent_eq hf hevents.2]
  simp [Function.comp_def]

/-- Every call has succeeded, and the files are read back as the events of the calls, each once
and in their order. -/
theorem readBack_of_reach (p : FileParams) (f : TimeFormat) (hf : f.Numeric) {st : State}
    (h : (system p).Reach (fun st a => Succeeds a ∧ NewName p st a) st)
    (hread : ∀ c ∈ st.calls, Readable f c.1) :
    (∀ c ∈ st.calls, c.2 = true) ∧
      readBack p st = some (st.calls.map fun c => messageOf c.1) := by
  obtain ⟨parts, rest, hc⟩ := chronicle_of_reach h
  refine ⟨?_, hc.readBack_eq hf hread⟩
  rw [hc.calls]
  simp

/-- Each event is written to a file of its own. -/
def bracketsAt (times : List ℤ) : List Action :=
  .construct opened :: times.map fun now => .write bracketsEvent (written now)

theorem readBack_bracketsAt : ∃ st, st.archivings = [0, 1000000, 2000000] ∧
    readBack tinyFile st = some (List.replicate 3 (messageOf bracketsEvent)) := by
  obtain ⟨st, hreach, hst⟩ := System.exists_reach (T := system tinyFile)
    (b := fun st a => decide (Succeeds a ∧ NewName tinyFile st a))
    (p := fun st a => Succeeds a ∧ NewName tinyFile st a)
    (fun _ _ => of_decide_eq_true) (initial_start false) (bracketsAt [0, 1000000, 2000000])
    (fun st => st.archivings == [0, 1000000, 2000000] &&
      st.calls == List.replicate 3 (bracketsEvent, true)) (by decide +kernel)
  rw [Bool.and_eq_true, beq_iff_eq, beq_iff_eq] at hst
  have hlogged : Logged newYear bracketsEvent := ⟨rfl, by unfold XmlStrings; decide⟩
  have hlegible : Legible bracketsEvent :=
    ⟨⟨by decide, by decide⟩, ⟨by decide, by decide⟩, by decide⟩
  have hread := (readBack_of_reach tinyFile newYear newYear_numeric hreach (by
    rw [hst.2]
    simp [Readable, hlogged, hlegible])).2
  refine ⟨st, hst.1, ?_⟩
  rw [hread, hst.2]
  rfl

end FileStream

end Logfile
