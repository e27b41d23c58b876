import Logfile.FileSystem
import Logfile.LogLine
import Logfile.Runs

/-!
# A file stream

`output_stream_file` on a file system that nobody else changes : its constructor and
destructor, `do_write`, and what they call. The outcome of every operation of the system,
the times `stat` gives and the readings of the clock come with the action. The outcome of an
operation that is not made does not matter. The constructor leaves `m_isopen` as it finds it
unless `open` gets to its end, so the system starts with either value.

The state keeps the calls of `do_write` with their results, and the times at which `close`
archived the log file. A chunk of a file has the number of the call it comes from.
-/

namespace Logfile

open Text

/-- The arguments of the constructor, and whether `stat` gives nanoseconds
(`STRUCT_STAT_ST_MTIM_TV_NSEC`). -/
structure FileParams where
  filename : Bytes
  maxsize : ℤ
  statNsec : Bool

namespace FileStream

/-- What `stat` tells about the last modification. -/
structure Mtime where
  sec : ℤ
  nsec : ℕ

/-- The outcomes of the operations in `open`. -/
structure OpenEnv where
  stat : Bool
  mtime : Mtime
  rename : Bool
  fopen : Bool
  header : Option ℕ

/-- The outcomes of the operations in `close`. -/
structure CloseEnv where
  footer : Option ℕ
  close : Bool
  now : ℤ
  rename : Bool

/-- The outcomes of the operations in `do_write`. -/
structure WriteEnv where
  first : OpenEnv
  close : CloseEnv
  second : OpenEnv
  line : Option ℕ

/-- The object does not exist yet, exists, or has been destroyed. -/
inductive Phase
  | raw
  | alive
  | destroyed
  deriving DecidableEq

structure State where
  phase : Phase
  fs : FileSystem Bytes (Chunk (Option ℕ))
  stream : Ofstream
  isopen : Bool
  calls : List (LogEvent × Bool)
  archivings : List ℤ

inductive Action
  | construct (env : OpenEnv)
  | write (le : LogEvent) (env : WriteEnv)
  | destroy (env : CloseEnv)

variable (p : FileParams)

/-- `as.str()` of `archive` -/
def archiveName (t : ℤ) : Bytes :=
  p.filename ++ ascii "-" ++ formatTimestamp t

/-- The log file exists. -/
def State.exists (st : State) : Bool :=
  (st.fs.dir p.filename).isSome

/-- The time that `open` archives an earlier log file under. -/
def Mtime.time (m : Mtime) : ℤ :=
  if p.statNsec then m.sec * 1000000000 + (m.nsec / 1000000 : ℕ) * 1000000 else m.sec * 1000000000

namespace State

/-- `m_stream << text; m_stream.flush();` -/
def put (st : State) (source : Option ℕ) (text : Bytes) (outcome : Option ℕ) : State :=
  { st with
    fs := (st.stream.put st.fs ⟨source, text⟩ outcome).1
    stream := (st.stream.put st.fs ⟨source, text⟩ outcome).2 }

/-- `archive(t)` -/
def archive (st : State) (t : ℤ) (ok : Bool) : Bool × State :=
  if st.exists p && ok then (true, { st with fs := st.fs.rename p.filename (archiveName p t) })
  else (false, st)

/-- `m_stream.open(m_filename)` -/
def fopen (st : State) (ok : Bool) : State :=
  { st with
    fs := (st.stream.openFile st.fs p.filename ok).1
    stream := (st.stream.openFile st.fs p.filename ok).2 }

/-- What `open` does when the way is free. -/
def start (st : State) (env : OpenEnv) : Bool × State :=
  let st := (st.fopen p env.fopen).put none logHeader env.header
  (st.stream.good, { st with isopen := st.stream.good })

/-- `open()` -/
def openLog (st : State) (env : OpenEnv) : Bool × State :=
  if st.exists p && env.stat then
    let (ok, st) := st.archive p (env.mtime.time p) env.rename
    if ok then st.start p env else (false, st)
  else st.start p env

/-- `close()`, which archives under the time it is called at. -/
def closeLog (st : State) (env : CloseEnv) : Bool × State :=
  let st := st.put none logFooter env.footer
  let st :=
    { st with stream := st.stream.close env.close, archivings := st.archivings ++ [env.now] }
  st.archive p env.now env.rename

/-- `rotate()` -/
def rotate (st : State) (close : CloseEnv) (env : OpenEnv) : Bool × State :=
  (st.closeLog p close).2.openLog p env

/-- The file would grow beyond its maximum size. -/
def full (st : State) (line : Bytes) : Bool :=
  st.stream.tellp + (line.length + 12) > p.maxsize

/-- The part of `do_write` behind the check of `m_isopen`. -/
def writeLine (st : State) (le : LogEvent) (env : WriteEnv) : Bool × State :=
  let line := logLine le
  let st := if st.full p line then (st.rotate p env.close env.second).2 else st
  let st := st.put (some st.calls.length) line env.line
  (st.stream.good, st)

/-- `do_write(le)` -/
def doWrite (st : State) (le : LogEvent) (env : WriteEnv) : Bool × State :=
  if st.isopen then st.writeLine p le env
  else
    let (ok, st) := st.openLog p env.first
    if ok then st.writeLine p le env else (false, st)

end State

def step (st : State) : Action → Option State
  | .construct env =>
    if st.phase = .raw then some { (st.openLog p env).2 with phase := .alive } else none
  | .write le env =>
    if st.phase = .alive then
      let (ok, st') := st.doWrite p le env
      some { st' with calls := st.calls ++ [(le, ok)] }
    else none
  | .destroy env =>
    if st.phase = .alive then some { (st.closeLog p env).2 with phase := .destroyed } else none

/-- Nothing is constructed, and no file has an event of the stream. -/
structure State.Initial (st : State) : Prop where
  phase : st.phase = .raw
  stream : st.stream = .closed
  files : ∀ i, ∀ c ∈ st.fs.files i, c.source = none
  calls : st.calls = []
  archivings : st.archivings = []

def system : System State Action where
  init := State.Initial
  step := step p

/-! ## Scenarios -/

/-- A file of the default size. -/
def someFile : FileParams :=
  ⟨ascii "log", 10485760, true⟩

/-- An empty directory. -/
def start (isopen : Bool) : State :=
  ⟨.raw, ⟨fun _ => none, fun _ => [], 0, by simp, by simp⟩, .closed, isopen, [], []⟩

theorem initial_start (isopen : Bool) : (start isopen).Initial :=
  ⟨rfl, rfl, by simp [start], rfl, rfl⟩

/-- `open` without errors. -/
def opened : OpenEnv :=
  ⟨true, ⟨0, 0⟩, true, true, none⟩

/-- `do_write` without errors, at the time `now`. -/
def written (now : ℤ) : WriteEnv :=
  ⟨opened, ⟨none, true, now, true⟩, opened, none⟩

def hello : LogEvent :=
  ⟨.info, 0, ascii "Hallo Welt.", 0, ascii "main", ascii "example", ascii "1970-01-01 00:00:00.000"⟩

/-! ## What the operations do -/

/-- All operations of `open` succeed. -/
structure OpenEnv.Succeeds (env : OpenEnv) : Prop where
  stat : env.stat = true
  rename : env.rename = true
  fopen : env.fopen = true
  header : env.header = none

structure CloseEnv.Succeeds (env : CloseEnv) : Prop where
  footer : env.footer = none
  close : env.close = true
  rename : env.rename = true

structure WriteEnv.Succeeds (env : WriteEnv) : Prop where
  first : env.first.Succeeds
  close : env.close.Succeeds
  second : env.second.Succeeds
  line : env.line = none

/-- The stream has the file `i` open and can write to it, and it is the log file. -/
structure State.Writable (st : State) (i : ℕ) : Prop where
  file : st.stream.file = some i
  good : st.stream.failed = false
  dir : st.fs.dir p.filename = some i

namespace State

variable {p} {st : State} {i : ℕ} {env : OpenEnv} {close : CloseEnv}

theorem archiveName_ne (t : ℤ) : p.filename ≠ archiveName p t := by
  intro h
  have hlen := congrArg List.length h
  simp [archiveName, ascii] at hlen

/-- What the operations on the file leave alone. -/
structure SameCalls (st st' : State) : Prop where
  phase : st'.phase = st.phase
  calls : st'.calls = st.calls

theorem SameCalls.trans {st st' st'' : State} (h : SameCalls st st') (h' : SameCalls st' st'') :
    SameCalls st st'' :=
  ⟨h'.phase.trans h.phase, h'.calls.trans h.calls⟩

theorem sameCalls_put (source : Option ℕ) (text : Bytes) (o : Option ℕ) :
    SameCalls st (st.put source text o) := ⟨rfl, rfl⟩

theorem sameCalls_archive (t : ℤ) (ok : Bool) : SameCalls st (st.archive p t ok).2 := by
  unfold archive
  split <;> exact ⟨rfl, rfl⟩

@[simp] theorem archive_stream (t : ℤ) (ok : Bool) : (st.archive p t ok).2.stream = st.stream := by
  unfold archive
  split <;> rfl

theorem sameCalls_openLog (env : OpenEnv) : SameCalls st (st.openLog p env).2 := by
  unfold openLog
  dsimp only
  split
  · split
    · exact (sameCalls_archive _ _).trans ⟨rfl, rfl⟩
    · exact sameCalls_archive _ _
  · exact ⟨rfl, rfl⟩

theorem sameCalls_closeLog (close : CloseEnv) : SameCalls st (st.closeLog p close).2 := by
  unfold closeLog archive
  dsimp only
  split <;> exact ⟨rfl, rfl⟩

theorem sameCalls_rotate (close : CloseEnv) (env : OpenEnv) :
    SameCalls st (st.rotate p close env).2 :=
  (sameCalls_closeLog close).trans (sameCalls_openLog env)

theorem sameCalls_writeLine (le : LogEvent) (env : WriteEnv) :
    SameCalls st (st.writeLine p le env).2 := by
  unfold writeLine
  dsimp only
  split
  · exact (sameCalls_rotate _ _).trans (sameCalls_put _ _ _)
  · exact sameCalls_put _ _ _

theorem sameCalls_doWrite (le : LogEvent) (env : WriteEnv) :
    SameCalls st (st.doWrite p le env).2 := by
  unfold doWrite
  dsimp only
  split
  · exact sameCalls_writeLine le env
  · split
    · exact (sameCalls_openLog _).trans (sameCalls_writeLine le env)
    · exact sameCalls_openLog _

theorem put_of_writable (h : st.Writable p i) (source : Option ℕ) (text : Bytes) :
    st.put source text none =
      { st with
        fs := st.fs.append i ⟨source, text⟩
        stream := { st.stream with pos := st.stream.pos + text.length } } := by
  rw [put, Ofstream.put_of_open h.file h.good]

theorem Writable.put (h : st.Writable p i) (source : Option ℕ) (text : Bytes) :
    (st.put source text none).Writable p i := by
  rw [put_of_writable h]
  exact ⟨h.file, h.good, h.dir⟩

/-- The log file of a stream without a file is opened. -/
theorem start_of_closed (hfile : st.stream.file = none) (hfopen : env.fopen = true)
    (hheader : env.header = none) : st.start p env =
      (true, { st with
        fs := (st.fs.create p.filename).1.append (st.fs.create p.filename).2 ⟨none, logHeader⟩
        stream := ⟨some (st.fs.create p.filename).2, false, logHeader.length⟩
        isopen := true }) := by
  have hopen : (st.fopen p true).Writable p (st.fs.create p.filename).2 := by
    rw [fopen, Ofstream.openFile_of_closed hfile]
    exact ⟨rfl, rfl, FileSystem.create_dir⟩
  rw [start, hfopen, hheader, put_of_writable hopen, fopen, Ofstream.openFile_of_closed hfile]
  simp [Ofstream.good]

/-- The log file is closed and archived. -/
theorem closeLog_of_writable (h : st.Writable p i) (hclose : close.Succeeds) :
    (st.closeLog p close).2 =
      { st with
        fs := (st.fs.append i ⟨none, logFooter⟩).rename p.filename (archiveName p close.now)
        stream := ⟨none, false, st.stream.pos + logFooter.length⟩
        archivings := st.archivings ++ [close.now] } := by
  have hexists : (st.fs.append i (⟨none, logFooter⟩ : Chunk (Option ℕ))).dir p.filename = some i :=
    h.dir
  rw [closeLog, hclose.footer, hclose.close, hclose.rename, put_of_writable h, archive]
  simp only [State.exists, hexists, Ofstream.close, h.file, h.good]
  rfl

end State

end FileStream

end Logfile
