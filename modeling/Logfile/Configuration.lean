import Logfile.ConsoleLine
import Logfile.ParseUrl
import Logfile.Sinks

/-!
# The commands and the configuration

The commands of the EPICS shell, with the calls of `logger` that they make, and
`dump_configuration`, which prints a line for the name and one for the level of every stream and
every subsystem.

`Config` is what the commands describe : a level for each name of a stream, and the subsystems in
the order of their registration. A URL that `parse_URL` or the constructor rejects makes its command
throw, and describes nothing. What is printed is that configuration (`dumped_of_run`), and it is
read back just if no name has the end of its line with what stands before the level
(`readDump_iff`). The same configuration decides what is done with an event (`filtered_of_run`).
-/

set_option linter.unusedSectionVars false

namespace Logfile.Commands

open Text Xml

/-! ## The names of the levels -/

/-- `logger_private::s_level_names` -/
def levelNames : List (LogLevel × Bytes) :=
  [(.finest, ascii "finest"), (.finer, ascii "finer"), (.fine, ascii "fine"),
    (.config, ascii "config"), (.info, ascii "info"), (.warning, ascii "warning"),
    (.severe, ascii "severe")]

/-- `level_by_name` -/
def levelByName (name : Bytes) : Except Exn LogLevel :=
  match levelNames.find? fun i => i.2 = name with
  | some i => .ok i.1
  | none => .error (.invalidArgument (ascii "Unknown level name."))

/-- `all_levels` -/
def allLevels : List LogLevel :=
  levelNames.map Prod.fst

theorem levelByName_name (l : LogLevel) : levelByName l.name = .ok l := by
  cases l <;> decide

/-! ## The text of the configuration -/

/-- What `dump_configuration` shows : `SuS_LOG_MINLEVEL`, and the names with their levels. -/
structure Dump where
  minLevel : LogLevel
  streams : List (Bytes × LogLevel)
  subsystems : List (Bytes × LogLevel)
  deriving DecidableEq

/-- What stands between a name and its level. -/
def levelSep : Bytes := ascii "\n     min. log level: "

/-- `output_stream::dump`, and the same for a subsystem. -/
def dumpEntry (e : Bytes × LogLevel) : Bytes :=
  ascii "   - " ++ e.1 ++ levelSep ++ e.2.name ++ ascii "\n"

def Dump.text (d : Dump) : Bytes :=
  ascii "global min. log level (compile-time): " ++ d.minLevel.name ++ ascii "\n" ++
    ascii "active output streams:\n" ++ d.streams.flatMap dumpEntry ++
      ascii "active logging subsystems\n" ++ d.subsystems.flatMap dumpEntry

/-- The level up to the end of the line. -/
def readLevel (s : Bytes) : Option (LogLevel × Bytes) := do
  let (name, s) ← upTo (ascii "\n") s
  let level ← (levelByName name).toOption
  return (level, s)

def readEntry (s : Bytes) : Option ((Bytes × LogLevel) × Bytes) := do
  let (name, s) ← upTo levelSep s
  let (level, s) ← readLevel s
  return ((name, level), s)

/-- The entries, and what is behind the last one. Every round consumes one. -/
def readEntries : ℕ → Bytes → Option (List (Bytes × LogLevel) × Bytes)
  | 0, s => some ([], s)
  | fuel + 1, s =>
    match expect (ascii "   - ") s with
    | none => some ([], s)
    | some s =>
      (readEntry s).bind fun (e, s) => (readEntries fuel s).map fun (es, s) => (e :: es, s)

def readDump (s : Bytes) : Option Dump := do
  let s ← expect (ascii "global min. log level (compile-time): ") s
  let (minLevel, s) ← readLevel s
  let s ← expect (ascii "active output streams:\n") s
  let (streams, s) ← readEntries s.length s
  let s ← expect (ascii "active logging subsystems\n") s
  let (subsystems, s) ← readEntries s.length s
  if s.isEmpty then some ⟨minLevel, streams, subsystems⟩ else none

/-! ## Reading it back -/

section Read

variable {e : Bytes × LogLevel} {es : List (Bytes × LogLevel)} {rest : Bytes}

theorem levelSep_unbordered : Unbordered levelSep := by decide

theorem readLevel_name (l : LogLevel) (s : Bytes) :
    readLevel (l.name ++ (ascii "\n" ++ s)) = some (l, s) := by
  have hfree : ¬ascii "\n" <:+: l.name := by cases l <;> decide
  rw [readLevel, upTo_append (by decide) hfree]
  simp [levelByName_name, Except.toOption]

theorem readEntry_eq (h : ¬levelSep <:+: e.1) (s : Bytes) :
    readEntry (e.1 ++ (levelSep ++ (e.2.name ++ (ascii "\n" ++ s)))) = some (e, s) := by
  rw [readEntry, upTo_append levelSep_unbordered h]
  simp [readLevel_name]

/-- If the separator stands in the name, a shorter name is read. -/
theorem readEntry_ne (h : levelSep <:+: e.1) {s r : Bytes} {e' : Bytes × LogLevel}
    (hread : readEntry (e.1 ++ s) = some (e', r)) : e' ≠ e := by
  obtain ⟨⟨name, s'⟩, hname, hrest⟩ := Option.bind_eq_some_iff.1 hread
  obtain ⟨⟨level, s''⟩, -, heq⟩ := Option.bind_eq_some_iff.1 hrest
  have hlt := upTo_of_infix (by decide) h _ hname
  obtain ⟨rfl, -⟩ := Prod.mk.inj (Option.some.inj heq)
  rintro rfl
  exact lt_irrefl _ hlt

theorem readEntries_nil (fuel : ℕ) (h : ¬ascii "   - " <+: rest) :
    readEntries fuel rest = some ([], rest) := by
  cases fuel with
  | zero => rfl
  | succ fuel => simp [readEntries, expect, h]

theorem readEntries_cons (fuel : ℕ) (e : Bytes × LogLevel) (s : Bytes) :
    readEntries (fuel + 1) (dumpEntry e ++ s) =
      (readEntry (e.1 ++ (levelSep ++ (e.2.name ++ (ascii "\n" ++ s))))).bind fun r =>
        (readEntries fuel r.2).map fun q => (r.1 :: q.1, q.2) := by
  rw [dumpEntry, readEntries]
  simp only [List.append_assoc, expect_append]

/-- The entries are read just if the separator stands in no name. -/
theorem readEntries_iff (hrest : ¬ascii "   - " <+: rest) : ∀ {es : List (Bytes × LogLevel)}
    {fuel : ℕ}, es.length ≤ fuel → ((∀ e ∈ es, ¬levelSep <:+: e.1) ↔
      ∃ r, readEntries fuel (es.flatMap dumpEntry ++ rest) = some (es, r))
  | [], fuel, _ => by simp [readEntries_nil fuel hrest]
  | e :: es, 0, hfuel => by simp at hfuel
  | e :: es, fuel + 1, hfuel => by
    have ih := @readEntries_iff hrest es fuel (Nat.le_of_succ_le_succ hfuel)
    rw [List.flatMap_cons, List.append_assoc, readEntries_cons, List.forall_mem_cons, ih]
    by_cases hfree : levelSep <:+: e.1
    · refine iff_of_false (fun h => h.1 hfree) ?_
      rintro ⟨r, hr⟩
      obtain ⟨⟨e', s⟩, hentry, hmap⟩ := Option.bind_eq_some_iff.1 hr
      obtain ⟨q, -, heq⟩ := Option.map_eq_some_iff.1 hmap
      exact readEntry_ne hfree hentry (List.cons.inj (Prod.mk.inj heq).1).1
    · rw [readEntry_eq hfree]
      simp [hfree, Prod.ext_iff]

/-- What is behind the entries is left. -/
theorem readEntries_eq (hrest : ¬ascii "   - " <+: rest) : ∀ {es : List (Bytes × LogLevel)}
    {fuel : ℕ}, es.length ≤ fuel → (∀ e ∈ es, ¬levelSep <:+: e.1) →
      readEntries fuel (es.flatMap dumpEntry ++ rest) = some (es, rest)
  | [], fuel, _, _ => readEntries_nil fuel hrest
  | e :: es, 0, hfuel, _ => by simp at hfuel
  | e :: es, fuel + 1, hfuel, h => by
    obtain ⟨he, hes⟩ := List.forall_mem_cons.1 h
    have ih := readEntries_eq hrest (Nat.le_of_succ_le_succ hfuel) hes
    rw [List.flatMap_cons, List.append_assoc, readEntries_cons, readEntry_eq he]
    simp [ih]

theorem length_le_flatMap_dumpEntry : ∀ es : List (Bytes × LogLevel),
    es.length ≤ (es.flatMap dumpEntry).length
  | [] => le_rfl
  | e :: es => by
    have ih := length_le_flatMap_dumpEntry es
    have hpos : 0 < (dumpEntry e).length := by simp [dumpEntry, ascii]
    rw [List.flatMap_cons, List.length_append, List.length_cons]
    omega

/-- No entry begins where the subsystems do. -/
theorem not_entry_header (s : Bytes) :
    ¬ascii "   - " <+: ascii "active logging subsystems\n" ++ s := by
  intro h
  rcases List.prefix_or_prefix_of_prefix h (List.prefix_append _ _) with h | h
  · exact absurd h (by decide)
  · exact absurd h (by decide)

/-- The rest of the text is fuel enough. -/
theorem length_le_append (es : List (Bytes × LogLevel)) (rest : Bytes) :
    es.length ≤ (es.flatMap dumpEntry ++ rest).length := by
  have hle := length_le_flatMap_dumpEntry es
  rw [List.length_append]
  omega

/-- What is left to read behind the minimum level. -/
theorem readDump_text (d : Dump) : readDump d.text =
    (readEntries (d.streams.flatMap dumpEntry ++ (ascii "active logging subsystems\n" ++
        d.subsystems.flatMap dumpEntry)).length
      (d.streams.flatMap dumpEntry ++ (ascii "active logging subsystems\n" ++
        d.subsystems.flatMap dumpEntry))).bind fun r =>
      (expect (ascii "active logging subsystems\n") r.2).bind fun s =>
        (readEntries s.length s).bind fun q =>
          if q.2.isEmpty then some ⟨d.minLevel, r.1, q.1⟩ else none := by
  rw [Dump.text, readDump]
  simp only [List.append_assoc, expect_append, Option.bind_eq_bind, Option.bind_some,
    readLevel_name]

/-- A text is read back as its configuration just if no name has the end of its line with what
stands before the level. -/
theorem readDump_iff (d : Dump) :
    readDump d.text = some d ↔ ∀ e ∈ d.streams ++ d.subsystems, ¬levelSep <:+: e.1 := by
  obtain ⟨minLevel, streams, subsystems⟩ := d
  have hend : ¬ascii "   - " <+: ([] : Bytes) := by decide
  have hsecond := readEntries_iff hend (length_le_append subsystems [])
  have hfirst := readEntries_iff (not_entry_header (subsystems.flatMap dumpEntry))
    (length_le_append streams (ascii "active logging subsystems\n" ++
      subsystems.flatMap dumpEntry))
  rw [readDump_text, List.forall_mem_append]
  constructor
  · intro h
    obtain ⟨⟨es, s⟩, hes, h⟩ := Option.bind_eq_some_iff.1 h
    obtain ⟨s', hs', h⟩ := Option.bind_eq_some_iff.1 h
    obtain ⟨⟨es', s''⟩, hes', h⟩ := Option.bind_eq_some_iff.1 h
    dsimp only at h
    split_ifs at h
    obtain ⟨-, rfl, rfl⟩ := Dump.mk.inj (Option.some.inj h)
    have hstreams := hfirst.2 ⟨s, hes⟩
    refine ⟨hstreams, hsecond.2 ⟨s'', ?_⟩⟩
    -- the header is expected where the streams end, so the subsystems are read from behind it
    rw [readEntries_eq (not_entry_header _) (length_le_append _ _) hstreams, Option.some.injEq,
      Prod.mk.injEq] at hes
    rw [← hes.2, expect_append, Option.some.injEq] at hs'
    rw [List.append_nil, hs']
    exact hes'
  · rintro ⟨hstreams, hsubsystems⟩
    have hes' := readEntries_eq hend (length_le_append subsystems []) hsubsystems
    rw [List.append_nil] at hes'
    rw [readEntries_eq (not_entry_header _) (length_le_append _ _) hstreams]
    simp only [Option.bind_some, expect_append, hes', List.isEmpty_nil, if_true]

end Read

/-! ## The commands -/

/-- A `std::string` as a key of the registry of sinks : each byte is a character. -/
def str (b : Bytes) : String :=
  String.ofList (b.map fun c => Char.ofNat c.toNat)

/-- The constructor of `output_stream_stomp` : the host of the URL, unless it throws. `openssl` is
`OPENSSL_FOUND`. -/
def stompHost (openssl : Bool) (url : Bytes) : Except Exn Bytes :=
  match parseURL url ⟨ascii "stomp", [], [], [], 61613, ascii "LOG"⟩ with
  | (.error e, _) => .error e
  | (.ok (), parts) =>
    if parts.protocol = ascii "stomp" ∨ openssl ∧ parts.protocol = ascii "stomp+ssl" then
      .ok parts.host
    else if openssl then
      .error (.invalidArgument (ascii "Only stomp and stomp+ssl protocols are supported."))
    else .error (.invalidArgument (ascii "Only stomp protocol is supported."))

/-- The registries, and what has been written to `std::cerr` and `std::cout`. What the library logs
itself is left out. -/
structure State where
  sinks : Sinks.State
  logger : Logger.LoggerPrivate
  err : Bytes
  out : Bytes

inductive Command
  /-- `LogfileAddFileStream` -/
  | addFileStream (filename : Bytes)
  /-- `LogfileAddStompStream` -/
  | addStompStream (server : Bytes)
  /-- `LogfileDump` -/
  | dump
  /-- `LogfileSetMinLevel` -/
  | setMinLevel (stream level : Bytes)
  /-- `LogfileSetSubsystemMinLevel` -/
  | setSubsystemMinLevel (subsystem level : Bytes)
  /-- `register_subsystem`, which a `subsystem_registrator` calls -/
  | register (name : Bytes)

/-- `dump_configuration` -/
def dumpConfiguration (minLevel : LogLevel) (st : State) : Bytes :=
  Dump.text
    { minLevel
      streams := st.sinks.streams.entries.map fun i =>
        (ascii (st.sinks.sinks i.2).kind.name, (st.sinks.sinks i.2).minLogLevel)
      subsystems := st.logger.subsystems.entries.map fun i => (i.2.name, i.2.minLevel) }

/-- One command, with the exception that leaves it. -/
def step (openssl : Bool) (minLevel : LogLevel) (st : State) :
    Command → Option (Except Exn Unit × State)
  | .addFileStream filename =>
    (Sinks.step minLevel st.sinks (.add (.file (str filename)) "")).map fun sinks =>
      (.ok (), { st with sinks })
  | .addStompStream server =>
    match stompHost openssl server with
    | .error e => some (.error e, st)
    | .ok host =>
      (Sinks.step minLevel st.sinks (.add (.stomp (str host)) "")).map fun sinks =>
        (.ok (), { st with sinks })
  | .dump => some (.ok (), { st with out := st.out ++ dumpConfiguration minLevel st })
  | .setMinLevel stream level =>
    match levelByName level with
    | .ok level =>
      if (st.sinks.streams.find (str stream)).isSome then
        (Sinks.step minLevel st.sinks (.setMinLogLevel (str stream) level)).map fun sinks =>
          (.ok (), { st with sinks })
      else
        some (.ok (), { st with
          err := st.err ++ ascii "Unknown output stream '" ++ stream ++ ascii "'\n" })
    | .error _ =>
      some (.ok (), { st with
        err := st.err ++ ascii "Unknown log level '" ++ level ++ ascii "'\nKnown levels are:" ++
          allLevels.flatMap fun i => ascii "   - " ++ i.name ++ ascii "\n" })
  | .setSubsystemMinLevel subsystem level =>
    match levelByName level, Logger.findSubsystem st.logger subsystem with
    | .ok level, .ok id =>
      (Logger.setSubsystemMinLogLevel st.logger id level).map fun logger =>
        (.ok (), { st with logger })
    | _, _ => some (.ok (), st)
  | .register name =>
    some (.ok (), { st with logger := (Logger.registerSubsystem minLevel st.logger name).2 })

/-- The logger after its construction. -/
def start (minLevel : LogLevel) : State :=
  ⟨Sinks.start minLevel, ⟨.empty, 0, []⟩, [], []⟩

/-- The commands one after the other, with how each of them ends. An exception goes to the caller,
who goes on. -/
def run (openssl : Bool) (minLevel : LogLevel) (st : State) :
    List Command → Option (List (Except Exn Unit) × State)
  | [] => some ([], st)
  | c :: cs =>
    (step openssl minLevel st c).bind fun (r, st) =>
      (run openssl minLevel st cs).map fun (rs, st) => (r :: rs, st)

/-! ## What they describe -/

/-- The level of the stream with a name, and the subsystems in the order of registration. -/
structure Config where
  streams : Bytes → Option LogLevel
  subsystems : List (Bytes × LogLevel)

namespace Config

/-- A stream whose name is taken is not added. -/
def addStream (minLevel : LogLevel) (c : Config) (name : Bytes) : Config :=
  if (c.streams name).isSome then c
  else { c with streams := Function.update c.streams name (some minLevel) }

/-- An unknown name of a stream, a subsystem or a level changes nothing, and neither does a URL that
is rejected. -/
def apply (openssl : Bool) (minLevel : LogLevel) (c : Config) : Command → Config
  | .addFileStream filename => c.addStream minLevel (ascii "file: '" ++ filename ++ ascii "'")
  | .addStompStream server =>
    match stompHost openssl server with
    | .ok host => c.addStream minLevel (ascii "stomp: " ++ host)
    | .error _ => c
  | .dump => c
  | .setMinLevel stream level =>
    match levelByName level with
    | .ok level =>
      { c with streams := Function.update c.streams stream ((c.streams stream).map fun _ => level) }
    | .error _ => c
  | .setSubsystemMinLevel subsystem level =>
    match levelByName level with
    | .ok level =>
      { c with subsystems := c.subsystems.map fun e => if e.1 = subsystem then (e.1, level) else e }
    | .error _ => c
  | .register name =>
    if c.subsystems.any fun e => e.1 = name then c
    else { c with subsystems := c.subsystems ++ [(name, minLevel)] }

theorem any_iff_mem {c : Config} {name : Bytes} :
    (c.subsystems.any fun e => e.1 = name) = true ↔ name ∈ c.subsystems.map Prod.fst := by
  simp

/-- There is the console, and no subsystem. -/
def start (minLevel : LogLevel) : Config :=
  ⟨Function.update (fun _ => none) (ascii "stdout") (some minLevel), []⟩

def after (openssl : Bool) (minLevel : LogLevel) (cs : List Command) : Config :=
  cs.foldl (apply openssl minLevel) (start minLevel)

end Config

/-- How a command ends. -/
def Command.result (openssl : Bool) : Command → Except Exn Unit
  | addStompStream server => (stompHost openssl server).map fun _ => ()
  | _ => .ok ()

/-! ## Names -/

theorem toNat_ofNat_byte (c : Byte) : (Char.ofNat c.toNat).toNat = c.toNat := by
  have hvalid : c.toNat.isValidChar := Or.inl (by have := c.toNat_lt; omega)
  rw [Char.toNat_ofNat, if_pos hvalid]

theorem ascii_str (b : Bytes) : ascii (str b) = b := by
  simp only [ascii, str, String.toList_ofList, List.map_map]
  refine (List.map_congr_left fun c _ => ?_).trans (List.map_id _)
  simp only [Function.comp_apply, toNat_ofNat_byte]
  exact UInt8.ofNat_toNat

theorem str_inj {a b : Bytes} : str a = str b ↔ a = b :=
  ⟨fun h => by rw [← ascii_str a, h, ascii_str], congrArg str⟩

theorem str_append (a b : Bytes) : str (a ++ b) = str a ++ str b := by
  rw [str, List.map_append, String.ofList_append]
  rfl

/-- A stream stands under its own name, and the handles count the subsystems. -/
structure Describes (c : Config) (st : State) : Prop where
  alive : st.sinks.destroyed = false
  named : ∀ key s, st.sinks.streams.find key = some s →
    (st.sinks.sinks s).kind.name = key ∧ s < st.sinks.count ∧ ∃ name, key = str name
  level : ∀ name, c.streams name =
    (st.sinks.streams.find (str name)).map fun s => (st.sinks.sinks s).minLogLevel
  subsystems : st.logger.subsystems.entries.map (fun i => (i.2.name, i.2.minLevel)) = c.subsystems
  next : st.logger.nextFreeSubsystemId.toNat = st.logger.subsystems.entries.length
  below : ∀ i ∈ st.logger.subsystems.entries, i.1 < st.logger.nextFreeSubsystemId
  nodup : (c.subsystems.map Prod.fst).Nodup

namespace Describes

variable {openssl : Bool} {minLevel : LogLevel} {c : Config} {st : State} {name : Bytes}

theorem init : Describes (Config.start minLevel) (start minLevel) := by
  have hfind : (start minLevel).sinks.streams.find =
      fun name => if name = str (ascii "stdout") then some 0 else none := by
    funext name
    exact OrdMap.find_emplace OrdMap.find_empty
  refine ⟨rfl, fun key s h => ?_, fun name => ?_, rfl, rfl, by simp [start, OrdMap.empty],
    List.nodup_nil⟩
  · rw [hfind] at h
    dsimp only at h
    split_ifs at h with hkey
    obtain rfl := Option.some.inj h
    rw [hkey]
    exact ⟨rfl, Nat.zero_lt_one, _, rfl⟩
  · rw [hfind, Config.start]
    by_cases hname : name = ascii "stdout"
    · simp [hname, start, Sinks.start]
    · simp [hname, str_inj]

/-! ### The streams -/

/-- A stream that is made and not added changes nothing. -/
theorem construct (h : Describes c st) (o : Sinks.OutputStream) (trace : List Sinks.Obs) :
    Describes c { st with sinks := { st.sinks with
      sinks := Function.update st.sinks.sinks st.sinks.count o
      count := st.sinks.count + 1
      trace } } := by
  have hold : ∀ {s}, s < st.sinks.count →
      Function.update st.sinks.sinks st.sinks.count o s = st.sinks.sinks s :=
    fun hs => Function.update_of_ne hs.ne _ _
  refine { h with alive := h.alive, named := fun key s hfind => ?_, level := fun name => ?_ }
  · obtain ⟨hkind, hlt, hbytes⟩ := h.named key s hfind
    exact ⟨(congrArg (·.kind.name) (hold hlt)).trans hkind, hlt.trans (Nat.lt_succ_self _), hbytes⟩
  · rw [h.level]
    refine Option.map_congr fun s hfind => ?_
    exact congrArg (·.minLogLevel) (hold (h.named _ s hfind).2.1).symm

/-- The command makes a stream, whether it is added or not. -/
theorem addStream (h : Describes c st) (minLevel : LogLevel) (kind : Sinks.Kind) {name : Bytes}
    (hname : kind.name = str name) :
    ∃ sinks, Sinks.step minLevel st.sinks (.add kind "") = some sinks ∧
      Describes (c.addStream minLevel name) { st with sinks } := by
  have hkey : Sinks.key kind "" = str name := by simp [Sinks.key, hname]
  have hmade := h.construct ⟨kind, minLevel⟩ (st.sinks.trace ++ [.added st.sinks.count (str name)])
  have hlevel := h.level name
  refine ⟨_, by rw [Sinks.step, if_neg (by simp [h.alive])], ?_⟩
  simp only [hkey]
  cases hfind : st.sinks.streams.find (str name) with
  | some s =>
    rw [hfind] at hlevel
    rw [Config.addStream, if_pos (by simp [hlevel]), OrdMap.emplace_of_find hfind]
    exact hmade
  | none =>
    rw [hfind] at hlevel
    rw [Config.addStream, if_neg (by simp [hlevel])]
    have hnew (key : String) : (st.sinks.streams.emplace (str name) st.sinks.count).find key =
        if key = str name then some st.sinks.count else st.sinks.streams.find key :=
      OrdMap.find_emplace hfind
    refine { hmade with alive := h.alive, named := fun key s h' => ?_, level := fun name' => ?_ }
    · rw [hnew] at h'
      split_ifs at h' with heq
      · obtain rfl := Option.some.inj h'
        exact ⟨by simp [heq, hname], Nat.lt_succ_self _, name, heq⟩
      · exact hmade.named key s h'
    · dsimp only
      rw [hnew]
      split_ifs with heq
      · simp [str_inj.1 heq]
      · rw [Function.update_of_ne (fun h => heq (congrArg str h))]
        exact hmade.level name'

/-- Only the stream with that name gets the level. -/
theorem setMinLogLevel (h : Describes c st) (minLevel : LogLevel) {stream : Bytes}
    {s : Sinks.Stream} (hfind : st.sinks.streams.find (str stream) = some s) (level : LogLevel) :
    ∃ sinks, Sinks.step minLevel st.sinks (.setMinLogLevel (str stream) level) = some sinks ∧
      Describes { c with streams := Function.update c.streams stream (some level) }
        { st with sinks } := by
  have hkind : ∀ s', (Function.update st.sinks.sinks s
      { st.sinks.sinks s with minLogLevel := level } s').kind = (st.sinks.sinks s').kind := by
    intro s'
    by_cases hs : s' = s
    · simp [hs]
    · rw [Function.update_of_ne hs]
  have hstep : Sinks.step minLevel st.sinks (.setMinLogLevel (str stream) level) =
      some { st.sinks with
        sinks := Function.update st.sinks.sinks s
          { st.sinks.sinks s with minLogLevel := level } } := by
    simp [Sinks.step, h.alive, hfind]
  refine ⟨_, hstep, ?_⟩
  refine { h with alive := h.alive, named := fun key s' h' => ?_, level := fun name => ?_ }
  · obtain ⟨hnamed, hlt, hbytes⟩ := h.named key s' h'
    exact ⟨(congrArg Sinks.Kind.name (hkind s')).trans hnamed, hlt, hbytes⟩
  · dsimp only
    by_cases heq : name = stream
    · simp [heq, hfind]
    · rw [Function.update_of_ne heq, h.level]
      refine Option.map_congr fun s' h' => ?_
      have hs : s' ≠ s := by
        rintro rfl
        exact heq (str_inj.1 ((h.named _ s' h').1.symm.trans (h.named _ s' hfind).1))
      rw [Function.update_of_ne hs]

/-! ### The subsystems -/

theorem mem_names (h : Describes c st) : name ∈ c.subsystems.map Prod.fst ↔
    ∃ i ∈ st.logger.subsystems.entries, i.2.name = name := by
  rw [← h.subsystems, List.map_map, List.mem_map]
  rfl

/-- The handle of a subsystem stands for its name. -/
theorem id_iff_name (h : Describes c st) {id : UInt32} {i : Logger.SubsystemInfo}
    (hfind : st.logger.subsystems.find id = some i) {e : UInt32 × Logger.SubsystemInfo}
    (he : e ∈ st.logger.subsystems.entries) : e.1 = id ↔ e.2.name = i.name := by
  have hmem := OrdMap.find_eq_some_iff.1 hfind
  have hnodup := h.nodup
  rw [← h.subsystems, List.map_map] at hnodup
  constructor
  · rintro rfl
    have hself := OrdMap.find_eq_some_iff.2 he
    rw [hfind] at hself
    rw [Option.some.inj hself]
  · intro hname
    exact congrArg Prod.fst (List.inj_on_of_nodup_map hnodup he hmem hname)

theorem setSubsystemMinLogLevel (h : Describes c st) {id : UInt32}
    (hid : Logger.findSubsystem st.logger name = .ok id) (level : LogLevel) :
    ∃ logger, Logger.setSubsystemMinLogLevel st.logger id level = some logger ∧
      Describes { c with
        subsystems := c.subsystems.map fun e => if e.1 = name then (e.1, level) else e }
        { st with logger } := by
  obtain ⟨i, hfind, rfl⟩ := Logger.find_of_findSubsystem hid
  refine ⟨_, by rw [Logger.setSubsystemMinLogLevel, hfind]; rfl, ?_⟩
  refine { h with subsystems := ?_, next := ?_, below := ?_, nodup := ?_ }
  · simp only [← h.subsystems, OrdMap.assign, List.map_map]
    refine List.map_congr_left fun e he => ?_
    have hiff := h.id_iff_name hfind he
    by_cases heq : e.1 = id
    · simp [heq, hiff.1 heq]
    · simp [heq, hiff.not.1 heq]
  · rw [h.next]
    simp [OrdMap.assign]
  · intro e he
    obtain ⟨e', he', rfl⟩ := List.mem_map.1 he
    have hbelow := h.below e' he'
    split_ifs <;> exact hbelow
  · have hnames : (c.subsystems.map fun e => if e.1 = i.name then (e.1, level) else e).map Prod.fst
        = c.subsystems.map Prod.fst := by
      rw [List.map_map]
      refine List.map_congr_left fun e _ => ?_
      by_cases heq : e.1 = i.name <;> simp [heq]
    exact hnames ▸ h.nodup

/-- A subsystem that is not registered is not in the configuration. -/
theorem not_mem_names (h : Describes c st) {e : Exn}
    (herror : Logger.findSubsystem st.logger name = .error e) :
    name ∉ c.subsystems.map Prod.fst := by
  rw [h.mem_names]
  rintro ⟨i, hi, hname⟩
  exact Logger.name_ne_of_findSubsystem herror (OrdMap.find_eq_some_iff.2 hi) hname

/-- The level of a subsystem decides what is logged for it. -/
theorem log (h : Describes c st) {least : LogLevel} (hmem : (name, least) ∈ c.subsystems) :
    ∃ id, Logger.findSubsystem st.logger name = .ok id ∧
      ∀ level message now function, Logger.log st.logger level id message now function =
        some (if level < least then st.logger else { st.logger with
          events := st.logger.events ++ [⟨level, id, message, now, function, name, []⟩] }) := by
  rw [← h.subsystems] at hmem
  obtain ⟨e, he, heq⟩ := List.mem_map.1 hmem
  obtain ⟨rfl, rfl⟩ := Prod.mk.inj heq
  cases hid : Logger.findSubsystem st.logger e.2.name with
  | error _ => exact absurd (h.mem_names.2 ⟨e, he, rfl⟩) (h.not_mem_names hid)
  | ok id =>
    obtain ⟨i, hfind, hname⟩ := Logger.find_of_findSubsystem hid
    obtain rfl := (h.id_iff_name hfind he).2 hname.symm
    refine ⟨_, rfl, fun level message now function => ?_⟩
    rw [Logger.log, OrdMap.find_eq_some_iff.2 he, Option.map_some]

theorem register (h : Describes c st) (name : Bytes)
    (hlen : (c.apply openssl minLevel (.register name)).subsystems.length < 2 ^ 32) :
    Describes (c.apply openssl minLevel (.register name))
      { st with logger := (Logger.registerSubsystem minLevel st.logger name).2 } := by
  unfold Logger.registerSubsystem
  cases hid : Logger.findSubsystem st.logger name with
  | ok id =>
    obtain ⟨i, hfind, hname⟩ := Logger.find_of_findSubsystem hid
    have hmem := h.mem_names.2 ⟨_, OrdMap.find_eq_some_iff.1 hfind, hname⟩
    rw [Config.apply, if_pos (Config.any_iff_mem.2 hmem)]
    exact h
  | error e =>
    have hnot := h.not_mem_names hid
    rw [Config.apply, if_neg (Config.any_iff_mem.not.2 hnot)] at hlen ⊢
    have hcount : c.subsystems.length = st.logger.subsystems.entries.length := by
      rw [← h.subsystems, List.length_map]
    have hnext : (st.logger.nextFreeSubsystemId + 1).toNat =
        st.logger.subsystems.entries.length + 1 := by
      simp only [List.length_append, List.length_singleton, hcount] at hlen
      rw [UInt32.toNat_add, h.next]
      exact Nat.mod_eq_of_lt hlen
    have hentries := OrdMap.entries_emplace_of_lt (v := ⟨name, minLevel⟩) h.below
    refine { h with subsystems := ?_, next := ?_, below := ?_, nodup := ?_ }
    · simp [Logger.nextSubsystemId, Logger.insertSubsystem, hentries, h.subsystems]
    · simp only [Logger.nextSubsystemId, Logger.insertSubsystem, hentries, hnext,
        List.length_append, List.length_singleton]
    · have hlt : st.logger.nextFreeSubsystemId < st.logger.nextFreeSubsystemId + 1 := by
        rw [UInt32.lt_iff_toNat_lt, hnext, h.next]
        exact Nat.lt_succ_self _
      intro i hi
      simp only [Logger.nextSubsystemId, Logger.insertSubsystem, hentries, List.mem_append,
        List.mem_singleton] at hi ⊢
      rcases hi with hi | rfl
      · exact (h.below i hi).trans hlt
      · exact hlt
    · rw [List.map_append, List.nodup_append_comm]
      exact List.nodup_cons.2 ⟨hnot, h.nodup⟩

/-! ### The runs -/

/-- One command keeps the registries with the configuration. -/
theorem step (h : Describes c st) (cmd : Command)
    (hlen : (c.apply openssl minLevel cmd).subsystems.length < 2 ^ 32) :
    ∃ st', Commands.step openssl minLevel st cmd = some (cmd.result openssl, st') ∧
      Describes (c.apply openssl minLevel cmd) st' := by
  cases cmd with
  | addFileStream filename =>
    have hname : (Sinks.Kind.file (str filename)).name =
        str (ascii "file: '" ++ filename ++ ascii "'") := by
      rw [str_append, str_append]
      rfl
    obtain ⟨sinks, hstep, hnew⟩ := h.addStream minLevel _ hname
    exact ⟨_, by rw [Commands.step, hstep]; rfl, hnew⟩
  | addStompStream server =>
    rw [Commands.step, Config.apply, Command.result]
    cases stompHost openssl server with
    | error e => exact ⟨_, rfl, h⟩
    | ok host =>
      have hname : (Sinks.Kind.stomp (str host)).name = str (ascii "stomp: " ++ host) := by
        rw [str_append]
        rfl
      obtain ⟨sinks, hstep, hnew⟩ := h.addStream minLevel _ hname
      exact ⟨_, by simp only [hstep]; rfl, hnew⟩
  | dump => exact ⟨_, rfl, { h with }⟩
  | setMinLevel stream level =>
    rw [Commands.step, Config.apply]
    cases levelByName level with
    | error e => exact ⟨_, rfl, { h with }⟩
    | ok level =>
      have hlevel := h.level stream
      cases hfind : st.sinks.streams.find (str stream) with
      | none =>
        rw [hfind, Option.map_none] at hlevel
        refine ⟨_, rfl, ?_⟩
        dsimp only
        rw [hlevel, Option.map_none, ← hlevel, Function.update_eq_self]
        exact { h with }
      | some s =>
        obtain ⟨sinks, hstep, hnew⟩ := h.setMinLogLevel minLevel hfind level
        rw [hfind, Option.map_some] at hlevel
        refine ⟨{ st with sinks }, ?_, ?_⟩
        · simp only [hstep, Option.isSome_some, if_true, Option.map_some, Command.result]
        · dsimp only
          rw [hlevel]
          exact hnew
  | setSubsystemMinLevel subsystem level =>
    rw [Commands.step, Config.apply]
    cases levelByName level with
    | error e => exact ⟨_, rfl, h⟩
    | ok level =>
      cases hid : Logger.findSubsystem st.logger subsystem with
      | error e =>
        have hnot := h.not_mem_names hid
        have hsame : c.subsystems.map (fun e => if e.1 = subsystem then (e.1, level) else e) =
            c.subsystems := by
          refine (List.map_congr_left fun e he => if_neg ?_).trans (List.map_id' _)
          rintro rfl
          exact hnot (List.mem_map_of_mem he)
        refine ⟨_, rfl, ?_⟩
        dsimp only
        rw [hsame]
        exact h
      | ok id =>
        obtain ⟨logger, hset, hnew⟩ := h.setSubsystemMinLogLevel hid level
        exact ⟨_, by simp only [hset]; rfl, hnew⟩
  | register name => exact ⟨_, rfl, h.register name hlen⟩

end Describes

theorem Config.subsystems_addStream (minLevel : LogLevel) (c : Config) (name : Bytes) :
    (c.addStream minLevel name).subsystems = c.subsystems := by
  unfold addStream
  split_ifs <;> rfl

section Runs

variable {openssl : Bool} {minLevel : LogLevel}

/-- No subsystem is removed. -/
theorem Config.length_le_apply (c : Config) (cmd : Command) :
    c.subsystems.length ≤ (c.apply openssl minLevel cmd).subsystems.length := by
  cases cmd with
  | addFileStream _ => rw [apply, subsystems_addStream]
  | addStompStream server =>
    rw [apply]
    cases stompHost openssl server with
    | error _ => exact le_rfl
    | ok _ => dsimp only; rw [subsystems_addStream]
  | dump => exact le_rfl
  | setMinLevel _ level =>
    rw [apply]
    cases levelByName level <;> exact le_rfl
  | setSubsystemMinLevel _ level =>
    rw [apply]
    cases levelByName level <;> simp
  | register name =>
    rw [apply]
    split_ifs <;> simp

theorem Config.length_le_foldl : ∀ (cs : List Command) (c : Config),
    c.subsystems.length ≤ (cs.foldl (apply openssl minLevel) c).subsystems.length
  | [], _ => le_rfl
  | cmd :: cs, c => (length_le_apply c cmd).trans (length_le_foldl cs _)

theorem describes_run : ∀ (cs : List Command) {c : Config} {st : State},
    Describes c st → (cs.foldl (Config.apply openssl minLevel) c).subsystems.length < 2 ^ 32 →
      ∃ st', run openssl minLevel st cs = some (cs.map (Command.result openssl), st') ∧
        Describes (cs.foldl (Config.apply openssl minLevel) c) st'
  | [], _, st, h, _ => ⟨st, rfl, h⟩
  | cmd :: cs, c, st, h, hlen => by
    obtain ⟨st₁, hstep, h₁⟩ := h.step cmd ((Config.length_le_foldl cs _).trans_lt hlen)
    obtain ⟨st₂, hrun, h₂⟩ := describes_run cs h₁ hlen
    refine ⟨st₂, ?_, h₂⟩
    rw [run, hstep, Option.bind_some]
    dsimp only
    rw [hrun]
    rfl

end Runs

/-- What the commands describe is what is done with an event : the level of its subsystem decides
if it is logged, and that of a stream if the stream writes it. -/
theorem filtered_of_run (openssl : Bool) (minLevel : LogLevel) (cs : List Command)
    (h : (Config.after openssl minLevel cs).subsystems.length < 2 ^ 32) :
    ∃ st, run openssl minLevel (start minLevel) cs =
        some (cs.map (Command.result openssl), st) ∧
      (∀ name least, (name, least) ∈ (Config.after openssl minLevel cs).subsystems →
        ∃ id, Logger.findSubsystem st.logger name = .ok id ∧
          ∀ level message now function, Logger.log st.logger level id message now function =
            some (if level < least then st.logger else { st.logger with
              events := st.logger.events ++ [⟨level, id, message, now, function, name, []⟩] })) ∧
      ∀ name least, (Config.after openssl minLevel cs).streams name = some least →
        ∃ s, st.sinks.streams.find (str name) = some s ∧
          ∀ e ok, (st.sinks.sinks s).write e ok = if e.level < least then true else ok := by
  obtain ⟨st, hrun, hst⟩ := describes_run cs Describes.init h
  refine ⟨st, hrun, fun name least hmem => hst.log hmem, fun name least hleast => ?_⟩
  rw [Config.after, hst.level] at hleast
  obtain ⟨s, hfind, rfl⟩ := Option.map_eq_some_iff.1 hleast
  exact ⟨s, hfind, fun e ok => rfl⟩

/-- Two files with one name, a broker, a URL without a host, a stream and a subsystem with new
levels, and unknown names. -/
def someCommands : List Command :=
  [.addFileStream (ascii "a.log"), .register (ascii "main"), .addFileStream (ascii "a.log"),
    .addStompStream (ascii "stomp://broker/LOG"), .addStompStream (ascii "stomp://"),
    .setMinLevel (ascii "file: 'a.log'") (ascii "severe"), .register (ascii "net"),
    .setSubsystemMinLevel (ascii "main") (ascii "fine"),
    .setMinLevel (ascii "b.log") (ascii "info"), .setMinLevel (ascii "stdout") (ascii "loud"),
    .register (ascii "main")]

theorem filtered_someCommands : ∃ st, run false .info (start .info) someCommands =
      some (someCommands.map (Command.result false), st) ∧
    (∃ id, Logger.findSubsystem st.logger (ascii "main") = .ok id ∧
      ∀ level message now function, Logger.log st.logger level id message now function =
        some (if level < .fine then st.logger else { st.logger with
          events := st.logger.events ++
            [⟨level, id, message, now, function, ascii "main", []⟩] })) ∧
    ∃ s, st.sinks.streams.find (str (ascii "file: 'a.log'")) = some s ∧
      ∀ e ok, (st.sinks.sinks s).write e ok = if e.level < .severe then true else ok := by
  obtain ⟨st, hrun, hlog, hwrite⟩ :=
    filtered_of_run false .info someCommands (by decide +kernel)
  exact ⟨st, hrun, hlog _ _ (by decide +kernel), hwrite _ _ (by decide +kernel)⟩

end Logfile.Commands
