import Logfile.LogEvent
import Logfile.OrdMap
import Logfile.Runs

/-!
# The registry of subsystems

`m_subsystems` is keyed by the handles that `register_subsystem` gives out, and searched by name.
The handles come from a counter of 32 bits, and `emplace` does nothing if a handle is taken.

`calls` are the calls made one after the other. The history records what was registered and
which levels were set, and `Registry` reads the map and the counter off the history : the names
in the order of their first registration, each under its position.
-/

namespace Logfile

open Text

instance linearOrderUInt32 : LinearOrder UInt32 where
  le_refl a := UInt32.le_refl a
  le_trans a b c := UInt32.le_trans
  lt_iff_le_not_ge a b := by
    simp only [UInt32.lt_iff_toNat_lt, UInt32.le_iff_toNat_le]
    omega
  le_antisymm a b := UInt32.le_antisymm
  le_total a b := UInt32.le_total a b
  toDecidableLE := inferInstance
  toDecidableEq := inferInstance
  toDecidableLT := inferInstance

/-- The enumerators are numbered by severity. -/
def LogLevel.severity : LogLevel → ℕ
  | finest => 0
  | finer => 1
  | fine => 2
  | config => 3
  | info => 4
  | warning => 5
  | severe => 6

instance LogLevel.instLT : LT LogLevel :=
  ⟨fun a b => a.severity < b.severity⟩

instance LogLevel.decidableLT (a b : LogLevel) : Decidable (a < b) :=
  inferInstanceAs (Decidable (a.severity < b.severity))

namespace Logger

/-! ## The calls -/

/-- `subsystem_info` -/
structure SubsystemInfo where
  name : Bytes
  minLevel : LogLevel
  deriving DecidableEq

/-- `logger_private`. Of the log thread there is what `enqueue` was called with. -/
structure LoggerPrivate where
  subsystems : OrdMap UInt32 SubsystemInfo
  nextFreeSubsystemId : UInt32
  events : List LogEvent

variable (minLevel : LogLevel) (d : LoggerPrivate)

/-- `find_subsystem` -/
def findSubsystem (name : Bytes) : Except Exn UInt32 :=
  match d.subsystems.entries.find? fun e => e.2.name = name with
  | some e => .ok e.1
  | none => .error (.invalidArgument (ascii "Unknown subsystem name."))

/-- `m_next_free_subsystem_id++` -/
def nextSubsystemId : UInt32 × LoggerPrivate :=
  (d.nextFreeSubsystemId, { d with nextFreeSubsystemId := d.nextFreeSubsystemId + 1 })

/-- The insertion in `m_subsystems`. `minLevel` is `SuS_LOG_MINLEVEL`. -/
def insertSubsystem (id : UInt32) (name : Bytes) : LoggerPrivate :=
  { d with subsystems := d.subsystems.emplace id ⟨name, minLevel⟩ }

/-- `register_subsystem` -/
def registerSubsystem (name : Bytes) : UInt32 × LoggerPrivate :=
  match findSubsystem d name with
  | .ok id => (id, d)
  | .error _ =>
    let (newId, d) := nextSubsystemId d
    (newId, insertSubsystem minLevel d newId name)

/-- `set_subsystem_min_log_level`, unless its assertion fails. -/
def setSubsystemMinLogLevel (subsystem : UInt32) (level : LogLevel) : Option LoggerPrivate :=
  (d.subsystems.find subsystem).map fun i =>
    { d with subsystems := d.subsystems.assign subsystem { i with minLevel := level } }

/-- `log` at the time `now`, unless its assertion fails. -/
def log (level : LogLevel) (subsystem : UInt32) (message : Bytes) (now : ℤ) (function : Bytes) :
    Option LoggerPrivate :=
  (d.subsystems.find subsystem).map fun i =>
    if level < i.minLevel then d
    else { d with events := d.events ++ [⟨level, subsystem, message, now, function, i.name, []⟩] }

theorem find_of_findSubsystem {d : LoggerPrivate} {name : Bytes} {id : UInt32}
    (h : findSubsystem d name = .ok id) : ∃ i, d.subsystems.find id = some i ∧ i.name = name := by
  unfold findSubsystem at h
  split at h
  · next e he =>
    obtain rfl := Except.ok.inj h
    exact ⟨e.2, OrdMap.find_eq_some_iff.2 (List.mem_of_find?_eq_some he),
      by simpa using List.find?_some he⟩
  · cases h

theorem name_ne_of_findSubsystem {d : LoggerPrivate} {name : Bytes} {e : Exn}
    (h : findSubsystem d name = .error e) {id : UInt32} {i : SubsystemInfo}
    (hi : d.subsystems.find id = some i) : i.name ≠ name := by
  unfold findSubsystem at h
  split at h
  · cases h
  · next hnone => simpa using List.find?_eq_none.1 hnone _ (OrdMap.find_eq_some_iff.1 hi)

/-! ## Calls made one after the other -/

/-- What a call may depend on. -/
inductive Obs
  /-- `register_subsystem` returned the handle -/
  | registered (name : Bytes) (id : UInt32)
  | levelSet (id : UInt32) (level : LogLevel)
  deriving DecidableEq

structure State where
  d : LoggerPrivate
  trace : List Obs

inductive Call
  | register (name : Bytes)
  | find (name : Bytes)
  | setLevel (subsystem : UInt32) (level : LogLevel)
  | log (level : LogLevel) (subsystem : UInt32) (message : Bytes) (now : ℤ) (function : Bytes)

/-- One call. A failed assertion ends the program. -/
def step (st : State) : Call → Option State
  | .register name =>
    let (id, d) := registerSubsystem minLevel st.d name
    some ⟨d, st.trace ++ [.registered name id]⟩
  | .find _ => some st
  | .setLevel subsystem level =>
    (setSubsystemMinLogLevel st.d subsystem level).map fun d =>
      ⟨d, st.trace ++ [.levelSet subsystem level]⟩
  | .log level subsystem message now function =>
    (Logger.log st.d level subsystem message now function).map fun d => { st with d := d }

def calls : System State Call where
  init st := st = ⟨⟨.empty, 0, []⟩, []⟩
  step := step minLevel

/-! ## The history -/

/-- The names registered, in the order of their first registrations. -/
def names (t : List Obs) : List Bytes :=
  t.foldl (fun ns o => match o with
    | .registered name _ => if name ∈ ns then ns else ns ++ [name]
    | .levelSet _ _ => ns) []

/-- The level last set for the handle, or that of every new entry. -/
def lastLevel (t : List Obs) (id : UInt32) : LogLevel :=
  t.foldl (fun level o => match o with
    | .registered _ _ => level
    | .levelSet id' level' => if id' = id then level' else level) minLevel

variable {t : List Obs}

@[simp] theorem names_registered (name : Bytes) (id : UInt32) :
    names (t ++ [.registered name id]) = if name ∈ names t then names t else names t ++ [name] := by
  rw [names, List.foldl_append]
  rfl

@[simp] theorem names_levelSet (id : UInt32) (level : LogLevel) :
    names (t ++ [.levelSet id level]) = names t := by
  simp [names]

@[simp] theorem lastLevel_registered (name : Bytes) (id id' : UInt32) :
    lastLevel minLevel (t ++ [.registered name id]) id' = lastLevel minLevel t id' := by
  simp [lastLevel]

@[simp] theorem lastLevel_levelSet (id id' : UInt32) (level : LogLevel) :
    lastLevel minLevel (t ++ [.levelSet id level]) id' =
      if id = id' then level else lastLevel minLevel t id' := by
  simp [lastLevel]

theorem length_names_le (o : Obs) : (names t).length ≤ (names (t ++ [o])).length := by
  cases o with
  | registered name id =>
    rw [names_registered]
    split_ifs <;> simp
  | levelSet id level => simp

/-- Every name has a position that a handle can hold. -/
theorem exists_id (hlen : (names t).length < 2 ^ 32) {name : Bytes} (hname : name ∈ names t) :
    ∃ id : UInt32, (names t)[id.toNat]? = some name := by
  obtain ⟨i, hi⟩ := List.mem_iff_getElem?.1 hname
  obtain ⟨hlt, -⟩ := List.getElem?_eq_some_iff.1 hi
  exact ⟨UInt32.ofNat i, by rwa [UInt32.toNat_ofNat_of_lt' (hlt.trans hlen)]⟩

/-! ## The registry as the history gives it -/

/-- The name at position `i` is registered under the handle `i`, with the level last set. -/
structure Registry (st : State) : Prop where
  nodup : (names st.trace).Nodup
  find : ∀ id, st.d.subsystems.find id =
    ((names st.trace)[id.toNat]?).map fun name => ⟨name, lastLevel minLevel st.trace id⟩
  next : st.d.nextFreeSubsystemId.toNat = (names st.trace).length
  handed : ∀ name id, .registered name id ∈ st.trace ↔ (names st.trace)[id.toNat]? = some name
  fresh : ∀ id, (names st.trace)[id.toNat]? = none → lastLevel minLevel st.trace id = minLevel

namespace Registry

variable {minLevel} {st st' : State} {name : Bytes} {id : UInt32}

theorem find_eq_some (h : Registry minLevel st) {i : SubsystemInfo} :
    st.d.subsystems.find id = some i ↔
      (names st.trace)[id.toNat]? = some i.name ∧ i.minLevel = lastLevel minLevel st.trace id := by
  rw [h.find, Option.map_eq_some_iff]
  constructor
  · rintro ⟨name, hname, rfl⟩
    exact ⟨hname, rfl⟩
  · rintro ⟨hname, hlevel⟩
    refine ⟨i.name, hname, ?_⟩
    rw [← hlevel]

/-- No two handles have one name. -/
theorem id_unique (h : Registry minLevel st) {id' : UInt32}
    (hid : (names st.trace)[id.toNat]? = some name)
    (hid' : (names st.trace)[id'.toNat]? = some name) : id = id' := by
  obtain ⟨hlt, hname⟩ := List.getElem?_eq_some_iff.1 hid
  obtain ⟨hlt', hname'⟩ := List.getElem?_eq_some_iff.1 hid'
  exact UInt32.toNat_inj.1 (h.nodup.getElem_inj_iff.1 (hname.trans hname'.symm))

theorem findSubsystem_eq_ok (h : Registry minLevel st) :
    findSubsystem st.d name = .ok id ↔ (names st.trace)[id.toNat]? = some name := by
  have hsound : ∀ {id}, findSubsystem st.d name = .ok id →
      (names st.trace)[id.toNat]? = some name := by
    intro id hok
    obtain ⟨i, hi, rfl⟩ := find_of_findSubsystem hok
    exact (h.find_eq_some.1 hi).1
  constructor
  · exact hsound
  · intro hname
    cases hf : findSubsystem st.d name with
    | ok id' => exact congrArg Except.ok (h.id_unique (hsound hf) hname)
    | error e =>
      have hi := (h.find_eq_some (i := ⟨name, lastLevel minLevel st.trace id⟩)).2 ⟨hname, rfl⟩
      exact absurd rfl (name_ne_of_findSubsystem hf hi)

theorem findSubsystem_eq_error (h : Registry minLevel st) (hname : name ∉ names st.trace) :
    findSubsystem st.d name = .error (.invalidArgument (ascii "Unknown subsystem name.")) := by
  cases hf : findSubsystem st.d name with
  | ok id =>
    exact absurd (List.mem_of_getElem? (h.findSubsystem_eq_ok.1 hf)) hname
  | error e =>
    unfold findSubsystem at hf
    split at hf
    · cases hf
    · exact hf.symm

/-- A known name is found, and nothing changes. -/
theorem registerSubsystem_known (h : Registry minLevel st)
    (hname : (names st.trace)[id.toNat]? = some name) :
    registerSubsystem minLevel st.d name = (id, st.d) := by
  simp [registerSubsystem, h.findSubsystem_eq_ok.2 hname]

theorem registerSubsystem_new (h : Registry minLevel st) (hname : name ∉ names st.trace) :
    registerSubsystem minLevel st.d name =
      (st.d.nextFreeSubsystemId,
        { st.d with
          nextFreeSubsystemId := st.d.nextFreeSubsystemId + 1
          subsystems := st.d.subsystems.emplace st.d.nextFreeSubsystemId ⟨name, minLevel⟩ }) := by
  simp [registerSubsystem, h.findSubsystem_eq_error hname, nextSubsystemId, insertSubsystem]

theorem init : Registry minLevel ⟨⟨.empty, 0, []⟩, []⟩ where
  nodup := List.nodup_nil
  find id := rfl
  next := rfl
  handed name id := by simp [names]
  fresh id _ := rfl

/-- Registering a known name adds nothing to the names. -/
theorem register_known (h : Registry minLevel st)
    (hname : (names st.trace)[id.toNat]? = some name) :
    Registry minLevel ⟨st.d, st.trace ++ [.registered name id]⟩ := by
  have hnames : names (st.trace ++ [.registered name id]) = names st.trace := by
    rw [names_registered, if_pos (List.mem_of_getElem? hname)]
  refine ⟨?_, fun id' => ?_, ?_, fun name' id' => ?_, fun id' hid' => ?_⟩
  · rw [hnames]
    exact h.nodup
  · rw [hnames, lastLevel_registered]
    exact h.find id'
  · rw [hnames]
    exact h.next
  · rw [hnames, List.mem_append, h.handed, List.mem_singleton, Obs.registered.injEq]
    constructor
    · rintro (hold | ⟨rfl, rfl⟩)
      · exact hold
      · exact hname
    · exact Or.inl
  · rw [hnames] at hid'
    rw [lastLevel_registered]
    exact h.fresh id' hid'

theorem getElem?_concat_of_ne {l : List Bytes} {i : ℕ} (h : i ≠ l.length) (name : Bytes) :
    (l ++ [name])[i]? = l[i]? := by
  rw [List.getElem?_append]
  split
  · rfl
  · next hge => rw [List.getElem?_eq_none (by simp; omega), List.getElem?_eq_none (by omega)]

/-- A new name comes under the next handle, which is free. -/
theorem register_new (h : Registry minLevel st) (hname : name ∉ names st.trace)
    (hlen : (names st.trace).length + 1 < 2 ^ 32) :
    Registry minLevel
      ⟨{ st.d with
          nextFreeSubsystemId := st.d.nextFreeSubsystemId + 1
          subsystems := st.d.subsystems.emplace st.d.nextFreeSubsystemId ⟨name, minLevel⟩ },
        st.trace ++ [.registered name st.d.nextFreeSubsystemId]⟩ := by
  have hnames : names (st.trace ++ [.registered name st.d.nextFreeSubsystemId]) =
      names st.trace ++ [name] := by
    rw [names_registered, if_neg hname]
  have hfree : (names st.trace)[st.d.nextFreeSubsystemId.toNat]? = none := by
    rw [h.next, List.getElem?_eq_none le_rfl]
  have hnone : st.d.subsystems.find st.d.nextFreeSubsystemId = none := by
    rw [h.find, hfree, Option.map_none]
  have hget {id : UInt32} : (names st.trace ++ [name])[id.toNat]? =
      if id = st.d.nextFreeSubsystemId then some name else (names st.trace)[id.toNat]? := by
    split_ifs with hid
    · rw [hid, h.next, List.getElem?_concat_length]
    · refine getElem?_concat_of_ne (fun heq => hid ?_) name
      rw [← h.next] at heq
      exact UInt32.toNat_inj.1 heq
  refine ⟨?_, fun id' => ?_, ?_, fun name' id' => ?_, fun id' hid' => ?_⟩
  · rw [hnames, ← List.concat_eq_append]
    exact h.nodup.concat hname
  · rw [hnames, hget, lastLevel_registered, OrdMap.find_emplace hnone]
    split_ifs with hid
    · rw [Option.map_some, hid, h.fresh _ hfree]
    · exact h.find id'
  · rw [hnames, List.length_append, List.length_singleton, ← h.next]
    rw [← h.next] at hlen
    simp only [UInt32.toNat_add]
    exact Nat.mod_eq_of_lt hlen
  · rw [hnames, hget, List.mem_append, h.handed, List.mem_singleton, Obs.registered.injEq]
    split_ifs with hid
    · rw [hid, hfree, Option.some.injEq]
      simp [eq_comm]
    · simp [hid]
  · rw [hnames, hget] at hid'
    rw [lastLevel_registered]
    split_ifs at hid'
    exact h.fresh id' hid'

/-- A level is set for its handle only. -/
theorem setLevel (h : Registry minLevel st) {level : LogLevel} {d' : LoggerPrivate}
    (hset : setSubsystemMinLogLevel st.d id level = some d') :
    Registry minLevel ⟨d', st.trace ++ [.levelSet id level]⟩ := by
  obtain ⟨i, hi, rfl⟩ := Option.map_eq_some_iff.1 hset
  obtain ⟨hname, -⟩ := h.find_eq_some.1 hi
  refine ⟨?_, fun id' => ?_, ?_, fun name' id' => ?_, fun id' hid' => ?_⟩
  · rw [names_levelSet]
    exact h.nodup
  · rw [names_levelSet, lastLevel_levelSet, OrdMap.find_assign hi]
    split_ifs with hid hid' hid'
    · rw [hid, hname, Option.map_some]
    · exact absurd hid.symm hid'
    · exact absurd hid'.symm hid
    · exact h.find id'
  · rw [names_levelSet]
    exact h.next
  · rw [names_levelSet, ← h.handed]
    simp
  · rw [names_levelSet] at hid'
    rw [lastLevel_levelSet, if_neg, h.fresh id' hid']
    rintro rfl
    rw [hname] at hid'
    cases hid'

theorem step (h : Registry minLevel st) (c : Call) (hstep : step minLevel st c = some st')
    (hlen : (names st'.trace).length < 2 ^ 32) : Registry minLevel st' := by
  cases c with
  | register name =>
    have hstep' : some (⟨(registerSubsystem minLevel st.d name).2,
        st.trace ++ [.registered name (registerSubsystem minLevel st.d name).1]⟩ : State) =
          some st' := hstep
    by_cases hname : name ∈ names st.trace
    · have hlen' : (names st.trace).length < 2 ^ 32 := by
        refine lt_of_le_of_lt ?_ hlen
        rw [← Option.some.inj hstep']
        exact length_names_le _
      obtain ⟨id, hid⟩ := exists_id hlen' hname
      rw [h.registerSubsystem_known hid] at hstep'
      obtain rfl := Option.some.inj hstep'
      exact h.register_known hid
    · rw [h.registerSubsystem_new hname] at hstep'
      obtain rfl := Option.some.inj hstep'
      refine h.register_new hname ?_
      simpa [hname] using hlen
  | find name =>
    obtain rfl := Option.some.inj hstep
    exact h
  | setLevel subsystem level =>
    obtain ⟨d', hd', rfl⟩ := Option.map_eq_some_iff.1 hstep
    exact h.setLevel hd'
  | log level subsystem message now function =>
    obtain ⟨d', hd', rfl⟩ := Option.map_eq_some_iff.1 hstep
    obtain ⟨i, hi, rfl⟩ := Option.map_eq_some_iff.1 hd'
    split_ifs
    · exact h
    · exact ⟨h.nodup, h.find, h.next, h.handed, h.fresh⟩

end Registry

/-- A call makes the history at most longer. -/
theorem names_le_of_step {st st' : State} {c : Call} (h : step minLevel st c = some st') :
    (names st.trace).length ≤ (names st'.trace).length := by
  cases c with
  | register name =>
    obtain rfl := Option.some.inj h
    exact length_names_le _
  | find name =>
    obtain rfl := Option.some.inj h
    exact le_rfl
  | setLevel subsystem level =>
    obtain ⟨d', -, rfl⟩ := Option.map_eq_some_iff.1 h
    exact length_names_le _
  | log level subsystem message now function =>
    obtain ⟨d', -, rfl⟩ := Option.map_eq_some_iff.1 h
    exact le_rfl

theorem registry_of_reach {st : State} (h : (calls minLevel).Reachable st)
    (hlen : (names st.trace).length < 2 ^ 32) : Registry minLevel st := by
  refine h.invariant (I := fun st => (names st.trace).length < 2 ^ 32 → Registry minLevel st)
    ?_ ?_ hlen
  · rintro st rfl -
    exact Registry.init
  · intro st c st' _ ih _ hstep hlen'
    exact (ih ((names_le_of_step minLevel hstep).trans_lt hlen')).step c hstep hlen'

/-! ## What the callers see -/

/-- The names and the handles that were given out correspond, and every call with a handle that
was given out, or with its name, goes by that. -/
structure Stable (st : State) : Prop where
  same_iff : ∀ name id name' id', .registered name id ∈ st.trace →
    .registered name' id' ∈ st.trace → (id = id' ↔ name = name')
  register : ∀ name id, .registered name id ∈ st.trace →
    registerSubsystem minLevel st.d name = (id, st.d)
  find : ∀ name id, .registered name id ∈ st.trace → findSubsystem st.d name = .ok id
  unknown : ∀ name, (∀ id, .registered name id ∉ st.trace) →
    findSubsystem st.d name = .error (.invalidArgument (ascii "Unknown subsystem name."))
  setLevel : ∀ name id, .registered name id ∈ st.trace → ∀ level, ∃ d',
    setSubsystemMinLogLevel st.d id level = some d' ∧ d'.events = st.d.events ∧
      d'.nextFreeSubsystemId = st.d.nextFreeSubsystemId ∧ ∀ id', d'.subsystems.find id' =
        if id' = id then some ⟨name, level⟩ else st.d.subsystems.find id'
  log : ∀ name id, .registered name id ∈ st.trace → ∀ level message now function,
    Logger.log st.d level id message now function = some
      (if level < lastLevel minLevel st.trace id then st.d
      else { st.d with
        events := st.d.events ++ [⟨level, id, message, now, function, name, []⟩] })

/-- The registry is a stable one-to-one map. -/
theorem stable_of_reach (minLevel : LogLevel) (st : State) (h : (calls minLevel).Reachable st)
    (hlen : (names st.trace).length < 2 ^ 32) : Stable minLevel st := by
  have hreg := registry_of_reach minLevel h hlen
  have hfind : ∀ {name id}, .registered name id ∈ st.trace →
      st.d.subsystems.find id = some ⟨name, lastLevel minLevel st.trace id⟩ := by
    intro name id hmem
    exact hreg.find_eq_some.2 ⟨(hreg.handed name id).1 hmem, rfl⟩
  refine ⟨fun name id name' id' hmem hmem' => ⟨?_, ?_⟩, fun name id hmem => ?_,
    fun name id hmem => ?_, fun name hnone => ?_, fun name id hmem level => ?_,
    fun name id hmem level message now function => ?_⟩
  · rintro rfl
    have hboth := (hfind hmem).symm.trans (hfind hmem')
    exact congrArg SubsystemInfo.name (Option.some.inj hboth)
  · rintro rfl
    exact hreg.id_unique ((hreg.handed _ _).1 hmem) ((hreg.handed _ _).1 hmem')
  · exact hreg.registerSubsystem_known ((hreg.handed _ _).1 hmem)
  · exact hreg.findSubsystem_eq_ok.2 ((hreg.handed _ _).1 hmem)
  · refine hreg.findSubsystem_eq_error fun hname => ?_
    obtain ⟨id, hid⟩ := exists_id hlen hname
    exact hnone id ((hreg.handed _ _).2 hid)
  · refine ⟨{ st.d with subsystems := st.d.subsystems.assign id ⟨name, level⟩ }, ?_, rfl, rfl,
      fun id' => OrdMap.find_assign (hfind hmem)⟩
    rw [setSubsystemMinLogLevel, hfind hmem, Option.map_some]
  · rw [Logger.log, hfind hmem, Option.map_some]

/-! ## Two names, one of them registered twice -/

/-- A level is set between two registrations of a name. -/
def someCalls : List Call :=
  [.register (ascii "main"), .register (ascii "net"), .setLevel 1 .warning,
    .register (ascii "net"), .log .info 1 (ascii "up") 0 (ascii "f")]

theorem stable_someCalls : ∃ st, st.trace = [.registered (ascii "main") 0,
    .registered (ascii "net") 1, .levelSet 1 .warning, .registered (ascii "net") 1] ∧
      Stable .finest st := by
  obtain ⟨st, hreach, hst⟩ := System.exists_reach (T := calls .finest)
    (b := fun _ _ => true) (p := fun _ _ => True) (fun _ _ _ => trivial) rfl someCalls
    (fun st => st.trace == [.registered (ascii "main") 0,
      .registered (ascii "net") 1, .levelSet 1 .warning, .registered (ascii "net") 1]) rfl
  have htrace := beq_iff_eq.1 hst
  refine ⟨st, htrace, stable_of_reach .finest st hreach ?_⟩
  rw [htrace]
  decide

end Logger

end Logfile
