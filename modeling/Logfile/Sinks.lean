import Logfile.Subsystems

/-!
# The registry of sinks

`m_streams` is keyed by the name a stream is added under, and owns the streams. `emplace` does
nothing if the name is taken, and then nobody owns the stream that was passed : it is offered no
event and never deleted. As long as every name is free when a stream is added under it, every
stream is served until it is removed (`served_of_reach`).

The calls are made one after the other, `log_thread::log` among them. A stream is the number of
its construction. What a sink and its retry thread do comes with the call.
-/

namespace Logfile.Sinks

/-! ## The streams -/

/-- The classes of `output_stream`, with what their names are made of. The application may
derive others. -/
inductive Kind
  | stdout (name : String)
  | file (filename : String)
  | stomp (host : String)
  | qLogList
  | other (name : String)
  deriving DecidableEq, Repr

/-- `output_stream::name` -/
def Kind.name : Kind → String
  | stdout name => if name.isEmpty then "stdout" else name
  | file filename => "file: '" ++ filename ++ "'"
  | stomp host => "stomp: " ++ host
  | qLogList => "QLogList"
  | other name => name

abbrev Stream := ℕ

structure OutputStream where
  kind : Kind
  minLogLevel : LogLevel

/-- `output_stream::write`, where `ok` is the result of `do_write`. -/
def OutputStream.write (o : OutputStream) (e : LogEvent) (ok : Bool) : Bool :=
  if e.level < o.minLogLevel then true else ok

/-- How `log_thread::log` passes an event on to a stream. -/
inductive Offer
  /-- to its retry thread -/
  | queued (s : Stream)
  | written (s : Stream) (ok : Bool)
  deriving DecidableEq, Repr

def Offer.stream : Offer → Stream
  | queued s => s
  | written s _ => s

/-! ## The calls -/

inductive Obs
  /-- `add_output_stream`, with the name it uses -/
  | added (s : Stream) (name : String)
  /-- `remove_output_stream`, with the stream it deleted if it returned true -/
  | removed (name : String) (s : Option Stream)
  /-- `log_thread::log` -/
  | logged (e : LogEvent) (offers : List Offer)
  /-- `~log_thread`, with the streams it deleted -/
  | destroyed (l : List Stream)
  deriving DecidableEq

/-- The streams deleted, in order. -/
def Obs.deleted : Obs → List Stream
  | added _ _ => []
  | removed _ none => []
  | removed _ (some s) => [s]
  | logged _ _ => []
  | destroyed l => l

/-- `log_thread` with its streams. `retryMap` tells whether the pointer to the retry thread is
still set. -/
structure State where
  streams : OrdMap String Stream
  sinks : Stream → OutputStream
  /-- the stream objects constructed so far -/
  count : ℕ
  retryMap : OrdMap Stream Bool
  destroyed : Bool
  trace : List Obs

/-- What the sinks and the retry threads do during a call of `log`. -/
structure Outcome where
  /-- `t->second->active()` -/
  active : Bool
  /-- `do_write` -/
  ok : Bool
  /-- `new retry_thread` -/
  constructed : Bool

inductive Call
  | add (kind : Kind) (ref : String)
  | remove (name : String)
  | setMinLogLevel (name : String) (level : LogLevel)
  | log (e : LogEvent) (env : Stream → Outcome)
  /-- `do_run` joins a retry thread that is done -/
  | reap (s : Stream)
  | destroy

variable (minLevel : LogLevel) (st : State)

/-- The name a stream is added under. -/
def key (kind : Kind) (ref : String) : String :=
  if ref.isEmpty then kind.name else ref

/-- `log_thread::log` for one entry of `m_streams`. -/
def offer (e : LogEvent) (env : Stream → Outcome) (acc : OrdMap Stream Bool × List Offer)
    (i : String × Stream) : OrdMap Stream Bool × List Offer :=
  let (retryMap, offers) := acc
  let s := i.2
  if retryMap.find s = some true ∧ (env s).active then (retryMap, offers ++ [.queued s])
  else
    let retryMap := retryMap.erase s
    let ok := (st.sinks s).write e (env s).ok
    let retryMap := if !ok && (env s).constructed then retryMap.emplace s true else retryMap
    (retryMap, offers ++ [.written s ok])

/-- One call. After the destructor there is no object. -/
def step (c : Call) : Option State :=
  if st.destroyed then none
  else
    match c with
    | .add kind ref =>
      some { st with
        streams := st.streams.emplace (key kind ref) st.count
        sinks := Function.update st.sinks st.count ⟨kind, minLevel⟩
        count := st.count + 1
        trace := st.trace ++ [.added st.count (key kind ref)] }
    | .remove name =>
      match st.streams.find name with
      | none => some { st with trace := st.trace ++ [.removed name none] }
      | some s =>
        some { st with
          streams := st.streams.erase name
          trace := st.trace ++ [.removed name (some s)] }
    | .setMinLogLevel name level =>
      match st.streams.find name with
      | none => some st
      | some s =>
        some { st with
          sinks := Function.update st.sinks s { st.sinks s with minLogLevel := level } }
    | .log e env =>
      let (retryMap, offers) := st.streams.entries.foldl (offer st e env) (st.retryMap, [])
      some { st with retryMap := retryMap, trace := st.trace ++ [.logged e offers] }
    | .reap s => some { st with retryMap := st.retryMap.assign s false }
    | .destroy =>
      some { st with
        destroyed := true
        trace := st.trace ++ [.destroyed (st.streams.entries.map Prod.snd)] }

/-- The log thread after its construction, with the stream for stdout. -/
def start : State where
  streams := OrdMap.empty.emplace "stdout" 0
  sinks := fun _ => ⟨.stdout "", minLevel⟩
  count := 1
  retryMap := .empty
  destroyed := false
  trace := [.added 0 "stdout"]

def calls : System State Call where
  init st := st = start minLevel
  step := step minLevel

/-! ## What is asked -/

/-- The streams deleted so far. -/
def deleted (t : List Obs) : List Stream :=
  t.flatMap Obs.deleted

/-- Added and not removed since. -/
def Live (t : List Obs) (s : Stream) : Prop :=
  (∃ name, .added s name ∈ t) ∧ s ∉ deleted t

/-- An event is offered once to every stream that is live, and to no other. A stream is deleted
under the name it was added under, or with the object. -/
def Serves (past : List Obs) : Obs → Prop
  | .added _ _ => True
  | .removed name r => ∀ s, r = some s ↔ Live past s ∧ .added s name ∈ past
  | .logged _ offers => ∀ s, (Live past s → (offers.map Offer.stream).count s = 1) ∧
      (¬Live past s → (offers.map Offer.stream).count s = 0)
  | .destroyed l => ∀ s, (Live past s → l.count s = 1) ∧ (¬Live past s → l.count s = 0)

/-- Every stream that was added is served, and deleted in the end. -/
structure Served : Prop where
  present : ∀ s, Live st.trace s → ∃! name, st.streams.find name = some s
  calls : Along Serves st.trace
  once : ∀ s, (deleted st.trace).count s ≤ 1
  atEnd : st.destroyed = true → ∀ s name, .added s name ∈ st.trace →
    (deleted st.trace).count s = 1

/-- No stream is added under a name that is taken. -/
def NameFree (st : State) (c : Call) : Prop :=
  ∀ kind ref, c = .add kind ref → st.streams.find (key kind ref) = none

/-! ## The registry as the history gives it -/

variable {minLevel} {st} {t : List Obs} {s : Stream} {name : String}

theorem deleted_append (t : List Obs) (o : Obs) : deleted (t ++ [o]) = deleted t ++ o.deleted := by
  simp [deleted]

/-- The loop of `log` passes the event on to every entry. -/
theorem offers_foldl (e : LogEvent) (env : Stream → Outcome) : ∀ (l : List (String × Stream))
    (acc : OrdMap Stream Bool × List Offer), (l.foldl (offer st e env) acc).2.map Offer.stream =
      acc.2.map Offer.stream ++ l.map Prod.snd
  | [], acc => by simp
  | i :: l, acc => by
    have hoffer : (offer st e env acc i).2.map Offer.stream = acc.2.map Offer.stream ++ [i.2] := by
      unfold offer
      split
      · simp only
        split_ifs <;> simp [Offer.stream]
    rw [List.foldl_cons, offers_foldl e env l, hoffer, List.map_cons, List.append_assoc,
      List.singleton_append]

/-- The entries are the live streams under the names they were added under. -/
structure Kept (st : State) : Prop where
  find_iff : st.destroyed = false → ∀ name s,
    st.streams.find name = some s ↔ .added s name ∈ st.trace ∧ s ∉ deleted st.trace
  unique : ∀ s name name', .added s name ∈ st.trace → .added s name' ∈ st.trace → name = name'
  below : ∀ s name, .added s name ∈ st.trace → s < st.count
  owned : ∀ s, s ∈ deleted st.trace → ∃ name, .added s name ∈ st.trace
  nodup : (deleted st.trace).Nodup
  atEnd : st.destroyed = true → ∀ s name, .added s name ∈ st.trace → s ∈ deleted st.trace
  calls : Along Serves st.trace

namespace Kept

theorem mem_values (h : Kept st) (hd : st.destroyed = false) :
    s ∈ st.streams.entries.map Prod.snd ↔ Live st.trace s := by
  rw [List.mem_map]
  constructor
  · rintro ⟨⟨name, s⟩, hmem, rfl⟩
    obtain ⟨hadded, hlive⟩ := (h.find_iff hd name s).1 (OrdMap.find_eq_some_iff.2 hmem)
    exact ⟨⟨name, hadded⟩, hlive⟩
  · rintro ⟨⟨name, hadded⟩, hlive⟩
    exact ⟨(name, s), OrdMap.find_eq_some_iff.1 ((h.find_iff hd name s).2 ⟨hadded, hlive⟩), rfl⟩

/-- A stream has one name, so it is in the map once. -/
theorem nodup_values (h : Kept st) (hd : st.destroyed = false) :
    (st.streams.entries.map Prod.snd).Nodup := by
  refine List.pairwise_map.2 (st.streams.sorted.imp_of_mem fun {a b} ha hb hlt heq => ?_)
  have hname := (h.find_iff hd a.1 a.2).1 (OrdMap.find_eq_some_iff.2 ha)
  have hname' := (h.find_iff hd b.1 b.2).1 (OrdMap.find_eq_some_iff.2 hb)
  rw [← heq] at hname'
  exact hlt.ne (h.unique a.2 a.1 b.1 hname.1 hname'.1)

theorem count_values (h : Kept st) (hd : st.destroyed = false) (s : Stream) :
    (Live st.trace s → (st.streams.entries.map Prod.snd).count s = 1) ∧
      (¬Live st.trace s → (st.streams.entries.map Prod.snd).count s = 0) := by
  rw [← h.mem_values hd]
  exact ⟨List.count_eq_one_of_mem (h.nodup_values hd), List.count_eq_zero_of_not_mem⟩

theorem served (h : Kept st) : Served st := by
  refine ⟨fun s hlive => ?_, h.calls, fun s => List.nodup_iff_count_le_one.1 h.nodup s,
    fun hd s name hadded => List.count_eq_one_of_mem h.nodup (h.atEnd hd s name hadded)⟩
  obtain ⟨⟨name, hadded⟩, hnot⟩ := hlive
  have hd : st.destroyed = false := by
    rw [Bool.eq_false_iff]
    exact fun hd => hnot (h.atEnd hd s name hadded)
  refine ⟨name, (h.find_iff hd name s).2 ⟨hadded, hnot⟩, fun name' hname' => ?_⟩
  exact h.unique s name' name ((h.find_iff hd name' s).1 hname').1 hadded

theorem init : Kept (start minLevel) := by
  have hadded : ∀ s name, Obs.added s name ∈ (start minLevel).trace ↔ s = 0 ∧ name = "stdout" := by
    intro s name
    simp [start]
  have hfind : (start minLevel).streams.find =
      fun name => if name = "stdout" then some 0 else none := by
    funext name
    exact OrdMap.find_emplace OrdMap.find_empty
  refine ⟨fun _ name s => ?_, fun s name name' h h' => ?_, fun s name h => ?_, fun s h => ?_,
    List.nodup_nil, fun h => ?_, Along.nil.concat trivial⟩
  · rw [hfind, hadded]
    change (if name = "stdout" then some 0 else none) = some s ↔ (s = 0 ∧ name = "stdout") ∧ s ∉ []
    split_ifs with hname
    · simp [hname, eq_comm]
    · simp [hname]
  · rw [hadded] at h h'
    exact h.2.trans h'.2.symm
  · rw [hadded] at h
    rw [h.1]
    exact Nat.zero_lt_one
  · cases h
  · cases h

theorem add (h : Kept st) (hd : st.destroyed = false) (hfree : st.streams.find name = none)
    (o : OutputStream) : Kept { st with
      streams := st.streams.emplace name st.count
      sinks := Function.update st.sinks st.count o
      count := st.count + 1
      trace := st.trace ++ [.added st.count name] } := by
  have hadded {s : Stream} {name' : String} :
      .added s name' ∈ st.trace ++ [.added st.count name] ↔
        .added s name' ∈ st.trace ∨ s = st.count ∧ name' = name := by
    rw [List.mem_append, List.mem_singleton, Obs.added.injEq]
  have hdeleted : deleted (st.trace ++ [.added st.count name]) = deleted st.trace := by
    rw [deleted_append, Obs.deleted, List.append_nil]
  have hnew {name' : String} : .added st.count name' ∉ st.trace := fun hmem =>
    lt_irrefl _ (h.below _ _ hmem)
  have hkept : st.count ∉ deleted st.trace := by
    intro hmem
    obtain ⟨name', hname'⟩ := h.owned _ hmem
    exact hnew hname'
  refine ⟨fun _ name' s => ?_, fun s name₁ name₂ h₁ h₂ => ?_, fun s name' hs => ?_, fun s hs => ?_,
    ?_, fun hd' => ?_, h.calls.concat trivial⟩
  · rw [hadded, hdeleted, OrdMap.find_emplace hfree]
    split_ifs with hname
    · rw [hname, Option.some.injEq]
      constructor
      · rintro rfl
        exact ⟨Or.inr ⟨rfl, rfl⟩, hkept⟩
      · rintro ⟨hold | ⟨rfl, -⟩, hlive⟩
        · have hfind := (h.find_iff hd name s).2 ⟨hold, hlive⟩
          rw [hfree] at hfind
          cases hfind
        · rfl
    · rw [h.find_iff hd]
      simp [hname]
  · rcases hadded.1 h₁ with hold₁ | ⟨rfl, rfl⟩
    · rcases hadded.1 h₂ with hold₂ | ⟨rfl, rfl⟩
      · exact h.unique s name₁ name₂ hold₁ hold₂
      · exact absurd hold₁ hnew
    · rcases hadded.1 h₂ with hold₂ | ⟨-, rfl⟩
      · exact absurd hold₂ hnew
      · rfl
  · rcases hadded.1 hs with hold | ⟨rfl, -⟩
    · exact (h.below s name' hold).trans (Nat.lt_succ_self _)
    · exact Nat.lt_succ_self _
  · rw [hdeleted] at hs
    obtain ⟨name', hname'⟩ := h.owned s hs
    exact ⟨name', hadded.2 (Or.inl hname')⟩
  · rw [hdeleted]
    exact h.nodup
  · rw [hd] at hd'
    cases hd'

/-- A call that neither adds nor deletes a stream. -/
theorem observe (h : Kept st) (hd : st.destroyed = false) {o : Obs} (hdeleted : o.deleted = [])
    (hadded : ∀ s name, .added s name ≠ o) (hserves : Serves st.trace o)
    (retryMap : OrdMap Stream Bool) :
    Kept { st with retryMap := retryMap, trace := st.trace ++ [o] } := by
  have hmem {s : Stream} {name : String} :
      .added s name ∈ st.trace ++ [o] ↔ .added s name ∈ st.trace := by
    rw [List.mem_append, List.mem_singleton, or_iff_left (hadded s name)]
  have hsame : deleted (st.trace ++ [o]) = deleted st.trace := by
    rw [deleted_append, hdeleted, List.append_nil]
  refine ⟨fun _ name s => ?_, fun s name name' h₁ h₂ => ?_, fun s name hs => ?_, fun s hs => ?_,
    ?_, fun hd' => ?_, h.calls.concat hserves⟩
  · rw [hmem, hsame]
    exact h.find_iff hd name s
  · exact h.unique s name name' (hmem.1 h₁) (hmem.1 h₂)
  · exact h.below s name (hmem.1 hs)
  · rw [hsame] at hs
    obtain ⟨name, hname⟩ := h.owned s hs
    exact ⟨name, hmem.2 hname⟩
  · rw [hsame]
    exact h.nodup
  · rw [hd] at hd'
    cases hd'

/-- Live streams are deleted, each once. -/
theorem delete (h : Kept st) {o : Obs} {st' : State} (htrace : st'.trace = st.trace ++ [o])
    (hcount : st'.count = st.count) (hadded : ∀ s name, .added s name ≠ o)
    (hserves : Serves st.trace o) (hnodup : o.deleted.Nodup)
    (hlive : ∀ s ∈ o.deleted, Live st.trace s)
    (hfind : st'.destroyed = false → ∀ name s, st'.streams.find name = some s ↔
      .added s name ∈ st.trace ∧ s ∉ deleted st.trace ∧ s ∉ o.deleted)
    (hend : st'.destroyed = true → ∀ s, Live st.trace s → s ∈ o.deleted) : Kept st' := by
  have hmem {s : Stream} {name : String} :
      .added s name ∈ st'.trace ↔ .added s name ∈ st.trace := by
    rw [htrace, List.mem_append, List.mem_singleton, or_iff_left (hadded s name)]
  have hdeleted {s : Stream} : s ∈ deleted st'.trace ↔ s ∈ deleted st.trace ∨ s ∈ o.deleted := by
    rw [htrace, deleted_append, List.mem_append]
  refine ⟨fun hd name s => ?_, fun s name name' h₁ h₂ => ?_, fun s name hs => ?_, fun s hs => ?_,
    ?_, fun hd s name hs => ?_, ?_⟩
  · rw [hmem, hdeleted, not_or]
    exact hfind hd name s
  · exact h.unique s name name' (hmem.1 h₁) (hmem.1 h₂)
  · rw [hcount]
    exact h.below s name (hmem.1 hs)
  · rcases hdeleted.1 hs with hold | hnew
    · obtain ⟨name, hname⟩ := h.owned s hold
      exact ⟨name, hmem.2 hname⟩
    · obtain ⟨⟨name, hname⟩, -⟩ := hlive s hnew
      exact ⟨name, hmem.2 hname⟩
  · rw [htrace, deleted_append]
    exact List.nodup_append'.2 ⟨h.nodup, hnodup, fun s hold hnew => (hlive s hnew).2 hold⟩
  · by_cases hold : s ∈ deleted st.trace
    · exact hdeleted.2 (Or.inl hold)
    · exact hdeleted.2 (Or.inr (hend hd s ⟨⟨name, hmem.1 hs⟩, hold⟩))
  · rw [htrace]
    exact h.calls.concat hserves

theorem step (h : Kept st) {c : Call} {st' : State} (hfree : NameFree st c)
    (hstep : step minLevel st c = some st') : Kept st' := by
  unfold Sinks.step at hstep
  split at hstep
  · cases hstep
  next hnot =>
  have hd : st.destroyed = false := by simpa using hnot
  cases c with
  | add kind ref =>
    obtain rfl := Option.some.inj hstep
    exact h.add hd (hfree kind ref rfl) _
  | remove name =>
    cases hfind : st.streams.find name with
    | none =>
      simp only [hfind, Option.some.injEq] at hstep
      subst hstep
      refine h.observe hd rfl (fun _ _ h => by cases h) (fun s => ?_) st.retryMap
      constructor
      · exact fun hs => by cases hs
      · rintro ⟨⟨-, hlive⟩, hname⟩
        have hsome := (h.find_iff hd name s).2 ⟨hname, hlive⟩
        rw [hfind] at hsome
        cases hsome
    | some s =>
      simp only [hfind, Option.some.injEq] at hstep
      subst hstep
      obtain ⟨hname, hlive⟩ := (h.find_iff hd name s).1 hfind
      refine h.delete rfl rfl (fun _ _ h => by cases h) (fun s' => ?_) (List.nodup_singleton s)
        (fun s' hs' => ?_) (fun _ name' s' => ?_) (fun hd' => ?_)
      · rw [← hfind, h.find_iff hd]
        constructor
        · exact fun hs' => ⟨⟨⟨name, hs'.1⟩, hs'.2⟩, hs'.1⟩
        · exact fun hs' => ⟨hs'.2, hs'.1.2⟩
      · rw [List.mem_singleton.1 hs']
        exact ⟨⟨name, hname⟩, hlive⟩
      · simp only [OrdMap.find_erase, Obs.deleted, List.mem_singleton]
        split_ifs with heq
        · simp only [false_iff, not_and, not_not]
          intro hname' hlive'
          rw [heq] at hname'
          have hsome := (h.find_iff hd name s').2 ⟨hname', hlive'⟩
          rw [hfind] at hsome
          exact (Option.some.inj hsome).symm
        · rw [h.find_iff hd]
          constructor
          · rintro ⟨hname', hlive'⟩
            refine ⟨hname', hlive', ?_⟩
            rintro rfl
            exact heq (h.unique _ _ _ hname' hname)
          · exact fun hs' => ⟨hs'.1, hs'.2.1⟩
      · rw [hd] at hd'
        cases hd'
  | setMinLogLevel name level =>
    cases hfind : st.streams.find name with
    | none =>
      simp only [hfind, Option.some.injEq] at hstep
      subst hstep
      exact h
    | some s =>
      simp only [hfind, Option.some.injEq] at hstep
      subst hstep
      exact ⟨h.find_iff, h.unique, h.below, h.owned, h.nodup, h.atEnd, h.calls⟩
  | log e env =>
    obtain rfl := Option.some.inj hstep
    refine h.observe hd rfl (fun _ _ h => by cases h) (fun s => ?_) _
    rw [offers_foldl]
    exact h.count_values hd s
  | reap s =>
    obtain rfl := Option.some.inj hstep
    exact ⟨h.find_iff, h.unique, h.below, h.owned, h.nodup, h.atEnd, h.calls⟩
  | destroy =>
    obtain rfl := Option.some.inj hstep
    refine h.delete rfl rfl (fun _ _ h => by cases h) (h.count_values hd) (h.nodup_values hd)
      (fun s hs => (h.mem_values hd).1 hs) (fun hd' => ?_) (fun _ s hs => (h.mem_values hd).2 hs)
    cases hd'

end Kept

/-- Streams that are added under free names are all served. -/
theorem served_of_reach (minLevel : LogLevel) (st : State)
    (h : (calls minLevel).Reach NameFree st) : Served st := by
  refine Kept.served (h.invariant ?_ fun _ _ _ _ hI hok hstep => hI.step hok hstep)
  rintro st rfl
  exact Kept.init

/-! ## Two streams to one host -/

/-- `NameFree`, as a test. -/
def nameFree (st : State) : Call → Bool
  | .add kind ref => (st.streams.find (key kind ref)).isNone
  | _ => true

theorem nameFree_sound (st : State) (c : Call) (h : nameFree st c = true) : NameFree st c := by
  rintro kind ref rfl
  exact Option.isNone_iff_eq_none.1 h

/-- The second stream to the host comes under a name of its own, and the first is removed. -/
def ownName : List Call :=
  [.add (.stomp "broker") "", .add (.stomp "broker") "backup", .remove "stomp: broker",
    .destroy]

/-- What can be seen of these calls. -/
def ownNameSeen : List Obs :=
  [.added 0 "stdout", .added 1 "stomp: broker", .added 2 "backup",
    .removed "stomp: broker" (some 1), .destroyed [2, 0]]

theorem served_ownName : ∃ st, st.trace = ownNameSeen ∧ Served st := by
  obtain ⟨st, hreach, hst⟩ := System.exists_reach (T := calls .finest) nameFree_sound rfl ownName
    (fun st => st.trace == ownNameSeen) (by decide +kernel)
  exact ⟨st, beq_iff_eq.1 hst, served_of_reach .finest st hreach⟩

/-- Both streams are added under the name that the host gives them. -/
def oneHost : List Call :=
  [.add (.stomp "broker") "", .add (.stomp "broker") ""]

/-- The second stream is in no entry. -/
theorem second_stream_lost :
    ¬∀ (minLevel : LogLevel) (st : State), (calls minLevel).Reachable st → Served st := by
  intro h
  obtain ⟨st, hreach, hst⟩ := System.exists_reach (T := calls .finest)
    (b := fun _ _ => true) (p := fun _ _ => True) (fun _ _ _ => trivial) rfl oneHost
    (fun st =>
      st.trace == [.added 0 "stdout", .added 1 "stomp: broker", .added 2 "stomp: broker"] &&
        st.streams.entries.map Prod.snd == [0, 1]) (by decide +kernel)
  rw [Bool.and_eq_true] at hst
  obtain ⟨htrace, hvalues⟩ := hst
  have hlive : Live st.trace 2 := by
    rw [beq_iff_eq.1 htrace]
    exact ⟨⟨"stomp: broker", by simp⟩, by simp [deleted, Obs.deleted]⟩
  obtain ⟨name, hname, -⟩ := (h .finest st hreach).present 2 hlive
  have hmem : 2 ∈ st.streams.entries.map Prod.snd :=
    List.mem_map.2 ⟨(name, 2), OrdMap.find_eq_some_iff.1 hname, rfl⟩
  rw [beq_iff_eq.1 hvalues] at hmem
  simp at hmem

end Logfile.Sinks
