import Logfile.Reassembly
import Logfile.Runs

/-!
# The grace period of heartbeats

`reader_thread` on one connection with `read_with_timeout`, which waits a second period when
`m_last_was_data` is set, and clears it then. The trace records what is received, and whether a
time-out is tolerated.

Heartbeats do not clear `m_last_was_data`, and a new connection does not either. So a time-out is
tolerated too often exactly if it comes with the mark of data, and not right behind the data
(`tolerated_afterData`).
-/

namespace Logfile.Grace

/-! ## The reader -/

/-- What a read gives. -/
structure Chunk where
  bytes : Bytes
  ne_nil : bytes ≠ []
  fits : bytes.length ≤ 1536

/-- What happens to a `select`. -/
inductive Event
  | chunk (d : Chunk)
  | timeout

inductive Obs
  | chunk (d : Bytes)
  | tolerated
  | reported
  deriving DecidableEq

structure State where
  buf : Bytes
  reader : Reader
  running : Bool
  trace : List Obs

/-- `read_with_timeout` and what `reader_thread` does with its result. A tolerated time-out is
followed by the same wait. -/
def step (st : State) : Event → Option State
  | .timeout =>
    if !st.running then none
    else if st.reader.lastWasData then
      some { st with
        reader := { st.reader with lastWasData := false }
        trace := st.trace ++ [.tolerated] }
    else some { st with running := false, trace := st.trace ++ [.reported] }
  | .chunk d =>
    if !st.running then none
    else
      let buf := fillBuffer st.buf d.bytes
      match innerLoop buf d.bytes.length (d.bytes.length + 1) 0 d.bytes.length st.reader with
      | none => none
      -- a rejected frame closes the connection
      | some (reader, rejected) =>
        some ⟨buf, reader, !rejected, st.trace ++ [.chunk d.bytes]⟩

/-- The reader of a connection. `w` is what an earlier one has left in `m_last_was_data`. -/
def connection (w : Bool) : System State Event where
  init st := st.buf.length = 1537 ∧ st.reader = ⟨[], w, []⟩ ∧ st.running = true ∧ st.trace = []
  step := step

/-! ## What is asked of it -/

/-- All bytes that have come. -/
def received (t : List Obs) : Bytes :=
  t.flatMap fun
    | .chunk d => d
    | .tolerated => []
    | .reported => []

/-- The chunk contains data of a frame, behind what has come before it. -/
def ContainsData (past : List Obs) (d : Bytes) : Prop :=
  hasData (Frames.split 10 0 [] (received past)).2 d = true

instance (past : List Obs) (d : Bytes) : Decidable (ContainsData past d) :=
  inferInstanceAs (Decidable (_ = true))

/-- The last that has come is a chunk with data. -/
def AfterData (t : List Obs) : Prop :=
  ∃ past d, t = past ++ [.chunk d] ∧ ContainsData past d

/-- A time-out is tolerated only right behind data. -/
def ToleratedAfterData (past : List Obs) (o : Obs) : Prop :=
  o = .tolerated → AfterData past

def Obs.IsChunk : Obs → Prop
  | chunk _ => True
  | tolerated => False
  | reported => False

/-- Data has come since the last time-out, or there was none and the mark was set. -/
def Marked (w : Bool) (t : List Obs) : Prop :=
  (w = true ∧ ∀ o ∈ t, o.IsChunk) ∨
    ∃ past d later, t = past ++ .chunk d :: later ∧ ContainsData past d ∧ ∀ o ∈ later, o.IsChunk

/-- A time-out that comes with the mark comes right behind data. -/
def Timely (w : Bool) (st : State) (e : Event) : Prop :=
  e = .timeout → Marked w st.trace → AfterData st.trace

/-! ## The mark -/

section Marked

variable {w : Bool} {t : List Obs} {d : Bytes}

theorem received_concat (t : List Obs) (d : Bytes) :
    received (t ++ [.chunk d]) = received t ++ d := by
  simp [received]

theorem received_tolerated (t : List Obs) : received (t ++ [.tolerated]) = received t := by
  simp [received]

theorem isChunk_concat (h : ∀ o ∈ t, o.IsChunk) : ∀ o ∈ t ++ [Obs.chunk d], o.IsChunk := by
  intro o ho
  rcases List.mem_append.1 ho with ho | ho
  · exact h o ho
  · rw [List.mem_singleton.1 ho]
    trivial

theorem marked_chunk : Marked w (t ++ [.chunk d]) ↔ Marked w t ∨ ContainsData t d := by
  constructor
  · rintro (⟨hw, hall⟩ | ⟨past, d', later, heq, hdata, hall⟩)
    · exact .inl (.inl ⟨hw, fun o ho => hall o (List.mem_append_left _ ho)⟩)
    · obtain ⟨rfl, hd, -⟩ | ⟨later, rfl, rfl⟩ := concat_eq_append_cons heq
      · obtain rfl := Obs.chunk.inj hd
        exact .inr hdata
      · exact .inl (.inr ⟨past, d', later, rfl, hdata,
          fun o ho => hall o (List.mem_append_left _ ho)⟩)
  · rintro ((⟨hw, hall⟩ | ⟨past, d', later, rfl, hdata, hall⟩) | hdata)
    · exact .inl ⟨hw, isChunk_concat hall⟩
    · exact .inr ⟨past, d', later ++ [.chunk d], by simp, hdata, isChunk_concat hall⟩
    · exact .inr ⟨t, d, [], rfl, hdata, fun o ho => by cases ho⟩

theorem not_marked_tolerated : ¬Marked w (t ++ [.tolerated]) := by
  rintro (⟨-, hall⟩ | ⟨past, d, later, heq, -, hall⟩)
  · exact hall .tolerated (by simp)
  · obtain ⟨-, ho, -⟩ | ⟨later, rfl, -⟩ := concat_eq_append_cons heq
    · cases ho
    · exact hall .tolerated (by simp)

end Marked

/-! ## The reader keeps the mark -/

/-- While the reader runs, it knows the unfinished frame, and the mark is set as it should be. -/
structure Kept (w : Bool) (st : State) : Prop where
  buf : st.buf.length = 1537
  partialReply : st.running = true →
    st.reader.partialReply = (Frames.split 10 0 [] (received st.trace)).2
  mark : st.running = true → (st.reader.lastWasData = true ↔ Marked w st.trace)

section Step

variable {w : Bool} {st st' : State} {e : Event}

/-- What a step can do. -/
theorem step_cases (hbuf : st.buf.length = 1537) (h : step st e = some st') :
    st.running = true ∧
      ((∃ d : Chunk, e = .chunk d ∧ st' = ⟨fillBuffer st.buf d.bytes,
          (st.reader.reads d.bytes
            (st.reader.lastWasData || hasData st.reader.partialReply d.bytes)).1,
          !(st.reader.reads d.bytes
            (st.reader.lastWasData || hasData st.reader.partialReply d.bytes)).2,
          st.trace ++ [.chunk d.bytes]⟩) ∨
        (e = .timeout ∧ st.reader.lastWasData = true ∧
          st' = { st with
            reader := { st.reader with lastWasData := false }
            trace := st.trace ++ [.tolerated] }) ∨
        e = .timeout ∧ st.reader.lastWasData = false ∧
          st' = { st with running := false, trace := st.trace ++ [.reported] }) := by
  cases e with
  | timeout =>
    simp only [step] at h
    split_ifs at h with hrun hmark
    · exact ⟨by simpa using hrun, .inr (.inl ⟨rfl, hmark, (Option.some.inj h).symm⟩)⟩
    · exact ⟨by simpa using hrun,
        .inr (.inr ⟨rfl, by simpa using hmark, (Option.some.inj h).symm⟩)⟩
  | chunk d =>
    have hfits : d.bytes.length < st.buf.length := by
      have := d.fits
      omega
    simp only [step, innerLoop_fillBuffer hfits] at h
    split_ifs at h with hrun
    exact ⟨by simpa using hrun, .inl ⟨d, rfl, (Option.some.inj h).symm⟩⟩

theorem Kept.step (hk : Kept w st) (h : step st e = some st') : Kept w st' := by
  obtain ⟨hrun, ⟨d, rfl, rfl⟩ | ⟨rfl, -, rfl⟩ | ⟨rfl, -, rfl⟩⟩ := step_cases hk.buf h
  · have hfits : d.bytes.length < st.buf.length := by
      have := d.fits
      have := hk.buf
      omega
    have hpartial := hk.partialReply hrun
    refine ⟨(length_fillBuffer hfits).trans hk.buf, fun hgoes => ?_, fun _ => ?_⟩
    · -- no frame was rejected
      obtain ⟨p, hp⟩ : ∃ p, (Frames.feed 10 0 accepts st.reader.partialReply d.bytes).2 =
          some p := by
        simpa [Reader.reads, Option.isSome_iff_exists] using hgoes
      rw [received_concat, Frames.split_append, ← hpartial, Frames.split_of_feed hp]
      simp [Reader.reads, hp]
    · rw [marked_chunk, ← hk.mark hrun, ContainsData, ← hpartial]
      simp [Reader.reads]
  · refine ⟨hk.buf, fun _ => ?_, fun _ => ?_⟩
    · rw [received_tolerated]
      exact hk.partialReply hrun
    · exact iff_of_false (by simp) not_marked_tolerated
  · exact ⟨hk.buf, (fun hgoes => by cases hgoes), fun hgoes => by cases hgoes⟩

/-- A step keeps to the rule exactly if it is timely. -/
theorem along_iff_timely (hk : Kept w st) (ha : Along ToleratedAfterData st.trace)
    (h : step st e = some st') : Along ToleratedAfterData st'.trace ↔ Timely w st e := by
  obtain ⟨hrun, ⟨d, rfl, rfl⟩ | ⟨rfl, hmark, rfl⟩ | ⟨rfl, hmark, rfl⟩⟩ := step_cases hk.buf h
  · refine iff_of_true (ha.concat fun ho => by cases ho) fun ht => by cases ht
  · have hmarked := (hk.mark hrun).1 hmark
    constructor
    · exact fun hall _ _ => hall st.trace .tolerated [] rfl rfl
    · exact fun ht => ha.concat fun _ => ht rfl hmarked
  · refine iff_of_true (ha.concat fun ho => by cases ho) fun _ hmarked => ?_
    rw [(hk.mark hrun).2 hmarked] at hmark
    cases hmark

end Step

theorem keptMark_of_reach {w : Bool} {ok : State → Event → Prop} {st : State}
    (h : (connection w).Reach ok st) : Kept w st := by
  refine h.invariant ?_ fun _ _ _ _ hk _ hstep => hk.step hstep
  rintro st ⟨hbuf, hreader, -, htrace⟩
  refine ⟨hbuf, fun _ => ?_, fun _ => ?_⟩
  · rw [hreader, htrace]
    rfl
  · rw [hreader, htrace]
    simp [Marked]

/-- In a run of timely events, a time-out is tolerated only right behind data, and the next event
keeps it so exactly if it is timely. -/
theorem tolerated_afterData (w : Bool) (st : State) (h : (connection w).Reach (Timely w) st) :
    Along ToleratedAfterData st.trace ∧ ∀ e st', (connection w).step st e = some st' →
      (Along ToleratedAfterData st'.trace ↔ Timely w st e) := by
  have ha : Along ToleratedAfterData st.trace := by
    refine h.invariant (I := fun st => Along ToleratedAfterData st.trace) ?_
      fun s e s' hs ha he hstep => ?_
    · rintro s ⟨-, -, -, htrace⟩
      rw [htrace]
      exact Along.nil
    · exact (along_iff_timely (keptMark_of_reach hs) ha hstep).2 he
  exact ⟨ha, fun e st' hstep => along_iff_timely (keptMark_of_reach h) ha hstep⟩

/-! ## A heartbeat between data and silence -/

/-- A receipt. -/
def dataChunk : Chunk :=
  ⟨ascii "RECEIPT\nreceipt-id:1\n\n" ++ [0], by decide, by decide⟩

def heartbeatChunk : Chunk :=
  ⟨[10], by decide, by decide⟩

def opened : State :=
  ⟨List.replicate 1537 0, ⟨[], false, []⟩, true, []⟩

/-- The time-out behind the heartbeat is tolerated. -/
theorem tolerated_after_heartbeat :
    ¬∀ (w : Bool) (st : State), (connection w).Reachable st →
      Along ToleratedAfterData st.trace := by
  intro h
  obtain ⟨st, hreach, hst⟩ := System.exists_reach (T := connection false)
    (b := fun _ _ => true) (p := fun _ _ => True) (s := opened) (fun _ _ _ => trivial)
    ⟨List.length_replicate, rfl, rfl, rfl⟩ [.chunk dataChunk, .chunk heartbeatChunk, .timeout]
    (fun st => st.trace == [.chunk dataChunk.bytes, .chunk heartbeatChunk.bytes, .tolerated])
    (by decide +kernel)
  have hlast := h false st hreach [.chunk dataChunk.bytes, .chunk heartbeatChunk.bytes] .tolerated
    [] (beq_iff_eq.1 hst) rfl
  obtain ⟨past, d, heq, hdata⟩ := hlast
  obtain ⟨rfl, hd⟩ := List.append_inj' (show [_] ++ [_] = past ++ [_] from heq) rfl
  obtain rfl : heartbeatChunk.bytes = d := by simpa using hd
  revert hdata
  decide +kernel

theorem tolerated_afterData_data : ∃ st, (connection false).Reach (Timely false) st ∧
    st.trace = [.chunk dataChunk.bytes, .tolerated] ∧ Along ToleratedAfterData st.trace := by
  have hrun : (((connection false).step opened (.chunk dataChunk)).any fun st =>
      st.trace == [.chunk dataChunk.bytes] && ((connection false).step st .timeout).any fun st' =>
        st'.trace == [.chunk dataChunk.bytes, .tolerated]) = true := by
    decide +kernel
  obtain ⟨st, hst, hboth⟩ := (Option.any_eq_true _ _).1 hrun
  obtain ⟨htrace, hnext⟩ := Bool.and_eq_true_iff.1 hboth
  obtain ⟨st', hst', htrace'⟩ := (Option.any_eq_true _ _).1 hnext
  have hnew : (connection false).Reach (Timely false) opened :=
    .init ⟨List.length_replicate, rfl, rfl, rfl⟩
  have hdata := hnew.step (a := .chunk dataChunk) (fun he => by cases he) hst
  have hafter : AfterData st.trace := ⟨[], dataChunk.bytes, beq_iff_eq.1 htrace, by decide +kernel⟩
  have htimeout := hdata.step (a := .timeout) (fun _ _ => hafter) hst'
  exact ⟨st', htimeout, beq_iff_eq.1 htrace', (tolerated_afterData false st' htimeout).1⟩

end Logfile.Grace
