import Logfile.ConnectThreads

/-!
# The end of a STOMP stream

`~output_stream_stomp` frees the level strings, and then the members are destroyed. It neither
joins `m_connect_thread` nor waits for a reader. A `std::thread` that is still joinable ends the
program, and a thread that still runs goes on with destroyed members.

Only `connect` joins, in a later call of `do_write`, so `m_connecting` tells whether the connect
thread has been joined (`joined_iff`). A reader ends when its `read_with_timeout` fails and it has
executed the `disconnect` behind it, and in no other way : not behind a rejected frame, whatever the
comment there says (`since_of_reach`).
-/

namespace Logfile.Stomp

/-- What the destruction of the members does. -/
inductive Destruction
  /-- `std::terminate`, from `~thread` of `m_connect_thread` -/
  | terminates
  /-- a reader thread goes on -/
  | dangles
  | clean
  deriving DecidableEq

/-- `~output_stream_stomp` and the destruction of the members. -/
def State.destroy (st : State) : Destruction :=
  if st.connectThread.isSome then .terminates
  else if st.readers.all (·.pc == .finished) then .clean
  else .dangles

/-- No thread of the stream is left : none is joinable, and none runs. -/
structure DestroyedCleanly (st : State) : Prop where
  joinable : st.connectThread = none
  connecting : ∀ pc, st.connectThread = some pc → pc = .finished
  reading : ∀ rd ∈ st.readers, rd.pc = .finished
  clean : st.destroy = .clean

/-- The last connect thread has been joined, or `connect` is about to start the next. -/
def Joined (st : State) : Prop :=
  st.connecting = false ∧ (∀ job, st.writer ≠ .connect job .join) ∨
    ∃ job, st.writer = .connect job .clearDone ∨ st.writer = .connect job .spawn

variable {p : StompParams} {st : State}

theorem joined_iff (h : (system p).Reachable st) : Joined st ↔ st.connectThread = none := by
  have hctl := control_of_reach h
  constructor
  · rintro (⟨hoff, hjoin⟩ | ⟨job, hjob⟩)
    · rcases hctl.idle hoff with hnone | ⟨job, hjob⟩
      · exact hnone
      · exact absurd hjob (hjoin job)
    · exact (hctl.starting job hjob).2.1
  · intro hnone
    cases hconn : st.connecting with
    | false =>
      refine Or.inl ⟨hconn, fun job hjob => ?_⟩
      obtain ⟨pc, hpc, -⟩ := ConnectThreads.not_trying_of_join h hjob
      rw [hnone] at hpc
      cases hpc
    | true =>
      obtain ⟨st₀, hreach, href⟩ := ConnectThreads.refines_of_reach h
      obtain ⟨-, hflags⟩ := ConnectThreads.handled_of_reach hreach
      have hcaller := hflags.busy (href.connecting.trans hconn) (href.joinable hnone)
      rw [href.caller] at hcaller
      cases hw : st.writer with
      | connect job pc =>
        rw [hw, ConnectThreads.callerPc, Option.some.injEq, Option.some.injEq] at hcaller
        refine Or.inr ⟨job, ?_⟩
        rw [hw]
        rcases hcaller with rfl | rfl
        · exact Or.inl rfl
        · exact Or.inr rfl
      | _ =>
        rw [hw] at hcaller
        simp [ConnectThreads.callerPc] at hcaller

/-! ## The ends of the readers -/

/-- With the outcome `r` of the call it is in, the `read_with_timeout` of the reader returns without
data. -/
def readFails (st : State) (rd : Reader) (r : Outcome) : Bool :=
  match rd.pc with
  | .select timed _ => r = .timeout && timed && !st.lastWasData
  | .read =>
    match st.socket, r with
    | some k, .done _ => st.conns[k]?.any fun c => c.inbox.isEmpty && c.eof
    | _, _ => false
  | .fail => true
  | _ => false

/-- A session, and for each reader that was started the number of its steps since its
`read_with_timeout` has failed, if it has. -/
structure Ending where
  session : State
  since : List (Option ℕ)

namespace Ending

/-- What a step of the session adds. -/
def sinceAfter (st : Ending) : Action → List (Option ℕ)
  | .reader i r =>
    match st.session.readers[i]? with
    | some rd =>
      st.since.modify i fun n => if readFails st.session rd r then some 0 else n.map (· + 1)
    | none => st.since
  | .connect _ =>
    match st.session.connectThread with
    | some (.spawn _) => st.since ++ [none]
    | _ => st.since
  | _ => st.since

def step (p : StompParams) (st : Ending) (a : Action) : Option Ending :=
  (Stomp.step p st.session a).map fun session => ⟨session, st.sinceAfter a⟩

def system (p : StompParams) : System Ending Action where
  init st := st = ⟨.start, []⟩
  step := step p

variable {st : Ending}

theorem session_of_reach {ok : Ending → Action → Prop} (h : (system p).Reach ok st) :
    (Stomp.system p).Reachable st.session := by
  refine h.invariant (I := fun st => (Stomp.system p).Reachable st.session) ?_
    fun st a st' _ hr _ hs => ?_
  · rintro _ rfl
    exact .init rfl
  · obtain ⟨session, hstep, rfl⟩ := Option.map_eq_some_iff.1 hs
    exact .step hr trivial hstep

/-- Every session has a history of its readers. -/
theorem exists_reach_of_session {s : State} (h : (Stomp.system p).Reachable s) :
    ∃ st, (system p).Reachable st ∧ st.session = s :=
  h.simulate (A := system p) (R := fun s st => st.session = s)
    (fun s hs => ⟨⟨.start, []⟩, rfl, hs.symm⟩) fun s a s' st _ hsession _ hs => by
      subst hsession
      have hs : Stomp.step p st.session a = some s' := hs
      exact ⟨⟨s', st.sinceAfter a⟩, .single ⟨a, by simp [system, step, hs]⟩, rfl⟩

/-- How far the reader is behind a `read_with_timeout` that has failed. -/
def place : ReaderPc → Option ℕ
  | .close true => some 0
  | .drop true => some 1
  | .finished => some 2
  | _ => none

/-- A reader gets behind the loop by a `read_with_timeout` that fails, and goes on there. -/
theorem place_of_readerStep {s s' : State} {i : ℕ} {rd : Reader} {r : Outcome}
    (hs : readerStep s i rd r = some s') : ∃ f, s'.readers = s.readers.modify i f ∧
      place (f rd).pc = if readFails s rd r then some 0 else (place rd.pc).map (· + 1) := by
  have hgoto : ∀ {s₀ : State} {pc : ReaderPc}, s₀.readers = s.readers →
      place pc = (if readFails s rd r then some 0 else (place rd.pc).map (· + 1)) →
      ∃ f, (s₀.gotoReader i pc).readers = s.readers.modify i f ∧
        place (f rd).pc = if readFails s rd r then some 0 else (place rd.pc).map (· + 1) := by
    intro s₀ pc hreaders hplace
    exact ⟨fun r => { r with pc }, by rw [State.gotoReader, hreaders], hplace⟩
  cases hpc : rd.pc with
  | enter =>
    simp only [readerStep, hpc] at hs
    obtain rfl := Option.some.inj hs
    simp only [hpc] at hgoto
    exact hgoto rfl (by simp [readFails, hpc, place])
  | test timed =>
    simp only [readerStep, hpc] at hs
    simp only [hpc] at hgoto
    split at hs <;> obtain rfl := Option.some.inj hs
    · exact hgoto rfl (by simp [readFails, hpc, place])
    · exact hgoto rfl (by simp [readFails, hpc, place])
  | select timed k =>
    simp only [readerStep, hpc] at hs
    simp only [hpc] at hgoto
    split at hs
    · split_ifs at hs
      obtain rfl := Option.some.inj hs
      exact hgoto rfl (by simp [readFails, hpc, place])
    · split_ifs at hs with htimed hdata
      · obtain rfl := Option.some.inj hs
        exact hgoto rfl (by simp [readFails, hpc, place, hdata])
      · obtain rfl := Option.some.inj hs
        have htimed : timed = true := by simpa using htimed
        exact hgoto rfl (by simp [readFails, hpc, place, hdata, htimed])
    · obtain rfl := Option.some.inj hs
      exact hgoto rfl (by simp [readFails, hpc, place])
  | read =>
    simp only [readerStep, hpc] at hs
    simp only [hpc] at hgoto
    split at hs
    · next hsocket =>
      obtain rfl := Option.some.inj hs
      exact hgoto rfl (by simp [readFails, hpc, place, hsocket])
    · next k n hsocket =>
      split at hs
      · cases hs
      · next c hc =>
        split_ifs at hs with hempty heof hn
        · obtain rfl := Option.some.inj hs
          exact hgoto rfl (by simp [readFails, hpc, place, hsocket, hc, hempty, heof])
        · obtain rfl := Option.some.inj hs
          exact ⟨_, rfl, by simp [readFails, hpc, place, hsocket, hc, hempty]⟩
    · next k hsocket hdone =>
      obtain rfl := Option.some.inj hs
      refine hgoto rfl ?_
      simp only [readFails, hpc, hsocket]
      split
      · exact absurd rfl (hdone _)
      · rfl
  | fail =>
    simp only [readerStep, hpc] at hs
    simp only [hpc] at hgoto
    obtain rfl := Option.some.inj hs
    exact hgoto rfl (by simp [readFails, hpc, place])
  | process k rest =>
    simp only [readerStep, hpc] at hs
    simp only [hpc] at hgoto
    split at hs
    · obtain rfl := Option.some.inj hs
      exact hgoto rfl (by simp [readFails, hpc, place])
    · next data rest' _ =>
      obtain rfl := Option.some.inj hs
      refine ⟨_, rfl, ?_⟩
      cases rest' <;> simp [readFails, hpc, place]
  | handle k rest =>
    simp only [readerStep, hpc] at hs
    simp only [hpc] at hgoto
    split at hs <;> obtain rfl := Option.some.inj hs
    · exact hgoto rfl (by simp [readFails, hpc, place])
    · exact hgoto rfl (by simp [readFails, hpc, place])
  | push k rest reply origin =>
    simp only [readerStep, hpc] at hs
    split_ifs at hs
    obtain rfl := Option.some.inj hs
    exact ⟨_, rfl, by simp [readFails, hpc, place]⟩
  | clear k rest ret =>
    simp only [readerStep, hpc] at hs
    obtain rfl := Option.some.inj hs
    refine ⟨_, rfl, ?_⟩
    cases ret <;> simp [readFails, hpc, place]
  | close last =>
    simp only [readerStep, hpc] at hs
    simp only [hpc] at hgoto
    obtain rfl := Option.some.inj hs
    refine hgoto rfl ?_
    cases last <;> simp [readFails, hpc, place]
  | drop last =>
    simp only [readerStep, hpc] at hs
    obtain rfl := Option.some.inj hs
    refine ⟨_, rfl, ?_⟩
    cases last <;> simp [readFails, hpc, place]
  | finished =>
    simp only [readerStep, hpc] at hs
    cases hs

/-- The other threads start readers and do not move them. -/
theorem readers_of_connectMove {s s' : State} {r : Outcome} {pc : ConnectPc}
    (hs : ConnectMove p s r pc s') : (∃ k, pc = .spawn k) ∧
        s'.readers.map (place ·.pc) = s.readers.map (place ·.pc) ++ [none] ∨
      (∀ k, pc ≠ .spawn k) ∧ s'.readers = s.readers := by
  cases hs with
  | @spawn k => exact Or.inl ⟨⟨k, rfl⟩, by simp [place]⟩
  | take _ hg => cases hg <;> exact Or.inr ⟨by simp, rfl⟩
  | _ => exact Or.inr ⟨by simp, rfl⟩

theorem readers_of_writerMove {s s' : State} {pc : WriterPc} (hs : WriterMove p s pc s') :
    s'.readers = s.readers := by
  cases hs with
  | connect hmove => cases hmove <;> rfl
  | take _ hv => cases hv <;> rfl
  | _ => rfl

theorem since_step {s' : State} {a : Action} (h : st.since = st.session.readers.map (place ·.pc))
    (hs : Stomp.step p st.session a = some s') :
    st.sinceAfter a = s'.readers.map (place ·.pc) := by
  have hmove := move hs
  cases a with
  | reader i r =>
    unfold Stomp.step at hs
    split at hs
    · cases hs
    · obtain ⟨rd, hrd, hstep⟩ := Option.bind_eq_some_iff.1 hs
      obtain ⟨f, hreaders, hplace⟩ := place_of_readerStep hstep
      rw [sinceAfter, hrd, h, hreaders]
      refine List.ext_getElem? fun j => ?_
      simp only [List.getElem?_modify, List.getElem?_map]
      by_cases hij : i = j
      · subst hij
        simp [hrd, hplace]
      · simp [hij]
  | connect r =>
    cases hmove with
    | @connect _ pc _ hpc hmove =>
      rcases readers_of_connectMove hmove with ⟨⟨k, rfl⟩, hreaders⟩ | ⟨hne, hreaders⟩
      · rw [sinceAfter, hpc, h, hreaders]
      · rw [hreaders, ← h, sinceAfter, hpc]
        split
        · next k heq => exact absurd (Option.some.inj heq) (hne k)
        · rfl
  | writer r =>
    cases hmove with
    | writer hmove =>
      rw [readers_of_writerMove hmove, ← h]
      rfl
  | call _ | deliver _ _ | serve _ _ | lose _ _ =>
    cases hmove
    exact h

/-- The history tells where the readers are. -/
theorem since_of_reach (h : (system p).Reachable st) :
    st.since = st.session.readers.map (place ·.pc) := by
  refine h.invariant (I := fun st => st.since = st.session.readers.map (place ·.pc)) ?_
    fun st a st' _ hi _ hs => ?_
  · rintro _ rfl
    rfl
  · obtain ⟨session, hstep, rfl⟩ := Option.map_eq_some_iff.1 hs
    exact since_step hi hstep

/-- The connect thread has been joined. Of every reader that was started `read_with_timeout` has
failed, and the reader has made the two steps of its `disconnect` since. -/
structure AtRest (st : Ending) : Prop where
  joined : Joined st.session
  failed : ∀ n ∈ st.since, n = some 2

end Ending

theorem finished_iff {pc : ReaderPc} : Ending.place pc = some 2 ↔ pc = .finished := by
  cases pc with
  | close last | drop last => cases last <;> simp [Ending.place]
  | _ => simp [Ending.place]

/-- In every reachable state, nothing is left exactly if the stream is at rest. -/
theorem destroyedCleanly_iff (p : StompParams) {st : Ending}
    (h : (Ending.system p).Reachable st) : DestroyedCleanly st.session ↔ st.AtRest := by
  have hsince := Ending.since_of_reach h
  have hjoined := joined_iff (Ending.session_of_reach h)
  constructor
  · intro hclean
    refine ⟨hjoined.2 hclean.joinable, fun n hn => ?_⟩
    rw [hsince] at hn
    obtain ⟨rd, hrd, rfl⟩ := List.mem_map.1 hn
    exact finished_iff.2 (hclean.reading rd hrd)
  · intro hrest
    have hnone := hjoined.1 hrest.joined
    have hleft : ∀ rd ∈ st.session.readers, rd.pc = .finished := fun rd hrd =>
      finished_iff.1 (hrest.failed _ (hsince ▸ List.mem_map_of_mem hrd))
    refine ⟨hnone, fun pc hpc => ?_, hleft, ?_⟩
    · rw [hnone] at hpc
      cases hpc
    · have hall : st.session.readers.all (·.pc == .finished) = true :=
        List.all_eq_true.2 fun rd hrd => beq_iff_eq.2 (hleft rd hrd)
      simp [State.destroy, hnone, hall]

/-! ## Removed while connecting, and after a lost connection -/

/-- The connection is still being made when the stream is removed. -/
theorem removed_while_connecting :
    ¬∀ (p : StompParams) (st : State), (system p).Reachable st → DestroyedCleanly st := by
  intro h
  obtain ⟨st, hreach, hst⟩ := System.exists_reach (T := system someParams)
    (b := fun _ _ => true) (p := fun _ _ => True) (fun _ _ _ => trivial) rfl (writes 4)
    (fun st => st.destroy == .terminates) rfl
  rw [(h someParams st hreach).clean] at hst
  cases hst

/-- The first attempt succeeds, the connection ends, its reader sees that, and the next `do_write`
joins the connect thread. -/
def connectionLost : List Action :=
  writes 4 ++ connects 4 ++ .serve 0 greeting :: reads 0 9 ++ connects 5 ++
    .lose 0 0 :: reads 0 6 ++ .call someEvent :: writes 6

theorem destroyedCleanly_connectionLost :
    ∃ st : Ending, st.session.readers.length = 1 ∧ DestroyedCleanly st.session := by
  obtain ⟨st, hreach, hst⟩ := System.exists_reach (T := Ending.system someParams)
    (b := fun _ _ => true) (p := fun _ _ => True) (fun _ _ _ => trivial) rfl connectionLost
    (fun st => st.session.readers.length == 1 && !st.session.connecting &&
      st.session.writer == .idle && st.since == [some 2]) (by decide +kernel)
  simp only [Bool.and_eq_true, Bool.not_eq_true', beq_iff_eq] at hst
  obtain ⟨⟨⟨hstarted, hoff⟩, hidle⟩, hsince⟩ := hst
  refine ⟨st, hstarted, (destroyedCleanly_iff someParams hreach).2 ⟨Or.inl ⟨hoff, ?_⟩, ?_⟩⟩
  · simp [hidle]
  · simp [hsince]

end Logfile.Stomp
