import Logfile.StompReaders

/-!
# Each reader thread on its own connection

As long as no connection is opened before every earlier reader has made its last call into
the socket, a reader reads from and disconnects its own connection only, and reads no more
after a rejected frame or after another thread has closed the connection
(`readersApart_of_reach`). A slow reader whose frame was rejected shows that this is needed
(`reader_on_next_connection`).
-/

set_option linter.unusedSectionVars false

namespace Logfile.Stomp

variable {p : StompParams} {st st' : State} {may : ReaderPc → Bool}

/-- A read comes neither after its reader has seen a rejected frame nor after `do_write` or
`connect_thread` has closed the connection. -/
def ReadsBefore (past : List Obs) (o : Obs) : Prop :=
  ∀ i k first empty, o = .read i k first empty →
    Obs.rejected i ∉ past ∧ Obs.closed none k ∉ past

/-- A reader thread reads from and disconnects its own connection only, not after a rejected
frame and not after another thread has closed it, and no two read from the same one. -/
structure ReadersApart (st : State) : Prop where
  reads : ∀ (i : ℕ) (r : Reader) (k : ℕ) (first empty : Bool), st.readers[i]? = some r →
    Obs.read i k first empty ∈ st.trace → k = r.home
  closes : ∀ (i : ℕ) (r : Reader) (k : ℕ), st.readers[i]? = some r →
    Obs.closed (some i) k ∈ st.trace → k = r.home
  before : Along ReadsBefore st.trace
  one : ∀ (i j k : ℕ) (first empty first' empty' : Bool), Obs.read i k first empty ∈ st.trace →
    Obs.read j k first' empty' ∈ st.trace → i = j

/-- What the trace says of the readers and of the socket. -/
structure Seen (t : List Obs) (st : State) : Prop where
  rejected : ∀ i : ℕ, Obs.rejected i ∈ t → ∃ r : Reader, st.readers[i]? = some r ∧
    (r.pc.calls = true → r.pc.rejecting = true ∨ st.socket = none)
  closed : ∀ (who : Option ℕ) (k : ℕ), Obs.closed who k ∈ t →
    k < st.conns.length ∧ st.socket ≠ some k
  reads : ∀ (i k : ℕ) (first empty : Bool), Obs.read i k first empty ∈ t →
    ∃ r : Reader, st.readers[i]? = some r ∧ r.home = k
  closes : ∀ i k : ℕ, Obs.closed (some i) k ∈ t →
    ∃ r : Reader, st.readers[i]? = some r ∧ r.home = k
  before : Along ReadsBefore t

namespace Seen

variable {t : List Obs}

/-- The same trace after a step. A reader stays a reader of its connection, and one that has
seen a rejected frame is still about to disconnect, or the socket is closed. -/
theorem keep (h : Seen t st) (hc : st.conns.length ≤ st'.conns.length)
    (hs : ∀ k, st'.socket = some k → st.socket = some k ∨ k = st.conns.length)
    (hr : ∀ (i : ℕ) (r : Reader), st.readers[i]? = some r → ∃ r' : Reader,
      st'.readers[i]? = some r' ∧ r'.home = r.home ∧
      ((r.pc.calls = true → r.pc.rejecting = true ∨ st.socket = none) →
        r'.pc.calls = true → r'.pc.rejecting = true ∨ st'.socket = none)) : Seen t st' where
  rejected i hi := by
    obtain ⟨r, hr₀, hcalls⟩ := h.rejected i hi
    obtain ⟨r', hr', -, hkeep⟩ := hr i r hr₀
    exact ⟨r', hr', hkeep hcalls⟩
  closed who k hk := by
    obtain ⟨hlt, hne⟩ := h.closed who k hk
    refine ⟨hlt.trans_le hc, fun hsock => ?_⟩
    rcases hs k hsock with hold | rfl
    · exact hne hold
    · exact absurd hlt (lt_irrefl _)
  reads i k first empty ho := by
    obtain ⟨r, hr₀, hk⟩ := h.reads i k first empty ho
    obtain ⟨r', hr', hhome, -⟩ := hr i r hr₀
    exact ⟨r', hr', hhome.trans hk⟩
  closes i k ho := by
    obtain ⟨r, hr₀, hk⟩ := h.closes i k ho
    obtain ⟨r', hr', hhome, -⟩ := hr i r hr₀
    exact ⟨r', hr', hhome.trans hk⟩
  before := h.before

/-- What has to hold for a new entry. -/
def Fits (t : List Obs) (st : State) : Obs → Prop
  | .took _ _ | .returned _ _ _ => True
  | .rejected i => ∃ r : Reader, st.readers[i]? = some r ∧ r.pc.rejecting = true
  | .closed who k => k < st.conns.length ∧ st.socket ≠ some k ∧
    ∀ i ∈ who, ∃ r : Reader, st.readers[i]? = some r ∧ r.home = k
  | .read i k _ _ => (∃ r : Reader, st.readers[i]? = some r ∧ r.home = k) ∧
    .rejected i ∉ t ∧ .closed none k ∉ t

theorem concat (h : Seen t st) {o : Obs} (ho : Fits t st o) : Seen (t ++ [o]) st where
  rejected i hi := by
    rcases List.mem_append.1 hi with hi | hi
    · exact h.rejected i hi
    · obtain rfl := List.mem_singleton.1 hi
      obtain ⟨r, hr, hrej⟩ := ho
      exact ⟨r, hr, fun _ => Or.inl hrej⟩
  closed who k hk := by
    rcases List.mem_append.1 hk with hk | hk
    · exact h.closed who k hk
    · obtain rfl := List.mem_singleton.1 hk
      exact ⟨ho.1, ho.2.1⟩
  reads i k first empty hr := by
    rcases List.mem_append.1 hr with hr | hr
    · exact h.reads i k first empty hr
    · obtain rfl := List.mem_singleton.1 hr
      exact ho.1
  closes i k hk := by
    rcases List.mem_append.1 hk with hk | hk
    · exact h.closes i k hk
    · obtain rfl := List.mem_singleton.1 hk
      exact ho.2.2 i rfl
  before := by
    refine h.before.concat fun i k first empty heq => ?_
    subst heq
    exact ho.2

/-- A step in which no reader moves and no connection is opened. -/
theorem still (h : Seen t st) (hc : st'.conns.length = st.conns.length)
    (hs : st'.socket = none ∨ st'.socket = st.socket) (hr : st'.readers = st.readers) :
    Seen t st' := by
  refine h.keep hc.ge (fun k hk => Or.inl ?_) fun i r hi => ⟨r, hr ▸ hi, rfl, fun hm hcalls => ?_⟩
  · rcases hs with hs | hs
    · exact absurd (hs.symm.trans hk) nofun
    · exact hs ▸ hk
  · refine (hm hcalls).imp_right fun hnone => ?_
    rcases hs with hs | hs
    · exact hs
    · exact hs.trans hnone

/-- New entries about taken replies and results. -/
theorem answers (h : Seen t st') {new : List Obs} (hnew : ∀ o ∈ new, Answer st o) :
    Seen (t ++ new) st' := by
  induction new generalizing t with
  | nil => simpa using h
  | cons o new ih =>
    have hfits : Fits t st' o := by
      cases hnew o List.mem_cons_self <;> trivial
    rw [List.append_cons]
    exact ih (h.concat hfits) fun o ho => hnew o (List.mem_cons_of_mem _ ho)

/-- The socket is closed, if it is open. -/
theorem closed_socket (h : Seen t st') {who : Option ℕ} (hs : st'.socket = none)
    (hfits : ∀ k, st.socket = some k → k < st'.conns.length ∧
      ∀ i ∈ who, ∃ r : Reader, st'.readers[i]? = some r ∧ r.home = k) :
    Seen (t ++ st.socket.toList.map (.closed who)) st' := by
  cases hk : st.socket with
  | none => simpa using h
  | some k =>
    refine h.concat ⟨(hfits k hk).1, ?_, (hfits k hk).2⟩
    rw [hs]
    nofun

/-- A step of another thread that takes a reply and returns, or closes the socket. -/
theorem other (h : Seen st.trace st) (ha : Attached may st) (hs : Still st st')
    (ht : Adds st st') : Seen st'.trace st' := by
  have hstill : Seen st.trace st' := h.still hs.conns hs.socket hs.readers
  rcases ht with ⟨new, ht, hnew⟩ | ⟨ht, hnone⟩
  · rw [ht]
    exact hstill.answers hnew
  · rw [ht]
    refine hstill.closed_socket hnone fun k hk => ⟨?_, by nofun⟩
    rw [hs.conns, ← ha.socket k hk]
    exact Nat.lt_succ_self k

theorem connectMove (h : Seen st.trace st) (ha : Attached ReaderPc.calls st) {r : Outcome}
    {pc : ConnectPc} (hpc : st.connectThread = some pc)
    (hok : OpensAfter ReaderPc.calls st (.connect r)) (hs : ConnectMove p st r pc st') :
    Seen st'.trace st' := by
  by_cases hcase : pc ≠ .open ∧ pc.starting = false
  · exact h.other ha (still_connectMove hcase.1 hcase.2 hs) (adds_connectMove hpc hs)
  · cases hs with
    | opened hr =>
      have hno := hok (by simp [opens, hr, hpc])
      refine h.keep ?_ (fun k hk => ?_) fun i r hi => ⟨r, hi, rfl, fun _ hcalls => ?_⟩
      · simp
      · exact Or.inr (Option.some.inj hk).symm
      · exact absurd hcalls (by simp [hno r (List.mem_of_getElem? hi)])
    | refused => exact h.still rfl (Or.inl rfl) rfl
    | unresolved => exact h.still rfl (Or.inr rfl) rfl
    | write hw => exact h.still hw.length (Or.inr rfl) rfl
    | spawn =>
      refine h.keep le_rfl (fun k hk => Or.inl hk) fun i r hi => ⟨r, ?_, rfl, id⟩
      have hlt : i < st.readers.length := (List.getElem?_eq_some_iff.1 hi).1
      exact (List.getElem?_append_left hlt).trans hi
    | _ => exact absurd ⟨by simp, rfl⟩ hcase

/-- The old trace after a step of a reader that is not about to disconnect because of a
rejected frame, or that goes on doing so. -/
theorem moves (h : Seen t st) {i : ℕ} {rd : Reader} (hrd : st.readers[i]? = some rd)
    {f : Reader → Reader} (hf : st'.readers = st.readers.modify i f)
    (hm : Moves ReaderPc.calls st st' i rd) (hhome : (f rd).home = rd.home)
    (hcalls : (f rd).pc.calls = true → rd.pc.calls = true)
    (hrej : rd.pc.rejecting = true → (f rd).pc.rejecting = true ∨ st'.socket = none) :
    Seen t st' := by
  have hsock : st.socket = none → st'.socket = none := by
    intro hnone
    rcases hm.socket with hs | hs
    · exact hs
    · exact hs.trans hnone
  refine h.keep hm.conns.ge (fun k hk => Or.inl ?_) fun j r hr => ?_
  · rcases hm.socket with hs | hs
    · exact absurd (hs.symm.trans hk) nofun
    · exact hs ▸ hk
  · rw [hf, List.getElem?_modify, hr]
    by_cases hij : i = j
    · subst hij
      obtain rfl := Option.some.inj (hrd.symm.trans hr)
      refine ⟨f rd, by simp, hhome, fun hold hc => ?_⟩
      rcases hold (hcalls hc) with hold | hold
      · exact hrej hold
      · exact Or.inr (hsock hold)
    · exact ⟨r, by simp [hij], rfl, fun hold hc => (hold hc).imp_right hsock⟩

theorem readerMove (h : Seen st.trace st) (ha : Attached ReaderPc.calls st) {i : ℕ} {rd : Reader}
    (hrd : st.readers[i]? = some rd) (hs : ReaderMove st i rd st') : Seen st'.trace st' := by
  have hm := moves_calls hs
  -- the connection of the socket is the one of a reader that calls
  have hhome : ∀ k, rd.pc.calls = true → st.socket = some k → rd.home = k := by
    intro k hcalls hk
    have := ha.home i rd hrd hcalls
    have := ha.socket k hk
    omega
  have hclosed : ∀ pc : ReaderPc, rd.pc.calls = true → ∀ k, st.socket = some k →
      k < st.conns.length ∧ ∀ j ∈ some i, ∃ r : Reader,
        (st.gotoReader i pc).readers[j]? = some r ∧ r.home = k := by
    intro pc hcalls k hk
    refine ⟨(ha.socket k hk).symm ▸ Nat.lt_succ_self k, ?_⟩
    rintro j ⟨⟩
    exact ⟨{ rd with pc }, by simp [State.gotoReader, hrd], hhome k hcalls hk⟩
  cases hs with
  | jump hj =>
    refine h.moves hrd rfl hm rfl (fun _ => ?_) fun hrej => ?_
    · generalize rd.pc = pc₀ at hj
      cases hj <;> rfl
    · generalize rd.pc = pc₀ at hj hrej
      cases hj <;> cases hrej
  | read hpc hk =>
    have hcalls : rd.pc.calls = true := by rw [hpc]; rfl
    refine (h.moves hrd rfl hm rfl (fun _ => hcalls) (by rw [hpc]; nofun)).concat ⟨?_, ?_, ?_⟩
    · simpa [hrd] using hhome _ hcalls hk
    · intro hrej
      obtain ⟨r, hr, hnot⟩ := h.rejected i hrej
      obtain rfl := Option.some.inj (hrd.symm.trans hr)
      rcases hnot hcalls with hnot | hnot
      · rw [hpc] at hnot
        cases hnot
      · exact absurd (hnot.symm.trans hk) nofun
    · exact fun hclosed => (h.closed none _ hclosed).2 hk
  | fail hpc =>
    have hcalls : rd.pc.calls = true := by rw [hpc]; rfl
    refine Seen.closed_socket ?_ rfl (hclosed _ hcalls)
    exact h.moves hrd rfl hm rfl (fun _ => hcalls) fun _ => Or.inr rfl
  | close hpc =>
    have hcalls : rd.pc.calls = true := by rw [hpc]; rfl
    refine Seen.closed_socket ?_ rfl (hclosed _ hcalls)
    exact h.moves hrd rfl hm rfl (fun _ => hcalls) fun _ => Or.inr rfl
  | reject hpc =>
    refine Seen.concat (h.moves hrd rfl hm rfl (fun _ => by rw [hpc]; rfl) fun _ => Or.inl rfl) ?_
    simp [Fits, State.gotoReader, State.observe, hrd, ReaderPc.rejecting]
  | @clear k rest ret hpc =>
    refine h.moves hrd rfl hm rfl (fun _ => by rw [hpc]; rfl) fun hrej => Or.inl ?_
    rw [hpc] at hrej
    cases ret with
    | true => cases hrej
    | false => rfl
  | @drop last hpc =>
    refine h.moves hrd rfl hm rfl ?_ (by rw [hpc]; cases last <;> nofun)
    rw [hpc]
    cases last <;> exact id
  | tolerate hpc | append hpc _ _ | push hpc _ =>
    exact h.moves hrd rfl hm rfl (fun _ => by rw [hpc]; rfl) (by rw [hpc]; nofun)

theorem move (h : Seen st.trace st) (ha : Attached ReaderPc.calls st) {a : Action}
    (hok : OpensAfter ReaderPc.calls st a) (hs : Move p st a st') : Seen st'.trace st' := by
  cases hs with
  | writer hmove => exact h.other ha (still_writerMove hmove) (adds_writerMove rfl hmove)
  | connect hpc hmove => exact h.connectMove ha hpc hok hmove
  | reader hrd hmove => exact h.readerMove ha hrd hmove
  | call => exact h.still rfl (Or.inr rfl) rfl
  | _ => exact h.still (List.length_modify ..) (Or.inr rfl) rfl

end Seen

/-- In a run in which no connection is opened before every earlier reader has made its last
call into the socket, the readers stay on their own connections. -/
theorem readersApart_of_reach (p : StompParams) {st : State}
    (h : (system p).Reach (OpensAfter ReaderPc.calls) st) : ReadersApart st := by
  obtain ⟨ha, hseen⟩ : Attached ReaderPc.calls st ∧ Seen st.trace st := by
    refine h.invariant (I := fun st => Attached ReaderPc.calls st ∧ Seen st.trace st) ?_
      fun st a st' _ ⟨ha, hseen⟩ hok hs => ⟨?_, ?_⟩
    · rintro _ rfl
      exact ⟨attached_start, nofun, nofun, nofun, nofun, .nil⟩
    · exact ha.move hok (fun _ _ => moves_calls) (move hs)
    · exact hseen.move ha hok (move hs)
  refine ⟨?_, ?_, hseen.before, ?_⟩
  · intro i r k first empty hr ho
    obtain ⟨r', hr', rfl⟩ := hseen.reads i k first empty ho
    rw [Option.some.inj (hr.symm.trans hr')]
  · intro i r k hr ho
    obtain ⟨r', hr', rfl⟩ := hseen.closes i k ho
    rw [Option.some.inj (hr.symm.trans hr')]
  · intro i j k first empty first' empty' hi hj
    obtain ⟨r, hr, hk⟩ := hseen.reads i k first empty hi
    obtain ⟨r', hr', hk'⟩ := hseen.reads j k first' empty' hj
    exact ha.homes i j r r' hr hr' (hk.trans hk'.symm)

/-! ## Runs over two connections -/

/-- The first frame is rejected, but before the reader looks at the socket again the stream
has reconnected. -/
def overtaken : List Action :=
  firstConnect ++ .serve 0 [88, 0] :: reads 0 9 ++ giveUp ++ reconnect ++ connects 2 ++
    reads 0 2 ++ .serve 1 greeting :: reads 0 2

/-- A reader has read from another connection than its own. -/
def readsForeign (st : State) : Bool :=
  st.trace.any fun o =>
    match o with
    | .read i k _ _ => st.readers[i]?.any fun r => r.home ≠ k
    | _ => false

theorem reader_on_next_connection :
    ¬∀ st, (system someParams).Reachable st → ReadersApart st := by
  intro h
  obtain ⟨st, hreach, hst⟩ := System.exists_reach (T := system someParams)
    (b := fun _ _ => true) (p := fun _ _ => True) (fun _ _ _ => trivial) rfl overtaken
    readsForeign rfl
  obtain ⟨o, ho, hbad⟩ := List.any_eq_true.1 hst
  cases o with
  | read i k first empty =>
    obtain ⟨r, hr, hne⟩ := (Option.any_eq_true _ _).1 hbad
    exact of_decide_eq_true hne ((h st hreach).reads i r k first empty hr ho).symm
  | _ => cases hbad

/-- The server greets and then closes, the reader ends, and the stream reconnects. -/
def succeeded : List Action :=
  firstConnect ++ .serve 0 greeting :: reads 0 9 ++ connects 5 ++ .lose 0 0 :: reads 0 6 ++
    reconnect ++ connects 4 ++ .serve 1 greeting :: reads 1 4

/-- Both readers have read. -/
def bothRead (st : State) : Bool :=
  st.trace.contains (.read 0 0 true true) && st.trace.contains (.read 1 1 true true)

theorem readersApart_succeeded : ∃ st, bothRead st = true ∧ ReadersApart st := by
  obtain ⟨st, hreach, hst⟩ := System.exists_reach (T := system someParams)
    (b := fun st a => !opens st a || st.readers.all fun r => !r.pc.calls)
    (p := OpensAfter ReaderPc.calls) (fun st a hok hopen r hr => by simp_all) rfl succeeded
    bothRead rfl
  exact ⟨st, hst, readersApart_of_reach someParams hreach⟩

end Logfile.Stomp
