import Logfile.StompReaders

/-!
# Replies stay with their session

`m_reply_queue` and `m_partial_reply` outlive a connection. A reply that is queued after
`connect_thread` or `do_write` has given up waiting for it stays there, and the first to wait
on the next connection takes it (`connect_takes_late_reply`).

If both are empty and no earlier reader can still read or handle data whenever a connection
is opened, every reply is taken by a thread that had written to the connection all of it came
from, and every reader starts with an empty `m_partial_reply` (`sessionsApart_of_reach`).
-/

set_option linter.unusedSectionVars false

namespace Logfile.Stomp

/-- The reply came from the connection its taker had written to, and a reader's first read
found `m_partial_reply` empty. -/
def Obs.Own : Obs → Prop
  | took k origin => ∀ o ∈ origin, o = k
  | read _ _ first empty => first = true → empty = true
  | _ => True

/-- No reply and no fragment of one is attributed to a later connection. -/
def SessionsApart (st : State) : Prop :=
  ∀ o ∈ st.trace, o.Own

/-- Whenever a connection is opened, no reply and no fragment is left, and no earlier reader
can still read or handle data, which a reader waiting in `select` without a time-out counts as. -/
def OpensClean (st : State) (a : Action) : Prop :=
  OpensAfter ReaderPc.reads st a ∧
    (opens st a = true → st.replyQueue = [] ∧ st.partialReply = [])

/-! ## Where data of a connection can be -/

/-- The connections that the data a reader holds came from. -/
def ReaderPc.origins : ReaderPc → List ℕ
  | process k _ | handle k _ | clear k _ _ => [k]
  | push k _ _ origin => k :: origin
  | _ => []

variable {p : StompParams} {st st' : State}

theorem origins_of_not_reads {pc : ReaderPc} (h : pc.reads = false) : pc.origins = [] := by
  unfold ReaderPc.reads at h
  split at h
  · rfl
  · rfl
  · rfl
  · rfl
  · cases h

/-- A thread starts to wait only on the connection of the socket. -/
structure Waits (st st' : State) : Prop where
  writer : ∀ k ∈ st'.writer.waitsOn, k ∈ st.writer.waitsOn ∨ st.socket = some k
  connect : ∀ pc', st'.connectThread = some pc' → ∀ k ∈ pc'.waitsOn,
    (∃ pc, st.connectThread = some pc ∧ k ∈ pc.waitsOn) ∨ st.socket = some k

theorem waits_callMove {job : Option LogEvent} {pc : CallPc} (hs : CallMove st job pc st') :
    Waits st st' := by
  have hret : ∀ (st₀ : State) (result : Bool),
      (st₀.connectReturns job result).writer.waitsOn = none := by
    intro st₀ result
    cases job <;> cases result <;> rfl
  have hsame : ∀ pc', st.connectThread = some pc' → ∀ k ∈ pc'.waitsOn,
      (∃ pc, st.connectThread = some pc ∧ k ∈ pc.waitsOn) ∨ st.socket = some k :=
    fun pc' hpc k hk => Or.inl ⟨pc', hpc, hk⟩
  cases hs with
  | joinNone | spawnJoinable => exact ⟨fun k hk => Or.inl hk, hsame⟩
  | connected | trying | retest => exact ⟨by simp [hret], hsame⟩
  | spawn => exact ⟨by simp [hret], by rintro _ ⟨⟩ k ⟨⟩⟩
  | join => exact ⟨nofun, nofun⟩
  | _ => exact ⟨nofun, hsame⟩

theorem waits_writerMove {pc : WriterPc} (hw : st.writer = pc) (hs : WriterMove p st pc st') :
    Waits st st' := by
  have hsame : ∀ pc', st.connectThread = some pc' → ∀ k ∈ pc'.waitsOn,
      (∃ pc, st.connectThread = some pc ∧ k ∈ pc.waitsOn) ∨ st.socket = some k :=
    fun pc' hpc k hk => Or.inl ⟨pc', hpc, hk⟩
  cases hs with
  | connect hmove => exact waits_callMove hmove
  | @send le conns written hwrite =>
    refine ⟨fun k hk => Or.inr ?_, hsame⟩
    cases written with
    | none => cases hk
    | some k' =>
      obtain rfl : k' = k := Option.some.inj hk
      exact hwrite.written
  | takeNone => exact ⟨fun k hk => Or.inl hk, hsame⟩
  | take _ hv =>
    cases hv with
    | _ => exact ⟨nofun, hsame⟩
  | timeout | close | clear => exact ⟨nofun, hsame⟩
  | wait | ready | woken => exact ⟨fun k hk => Or.inl (hw ▸ hk), hsame⟩

theorem waits_connectMove {r : Outcome} {pc : ConnectPc} (hpc : st.connectThread = some pc)
    (hs : ConnectMove p st r pc st') : Waits st st' := by
  have hsame : ∀ k ∈ st.writer.waitsOn, k ∈ st.writer.waitsOn ∨ st.socket = some k :=
    fun k hk => Or.inl hk
  cases hs with
  | @write conns written hwrite =>
    refine ⟨hsame, ?_⟩
    rintro _ ⟨⟩ k hk
    cases written with
    | none => cases hk
    | some k' =>
      obtain rfl : k' = k := Option.some.inj hk
      exact Or.inr hwrite.written
  | takeNone => exact ⟨hsame, fun pc' hpc' k hk => Or.inl ⟨pc', hpc', hk⟩⟩
  | take _ hg =>
    cases hg with
    | _ => exact ⟨hsame, by rintro _ ⟨⟩ k ⟨⟩⟩
  | spawn | wait | ready | woken =>
    exact ⟨hsame, by rintro _ ⟨⟩ k hk; exact Or.inl ⟨_, hpc, hk⟩⟩
  | _ => exact ⟨hsame, by rintro _ ⟨⟩ k ⟨⟩⟩

/-! ## The invariant -/

/-- The connection opened last. -/
def Newest (st : State) (k : ℕ) : Prop :=
  k + 1 = st.conns.length

/-- All data, and whoever waits for a reply, belong to the connection opened last. -/
structure Current (st : State) : Prop where
  partialReply : ∀ x ∈ st.partialReply, Newest st x.2
  replyQueue : ∀ e ∈ st.replyQueue, ∀ o ∈ e.2, Newest st o
  readers : ∀ r ∈ st.readers, ∀ o ∈ r.pc.origins, Newest st o
  fresh : ∀ r ∈ st.readers, r.hasRead = false → r.pc.reads = true →
    st.partialReply = [] ∧ r.pc.origins = []
  starting : ∀ pc, st.connectThread = some pc → pc.starting = true → st.partialReply = []
  writer : ∀ k ∈ st.writer.waitsOn, Newest st k
  connect : ∀ pc, st.connectThread = some pc → ∀ k ∈ pc.waitsOn, Newest st k

namespace Current

/-- A step in which no connection is opened and no data is moved. -/
theorem keep (h : Current st) (ha : Attached ReaderPc.reads st) (hw : Waits st st')
    (hc : st'.conns.length = st.conns.length) (hp : st'.partialReply = st.partialReply)
    (hq : st'.replyQueue ⊆ st.replyQueue)
    (hr : ∀ r ∈ st'.readers, r ∈ st.readers ∨ r.pc.origins = [] ∧ st.partialReply = [])
    (hst : ∀ pc', st'.connectThread = some pc' → pc'.starting = true →
      ∃ pc, st.connectThread = some pc ∧ pc.starting = true) : Current st' := by
  have hnew : ∀ k, Newest st k → Newest st' k := fun k hk => hk.trans hc.symm
  refine ⟨?_, ?_, ?_, ?_, ?_, ?_, ?_⟩
  · rw [hp]
    exact fun x hx => hnew _ (h.partialReply x hx)
  · exact fun e he o ho => hnew o (h.replyQueue e (hq he) o ho)
  · intro r hr' o ho
    rcases hr r hr' with hold | ⟨hnone, -⟩
    · exact hnew o (h.readers r hold o ho)
    · simp [hnone] at ho
  · intro r hr' hfresh hreads
    rw [hp]
    rcases hr r hr' with hold | ⟨hnone, hnil⟩
    · exact h.fresh r hold hfresh hreads
    · exact ⟨hnil, hnone⟩
  · intro pc' hpc' hstart
    obtain ⟨pc, hpc, hold⟩ := hst pc' hpc' hstart
    exact hp.trans (h.starting pc hpc hold)
  · intro k hk
    rcases hw.writer k hk with hold | hsock
    · exact hnew k (h.writer k hold)
    · exact hnew k (ha.socket k hsock)
  · intro pc' hpc' k hk
    rcases hw.connect pc' hpc' k hk with ⟨pc, hpc, hold⟩ | hsock
    · exact hnew k (h.connect pc hpc k hold)
    · exact hnew k (ha.socket k hsock)

theorem still (h : Current st) (ha : Attached ReaderPc.reads st) (hs : Still st st')
    (hw : Waits st st') : Current st' :=
  h.keep ha hw hs.conns hs.partialReply hs.replyQueue (fun _ hr => Or.inl (hs.readers ▸ hr))
    fun pc' hpc' hst => ⟨pc', hs.starting pc' hpc' hst, hst⟩

/-- A new connection. -/
theorem opened (hctl : Control st) (hpc : st.connectThread = some .open)
    (hno : ∀ r ∈ st.readers, r.pc.reads = false) (hq : st.replyQueue = [])
    (hp : st.partialReply = []) :
    Current { st.gotoConnect .write with
      conns := st.conns ++ [.new]
      socket := some st.conns.length } := by
  have hidle : st.writer.waitsOn = none := by
    have hsend := (hctl.trying _ hpc rfl).2
    generalize st.writer = pc at hsend
    cases pc <;> first | rfl | cases hsend
  refine ⟨?_, ?_, ?_, ?_, fun _ _ _ => hp, ?_, by rintro _ ⟨⟩ k ⟨⟩⟩
  · exact fun x hx => absurd hx (by simp [State.gotoConnect, hp])
  · exact fun e he => absurd he (by simp [State.gotoConnect, hq])
  · intro r hr o ho
    rw [origins_of_not_reads (hno r hr)] at ho
    cases ho
  · exact fun r hr _ hreads => absurd hreads (by simp [hno r hr])
  · intro k hk
    simp [State.gotoConnect, hidle] at hk

theorem connectMove (h : Current st) (hctl : Control st) (ha : Attached ReaderPc.reads st)
    {r : Outcome} {pc : ConnectPc} (hpc : st.connectThread = some pc)
    (hok : OpensClean st (.connect r)) (hs : ConnectMove p st r pc st') : Current st' := by
  have hw := waits_connectMove hpc hs
  by_cases hcase : pc ≠ .open ∧ pc.starting = false
  · exact h.still ha (still_connectMove hcase.1 hcase.2 hs) hw
  · cases hs with
    | opened hr =>
      have hopens : opens st (.connect r) = true := by simp [opens, hr, hpc]
      obtain ⟨hq, hp⟩ := hok.2 hopens
      exact opened hctl hpc (hok.1 hopens) hq hp
    | refused | unresolved =>
      exact h.keep ha hw rfl rfl (fun _ => id) (fun _ => Or.inl) (by rintro _ ⟨⟩ ⟨⟩)
    | write hwrite =>
      exact h.keep ha hw hwrite.length rfl (fun _ => id) (fun _ => Or.inl)
        fun _ _ _ => ⟨_, hpc, rfl⟩
    | spawn =>
      refine h.keep ha hw rfl rfl (fun _ => id) (fun r hr => ?_) (by rintro _ ⟨⟩ ⟨⟩)
      rcases List.mem_append.1 hr with hr | hr
      · exact Or.inl hr
      · obtain rfl := List.mem_singleton.1 hr
        exact Or.inr ⟨rfl, h.starting _ hpc rfl⟩
    | _ => exact absurd ⟨by simp, rfl⟩ hcase

/-- A step of a reader. Only a reader that holds data adds to `m_partial_reply`. -/
theorem moves (h : Current st) (ha : Attached ReaderPc.reads st) {i : ℕ} {rd : Reader}
    (hrd : st.readers[i]? = some rd) {f : Reader → Reader}
    (hf : st'.readers = st.readers.modify i f) (hm : Moves ReaderPc.reads st st' i rd)
    (hw : st'.writer = st.writer) (hp : ∀ x ∈ st'.partialReply, Newest st x.2)
    (hq : ∀ e ∈ st'.replyQueue, ∀ o ∈ e.2, Newest st o) (ho : ∀ o ∈ (f rd).pc.origins, Newest st o)
    (hgrow : st.partialReply = [] →
      st'.partialReply = [] ∨ rd.pc.origins ≠ [] ∧ rd.pc.reads = true)
    (hfresh : (f rd).hasRead = false → (f rd).pc.reads = true → rd.hasRead = false ∧
      rd.pc.reads = true ∧ (rd.pc.origins = [] → (f rd).pc.origins = [])) : Current st' := by
  have hnew : ∀ k, Newest st k → Newest st' k := fun k hk => hk.trans hm.conns.symm
  have hold : ∀ r ∈ st'.readers, r = f rd ∨ ∃ j ≠ i, st.readers[j]? = some r :=
    fun r hr => of_mem_modify hrd (hf ▸ hr)
  refine ⟨fun x hx => hnew _ (hp x hx), fun e he o ho' => hnew o (hq e he o ho'),
    ?_, ?_, ?_, ?_, ?_⟩
  · intro r hr o ho'
    rcases hold r hr with rfl | ⟨j, -, hj⟩
    · exact hnew o (ho o ho')
    · exact hnew o (h.readers r (List.mem_of_getElem? hj) o ho')
  · intro r hr hnot hreads
    rcases hold r hr with rfl | ⟨j, hne, hj⟩
    · obtain ⟨hnot₀, hreads₀, horigins⟩ := hfresh hnot hreads
      obtain ⟨hnil, hnone⟩ := h.fresh rd (List.mem_of_getElem? hrd) hnot₀ hreads₀
      rcases hgrow hnil with hnil' | ⟨hsome, -⟩
      · exact ⟨hnil', horigins hnone⟩
      · exact absurd hnone hsome
    · obtain ⟨hnil, hnone⟩ := h.fresh r (List.mem_of_getElem? hj) hnot hreads
      rcases hgrow hnil with hnil' | ⟨-, hreads₀⟩
      · exact ⟨hnil', hnone⟩
      · exact absurd (ha.one j i r rd hj hrd hreads hreads₀) hne
  · intro pc hpc hst
    rw [hm.connectThread] at hpc
    rcases hgrow (h.starting pc hpc hst) with hnil' | ⟨-, hreads₀⟩
    · exact hnil'
    · exact absurd hreads₀ (by simp [(ha.starting pc hpc hst i rd hrd).1])
  · rw [hw]
    exact fun k hk => hnew k (h.writer k hk)
  · rw [hm.connectThread]
    exact fun pc hpc k hk => hnew k (h.connect pc hpc k hk)

theorem readerMove (h : Current st) (ha : Attached ReaderPc.reads st) {i : ℕ} {rd : Reader}
    (hrd : st.readers[i]? = some rd) (hs : ReaderMove st i rd st') : Current st' := by
  have hm := moves_reads hs
  have hdata := h.readers rd (List.mem_of_getElem? hrd)
  cases hs with
  | jump hj =>
    refine h.moves ha hrd rfl hm rfl h.partialReply h.replyQueue ?_ Or.inl ?_
    · generalize rd.pc = pc₀ at hj hdata
      cases hj with
      | @accept k rest reply =>
        intro o ho
        simp only [ReaderPc.origins, List.mem_cons, List.mem_append, List.not_mem_nil, or_false]
          at ho
        rcases ho with rfl | ho | rfl
        · exact hdata o (by simp [ReaderPc.origins])
        · obtain ⟨x, hx, rfl⟩ := List.mem_map.1 ho
          exact h.partialReply x hx
        · exact hdata o (by simp [ReaderPc.origins])
      | _ => nofun
    · intro hnot hreads
      generalize rd.pc = pc₀ at hj
      cases hj with
      | accept => exact ⟨hnot, rfl, nofun⟩
      | unconnected | silent | failed | readFailed | ended => cases hreads
      | _ => exact ⟨hnot, rfl, fun _ => rfl⟩
  | read hpc hk =>
    refine h.moves ha hrd rfl hm rfl h.partialReply h.replyQueue ?_ Or.inl nofun
    intro o ho
    rw [List.mem_singleton.1 ho]
    exact ha.socket _ hk
  | @append k rest data rest' pc hpc htake hnext =>
    have hk : Newest st k := hdata k (by simp [hpc, ReaderPc.origins])
    refine h.moves ha hrd rfl hm rfl ?_ h.replyQueue ?_ (fun _ => Or.inr ?_) ?_
    · intro x hx
      rcases List.mem_append.1 hx with hx | hx
      · exact h.partialReply x hx
      · obtain ⟨c, -, rfl⟩ := List.mem_map.1 hx
        exact hk
    · rcases hnext with ⟨-, rfl⟩ | ⟨rest, -, rfl⟩
      · nofun
      · intro o ho
        rwa [List.mem_singleton.1 ho]
    · simp [hpc, ReaderPc.origins, ReaderPc.reads]
    · intro hnot _
      refine ⟨hnot, by simp [hpc, ReaderPc.reads], fun hnil => ?_⟩
      simp [hpc, ReaderPc.origins] at hnil
  | @push k rest reply origin hpc =>
    refine h.moves ha hrd rfl hm rfl h.partialReply ?_ ?_ Or.inl fun hnot _ => ?_
    · intro e he o ho
      rcases List.mem_append.1 he with he | he
      · exact h.replyQueue e he o ho
      · obtain rfl := List.mem_singleton.1 he
        exact hdata o (by rw [hpc]; exact List.mem_cons_of_mem _ ho)
    · intro o ho
      exact hdata o (by rw [hpc, List.mem_singleton.1 ho]; exact List.mem_cons_self)
    · refine ⟨hnot, by simp [hpc, ReaderPc.reads], fun hnil => ?_⟩
      simp [hpc, ReaderPc.origins] at hnil
  | @clear k rest ret hpc =>
    refine h.moves ha hrd rfl hm rfl nofun h.replyQueue ?_ (fun _ => Or.inl rfl) fun hnot _ => ?_
    · intro o ho
      cases ret with
      | true => exact hdata o (by rw [hpc]; exact ho)
      | false => cases ho
    · refine ⟨hnot, by simp [hpc, ReaderPc.reads], fun hnil => ?_⟩
      simp [hpc, ReaderPc.origins] at hnil
  | @reject k rest hpc =>
    refine h.moves ha hrd rfl hm rfl h.partialReply h.replyQueue ?_ Or.inl fun hnot _ => ?_
    · intro o ho
      exact hdata o (by rw [hpc]; exact ho)
    · refine ⟨hnot, by simp [hpc, ReaderPc.reads], fun hnil => ?_⟩
      simp [hpc, ReaderPc.origins] at hnil
  | tolerate hpc =>
    refine h.moves ha hrd rfl hm rfl h.partialReply h.replyQueue nofun Or.inl fun hnot _ => ?_
    exact ⟨hnot, by simp [hpc, ReaderPc.reads], fun _ => rfl⟩
  | fail hpc => exact h.moves ha hrd rfl hm rfl h.partialReply h.replyQueue nofun Or.inl nofun
  | @close last hpc =>
    refine h.moves ha hrd rfl hm rfl h.partialReply h.replyQueue nofun Or.inl fun hnot hreads => ?_
    cases last with
    | true => cases hreads
    | false => exact ⟨hnot, by simp [hpc, ReaderPc.reads], fun _ => rfl⟩
  | @drop last hpc =>
    cases last with
    | true => exact h.moves ha hrd rfl hm rfl h.partialReply h.replyQueue nofun Or.inl nofun
    | false =>
      refine h.moves ha hrd rfl hm rfl h.partialReply h.replyQueue nofun Or.inl fun hnot _ => ?_
      exact ⟨hnot, by simp [hpc, ReaderPc.reads], fun _ => rfl⟩

theorem move (h : Current st) (hctl : Control st) (ha : Attached ReaderPc.reads st) {a : Action}
    (hok : OpensClean st a) (hs : Move p st a st') : Current st' := by
  cases hs with
  | writer hmove => exact h.still ha (still_writerMove hmove) (waits_writerMove rfl hmove)
  | connect hpc hmove => exact h.connectMove hctl ha hpc hok hmove
  | reader hrd hmove => exact h.readerMove ha hrd hmove
  | call =>
    refine h.keep ha ⟨nofun, fun pc hpc k hk => Or.inl ⟨pc, hpc, hk⟩⟩ rfl rfl (fun _ => id)
      (fun _ => Or.inl) fun pc hpc hst => ⟨pc, hpc, hst⟩
  | _ =>
    refine h.keep ha ⟨fun k hk => Or.inl hk, fun pc hpc k hk => Or.inl ⟨pc, hpc, hk⟩⟩
      (List.length_modify ..) rfl (fun _ => id) (fun _ => Or.inl) fun pc hpc hst => ⟨pc, hpc, hst⟩

end Current

/-! ## What is seen of it -/

/-- A step keeps it, as all data belong to the connection opened last. -/
theorem SessionsApart.move (ht : SessionsApart st) (h : Current st) {a : Action}
    (hs : Move p st a st') : SessionsApart st' := by
  have hadds : Adds st st' → SessionsApart st' := by
    rintro (⟨new, hnew, hanswer⟩ | ⟨hnew, -⟩) o ho
    · rw [hnew] at ho
      rcases List.mem_append.1 ho with ho | ho
      · exact ht o ho
      · cases hanswer o ho with
        | returned => trivial
        | @took k reply origin hq hwait =>
          have hk : Newest st k := by
            rcases hwait with hw | ⟨pc, hpc, hc⟩
            · exact h.writer k hw
            · exact h.connect pc hpc k hc
          intro o ho
          exact Nat.succ_injective ((h.replyQueue _ hq o ho).trans hk.symm)
    · rw [hnew] at ho
      rcases List.mem_append.1 ho with ho | ho
      · exact ht o ho
      · obtain ⟨k, -, rfl⟩ := List.mem_map.1 ho
        trivial
  cases hs with
  | writer hmove => exact hadds (adds_writerMove rfl hmove)
  | connect hpc hmove => exact hadds (adds_connectMove hpc hmove)
  | @reader i r rd st' hrd hmove =>
    cases hmove with
    | @read k c n hpc =>
      intro o ho
      rcases List.mem_append.1 ho with ho | ho
      · exact ht o ho
      · obtain rfl := List.mem_singleton.1 ho
        intro hfirst
        have hfresh := h.fresh rd (List.mem_of_getElem? hrd) (by simpa using hfirst)
          (by rw [hpc]; rfl)
        simp [hfresh.1]
    | fail | close =>
      intro o ho
      rcases List.mem_append.1 ho with ho | ho
      · exact ht o ho
      · obtain ⟨k, -, rfl⟩ := List.mem_map.1 ho
        trivial
    | reject =>
      intro o ho
      rcases List.mem_append.1 ho with ho | ho
      · exact ht o ho
      · obtain rfl := List.mem_singleton.1 ho
        trivial
    | _ => exact ht
  | _ => exact ht

/-- In a run in which `m_reply_queue` and `m_partial_reply` are empty and no earlier reader can
still read or handle data whenever a connection is opened, no reply and no fragment of one is
attributed to a later connection. -/
theorem sessionsApart_of_reach (p : StompParams) {st : State}
    (h : (system p).Reach OpensClean st) : SessionsApart st := by
  obtain ⟨-, -, hown⟩ : Attached ReaderPc.reads st ∧ Current st ∧ SessionsApart st := by
    refine h.invariant (I := fun st => Attached ReaderPc.reads st ∧ Current st ∧ SessionsApart st)
      ?_ fun st a st' hr ⟨ha, hcur, hown⟩ hok hs => ⟨?_, ?_, ?_⟩
    · rintro _ rfl
      exact ⟨attached_start, ⟨nofun, nofun, nofun, nofun, nofun, nofun, nofun⟩, nofun⟩
    · exact ha.move hok.1 (fun _ _ => moves_reads) (move hs)
    · exact hcur.move (control_of_reach hr) ha hok (move hs)
    · exact hown.move hcur (move hs)
  exact hown

/-! ## Runs over two connections -/

/-- The CONNECTED frame is handled just as `connect_thread` gives up, and queued when it has
ended. -/
def answeredLate : List Action :=
  firstConnect ++ .serve 0 greeting :: reads 0 6 ++ giveUp ++ reads 0 1 ++ reconnect ++ connects 5

/-- A reply was taken by a thread that had written to another connection. -/
def tookForeign (st : State) : Bool :=
  st.trace.any fun o =>
    match o with
    | .took k origin => origin.any fun o => o ≠ k
    | _ => false

theorem connect_takes_late_reply :
    ¬∀ st, (system someParams).Reachable st → SessionsApart st := by
  intro h
  obtain ⟨st, hreach, hst⟩ := System.exists_reach (T := system someParams)
    (b := fun _ _ => true) (p := fun _ _ => True) (fun _ _ _ => trivial) rfl answeredLate
    tookForeign rfl
  obtain ⟨o, ho, hbad⟩ := List.any_eq_true.1 hst
  cases o with
  | took k origin =>
    obtain ⟨o, ho', hne⟩ := List.any_eq_true.1 hbad
    exact of_decide_eq_true hne (h st hreach _ ho o ho')
  | _ => cases hbad

/-- The server greets and then closes, and the stream reconnects. -/
def answeredTwice : List Action :=
  firstConnect ++ .serve 0 greeting :: reads 0 9 ++ connects 5 ++ .lose 0 0 :: reads 0 6 ++
    reconnect ++ connects 4 ++ .serve 1 greeting :: reads 1 9 ++ connects 5

/-- A reply was taken on each of two connections. -/
def tookBoth (st : State) : Bool :=
  st.trace.any (fun o => match o with | .took 0 _ => true | _ => false) &&
    st.trace.any fun o => match o with | .took 1 _ => true | _ => false

theorem sessionsApart_answeredTwice : ∃ st, tookBoth st = true ∧ SessionsApart st := by
  obtain ⟨st, hreach, hst⟩ := System.exists_reach (T := system someParams)
    (b := fun st a => !opens st a || (st.readers.all fun r => !r.pc.reads) &&
      st.replyQueue.isEmpty && st.partialReply.isEmpty)
    (p := OpensClean)
    (fun st a hok => ⟨fun hopen r hr => by simp_all, fun hopen => by simp_all⟩) rfl answeredTwice
    tookBoth rfl
  exact ⟨st, hst, sessionsApart_of_reach someParams hreach⟩

end Logfile.Stomp
