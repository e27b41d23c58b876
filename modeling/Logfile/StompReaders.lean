import Logfile.StompControl

/-!
# Reader threads and their connections

All reader threads share one socket. A reader that still has a call into the socket to make
when the next connection is opened makes it there: it reads what the server sends to its
successor, or closes the new connection. One way to such a reader is a rejected frame, for
the `break` behind it leaves the inner loop only.

`Attached` is what holds as long as no connection is opened before every earlier reader is
past a point `may` : the socket belongs to the one reader that is not past it.
-/

set_option linter.unusedSectionVars false

namespace Logfile.Stomp

/-! ## Where a reader can still get to -/

/-- The reader may still call into the socket. -/
def ReaderPc.calls : ReaderPc → Bool
  | drop true | finished => false
  | _ => true

/-- The reader may still read, or handle what it has read. -/
def ReaderPc.reads : ReaderPc → Bool
  | fail | close true | drop true | finished => false
  | _ => true

/-- The reader is about to disconnect because of a rejected frame. -/
def ReaderPc.rejecting : ReaderPc → Bool
  | clear _ _ false | close false => true
  | _ => false

/-- The connect thread has opened its connection and not yet started the reader. -/
def ConnectPc.starting : ConnectPc → Bool
  | write | spawn _ => true
  | _ => false

/-- The step opens a connection. -/
def opens (st : State) : Action → Bool
  | .connect (.done _) => st.connectThread = some .open
  | _ => false

/-- No connection is opened while an earlier reader is where it `may` do something. This is more
than is needed : a reader that is still in its `select` and will get nothing from it counts too. -/
def OpensAfter (may : ReaderPc → Bool) (st : State) (a : Action) : Prop :=
  opens st a = true → ∀ r ∈ st.readers, may r.pc = false

variable {p : StompParams} {st st' : State} {may : ReaderPc → Bool}

theorem getElem?_of_modify {l : List Reader} {i j : ℕ} {f : Reader → Reader} {r : Reader}
    (h : (l.modify i f)[j]? = some r) :
    ∃ r₀, l[j]? = some r₀ ∧ r = if i = j then f r₀ else r₀ := by
  rw [List.getElem?_modify] at h
  obtain ⟨r₀, hr₀, rfl⟩ := Option.map_eq_some_iff.1 h
  exact ⟨r₀, hr₀, rfl⟩

/-- A reader is the one that was changed, or was there before at another place. -/
theorem of_mem_modify {l : List Reader} {i : ℕ} {rd : Reader} (hrd : l[i]? = some rd)
    {f : Reader → Reader} {r : Reader} (h : r ∈ l.modify i f) :
    r = f rd ∨ ∃ j ≠ i, l[j]? = some r := by
  obtain ⟨j, hj⟩ := List.mem_iff_getElem?.1 h
  obtain ⟨r₀, hr₀, rfl⟩ := getElem?_of_modify hj
  split_ifs with hij
  · subst hij
    rw [Option.some.inj (hrd.symm.trans hr₀)]
    exact Or.inl rfl
  · exact Or.inr ⟨j, Ne.symm hij, hr₀⟩

/-- What a step of a reader does to the readers : it moves one of them, and not back. -/
structure Moves (may : ReaderPc → Bool) (st st' : State) (i : ℕ) (rd : Reader) : Prop where
  readers : ∃ f, st'.readers = st.readers.modify i f ∧ (∀ r, (f r).home = r.home) ∧
    (may (f rd).pc = true → may rd.pc = true)
  conns : st'.conns.length = st.conns.length
  socket : st'.socket = none ∨ st'.socket = st.socket
  connectThread : st'.connectThread = st.connectThread

theorem moves_calls {i : ℕ} {rd : Reader} (hs : ReaderMove st i rd st') :
    Moves ReaderPc.calls st st' i rd := by
  cases hs with
  | jump hj =>
    refine ⟨⟨_, rfl, fun _ => rfl, fun _ => ?_⟩, rfl, Or.inr rfl, rfl⟩
    generalize rd.pc = pc₀ at hj
    cases hj <;> rfl
  | read hpc =>
    exact ⟨⟨_, rfl, fun _ => rfl, fun _ => hpc ▸ rfl⟩, List.length_modify .., Or.inr rfl, rfl⟩
  | fail hpc => exact ⟨⟨_, rfl, fun _ => rfl, fun _ => hpc ▸ rfl⟩, rfl, Or.inl rfl, rfl⟩
  | close hpc => exact ⟨⟨_, rfl, fun _ => rfl, fun _ => hpc ▸ rfl⟩, rfl, Or.inl rfl, rfl⟩
  | @drop last hpc =>
    refine ⟨⟨_, rfl, fun _ => rfl, ?_⟩, rfl, Or.inr rfl, rfl⟩
    rw [hpc]
    cases last <;> exact id
  | tolerate hpc | append hpc _ _ | reject hpc _ | push hpc _ | clear hpc =>
    exact ⟨⟨_, rfl, fun _ => rfl, fun _ => hpc ▸ rfl⟩, rfl, Or.inr rfl, rfl⟩

theorem moves_reads {i : ℕ} {rd : Reader} (hs : ReaderMove st i rd st') :
    Moves ReaderPc.reads st st' i rd := by
  cases hs with
  | jump hj =>
    refine ⟨⟨_, rfl, fun _ => rfl, ?_⟩, rfl, Or.inr rfl, rfl⟩
    generalize rd.pc = pc₀ at hj
    cases hj <;> exact fun _ => rfl
  | read hpc =>
    exact ⟨⟨_, rfl, fun _ => rfl, fun _ => hpc ▸ rfl⟩, List.length_modify .., Or.inr rfl, rfl⟩
  | fail hpc => exact ⟨⟨_, rfl, fun _ => rfl, nofun⟩, rfl, Or.inl rfl, rfl⟩
  | @close last hpc =>
    refine ⟨⟨_, rfl, fun _ => rfl, ?_⟩, rfl, Or.inl rfl, rfl⟩
    rw [hpc]
    cases last <;> exact id
  | @drop last hpc =>
    refine ⟨⟨_, rfl, fun _ => rfl, ?_⟩, rfl, Or.inr rfl, rfl⟩
    rw [hpc]
    cases last <;> exact id
  | tolerate hpc | append hpc _ _ | reject hpc _ | push hpc _ | clear hpc =>
    exact ⟨⟨_, rfl, fun _ => rfl, fun _ => hpc ▸ rfl⟩, rfl, Or.inr rfl, rfl⟩

/-! ## Steps of the other threads -/

/-- A step that opens no connection and starts or moves no reader. -/
structure Still (st st' : State) : Prop where
  conns : st'.conns.length = st.conns.length
  socket : st'.socket = none ∨ st'.socket = st.socket
  readers : st'.readers = st.readers
  starting : ∀ pc, st'.connectThread = some pc → pc.starting = true → st.connectThread = some pc
  partialReply : st'.partialReply = st.partialReply
  replyQueue : st'.replyQueue ⊆ st.replyQueue

theorem Writes.length {conns conns' : List Conn} {socket written : Option ℕ} {packet : Packet}
    {bytes : Bytes} (h : Writes conns socket packet bytes conns' written) :
    conns'.length = conns.length := by
  cases h with
  | throws => rfl
  | short => exact List.length_modify ..
  | full => exact List.length_modify ..

theorem Writes.written {conns conns' : List Conn} {socket : Option ℕ} {packet : Packet}
    {bytes : Bytes} {k : ℕ} (h : Writes conns socket packet bytes conns' (some k)) :
    socket = some k := by
  cases h with
  | full hk => exact hk

theorem still_callMove {job : Option LogEvent} {pc : CallPc} (hs : CallMove st job pc st') :
    Still st st' := by
  cases hs with
  | join => exact ⟨rfl, Or.inr rfl, rfl, nofun, rfl, fun _ => id⟩
  | spawn => exact ⟨rfl, Or.inr rfl, rfl, by rintro _ ⟨⟩ ⟨⟩, rfl, fun _ => id⟩
  | _ => exact ⟨rfl, Or.inr rfl, rfl, fun _ hpc _ => hpc, rfl, fun _ => id⟩

theorem still_writerMove {pc : WriterPc} (hs : WriterMove p st pc st') : Still st st' := by
  cases hs with
  | connect hmove => exact still_callMove hmove
  | send hw => exact ⟨hw.length, Or.inr rfl, rfl, fun _ hpc _ => hpc, rfl, fun _ => id⟩
  | take hq hv =>
    cases hv with
    | _ => exact ⟨rfl, Or.inr rfl, rfl, fun _ hpc _ => hpc, rfl,
        hq ▸ List.subset_cons_self ..⟩
  | close => exact ⟨rfl, Or.inl rfl, rfl, fun _ hpc _ => hpc, rfl, fun _ => id⟩
  | _ => exact ⟨rfl, Or.inr rfl, rfl, fun _ hpc _ => hpc, rfl, fun _ => id⟩

/-- A step of the connect thread, unless it starts or ends the time in which its connection
has no reader. -/
theorem still_connectMove {r : Outcome} {pc : ConnectPc} (hpc : pc ≠ .open)
    (hstart : pc.starting = false)
    (hs : ConnectMove p st r pc st') : Still st st' := by
  cases hs with
  | opened | refused | unresolved => exact absurd rfl hpc
  | write | spawn => cases hstart
  | takeNone => exact ⟨rfl, Or.inr rfl, rfl, fun _ hpc _ => hpc, rfl, fun _ => id⟩
  | take hq hg =>
    cases hg with
    | _ => exact ⟨rfl, Or.inr rfl, rfl, by rintro _ ⟨⟩ ⟨⟩, rfl, hq ▸ List.subset_cons_self ..⟩
  | close => exact ⟨rfl, Or.inl rfl, rfl, by rintro _ ⟨⟩ ⟨⟩, rfl, fun _ => id⟩
  | _ => exact ⟨rfl, Or.inr rfl, rfl, by rintro _ ⟨⟩ ⟨⟩, rfl, fun _ => id⟩

/-- The connection that `do_write` has written to and waits on. -/
def WriterPc.waitsOn : WriterPc → Option ℕ
  | lock _ k | wait _ k | take _ k => some k
  | _ => none

/-- The connection that `connect_thread` has written to and waits on. -/
def ConnectPc.waitsOn : ConnectPc → Option ℕ
  | spawn k | lock k | wait k | take k => some k
  | _ => none

/-- The SEND of `do_write` is written. -/
def WriterPc.sent : WriterPc → Option LogEvent
  | lock le _ | wait le _ | take le _ => some le
  | _ => none

/-- What the writer and the connect thread add to the trace, apart from closing : a queued
reply taken by a thread that waits, and a result, which is true only if the reply taken is the
RECEIPT for the SEND. -/
inductive Answer (st : State) : Obs → Prop
  | took {k reply origin} : (reply, origin) ∈ st.replyQueue →
      st.writer.waitsOn = some k ∨ (∃ pc, st.connectThread = some pc ∧ pc.waitsOn = some k) →
      Answer st (.took k origin)
  | returned {call le result} : (result = true → call = some st.calls ∧ st.writer.sent = some le ∧
      ∃ e ∈ st.replyQueue, e.1.receipt = some (Text.toDec st.receipt.toNat)) →
      Answer st (.returned call le result)

def Adds (st st' : State) : Prop :=
  (∃ new, st'.trace = st.trace ++ new ∧ ∀ o ∈ new, Answer st o) ∨
    st'.trace = st.trace ++ st.socket.toList.map (.closed none) ∧ st'.socket = none

theorem Adds.nothing (h : st'.trace = st.trace) : Adds st st' :=
  Or.inl ⟨[], by simp [h], nofun⟩

theorem Adds.one {o : Obs} (ho : Answer st o) (h : st'.trace = st.trace ++ [o]) : Adds st st' := by
  refine Or.inl ⟨[o], h, fun o' ho' => ?_⟩
  rwa [List.mem_singleton.1 ho']

theorem adds_callMove {job : Option LogEvent} {pc : CallPc} (hs : CallMove st job pc st') :
    Adds st st' := by
  have hret : ∀ (st₀ : State) (result : Bool), st₀.trace = st.trace →
      Adds st (st₀.connectReturns job result) := by
    intro st₀ result h₀
    cases job with
    | none => exact .nothing (by simp [State.connectReturns, h₀])
    | some le =>
      cases result with
      | true => exact .nothing (by simp [State.connectReturns, h₀])
      | false => exact .one (@Answer.returned st none le false (by simp)) (congrArg (· ++ _) h₀)
  cases hs with
  | connected | trying | retest | spawn => exact hret _ _ rfl
  | _ => exact .nothing rfl

theorem adds_writerMove {pc : WriterPc} (hw : st.writer = pc) (hs : WriterMove p st pc st') :
    Adds st st' := by
  cases hs with
  | connect hmove => exact adds_callMove hmove
  | @take le k reply origin replyQueue st' hq hv =>
    have htook : Answer st (.took k origin) :=
      .took (hq ▸ List.mem_cons_self) (Or.inl (by rw [hw]; rfl))
    cases hv with
    | drop => exact .one htook rfl
    | @returns id hcommand hid =>
      refine Or.inl ⟨[.took k origin, .returned (some st.calls) le
        (Text.toDec st.receipt.toNat == id)], List.append_assoc .., ?_⟩
      simp only [List.forall_mem_cons]
      refine ⟨htook, .returned fun heq => ⟨rfl, by rw [hw]; rfl, ?_⟩, nofun⟩
      refine ⟨(reply, origin), hq ▸ List.mem_cons_self, ?_⟩
      simp only [StompReply.receipt, if_pos hcommand, hid, eq_of_beq heq]
  | close => exact Or.inr ⟨rfl, rfl⟩
  | @clear le held => exact .one (@Answer.returned st (some st.calls) le false nofun) rfl
  | _ => exact .nothing rfl

theorem adds_connectMove {r : Outcome} {pc : ConnectPc} (hpc : st.connectThread = some pc)
    (hs : ConnectMove p st r pc st') : Adds st st' := by
  cases hs with
  | @take k reply origin replyQueue st' hq hg =>
    have htook : Answer st (.took k origin) :=
      .took (hq ▸ List.mem_cons_self) (Or.inr ⟨_, hpc, rfl⟩)
    cases hg with
    | _ => exact .one htook rfl
  | close => exact Or.inr ⟨rfl, rfl⟩
  | _ => exact .nothing rfl

/-! ## The invariant -/

/-- There is one reader that `may`, it is the one of the newest connection, and this is the
connection that the socket is on. -/
structure Attached (may : ReaderPc → Bool) (st : State) : Prop where
  socket : ∀ k, st.socket = some k → k + 1 = st.conns.length
  home : ∀ (i : ℕ) (r : Reader), st.readers[i]? = some r → may r.pc = true →
    r.home + 1 = st.conns.length
  one : ∀ (i j : ℕ) (r r' : Reader), st.readers[i]? = some r → st.readers[j]? = some r' →
    may r.pc = true → may r'.pc = true → i = j
  homes : ∀ (i j : ℕ) (r r' : Reader), st.readers[i]? = some r → st.readers[j]? = some r' →
    r.home = r'.home → i = j
  older : ∀ (i : ℕ) (r : Reader), st.readers[i]? = some r → r.home < st.conns.length
  starting : ∀ pc, st.connectThread = some pc → pc.starting = true → ∀ (i : ℕ) (r : Reader),
    st.readers[i]? = some r → may r.pc = false ∧ r.home + 1 < st.conns.length
  spawn : ∀ k, st.connectThread = some (.spawn k) → k + 1 = st.conns.length

namespace Attached

theorem still (h : Attached may st) (hs : Still st st') : Attached may st' where
  socket k hk := by
    rw [hs.conns]
    rcases hs.socket with hnone | hsame
    · exact absurd (hnone.symm.trans hk) nofun
    · exact h.socket k (hsame ▸ hk)
  home := by
    rw [hs.conns, hs.readers]
    exact h.home
  one := by
    rw [hs.readers]
    exact h.one
  homes := by
    rw [hs.readers]
    exact h.homes
  older := by
    rw [hs.conns, hs.readers]
    exact h.older
  starting pc hpc hst := by
    rw [hs.conns, hs.readers]
    exact h.starting pc (hs.starting pc hpc hst) hst
  spawn k hk := by
    rw [hs.conns]
    exact h.spawn k (hs.starting _ hk rfl)

/-- A step of a reader. -/
theorem moves (h : Attached may st) {i : ℕ} {rd : Reader} (hrd : st.readers[i]? = some rd)
    (hs : Moves may st st' i rd) : Attached may st' := by
  obtain ⟨f, hf, hhome, hmay⟩ := hs.readers
  -- each reader was there before, at the same connection, and no less able
  have hold : ∀ (j : ℕ) (r : Reader), st'.readers[j]? = some r → ∃ r₀ : Reader,
      st.readers[j]? = some r₀ ∧ r.home = r₀.home ∧ (may r.pc = true → may r₀.pc = true) := by
    intro j r hr
    rw [hf] at hr
    obtain ⟨r₀, hr₀, rfl⟩ := getElem?_of_modify hr
    refine ⟨r₀, hr₀, ?_⟩
    split_ifs with hij
    · obtain rfl := hij
      obtain rfl := Option.some.inj (hrd.symm.trans hr₀)
      exact ⟨hhome _, hmay⟩
    · exact ⟨rfl, id⟩
  refine ⟨?_, ?_, ?_, ?_, ?_, ?_, ?_⟩
  · intro k hk
    rw [hs.conns]
    rcases hs.socket with hnone | hsame
    · exact absurd (hnone.symm.trans hk) nofun
    · exact h.socket k (hsame ▸ hk)
  · intro j r hr hm
    obtain ⟨r₀, hr₀, hhome, hmay⟩ := hold j r hr
    rw [hhome, hs.conns]
    exact h.home j r₀ hr₀ (hmay hm)
  · intro j j' r r' hr hr' hm hm'
    obtain ⟨r₀, hr₀, -, hmay⟩ := hold j r hr
    obtain ⟨r₁, hr₁, -, hmay'⟩ := hold j' r' hr'
    exact h.one j j' r₀ r₁ hr₀ hr₁ (hmay hm) (hmay' hm')
  · intro j j' r r' hr hr' heq
    obtain ⟨r₀, hr₀, hhome, -⟩ := hold j r hr
    obtain ⟨r₁, hr₁, hhome', -⟩ := hold j' r' hr'
    exact h.homes j j' r₀ r₁ hr₀ hr₁ (hhome ▸ hhome' ▸ heq)
  · intro j r hr
    obtain ⟨r₀, hr₀, hhome, -⟩ := hold j r hr
    rw [hhome, hs.conns]
    exact h.older j r₀ hr₀
  · intro pc hpc hst j r hr
    obtain ⟨r₀, hr₀, hhome, hmay⟩ := hold j r hr
    obtain ⟨hno, hlt⟩ := h.starting pc (hs.connectThread ▸ hpc) hst j r₀ hr₀
    rw [hhome, hs.conns]
    refine ⟨?_, hlt⟩
    rw [← Bool.not_eq_true] at hno ⊢
    exact mt hmay hno
  · intro k hk
    rw [hs.conns]
    exact h.spawn k (hs.connectThread ▸ hk)

/-- A new connection. -/
theorem opened (h : Attached may st) (hno : ∀ r ∈ st.readers, may r.pc = false) :
    Attached may { st.gotoConnect .write with
      conns := st.conns ++ [.new]
      socket := some st.conns.length } := by
  have hlen : (st.conns ++ [Conn.new]).length = st.conns.length + 1 := List.length_append
  refine ⟨?_, ?_, h.one, h.homes, ?_, ?_, nofun⟩
  · rintro k ⟨⟩
    exact hlen.symm
  · intro i r hr hm
    exact absurd (hno r (List.mem_of_getElem? hr)) (by simp [hm])
  · intro i r hr
    have := h.older i r hr
    exact hlen ▸ this.trans (Nat.lt_succ_self _)
  · intro pc _ _ i r hr
    have := h.older i r hr
    exact ⟨hno r (List.mem_of_getElem? hr), hlen ▸ Nat.succ_lt_succ this⟩

/-- CONNECT is written. -/
theorem wrote (h : Attached may st) (hpc : st.connectThread = some .write) {conns : List Conn}
    {written : Option ℕ} (hw : Writes st.conns st.socket .connect (connectPacket p) conns written) :
    Attached may { st.gotoConnect (.written written) with conns } := by
  have hlen := hw.length
  refine ⟨?_, ?_, h.one, h.homes, ?_, ?_, ?_⟩
  · intro k hk
    exact hlen ▸ h.socket k hk
  · intro i r hr hm
    exact hlen ▸ h.home i r hr hm
  · intro i r hr
    exact hlen ▸ h.older i r hr
  · intro pc _ _ i r hr
    exact hlen ▸ h.starting .write hpc rfl i r hr
  · intro k hk
    cases written with
    | none => cases hk
    | some k' =>
      obtain rfl : k' = k := by simpa [State.gotoConnect, ConnectPc.written] using hk
      exact hlen ▸ h.socket k' hw.written

/-- The reader of the connection is started. -/
theorem spawned (h : Attached may st) {k : ℕ} (hpc : st.connectThread = some (.spawn k)) :
    Attached may
      { st.gotoConnect (.lock k) with readers := st.readers ++ [⟨k, false, .enter⟩] } := by
  have hk := h.spawn k hpc
  have hstart := h.starting _ hpc rfl
  -- the other readers are past the point and have older connections
  have hold : ∀ i r, (st.readers ++ [⟨k, false, .enter⟩])[i]? = some r →
      st.readers[i]? = some r ∧ may r.pc = false ∧ r.home + 1 < st.conns.length ∨
        i = st.readers.length ∧ r.home = k := by
    intro i r hr
    rcases Nat.lt_or_ge i st.readers.length with hi | hi
    · rw [List.getElem?_append_left hi] at hr
      exact Or.inl ⟨hr, hstart i r hr⟩
    · rw [List.getElem?_append_right hi, List.getElem?_singleton] at hr
      split_ifs at hr with hi'
      obtain rfl := Option.some.inj hr
      exact Or.inr ⟨by omega, rfl⟩
  refine ⟨h.socket, ?_, ?_, ?_, ?_, by rintro _ ⟨⟩ ⟨⟩, nofun⟩
  · intro i r hr hm
    rcases hold i r hr with ⟨-, hno, -⟩ | ⟨-, rfl⟩
    · exact absurd hm (by simp [hno])
    · exact hk
  · intro i j r r' hr hr' hm hm'
    rcases hold i r hr with ⟨-, hno, -⟩ | ⟨rfl, -⟩
    · exact absurd hm (by simp [hno])
    · rcases hold j r' hr' with ⟨-, hno, -⟩ | ⟨rfl, -⟩
      · exact absurd hm' (by simp [hno])
      · rfl
  · intro i j r r' hr hr' heq
    rcases hold i r hr with ⟨hr, -, hlt⟩ | ⟨rfl, hhome⟩
    · rcases hold j r' hr' with ⟨hr', -, -⟩ | ⟨-, hhome'⟩
      · exact h.homes i j r r' hr hr' heq
      · omega
    · rcases hold j r' hr' with ⟨-, -, hlt⟩ | ⟨rfl, -⟩
      · omega
      · rfl
  · intro i r hr
    rcases hold i r hr with ⟨-, -, hlt⟩ | ⟨-, rfl⟩
    · exact (Nat.lt_succ_self _).trans hlt
    · exact hk ▸ Nat.lt_succ_self _

theorem connectMove (h : Attached may st) {r : Outcome} {pc : ConnectPc}
    (hpc : st.connectThread = some pc) (hok : OpensAfter may st (.connect r))
    (hs : ConnectMove p st r pc st') : Attached may st' := by
  by_cases hcase : pc ≠ .open ∧ pc.starting = false
  · exact h.still (still_connectMove hcase.1 hcase.2 hs)
  · cases hs with
    | opened hr => exact h.opened (hok (by simp [opens, hr, hpc]))
    | refused => exact h.still ⟨rfl, Or.inl rfl, rfl, by rintro _ ⟨⟩ ⟨⟩, rfl, fun _ => id⟩
    | unresolved => exact h.still ⟨rfl, Or.inr rfl, rfl, by rintro _ ⟨⟩ ⟨⟩, rfl, fun _ => id⟩
    | write hw => exact h.wrote hpc hw
    | spawn => exact h.spawned hpc
    | _ => exact absurd ⟨nofun, rfl⟩ hcase

end Attached

theorem not_reader_start {i : ℕ} {r : Reader} : State.start.readers[i]? ≠ some r := by
  simp [State.start]

theorem attached_start : Attached may .start where
  socket := nofun
  home _ _ hr := absurd hr not_reader_start
  one _ _ _ _ hr := absurd hr not_reader_start
  homes _ _ _ _ hr := absurd hr not_reader_start
  older _ _ hr := absurd hr not_reader_start
  starting := nofun
  spawn := nofun

theorem Attached.move (h : Attached may st) {a : Action} (hok : OpensAfter may st a)
    (hmay : ∀ i rd, ReaderMove st i rd st' → Moves may st st' i rd) (hs : Move p st a st') :
    Attached may st' := by
  cases hs with
  | writer hmove => exact h.still (still_writerMove hmove)
  | connect hpc hmove => exact h.connectMove hpc hok hmove
  | reader hrd hmove => exact h.moves hrd (hmay _ _ hmove)
  | call => exact h.still ⟨rfl, Or.inr rfl, rfl, fun _ hpc _ => hpc, rfl, fun _ => id⟩
  | _ =>
    exact h.still ⟨List.length_modify .., Or.inr rfl, rfl, fun _ hpc _ => hpc, rfl, fun _ => id⟩

end Logfile.Stomp
