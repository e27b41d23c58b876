import Logfile.StompSession

/-!
# The rules of a session

What each step of `Logfile.Stomp.step` can do, as relations between the states before and
after it (`move`). The results about runs go by cases on these rules.
-/

namespace Logfile.Stomp

open Text

variable {p : StompParams} {st st' : State}

/-- What `write` does to the connections, and the connection written to unless it throws. -/
inductive Writes (conns : List Conn) (socket : Option ℕ) (packet : Packet) (bytes : Bytes) :
    List Conn → Option ℕ → Prop
  | throws : Writes conns socket packet bytes conns none
  | short {k n} : socket = some k →
      Writes conns socket packet bytes (conns.modify k fun c =>
        { c with sent := c.sent ++ [⟨packet, (bytes.take (bytes.length % 2 ^ 32)).take n⟩] }) none
  | full {k} : socket = some k →
      Writes conns socket packet bytes (conns.modify k fun c =>
        { c with sent := c.sent ++ [⟨packet, bytes.take (bytes.length % 2 ^ 32)⟩] }) (some k)

theorem write_spec (st : State) (packet : Packet) (bytes : Bytes) (r : Outcome) :
    ∃ conns written, st.write packet bytes r = ({ st with conns }, written) ∧
      Writes st.conns st.socket packet bytes conns written := by
  unfold State.write
  split
  · next _ k n hk =>
    by_cases hn : (bytes.take (bytes.length % 2 ^ 32)).length ≤ n
    · refine ⟨_, some k, ?_, .full hk⟩
      simp only [if_pos hn, List.take_of_length_le hn, State.modifyConn]
    · refine ⟨_, none, ?_, .short (n := n) hk⟩
      simp only [if_neg hn, State.modifyConn]
  · exact ⟨st.conns, none, rfl, .throws⟩

/-- Where `do_write` goes on behind its `write`. -/
def WriterPc.written (le : LogEvent) : Option ℕ → WriterPc
  | some k => .lock le k
  | none => .close le false

/-- Where `connect_thread` goes on behind its `write`. -/
def ConnectPc.written : Option ℕ → ConnectPc
  | some k => .spawn k
  | none => .close false

/-! ## The writer -/

/-- The rules of `callStep`. -/
inductive CallMove (st : State) (job : Option LogEvent) : CallPc → State → Prop
  | connected : st.connected = true → CallMove st job .test (st.connectReturns job true)
  | test : st.connected = false →
      CallMove st job .test (st.gotoWriter (.connect job .exchange))
  | connecting : st.connecting = true →
      CallMove st job .exchange
        { st.gotoWriter (.connect job .testDone) with connecting := true }
  | first : st.connecting = false →
      CallMove st job .exchange
        { st.gotoWriter (.connect job .clearDone) with connecting := true }
  | done : st.connectThreadDone = true →
      CallMove st job .testDone (st.gotoWriter (.connect job .clearConnecting))
  | trying : CallMove st job .testDone (st.connectReturns job false)
  | clearConnecting :
      CallMove st job .clearConnecting
        { st.gotoWriter (.connect job .join) with connecting := false }
  | joinNone : st.connectThread = none → CallMove st job .join st.crash
  | join : st.connectThread = some .finished →
      CallMove st job .join { st.gotoWriter (.connect job .retest) with connectThread := none }
  | retest : CallMove st job .retest (st.connectReturns job st.connected)
  | clearDone :
      CallMove st job .clearDone
        { st.gotoWriter (.connect job .spawn) with connectThreadDone := false }
  | spawn : st.connectThread = none →
      CallMove st job .spawn ((st.gotoConnect .open).connectReturns job false)
  | spawnJoinable {pc} : st.connectThread = some pc → CallMove st job .spawn st.crash

theorem callMove {job : Option LogEvent} {pc : CallPc} (h : callStep st job pc = some st') :
    CallMove st job pc st' := by
  cases pc with
  | test =>
    simp only [callStep] at h
    split at h
    · obtain rfl := Option.some.inj h
      exact .connected ‹_›
    · next hc =>
      obtain rfl := Option.some.inj h
      exact .test (by simpa using hc)
  | exchange =>
    obtain rfl := Option.some.inj h
    cases hc : st.connecting with
    | true => exact .connecting hc
    | false => exact .first hc
  | testDone =>
    simp only [callStep] at h
    split at h <;> obtain rfl := Option.some.inj h
    · exact .done ‹_›
    · exact .trying
  | clearConnecting =>
    obtain rfl := Option.some.inj h
    exact .clearConnecting
  | join =>
    simp only [callStep] at h
    split at h
    · obtain rfl := Option.some.inj h
      exact .joinNone ‹_›
    · obtain rfl := Option.some.inj h
      exact .join ‹_›
    · cases h
  | retest =>
    obtain rfl := Option.some.inj h
    exact .retest
  | clearDone =>
    obtain rfl := Option.some.inj h
    exact .clearDone
  | spawn =>
    simp only [callStep] at h
    split at h <;> obtain rfl := Option.some.inj h
    · exact .spawn ‹_›
    · exact .spawnJoinable ‹_›

/-- What `do_write` makes of a reply : it disconnects, or it returns. -/
inductive Verdict (st : State) (reply : StompReply) (le : LogEvent) : State → Prop
  | drop : Verdict st reply le (st.gotoWriter (.close le false))
  | returns {id} : reply.command = ascii "RECEIPT" →
      reply.headers.lookup (ascii "receipt-id") = some id →
      Verdict st reply le (st.returns (some st.calls) le (toDec st.receipt.toNat == id))

/-- The rules of `writerStep`. -/
inductive WriterMove (p : StompParams) (st : State) : WriterPc → State → Prop
  | connect {job pc st'} : CallMove st job pc st' → WriterMove p st (.connect job pc) st'
  | send {le conns written} :
      Writes st.conns st.socket (.send (st.calls + 1) le)
        (sendPacket p (st.receipt + 1).toNat le) conns written →
      WriterMove p st (.send le)
        { st.gotoWriter (.written le written) with
          receipt := st.receipt + 1
          calls := st.calls + 1
          conns }
  | wait {le k} : st.locked = false → st.replyQueue = [] →
      WriterMove p st (.lock le k) (st.gotoWriter (.wait le k))
  | ready {le k} : st.locked = false → st.replyQueue ≠ [] →
      WriterMove p st (.lock le k) { st.gotoWriter (.take le k) with locked := true }
  | timeout {le k} : st.locked = false →
      WriterMove p st (.wait le k) { st.gotoWriter (.close le true) with locked := true }
  | woken {le k} : st.locked = false →
      WriterMove p st (.wait le k) { st.gotoWriter (.take le k) with locked := true }
  | takeNone {le k} : st.replyQueue = [] → WriterMove p st (.take le k) st.crash
  | take {le k reply origin replyQueue st'} : st.replyQueue = (reply, origin) :: replyQueue →
      Verdict { st.observe (.took k origin) with replyQueue, locked := false } reply le st' →
      WriterMove p st (.take le k) st'
  | close {le held} :
      WriterMove p st (.close le held) ((st.disconnect none).gotoWriter (.clear le held))
  | clear {le held} :
      WriterMove p st (.clear le held)
        { st.returns (some st.calls) le false with
          connected := false
          locked := st.locked && !held }

theorem writerMove {r : Outcome} (h : writerStep p st r = some st') :
    WriterMove p st st.writer st' := by
  cases hw : st.writer with
  | idle =>
    simp only [writerStep, hw] at h
    cases h
  | connect job pc =>
    simp only [writerStep, hw] at h
    exact .connect (callMove h)
  | send le =>
    obtain ⟨conns, written, hwrite, hs⟩ := write_spec
      { st with receipt := st.receipt + 1, calls := st.calls + 1, writer := .send le }
      (.send (st.calls + 1) le) (sendPacket p (st.receipt + 1).toNat le) r
    simp only [writerStep, hw, hwrite] at h
    cases written with
    | some k =>
      obtain rfl := Option.some.inj h
      exact @WriterMove.send p st le conns (some k) hs
    | none =>
      obtain rfl := Option.some.inj h
      exact @WriterMove.send p st le conns none hs
  | lock le k =>
    simp only [writerStep, hw] at h
    split at h
    · cases h
    · next hlocked =>
      split at h
      · next hq =>
        obtain rfl := Option.some.inj h
        exact .wait (by simpa using hlocked) (by simpa using hq)
      · next hq =>
        obtain rfl := Option.some.inj h
        exact .ready (by simpa using hlocked) (by simpa using hq)
  | wait le k =>
    simp only [writerStep, hw] at h
    split at h
    · cases h
    · next hlocked =>
      obtain rfl := Option.some.inj h
      split_ifs
      · exact .timeout (by simpa using hlocked)
      · exact .woken (by simpa using hlocked)
  | take le k =>
    simp only [writerStep, hw] at h
    split at h
    · obtain rfl := Option.some.inj h
      exact .takeNone ‹_›
    · next reply origin replyQueue hq =>
      refine .take hq ?_
      split at h
      · obtain rfl := Option.some.inj h
        exact .drop
      · next hcommand =>
        split at h
        · obtain rfl := Option.some.inj h
          exact .drop
        · next id hid =>
          obtain rfl := Option.some.inj h
          exact .returns (by simpa using hcommand) hid
  | close le held =>
    simp only [writerStep, hw] at h
    obtain rfl := Option.some.inj h
    exact .close
  | clear le held =>
    simp only [writerStep, hw] at h
    obtain rfl := Option.some.inj h
    exact .clear

/-! ## The connect thread -/

/-- What `connect_thread` makes of a reply : it disconnects, or it is connected. -/
inductive Greeting (st : State) : State → Prop
  | drop {heartbeatInterval} :
      Greeting st { st.gotoConnect (.close true) with heartbeatInterval }
  | accept {heartbeatInterval} :
      Greeting st { st.gotoConnect .setConnected with heartbeatInterval }

/-- The rules of `connectStep`. -/
inductive ConnectMove (p : StompParams) (st : State) (r : Outcome) : ConnectPc → State → Prop
  | opened {n} : r = .done n →
      ConnectMove p st r .open
        { st.gotoConnect .write with
          conns := st.conns ++ [.new]
          socket := some st.conns.length }
  | refused : ConnectMove p st r .open { st.gotoConnect (.setDone false) with socket := none }
  | unresolved : ConnectMove p st r .open (st.gotoConnect (.setDone false))
  | write {conns written} : Writes st.conns st.socket .connect (connectPacket p) conns written →
      ConnectMove p st r .write
        { st.gotoConnect (.written written) with
          conns }
  | spawn {k} :
      ConnectMove p st r (.spawn k)
        { st.gotoConnect (.lock k) with readers := st.readers ++ [⟨k, false, .enter⟩] }
  | wait {k} : st.locked = false → st.replyQueue = [] →
      ConnectMove p st r (.lock k) (st.gotoConnect (.wait k))
  | ready {k} : st.locked = false → st.replyQueue ≠ [] →
      ConnectMove p st r (.lock k) { st.gotoConnect (.take k) with locked := true }
  | timeout {k} : st.locked = false →
      ConnectMove p st r (.wait k) { st.gotoConnect (.close true) with locked := true }
  | woken {k} : st.locked = false →
      ConnectMove p st r (.wait k) { st.gotoConnect (.take k) with locked := true }
  | takeNone {k} : st.replyQueue = [] → ConnectMove p st r (.take k) st.crash
  | take {k reply origin replyQueue st'} : st.replyQueue = (reply, origin) :: replyQueue →
      Greeting { st.observe (.took k origin) with replyQueue } st' →
      ConnectMove p st r (.take k) st'
  | close {held} :
      ConnectMove p st r (.close held) ((st.disconnect none).gotoConnect (.clear held))
  | clear {held} :
      ConnectMove p st r (.clear held) { st.gotoConnect (.setDone held) with connected := false }
  | setConnected :
      ConnectMove p st r .setConnected { st.gotoConnect (.setDone true) with connected := true }
  | setDone {held} :
      ConnectMove p st r (.setDone held)
        { st.gotoConnect (.leave held) with connectThreadDone := true }
  | leave {held} :
      ConnectMove p st r (.leave held)
        { st.gotoConnect .finished with locked := st.locked && !held }

theorem connectMove {pc : ConnectPc} {r : Outcome} (h : connectStep p st r pc = some st') :
    ConnectMove p st r pc st' := by
  cases pc with
  | «open» =>
    simp only [connectStep] at h
    split at h <;> obtain rfl := Option.some.inj h
    · exact .opened rfl
    · exact .refused
    · exact .unresolved
  | write =>
    obtain ⟨conns, written, hwrite, hs⟩ := write_spec st .connect (connectPacket p) r
    simp only [connectStep, hwrite] at h
    cases written with
    | some k =>
      obtain rfl := Option.some.inj h
      exact @ConnectMove.write p st r conns (some k) hs
    | none =>
      obtain rfl := Option.some.inj h
      exact @ConnectMove.write p st r conns none hs
  | spawn k =>
    obtain rfl := Option.some.inj h
    exact .spawn
  | lock k =>
    simp only [connectStep] at h
    split at h
    · cases h
    · next hlocked =>
      split at h
      · next hq =>
        obtain rfl := Option.some.inj h
        exact .wait (by simpa using hlocked) (by simpa using hq)
      · next hq =>
        obtain rfl := Option.some.inj h
        exact .ready (by simpa using hlocked) (by simpa using hq)
  | wait k =>
    simp only [connectStep] at h
    split at h
    · cases h
    · next hlocked =>
      obtain rfl := Option.some.inj h
      split_ifs
      · exact .timeout (by simpa using hlocked)
      · exact .woken (by simpa using hlocked)
  | take k =>
    simp only [connectStep] at h
    split at h
    · obtain rfl := Option.some.inj h
      exact .takeNone ‹_›
    · next reply origin replyQueue hq =>
      refine .take hq ?_
      split at h <;> obtain rfl := Option.some.inj h
      · exact .drop
      · split_ifs
        · exact .accept
        · exact .drop
  | close held =>
    obtain rfl := Option.some.inj h
    exact .close
  | clear held =>
    obtain rfl := Option.some.inj h
    exact .clear
  | setConnected =>
    obtain rfl := Option.some.inj h
    exact .setConnected
  | setDone held =>
    obtain rfl := Option.some.inj h
    exact .setDone
  | leave held =>
    obtain rfl := Option.some.inj h
    exact .leave
  | finished => cases h

/-! ## A reader thread -/

/-- The steps of a reader that change nothing else. -/
inductive ReaderJump (st : State) : ReaderPc → ReaderPc → Prop
  | enter {timed} : ReaderJump st .enter (.test timed)
  | unconnected {timed} : st.socket = none → ReaderJump st (.test timed) .fail
  | test {timed k} : st.socket = some k → ReaderJump st (.test timed) (.select timed k)
  | ready {timed k} : ReaderJump st (.select timed k) .read
  | silent {timed k} : ReaderJump st (.select timed k) (.close true)
  | failed {timed k} : ReaderJump st (.select timed k) .fail
  | readFailed : ReaderJump st .read .fail
  | ended : ReaderJump st .read (.close true)
  | used {k rest} : takeReply st.partialText rest = none → ReaderJump st (.process k rest) .enter
  | accept {k rest reply} : replyOf st.partialText = some reply →
      ReaderJump st (.handle k rest) (.push k rest reply (st.partialReply.map Prod.snd ++ [k]))

/-- The rules of `readerStep`. -/
inductive ReaderMove (st : State) (i : ℕ) (rd : Reader) : State → Prop
  | jump {pc} : ReaderJump st rd.pc pc → ReaderMove st i rd (st.gotoReader i pc)
  | tolerate {k} : rd.pc = .select true k →
      ReaderMove st i rd { st.gotoReader i (.test true) with lastWasData := false }
  | read {k c n} : rd.pc = .read → st.socket = some k → st.conns[k]? = some c →
      c.inbox ≠ [] → 0 < n → n ≤ 1536 →
      ReaderMove st i rd
        { (st.observe (.read i k (!rd.hasRead) st.partialReply.isEmpty)).modifyConn k
            fun c => { c with inbox := c.inbox.drop n } with
          readers := st.readers.modify i fun r =>
            { r with hasRead := true, pc := .process k (c.inbox.take n) } }
  | fail : rd.pc = .fail →
      ReaderMove st i rd ((st.disconnect (some i)).gotoReader i (.close true))
  | append {k rest data rest' pc} : rd.pc = .process k rest →
      takeReply st.partialText rest = some (data, rest') →
      (rest' = none ∧ pc = .enter ∨ ∃ rest, rest' = some rest ∧ pc = .handle k rest) →
      ReaderMove st i rd
        { st.gotoReader i pc with
          partialReply := st.partialReply ++ data.map fun c => (c, k)
          lastWasData := true }
  | reject {k rest} : rd.pc = .handle k rest → replyOf st.partialText = none →
      ReaderMove st i rd ((st.observe (.rejected i)).gotoReader i (.clear k rest false))
  | push {k rest reply origin} : rd.pc = .push k rest reply origin → st.locked = false →
      ReaderMove st i rd
        { st.gotoReader i (.clear k rest true) with
          replyQueue := st.replyQueue ++ [(reply, origin)] }
  | clear {k rest ret} : rd.pc = .clear k rest ret →
      ReaderMove st i rd
        { st.gotoReader i (if ret then .process k rest else .close false) with
          partialReply := [] }
  | close {last} : rd.pc = .close last →
      ReaderMove st i rd ((st.disconnect (some i)).gotoReader i (.drop last))
  | drop {last} : rd.pc = .drop last →
      ReaderMove st i rd
        { st.gotoReader i (if last then .finished else .enter) with connected := false }

theorem readerMove {i : ℕ} {rd : Reader} {r : Outcome} (h : readerStep st i rd r = some st') :
    ReaderMove st i rd st' := by
  cases hpc : rd.pc with
  | enter =>
    simp only [readerStep, hpc] at h
    obtain rfl := Option.some.inj h
    exact .jump (hpc ▸ .enter)
  | test timed =>
    simp only [readerStep, hpc] at h
    split at h <;> obtain rfl := Option.some.inj h
    · exact .jump (hpc ▸ .unconnected ‹_›)
    · exact .jump (hpc ▸ .test ‹_›)
  | select timed k =>
    simp only [readerStep, hpc] at h
    split at h
    · split at h
      · obtain rfl := Option.some.inj h
        exact .jump (hpc ▸ .ready)
      · cases h
    · split at h
      · cases h
      · next htimed =>
        have htimed : timed = true := by simpa using htimed
        subst htimed
        split at h <;> obtain rfl := Option.some.inj h
        · exact .tolerate hpc
        · exact .jump (hpc ▸ .silent)
    · obtain rfl := Option.some.inj h
      exact .jump (hpc ▸ .failed)
  | read =>
    simp only [readerStep, hpc] at h
    split at h
    · obtain rfl := Option.some.inj h
      exact .jump (hpc ▸ .readFailed)
    · next k n hk =>
      split at h
      · cases h
      · next c hc =>
        split at h
        · split at h
          · obtain rfl := Option.some.inj h
            exact .jump (hpc ▸ .ended)
          · cases h
        · next hinbox =>
          split at h
          · cases h
          · next hn =>
            obtain rfl := Option.some.inj h
            exact .read hpc hk hc (by simpa using hinbox) (by omega) (by omega)
    · obtain rfl := Option.some.inj h
      exact .jump (hpc ▸ .readFailed)
  | fail =>
    simp only [readerStep, hpc] at h
    obtain rfl := Option.some.inj h
    exact .fail hpc
  | process k rest =>
    simp only [readerStep, hpc] at h
    split at h
    · obtain rfl := Option.some.inj h
      exact .jump (hpc ▸ .used ‹_›)
    · next data rest' htake =>
      obtain rfl := Option.some.inj h
      refine .append hpc htake ?_
      cases rest' with
      | none => exact Or.inl ⟨rfl, rfl⟩
      | some rest' => exact Or.inr ⟨rest', rfl, rfl⟩
  | handle k rest =>
    simp only [readerStep, hpc] at h
    split at h <;> obtain rfl := Option.some.inj h
    · exact .reject hpc ‹_›
    · exact .jump (hpc ▸ .accept ‹_›)
  | push k rest reply origin =>
    simp only [readerStep, hpc] at h
    split at h
    · cases h
    · next hlocked =>
      obtain rfl := Option.some.inj h
      exact .push hpc (by simpa using hlocked)
  | clear k rest ret =>
    simp only [readerStep, hpc] at h
    obtain rfl := Option.some.inj h
    exact .clear hpc
  | close last =>
    simp only [readerStep, hpc] at h
    obtain rfl := Option.some.inj h
    exact .close hpc
  | drop last =>
    simp only [readerStep, hpc] at h
    obtain rfl := Option.some.inj h
    exact .drop hpc
  | finished =>
    simp only [readerStep, hpc] at h
    cases h

/-! ## The session -/

/-- The rules of `step`. -/
inductive Move (p : StompParams) (st : State) : Action → State → Prop
  | call {le} : st.writer = .idle →
      Move p st (.call le) (st.gotoWriter (.connect (some le) .test))
  | writer {r st'} : WriterMove p st st.writer st' → Move p st (.writer r) st'
  | connect {r pc st'} : st.connectThread = some pc → ConnectMove p st r pc st' →
      Move p st (.connect r) st'
  | reader {i r rd st'} : st.readers[i]? = some rd → ReaderMove st i rd st' →
      Move p st (.reader i r) st'
  | deliver {k n} :
      Move p st (.deliver k n) (st.modifyConn k fun c =>
        { c with received := min (c.received + n) c.stream.length })
  | serve {k data} :
      Move p st (.serve k data) (st.modifyConn k fun c =>
        { c with served := c.served ++ data, inbox := c.inbox ++ data })
  | lose {k n} :
      Move p st (.lose k n) (st.modifyConn k fun c =>
        { c with inbox := c.inbox.take n, eof := true })

theorem move {a : Action} (h : step p st a = some st') : Move p st a st' := by
  unfold step at h
  split at h
  · cases h
  · cases a with
    | call le =>
      simp only at h
      split at h
      · obtain rfl := Option.some.inj h
        exact .call ‹_›
      · cases h
    | writer r => exact .writer (writerMove h)
    | connect r =>
      obtain ⟨pc, hpc, h⟩ := Option.bind_eq_some_iff.1 h
      exact .connect hpc (connectMove h)
    | reader i r =>
      obtain ⟨rd, hrd, h⟩ := Option.bind_eq_some_iff.1 h
      exact .reader hrd (readerMove h)
    | deliver k n =>
      obtain rfl := Option.some.inj h
      exact .deliver
    | serve k data =>
      simp only at h
      split at h
      · obtain rfl := Option.some.inj h
        exact .serve
      · cases h
    | lose k n =>
      obtain rfl := Option.some.inj h
      exact .lose

end Logfile.Stomp
