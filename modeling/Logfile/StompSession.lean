import Logfile.Reassembly
import Logfile.Runs
import Logfile.StompPacket

/-!
# The sessions of a STOMP stream

The threads of `output_stream_stomp` : the one writer, which calls `connect` from the
constructor and then `do_write`, the connect threads, and the reader threads, none of which
is ever joined. They share the members of the stream, among them one `tcp_client_socket`
whose descriptor is replaced on reconnect. Each call into the socket, each access to a
shared member and each section under `m_reply_mutex` is one step; a thread may stay between
two steps for any time. `select_read` is two, its test of the descriptor and the return of
`select`. What the environment decides comes with the action, and the server and the network
have actions of their own.

A connection is the number of its opening, and `sent`, `served` and the connection that
comes with each byte of `m_partial_reply` and each queued reply record where data went or
came from. They and `trace` are read by no step. Undefined behaviour ends the run.

The sockets are plain ones, without TLS, threads can be created, and what is logged is left
out.
-/

namespace Logfile.Stomp

open Text

/-! ## Connections -/

/-- What is written to a socket. -/
inductive Packet
  | connect
  /-- the packet of the SEND with the given number -/
  | send (call : ℕ) (le : LogEvent)
  deriving DecidableEq

/-- A `write`, with the bytes that went out. -/
structure Sent where
  packet : Packet
  bytes : Bytes
  deriving DecidableEq

/-- A TCP connection. -/
structure Conn where
  sent : List Sent
  /-- how many of the bytes sent the server has received -/
  received : ℕ
  /-- all that the server has sent -/
  served : Bytes
  /-- what of it is still to be read -/
  inbox : Bytes
  /-- nothing more will come -/
  eof : Bool
  deriving DecidableEq

namespace Conn

def new : Conn :=
  ⟨[], 0, [], [], false⟩

variable (c : Conn)

/-- The bytes that went out. -/
def stream : Bytes :=
  c.sent.flatMap Sent.bytes

/-- The bytes that the server has received. -/
def arrived : Bytes :=
  c.stream.take c.received

/-- `select` finds the connection readable. -/
def readable : Bool :=
  !c.inbox.isEmpty || c.eof

end Conn

/-- How a blocking call ends : successfully, for `read` and `write` with a number of bytes,
by its timeout, or with an error. `connect` ends by `timeout` when no address accepts. -/
inductive Outcome
  | done (n : ℕ)
  | timeout
  | error
  deriving DecidableEq

/-! ## Threads -/

/-- Where the writer is in `connect`. -/
inductive CallPc
  /-- `if (!m_connected)` -/
  | test
  /-- `m_connecting.exchange(true)` -/
  | exchange
  /-- `if (m_connect_thread_done)` -/
  | testDone
  /-- `m_connecting = false` -/
  | clearConnecting
  /-- `m_connect_thread.join()` -/
  | join
  /-- the second `if (!m_connected)` -/
  | retest
  /-- `m_connect_thread_done = false` -/
  | clearDone
  /-- `m_connect_thread = std::thread(..)` -/
  | spawn
  deriving DecidableEq

/-- Where the writer is. `k` is the connection that its SEND went to, `held` tells whether it
holds `m_reply_mutex`. -/
inductive WriterPc
  | idle
  /-- in `connect`, called by the constructor or by `do_write` -/
  | connect (job : Option LogEvent) (pc : CallPc)
  /-- `++m_receipt` and `m_socket->write(..)` -/
  | send (le : LogEvent)
  /-- `lk(m_reply_mutex)` and the test of `m_reply_queue` -/
  | lock (le : LogEvent) (k : ℕ)
  /-- `m_reply_cv.wait_for(lk, ..)` -/
  | wait (le : LogEvent) (k : ℕ)
  /-- `pop_front()` and what follows -/
  | take (le : LogEvent) (k : ℕ)
  /-- in `disconnect`, `m_socket->disconnect()` -/
  | close (le : LogEvent) (held : Bool)
  /-- in `disconnect`, `m_connected = false` -/
  | clear (le : LogEvent) (held : Bool)
  deriving DecidableEq

/-- Where a connect thread is. `k` is the connection that its CONNECT went to, `held` tells
whether it holds `m_reply_mutex`. -/
inductive ConnectPc
  /-- `m_socket->connect()` -/
  | open
  /-- `m_socket->write(..)` -/
  | write
  /-- `new std::thread{&output_stream_stomp::reader_thread, this}` -/
  | spawn (k : ℕ)
  | lock (k : ℕ)
  | wait (k : ℕ)
  | take (k : ℕ)
  | close (held : Bool)
  | clear (held : Bool)
  /-- `m_connected = true` -/
  | setConnected
  /-- `m_connect_thread_done = true` -/
  | setDone (held : Bool)
  /-- the end of the scope of `lk` -/
  | leave (held : Bool)
  | finished
  deriving DecidableEq

/-- Where a reader thread is. `k` is the connection that the data in its buffer came from,
`rest` what is left of it, `last` tells whether the thread ends afterwards. -/
inductive ReaderPc
  /-- the arguments of `read_with_timeout` -/
  | enter
  /-- in `select_read`, `if (!connected())` -/
  | test (timed : Bool)
  /-- in `select_read`, `select` on the descriptor of `k` -/
  | select (timed : Bool) (k : ℕ)
  /-- `m_socket->read(..)` -/
  | read
  /-- the `m_socket->disconnect()` of `read_with_timeout` -/
  | fail
  /-- `while (bytesLeft)` -/
  | process (k : ℕ) (rest : Bytes)
  /-- `handle_reply(m_partial_reply)` up to its lock -/
  | handle (k : ℕ) (rest : Bytes)
  /-- `m_reply_queue.push_back(reply)` -/
  | push (k : ℕ) (rest : Bytes) (reply : StompReply) (origin : List ℕ)
  /-- `m_partial_reply.clear()` -/
  | clear (k : ℕ) (rest : Bytes) (ret : Bool)
  /-- in `disconnect`, `m_socket->disconnect()` -/
  | close (last : Bool)
  /-- in `disconnect`, `m_connected = false` -/
  | drop (last : Bool)
  | finished
  deriving DecidableEq

/-- A reader thread. `home` is the connection it was started for. -/
structure Reader where
  home : ℕ
  hasRead : Bool
  pc : ReaderPc
  deriving DecidableEq

/-- What can be seen of the sessions. -/
inductive Obs
  /-- a reply was taken by a thread that had written to `k`; `origin` are the connections its
  bytes came from -/
  | took (k : ℕ) (origin : List ℕ)
  /-- the reader `i` read bytes of `k`; whether it was its first read, and whether
  `m_partial_reply` was empty -/
  | read (i k : ℕ) (first empty : Bool)
  /-- `handle_reply` returned false -/
  | rejected (i : ℕ)
  /-- the connection `k` was closed, by the reader `i` or by another thread -/
  | closed (i : Option ℕ) (k : ℕ)
  /-- `do_write` returned, with the number of its SEND if it had sent one -/
  | returned (call : Option ℕ) (le : LogEvent) (result : Bool)
  deriving DecidableEq

/-! ## The state -/

/-- The stream, its threads and its connections. -/
structure State where
  conns : List Conn
  /-- the descriptor of `m_socket` -/
  socket : Option ℕ
  connected : Bool
  connecting : Bool
  connectThreadDone : Bool
  receipt : UInt32
  heartbeatInterval : ℤ
  lastWasData : Bool
  partialReply : List (Byte × ℕ)
  replyQueue : List (StompReply × List ℕ)
  /-- `m_reply_mutex` is held over several steps -/
  locked : Bool
  writer : WriterPc
  /-- `m_connect_thread`, unless it is not joinable -/
  connectThread : Option ConnectPc
  readers : List Reader
  crashed : Bool
  /-- SENDs so far -/
  calls : ℕ
  trace : List Obs

namespace State

/-- The constructor calls `connect`. -/
def start : State where
  conns := []
  socket := none
  connected := false
  connecting := false
  connectThreadDone := false
  receipt := 0
  heartbeatInterval := 0
  lastWasData := false
  partialReply := []
  replyQueue := []
  locked := false
  writer := .connect none .test
  connectThread := none
  readers := []
  crashed := false
  calls := 0
  trace := []

variable (st : State)

/-- Undefined behaviour. -/
def crash : State :=
  { st with crashed := true }

def observe (o : Obs) : State :=
  { st with trace := st.trace ++ [o] }

/-- `m_partial_reply` -/
def partialText : Bytes :=
  st.partialReply.map Prod.fst

def modifyConn (k : ℕ) (f : Conn → Conn) : State :=
  { st with conns := st.conns.modify k f }

def gotoWriter (pc : WriterPc) : State :=
  { st with writer := pc }

def gotoConnect (pc : ConnectPc) : State :=
  { st with connectThread := some pc }

def gotoReader (i : ℕ) (pc : ReaderPc) : State :=
  { st with readers := st.readers.modify i fun r => { r with pc } }

/-- `tcp_client_socket::disconnect` -/
def disconnect (i : Option ℕ) : State :=
  { st with
    socket := none
    trace := st.trace ++ st.socket.toList.map (.closed i) }

/-- `tcp_client_socket::write` : the connection written to unless it throws. -/
def write (packet : Packet) (bytes : Bytes) (r : Outcome) : State × Option ℕ :=
  match st.socket, r with
  | some k, .done n =>
    -- `_len` is an `unsigned`
    let data := bytes.take (bytes.length % 2 ^ 32)
    (st.modifyConn k fun c => { c with sent := c.sent ++ [⟨packet, data.take n⟩] },
      if data.length ≤ n then some k else none)
  | _, _ => (st, none)

/-- `do_write` returns. -/
def returns (call : Option ℕ) (le : LogEvent) (result : Bool) : State :=
  (st.observe (.returned call le result)).gotoWriter .idle

/-- `connect` returns. The constructor ignores the result. -/
def connectReturns (job : Option LogEvent) (result : Bool) : State :=
  { st with
    writer :=
      match job with
      | some le => if result then .send le else .idle
      | none => .idle
    trace := st.trace ++
      match job with
      | some le => if result then [] else [.returned none le false]
      | none => [] }

end State

/-! ## Steps -/

/-- A step of the writer inside `connect`. -/
def callStep (st : State) (job : Option LogEvent) : CallPc → Option State
  | .test =>
    if st.connected then some (st.connectReturns job true)
    else some (st.gotoWriter (.connect job .exchange))
  | .exchange =>
    some { st.gotoWriter (.connect job (if st.connecting then .testDone else .clearDone)) with
      connecting := true }
  | .testDone =>
    if st.connectThreadDone then some (st.gotoWriter (.connect job .clearConnecting))
    -- still trying to connect
    else some (st.connectReturns job false)
  | .clearConnecting => some { st.gotoWriter (.connect job .join) with connecting := false }
  | .join =>
    match st.connectThread with
    | none => some st.crash
    | some .finished => some { st.gotoWriter (.connect job .retest) with connectThread := none }
    | some _ => none
  | .retest => some (st.connectReturns job st.connected)
  | .clearDone => some { st.gotoWriter (.connect job .spawn) with connectThreadDone := false }
  | .spawn =>
    match st.connectThread with
    | none => some ((st.gotoConnect .open).connectReturns job false)
    | some _ => some st.crash

/-- A step of the writer. -/
def writerStep (p : StompParams) (st : State) (r : Outcome) : Option State :=
  match st.writer with
  | .idle => none
  | .connect job pc => callStep st job pc
  | .send le =>
    let receipt := st.receipt + 1
    let call := st.calls + 1
    let (st, written) := State.write { st with receipt, calls := call } (.send call le)
      (sendPacket p receipt.toNat le) r
    match written with
    | some k => some (st.gotoWriter (.lock le k))
    | none => some (st.gotoWriter (.close le false))
  | .lock le k =>
    if st.locked then none
    else if st.replyQueue.isEmpty then some (st.gotoWriter (.wait le k))
    else some { st.gotoWriter (.take le k) with locked := true }
  | .wait le k =>
    if st.locked then none
    else some { st.gotoWriter (if r = .timeout then .close le true else .take le k) with
      locked := true }
  | .take le k =>
    match st.replyQueue with
    | [] => some st.crash
    | (reply, origin) :: replyQueue =>
      let st := { st.observe (.took k origin) with replyQueue, locked := false }
      if reply.command ≠ ascii "RECEIPT" then some (st.gotoWriter (.close le false))
      else
        match reply.headers.lookup (ascii "receipt-id") with
        | none => some (st.gotoWriter (.close le false))
        | some id => some (st.returns (some st.calls) le (toDec st.receipt.toNat == id))
  | .close le held => some ((st.disconnect none).gotoWriter (.clear le held))
  | .clear le held =>
    some { st.returns (some st.calls) le false with
      connected := false
      locked := st.locked && !held }

/-- A step of the connect thread. -/
def connectStep (p : StompParams) (st : State) (r : Outcome) : ConnectPc → Option State
  | .open =>
    match r with
    | .done _ =>
      some { st.gotoConnect .write with
        conns := st.conns ++ [.new]
        socket := some st.conns.length }
    | .timeout => some { st.gotoConnect (.setDone false) with socket := none }
    -- the name of the host is not resolved
    | .error => some (st.gotoConnect (.setDone false))
  | .write =>
    let (st, written) := st.write .connect (connectPacket p) r
    match written with
    | some k => some (st.gotoConnect (.spawn k))
    | none => some (st.gotoConnect (.close false))
  | .spawn k =>
    some { st.gotoConnect (.lock k) with readers := st.readers ++ [⟨k, false, .enter⟩] }
  | .lock k =>
    if st.locked then none
    else if st.replyQueue.isEmpty then some (st.gotoConnect (.wait k))
    else some { st.gotoConnect (.take k) with locked := true }
  | .wait k =>
    if st.locked then none
    else some { st.gotoConnect (if r = .timeout then .close true else .take k) with
      locked := true }
  | .take k =>
    match st.replyQueue with
    | [] => some st.crash
    | (reply, origin) :: replyQueue =>
      let st := { st.observe (.took k origin) with replyQueue }
      if reply.command ≠ ascii "CONNECTED" ∨ !checkServerVersion reply then
        some (st.gotoConnect (.close true))
      else
        let (ret, interval) := parseHeartbeat reply
        some { st.gotoConnect (if ret then .setConnected else .close true) with
          heartbeatInterval := interval.getD st.heartbeatInterval }
  | .close held => some ((st.disconnect none).gotoConnect (.clear held))
  | .clear held => some { st.gotoConnect (.setDone held) with connected := false }
  | .setConnected => some { st.gotoConnect (.setDone true) with connected := true }
  | .setDone held => some { st.gotoConnect (.leave held) with connectThreadDone := true }
  | .leave held => some { st.gotoConnect .finished with locked := st.locked && !held }
  | .finished => none

/-- A round of `while (bytesLeft)` up to `handle_reply` : what it appends to `m_partial_reply`,
and what is left behind a NUL. There is none when only heartbeats are left. -/
def takeReply (partialReply rest : Bytes) : Option (Bytes × Option Bytes) :=
  let data := if partialReply.isEmpty then rest.dropWhile (· == 10) else rest
  if data.isEmpty then none
  else
    match find data [0] 0 with
    | none => some (data, none)
    | some i => some (data.take i, some (data.drop (i + 1)))

/-- A step of the reader thread `i`. -/
def readerStep (st : State) (i : ℕ) (rd : Reader) (r : Outcome) : Option State :=
  match rd.pc with
  -- heartbeat interval 0 => no timeout in call to select()
  | .enter => some (st.gotoReader i (.test (st.heartbeatInterval ≠ 0)))
  | .test timed =>
    match st.socket with
    | none => some (st.gotoReader i .fail)
    | some k => some (st.gotoReader i (.select timed k))
  | .select timed k =>
    match r with
    | .done _ =>
      if st.conns[k]?.any Conn.readable then some (st.gotoReader i .read) else none
    | .timeout =>
      if !timed then none
      else if st.lastWasData then
        some { st.gotoReader i (.test timed) with lastWasData := false }
      else some (st.gotoReader i (.close true))
    | .error => some (st.gotoReader i .fail)
  | .read =>
    match st.socket, r with
    | none, _ => some (st.gotoReader i .fail)
    | some k, .done n =>
      match st.conns[k]? with
      | none => none
      | some c =>
        if c.inbox.isEmpty then
          if c.eof then some (st.gotoReader i (.close true)) else none
        else if n = 0 ∨ n > 1536 then none
        else
          let st := (st.observe (.read i k (!rd.hasRead) st.partialReply.isEmpty)).modifyConn k
            fun c => { c with inbox := c.inbox.drop n }
          some { st with
            readers := st.readers.modify i fun r =>
              { r with hasRead := true, pc := .process k (c.inbox.take n) } }
    | some _, _ => some (st.gotoReader i .fail)
  | .fail => some ((st.disconnect (some i)).gotoReader i (.close true))
  | .process k rest =>
    match takeReply st.partialText rest with
    | none => some (st.gotoReader i .enter)
    | some (data, rest) =>
      some { st.gotoReader i (match rest with | none => .enter | some rest => .handle k rest) with
        partialReply := st.partialReply ++ data.map fun c => (c, k)
        lastWasData := true }
  | .handle k rest =>
    match replyOf st.partialText with
    | none => some ((st.observe (.rejected i)).gotoReader i (.clear k rest false))
    | some reply =>
      some (st.gotoReader i (.push k rest reply (st.partialReply.map Prod.snd ++ [k])))
  | .push k rest reply origin =>
    if st.locked then none
    else some { st.gotoReader i (.clear k rest true) with
      replyQueue := st.replyQueue ++ [(reply, origin)] }
  | .clear k rest ret =>
    -- `break` leaves the inner loop only
    some { st.gotoReader i (if ret then .process k rest else .close false) with
      partialReply := [] }
  | .close last => some ((st.disconnect (some i)).gotoReader i (.drop last))
  | .drop last =>
    some { st.gotoReader i (if last then .finished else .enter) with connected := false }
  | .finished => none

/-- The parties. -/
inductive Action
  /-- `do_write(le)` is called -/
  | call (le : LogEvent)
  | writer (r : Outcome)
  | connect (r : Outcome)
  | reader (i : ℕ) (r : Outcome)
  /-- the server receives up to `n` more bytes of the connection `k` -/
  | deliver (k n : ℕ)
  /-- the server sends on the connection `k` -/
  | serve (k : ℕ) (data : Bytes)
  /-- the connection `k` ends, and of what was sent only `n` bytes can still be read -/
  | lose (k n : ℕ)
  deriving DecidableEq

def step (p : StompParams) (st : State) (a : Action) : Option State :=
  if st.crashed then none
  else
    match a with
    | .call le =>
      if st.writer = .idle then some (st.gotoWriter (.connect (some le) .test)) else none
    | .writer r => writerStep p st r
    | .connect r => st.connectThread.bind (connectStep p st r)
    | .reader i r => st.readers[i]?.bind fun rd => readerStep st i rd r
    | .deliver k n => some (st.modifyConn k fun c =>
        { c with received := min (c.received + n) c.stream.length })
    | .serve k data =>
      if st.conns[k]?.any fun c => !c.eof then
        some (st.modifyConn k fun c =>
          { c with served := c.served ++ data, inbox := c.inbox ++ data })
      else none
    | .lose k n => some (st.modifyConn k fun c => { c with inbox := c.inbox.take n, eof := true })

/-- The sessions of the stream with the given parameters. -/
def system (p : StompParams) : System State Action where
  init st := st = .start
  step := step p

/-! ## Scenarios -/

def someParams : StompParams where
  order := .listed
  appName := ascii "ioc"
  url := ⟨ascii "stomp", [], [], ascii "broker", 61613, ascii "LOG"⟩
  hostname := some (ascii "host")
  pwName := none

def someEvent : LogEvent :=
  ⟨.info, 0, ascii "text", 0, ascii "f", ascii "s", ascii "2017-01-01 00:00:00.000"⟩

/-- `n` successful steps of the writer. -/
def writes (n : ℕ) : List Action :=
  List.replicate n (.writer (.done 1000))

/-- `n` successful steps of the connect thread. -/
def connects (n : ℕ) : List Action :=
  List.replicate n (.connect (.done 1000))

/-- `n` successful steps of the reader `i`. -/
def reads (i n : ℕ) : List Action :=
  List.replicate n (.reader i (.done 1000))

/-- The first connection is opened, CONNECT is written, and the connect thread waits. -/
def firstConnect : List Action :=
  writes 4 ++ connects 4

/-- `connect_thread` gives up waiting and ends. -/
def giveUp : List Action :=
  .connect .timeout :: connects 4

/-- `do_write` finds the connect thread ended, and the next `do_write` starts another. -/
def reconnect : List Action :=
  .call someEvent :: writes 6 ++ .call someEvent :: writes 4

def greeting : Bytes :=
  ascii "CONNECTED\nversion:1.1\n\n" ++ [0]

end Logfile.Stomp
