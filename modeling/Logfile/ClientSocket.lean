import Logfile.Text
import Logfile.Runs

/-!
# The client socket

`tcp_client_socket` : `connect` with its loop over the addresses, the SOCKS exchange and the
SSL set-up, `disconnect`, and the configuration. The outcome of every call into the system or
into OpenSSL comes with the environment, and a call that is not made does not matter.

A descriptor is the number of its opening. `fds` are those that are open, and `socksOn` and
`sslOn` record on which one a handshake was completed; no step reads them. `start_SOCKS` takes
bytes that have not come for zeros, so that `socksOn` goes by what the server really sent. The
branch for systems without `getaddrinfo` is left out, and so are the OpenSSL objects.
-/

namespace Logfile

open Text

namespace Tcs

/-! ## The object -/

/-- The exceptions of the socket. -/
inductive Error
  | runtimeError (what : Bytes)
  | invalidArgument (what : Bytes)
  deriving DecidableEq, Repr

/-- `tcs_private` -/
structure State where
  host : Bytes
  port : UInt16
  useSocks : Bool
  socksHost : Bytes
  socksPort : UInt16
  /-- `m_socket`, unless it is `INVALID_SOCKET` -/
  socket : Option ℕ
  useSsl : Bool
  sslActive : Bool
  sslSelfSignedOk : Bool
  fds : List ℕ
  next : ℕ
  socksOn : Option ℕ
  sslOn : Option ℕ
  deriving DecidableEq

/-- The constructor. -/
def new (host : Bytes) (port : UInt16) : State where
  host := host
  port := port
  useSocks := false
  socksHost := []
  socksPort := 0
  socket := none
  useSsl := false
  sslActive := false
  sslSelfSignedOk := false
  fds := []
  next := 0
  socksOn := none
  sslOn := none

/-! ## The environment -/

/-- How `select` ends. -/
inductive Select
  /-- there is data, or OpenSSL has some left -/
  | ready
  | timeout
  | failed
  | exception
  | unclear
  | several
  deriving DecidableEq

/-- The calls that `connect_to_ip` makes for an address. `option` is `setsockopt`, which is
only called where `SO_NOSIGPIPE` is used. -/
structure Attempt where
  socket : Bool
  option : Bool
  connect : Bool

/-- The calls of `start_SOCKS`. A `read` gives bytes or fails. -/
structure SocksEnv where
  hello : Bool
  versionReady : Select
  version : Option Bytes
  request : Bool
  replyReady : Select
  reply : Option Bytes

/-- The length of a reply, by its address type. -/
def replyLength (reply : Bytes) : Option ℕ :=
  match reply.getD 3 0 with
  | 0x01 => some 10
  | 0x03 => some (7 + (reply.getD 4 0).toNat)
  | 0x04 => some 22
  | _ => none

/-- The server has taken version 5 without authentication, and has granted the request with a
reply that came whole and ends with the tenth byte, where `start_SOCKS` stops reading. -/
def SocksEnv.granted (env : SocksEnv) : Bool :=
  env.version.any (fun data => data.take 2 == [0x05, 0x00]) &&
    env.reply.any fun data =>
      10 ≤ data.length && data.take 3 == [0x05, 0x00, 0x00] && replyLength data == some 10

/-- `SSL_get_verify_result` -/
inductive Verify
  | ok
  | selfSigned (text : Bytes)
  | error (text : Bytes)

/-- The calls of `start_SSL`. -/
structure SslEnv where
  library : Bool
  context : Bool
  connect : Bool
  verify : Verify

/-- The calls of `connect`. `resolve` is `getaddrinfo`, with the text of `gai_strerror`. -/
structure Env where
  resolve : Except Bytes (List Attempt)
  socks : SocksEnv
  ssl : SslEnv

/-! ## Reading and writing -/

variable (st : State)

/-- `connected()` -/
def connected : Bool :=
  st.socket.isSome

def runtimeError {α : Type} (what : String) : Except Error α :=
  .error (.runtimeError (ascii what))

/-- `select_read`, which returns false after the time-out. -/
def selectRead (o : Select) : Except Error Bool :=
  if !connected st then runtimeError "Not connected."
  else
    match o with
    | .ready => .ok true
    | .timeout => .ok false
    | .failed => runtimeError "Select failed."
    | .exception => runtimeError "Exception on the socket."
    | .unclear => runtimeError "Cannot find what ended select."
    | .several => runtimeError "Cannot understand the result of select."

/-- `read(data, len)` into a buffer of zeros. -/
def read (len : ℕ) (r : Option Bytes) : Except Error Bytes :=
  if !connected st then runtimeError "Not connected."
  else
    match r with
    | none => runtimeError (if st.sslActive then "SSL_read failed." else "Read failed.")
    | some data => .ok (data.take len ++ List.replicate (len - data.length) 0)

/-- `write(data, data.length)`. `sent` tells whether all went out. -/
def write (_data : Bytes) (sent : Bool) : Except Error Unit :=
  if !connected st then runtimeError "Not connected"
  else if sent then .ok ()
  else runtimeError "Write failed."

/-! ## SOCKS -/

/-- `s_SOCKS_messages` -/
def socksMessages : List (Byte × Bytes) :=
  [(0x00, ascii "succeeded"), (0x01, ascii "general SOCKS server failure"),
    (0x02, ascii "connection not allowed by ruleset"), (0x03, ascii "Network unreachable"),
    (0x04, ascii "Host unreachable"), (0x05, ascii "Connection refused"),
    (0x06, ascii "TTL expired"), (0x07, ascii "Command not supported"),
    (0x08, ascii "Address type not supported")]

/-- The first message : version 5, one method, no authentication. -/
def socksHello : Bytes :=
  [0x05, 0x01, 0x00]

/-- The request for a connection to the host. -/
def socksRequest (host : Bytes) (port : UInt16) : Bytes :=
  [0x05, 0x01, 0x00, 0x03, UInt8.ofNat host.length] ++ host ++
    [(port >>> 8).toUInt8, (port &&& 0xFF).toUInt8]

/-- `start_SOCKS` -/
def startSocks (env : SocksEnv) : Except Error Unit := do
  write st socksHello env.hello
  let _ ← selectRead st env.versionReady
  let versionSelect ← read st 2 env.version
  if versionSelect.getD 0 0 ≠ 0x05 ∨ versionSelect.getD 1 0 ≠ 0x00 then
    runtimeError "SOCKS handshake failed."
  else if st.host.length > 255 then
    .error (.invalidArgument (ascii "host name too long for SOCKS request."))
  else do
    write st (socksRequest st.host st.port) env.request
    let _ ← selectRead st env.replyReady
    let connectReply ← read st 10 env.reply
    if connectReply.getD 0 0 ≠ 0x05 ∨ connectReply.getD 2 0 ≠ 0x00 then
      runtimeError "SOCKS handshake failed."
    else if connectReply.getD 1 0 ≠ 0x00 then
      match socksMessages.lookup (connectReply.getD 2 0) with
      | some text => .error (.runtimeError text)
      | none => runtimeError "Unknown SOCKS error"
    else .ok ()

/-! ## SSL -/

/-- `start_SSL` up to its assignment of `m_ssl_active` -/
def startSsl (env : SslEnv) : Except Error Unit :=
  if !env.library then runtimeError "Failed to initialize OpenSSL."
  else if !env.context then runtimeError "Could not create SSL context."
  else if !env.connect then runtimeError "Could not establish SSL session."
  else
    match env.verify with
    | .ok => .ok ()
    | .selfSigned text => if st.sslSelfSignedOk then .ok () else .error (.runtimeError text)
    | .error text => .error (.runtimeError text)

/-! ## `connect` -/

/-- `connect_to_ip` -/
def connectToIp (a : Attempt) : Bool × State :=
  if !a.socket then (false, { st with socket := none })
  else
    let fd := st.next
    let st := { st with socket := some fd, fds := fd :: st.fds, next := fd + 1 }
    if !a.option || !a.connect then (false, { st with socket := none, fds := st.fds.erase fd })
    else (true, st)

/-- The loop over the addresses. -/
def connectAny : State → List Attempt → State
  | st, [] => st
  | st, a :: attempts =>
    let (ok, st) := connectToIp st a
    if ok then st else connectAny st attempts

/-- The SOCKS part of `connect` -/
def connectSocks (env : SocksEnv) : Except Error Unit × State :=
  if st.useSocks then
    match startSocks st env with
    | .error e => (.error e, st)
    | .ok () =>
      (.ok (), { st with socksOn := if env.granted && !st.sslActive then st.socket else none })
  else (.ok (), st)

/-- The SSL part of `connect` -/
def connectSsl (env : SslEnv) : Except Error Unit × State :=
  if st.useSsl then
    match startSsl st env with
    | .error e => (.error e, st)
    | .ok () => (.ok (), { st with sslActive := true, sslOn := st.socket })
  else (.ok (), st)

/-- What `connect` does with an open socket. -/
def handshakes (env : Env) : Except Error Unit × State :=
  match connectSocks st env.socks with
  | (.error e, st) => (.error e, st)
  | (.ok (), st) => connectSsl st env.ssl

/-- `connect()` -/
def connect (env : Env) : Except Error Unit × State :=
  match env.resolve with
  | .error text =>
    let host := if st.useSocks then st.socksHost else st.host
    (.error (.runtimeError (ascii "getaddrinfo(" ++ host ++ ascii ") failed: " ++ text)), st)
  | .ok attempts =>
    let st := connectAny st attempts
    if st.socket = none then (runtimeError "Could not connect.", st)
    else handshakes st env

/-- `disconnect()` -/
def disconnect : State :=
  { st with
    socket := none
    fds := st.socket.elim st.fds st.fds.erase }

/-- `use_SOCKS(host, port)` -/
def useSOCKS (host : Bytes) (port : UInt16) : State :=
  if host.isEmpty then { st with useSocks := false }
  else { st with useSocks := true, socksHost := host, socksPort := port }

/-- `use_SSL(self_signed_ok)` -/
def useSSL (selfSignedOk : Bool) : State :=
  { st with useSsl := true, sslSelfSignedOk := selfSignedOk }

end Tcs

end Logfile
