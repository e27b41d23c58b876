import Logfile.ClientSocket

/-!
# A connection attempt that fails

`connect` throws without closing the socket when a handshake fails, and the next attempt writes
over `m_socket`. So an attempt is all-or-nothing exactly if no handshake fails on a connection
that has been made (`allOrNothing_iff`).

`connect_thread` only repeats an attempt that has failed. `calls` are the calls of such an owner.
-/

namespace Logfile.Tcs

open Text

/-! ## What is asked of an attempt -/

/-- Connected, with every configured handshake completed on the socket. -/
structure Complete (st : State) : Prop where
  connected : connected st = true
  socks : st.useSocks = true → st.socksOn = st.socket
  ssl : st.useSsl = true → st.sslActive = true ∧ st.sslOn = st.socket

/-- The attempt ends in a complete connection, or it throws and leaves nothing open. -/
def AllOrNothing (st : State) (env : Env) : Prop :=
  match connect st env with
  | (.ok (), st') => Complete st'
  | (.error _, st') => connected st' = false ∧ st'.fds = st.fds

/-! ## When the handshakes go well -/

/-- A connection to the address is established. -/
def Attempt.established (a : Attempt) : Bool :=
  a.socket && a.option && a.connect

/-- There is a connection when the loop over the addresses ends. Without an address, `connect`
goes on with the socket it has. -/
def Env.established (st : State) (env : Env) : Prop :=
  ∃ attempts, env.resolve = .ok attempts ∧
    (attempts.any Attempt.established = true ∨ attempts = [] ∧ connected st = true)

/-- `select_read` returns. -/
def Select.returns (o : Select) : Prop :=
  o = .ready ∨ o = .timeout

/-- The SOCKS server grants the request, on the plain socket. -/
structure SocksAccepted (st : State) (env : SocksEnv) : Prop where
  plain : st.sslActive = false
  fits : st.host.length ≤ 255
  hello : env.hello = true
  versionReady : env.versionReady.returns
  request : env.request = true
  replyReady : env.replyReady.returns
  granted : env.granted = true

/-- OpenSSL makes the session, and the certificate is one that is accepted. -/
structure SslAccepted (st : State) (env : SslEnv) : Prop where
  library : env.library = true
  context : env.context = true
  connect : env.connect = true
  verify : env.verify = .ok ∨ st.sslSelfSignedOk = true ∧ ∃ text, env.verify = .selfSigned text

/-- No handshake fails on a connection that has been made, and a name that is not resolved does
not leave an earlier connection. -/
structure Settled (st : State) (env : Env) : Prop where
  resolved : ∀ text, env.resolve = .error text → connected st = false
  socks : env.established st → st.useSocks = true → SocksAccepted st env.socks
  ssl : env.established st → st.useSsl = true → SslAccepted st env.ssl

/-! ## The handshakes -/

variable {st : State} {fd : ℕ}

theorem write_eq_ok (h : st.socket = some fd) {data : Bytes} {sent : Bool} :
    write st data sent = .ok () ↔ sent = true := by
  cases sent <;> simp [write, connected, h, runtimeError]

theorem read_eq (h : st.socket = some fd) (len : ℕ) (data : Bytes) :
    read st len (some data) = .ok (data.take len ++ List.replicate (len - data.length) 0) := by
  simp [read, connected, h]

theorem selectRead_eq_ok (h : st.socket = some fd) {o : Select} :
    (∃ b, selectRead st o = .ok b) ↔ o.returns := by
  cases o <;> simp [selectRead, connected, h, Select.returns, runtimeError]

/-- What the server has to send. -/
theorem SocksEnv.granted_iff {env : SocksEnv} :
    env.granted = true ↔
      (∃ more, env.version = some (0x05 :: 0x00 :: more)) ∧
        ∃ more, env.reply = some (0x05 :: 0x00 :: 0x00 :: more) ∧ 7 ≤ more.length ∧
          replyLength (0x05 :: 0x00 :: 0x00 :: more) = some 10 := by
  have htwo (data : Bytes) : data.take 2 = [0x05, 0x00] ↔ ∃ more, data = 0x05 :: 0x00 :: more := by
    rcases data with _ | ⟨a, _ | ⟨b, more⟩⟩ <;> simp
  have hthree (data : Bytes) :
      data.take 3 = [0x05, 0x00, 0x00] ↔ ∃ more, data = 0x05 :: 0x00 :: 0x00 :: more := by
    rcases data with _ | ⟨a, _ | ⟨b, _ | ⟨c, more⟩⟩⟩ <;> simp
  simp only [SocksEnv.granted, Bool.and_eq_true, Option.any_eq_true, beq_iff_eq, decide_eq_true_eq]
  refine and_congr ⟨?_, ?_⟩ ⟨?_, ?_⟩
  · rintro ⟨data, hdata, hfirst⟩
    obtain ⟨more, rfl⟩ := (htwo data).1 hfirst
    exact ⟨more, hdata⟩
  · rintro ⟨more, hdata⟩
    exact ⟨_, hdata, (htwo _).2 ⟨more, rfl⟩⟩
  · rintro ⟨data, hdata, ⟨hlen, hfirst⟩, hwhole⟩
    obtain ⟨more, rfl⟩ := (hthree data).1 hfirst
    exact ⟨more, hdata, by simpa using hlen, hwhole⟩
  · rintro ⟨more, hdata, hlen, hwhole⟩
    exact ⟨_, hdata, ⟨by simpa using hlen, (hthree _).2 ⟨more, rfl⟩⟩, hwhole⟩

/-- A SOCKS exchange that returns has made all its calls. -/
theorem called_of_startSocks (h : st.socket = some fd) {env : SocksEnv}
    (hok : startSocks st env = .ok ()) :
    env.hello = true ∧ env.versionReady.returns ∧ st.host.length ≤ 255 ∧ env.request = true ∧
      env.replyReady.returns := by
  simp only [startSocks, bind_eq_ok] at hok
  obtain ⟨_, hhello, b, hversion, versionSelect, -, hok⟩ := hok
  split at hok
  · cases hok
  · split at hok
    · cases hok
    · next hfits =>
      simp only [bind_eq_ok] at hok
      obtain ⟨_, hrequest, b', hreply, -⟩ := hok
      exact ⟨(write_eq_ok h).1 hhello, (selectRead_eq_ok h).1 ⟨b, hversion⟩, not_lt.1 hfits,
        (write_eq_ok h).1 hrequest, (selectRead_eq_ok h).1 ⟨b', hreply⟩⟩

theorem SocksAccepted.startSocks (h : st.socket = some fd) {env : SocksEnv}
    (ha : SocksAccepted st env) : startSocks st env = .ok () := by
  obtain ⟨⟨more, hversion⟩, rest, hreply, -, -⟩ := SocksEnv.granted_iff.1 ha.granted
  obtain ⟨b, hb⟩ := (selectRead_eq_ok h).2 ha.versionReady
  obtain ⟨b', hb'⟩ := (selectRead_eq_ok h).2 ha.replyReady
  simp only [Tcs.startSocks, (write_eq_ok h).2 ha.hello, (write_eq_ok h).2 ha.request, hb, hb',
    hversion, hreply, read_eq h, ok_bind]
  simp [ha.fits]

/-- The exchange returns after a granted request exactly if every call went well. -/
theorem socksAccepted_iff (h : st.socket = some fd) {env : SocksEnv} :
    SocksAccepted st env ↔
      Tcs.startSocks st env = .ok () ∧ (env.granted && !st.sslActive) = true := by
  simp only [Bool.and_eq_true, Bool.not_eq_true']
  constructor
  · exact fun ha => ⟨ha.startSocks h, ha.granted, ha.plain⟩
  · rintro ⟨hok, hgranted, hplain⟩
    obtain ⟨hhello, hversion, hfits, hrequest, hreply⟩ := called_of_startSocks h hok
    exact ⟨hplain, hfits, hhello, hversion, hrequest, hreply, hgranted⟩

theorem startSsl_eq_ok {env : SslEnv} : startSsl st env = .ok () ↔ SslAccepted st env := by
  constructor
  · intro hok
    unfold startSsl at hok
    split at hok
    · cases hok
    next hlibrary =>
    split at hok
    · cases hok
    next hcontext =>
    split at hok
    · cases hok
    next hconnect =>
    refine ⟨by simpa using hlibrary, by simpa using hcontext, by simpa using hconnect, ?_⟩
    cases hv : env.verify with
    | ok => exact Or.inl rfl
    | selfSigned text =>
      rw [hv] at hok
      cases hs : st.sslSelfSignedOk with
      | true => exact Or.inr ⟨rfl, text, rfl⟩
      | false => simp [hs] at hok
    | error text =>
      rw [hv] at hok
      cases hok
  · rintro ⟨hlibrary, hcontext, hconnect, hv | ⟨hs, text, hv⟩⟩
    · simp [startSsl, hlibrary, hcontext, hconnect, hv]
    · simp [startSsl, hlibrary, hcontext, hconnect, hv, hs]

/-! ## The addresses -/

theorem connectToIp_established {a : Attempt} (h : a.established = true) :
    connectToIp st a = (true,
      { st with socket := some st.next, fds := st.next :: st.fds, next := st.next + 1 }) := by
  simp only [Attempt.established, Bool.and_eq_true] at h
  simp [connectToIp, h.1.1, h.1.2, h.2]

theorem connectToIp_refused {a : Attempt} (h : a.established = false) :
    ∃ n, connectToIp st a = (false, { st with socket := none, next := n }) := by
  cases hs : a.socket with
  | false => exact ⟨st.next, by simp [connectToIp, hs]⟩
  | true =>
    have hrefused : (!a.option || !a.connect) = true := by
      rw [Attempt.established, hs, Bool.true_and] at h
      rw [← Bool.not_and, h, Bool.not_false]
    exact ⟨st.next + 1, by simp [connectToIp, hs, hrefused]⟩

/-- The first address that answers gives the one descriptor that stays open. -/
theorem connectAny_established : ∀ {st : State} {attempts : List Attempt},
    attempts.any Attempt.established = true → ∃ fd n, connectAny st attempts =
      { st with socket := some fd, fds := fd :: st.fds, next := n }
  | _, [], h => by simp at h
  | st, a :: attempts, h => by
    cases ha : a.established with
    | true => exact ⟨st.next, st.next + 1, by simp [connectAny, connectToIp_established ha]⟩
    | false =>
      obtain ⟨n, hn⟩ := @connectToIp_refused st a ha
      have hrest : attempts.any Attempt.established = true := by simpa [ha] using h
      obtain ⟨fd, n', heq⟩ :=
        @connectAny_established { st with socket := none, next := n } attempts hrest
      exact ⟨fd, n', by simp [connectAny, hn, heq]⟩

/-- Without an answer, every descriptor is closed again. -/
theorem connectAny_refused : ∀ {st : State} {attempts : List Attempt}, attempts ≠ [] →
    attempts.any Attempt.established = false →
      ∃ n, connectAny st attempts = { st with socket := none, next := n }
  | _, [], hne, _ => absurd rfl hne
  | st, a :: attempts, _, h => by
    rw [List.any_cons, Bool.or_eq_false_iff] at h
    obtain ⟨n, hn⟩ := @connectToIp_refused st a h.1
    cases attempts with
    | nil => exact ⟨n, by simp [connectAny, hn]⟩
    | cons a' attempts =>
      obtain ⟨n', heq⟩ := @connectAny_refused { st with socket := none, next := n }
        (a' :: attempts) (List.cons_ne_nil _ _) h.2
      refine ⟨n', ?_⟩
      rw [connectAny, hn]
      exact heq

/-! ## One attempt -/

theorem SocksAccepted.congr {st' : State} {env : SocksEnv} (h : SocksAccepted st env)
    (hhost : st'.host = st.host) (hactive : st'.sslActive = st.sslActive) :
    SocksAccepted st' env :=
  ⟨hactive.trans h.plain, hhost ▸ h.fits, h.hello, h.versionReady, h.request, h.replyReady,
    h.granted⟩

theorem SslAccepted.congr {st' : State} {env : SslEnv} (h : SslAccepted st env)
    (hok : st'.sslSelfSignedOk = st.sslSelfSignedOk) : SslAccepted st' env :=
  ⟨h.library, h.context, h.connect, hok ▸ h.verify⟩

variable {env : Env} {attempts : List Attempt}

/-- The handshakes begin on an open socket, the only one that was opened and not closed. -/
theorem opened_of_established (h : env.established st) : ∃ attempts fd fds n,
    env.resolve = .ok attempts ∧
      connectAny st attempts = { st with socket := some fd, fds := fds, next := n } ∧
        (connected st = false → fds = fd :: st.fds) := by
  obtain ⟨attempts, hresolve, hany | ⟨rfl, hconnected⟩⟩ := h
  · obtain ⟨fd, n, heq⟩ := connectAny_established hany
    exact ⟨attempts, fd, _, n, hresolve, heq, fun _ => rfl⟩
  · obtain ⟨fd, hfd⟩ := Option.isSome_iff_exists.1 hconnected
    refine ⟨[], fd, st.fds, st.next, hresolve, ?_, fun hnot => ?_⟩
    · rw [connectAny, ← hfd]
    · rw [hconnected] at hnot
      cases hnot

/-- Otherwise nothing that was opened is left. -/
theorem closed_of_not_established (hresolve : env.resolve = .ok attempts)
    (h : ¬env.established st) :
    ∃ n, connectAny st attempts = { st with socket := none, next := n } := by
  cases attempts with
  | nil =>
    have hnone : st.socket = none := by
      by_contra hsome
      exact h ⟨[], hresolve, Or.inr ⟨rfl, Option.isSome_iff_ne_none.2 hsome⟩⟩
    exact ⟨st.next, by rw [connectAny, ← hnone]⟩
  | cons a attempts =>
    refine connectAny_refused (List.cons_ne_nil _ _) (Bool.eq_false_iff.2 fun hany => ?_)
    exact h ⟨_, hresolve, Or.inl hany⟩

/-! ## All or nothing -/

section Handshakes

variable {socks : SocksEnv} {ssl : SslEnv}

theorem connectSocks_snd (st : State) (env : SocksEnv) :
    ∃ o, (connectSocks st env).2 = { st with socksOn := o } := by
  unfold connectSocks
  split
  · split
    · exact ⟨st.socksOn, rfl⟩
    · exact ⟨_, rfl⟩
  · exact ⟨st.socksOn, rfl⟩

theorem connectSsl_snd (st : State) (env : SslEnv) :
    ∃ b o, (connectSsl st env).2 = { st with sslActive := b, sslOn := o } := by
  unfold connectSsl
  split
  · split
    · exact ⟨st.sslActive, st.sslOn, rfl⟩
    · exact ⟨_, _, rfl⟩
  · exact ⟨st.sslActive, st.sslOn, rfl⟩

theorem connectSocks_iff (h : st.socket = some fd) :
    ((connectSocks st socks).1 = .ok () ∧
        (st.useSocks = true → (connectSocks st socks).2.socksOn = st.socket)) ↔
      (st.useSocks = true → SocksAccepted st socks) := by
  unfold connectSocks
  split
  · next huse =>
    rw [socksAccepted_iff h]
    cases hstart : startSocks st socks with
    | error e => simp [huse]
    | ok u => cases socks.granted && !st.sslActive <;> simp [huse, h]
  · next huse => simp [huse]

theorem connectSsl_iff :
    ((connectSsl st ssl).1 = .ok () ∧ (st.useSsl = true →
        (connectSsl st ssl).2.sslActive = true ∧ (connectSsl st ssl).2.sslOn = st.socket)) ↔
      (st.useSsl = true → SslAccepted st ssl) := by
  unfold connectSsl
  split
  · next huse =>
    rw [← startSsl_eq_ok]
    cases hstart : startSsl st ssl with
    | error e => simp [huse]
    | ok u => simp [huse]
  · next huse => simp [huse]

end Handshakes

/-- The handshakes neither open nor close anything, and both are complete exactly if the SOCKS
server and OpenSSL accept. -/
theorem handshakes_iff (h : st.socket = some fd) :
    (handshakes st env).2.socket = some fd ∧ (handshakes st env).2.fds = st.fds ∧
      ((handshakes st env).1 = .ok () ∧ Complete (handshakes st env).2 ↔
        (st.useSocks = true → SocksAccepted st env.socks) ∧
          (st.useSsl = true → SslAccepted st env.ssl)) := by
  have hsocks := @connectSocks_iff st fd env.socks h
  obtain ⟨o, ho⟩ := connectSocks_snd st env.socks
  unfold handshakes
  cases h₁ : connectSocks st env.socks with
  | mk r st₁ =>
  rw [h₁] at hsocks ho
  simp only at hsocks ho
  cases r with
  | error e =>
    simp only [reduceCtorEq, false_and, false_iff] at hsocks ⊢
    exact ⟨by rw [ho, h], by rw [ho], fun hboth => hsocks hboth.1⟩
  | ok u =>
    have hssl := @connectSsl_iff st₁ env.ssl
    obtain ⟨b, o', ho'⟩ := connectSsl_snd st₁ env.ssl
    have hsame : SslAccepted st₁ env.ssl ↔ SslAccepted st env.ssl := by
      constructor
      · exact fun ha => ha.congr (by rw [ho])
      · exact fun ha => ha.congr (by rw [ho])
    cases h₂ : connectSsl st₁ env.ssl with
    | mk r₂ st₂ =>
    rw [h₂] at hssl ho'
    simp only [hsame] at hssl ho'
    simp only [true_and] at hsocks
    simp only [h₂]
    have hsocket : st₂.socket = st.socket := by rw [ho', ho]
    have huse : st₂.useSocks = st.useSocks := by rw [ho', ho]
    have hon : st₂.socksOn = st₁.socksOn := by rw [ho']
    have huse' : st₂.useSsl = st.useSsl := by rw [ho', ho]
    rw [show st₁.useSsl = st.useSsl by rw [ho], show st₁.socket = st.socket by rw [ho]] at hssl
    refine ⟨hsocket.trans h, by rw [ho', ho], ?_⟩
    rw [← hsocks, ← hssl]
    constructor
    · rintro ⟨hok, hcomplete⟩
      refine ⟨fun hu => ?_, hok, fun hu => ?_⟩
      · rw [← hon, ← hsocket]
        exact hcomplete.socks (huse.trans hu)
      · rw [← hsocket]
        exact hcomplete.ssl (huse'.trans hu)
    · rintro ⟨hs, hok, hl⟩
      refine ⟨hok, ⟨?_, fun hu => ?_, fun hu => ?_⟩⟩
      · rw [connected, hsocket, h, Option.isSome_some]
      · rw [hon, hsocket]
        exact hs (huse.symm.trans hu)
      · rw [hsocket]
        exact hl (huse'.symm.trans hu)

/-- An attempt that gets as far as the handshakes ends with its socket open, and is
all-or-nothing exactly if they go well. -/
theorem connect_established (h : env.established st) :
    (∃ fd, (connect st env).2.socket = some fd ∧
        (connected st = false → (connect st env).2.fds = fd :: st.fds)) ∧
      (AllOrNothing st env ↔ (st.useSocks = true → SocksAccepted st env.socks) ∧
        (st.useSsl = true → SslAccepted st env.ssl)) := by
  obtain ⟨attempts, fd, fds, n, hresolve, heq, hfds⟩ := opened_of_established h
  generalize hopen : { st with socket := some fd, fds := fds, next := n } = opened at heq
  have hsocket : opened.socket = some fd := by rw [← hopen]
  have hconnect : connect st env = handshakes opened env := by
    simp [connect, hresolve, heq, hsocket]
  obtain ⟨hsocket', hfds', hiff⟩ := @handshakes_iff opened fd env hsocket
  have hsocks : SocksAccepted opened env.socks ↔ SocksAccepted st env.socks := by
    constructor
    · exact fun ha => ha.congr (by rw [← hopen]) (by rw [← hopen])
    · exact fun ha => ha.congr (by rw [← hopen]) (by rw [← hopen])
  have hssl : SslAccepted opened env.ssl ↔ SslAccepted st env.ssl := by
    constructor
    · exact fun ha => ha.congr (by rw [← hopen])
    · exact fun ha => ha.congr (by rw [← hopen])
  rw [hsocks, hssl, show opened.useSocks = st.useSocks by rw [← hopen],
    show opened.useSsl = st.useSsl by rw [← hopen]] at hiff
  unfold AllOrNothing
  rw [hconnect]
  refine ⟨⟨fd, hsocket', fun hnot => ?_⟩, ?_⟩
  · rw [hfds', ← hopen]
    exact hfds hnot
  · rw [← hiff]
    cases hd : handshakes opened env with
    | mk r st' =>
      rw [hd] at hsocket'
      cases r with
      | error e => simp [connected, show st'.socket = some fd from hsocket']
      | ok u => simp

/-- An attempt that does not get so far leaves nothing behind, unless an earlier connection is
still open and the name is not resolved. -/
theorem connect_not_established (h : ¬env.established st) :
    AllOrNothing st env ↔ ∀ text, env.resolve = .error text → connected st = false := by
  cases hresolve : env.resolve with
  | error text => simp [AllOrNothing, connect, hresolve]
  | ok attempts =>
    obtain ⟨n, heq⟩ := closed_of_not_established hresolve h
    simp [AllOrNothing, connect, hresolve, heq, connected, runtimeError]

theorem allOrNothing_iff (st : State) (env : Env) : AllOrNothing st env ↔ Settled st env := by
  by_cases h : env.established st
  · rw [(connect_established h).2]
    constructor
    · rintro ⟨hsocks, hssl⟩
      refine ⟨fun text htext => ?_, fun _ => hsocks, fun _ => hssl⟩
      obtain ⟨attempts, hresolve, -⟩ := h
      rw [hresolve] at htext
      cases htext
    · exact fun hs => ⟨hs.socks h, hs.ssl h⟩
  · rw [connect_not_established h]
    exact ⟨fun hr => ⟨hr, fun h' => absurd h' h, fun h' => absurd h' h⟩, Settled.resolved⟩

/-- What an attempt has opened is closed again, or it is the socket. -/
theorem connect_fds (env : Env) (h : connected st = false) :
    (connect st env).2.fds = (connect st env).2.socket.toList ++ st.fds := by
  have hnone : st.socket = none := by simpa [connected] using h
  by_cases hest : env.established st
  · obtain ⟨fd, hfd, hfds⟩ := (connect_established hest).1
    rw [hfd, hfds h]
    rfl
  · cases hresolve : env.resolve with
    | error text => simp [connect, hresolve, hnone]
    | ok attempts =>
      obtain ⟨n, heq⟩ := closed_of_not_established hresolve hest
      simp [connect, hresolve, heq]

/-! ## Attempts that are repeated -/

/-- The object with its owner. `up` : the last `connect` has succeeded, and the connection has
not been given up since. -/
structure Owner where
  st : State
  up : Bool

inductive Call
  | connect (env : Env)
  | disconnect
  | useSOCKS (host : Bytes) (port : UInt16)
  | useSSL (selfSignedOk : Bool)

/-- One call. Only an attempt that has failed is repeated. -/
def Owner.step (o : Owner) : Call → Option Owner
  | .connect env =>
    if o.up then none else some ⟨(Tcs.connect o.st env).2, (Tcs.connect o.st env).1.isOk⟩
  | .disconnect => some ⟨Tcs.disconnect o.st, false⟩
  | .useSOCKS host port => some { o with st := Tcs.useSOCKS o.st host port }
  | .useSSL selfSignedOk => some { o with st := Tcs.useSSL o.st selfSignedOk }

/-- The calls on a new socket. -/
def calls (host : Bytes) (port : UInt16) : System Owner Call where
  init o := o = ⟨new host port, false⟩
  step := Owner.step

/-- No attempt meets a handshake that fails on a connection that has been made. -/
def SettledCall (o : Owner) (c : Call) : Prop :=
  ∀ env, c = .connect env → Settled o.st env

/-- What is open is the socket, and it is open only after a success. -/
structure Single (o : Owner) : Prop where
  fds : o.st.fds = o.st.socket.toList
  up : connected o.st = true → o.up = true

theorem Single.step {o o' : Owner} {c : Call} (hs : Single o) (hc : SettledCall o c)
    (h : o.step c = some o') : Single o' := by
  cases c with
  | connect env =>
    simp only [Owner.step, Option.ite_none_left_eq_some, Option.some.injEq] at h
    obtain ⟨hup, rfl⟩ := h
    have hoff : connected o.st = false := by
      rw [Bool.eq_false_iff]
      exact fun hon => hup (hs.up hon)
    have hnone : o.st.socket = none := by simpa [connected] using hoff
    refine ⟨?_, fun hon => ?_⟩
    · rw [connect_fds env hoff, hs.fds, hnone]
      simp
    · have hall := (allOrNothing_iff o.st env).2 (hc env rfl)
      unfold AllOrNothing at hall
      cases hr : Tcs.connect o.st env with
      | mk r st' =>
        rw [hr] at hall hon
        cases r with
        | error e => exact absurd hon (by simp [hall.1])
        | ok u => rfl
  | disconnect =>
    obtain rfl := Option.some.inj h
    refine ⟨?_, fun hon => absurd hon (by simp [Tcs.disconnect, connected])⟩
    cases hsocket : o.st.socket with
    | none => simp [Tcs.disconnect, hs.fds, hsocket]
    | some fd => simp [Tcs.disconnect, hs.fds, hsocket]
  | useSOCKS host port =>
    obtain rfl := Option.some.inj h
    have hkept : (Tcs.useSOCKS o.st host port).fds = o.st.fds ∧
        (Tcs.useSOCKS o.st host port).socket = o.st.socket := by
      unfold Tcs.useSOCKS
      split
      · exact ⟨rfl, rfl⟩
      · exact ⟨rfl, rfl⟩
    refine ⟨?_, fun hon => hs.up ?_⟩
    · rw [hkept.1, hkept.2, hs.fds]
    · rwa [connected, hkept.2] at hon
  | useSSL selfSignedOk =>
    obtain rfl := Option.some.inj h
    exact ⟨hs.fds, hs.up⟩

theorem single_of_reach {host : Bytes} {port : UInt16} {o : Owner}
    (h : (calls host port).Reach SettledCall o) : Single o := by
  refine h.invariant ?_ fun _ _ _ _ hs hc hstep => hs.step hc hstep
  rintro o rfl
  exact ⟨rfl, fun hon => absurd hon (by simp [connected, new])⟩

/-- An attempt is all-or-nothing exactly if it settles its handshakes, and while the attempts
do, their owner has at most one descriptor. -/
theorem connect_allOrNothing (st : State) (env : Env) (host : Bytes) (port : UInt16) :
    (AllOrNothing st env ↔ Settled st env) ∧
      ∀ o : Owner, (calls host port).Reach SettledCall o → o.st.fds.length ≤ 1 := by
  refine ⟨allOrNothing_iff st env, fun o h => ?_⟩
  rw [(single_of_reach h).fds]
  cases o.st.socket <;> simp

/-! ## A SOCKS server that refuses -/

/-- A server at the second of two addresses. -/
def someAttempts : List Attempt :=
  [⟨true, true, false⟩, ⟨true, true, true⟩]

/-- The SOCKS server asks for a method that is not offered. -/
def refusingEnv : Env where
  resolve := .ok someAttempts
  socks :=
    { hello := true
      versionReady := .ready
      version := some [0x05, 0xFF]
      request := true
      replyReady := .ready
      reply := none }
  ssl := ⟨true, true, true, .ok⟩

/-- The SOCKS server grants the request. -/
def grantingEnv : Env :=
  { refusingEnv with
    socks :=
      { refusingEnv.socks with
        version := some [0x05, 0x00]
        reply := some [0x05, 0x00, 0x00, 0x01, 0, 0, 0, 0, 0, 0] } }

/-- A socket that is to connect through a SOCKS server. -/
def viaSocks : State :=
  useSOCKS (new (ascii "broker") 61613) (ascii "proxy") 1080

/-- The refused attempt leaves its descriptor open, and the next one opens another. -/
theorem refused_keeps_socket :
    (¬∀ st env, connected st = false → AllOrNothing st env) ∧
      ¬∀ (host : Bytes) (port : UInt16) (o : Owner),
        (calls host port).Reachable o → o.st.fds.length ≤ 1 := by
  constructor
  · intro h
    have hclosed : connected (connect viaSocks refusingEnv).2 = false :=
      (h viaSocks refusingEnv rfl).1
    cases hclosed
  · intro h
    obtain ⟨o, hreach, ho⟩ := System.exists_reach (T := calls (ascii "broker") 61613)
      (b := fun _ _ => true) (p := fun _ _ => True) (fun _ _ _ => trivial) rfl
      [.useSOCKS (ascii "proxy") 1080, .connect refusingEnv, .connect refusingEnv]
      (fun o => o.st.fds.length == 2) rfl
    have hone := h _ _ o hreach
    rw [beq_iff_eq.1 ho] at hone
    omega

theorem settled_granting (st : State) (hplain : st.sslActive = false)
    (hfits : st.host.length ≤ 255) : Settled st grantingEnv where
  resolved text h := by cases h
  socks _ _ := ⟨hplain, hfits, rfl, Or.inl rfl, rfl, Or.inl rfl, rfl⟩
  ssl _ _ := ⟨rfl, rfl, rfl, Or.inl rfl⟩

theorem connect_allOrNothing_granted :
    AllOrNothing viaSocks grantingEnv ∧
      (⟨(connect viaSocks grantingEnv).2, true⟩ : Owner).st.fds.length ≤ 1 := by
  have hsettled : Settled viaSocks grantingEnv := settled_granting viaSocks rfl (by decide)
  have hnew : (calls (ascii "broker") 61613).Reach SettledCall
      ⟨new (ascii "broker") 61613, false⟩ :=
    .init rfl
  have hsocks : (calls (ascii "broker") 61613).Reach SettledCall ⟨viaSocks, false⟩ :=
    hnew.step (a := .useSOCKS (ascii "proxy") 1080) (fun _ h => by cases h) rfl
  have hall := connect_allOrNothing viaSocks grantingEnv (ascii "broker") 61613
  refine ⟨hall.1.2 hsettled, hall.2 _ ?_⟩
  refine hsocks.step (a := .connect grantingEnv) (fun env h => ?_) rfl
  obtain rfl := Call.connect.inj h
  exact hsettled

end Logfile.Tcs
