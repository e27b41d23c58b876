import Logfile.SocketConnect

/-!
# The SSL state and its socket

`m_ssl_active` is set at the end of `start_SSL` and never cleared. So it belongs to the socket
as long as the socket is not given up : the calls that keep it so are those that meet `Renewable`
(`ssl_belongs`).

`moments` are the states of a call after each assignment, with the place where `connect` stands.
A record that is left active is used for the SOCKS exchange on the next socket
(`socks_through_ssl`).
-/

namespace Logfile.Tcs

open Text

/-! ## The states inside a call -/

/-- Where `connect` stands. -/
inductive Place
  | connectToIp
  | startSocks
  | startSsl
  | returned
  deriving DecidableEq

/-- The states of `connect_to_ip`. -/
def attemptStates (st : State) (a : Attempt) : List State :=
  if !a.socket then [{ st with socket := none }]
  else
    let fd := st.next
    let st := { st with socket := some fd, fds := fd :: st.fds, next := fd + 1 }
    if !a.option || !a.connect then [st, { st with socket := none, fds := st.fds.erase fd }]
    else [st]

/-- The states of the loop over the addresses. -/
def addressStates : State → List Attempt → List State
  | _, [] => []
  | st, a :: attempts =>
    attemptStates st a ++
      if (connectToIp st a).1 then [] else addressStates (connectToIp st a).2 attempts

/-- The states of the handshakes. `start_SOCKS` assigns nothing, and `start_SSL` only at its
end. -/
def handshakeMoments (st : State) (env : Env) : List (Place × State) :=
  (if st.useSocks then [(.startSocks, st)] else []) ++
    match connectSocks st env.socks with
    | (.error _, _) => []
    | (.ok (), st) =>
      (if st.useSsl then [(.startSsl, st)] else []) ++ [(.returned, (connectSsl st env.ssl).2)]

/-- The states of `connect`. -/
def connectMoments (st : State) (env : Env) : List (Place × State) :=
  match env.resolve with
  | .error _ => []
  | .ok attempts =>
    (addressStates st attempts).map (Place.connectToIp, ·) ++
      if (connectAny st attempts).socket = none then []
      else handshakeMoments (connectAny st attempts) env

/-- The states of a call. -/
def moments (st : State) : Call → List (Place × State)
  | .connect env => connectMoments st env
  | .disconnect => [(.returned, disconnect st)]
  | .useSOCKS host port => [(.returned, useSOCKS st host port)]
  | .useSSL selfSignedOk => [(.returned, useSSL st selfSignedOk)]

/-- The state after a call. -/
def after (st : State) : Call → State
  | .connect env => (connect st env).2
  | .disconnect => disconnect st
  | .useSOCKS host port => useSOCKS st host port
  | .useSSL selfSignedOk => useSSL st selfSignedOk

/-- All calls on a new socket. -/
def anyCalls (host : Bytes) (port : UInt16) : System State Call where
  init st := st = new host port
  step st c := some (after st c)

/-! ## What is asked of them -/

/-- `m_ssl_active` tells of a handshake on the very socket. -/
def SslBelongs (st : State) : Prop :=
  st.sslActive = true → ∃ fd, st.socket = some fd ∧ st.sslOn = some fd

/-- And the SOCKS exchange uses the plain socket. -/
structure Belongs (m : Place × State) : Prop where
  ssl : SslBelongs m.2
  plain : m.1 = .startSocks → m.2.sslActive = false

/-- The socket is given up by the call, or a SOCKS exchange starts. -/
def GivesUp (st : State) : Call → Prop
  | .connect env => ∃ attempts, env.resolve = .ok attempts ∧ (attempts ≠ [] ∨ st.useSocks = true)
  | .disconnect => True
  | .useSOCKS _ _ => False
  | .useSSL _ => False

/-- No socket with an SSL session is given up. -/
def Renewable (st : State) (c : Call) : Prop :=
  GivesUp st c → st.sslActive = false

/-! ## The last state -/

theorem attemptStates_getLast (st : State) (a : Attempt) :
    (attemptStates st a).getLast? = some (connectToIp st a).2 := by
  unfold attemptStates connectToIp
  split
  · rfl
  · dsimp only
    split
    · rfl
    · rfl

theorem connectAny_cons (st : State) (a : Attempt) (attempts : List Attempt) :
    connectAny st (a :: attempts) =
      if (connectToIp st a).1 then (connectToIp st a).2
      else connectAny (connectToIp st a).2 attempts := rfl

theorem addressStates_getLast : ∀ (st : State) (attempts : List Attempt),
    (addressStates st attempts).getLast?.getD st = connectAny st attempts
  | _, [] => rfl
  | st, a :: attempts => by
    have ih := addressStates_getLast (connectToIp st a).2 attempts
    rw [addressStates, List.getLast?_append, attemptStates_getLast, connectAny_cons]
    by_cases hok : (connectToIp st a).1 = true
    · rw [if_pos hok, if_pos hok]
      rfl
    · rw [if_neg hok, if_neg hok, ← ih]
      cases (addressStates (connectToIp st a).2 attempts).getLast? with
      | none => rfl
      | some s => rfl

theorem handshakeMoments_getLast (st : State) (env : Env) :
    ((handshakeMoments st env).getLast?.map Prod.snd).getD st = (handshakes st env).2 := by
  unfold handshakeMoments handshakes connectSocks
  rw [List.getLast?_append]
  by_cases huse : st.useSocks = true
  · rw [if_pos huse, if_pos huse]
    cases startSocks st env.socks with
    | error e => rfl
    | ok u => simp [List.getLast?_append]
  · rw [if_neg huse, if_neg huse]
    simp [List.getLast?_append]

theorem connectMoments_getLast (st : State) (env : Env) :
    ((connectMoments st env).getLast?.map Prod.snd).getD st = (connect st env).2 := by
  cases hresolve : env.resolve with
  | error text => simp [connectMoments, connect, hresolve]
  | ok attempts =>
    have haddress := addressStates_getLast st attempts
    have hhandshakes := handshakeMoments_getLast (connectAny st attempts) env
    simp only [connectMoments, connect, hresolve, List.getLast?_append, List.getLast?_map]
    by_cases hnone : (connectAny st attempts).socket = none
    · rw [if_pos hnone, if_pos hnone, ← haddress]
      cases (addressStates st attempts).getLast? with
      | none => rfl
      | some s => rfl
    · rw [if_neg hnone, if_neg hnone, ← hhandshakes]
      cases (handshakeMoments (connectAny st attempts) env).getLast? with
      | none =>
        rw [← haddress]
        cases (addressStates st attempts).getLast? with
        | none => rfl
        | some s => rfl
      | some m => rfl

/-- The last of the states is the one after the call. -/
theorem moments_getLast (st : State) (c : Call) :
    ((moments st c).getLast?.map Prod.snd).getD st = after st c := by
  cases c with
  | connect env => exact connectMoments_getLast st env
  | disconnect => rfl
  | useSOCKS host port => rfl
  | useSSL selfSignedOk => rfl

/-! ## One call -/

/-- Only the socket differs, and the numbers given to descriptors only grow. -/
structure Opened (st st' : State) : Prop where
  sslActive : st'.sslActive = st.sslActive
  sslOn : st'.sslOn = st.sslOn
  useSocks : st'.useSocks = st.useSocks
  next : st.next ≤ st'.next
  socket : ∀ fd, st'.socket = some fd → st.next ≤ fd ∧ fd < st'.next

theorem Opened.trans {st st' st'' : State} (h : Opened st st') (h' : Opened st' st'') :
    Opened st st'' where
  sslActive := h'.sslActive.trans h.sslActive
  sslOn := h'.sslOn.trans h.sslOn
  useSocks := h'.useSocks.trans h.useSocks
  next := h.next.trans h'.next
  socket fd hfd := ⟨h.next.trans (h'.socket fd hfd).1, (h'.socket fd hfd).2⟩

theorem opened_of_attempt {st s : State} {a : Attempt} (h : s ∈ attemptStates st a) :
    Opened st s := by
  unfold attemptStates at h
  dsimp only at h
  split_ifs at h
  · obtain rfl := List.mem_singleton.1 h
    exact ⟨rfl, rfl, rfl, le_rfl, fun fd hfd => by cases hfd⟩
  · rcases List.mem_pair.1 h with rfl | rfl
    · exact ⟨rfl, rfl, rfl, Nat.le_succ _, fun fd hfd => by
        cases hfd; exact ⟨le_rfl, Nat.lt_succ_self _⟩⟩
    · exact ⟨rfl, rfl, rfl, Nat.le_succ _, fun fd hfd => by cases hfd⟩
  · obtain rfl := List.mem_singleton.1 h
    exact ⟨rfl, rfl, rfl, Nat.le_succ _, fun fd hfd => by
      cases hfd; exact ⟨le_rfl, Nat.lt_succ_self _⟩⟩

theorem opened_of_connectToIp (st : State) (a : Attempt) : Opened st (connectToIp st a).2 :=
  opened_of_attempt (List.mem_of_getLast? (attemptStates_getLast st a))

theorem opened_of_addresses : ∀ {st s : State} {attempts : List Attempt},
    s ∈ addressStates st attempts → Opened st s
  | _, _, [], h => by cases h
  | st, s, a :: attempts, h => by
    rw [addressStates, List.mem_append] at h
    rcases h with h | h
    · exact opened_of_attempt h
    · split_ifs at h
      · cases h
      · exact (opened_of_connectToIp st a).trans (opened_of_addresses h)

theorem connectAny_mem {st : State} {attempts : List Attempt} (h : attempts ≠ []) :
    connectAny st attempts ∈ addressStates st attempts := by
  have hlast := addressStates_getLast st attempts
  obtain ⟨a, attempts, rfl⟩ := List.exists_cons_of_ne_nil h
  cases hstates : (addressStates st (a :: attempts)).getLast? with
  | none =>
    rw [addressStates, List.getLast?_append, attemptStates_getLast] at hstates
    cases hmore : (if (connectToIp st a).1 then []
        else addressStates (connectToIp st a).2 attempts).getLast? with
    | none => cases hmore ▸ hstates
    | some s => cases hmore ▸ hstates
  | some s =>
    rw [hstates] at hlast
    exact hlast ▸ List.mem_of_getLast? hstates

/-- A call ends in one of its states, or it changes nothing. -/
theorem after_mem (st : State) (c : Call) :
    after st c = st ∨ ∃ m ∈ moments st c, m.2 = after st c := by
  rw [← moments_getLast st c]
  cases hlast : (moments st c).getLast? with
  | none => exact .inl rfl
  | some m => exact .inr ⟨m, List.mem_of_getLast? hlast, rfl⟩

/-! ## The handshakes -/

theorem connectSsl_state (st : State) (env : SslEnv) :
    (connectSsl st env).2 = st ∨
      (connectSsl st env).2 = { st with sslActive := true, sslOn := st.socket } := by
  unfold connectSsl
  split
  · split
    · exact .inl rfl
    · exact .inr rfl
  · exact .inl rfl

/-- The handshakes keep the socket, and a session that they make is on it. -/
theorem handshakeMoments_mem {st : State} {env : Env} {m : Place × State}
    (h : m ∈ handshakeMoments st env) :
    m.2.socket = st.socket ∧ m.2.next = st.next ∧
      (m.2.sslActive = st.sslActive ∧ m.2.sslOn = st.sslOn ∨ m.2.sslOn = st.socket) ∧
      (m.1 = .startSocks → st.useSocks = true ∧ m.2 = st) := by
  obtain ⟨o, ho⟩ := connectSocks_snd st env.socks
  rw [handshakeMoments, List.mem_append] at h
  rcases h with h | h
  · split_ifs at h with huse
    · obtain rfl := List.mem_singleton.1 h
      exact ⟨rfl, rfl, .inl ⟨rfl, rfl⟩, fun _ => ⟨huse, rfl⟩⟩
    · cases h
  · cases hsocks : connectSocks st env.socks with
    | mk r st' =>
    rw [hsocks] at h ho
    obtain rfl : st' = _ := ho
    cases r with
    | error e => cases h
    | ok u =>
      rw [List.mem_append] at h
      rcases h with h | h
      · split_ifs at h
        · obtain rfl := List.mem_singleton.1 h
          exact ⟨rfl, rfl, .inl ⟨rfl, rfl⟩, fun hm => by cases hm⟩
        · cases h
      · obtain rfl := List.mem_singleton.1 h
        rcases connectSsl_state { st with socksOn := o } env.ssl with heq | heq
        · rw [heq]
          exact ⟨rfl, rfl, .inl ⟨rfl, rfl⟩, fun hm => by cases hm⟩
        · rw [heq]
          exact ⟨rfl, rfl, .inr rfl, fun hm => by cases hm⟩

/-- The states of `connect` are those of the loop and of the handshakes. -/
theorem connectMoments_mem {st : State} {env : Env} {m : Place × State}
    (h : m ∈ connectMoments st env) : ∃ attempts, env.resolve = .ok attempts ∧
      (m.1 = .connectToIp ∧ attempts ≠ [] ∧ Opened st m.2 ∨
        m ∈ handshakeMoments (connectAny st attempts) env ∧
          (connectAny st attempts).socket ≠ none) := by
  unfold connectMoments at h
  cases hresolve : env.resolve with
  | error text =>
    rw [hresolve] at h
    cases h
  | ok attempts =>
    rw [hresolve] at h
    refine ⟨attempts, rfl, ?_⟩
    rcases List.mem_append.1 h with h | h
    · left
      obtain ⟨s, hs, rfl⟩ := List.mem_map.1 h
      refine ⟨rfl, ?_, opened_of_addresses hs⟩
      rintro rfl
      cases hs
    · right
      split_ifs at h with hnone
      · cases h
      · exact ⟨h, hnone⟩

/-! ## The state belongs to the socket -/

section Call

variable {st : State} {c : Call}

theorem belongs_of_renewable (hs : SslBelongs st) (hc : Renewable st c) :
    ∀ m ∈ moments st c, Belongs m := by
  intro m hm
  cases c with
  | connect env =>
    obtain ⟨attempts, hresolve, ⟨hplace, hne, ho⟩ | ⟨hm, hsocket⟩⟩ := connectMoments_mem hm
    · have hoff : m.2.sslActive = false :=
        ho.sslActive.trans (hc ⟨attempts, hresolve, .inl hne⟩)
      exact ⟨fun hon => absurd (hoff.symm.trans hon) (by decide), fun _ => hoff⟩
    · obtain ⟨fd, hfd⟩ := Option.ne_none_iff_exists'.1 hsocket
      obtain ⟨hkept, -, hssl, hplain⟩ := handshakeMoments_mem hm
      -- the loop has left an old session only if there was no address
      have hopened : st.sslActive = false ∧ Opened st (connectAny st attempts) ∨
          connectAny st attempts = st := by
        by_cases hne : attempts = []
        · right
          rw [hne]
          rfl
        · left
          exact ⟨hc ⟨attempts, hresolve, .inl hne⟩, opened_of_addresses (connectAny_mem hne)⟩
      have hbelongs : SslBelongs (connectAny st attempts) := by
        rcases hopened with ⟨hoff, ho⟩ | heq
        · intro hon
          rw [ho.sslActive, hoff] at hon
          cases hon
        · rwa [heq]
      refine ⟨fun hon => ?_, fun hplace => ?_⟩
      · rcases hssl with ⟨hactive, hon'⟩ | hon'
        · obtain ⟨fd', hfd', hsslOn⟩ := hbelongs (hactive.symm.trans hon)
          exact ⟨fd', hkept.trans hfd', hon'.trans hsslOn⟩
        · exact ⟨fd, hkept.trans hfd, hon'.trans hfd⟩
      · obtain ⟨huse, heq⟩ := hplain hplace
        rw [heq]
        rcases hopened with ⟨hoff, ho⟩ | hsame
        · rw [ho.sslActive, hoff]
        · rw [hsame] at huse ⊢
          exact hc ⟨attempts, hresolve, .inr huse⟩
  | disconnect =>
    obtain rfl := List.mem_singleton.1 hm
    have hoff : st.sslActive = false := hc trivial
    exact ⟨fun hon => absurd (hoff.symm.trans hon) (by decide), fun hplace => by cases hplace⟩
  | useSOCKS host port =>
    obtain rfl := List.mem_singleton.1 hm
    refine ⟨?_, fun hplace => by cases hplace⟩
    dsimp only
    unfold useSOCKS
    split
    · exact hs
    · exact hs
  | useSSL selfSignedOk =>
    obtain rfl := List.mem_singleton.1 hm
    exact ⟨hs, fun hplace => by cases hplace⟩

/-- The descriptors are numbered in the order of their openings. -/
structure Numbered (st : State) : Prop where
  socket : ∀ fd, st.socket = some fd → fd < st.next
  sslOn : ∀ fd, st.sslOn = some fd → fd < st.next

theorem Opened.numbered {s : State} (h : Opened st s) (hn : Numbered st) : Numbered s where
  socket fd hfd := (h.socket fd hfd).2
  sslOn fd hfd := (hn.sslOn fd (h.sslOn.symm.trans hfd)).trans_le h.next

theorem numbered_moments (hn : Numbered st) : ∀ m ∈ moments st c, Numbered m.2 := by
  intro m hm
  cases c with
  | connect env =>
    obtain ⟨attempts, -, ⟨-, -, ho⟩ | ⟨hm, -⟩⟩ := connectMoments_mem hm
    · exact ho.numbered hn
    · have hn' : Numbered (connectAny st attempts) := by
        by_cases hne : attempts = []
        · rw [hne]
          exact hn
        · exact (opened_of_addresses (connectAny_mem hne)).numbered hn
      obtain ⟨hsocket, hnext, hssl, -⟩ := handshakeMoments_mem hm
      refine ⟨fun fd hfd => ?_, fun fd hfd => ?_⟩
      · rw [hnext]
        exact hn'.socket fd (hsocket.symm.trans hfd)
      · rw [hnext]
        rcases hssl with ⟨-, hon⟩ | hon
        · exact hn'.sslOn fd (hon.symm.trans hfd)
        · exact hn'.socket fd (hon.symm.trans hfd)
  | disconnect =>
    obtain rfl := List.mem_singleton.1 hm
    exact ⟨(fun fd hfd => by cases hfd), hn.sslOn⟩
  | useSOCKS host port =>
    obtain rfl := List.mem_singleton.1 hm
    dsimp only
    unfold useSOCKS
    split
    · exact ⟨hn.socket, hn.sslOn⟩
    · exact ⟨hn.socket, hn.sslOn⟩
  | useSSL selfSignedOk =>
    obtain rfl := List.mem_singleton.1 hm
    exact ⟨hn.socket, hn.sslOn⟩

/-- A session whose socket is given up is told of by the next state already. -/
theorem renewable_of_belongs (hn : Numbered st) (hs : SslBelongs st)
    (h : ∀ m ∈ moments st c, Belongs m) : Renewable st c := by
  intro hgives
  by_contra hactive
  rw [Bool.not_eq_false] at hactive
  obtain ⟨fd, hsocket, hon⟩ := hs hactive
  cases c with
  | connect env =>
    obtain ⟨attempts, hresolve, hcase⟩ := hgives
    by_cases hne : attempts = []
    · subst hne
      have huse := hcase.resolve_left fun hno => hno rfl
      have hmem : (Place.startSocks, st) ∈ moments st (.connect env) := by
        simp [moments, connectMoments, hresolve, addressStates, connectAny, hsocket,
          handshakeMoments, huse]
      have hoff : st.sslActive = false := (h _ hmem).plain rfl
      rw [hoff] at hactive
      cases hactive
    · have hstate := @connectAny_mem st attempts hne
      have ho := opened_of_addresses hstate
      have hmem : (Place.connectToIp, connectAny st attempts) ∈ moments st (.connect env) := by
        simp only [moments, connectMoments, hresolve]
        exact List.mem_append_left _ (List.mem_map_of_mem hstate)
      obtain ⟨fd', hsocket', hon'⟩ := (h _ hmem).ssl (ho.sslActive.trans hactive)
      have hsame : fd' = fd := Option.some.inj (hon'.symm.trans (ho.sslOn.trans hon))
      have hnew := (ho.socket fd' hsocket').1
      have hold := hn.sslOn fd hon
      omega
  | disconnect =>
    obtain ⟨fd', hnone, -⟩ := (h _ (List.mem_singleton_self _)).ssl hactive
    cases hnone
  | useSOCKS host port => exact hgives
  | useSSL selfSignedOk => exact hgives

end Call

theorem belongs_of_reach {host : Bytes} {port : UInt16} {st : State}
    (h : (anyCalls host port).Reach Renewable st) : SslBelongs st ∧ Numbered st := by
  refine h.invariant (I := fun st => SslBelongs st ∧ Numbered st) ?_ fun s c s' _ hs hc hstep => ?_
  · rintro s rfl
    exact ⟨(fun hon => by cases hon), (fun fd hfd => by cases hfd), fun fd hfd => by
      cases hfd⟩
  · obtain rfl : after s c = s' := Option.some.inj hstep
    rcases after_mem s c with heq | ⟨m, hm, heq⟩
    · rwa [heq]
    · rw [← heq]
      exact ⟨(belongs_of_renewable hs.1 hc m hm).ssl, numbered_moments hs.2 m hm⟩

/-- In a run whose calls give up no session, the SSL state belongs to the socket, and a call keeps
it so in all its states exactly if it gives up none. -/
theorem ssl_belongs (host : Bytes) (port : UInt16) (st : State)
    (h : (anyCalls host port).Reach Renewable st) :
    SslBelongs st ∧ ∀ c, (∀ m ∈ moments st c, Belongs m) ↔ Renewable st c := by
  obtain ⟨hs, hn⟩ := belongs_of_reach h
  exact ⟨hs, fun c => ⟨renewable_of_belongs hn hs, belongs_of_renewable hs⟩⟩

/-! ## A socket that connects again -/

/-- The calls of an owner that loses its connection through a SOCKS server. -/
def reconnecting : List Call :=
  [.useSOCKS (ascii "proxy") 1080, .useSSL false, .connect grantingEnv, .disconnect]

/-- The second `connect` talks to the SOCKS server through the closed session. -/
theorem socks_through_ssl :
    ¬∀ (host : Bytes) (port : UInt16) (st : State), (anyCalls host port).Reachable st →
      SslBelongs st ∧ ∀ c, ∀ m ∈ moments st c, Belongs m := by
  intro h
  obtain ⟨st, hreach, hst⟩ := System.exists_reach (T := anyCalls (ascii "broker") 61613)
    (b := fun _ _ => true) (p := fun _ _ => True) (fun _ _ _ => trivial) rfl reconnecting
    (fun st => (moments st (.connect grantingEnv)).any fun m =>
      m.1 = .startSocks ∧ m.2.sslActive = true) rfl
  obtain ⟨m, hm, hboth⟩ := List.any_eq_true.1 hst
  obtain ⟨hplace, hactive⟩ := of_decide_eq_true hboth
  have hplain := ((h _ _ st hreach).2 _ m hm).plain hplace
  rw [hplain] at hactive
  cases hactive

theorem ssl_belongs_connected :
    SslBelongs (connect (useSSL viaSocks false) grantingEnv).2 ∧
      (connect (useSSL viaSocks false) grantingEnv).2.sslActive = true := by
  have hnew : (anyCalls (ascii "broker") 61613).Reach Renewable (new (ascii "broker") 61613) :=
    .init rfl
  have hsocks : (anyCalls (ascii "broker") 61613).Reach Renewable viaSocks :=
    hnew.step (a := .useSOCKS (ascii "proxy") 1080) (fun _ => rfl) rfl
  have hssl : (anyCalls (ascii "broker") 61613).Reach Renewable (useSSL viaSocks false) :=
    hsocks.step (a := .useSSL false) (fun _ => rfl) rfl
  have hconnect : (anyCalls (ascii "broker") 61613).Reach Renewable
      (connect (useSSL viaSocks false) grantingEnv).2 :=
    hssl.step (a := .connect grantingEnv) (fun _ => rfl) rfl
  exact ⟨(ssl_belongs _ _ _ hconnect).1, rfl⟩

end Logfile.Tcs
