import Logfile.ClientSocket

/-!
# The SOCKS exchange over a stream

`start_SOCKS` with the bytes that it writes and the stream that it reads from, of which a `read`
gives what has come. It is `startSocks` with the two results that the stream gives
(`startSocksOver_fst`).

A short read leaves zeros in the buffer, which are taken for a success, and the text of a refusal
is looked up under the byte behind its code. So the exchange does what it is for exactly if the
answers come whole, and the server does not refuse (`answers_iff`).
-/

namespace Logfile.Tcs

open Text

/-! ## The stream -/

/-- The connection to the proxy : what has been written, and what the server sends and has not
been read. -/
structure Wire where
  sent : List Bytes
  unread : Bytes

/-- The number of bytes that have come when `select_read` returns, up to the end of the stream,
where it returns as well. -/
structure Arrivals where
  first : ℕ+
  second : ℕ+

/-- What `read(data, len)` gives. -/
def arrived (len : ℕ) (n : ℕ+) (unread : Bytes) : Bytes :=
  unread.take (min len n)

/-- The buffer of zeros after `read(data, len)`. -/
def buffer (len : ℕ) (data : Bytes) : Bytes :=
  data.take len ++ List.replicate (len - data.length) 0

variable (host : Bytes) (port : UInt16) (arrivals : Arrivals)

/-- `start_SOCKS` -/
def startSocksOver (w : Wire) : Except Error Unit × Wire :=
  let w := { w with sent := w.sent ++ [socksHello] }
  let data := arrived 2 arrivals.first w.unread
  let w := { w with unread := w.unread.drop data.length }
  let versionSelect := buffer 2 data
  if versionSelect.getD 0 0 ≠ 0x05 ∨ versionSelect.getD 1 0 ≠ 0x00 then
    (runtimeError "SOCKS handshake failed.", w)
  else if host.length > 255 then
    (.error (.invalidArgument (ascii "host name too long for SOCKS request.")), w)
  else
    let w := { w with sent := w.sent ++ [socksRequest host port] }
    let data := arrived 10 arrivals.second w.unread
    let w := { w with unread := w.unread.drop data.length }
    let connectReply := buffer 10 data
    if connectReply.getD 0 0 ≠ 0x05 ∨ connectReply.getD 2 0 ≠ 0x00 then
      (runtimeError "SOCKS handshake failed.", w)
    else if connectReply.getD 1 0 ≠ 0x00 then
      match socksMessages.lookup (connectReply.getD 2 0) with
      | some text => (.error (.runtimeError text), w)
      | none => (runtimeError "Unknown SOCKS error", w)
    else (.ok (), w)

/-- The exchange on a new connection. -/
def exchange (stream : Bytes) : Except Error Unit × Wire :=
  startSocksOver host port arrivals ⟨[], stream⟩

variable (stream : Bytes)

/-- What the first `read` gives. -/
def firstRead : Bytes :=
  arrived 2 arrivals.first stream

/-- What the second `read` gives. -/
def secondRead : Bytes :=
  arrived 10 arrivals.second (stream.drop (firstRead arrivals stream).length)

/-- The calls of the exchange. -/
def Arrivals.env : SocksEnv where
  hello := true
  versionReady := .ready
  version := some (firstRead arrivals stream)
  request := true
  replyReady := .ready
  reply := some (secondRead arrivals stream)

/-- Over the stream, `start_SOCKS` ends as it does with what the reads give. -/
theorem startSocksOver_fst (st : State) (h : connected st = true) :
    (exchange st.host st.port arrivals stream).1 = startSocks st (arrivals.env stream) := by
  have hread (len : ℕ) (data : Bytes) : read st len (some data) = .ok (buffer len data) := by
    simp [read, h, buffer]
  have hwrite (data : Bytes) : write st data true = .ok () := by simp [write, h]
  have hselect : selectRead st .ready = .ok true := by simp [selectRead, h]
  simp only [startSocks, Arrivals.env, hwrite, hselect, hread, ok_bind]
  simp only [exchange, startSocksOver, firstRead, secondRead]
  split_ifs with hversion hlong hform hrep
  · exact (if_pos hversion).symm
  · rfl
  · exact (if_pos hform).symm
  · refine Eq.trans ?_ ((if_neg hform).trans (if_pos hrep)).symm
    cases socksMessages.lookup _ with
    | none => rfl
    | some text => rfl
  · exact ((if_neg hform).trans (if_neg hrep)).symm

/-! ## The protocol -/

/-- A request of the protocol : CONNECT, with a domain name and a port. -/
def decodeRequest : Bytes → Option (Bytes × UInt16)
  | 0x05 :: 0x01 :: 0x00 :: 0x03 :: n :: rest =>
    match rest.drop n.toNat with
    | [high, low] => some (rest.take n.toNat, UInt16.ofNat (256 * high.toNat + low.toNat))
    | _ => none
  | _ => none

/-- A whole reply with a code. -/
def CompleteReply (rep : Byte) (reply : Bytes) : Prop :=
  ∃ n rest, reply = 0x05 :: rep :: 0x00 :: rest ∧ replyLength reply = some n ∧ n ≤ reply.length

/-- The server takes version 5 without authentication, and its reply comes whole. -/
def Replies (rep : Byte) : Prop :=
  ∃ reply, stream = 0x05 :: 0x00 :: reply ∧ CompleteReply rep reply

/-- The message of a code. -/
def socksText (rep : Byte) : Bytes :=
  (socksMessages.lookup rep).getD (ascii "Unknown SOCKS error")

/-- What a server sends before it closes the connection. A reply that comes whole has an IPv4
address. -/
structure Server where
  stream : Bytes
  ipv4 : ∀ reply n, stream = 0x05 :: 0x00 :: reply → reply.head? = some 0x05 →
    replyLength reply = some n → n ≤ reply.length → n = 10

/-- What the exchange is for, whatever the network makes of the stream. -/
structure Answers (server : Server) : Prop where
  /-- Only an exchange that throws may end before the request. -/
  request :
    (∃ data, (exchange host port arrivals server.stream).2.sent = [socksHello, data] ∧
        decodeRequest data = some (host, port)) ∨
      (exchange host port arrivals server.stream).2.sent = [socksHello] ∧
        (exchange host port arrivals server.stream).1 ≠ .ok ()
  returns : (exchange host port arrivals server.stream).1 = .ok () ↔
    Replies server.stream 0x00
  consumed : (exchange host port arrivals server.stream).1 = .ok () →
    (exchange host port arrivals server.stream).2.unread = server.stream.drop 12
  refused : ∀ rep, rep ≠ 0x00 → Replies server.stream rep →
    (exchange host port arrivals server.stream).1 = .error (.runtimeError (socksText rep))

/-- Beginnings of the two answers, of any length but zero. -/
def LooksGranted (version reply : Bytes) : Prop :=
  (version ≠ [] ∧ version <+: [0x05, 0x00]) ∧ reply ≠ [] ∧ reply.take 3 <+: [0x05, 0x00, 0x00]

/-- A granted request comes with both answers whole, no request is refused, and nothing else
begins like a granted one. -/
structure Unmistakable (server : Server) : Prop where
  whole : Replies server.stream 0x00 → 2 ≤ (arrivals.first : ℕ) ∧ 10 ≤ (arrivals.second : ℕ)
  unrefused : ∀ rep, rep ≠ 0x00 → ¬Replies server.stream rep
  other : ¬Replies server.stream 0x00 →
    ¬LooksGranted (firstRead arrivals server.stream) (secondRead arrivals server.stream)

/-! ## The request -/

theorem decodeRequest_socksRequest {host : Bytes} (h : host.length ≤ 255) (port : UInt16) :
    decodeRequest (socksRequest host port) = some (host, port) := by
  have hlength : (UInt8.ofNat host.length).toNat = host.length := by
    rw [UInt8.toNat_ofNat']
    omega
  have hport : UInt16.ofNat (256 * (port >>> 8).toUInt8.toNat + (port &&& 0xFF).toUInt8.toNat) =
      port := by
    have hlow : port.toNat &&& 0xFF = port.toNat % 2 ^ 8 := Nat.and_two_pow_sub_one_eq_mod _ 8
    have hlt := port.toNat_lt
    refine UInt16.toNat_inj.1 ?_
    simp only [UInt16.toNat_ofNat', UInt16.toNat_toUInt8, UInt16.toNat_shiftRight,
      UInt16.toNat_and, UInt16.reduceToNat, Nat.shiftRight_eq_div_pow, hlow, Nat.reduceMod,
      Nat.reducePow]
    omega
  simp only [socksRequest, decodeRequest, List.cons_append, List.nil_append, hlength,
    List.drop_left, List.take_left, hport]

/-! ## The answers -/

section Reads

variable {arrivals stream}

theorem version_accepted {data : Bytes} (h : data.length ≤ 2) :
    ¬((buffer 2 data).getD 0 0 ≠ 0x05 ∨ (buffer 2 data).getD 1 0 ≠ 0x00) ↔
      data ≠ [] ∧ data <+: [0x05, 0x00] := by
  rcases data with - | ⟨a, - | ⟨b, - | ⟨c, data⟩⟩⟩
  · simp [buffer]
  · simp [buffer]
  · simp [buffer]
  · simp at h

theorem reply_granted {data : Bytes} (h : data.length ≤ 10) :
    (¬((buffer 10 data).getD 0 0 ≠ 0x05 ∨ (buffer 10 data).getD 2 0 ≠ 0x00) ∧
        ¬(buffer 10 data).getD 1 0 ≠ 0x00) ↔
      data ≠ [] ∧ data.take 3 <+: [0x05, 0x00, 0x00] := by
  rcases data with - | ⟨a, - | ⟨b, - | ⟨c, data⟩⟩⟩
  · simp [buffer]
  · simp [buffer]
  · simp [buffer]
  · simp [buffer]
    tauto

/-- The messages of refusals. The third byte is zero where the text is looked up. -/
theorem lookup_zero : socksMessages.lookup 0x00 = some (ascii "succeeded") := by
  decide

theorem socksText_ne {rep : Byte} (h : rep ≠ 0x00) :
    socksText rep ≠ ascii "succeeded" ∧ socksText rep ≠ ascii "SOCKS handshake failed." := by
  have htexts : ∀ p ∈ socksMessages, p.1 ≠ 0x00 →
      p.2 ≠ ascii "succeeded" ∧ p.2 ≠ ascii "SOCKS handshake failed." := by
    decide +kernel
  unfold socksText
  cases hlookup : socksMessages.lookup rep with
  | none => decide +kernel
  | some text =>
    obtain ⟨before, after, hmem, -⟩ := List.lookup_eq_some_iff.1 hlookup
    exact htexts (rep, text) (by simp [hmem]) h

theorem length_firstRead : (firstRead arrivals stream).length ≤ 2 :=
  (List.length_take_le _ _).trans (min_le_left _ _)

theorem length_secondRead : (secondRead arrivals stream).length ≤ 10 :=
  (List.length_take_le _ _).trans (min_le_left _ _)

/-- What `start_SOCKS` has done : it has thrown before the request, or the request is out, both
answers are read, and they are accepted, or one of two messages is thrown. -/
theorem exchange_cases {host : Bytes} (h : host.length ≤ 255) (port : UInt16) :
    (exchange host port arrivals stream).1 = runtimeError "SOCKS handshake failed." ∧
        (exchange host port arrivals stream).2.sent = [socksHello] ∧
        ¬LooksGranted (firstRead arrivals stream) (secondRead arrivals stream) ∨
      (exchange host port arrivals stream).2 =
          ⟨[socksHello, socksRequest host port], stream.drop
            ((firstRead arrivals stream).length + (secondRead arrivals stream).length)⟩ ∧
        ((exchange host port arrivals stream).1 = .ok () ∧
            LooksGranted (firstRead arrivals stream) (secondRead arrivals stream) ∨
          ¬LooksGranted (firstRead arrivals stream) (secondRead arrivals stream) ∧
            ((exchange host port arrivals stream).1 = runtimeError "SOCKS handshake failed." ∨
              (exchange host port arrivals stream).1 = runtimeError "succeeded")) := by
  have hversion := version_accepted (@length_firstRead arrivals stream)
  have hreply := reply_granted (@length_secondRead arrivals stream)
  simp only [exchange, startSocksOver, secondRead, firstRead] at hversion hreply ⊢
  split_ifs with hfirst hlong hform hrep
  · exact .inl ⟨rfl, rfl, fun hl => hversion.2 hl.1 hfirst⟩
  · omega
  · exact .inr ⟨by rw [List.drop_drop]; rfl, .inr ⟨fun hl => (hreply.2 hl.2).1 hform, .inl rfl⟩⟩
  · -- the text is looked up under the third byte, which is zero here
    have hzero := of_not_not fun hne => hform (.inr hne)
    rw [hzero, lookup_zero]
    exact .inr ⟨by rw [List.drop_drop]; rfl, .inr ⟨fun hl => (hreply.2 hl.2).2 hrep, .inr rfl⟩⟩
  · exact .inr ⟨by rw [List.drop_drop]; rfl,
      .inl ⟨rfl, hversion.1 hfirst, hreply.1 ⟨hform, hrep⟩⟩⟩

end Reads

/-! ## When it is for what it is -/

section Answers

variable {host arrivals} {server : Server}

/-- A whole reply has ten bytes. -/
theorem Replies.length {rep : Byte} (h : Replies server.stream rep) :
    12 ≤ server.stream.length := by
  obtain ⟨reply, hstream, n, rest, hreply, hlength, hwhole⟩ := h
  obtain rfl := server.ipv4 reply n hstream (by rw [hreply]; rfl) hlength hwhole
  rw [hstream, List.length_cons, List.length_cons]
  omega

theorem returns_iff (h : host.length ≤ 255) :
    (exchange host port arrivals server.stream).1 = .ok () ↔
      LooksGranted (firstRead arrivals server.stream) (secondRead arrivals server.stream) := by
  rcases @exchange_cases arrivals server.stream host h port with ⟨hr, -, hno⟩ |
    ⟨-, ⟨hr, hl⟩ | ⟨hno, hr | hr⟩⟩
  · simp [hr, hno, runtimeError]
  · simp [hr, hl]
  · simp [hr, hno, runtimeError]
  · simp [hr, hno, runtimeError]

/-- Both answers come whole exactly if the exchange takes twelve bytes. -/
theorem unread_eq_iff (h : host.length ≤ 255) (hlength : 12 ≤ server.stream.length)
    (hok : (exchange host port arrivals server.stream).1 = .ok ()) :
    (exchange host port arrivals server.stream).2.unread = server.stream.drop 12 ↔
      2 ≤ (arrivals.first : ℕ) ∧ 10 ≤ (arrivals.second : ℕ) := by
  have hfirst : (firstRead arrivals server.stream).length = min 2 (arrivals.first : ℕ) := by
    rw [firstRead, arrived, List.length_take]
    omega
  have hsecond : (secondRead arrivals server.stream).length = min 10 (arrivals.second : ℕ) := by
    rw [secondRead, arrived, List.length_take, List.length_drop, hfirst]
    omega
  have hunread : (exchange host port arrivals server.stream).2.unread =
      server.stream.drop (min 2 (arrivals.first : ℕ) + min 10 (arrivals.second : ℕ)) := by
    rcases @exchange_cases arrivals server.stream host h port with ⟨hr, -, -⟩ | ⟨hw, -⟩
    · cases hok.symm.trans hr
    · rw [hw, hfirst, hsecond]
  rw [hunread]
  constructor
  · intro heq
    have hlen := congrArg List.length heq
    rw [List.length_drop, List.length_drop] at hlen
    omega
  · rintro ⟨h2, h10⟩
    rw [min_eq_left h2, min_eq_left h10]

theorem looksGranted_of_whole (hgrant : Replies server.stream 0x00)
    (hfirst : 2 ≤ (arrivals.first : ℕ)) (hsecond : 10 ≤ (arrivals.second : ℕ)) :
    LooksGranted (firstRead arrivals server.stream) (secondRead arrivals server.stream) := by
  obtain ⟨reply, hstream, n, rest, rfl, -⟩ := hgrant
  have hread : firstRead arrivals server.stream = [0x05, 0x00] := by
    rw [firstRead, arrived, min_eq_left hfirst, hstream]
    rfl
  have hread' : secondRead arrivals server.stream = 0x05 :: 0x00 :: 0x00 :: rest.take 7 := by
    rw [secondRead, hread, arrived, min_eq_left hsecond, hstream]
    rfl
  rw [hread, hread']
  exact ⟨⟨by simp, List.prefix_rfl⟩, by simp, by simp⟩

end Answers

/-- The exchange is for what it is exactly if a granted request comes with both answers whole, no
request is refused, and nothing else is mistaken for a granted one. -/
theorem answers_iff (host : Bytes) (port : UInt16) (arrivals : Arrivals) (server : Server)
    (h : host.length ≤ 255) : Answers host port arrivals server ↔ Unmistakable arrivals server := by
  have hreturns := @returns_iff host port arrivals server h
  constructor
  · intro ha
    refine ⟨fun hgrant => ?_, fun rep hrep href => ?_, fun hno hl => ?_⟩
    · have hok := ha.returns.2 hgrant
      exact (unread_eq_iff port h hgrant.length hok).1 (ha.consumed hok)
    · have hthrown := ha.refused rep hrep href
      obtain ⟨hne, hne'⟩ := socksText_ne hrep
      rcases @exchange_cases arrivals server.stream host h port with ⟨hr, -, -⟩ |
        ⟨-, ⟨hr, -⟩ | ⟨-, hr | hr⟩⟩
      · exact hne' (Error.runtimeError.inj (Except.error.inj (hthrown.symm.trans hr)))
      · cases hthrown.symm.trans hr
      · exact hne' (Error.runtimeError.inj (Except.error.inj (hthrown.symm.trans hr)))
      · exact hne (Error.runtimeError.inj (Except.error.inj (hthrown.symm.trans hr)))
    · exact hno (ha.returns.1 (hreturns.2 hl))
  · intro hu
    have hgranted : (exchange host port arrivals server.stream).1 = .ok () →
        Replies server.stream 0x00 := by
      intro hok
      by_contra hno
      exact hu.other hno (hreturns.1 hok)
    refine ⟨?_, ⟨hgranted, fun hgrant => ?_⟩, fun hok => ?_, fun rep hrep href => ?_⟩
    · rcases @exchange_cases arrivals server.stream host h port with ⟨hr, hsent, -⟩ | ⟨hw, -⟩
      · right
        refine ⟨hsent, fun hok => ?_⟩
        cases hok.symm.trans hr
      · left
        exact ⟨socksRequest host port, by rw [hw], decodeRequest_socksRequest h port⟩
    · obtain ⟨hfirst, hsecond⟩ := hu.whole hgrant
      exact hreturns.2 (looksGranted_of_whole hgrant hfirst hsecond)
    · have hgrant := hgranted hok
      exact (unread_eq_iff port h hgrant.length hok).2 (hu.whole hgrant)
    · exact absurd href (hu.unrefused rep hrep)

/-! ## Two servers -/

/-- A server with a reply of the code `rep`, and what the proxied connection sends first. -/
def replying (rep : Byte) : Server where
  stream := [0x05, 0x00] ++ [0x05, rep, 0x00, 0x01, 10, 0, 0, 1, 4, 56] ++ ascii "STOMP"
  ipv4 reply n hstream _ hlength _ := by
    obtain rfl : _ = reply := List.append_cancel_left
      (show [0x05, 0x00] ++ _ = [0x05, 0x00] ++ reply from hstream)
    exact (Option.some.inj hlength).symm

theorem replies_replying (rep : Byte) : Replies (replying rep).stream rep :=
  ⟨_, rfl, 10, _, rfl, rfl, by simp⟩

/-- A refusal is thrown as "succeeded", and a grant whose bytes come one by one is thrown or
taken with bytes left over. -/
theorem replies_mistaken :
    ¬Answers (ascii "broker") 61613 ⟨2, 10⟩ (replying 0x05) ∧
      ¬Answers (ascii "broker") 61613 ⟨1, 10⟩ (replying 0x00) ∧
        ¬Answers (ascii "broker") 61613 ⟨2, 3⟩ (replying 0x00) := by
  refine ⟨fun h => ?_, fun h => ?_, fun h => ?_⟩
  · have hthrown : (exchange (ascii "broker") 61613 ⟨2, 10⟩ (replying 0x05).stream).1 =
        runtimeError "succeeded" := by
      rfl
    have hrefused := h.refused 0x05 (by decide) (replies_replying 0x05)
    exact (@socksText_ne 0x05 (by decide)).1
      (Error.runtimeError.inj (Except.error.inj (hrefused.symm.trans hthrown)))
  · have hthrown : (exchange (ascii "broker") 61613 ⟨1, 10⟩ (replying 0x00).stream).1 =
        runtimeError "SOCKS handshake failed." := by
      rfl
    cases hthrown.symm.trans (h.returns.2 (replies_replying 0x00))
  · have hleft : (exchange (ascii "broker") 61613 ⟨2, 3⟩ (replying 0x00).stream).2.unread.length =
        12 := by
      rfl
    rw [h.consumed (h.returns.2 (replies_replying 0x00))] at hleft
    cases hleft

theorem answers_granting : (ascii "broker").length ≤ 255 ∧
    Unmistakable ⟨2, 10⟩ (replying 0x00) ∧
      Answers (ascii "broker") 61613 ⟨2, 10⟩ (replying 0x00) := by
  have hfits : (ascii "broker").length ≤ 255 := by decide
  have hwhole : Unmistakable ⟨2, 10⟩ (replying 0x00) := by
    refine ⟨fun _ => ⟨le_rfl, le_rfl⟩, fun rep hrep href => ?_,
      fun hno => absurd (replies_replying 0x00) hno⟩
    obtain ⟨reply, hstream, n, rest, rfl, -⟩ := href
    have hhead := congrArg (·.getD 3 0) hstream
    exact hrep hhead.symm
  exact ⟨hfits, hwhole, (answers_iff _ _ _ _ hfits).2 hwhole⟩

end Logfile.Tcs
