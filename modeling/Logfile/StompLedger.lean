import Logfile.StompReaders

/-!
# What goes out on the connections

The SENDs are numbered, and `m_receipt` is their number. Every frame on a connection is one
that CONNECT consists of, or the whole text of one SEND, for a packet of which only a part
went out is the last on its connection (`Outgoing`). It needs a path and times without NUL,
and packets whose length is an `unsigned`.
-/

set_option linter.unusedSectionVars false

namespace Logfile.Stomp

open Text

/-! ## Frames of a connection -/

/-- The complete frames of a stream. -/
def framesOf (s : Bytes) : List Bytes :=
  (Frames.split 10 0 [] s).1

/-- The unfinished frame behind them. -/
def restOf (s : Bytes) : Bytes :=
  (Frames.split 10 0 [] s).2

theorem framesOf_append {a : Bytes} (h : restOf a = []) (b : Bytes) :
    framesOf (a ++ b) = framesOf a ++ framesOf b := by
  unfold restOf at h
  unfold framesOf
  rw [Frames.split_append, h]

theorem restOf_append {a : Bytes} (h : restOf a = []) (b : Bytes) :
    restOf (a ++ b) = restOf b := by
  unfold restOf at h ⊢
  rw [Frames.split_append, h]

/-- Nothing is unfinished behind a NUL. -/
theorem restOf_nul (s : Bytes) : restOf (s ++ [0]) = [] := by
  have hlast : ∀ cur, (Frames.split (10 : Byte) 0 cur [0]).2 = [] := by
    intro cur
    simp [Frames.split]
  rw [restOf, Frames.split_append]
  exact hlast _

/-- Of a part of a SEND packet there is a frame only if it is the whole packet. -/
theorem framesOf_take_sendPacket {p : StompParams} {receipt : ℕ} {le : LogEvent}
    (hpath : 0 ∉ p.url.path) (htime : 0 ∉ le.timeString) (n : ℕ) {f : Bytes}
    (h : f ∈ framesOf ((sendPacket p receipt le).take n)) :
    f = sendText p receipt le ∧ (sendPacket p receipt le).take n = sendPacket p receipt le := by
  have hwhole : framesOf (sendPacket p receipt le) = [sendText p receipt le] := by
    rw [framesOf, split_sendPacket p receipt le hpath htime]
  by_cases hn : n < (sendPacket p receipt le).length
  · have hle : n ≤ (sendText p receipt le).length := by
      simp only [sendPacket, List.length_append, List.length_singleton] at hn
      omega
    have htake : (sendPacket p receipt le).take n = (sendText p receipt le).take n := by
      rw [sendPacket, List.take_append_of_le_length hle]
    rw [htake, framesOf, Frames.split_of_not_mem] at h
    · cases h
    · exact fun hmem => nul_not_mem_sendText p receipt le hpath htime (List.mem_of_mem_take hmem)
  · have htake : (sendPacket p receipt le).take n = sendPacket p receipt le :=
      List.take_of_length_le (not_lt.1 hn)
    rw [htake, hwhole] at h
    exact ⟨List.mem_singleton.1 h, htake⟩

/-- A connection behind a `write`, if the length of the packet is an `unsigned`. -/
theorem Writes.spec {conns conns' : List Conn} {socket written : Option ℕ} {packet : Packet}
    {bytes : Bytes} (h : Writes conns socket packet bytes conns' written)
    (hlen : bytes.length < 2 ^ 32) {k : ℕ} {c' : Conn} (hc' : conns'[k]? = some c') :
    ∃ c, conns[k]? = some c ∧ (c' = c ∨ socket = some k ∧ ∃ n,
      c' = { c with sent := c.sent ++ [⟨packet, bytes.take n⟩] } ∧
        (written = none ∨ bytes.take n = bytes)) := by
  have hdata : bytes.take (bytes.length % 2 ^ 32) = bytes := by
    rw [Nat.mod_eq_of_lt hlen, List.take_length]
  cases h with
  | throws => exact ⟨c', hc', Or.inl rfl⟩
  | @short k₁ n hsock =>
    rw [hdata, List.getElem?_modify] at hc'
    obtain ⟨c, hc, rfl⟩ := Option.map_eq_some_iff.1 hc'
    refine ⟨c, hc, ?_⟩
    split_ifs with hk
    · exact Or.inr ⟨hk ▸ hsock, n, rfl, Or.inl rfl⟩
    · exact Or.inl rfl
  | @full k₁ hsock =>
    rw [hdata, List.getElem?_modify] at hc'
    obtain ⟨c, hc, rfl⟩ := Option.map_eq_some_iff.1 hc'
    refine ⟨c, hc, ?_⟩
    split_ifs with hk
    · exact Or.inr ⟨hk ▸ hsock, bytes.length, by rw [List.take_length],
        Or.inr (List.take_length ..)⟩
    · exact Or.inl rfl

/-! ## The invariant -/

/-- What `m_receipt` is in the SEND of the given number. -/
def receiptOf (call : ℕ) : ℕ :=
  (UInt32.ofNat call).toNat

/-- The packet of the SEND of the given number went out as a whole. -/
def Conn.Carries (p : StompParams) (c : Conn) (call : ℕ) (le : LogEvent) : Prop :=
  ⟨.send call le, sendPacket p (receiptOf call) le⟩ ∈ c.sent

/-- A frame on the connection is one that CONNECT consists of, or a SEND. -/
def Conn.Accounts (p : StompParams) (c : Conn) (f : Bytes) : Prop :=
  f ∈ framesOf (connectPacket p) ∨
    ∃ call le, f = sendText p (receiptOf call) le ∧ c.Carries p call le

/-- `do_write`'s event from the call to the taking of the reply. -/
def WriterPc.event : WriterPc → Option LogEvent
  | idle | close _ _ | clear _ _ => none
  | connect job _ => job
  | send le | lock le _ | wait le _ | take le _ => some le

/-- A thread is about to close the socket because a write or a wait failed. -/
def Closing (st : State) : Prop :=
  (∃ le held, st.writer = .close le held) ∨ ∃ held, st.connectThread = some (.close held)

/-- What went out, and what the writer knows of it. -/
structure Outgoing (p : StompParams) (st : State) : Prop where
  receipt : st.receipt = UInt32.ofNat st.calls
  times : ∀ le, st.writer.event = some le → 0 ∉ le.timeString
  calls : ∀ c ∈ st.conns, ∀ s ∈ c.sent, ∀ call le, s.packet = .send call le → call ≤ st.calls
  current : ∀ le, st.writer.sent = some le → ∀ c ∈ st.conns, ∀ s ∈ c.sent, ∀ le',
    s.packet = .send st.calls le' → le' = le
  frames : ∀ c ∈ st.conns, ∀ f ∈ framesOf c.stream, c.Accounts p f
  rest : ∀ k c, st.socket = some k → st.conns[k]? = some c → restOf c.stream = [] ∨ Closing st
  received : ∀ c ∈ st.conns, c.received ≤ c.stream.length

namespace Outgoing

variable {p : StompParams} {st st' : State}

/-- A connection as before, or a new one. -/
def Kept (conns : List Conn) (c' : Conn) : Prop :=
  (∃ c ∈ conns, c'.sent = c.sent) ∨ c'.sent = []

theorem stream_congr {c c' : Conn} (h : c'.sent = c.sent) : c'.stream = c.stream := by
  rw [Conn.stream, h, Conn.stream]

theorem stream_nil {c : Conn} (h : c.sent = []) : c.stream = [] := by
  rw [Conn.stream, h]
  rfl

/-- A step that writes nothing. -/
theorem keep (h : Outgoing p st) (hr : st'.receipt = st.receipt) (hc : st'.calls = st.calls)
    (htimes : ∀ le, st'.writer.event = some le → 0 ∉ le.timeString)
    (hsent : ∀ le, st'.writer.sent = some le → st.writer.sent = some le)
    (hconns : ∀ c' ∈ st'.conns, Kept st.conns c')
    (hreceived : ∀ c' ∈ st'.conns, c'.received ≤ c'.stream.length)
    (hrest : ∀ k c', st'.socket = some k → st'.conns[k]? = some c' →
      restOf c'.stream = [] ∨ Closing st') : Outgoing p st' := by
  refine ⟨by rw [hr, hc, h.receipt], htimes, ?_, ?_, ?_, hrest, hreceived⟩
  · intro c' hc' s hs call le hpacket
    rw [hc]
    rcases hconns c' hc' with ⟨c, hmem, heq⟩ | hnil
    · exact h.calls c hmem s (heq ▸ hs) call le hpacket
    · rw [hnil] at hs
      cases hs
  · intro le hle c' hc' s hs le' hpacket
    rw [hc] at hpacket
    rcases hconns c' hc' with ⟨c, hmem, heq⟩ | hnil
    · exact h.current le (hsent le hle) c hmem s (heq ▸ hs) le' hpacket
    · rw [hnil] at hs
      cases hs
  · intro c' hc' f hf
    rcases hconns c' hc' with ⟨c, hmem, heq⟩ | hnil
    · rw [stream_congr heq] at hf
      rcases h.frames c hmem f hf with hconnect | ⟨call, le, htext, hcarries⟩
      · exact Or.inl hconnect
      · exact Or.inr ⟨call, le, htext, by rw [Conn.Carries, heq]; exact hcarries⟩
    · rw [stream_nil hnil] at hf
      cases hf

/-- A step that leaves the connections alone. -/
theorem still (h : Outgoing p st) (hr : st'.receipt = st.receipt) (hc : st'.calls = st.calls)
    (hconns : st'.conns = st.conns)
    (htimes : ∀ le, st'.writer.event = some le → 0 ∉ le.timeString)
    (hsent : ∀ le, st'.writer.sent = some le → st.writer.sent = some le)
    (hs : st'.socket = none ∨ st'.socket = st.socket ∧ (Closing st → Closing st')) :
    Outgoing p st' := by
  refine h.keep hr hc htimes hsent (fun c' hc' => Or.inl ⟨c', hconns ▸ hc', rfl⟩)
    (fun c' hc' => h.received c' (hconns ▸ hc')) fun k c' hk hc' => ?_
  rcases hs with hnone | ⟨hsame, hclosing⟩
  · exact absurd (hnone.symm.trans hk) nofun
  · exact (h.rest k c' (hsame ▸ hk) (hconns ▸ hc')).imp_right hclosing

/-- A step that writes a packet to a connection with nothing unfinished. A packet that does not
go out as a whole is followed by closing the socket. -/
theorem wrote (h : Outgoing p st) {packet : Packet} {bytes : Bytes} {written : Option ℕ}
    (hs : Writes st.conns st.socket packet bytes st'.conns written) (hlen : bytes.length < 2 ^ 32)
    (hclean : ∀ k c, st.socket = some k → st.conns[k]? = some c → restOf c.stream = [])
    (hsocket : st'.socket = st.socket) (hr : st'.receipt = UInt32.ofNat st'.calls)
    (hcalls : st.calls ≤ st'.calls) (hpacket : ∀ call le, packet = .send call le → call ≤ st'.calls)
    (htimes : ∀ le, st'.writer.event = some le → 0 ∉ le.timeString)
    (hcurrent : ∀ le, st'.writer.sent = some le → (∀ le', packet = .send st'.calls le' → le' = le) ∧
      ∀ c ∈ st.conns, ∀ s ∈ c.sent, ∀ le', s.packet = .send st'.calls le' → le' = le)
    (hframes : ∀ n, ∀ f ∈ framesOf (bytes.take n), f ∈ framesOf (connectPacket p) ∨
      ∃ call le, f = sendText p (receiptOf call) le ∧ packet = .send call le ∧
        bytes.take n = sendPacket p (receiptOf call) le)
    (hrest : restOf bytes = []) (hclosing : written = none → Closing st') : Outgoing p st' := by
  have hmem : ∀ c' ∈ st'.conns, ∃ c ∈ st.conns, c'.received = c.received ∧ (c' = c ∨
      restOf c.stream = [] ∧ ∃ n, c'.sent = c.sent ++ [⟨packet, bytes.take n⟩]) := by
    intro c' hc'
    obtain ⟨k, hk⟩ := List.mem_iff_getElem?.1 hc'
    obtain ⟨c, hc, rfl | ⟨hsock, n, rfl, -⟩⟩ := hs.spec hlen hk
    · exact ⟨c', List.mem_of_getElem? hc, rfl, Or.inl rfl⟩
    · exact ⟨c, List.mem_of_getElem? hc, rfl, Or.inr ⟨hclean k c hsock hc, n, rfl⟩⟩
  have hstream : ∀ {c c' : Conn} {n : ℕ}, c'.sent = c.sent ++ [⟨packet, bytes.take n⟩] →
      c'.stream = c.stream ++ bytes.take n := by
    intro c c' n hsent
    simp [Conn.stream, hsent]
  refine ⟨hr, htimes, ?_, ?_, ?_, ?_, ?_⟩
  · intro c' hc' s hs call le heq
    obtain ⟨c, hc, -, rfl | ⟨-, n, hsent⟩⟩ := hmem c' hc'
    · exact (h.calls c' hc s hs call le heq).trans hcalls
    · rw [hsent] at hs
      rcases List.mem_append.1 hs with hs | hs
      · exact (h.calls c hc s hs call le heq).trans hcalls
      · obtain rfl := List.mem_singleton.1 hs
        exact hpacket call le heq
  · intro le hle c' hc' s hs le' heq
    obtain ⟨hnew, hold⟩ := hcurrent le hle
    obtain ⟨c, hc, -, rfl | ⟨-, n, hsent⟩⟩ := hmem c' hc'
    · exact hold c' hc s hs le' heq
    · rw [hsent] at hs
      rcases List.mem_append.1 hs with hs | hs
      · exact hold c hc s hs le' heq
      · obtain rfl := List.mem_singleton.1 hs
        exact hnew le' heq
  · intro c' hc' f hf
    obtain ⟨c, hc, -, rfl | ⟨hnil, n, hsent⟩⟩ := hmem c' hc'
    · exact h.frames c' hc f hf
    · rw [hstream hsent, framesOf_append hnil] at hf
      rcases List.mem_append.1 hf with hf | hf
      · refine (h.frames c hc f hf).imp_right ?_
        rintro ⟨call, le, htext, hcarries⟩
        refine ⟨call, le, htext, ?_⟩
        rw [Conn.Carries, hsent]
        exact List.mem_append_left _ hcarries
      · refine (hframes n f hf).imp_right ?_
        rintro ⟨call, le, htext, rfl, htake⟩
        refine ⟨call, le, htext, ?_⟩
        rw [Conn.Carries, hsent, htake]
        exact List.mem_append_right _ List.mem_cons_self
  · intro k c' hk hc'
    obtain ⟨c, hc, rfl | ⟨-, n, rfl, hw⟩⟩ := hs.spec hlen hc'
    · exact Or.inl (hclean k c' (hsocket ▸ hk) hc)
    · rcases hw with hnone | hwhole
      · exact Or.inr (hclosing hnone)
      · left
        rw [hstream rfl, restOf_append (hclean k c (hsocket ▸ hk) hc), hwhole, hrest]
  · intro c' hc'
    obtain ⟨c, hc, hreceived, rfl | ⟨-, n, hsent⟩⟩ := hmem c' hc'
    · exact h.received c' hc
    · rw [hreceived, hstream hsent, List.length_append]
      exact (h.received c hc).trans (Nat.le_add_right _ _)

/-- Another thread's closing goes on. -/
theorem closing_congr (hw : ∀ le held, st.writer ≠ .close le held)
    (ht : ∀ held, st.connectThread = some (.close held) → st'.connectThread = some (.close held))
    (h : Closing st) : Closing st' := by
  rcases h with ⟨le, held, hle⟩ | ⟨held, hheld⟩
  · exact absurd hle (hw le held)
  · exact Or.inr ⟨held, ht held hheld⟩

theorem callMove (h : Outgoing p st) {job : Option LogEvent} {pc : CallPc}
    (hw : st.writer = .connect job pc) (hs : CallMove st job pc st') : Outgoing p st' := by
  have hnot : ∀ le held, st.writer ≠ .close le held := by
    rw [hw]
    nofun
  have htimes : ∀ le, job = some le → 0 ∉ le.timeString := by
    intro le hle
    exact h.times le (by rw [hw]; exact hle)
  have hevent : ∀ (st₀ : State) (result : Bool) (le : LogEvent),
      (st₀.connectReturns job result).writer.event = some le → job = some le := by
    intro st₀ result le hle
    cases job <;> cases result <;> first | exact hle | cases hle
  have hsent : ∀ (st₀ : State) (result : Bool),
      (st₀.connectReturns job result).writer.sent = none := by
    intro st₀ result
    cases job <;> cases result <;> rfl
  have hret : ∀ (st₀ : State) (result : Bool), st₀.receipt = st.receipt → st₀.calls = st.calls →
      st₀.conns = st.conns → st₀.socket = st.socket →
      (∀ held, st.connectThread = some (.close held) → st₀.connectThread = some (.close held)) →
      Outgoing p (st₀.connectReturns job result) := by
    intro st₀ result hr hc hconns hsock ht
    refine h.still hr hc hconns (fun le hle => htimes le (hevent st₀ result le hle)) ?_ ?_
    · intro le hle
      rw [hsent] at hle
      cases hle
    · exact Or.inr ⟨hsock, closing_congr hnot ht⟩
  cases hs with
  | connected | trying | retest => exact hret st _ rfl rfl rfl rfl fun _ => id
  | spawn hnone => exact hret _ _ rfl rfl rfl rfl fun held hheld => nomatch hnone.symm.trans hheld
  | joinNone | spawnJoinable =>
    exact h.still rfl rfl rfl h.times (fun _ => id) (Or.inr ⟨rfl, id⟩)
  | join hfin =>
    refine h.still rfl rfl rfl (fun le hle => htimes le hle) nofun (Or.inr ⟨rfl, ?_⟩)
    exact closing_congr hnot fun held hheld => nomatch hfin.symm.trans hheld
  | _ =>
    exact h.still rfl rfl rfl (fun le hle => htimes le hle) nofun
      (Or.inr ⟨rfl, closing_congr hnot fun _ => id⟩)

/-- Nothing is unfinished where the writer or the connect thread writes next. -/
theorem clean (h : Outgoing p st) (hno : ¬Closing st) :
    ∀ k c, st.socket = some k → st.conns[k]? = some c → restOf c.stream = [] :=
  fun k c hk hc => (h.rest k c hk hc).resolve_right hno

theorem receiptOf_succ (h : Outgoing p st) : (st.receipt + 1).toNat = receiptOf (st.calls + 1) := by
  rw [h.receipt, receiptOf, UInt32.ofNat_add]
  rfl

theorem writerMove (h : Outgoing p st) (hctl : Control st) (hpath : 0 ∉ p.url.path)
    {pc : WriterPc} (hw : st.writer = pc)
    (hsize : ∀ le, pc = .send le → (sendPacket p (st.receipt + 1).toNat le).length < 2 ^ 32)
    (hs : WriterMove p st pc st') : Outgoing p st' := by
  have htimes : ∀ le, pc.event = some le → 0 ∉ le.timeString := by
    intro le hle
    exact h.times le (by rw [hw]; exact hle)
  have hnot : pc.sending = true → (∀ le held, pc ≠ .close le held) → ¬Closing st := by
    rintro hsend hclose (⟨le, held, hle⟩ | ⟨held, hheld⟩)
    · exact hclose le held (hw.symm.trans hle)
    · have := (hctl.trying _ hheld rfl).2
      rw [hw, hsend] at this
      cases this
  cases hs with
  | connect hmove => exact h.callMove hw hmove
  | @send le conns written hwrite =>
    have hlen := hsize le rfl
    rw [h.receiptOf_succ] at hwrite hlen
    have htime := htimes le rfl
    have hevent : ∀ le', (WriterPc.written le written).event = some le' → le' = le := by
      intro le' hle'
      cases written with
      | none => cases hle'
      | some k => exact (Option.some.inj hle').symm
    have hsent : ∀ le', (WriterPc.written le written).sent = some le' → le' = le := by
      intro le' hle'
      cases written with
      | none => cases hle'
      | some k => exact (Option.some.inj hle').symm
    refine h.wrote hwrite hlen (h.clean (hnot rfl nofun)) rfl ?_ (Nat.le_succ _) ?_ ?_ ?_ ?_ ?_ ?_
    · show st.receipt + 1 = UInt32.ofNat (st.calls + 1)
      rw [h.receipt, UInt32.ofNat_add]
      rfl
    · rintro call le' ⟨⟩
      exact le_rfl
    · intro le' hle'
      rw [hevent le' hle']
      exact htime
    · intro le' hle'
      obtain rfl := hsent le' hle'
      refine ⟨?_, fun c hc s hs le'' heq => ?_⟩
      · rintro le'' ⟨⟩
        rfl
      · exact absurd (h.calls c hc s hs _ le'' heq) (Nat.not_succ_le_self _)
    · intro n f hf
      obtain ⟨htext, hwhole⟩ := framesOf_take_sendPacket hpath htime n hf
      exact Or.inr ⟨st.calls + 1, le, htext, rfl, hwhole⟩
    · exact restOf_nul _
    · rintro rfl
      exact Or.inl ⟨le, false, rfl⟩
  | takeNone => exact h.still rfl rfl rfl h.times (fun _ => id) (Or.inr ⟨rfl, id⟩)
  | take _ hv =>
    have hopen := hnot rfl nofun
    cases hv with
    | _ => exact h.still rfl rfl rfl nofun nofun (Or.inr ⟨rfl, fun hc => absurd hc hopen⟩)
  | timeout =>
    exact h.still rfl rfl rfl nofun nofun (Or.inr ⟨rfl, fun hc => absurd hc (hnot rfl nofun)⟩)
  | close => exact h.still rfl rfl rfl nofun nofun (Or.inl rfl)
  | clear =>
    exact h.still rfl rfl rfl nofun nofun
      (Or.inr ⟨rfl, closing_congr (by rw [hw]; nofun) fun _ => id⟩)
  | wait | ready | woken =>
    exact h.still rfl rfl rfl htimes (fun le hle => by rw [hw]; exact hle)
      (Or.inr ⟨rfl, fun hc => absurd hc (hnot rfl nofun)⟩)

theorem connectMove (h : Outgoing p st) (hctl : Control st)
    (hconnect : (connectPacket p).length < 2 ^ 32) {r : Outcome} {pc : ConnectPc}
    (hpc : st.connectThread = some pc) (hs : ConnectMove p st r pc st') : Outgoing p st' := by
  have hnot : (∀ held, pc ≠ .close held) → pc.trying = true → ¬Closing st := by
    rintro hclose htry (⟨le, held, hle⟩ | ⟨held, hheld⟩)
    · have := (hctl.trying _ hpc htry).2
      rw [hle] at this
      cases this
    · exact hclose held (Option.some.inj (hpc.symm.trans hheld))
  have hsame : (∀ held, pc ≠ .close held) → Closing st → ∃ le held, st.writer = .close le held := by
    rintro hclose (hc | ⟨held, hheld⟩)
    · exact hc
    · exact absurd (Option.some.inj (hpc.symm.trans hheld)) (hclose held)
  cases hs with
  | opened =>
    refine h.keep rfl rfl h.times (fun _ => id) ?_ ?_ ?_
    · intro c' hc'
      rcases List.mem_append.1 hc' with hc' | hc'
      · exact Or.inl ⟨c', hc', rfl⟩
      · exact Or.inr (by rw [List.mem_singleton.1 hc']; rfl)
    · intro c' hc'
      rcases List.mem_append.1 hc' with hc' | hc'
      · exact h.received c' hc'
      · rw [List.mem_singleton.1 hc']
        exact le_rfl
    · rintro k c' ⟨⟩ hc'
      rw [List.getElem?_concat_length] at hc'
      obtain rfl := Option.some.inj hc'
      exact Or.inl rfl
  | refused => exact h.still rfl rfl rfl h.times (fun _ => id) (Or.inl rfl)
  | write hwrite =>
    refine h.wrote hwrite hconnect (h.clean (hnot nofun rfl)) rfl h.receipt le_rfl nofun h.times
      ?_ ?_ ?_ ?_
    · exact fun le hle => ⟨nofun, h.current le hle⟩
    · exact fun n f hf => Or.inl (Frames.split_subset (List.take_prefix n _) hf)
    · exact restOf_nul _
    · rintro rfl
      exact Or.inr ⟨false, rfl⟩
  | takeNone => exact h.still rfl rfl rfl h.times (fun _ => id) (Or.inr ⟨rfl, id⟩)
  | take _ hg =>
    have hopen := hnot nofun rfl
    cases hg with
    | _ => exact h.still rfl rfl rfl h.times (fun _ => id) (Or.inr ⟨rfl, fun hc => absurd hc hopen⟩)
  | close => exact h.still rfl rfl rfl h.times (fun _ => id) (Or.inl rfl)
  | _ =>
    exact h.still rfl rfl rfl h.times (fun _ => id)
      (Or.inr ⟨rfl, fun hc => Or.inl (hsame nofun hc)⟩)

/-- A step in which the server or the network does something on a connection, or a reader
reads. -/
theorem modified (h : Outgoing p st) {k : ℕ} {f : Conn → Conn}
    (hconns : st'.conns = st.conns.modify k f) (hf : ∀ c, (f c).sent = c.sent)
    (hreceived : ∀ c ∈ st.conns, (f c).received ≤ c.stream.length)
    (hr : st'.receipt = st.receipt) (hc : st'.calls = st.calls) (hw : st'.writer = st.writer)
    (ht : st'.connectThread = st.connectThread) (hs : st'.socket = st.socket) : Outgoing p st' := by
  have hold : ∀ (j : ℕ) (c' : Conn), st'.conns[j]? = some c' → ∃ c : Conn, st.conns[j]? = some c ∧
      c'.sent = c.sent ∧ c'.received ≤ c.stream.length := by
    intro j c' hc'
    rw [hconns, List.getElem?_modify] at hc'
    obtain ⟨c, hc, rfl⟩ := Option.map_eq_some_iff.1 hc'
    refine ⟨c, hc, ?_⟩
    split_ifs
    · exact ⟨hf c, hreceived c (List.mem_of_getElem? hc)⟩
    · exact ⟨rfl, h.received c (List.mem_of_getElem? hc)⟩
  refine h.keep hr hc (hw ▸ h.times) (fun le hle => hw ▸ hle) ?_ ?_ ?_
  · intro c' hc'
    obtain ⟨j, hj⟩ := List.mem_iff_getElem?.1 hc'
    obtain ⟨c, hc, hsent, -⟩ := hold j c' hj
    exact Or.inl ⟨c, List.mem_of_getElem? hc, hsent⟩
  · intro c' hc'
    obtain ⟨j, hj⟩ := List.mem_iff_getElem?.1 hc'
    obtain ⟨c, hc, hsent, hlen⟩ := hold j c' hj
    rwa [stream_congr hsent]
  · intro j c' hj hc'
    obtain ⟨c, hc, hsent, -⟩ := hold j c' hc'
    rw [stream_congr hsent]
    refine (h.rest j c (hs ▸ hj) hc).imp_right ?_
    rintro (⟨le, held, hle⟩ | ⟨held, hheld⟩)
    · exact Or.inl ⟨le, held, hw.trans hle⟩
    · exact Or.inr ⟨held, ht.trans hheld⟩

theorem readerMove (h : Outgoing p st) {i : ℕ} {rd : Reader} (hs : ReaderMove st i rd st') :
    Outgoing p st' := by
  cases hs with
  | read => exact h.modified rfl (fun _ => rfl) h.received rfl rfl rfl rfl rfl
  | fail | close => exact h.still rfl rfl rfl h.times (fun _ => id) (Or.inl rfl)
  | _ => exact h.still rfl rfl rfl h.times (fun _ => id) (Or.inr ⟨rfl, id⟩)

theorem move (h : Outgoing p st) (hctl : Control st) (hpath : 0 ∉ p.url.path)
    (hconnect : (connectPacket p).length < 2 ^ 32) {a : Action}
    (htime : ∀ le, a = .call le → 0 ∉ le.timeString)
    (hsize : ∀ le r, a = .writer r → st.writer = .send le →
      (sendPacket p (st.receipt + 1).toNat le).length < 2 ^ 32)
    (hs : Move p st a st') : Outgoing p st' := by
  cases hs with
  | @call le hidle =>
    refine h.still rfl rfl rfl ?_ nofun
      (Or.inr ⟨rfl, closing_congr (by rw [hidle]; nofun) fun _ => id⟩)
    rintro le' ⟨⟩
    exact htime le rfl
  | @writer r st' hmove =>
    exact h.writerMove hctl hpath rfl (fun le hle => hsize le r rfl hle) hmove
  | connect hpc hmove => exact h.connectMove hctl hconnect hpc hmove
  | reader _ hmove => exact h.readerMove hmove
  | deliver =>
    exact h.modified rfl (fun _ => rfl) (fun c _ => min_le_right _ _) rfl rfl rfl rfl rfl
  | serve | lose => exact h.modified rfl (fun _ => rfl) h.received rfl rfl rfl rfl rfl

end Outgoing

theorem outgoing_start (p : StompParams) : Outgoing p .start :=
  ⟨rfl, nofun, nofun, nofun, nofun, nofun, nofun⟩

end Logfile.Stomp
