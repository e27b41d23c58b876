import Logfile.StompLedger

/-!
# No false acknowledgement

A server that confirms a receipt only after it has received a SEND frame asking for it. When
`do_write` returns true, the RECEIPT it has taken is for the number of its own SEND, however
late or on whichever connection it came, so this SEND has arrived (`noFalseReceipt_of_reach`).

The SEND frames the server sees are the ones `do_write` wrote only if the CONNECT packet
contains none. The host, the login and the password of the URL go into it as they are, and
with a NUL in them a URL brings SEND frames of its own (`receipt_for_login`).
-/

set_option linter.unusedSectionVars false

namespace Logfile.Stomp

open Text

/-! ## The server -/

/-- The receipt that a frame asks for, if it is a SEND. -/
def receiptAsked (f : Bytes) : Option Bytes :=
  (replyOf f).bind fun r =>
    if r.command = ascii "SEND" then r.headers.lookup (ascii "receipt") else none

/-- The receipt that a frame confirms. -/
def receiptGiven (f : Bytes) : Option Bytes :=
  (replyOf f).bind StompReply.receipt

/-- The server has received a complete SEND frame that asks for the receipt `v`. -/
def acknowledged (st : State) (v : Bytes) : Bool :=
  st.conns.any fun c => (framesOf c.arrived).any fun f => receiptAsked f = some v

/-- The server confirms a receipt only when it has received a SEND frame that asks for it. -/
def serverHonest (st : State) : Action → Bool
  | .serve k data => st.conns[k]?.all fun c =>
    (framesOf (c.served ++ data)).all fun f => (receiptGiven f).all (acknowledged st)
  | _ => true

/-- `handle_reply` gets a frame as it was sent on some connection. -/
def framesWhole (st : State) : Action → Bool
  | .reader i _ =>
    match st.readers[i]? with
    | some ⟨_, _, .handle _ _⟩ => st.conns.any fun c => (framesOf c.served).contains st.partialText
    | _ => true
  | _ => true

/-- `log_thread::log` has set the text of the time. -/
def timeFormatted (f : TimeFormat) : Action → Bool
  | .call le => le.timeString = formatTime f le.time
  | _ => true

/-- What is assumed of the server, the network and the caller. -/
def Fair (f : TimeFormat) (st : State) (a : Action) : Prop :=
  serverHonest st a = true ∧ framesWhole st a = true ∧ timeFormatted f a = true

/-- The length of the packet that `do_write` is about to write is an `unsigned`. -/
def SendFits (p : StompParams) (st : State) (a : Action) : Prop :=
  ∀ le r, a = .writer r → st.writer = .send le →
    (sendPacket p (st.receipt + 1).toNat le).length < 2 ^ 32

/-- So is the length of the CONNECT packet, and there is no SEND frame in it that asks for a
receipt. -/
structure ConnectClean (p : StompParams) : Prop where
  length : (connectPacket p).length < 2 ^ 32
  asks : ∀ f ∈ framesOf (connectPacket p), receiptAsked f = none

/-- The server has received the SEND of the given number, which carries the event. -/
def Confirmed (p : StompParams) (st : State) (call : ℕ) (le : LogEvent) : Prop :=
  ∃ c ∈ st.conns, c.Carries p call le ∧ sendText p (receiptOf call) le ∈ framesOf c.arrived

/-- When `do_write` returned true, the server had received the complete SEND of this very
call. -/
def NoFalseReceipt (p : StompParams) (st : State) : Prop :=
  ∀ call le, .returned call le true ∈ st.trace → ∃ n, call = some n ∧ Confirmed p st n le

variable {p : StompParams} {st st' : State}

/-! ## What has arrived stays -/

/-- More goes out and arrives on each connection. -/
def Grows (conns conns' : List Conn) : Prop :=
  ∀ (k : ℕ) (c : Conn), conns[k]? = some c → ∃ c' : Conn, conns'[k]? = some c' ∧
    c.sent <+: c'.sent ∧ c.arrived <+: c'.arrived

theorem Grows.refl (conns : List Conn) : Grows conns conns :=
  fun _ c hc => ⟨c, hc, List.prefix_rfl, List.prefix_rfl⟩

theorem grows_modify {conns : List Conn} {k : ℕ} {f : Conn → Conn}
    (h : ∀ c ∈ conns, c.sent <+: (f c).sent ∧ c.arrived <+: (f c).arrived) :
    Grows conns (conns.modify k f) := by
  intro j c hc
  rw [List.getElem?_modify, hc]
  by_cases hk : k = j
  · exact ⟨f c, by simp [hk], h c (List.mem_of_getElem? hc)⟩
  · exact ⟨c, by simp [hk], List.prefix_rfl, List.prefix_rfl⟩

theorem arrived_prefix {c c' : Conn} (hs : c.sent <+: c'.sent) (hr : c.received ≤ c'.received) :
    c.arrived <+: c'.arrived := by
  obtain ⟨t, ht⟩ := hs
  have hstream : c'.stream = c.stream ++ t.flatMap Sent.bytes := by
    rw [Conn.stream, ← ht, List.flatMap_append]
    rfl
  have hmore : c.stream.take c.received <+: c.stream.take c'.received :=
    List.take_prefix_take_left hr
  rw [Conn.arrived, Conn.arrived, hstream]
  exact hmore.trans ((List.prefix_append _ _).take _)

theorem grows_writes {conns conns' : List Conn} {socket written : Option ℕ} {packet : Packet}
    {bytes : Bytes} (h : Writes conns socket packet bytes conns' written) :
    Grows conns conns' := by
  cases h with
  | throws => exact .refl _
  | short | full =>
    exact grows_modify fun c _ =>
      ⟨List.prefix_append _ _, arrived_prefix (List.prefix_append _ _) le_rfl⟩

theorem grows_writerMove {pc : WriterPc} (hs : WriterMove p st pc st') :
    Grows st.conns st'.conns := by
  cases hs with
  | connect hmove => cases hmove <;> exact .refl _
  | send hw => exact grows_writes hw
  | take _ hv => cases hv <;> exact .refl _
  | _ => exact .refl _

theorem grows_move {a : Action} (ho : Outgoing p st) (hs : Move p st a st') :
    Grows st.conns st'.conns := by
  cases hs with
  | writer hmove => exact grows_writerMove hmove
  | connect _ hmove =>
    cases hmove with
    | opened =>
      intro k c hc
      have hlt : k < st.conns.length := (List.getElem?_eq_some_iff.1 hc).1
      exact ⟨c, (List.getElem?_append_left hlt).trans hc, List.prefix_rfl, List.prefix_rfl⟩
    | write hw => exact grows_writes hw
    | take _ hg => cases hg <;> exact .refl _
    | _ => exact .refl _
  | reader _ hmove =>
    cases hmove with
    | read => exact grows_modify fun c _ => ⟨List.prefix_rfl, List.prefix_rfl⟩
    | _ => exact .refl _
  | call => exact .refl _
  | deliver =>
    refine grows_modify fun c hc => ⟨List.prefix_rfl, arrived_prefix List.prefix_rfl ?_⟩
    exact le_min (Nat.le_add_right _ _) (ho.received c hc)
  | serve | lose => exact grows_modify fun c _ => ⟨List.prefix_rfl, List.prefix_rfl⟩

theorem acknowledged_iff {v : Bytes} : acknowledged st v = true ↔
    ∃ c ∈ st.conns, ∃ f ∈ framesOf c.arrived, receiptAsked f = some v := by
  simp [acknowledged]

theorem Grows.acknowledged (h : Grows st.conns st'.conns) {v : Bytes}
    (hv : acknowledged st v = true) : acknowledged st' v = true := by
  obtain ⟨c, hc, f, hf, hask⟩ := acknowledged_iff.1 hv
  obtain ⟨k, hk⟩ := List.mem_iff_getElem?.1 hc
  obtain ⟨c', hc', -, harrived⟩ := h k c hk
  exact acknowledged_iff.2
    ⟨c', List.mem_of_getElem? hc', f, Frames.split_subset harrived hf, hask⟩

theorem Grows.confirmed (h : Grows st.conns st'.conns) {call : ℕ} {le : LogEvent}
    (hc : Confirmed p st call le) : Confirmed p st' call le := by
  obtain ⟨c, hmem, hcarries, hf⟩ := hc
  obtain ⟨k, hk⟩ := List.mem_iff_getElem?.1 hmem
  obtain ⟨c', hc', hsent, harrived⟩ := h k c hk
  exact ⟨c', List.mem_of_getElem? hc', hsent.subset hcarries,
    Frames.split_subset harrived hf⟩

/-! ## The receipt of the current call -/

theorem receiptAsked_sendText (hpath : 10 ∉ p.url.path) (receipt : ℕ) (le : LogEvent) :
    receiptAsked (sendText p receipt le) = some (toDec receipt) := by
  rw [receiptAsked, replyOf_sendText p receipt le hpath]
  rfl

/-- The only SEND that asks for the current receipt is the current one. -/
theorem confirmed_of_acknowledged (ho : Outgoing p st) (hpath : 10 ∉ p.url.path)
    (hconnect : ConnectClean p) (hcalls : st.calls < 2 ^ 32) {le : LogEvent}
    (hw : st.writer.sent = some le) (hack : acknowledged st (toDec st.receipt.toNat) = true) :
    Confirmed p st st.calls le := by
  obtain ⟨c, hc, f, hf, hask⟩ := acknowledged_iff.1 hack
  have hstream : f ∈ framesOf c.stream :=
    Frames.split_subset (List.take_prefix _ _) hf
  rcases ho.frames c hc f hstream with hcon | ⟨call, le', rfl, hcarries⟩
  · rw [hconnect.asks f hcon] at hask
    cases hask
  · rw [receiptAsked_sendText hpath, ho.receipt] at hask
    have hnumber : receiptOf call = receiptOf st.calls := toDec_injective (Option.some.inj hask)
    have hle : call ≤ st.calls := ho.calls c hc _ hcarries call le' rfl
    obtain rfl : call = st.calls := by
      simp only [receiptOf, UInt32.toNat_ofNat'] at hnumber
      omega
    obtain rfl := ho.current le hw c hc _ hcarries le' rfl
    exact ⟨c, hc, hcarries, hf⟩

/-! ## Replies on their way -/

/-- The reply that a reader has parsed and not yet queued. -/
def ReaderPc.reply : ReaderPc → Option StompReply
  | push _ _ reply _ => some reply
  | _ => none

/-- Every receipt on its way back has been asked for, and `do_write` has returned true only
for a SEND that has arrived. -/
structure Incoming (p : StompParams) (st : State) : Prop where
  served : ∀ c ∈ st.conns, ∀ f ∈ framesOf c.served, ∀ v, receiptGiven f = some v →
    acknowledged st v = true
  parsed : ∀ r ∈ st.readers, ∀ reply ∈ r.pc.reply, ∀ v, reply.receipt = some v →
    acknowledged st v = true
  queued : ∀ e ∈ st.replyQueue, ∀ v, e.1.receipt = some v → acknowledged st v = true
  returned : st.calls < 2 ^ 32 → NoFalseReceipt p st

namespace Incoming

/-- A connection with what the server has sent on a connection before, or a new one. -/
def ServedBefore (conns conns' : List Conn) : Prop :=
  ∀ c' ∈ conns', c'.served = [] ∨ ∃ c ∈ conns, c'.served = c.served

theorem ServedBefore.refl (conns : List Conn) : ServedBefore conns conns :=
  fun c hc => Or.inr ⟨c, hc, rfl⟩

theorem servedBefore_modify {conns : List Conn} {k : ℕ} {f : Conn → Conn}
    (h : ∀ c, (f c).served = c.served) : ServedBefore conns (conns.modify k f) := by
  intro c' hc'
  obtain ⟨j, hj⟩ := List.mem_iff_getElem?.1 hc'
  rw [List.getElem?_modify] at hj
  obtain ⟨c, hc, rfl⟩ := Option.map_eq_some_iff.1 hj
  refine Or.inr ⟨c, List.mem_of_getElem? hc, ?_⟩
  split_ifs
  · exact h c
  · rfl

theorem servedBefore_writes {conns conns' : List Conn} {socket written : Option ℕ}
    {packet : Packet} {bytes : Bytes} (h : Writes conns socket packet bytes conns' written) :
    ServedBefore conns conns' := by
  cases h with
  | throws => exact .refl _
  | short | full => exact servedBefore_modify fun _ => rfl

/-- A step in which the server sends nothing. A reply that a reader has parsed is an old one or
one whose receipt has been asked for. -/
theorem keep (h : Incoming p st) (hg : Grows st.conns st'.conns)
    (hserved : ServedBefore st.conns st'.conns)
    (hreaders : ∀ r ∈ st'.readers, r ∈ st.readers ∨
      ∀ reply ∈ r.pc.reply, ∀ v, reply.receipt = some v → acknowledged st v = true)
    (hqueue : ∀ e ∈ st'.replyQueue, e ∈ st.replyQueue ∨
      ∃ r ∈ st.readers, r.pc.reply = some e.1)
    (hreturned : st'.calls < 2 ^ 32 → NoFalseReceipt p st') : Incoming p st' where
  served c' hc' f hf v hv := by
    rcases hserved c' hc' with hnil | ⟨c, hc, heq⟩
    · rw [hnil] at hf
      cases hf
    · exact hg.acknowledged (h.served c hc f (heq ▸ hf) v hv)
  parsed r hr reply hreply v hv := by
    rcases hreaders r hr with hold | hnew
    · exact hg.acknowledged (h.parsed r hold reply hreply v hv)
    · exact hg.acknowledged (hnew reply hreply v hv)
  queued e he v hv := by
    rcases hqueue e he with hold | ⟨r, hr, hreply⟩
    · exact hg.acknowledged (h.queued e hold v hv)
    · exact hg.acknowledged (h.parsed r hr e.1 hreply v hv)
  returned := hreturned

/-- The results of earlier calls. -/
theorem returned_keep (h : Incoming p st) (hg : Grows st.conns st'.conns)
    (hcalls : st.calls ≤ st'.calls)
    (htrace : ∀ call le, .returned call le true ∈ st'.trace → .returned call le true ∈ st.trace)
    (hlt : st'.calls < 2 ^ 32) : NoFalseReceipt p st' := by
  intro call le hret
  obtain ⟨n, hn, hc⟩ := h.returned (hcalls.trans_lt hlt) call le (htrace call le hret)
  exact ⟨n, hn, hg.confirmed hc⟩

/-- A step of the writer or the connect thread. -/
theorem other (h : Incoming p st) (ho : Outgoing p st) (hpath : 10 ∉ p.url.path)
    (hconnect : ConnectClean p) (hg : Grows st.conns st'.conns)
    (hserved : ServedBefore st.conns st'.conns)
    (hreaders : ∀ r ∈ st'.readers, r ∈ st.readers ∨ r.pc.reply = none)
    (hqueue : st'.replyQueue ⊆ st.replyQueue) (hcalls : st.calls ≤ st'.calls)
    (hadds : Adds st st') : Incoming p st' := by
  have hreaders : ∀ r ∈ st'.readers, r ∈ st.readers ∨
      ∀ reply ∈ r.pc.reply, ∀ v, reply.receipt = some v → acknowledged st v = true := by
    refine fun r hr => (hreaders r hr).imp_right fun hnone => ?_
    rw [hnone]
    nofun
  refine h.keep hg hserved hreaders (fun e he => Or.inl (hqueue he)) fun hlt => ?_
  rcases hadds with ⟨new, hnew, hanswer⟩ | ⟨hnew, -⟩
  · intro call le hret
    rw [hnew] at hret
    rcases List.mem_append.1 hret with hold | hret
    · obtain ⟨n, hn, hc⟩ := h.returned (hcalls.trans_lt hlt) call le hold
      exact ⟨n, hn, hg.confirmed hc⟩
    · cases hanswer _ hret with
      | returned htrue =>
        obtain ⟨rfl, hsent, e, he, hreceipt⟩ := htrue rfl
        refine ⟨st.calls, rfl, hg.confirmed ?_⟩
        exact confirmed_of_acknowledged ho hpath hconnect (hcalls.trans_lt hlt) hsent
          (h.queued e he _ hreceipt)
  · refine h.returned_keep hg hcalls (fun call le hret => ?_) hlt
    rw [hnew] at hret
    rcases List.mem_append.1 hret with hold | hret
    · exact hold
    · obtain ⟨k, -, hk⟩ := List.mem_map.1 hret
      cases hk

theorem writerMove (h : Incoming p st) (ho : Outgoing p st) (hpath : 10 ∉ p.url.path)
    (hconnect : ConnectClean p) {pc : WriterPc} (hw : st.writer = pc)
    (hs : WriterMove p st pc st') : Incoming p st' := by
  have hstill := still_writerMove hs
  refine h.other ho hpath hconnect (grows_writerMove hs) ?_
    (fun r hr => Or.inl (hstill.readers ▸ hr)) hstill.replyQueue ?_ (adds_writerMove hw hs)
  · cases hs with
    | connect hmove => cases hmove <;> exact .refl _
    | send hwrite => exact servedBefore_writes hwrite
    | take _ hv => cases hv <;> exact .refl _
    | _ => exact .refl _
  · cases hs with
    | connect hmove => cases hmove <;> exact le_rfl
    | send => exact Nat.le_succ _
    | take _ hv => cases hv <;> exact le_rfl
    | _ => exact le_rfl

theorem connectMove (h : Incoming p st) (ho : Outgoing p st) (hpath : 10 ∉ p.url.path)
    (hconnect : ConnectClean p) {r : Outcome} {pc : ConnectPc} (hpc : st.connectThread = some pc)
    (hs : ConnectMove p st r pc st') : Incoming p st' := by
  have hg : Grows st.conns st'.conns := grows_move ho (.connect hpc hs)
  have hadds := adds_connectMove hpc hs
  cases hs with
  | opened =>
    refine h.other ho hpath hconnect hg ?_ (fun _ => Or.inl) (fun _ => id) le_rfl hadds
    intro c' hc'
    rcases List.mem_append.1 hc' with hc' | hc'
    · exact Or.inr ⟨c', hc', rfl⟩
    · exact Or.inl (by rw [List.mem_singleton.1 hc']; rfl)
  | write hw =>
    exact h.other ho hpath hconnect hg (servedBefore_writes hw) (fun _ => Or.inl) (fun _ => id)
      le_rfl hadds
  | spawn =>
    refine h.other ho hpath hconnect hg (.refl _) ?_ (fun _ => id) le_rfl hadds
    intro r hr
    rcases List.mem_append.1 hr with hr | hr
    · exact Or.inl hr
    · exact Or.inr (by rw [List.mem_singleton.1 hr]; rfl)
  | take hq hgreet =>
    have hsub : ∀ {e}, e ∈ _ → e ∈ st.replyQueue := fun he => hq ▸ List.mem_cons_of_mem _ he
    cases hgreet with
    | _ =>
      exact h.other ho hpath hconnect hg (.refl _) (fun _ => Or.inl) (fun _ => hsub) le_rfl hadds
  | _ =>
    exact h.other ho hpath hconnect hg (.refl _) (fun _ => Or.inl) (fun _ => id) le_rfl hadds

/-- A step of a reader. -/
theorem moves (h : Incoming p st) {i : ℕ} {rd : Reader} (hrd : st.readers[i]? = some rd)
    {f : Reader → Reader} (hf : st'.readers = st.readers.modify i f)
    (hg : Grows st.conns st'.conns) (hserved : ServedBefore st.conns st'.conns)
    (hreply : ∀ reply ∈ (f rd).pc.reply, ∀ v, reply.receipt = some v → acknowledged st v = true)
    (hqueue : ∀ e ∈ st'.replyQueue, e ∈ st.replyQueue ∨ rd.pc.reply = some e.1)
    (hcalls : st'.calls = st.calls)
    (htrace : ∀ call le, .returned call le true ∈ st'.trace → .returned call le true ∈ st.trace) :
    Incoming p st' := by
  refine h.keep hg hserved (fun r hr => ?_) (fun e he => ?_) (h.returned_keep hg hcalls.ge htrace)
  · rcases of_mem_modify hrd (hf ▸ hr) with rfl | ⟨j, -, hj⟩
    · exact Or.inr hreply
    · exact Or.inl (List.mem_of_getElem? hj)
  · exact (hqueue e he).imp_right fun hpushed => ⟨rd, List.mem_of_getElem? hrd, hpushed⟩

theorem readerMove (h : Incoming p st) (ho : Outgoing p st) {i : ℕ} {rd : Reader} {r : Outcome}
    (hrd : st.readers[i]? = some rd) (hwhole : framesWhole st (.reader i r) = true)
    (hs : ReaderMove st i rd st') : Incoming p st' := by
  have hg : Grows st.conns st'.conns := grows_move (a := .reader i r) ho (.reader hrd hs)
  have hclosed : ∀ call le,
      .returned call le true ∈ st.trace ++ st.socket.toList.map (Obs.closed (some i)) →
        .returned call le true ∈ st.trace := by
    intro call le hret
    rcases List.mem_append.1 hret with hold | hret
    · exact hold
    · obtain ⟨k, -, hk⟩ := List.mem_map.1 hret
      cases hk
  have hadded : ∀ o call le, (∀ call le, o ≠ .returned call le true) →
      .returned call le true ∈ st.trace ++ [o] → .returned call le true ∈ st.trace := by
    intro o call le ho hret
    rcases List.mem_append.1 hret with hold | hret
    · exact hold
    · exact absurd (List.mem_singleton.1 hret).symm (ho call le)
  cases hs with
  | @jump pc hj =>
    refine h.moves hrd rfl hg (.refl _) ?_ (fun e he => Or.inl he) rfl fun _ _ => id
    cases hpc : pc.reply with
    | none => nofun
    | some reply =>
      rintro _ ⟨⟩ v hv
      obtain ⟨hparsed, k, rest, hhandle⟩ : replyOf st.partialText = some reply ∧
          ∃ k rest, rd.pc = .handle k rest := by
        generalize rd.pc = pc₀ at hj
        cases hj with
        | accept hparsed =>
          obtain rfl := Option.some.inj hpc
          exact ⟨hparsed, _, _, rfl⟩
        | _ => cases hpc
      obtain ⟨home, hasRead, pc₀⟩ := rd
      obtain rfl : pc₀ = .handle k rest := hhandle
      obtain ⟨c, hc, hf⟩ : ∃ c ∈ st.conns, st.partialText ∈ framesOf c.served := by
        simpa [framesWhole, hrd] using hwhole
      refine h.served c hc _ hf v ?_
      rw [receiptGiven, hparsed]
      exact hv
  | read =>
    exact h.moves hrd rfl hg (servedBefore_modify fun _ => rfl) nofun (fun e he => Or.inl he) rfl
      fun call le => hadded _ call le nofun
  | fail => exact h.moves hrd rfl hg (.refl _) nofun (fun e he => Or.inl he) rfl hclosed
  | close => exact h.moves hrd rfl hg (.refl _) nofun (fun e he => Or.inl he) rfl hclosed
  | reject =>
    exact h.moves hrd rfl hg (.refl _) nofun (fun e he => Or.inl he) rfl
      fun call le => hadded _ call le nofun
  | @push k rest reply origin hpc =>
    refine h.moves hrd rfl hg (.refl _) nofun (fun e he => ?_) rfl fun _ _ => id
    rcases List.mem_append.1 he with he | he
    · exact Or.inl he
    · rw [List.mem_singleton.1 he, hpc]
      exact Or.inr rfl
  | @append k rest data rest' pc hpc htake hnext =>
    refine h.moves hrd rfl hg (.refl _) ?_ (fun e he => Or.inl he) rfl fun _ _ => id
    rcases hnext with ⟨-, rfl⟩ | ⟨rest, -, rfl⟩ <;> nofun
  | @clear k rest ret hpc =>
    refine h.moves hrd rfl hg (.refl _) ?_ (fun e he => Or.inl he) rfl fun _ _ => id
    cases ret <;> nofun
  | @drop last hpc =>
    refine h.moves hrd rfl hg (.refl _) ?_ (fun e he => Or.inl he) rfl fun _ _ => id
    cases last <;> nofun
  | tolerate =>
    exact h.moves hrd rfl hg (.refl _) nofun (fun e he => Or.inl he) rfl fun _ _ => id

/-- The server sends. -/
theorem serve (h : Incoming p st) {k : ℕ} {data : Bytes}
    (hhonest : serverHonest st (.serve k data) = true)
    (hg : Grows st.conns (st.modifyConn k fun c =>
      { c with served := c.served ++ data, inbox := c.inbox ++ data }).conns) :
    Incoming p (st.modifyConn k fun c =>
      { c with served := c.served ++ data, inbox := c.inbox ++ data }) where
  served c' hc' f hf v hv := by
    obtain ⟨j, hj⟩ := List.mem_iff_getElem?.1 hc'
    simp only [State.modifyConn, List.getElem?_modify] at hj
    obtain ⟨c, hc, rfl⟩ := Option.map_eq_some_iff.1 hj
    refine hg.acknowledged ?_
    split_ifs at hf with hkj
    · subst hkj
      simp only [serverHonest, hc, Option.all_some, List.all_eq_true] at hhonest
      have := hhonest f hf
      rw [hv] at this
      exact this
    · exact h.served c (List.mem_of_getElem? hc) f hf v hv
  parsed r hr reply hreply v hv := hg.acknowledged (h.parsed r hr reply hreply v hv)
  queued e he v hv := hg.acknowledged (h.queued e he v hv)
  returned := h.returned_keep hg le_rfl fun _ _ => id

theorem move (h : Incoming p st) (ho : Outgoing p st) (hpath : 10 ∉ p.url.path)
    (hconnect : ConnectClean p) {a : Action} (hhonest : serverHonest st a = true)
    (hwhole : framesWhole st a = true) (hs : Move p st a st') : Incoming p st' := by
  have hg := grows_move ho hs
  cases hs with
  | writer hmove => exact h.writerMove ho hpath hconnect rfl hmove
  | connect hpc hmove => exact h.connectMove ho hpath hconnect hpc hmove
  | reader hrd hmove => exact h.readerMove ho hrd hwhole hmove
  | serve => exact h.serve hhonest hg
  | call =>
    exact h.keep hg (.refl _) (fun _ => Or.inl) (fun e he => Or.inl he)
      (h.returned_keep hg le_rfl fun _ _ => id)
  | deliver | lose =>
    exact h.keep hg (servedBefore_modify fun _ => rfl) (fun _ => Or.inl) (fun e he => Or.inl he)
      (h.returned_keep hg le_rfl fun _ _ => id)

end Incoming

/-- With a path without '\n' and NUL and a CONNECT packet that asks for no receipt, packets of
an `unsigned` length, and fewer than 2^32 SENDs, `do_write` returns true only when the server
has received its SEND. -/
theorem noFalseReceipt_of_reach (p : StompParams) (f : TimeFormat)
    (hpath : 10 ∉ p.url.path ∧ 0 ∉ p.url.path) (hconnect : ConnectClean p) {st : State}
    (h : (system p).Reach (fun st a => Fair f st a ∧ SendFits p st a) st)
    (hcalls : st.calls < 2 ^ 32) : NoFalseReceipt p st := by
  obtain ⟨-, hin⟩ : Outgoing p st ∧ Incoming p st := by
    refine h.invariant (I := fun st => Outgoing p st ∧ Incoming p st) ?_
      fun st a st' hr ⟨hout, hin⟩ ⟨⟨hhonest, hwhole, htime⟩, hsize⟩ hs => ⟨?_, ?_⟩
    · rintro _ rfl
      exact ⟨outgoing_start p, nofun, nofun, nofun, nofun⟩
    · refine hout.move (control_of_reach hr) hpath.2 hconnect.length ?_ hsize (move hs)
      rintro le rfl
      rw [of_decide_eq_true htime]
      exact nul_not_mem_formatTime f le.time
    · exact hin.move hout hpath.1 hconnect hhonest hwhole (move hs)
  exact hin.returned hcalls

/-! ## A login that asks for a receipt -/

/-- `%Y-%m-%d %H:%M:%S` of some time, in the array of 22 characters. -/
def someTime : TimeFormat := ⟨fun _ => ascii "2017-01-01 00:00:00" ++ [0, 0, 0], false⟩

/-- Ends the CONNECT frame and brings a SEND frame. -/
def loginWithSend : Bytes := ascii "u\n\n" ++ 0 :: ascii "SEND\nreceipt:1\n\n"

def loginParams : StompParams :=
  { someParams with
    url := { someParams.url with login := loginWithSend, password := ascii "p" } }

def firstReceipt : Bytes := ascii "RECEIPT\nreceipt-id:1\n\n" ++ [0]

/-- The stream connects and writes the first event. -/
def firstSend : List Action :=
  firstConnect ++ .deliver 0 2000 :: .serve 0 greeting :: reads 0 9 ++ connects 5 ++
    .call someEvent :: writes 3

/-- `do_write` of the first event has returned true. -/
def acceptedFirst (st : State) : Bool :=
  st.trace.contains (.returned (some 1) someEvent true)

def fewCalls (st : State) : Bool := st.calls < 2 ^ 32

/-- All frames that have arrived at the server are shorter than a SEND of the stream. -/
def arrivedShort (st : State) : Bool :=
  st.conns.all fun c => (framesOf c.arrived).all fun f => f.length < 100

def fair (st : State) (a : Action) : Bool :=
  serverHonest st a && framesWhole st a && timeFormatted someTime a

def sendFits (p : StompParams) (st : State) (a : Action) : Bool :=
  match a, st.writer with
  | .writer _, .send le => (sendPacket p (st.receipt + 1).toNat le).length < 2 ^ 32
  | _, _ => true

theorem fair_of {st : State} {a : Action} (h : fair st a = true) : Fair someTime st a := by
  simpa [Fair, fair, and_assoc] using h

theorem sendFits_of {st : State} {a : Action} (h : sendFits p st a = true) : SendFits p st a := by
  rintro le r rfl hw
  simpa [sendFits, hw] using h

/-- The server answers the SEND frame of the login before the stream's own has arrived. -/
def answeredEarly : List Action :=
  firstSend ++ .serve 0 firstReceipt :: reads 0 7 ++ writes 2

theorem receipt_for_login :
    ¬∀ (p : StompParams) (f : TimeFormat), (10 ∉ p.url.path ∧ 0 ∉ p.url.path) → ∀ st,
      (system p).Reach (Fair f) st → st.calls < 2 ^ 32 → NoFalseReceipt p st := by
  intro h
  obtain ⟨st, hreach, hst⟩ := System.exists_reach (T := system loginParams) (b := fair)
    (p := Fair someTime) (fun _ _ => fair_of) rfl answeredEarly
    (fun st => acceptedFirst st && fewCalls st && arrivedShort st) (by decide +kernel)
  simp only [Bool.and_eq_true] at hst
  obtain ⟨⟨haccepted, hcalls⟩, hshort⟩ := hst
  have hpath : 10 ∉ loginParams.url.path ∧ 0 ∉ loginParams.url.path := by decide
  obtain ⟨n, hn, c, hc, -, hsend⟩ := h loginParams someTime hpath st hreach
    (of_decide_eq_true hcalls) _ _ (List.contains_iff_mem.1 haccepted)
  have hlt := List.all_eq_true.1 (List.all_eq_true.1 hshort c hc) _ hsend
  cases hn
  exact absurd (of_decide_eq_true hlt) (by decide +kernel)

/-- The server answers the SEND frame of the stream. -/
def answeredHonestly : List Action :=
  firstSend ++ .deliver 0 2000 :: .serve 0 firstReceipt :: reads 0 7 ++ writes 2

theorem noFalseReceipt_answeredHonestly :
    ∃ st, acceptedFirst st = true ∧ NoFalseReceipt someParams st := by
  obtain ⟨st, hreach, hst⟩ := System.exists_reach (T := system someParams)
    (b := fun st a => fair st a && sendFits someParams st a)
    (p := fun st a => Fair someTime st a ∧ SendFits someParams st a)
    (fun st a hok => (Bool.and_eq_true_iff.1 hok).imp fair_of sendFits_of) rfl answeredHonestly
    (fun st => acceptedFirst st && fewCalls st) (by decide +kernel)
  simp only [Bool.and_eq_true] at hst
  obtain ⟨haccepted, hcalls⟩ := hst
  exact ⟨st, haccepted, noFalseReceipt_of_reach someParams someTime (by decide)
    ⟨by decide, by decide⟩ hreach (of_decide_eq_true hcalls)⟩

end Logfile.Stomp
