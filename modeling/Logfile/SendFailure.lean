import Logfile.StompReaders

/-!
# A failed SEND is the last on its connection

`do_write` disconnects where its `write` fails, where no reply comes in time and where the
reply is no RECEIPT or has no `receipt-id`. It does not where the `receipt-id` is another one.
As long as it takes no such reply, a `do_write` that has sent and returns false leaves no
connection behind, and so no later SEND goes out on the one that it used (`failedDown_of_reach`).
-/

namespace Logfile.Stomp

/-! ## Failures and connections -/

/-- The SEND of the given number, or a part of it, went out on the connection `k`. -/
def State.Sends (st : State) (k call : ℕ) : Prop :=
  ∃ c, st.conns[k]? = some c ∧ ∃ s ∈ c.sent, ∃ le, s.packet = .send call le

/-- The `do_write` of the given SEND returned false. -/
def State.Failed (st : State) (call : ℕ) : Prop :=
  ∃ le, .returned (some call) le false ∈ st.trace

/-- A `do_write` that has sent and returns false leaves the stream disconnected, and no later
SEND goes out on its connection. -/
structure FailedDown (st : State) : Prop where
  down : st.writer = .idle →
    ∀ call le, st.trace.getLast? = some (.returned (some call) le false) →
      st.connected = false ∧ st.socket = none
  last : ∀ k call call', st.Failed call → st.Sends k call → st.Sends k call' → call' ≤ call

/-- The RECEIPT that `do_write` takes is the one for its SEND. -/
def TakesOwnReceipt (st : State) : Action → Prop
  | .writer _ => ∀ le k reply origin replyQueue id, st.writer = .take le k →
      st.replyQueue = (reply, origin) :: replyQueue → reply.receipt = some id →
        id = Text.toDec st.receipt.toNat
  | _ => True

variable {p : StompParams} {st st' : State}

theorem State.Sends.lt {k call : ℕ} (h : st.Sends k call) : k < st.conns.length := by
  obtain ⟨c, hc, -⟩ := h
  exact (List.getElem?_eq_some_iff.1 hc).1

/-- A step that changes no `sent`. -/
theorem sends_modify {k j call : ℕ} {f : Conn → Conn} (hconns : st'.conns = st.conns.modify j f)
    (hf : ∀ c, (f c).sent = c.sent) (h : st'.Sends k call) : st.Sends k call := by
  obtain ⟨c, hc, s, hs, hcall⟩ := h
  rw [hconns, List.getElem?_modify] at hc
  obtain ⟨c, hc', rfl⟩ := Option.map_eq_some_iff.1 hc
  refine ⟨c, hc', s, ?_, hcall⟩
  split_ifs at hs with hj
  · rwa [hf] at hs
  · exact hs

theorem sends_open {k call : ℕ} (hconns : st'.conns = st.conns ++ [.new]) (h : st'.Sends k call) :
    st.Sends k call := by
  obtain ⟨c, hc, s, hs, hcall⟩ := h
  rw [hconns] at hc
  rcases Nat.lt_or_ge k st.conns.length with hk | hk
  · rw [List.getElem?_append_left hk] at hc
    exact ⟨c, hc, s, hs, hcall⟩
  · rw [List.getElem?_append_right hk, List.getElem?_singleton] at hc
    split_ifs at hc
    obtain rfl := Option.some.inj hc
    cases hs

/-- What a `write` adds. -/
theorem sends_writes {packet : Packet} {bytes : Bytes} {written : Option ℕ} {k call : ℕ}
    (hw : Writes st.conns st.socket packet bytes st'.conns written) (h : st'.Sends k call) :
    st.Sends k call ∨ st.socket = some k ∧ ∃ le, packet = .send call le := by
  have hadd : ∀ {j : ℕ} {data : Bytes}, st.socket = some j →
      st'.conns = st.conns.modify j (fun c => { c with sent := c.sent ++ [⟨packet, data⟩] }) →
      st.Sends k call ∨ st.socket = some k ∧ ∃ le, packet = .send call le := by
    intro j data hj hconns
    obtain ⟨c, hc, s, hs, le, hcall⟩ := h
    rw [hconns, List.getElem?_modify] at hc
    obtain ⟨c, hc', rfl⟩ := Option.map_eq_some_iff.1 hc
    split_ifs at hs with hjk
    · rcases List.mem_append.1 hs with hs | hs
      · exact Or.inl ⟨c, hc', s, hs, le, hcall⟩
      · obtain rfl := List.mem_singleton.1 hs
        exact Or.inr ⟨hjk ▸ hj, le, hcall⟩
    · exact Or.inl ⟨c, hc', s, hs, le, hcall⟩
  generalize hconns : st'.conns = conns at hw
  cases hw with
  | throws =>
    obtain ⟨c, hc, hrest⟩ := h
    exact Or.inl ⟨c, hconns ▸ hc, hrest⟩
  | short hj => exact hadd hj hconns
  | full hj => exact hadd hj hconns

/-! ## The invariant -/

/-- The results are of SENDs so far, and a failed one is closed. -/
structure Closed (st : State) : Prop where
  numbers : ∀ k call, st.Sends k call → call ≤ st.calls
  results : ∀ call, st.Failed call → call ≤ st.calls
  closed : ∀ k call, st.Failed call → st.Sends k call → st.socket ≠ some k
  last : ∀ k call call', st.Failed call → st.Sends k call → st.Sends k call' → call' ≤ call

/-- A step without a SEND and without a failure. -/
structure Quiet (st st' : State) : Prop where
  sends : ∀ k call, st'.Sends k call → st.Sends k call
  calls : st'.calls = st.calls
  failed : ∀ call, st'.Failed call → st.Failed call
  socket : ∀ k, st'.socket = some k → st.socket = some k ∨ st.conns.length ≤ k

theorem Closed.quiet (h : Closed st) (hq : Quiet st st') : Closed st' where
  numbers k call hs := hq.calls ▸ h.numbers k call (hq.sends k call hs)
  results call hf := hq.calls ▸ h.results call (hq.failed call hf)
  closed k call hf hs hk := by
    rcases hq.socket k hk with hk | hk
    · exact h.closed k call (hq.failed call hf) (hq.sends k call hs) hk
    · exact absurd (hq.sends k call hs).lt (by omega)
  last k call call' hf hs hs' :=
    h.last k call call' (hq.failed call hf) (hq.sends k call hs) (hq.sends k call' hs')

/-- The observations of a step that is no failure. -/
theorem failed_of_append {new : List Obs} (htrace : st'.trace = st.trace ++ new)
    (hnew : ∀ call le, .returned (some call) le false ∉ new) (call : ℕ) (h : st'.Failed call) :
    st.Failed call := by
  obtain ⟨le, hle⟩ := h
  rw [htrace] at hle
  rcases List.mem_append.1 hle with hle | hle
  · exact ⟨le, hle⟩
  · exact absurd hle (hnew call le)

theorem not_failed_nil (call : ℕ) (le : LogEvent) :
    .returned (some call) le false ∉ ([] : List Obs) :=
  List.not_mem_nil

theorem not_failed_mem {o : Obs} (ho : ∀ call le, o ≠ .returned (some call) le false) (call : ℕ)
    (le : LogEvent) : .returned (some call) le false ∉ [o] :=
  fun h => ho call le (List.mem_singleton.1 h).symm

theorem not_failed_closed (i : Option ℕ) (socket : Option ℕ) (call : ℕ) (le : LogEvent) :
    .returned (some call) le false ∉ socket.toList.map (Obs.closed i) := by
  simp

/-- Where the writer is when a failure is behind it. -/
structure Calm (st : State) : Prop where
  clearing : ∀ le held, st.writer = .clear le held → st.socket = none
  constructing : ∀ pc, st.writer = .connect none pc → ∀ call, ¬st.Failed call
  down : st.writer = .idle →
    ∀ call le, st.trace.getLast? = some (.returned (some call) le false) →
      st.connected = false ∧ st.socket = none ∧
        ∀ pc, st.connectThread = some pc → pc.trying = false

/-- Neither between two calls nor in the constructor nor about to return. -/
def WriterPc.busy : WriterPc → Bool
  | .idle | .connect none _ | .clear .. => false
  | _ => true

namespace Calm

/-- The last observation was made before, unless the step makes one. -/
theorem getLast_of_append {new : List Obs} (htrace : st'.trace = st.trace ++ new)
    (hnew : ∀ call le, .returned (some call) le false ∉ new) {call : ℕ} {le : LogEvent}
    (h : st'.trace.getLast? = some (.returned (some call) le false)) :
    st.trace.getLast? = some (.returned (some call) le false) := by
  rw [htrace] at h
  rcases List.eq_nil_or_concat new with rfl | ⟨new, o, rfl⟩
  · rwa [List.append_nil] at h
  · rw [List.concat_eq_append, ← List.append_assoc, List.getLast?_concat, Option.some.injEq] at h
    exact absurd (by simp [h]) (hnew call le)

/-- A step of another party that opens nothing. -/
theorem frame (h : Calm st) (hw : st'.writer = st.writer)
    (hsocket : st'.socket = none ∨ st'.socket = st.socket)
    (hconn : st'.connected = true → st.connected = true)
    (hthread : ∀ pc, st'.connectThread = some pc → pc.trying = true →
      ∃ pc, st.connectThread = some pc ∧ pc.trying = true)
    {new : List Obs} (htrace : st'.trace = st.trace ++ new)
    (hnew : ∀ call le, .returned (some call) le false ∉ new) : Calm st' where
  clearing le held hpc := by
    rcases hsocket with hnone | hsame
    · exact hnone
    · exact hsame.trans (h.clearing le held (hw ▸ hpc))
  constructing pc hpc call hf :=
    h.constructing pc (hw ▸ hpc) call (failed_of_append htrace hnew call hf)
  down hidle call le hlast := by
    obtain ⟨hoff, hnone, hno⟩ := h.down (hw ▸ hidle) call le (getLast_of_append htrace hnew hlast)
    refine ⟨?_, ?_, fun pc hpc => ?_⟩
    · rw [← Bool.not_eq_true] at hoff ⊢
      exact mt hconn hoff
    · rcases hsocket with hnone' | hsame
      · exact hnone'
      · exact hsame.trans hnone
    · by_contra htry
      obtain ⟨pc₀, hpc₀, htry₀⟩ := hthread pc hpc (by simpa using htry)
      rw [hno pc₀ hpc₀] at htry₀
      cases htry₀

/-- A step of a connect thread whose attempt is not decided. -/
theorem attempt (h : Calm st) (hctl : Control st) {pc : ConnectPc}
    (hpc : st.connectThread = some pc) (htry : pc.trying = true) (hw : st'.writer = st.writer)
    {new : List Obs} (htrace : st'.trace = st.trace ++ new)
    (hnew : ∀ call le, .returned (some call) le false ∉ new) : Calm st' where
  clearing le held hclear := by
    have hsend := (hctl.trying pc hpc htry).2
    rw [hw.symm.trans hclear] at hsend
    cases hsend
  constructing pc hpc call hf :=
    h.constructing pc (hw ▸ hpc) call (failed_of_append htrace hnew call hf)
  down hidle call le hlast := by
    obtain ⟨-, -, hno⟩ := h.down (hw ▸ hidle) call le (getLast_of_append htrace hnew hlast)
    rw [hno pc hpc] at htry
    cases htry

theorem of_busy (hbusy : st.writer.busy = true) : Calm st := by
  refine ⟨fun le held h => ?_, fun pc h => ?_, fun h => ?_⟩
  all_goals
    rw [h] at hbusy
    cases hbusy

/-- `connect` returns. -/
theorem returns (h : Calm st) {job : Option LogEvent} {pc : CallPc}
    (hw : st.writer = .connect job pc) {st₀ : State} (htrace : st₀.trace = st.trace)
    (result : Bool) : Calm (st₀.connectReturns job result) := by
  cases job with
  | none =>
    refine ⟨(fun _ _ h => by cases h), (fun _ h => by cases h), fun _ call le hlast => ?_⟩
    have hmem : .returned (some call) le false ∈ st.trace := by
      have hsame : (st₀.connectReturns none result).trace = st.trace := by
        simp [State.connectReturns, htrace]
      exact List.mem_of_mem_getLast? (hsame ▸ hlast)
    exact absurd ⟨le, hmem⟩ (h.constructing pc hw call)
  | some le =>
    cases result with
    | true => exact of_busy rfl
    | false =>
      refine ⟨(fun _ _ h => by cases h), (fun _ h => by cases h), fun _ call le' hlast => ?_⟩
      simp [State.connectReturns] at hlast

theorem callMove (h : Calm st) {job : Option LogEvent} {pc : CallPc}
    (hw : st.writer = .connect job pc) (hs : CallMove st job pc st') : Calm st' := by
  have hgo : ∀ {pc'}, st'.writer = .connect job pc' → st'.trace = st.trace → Calm st' := by
    intro pc' hpc' htrace
    refine ⟨fun _ _ hclear => ?_, fun pc'' hcons call => ?_, fun hidle => ?_⟩
    · rw [hpc'] at hclear
      cases hclear
    · obtain ⟨rfl, -⟩ := WriterPc.connect.inj (hpc'.symm.trans hcons)
      rintro ⟨le, hle⟩
      exact h.constructing pc hw call ⟨le, htrace ▸ hle⟩
    · rw [hpc'] at hidle
      cases hidle
  cases hs with
  | connected | trying | retest => exact h.returns hw rfl _
  | spawn =>
    refine h.returns hw ?_ _
    rfl
  | joinNone => exact hgo hw rfl
  | spawnJoinable => exact hgo hw rfl
  | _ => exact hgo rfl rfl

theorem writerMove (h : Calm st) (hctl : Control st) {pc : WriterPc} (hw : st.writer = pc)
    (hok : ∀ le k reply origin replyQueue id, pc = .take le k →
      st.replyQueue = (reply, origin) :: replyQueue → reply.receipt = some id →
        id = Text.toDec st.receipt.toNat)
    (hs : WriterMove p st pc st') : Calm st' := by
  cases hs with
  | connect hmove => exact h.callMove hw hmove
  | @send le conns written => cases written <;> exact of_busy rfl
  | takeNone =>
    exact h.frame rfl (Or.inr rfl) id (fun pc hpc htry => ⟨pc, hpc, htry⟩)
      (List.append_nil _).symm not_failed_nil
  | @take le k reply origin replyQueue st' hq hv =>
    cases hv with
    | drop => exact of_busy rfl
    | @returns id hcommand hid =>
      have hown : id = Text.toDec st.receipt.toNat :=
        hok le k reply origin replyQueue id rfl hq
          (by rw [StompReply.receipt, if_pos hcommand, hid])
      refine ⟨(fun _ _ h => by cases h), (fun _ h => by cases h), fun _ call le' hlast => ?_⟩
      simp [State.returns, State.observe, State.gotoWriter, hown] at hlast
  | close => exact ⟨fun _ _ _ => rfl, (fun _ h => by cases h), (fun h => by cases h)⟩
  | @clear le held =>
    refine ⟨(fun _ _ h => by cases h), (fun _ h => by cases h), fun _ _ _ _ =>
      ⟨rfl, h.clearing le held hw, fun pc hpc => ?_⟩⟩
    by_contra htry
    have hsend := (hctl.trying pc hpc (by simpa using htry)).2
    rw [hw] at hsend
    cases hsend
  | _ => exact of_busy rfl

theorem connectMove (h : Calm st) (hctl : Control st) {r : Outcome} {pc : ConnectPc}
    (hpc : st.connectThread = some pc) (hs : ConnectMove p st r pc st') : Calm st' := by
  cases hs with
  | setDone | leave =>
    refine h.frame rfl (Or.inr rfl) id ?_ (List.append_nil _).symm not_failed_nil
    rintro _ ⟨⟩ ⟨⟩
  | take _ hg =>
    cases hg with
    | _ => exact h.attempt hctl hpc rfl rfl rfl (not_failed_mem fun _ _ h => by cases h)
  | close => exact h.attempt hctl hpc rfl rfl rfl (not_failed_closed none st.socket)
  | _ => exact h.attempt hctl hpc rfl rfl (List.append_nil _).symm not_failed_nil

theorem readerMove (h : Calm st) {i : ℕ} {rd : Reader} (hs : ReaderMove st i rd st') :
    Calm st' := by
  have hthread : ∀ pc, st.connectThread = some pc → pc.trying = true →
      ∃ pc, st.connectThread = some pc ∧ pc.trying = true :=
    fun pc hpc htry => ⟨pc, hpc, htry⟩
  cases hs with
  | read => exact h.frame rfl (Or.inr rfl) id hthread rfl (not_failed_mem fun _ _ h => by cases h)
  | reject => exact h.frame rfl (Or.inr rfl) id hthread rfl (not_failed_mem fun _ _ h => by cases h)
  | fail | close => exact h.frame rfl (Or.inl rfl) id hthread rfl (not_failed_closed _ _)
  | drop =>
    exact h.frame rfl (Or.inr rfl) (fun h => by cases h) hthread (List.append_nil _).symm
      not_failed_nil
  | _ => exact h.frame rfl (Or.inr rfl) id hthread (List.append_nil _).symm not_failed_nil

theorem move (h : Calm st) (hctl : Control st) {a : Action} (hok : TakesOwnReceipt st a)
    (hs : Move p st a st') : Calm st' := by
  cases hs with
  | call => exact of_busy rfl
  | writer hmove => exact h.writerMove hctl rfl hok hmove
  | connect hpc hmove => exact h.connectMove hctl hpc hmove
  | reader _ hmove => exact h.readerMove hmove
  | _ =>
    exact h.frame rfl (Or.inr rfl) id (fun pc hpc htry => ⟨pc, hpc, htry⟩)
      (List.append_nil _).symm not_failed_nil

end Calm

/-! ## The steps -/

namespace Closed

/-- The socket and what has been sent are as before. -/
theorem quiet_of_trace {new : List Obs} (hsends : ∀ k call, st'.Sends k call → st.Sends k call)
    (hcalls : st'.calls = st.calls) (htrace : st'.trace = st.trace ++ new)
    (hnew : ∀ call le, .returned (some call) le false ∉ new)
    (hsocket : st'.socket = none ∨ st'.socket = st.socket) : Quiet st st' where
  sends := hsends
  calls := hcalls
  failed := failed_of_append htrace hnew
  socket k hk := by
    rcases hsocket with hnone | hsame
    · cases hnone.symm.trans hk
    · exact Or.inl (hsame ▸ hk)

/-- A step that sends and observes nothing. -/
theorem quiet_of_same (hconns : st'.conns = st.conns) (hcalls : st'.calls = st.calls)
    (htrace : st'.trace = st.trace) (hsocket : st'.socket = none ∨ st'.socket = st.socket) :
    Quiet st st' := by
  refine quiet_of_trace (fun k call hsend => ?_) hcalls ?_ not_failed_nil hsocket
  · simpa [State.Sends, hconns] using hsend
  · rw [htrace, List.append_nil]

theorem callMove {job : Option LogEvent} {pc : CallPc} (hs : CallMove st job pc st') :
    Quiet st st' := by
  have hret : ∀ (st₀ : State) (result : Bool), st₀.conns = st.conns → st₀.calls = st.calls →
      st₀.trace = st.trace → st₀.socket = st.socket →
      Quiet st (st₀.connectReturns job result) := by
    intro st₀ result hconns hcalls htrace hsocket
    refine quiet_of_trace (fun k call hsend => ?_) hcalls (congrArg (· ++ _) htrace) ?_
      (Or.inr hsocket)
    · simpa [State.Sends, State.connectReturns, hconns] using hsend
    · cases job <;> cases result <;> simp
  cases hs with
  | connected | trying | retest => exact hret _ _ rfl rfl rfl rfl
  | spawn => exact hret _ _ rfl rfl rfl rfl
  | _ => exact quiet_of_same rfl rfl rfl (Or.inr rfl)

theorem writerMove (h : Closed st) (hcalm : Calm st) {pc : WriterPc} (hw : st.writer = pc)
    (hok : ∀ le k reply origin replyQueue id, pc = .take le k →
      st.replyQueue = (reply, origin) :: replyQueue → reply.receipt = some id →
        id = Text.toDec st.receipt.toNat)
    (hs : WriterMove p st pc st') : Closed st' := by
  cases hs with
  | connect hmove => exact h.quiet (callMove hmove)
  | @send le conns written hwrite =>
    -- the new SEND has a number of its own, and the socket is on no closed connection
    have hnew : ∀ {k call : ℕ} {st₁ : State}, st₁.conns = conns → st₁.Sends k call →
        st.Sends k call ∨ st.socket = some k ∧ call = st.calls + 1 := by
      intro k call st₁ hconns hsend
      rcases sends_writes (hconns ▸ hwrite) hsend with hold | ⟨hk, le', hpacket⟩
      · exact Or.inl hold
      · exact Or.inr ⟨hk, (Packet.send.inj hpacket).1.symm⟩
    have hold : ∀ {k call : ℕ} {st₁ : State}, st₁.conns = conns → st.Failed call →
        st₁.Sends k call → st.Sends k call := by
      intro k call st₁ hconns hf hsend
      rcases hnew hconns hsend with hold | ⟨-, rfl⟩
      · exact hold
      · exact absurd (h.results _ hf) (by omega)
    refine ⟨fun k call hsend => ?_, fun call hf => (h.results call hf).trans (Nat.le_succ _),
      fun k call hf hsend => h.closed k call hf (hold rfl hf hsend),
      fun k call call' hf hsend hsend' => ?_⟩
    · rcases hnew rfl hsend with hold | ⟨-, rfl⟩
      · exact (h.numbers k call hold).trans (Nat.le_succ _)
      · exact le_rfl
    · have hsend := hold rfl hf hsend
      rcases hnew rfl hsend' with hsend' | ⟨hk, -⟩
      · exact h.last k call call' hf hsend hsend'
      · exact absurd hk (h.closed k call hf hsend)
  | @take le k reply origin replyQueue st' hq hv =>
    cases hv with
    | drop =>
      refine h.quiet (quiet_of_trace (fun _ _ => id) rfl rfl ?_ (Or.inr rfl))
      exact not_failed_mem fun _ _ h => by cases h
    | @returns id hcommand hid =>
      have hown : id = Text.toDec st.receipt.toNat :=
        hok le k reply origin replyQueue id rfl hq
          (by rw [StompReply.receipt, if_pos hcommand, hid])
      refine h.quiet
        (quiet_of_trace (fun _ _ h => h) rfl (List.append_assoc ..) ?_ (Or.inr rfl))
      intro call le'
      simp [hown, State.observe]
  | close =>
    exact h.quiet (quiet_of_trace (fun _ _ => id) rfl rfl (not_failed_closed _ _) (Or.inl rfl))
  | @clear le held =>
    have hfailed : ∀ {call : ℕ} {st₁ : State},
        st₁.trace = st.trace ++ [.returned (some st.calls) le false] → st₁.Failed call →
          st.Failed call ∨ call = st.calls := by
      rintro call st₁ htrace ⟨le', hmem⟩
      rw [htrace] at hmem
      rcases List.mem_append.1 hmem with hmem | hmem
      · exact Or.inl ⟨le', hmem⟩
      · have heq := List.mem_singleton.1 hmem
        simp only [Obs.returned.injEq, Option.some.injEq] at heq
        exact Or.inr heq.1
    have hnone := hcalm.clearing le held hw
    refine ⟨h.numbers, fun call hf => ?_, fun k call _ _ hk => ?_, fun k call call' hf hs hs' => ?_⟩
    · rcases hfailed rfl hf with hf | rfl
      · exact h.results call hf
      · exact le_rfl
    · cases hnone.symm.trans hk
    · rcases hfailed rfl hf with hf | rfl
      · exact h.last k call call' hf hs hs'
      · exact h.numbers k call' hs'
  | _ =>
    exact h.quiet (quiet_of_same rfl rfl rfl (Or.inr rfl))

theorem connectMove {r : Outcome} {pc : ConnectPc} (hs : ConnectMove p st r pc st') :
    Quiet st st' := by
  cases hs with
  | opened =>
    refine ⟨fun _ _ => sends_open rfl, rfl, fun _ hf => hf, ?_⟩
    rintro k ⟨⟩
    exact Or.inr le_rfl
  | refused => exact quiet_of_same rfl rfl rfl (Or.inl rfl)
  | write hwrite =>
    refine quiet_of_trace (fun k call hsend => ?_) rfl (List.append_nil _).symm not_failed_nil
      (Or.inr rfl)
    rcases sends_writes hwrite hsend with hold | ⟨-, le, hpacket⟩
    · exact hold
    · cases hpacket
  | take _ hg =>
    cases hg with
    | _ =>
      refine quiet_of_trace (fun _ _ => id) rfl rfl ?_ (Or.inr rfl)
      exact not_failed_mem fun _ _ h => by cases h
  | close => exact quiet_of_trace (fun _ _ => id) rfl rfl (not_failed_closed _ _) (Or.inl rfl)
  | _ => exact quiet_of_same rfl rfl rfl (Or.inr rfl)

theorem readerMove {i : ℕ} {rd : Reader} (hs : ReaderMove st i rd st') : Quiet st st' := by
  cases hs with
  | read =>
    exact quiet_of_trace (fun _ _ => sends_modify rfl fun _ => rfl) rfl rfl
      (not_failed_mem fun _ _ h => by cases h) (Or.inr rfl)
  | reject =>
    refine quiet_of_trace (fun _ _ => id) rfl rfl ?_ (Or.inr rfl)
    exact not_failed_mem fun _ _ h => by cases h
  | fail | close =>
    exact quiet_of_trace (fun _ _ => id) rfl rfl (not_failed_closed _ _) (Or.inl rfl)
  | _ => exact quiet_of_same rfl rfl rfl (Or.inr rfl)

theorem move (h : Closed st) (hcalm : Calm st) {a : Action} (hok : TakesOwnReceipt st a)
    (hs : Move p st a st') : Closed st' := by
  cases hs with
  | call =>
    exact h.quiet (quiet_of_same rfl rfl rfl (Or.inr rfl))
  | writer hmove => exact h.writerMove hcalm rfl hok hmove
  | connect _ hmove => exact h.quiet (connectMove hmove)
  | reader _ hmove => exact h.quiet (readerMove hmove)
  | _ =>
    exact h.quiet (quiet_of_trace (fun _ _ => sends_modify rfl fun _ => rfl) rfl
      (List.append_nil _).symm not_failed_nil (Or.inr rfl))

end Closed

/-- In a run in which `do_write` takes no RECEIPT for another SEND, a `do_write` that has sent
and returns false leaves no connection, and no later SEND goes out on its own. -/
theorem failedDown_of_reach (p : StompParams) {st : State}
    (h : (system p).Reach TakesOwnReceipt st) : FailedDown st := by
  obtain ⟨hcalm, hclosed⟩ : Calm st ∧ Closed st := by
    refine h.invariant (I := fun st => Calm st ∧ Closed st) ?_
      fun st a st' hr ⟨hcalm, hclosed⟩ hok hs =>
        ⟨hcalm.move (control_of_reach hr) hok (move hs), hclosed.move hcalm hok (move hs)⟩
    rintro _ rfl
    have hno : ∀ call, ¬State.start.Failed call := by
      rintro call ⟨le, hle⟩
      cases hle
    refine ⟨⟨(fun _ _ h => by cases h), fun _ _ => hno, (fun _ _ _ h => by cases h)⟩, ?_⟩
    exact ⟨fun k call hs => absurd hs.lt (by simp [State.start]),
      fun call hf => absurd hf (hno call), fun _ call hf => absurd hf (hno call),
      fun _ call _ hf => absurd hf (hno call)⟩
  refine ⟨fun hidle call le hlast => ?_, hclosed.last⟩
  obtain ⟨hoff, hnone, -⟩ := hcalm.down hidle call le hlast
  exact ⟨hoff, hnone⟩

/-! ## A surplus reply -/

/-- The server greets, and sends a RECEIPT that nobody has asked for. `do_write` sends and
takes it. -/
def surplusReceipt : List Action :=
  firstConnect ++
    .serve 0 (greeting ++ (ascii "RECEIPT\nreceipt-id:0\n\n" ++ [0])) :: reads 0 14 ++
    connects 5 ++ .call someEvent :: writes 4

theorem surplus_keeps_connection :
    ¬∀ st, (system someParams).Reachable st → FailedDown st := by
  intro h
  obtain ⟨st, hreach, hst⟩ := System.exists_reach (T := system someParams)
    (b := fun _ _ => true) (p := fun _ _ => True) (fun _ _ _ => trivial) rfl surplusReceipt
    (fun st => st.writer == .idle &&
      st.trace.getLast? == some (.returned (some 1) someEvent false) && st.connected)
    (by decide +kernel)
  simp only [Bool.and_eq_true, beq_iff_eq] at hst
  have hdown := (h st hreach).down hst.1.1 1 someEvent hst.1.2
  rw [hdown.1] at hst
  cases hst.2

/-- The condition of `failedDown_of_reach`, to be computed. -/
def takesOwn (st : State) : Action → Bool
  | .writer _ =>
    match st.writer, st.replyQueue with
    | .take _ _, (reply, _) :: _ => reply.receipt.all (· == Text.toDec st.receipt.toNat)
    | _, _ => true
  | _ => true

theorem takesOwnReceipt_of {a : Action} (h : takesOwn st a = true) : TakesOwnReceipt st a := by
  cases a with
  | writer r =>
    intro le k reply origin replyQueue id hw hq hid
    simpa [takesOwn, hw, hq, hid] using h
  | _ => trivial

/-- The server greets and then says nothing. -/
def unanswered : List Action :=
  firstConnect ++ .serve 0 greeting :: reads 0 9 ++ connects 5 ++ .call someEvent :: writes 3 ++
    .writer .timeout :: writes 2

theorem failedDown_unanswered : ∃ st, st.Failed 1 ∧ st.Sends 0 1 ∧ FailedDown st := by
  obtain ⟨st, hreach, hst⟩ := System.exists_reach (T := system someParams) (b := takesOwn)
    (p := TakesOwnReceipt) (fun _ _ => takesOwnReceipt_of) rfl unanswered
    (fun st => st.trace.contains (.returned (some 1) someEvent false) &&
      st.conns[0]?.any fun c => c.sent.any fun s => s.packet == .send 1 someEvent)
    (by decide +kernel)
  simp only [Bool.and_eq_true, List.contains_iff_mem, Option.any_eq_true, List.any_eq_true,
    beq_iff_eq] at hst
  obtain ⟨hfailed, c, hc, s, hs, hpacket⟩ := hst
  exact ⟨st, ⟨someEvent, hfailed⟩, ⟨c, hc, s, hs, someEvent, hpacket⟩,
    failedDown_of_reach someParams hreach⟩

end Logfile.Stomp
