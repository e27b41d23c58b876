import Logfile.StompRules

/-!
# The writer and the connect thread

`connect` starts a connect thread only when the previous one is joined, and lets `do_write`
go on only when `m_connected` is set, which is the last that a connect thread does. So no
connection is opened while `do_write` sends and waits for its reply (`Control`).
-/

namespace Logfile.Stomp

/-- The thread has not decided yet whether its attempt succeeds. -/
def ConnectPc.trying : ConnectPc → Bool
  | setDone _ | leave _ | finished => false
  | _ => true

/-- `do_write` is behind `connect`. -/
def WriterPc.sending : WriterPc → Bool
  | idle | connect _ _ => false
  | _ => true

/-- How the members that `connect` uses and the positions of the threads are related. -/
structure Control (st : State) : Prop where
  trying : ∀ pc, st.connectThread = some pc → pc.trying = true →
    st.connected = false ∧ st.writer.sending = false
  idle : st.connecting = false →
    st.connectThread = none ∨ ∃ job, st.writer = .connect job .join
  exchange : ∀ job, st.writer = .connect job .exchange → st.connectThread = none →
    st.connected = false
  starting : ∀ job, st.writer = .connect job .clearDone ∨ st.writer = .connect job .spawn →
    st.connecting = true ∧ st.connectThread = none ∧ st.connected = false

namespace Control

variable {p : StompParams} {st st' : State}

/-- A step of another party. -/
theorem frame (h : Control st) (hw : st'.writer = st.writer)
    (ht : st'.connectThread = st.connectThread) (hc : st'.connecting = st.connecting)
    (hd : st'.connected = true → st.connected = true) : Control st' := by
  have hd : st.connected = false → st'.connected = false := by
    rw [← Bool.not_eq_true, ← Bool.not_eq_true]
    exact mt hd
  refine ⟨?_, ?_, ?_, ?_⟩
  · intro pc hpc htry
    obtain ⟨hconn, hsend⟩ := h.trying pc (ht ▸ hpc) htry
    exact ⟨hd hconn, hw ▸ hsend⟩
  · rw [hc, ht, hw]
    exact h.idle
  · intro job hjob hnone
    exact hd (h.exchange job (hw ▸ hjob) (ht ▸ hnone))
  · intro job hjob
    obtain ⟨hconn, hnone, hoff⟩ := h.starting job (hw ▸ hjob)
    exact ⟨hc ▸ hconn, ht ▸ hnone, hd hoff⟩

/-- The writer goes on to a step where it needs nothing, if it only sends when no connect
thread is trying. -/
theorem goto (h : Control st) (hjoin : ∀ job, st.writer ≠ .connect job .join)
    (ht : st'.connectThread = st.connectThread) (hc : st'.connecting = st.connecting)
    (hd : st'.connected = true → st.connected = true)
    (hsend : st'.writer.sending = true → st.connected = true ∨ st.writer.sending = true)
    (hw : ∀ job, st'.writer ≠ .connect job .exchange ∧ st'.writer ≠ .connect job .clearDone ∧
      st'.writer ≠ .connect job .spawn) : Control st' where
  trying pc hpc htry := by
    obtain ⟨hconn, hold⟩ := h.trying pc (ht ▸ hpc) htry
    refine ⟨?_, ?_⟩
    · rw [← Bool.not_eq_true] at hconn ⊢
      exact mt hd hconn
    · by_contra hs
      rcases hsend (by simpa using hs) with hs | hs
      · exact absurd hs (by simp [hconn])
      · exact absurd hs (by simp [hold])
  idle hoff := by
    rcases h.idle (hc ▸ hoff) with hnone | ⟨job, hjob⟩
    · exact Or.inl (ht ▸ hnone)
    · exact absurd hjob (hjoin job)
  exchange job hjob := absurd hjob (hw job).1
  starting job hjob := by
    rcases hjob with hjob | hjob
    · exact absurd hjob (hw job).2.1
    · exact absurd hjob (hw job).2.2

theorem connectReturns_sending (job : Option LogEvent) (result : Bool)
    (h : (st.connectReturns job result).writer.sending = true) : result = true := by
  cases job <;> cases result
  all_goals first | rfl | cases h

theorem connectReturns_ne_connect (job job' : Option LogEvent) (result : Bool) (pc : CallPc) :
    (st.connectReturns job result).writer ≠ .connect job' pc := by
  cases job <;> cases result <;> nofun

/-- `connect` returns true only if `m_connected` is set. -/
theorem returns (h : Control st) {job : Option LogEvent} {result : Bool}
    (hjoin : ∀ job, st.writer ≠ .connect job .join) (hr : result = true → st.connected = true) :
    Control (st.connectReturns job result) := by
  refine h.goto hjoin rfl rfl id (fun hs => Or.inl (hr (connectReturns_sending job result hs))) ?_
  intro job'
  exact ⟨connectReturns_ne_connect _ _ _ _, connectReturns_ne_connect _ _ _ _,
    connectReturns_ne_connect _ _ _ _⟩

theorem callMove (h : Control st) {job : Option LogEvent} {pc : CallPc}
    (hw : st.writer = .connect job pc) (hs : CallMove st job pc st') : Control st' := by
  have hne : pc ≠ .join → ∀ job, st.writer ≠ .connect job .join := by
    rintro hpc job' hjob
    cases hw.symm.trans hjob
    exact hpc rfl
  cases hs with
  | connected hc => exact h.returns (hne nofun) fun _ => hc
  | test hc =>
    refine ⟨fun pc hpc htry => ⟨hc, rfl⟩, fun hoff => ?_, fun _ _ _ => hc, ?_⟩
    · rcases h.idle hoff with hnone | ⟨job', hjob⟩
      · exact Or.inl hnone
      · exact absurd hjob (hne nofun job')
    · rintro job' (hjob | hjob) <;> cases hjob
  | connecting hc =>
    refine ⟨fun pc hpc htry => ⟨(h.trying pc hpc htry).1, rfl⟩, nofun, nofun, ?_⟩
    rintro job' (hjob | hjob) <;> cases hjob
  | first hc =>
    have hnone : st.connectThread = none := by
      rcases h.idle hc with hnone | ⟨job', hjob⟩
      · exact hnone
      · exact absurd hjob (hne nofun job')
    refine ⟨fun pc hpc htry => ⟨(h.trying pc hpc htry).1, rfl⟩, nofun, nofun, ?_⟩
    exact fun _ _ => ⟨rfl, hnone, h.exchange job hw hnone⟩
  | done => exact h.goto (hne nofun) rfl rfl id nofun fun _ => ⟨nofun, nofun, nofun⟩
  | trying => exact h.returns (hne nofun) nofun
  | clearConnecting =>
    refine ⟨fun pc hpc htry => ⟨(h.trying pc hpc htry).1, rfl⟩, fun _ => Or.inr ⟨job, rfl⟩,
      nofun, ?_⟩
    rintro job' (hjob | hjob) <;> cases hjob
  | joinNone => exact h.frame rfl rfl rfl id
  | join =>
    refine ⟨nofun, fun _ => Or.inl rfl, nofun, ?_⟩
    rintro job' (hjob | hjob) <;> cases hjob
  | retest => exact h.returns (hne nofun) id
  | clearDone =>
    obtain ⟨hconn, hnone, hoff⟩ := h.starting job (Or.inl hw)
    refine ⟨fun pc hpc htry => ⟨hoff, rfl⟩, fun _ => Or.inl hnone, nofun, ?_⟩
    exact fun _ _ => ⟨hconn, hnone, hoff⟩
  | spawn =>
    obtain ⟨hconn, -, hoff⟩ := h.starting job (Or.inr hw)
    refine ⟨fun pc hpc htry => ⟨hoff, ?_⟩, fun hidle => ?_, ?_, ?_⟩
    · rw [← Bool.not_eq_true]
      exact fun hs => nomatch connectReturns_sending job false hs
    · exact absurd hidle (by simp [State.connectReturns, State.gotoConnect, hconn])
    · exact fun job' hjob => absurd hjob (connectReturns_ne_connect _ _ _ _)
    · rintro job' (hjob | hjob) <;> exact absurd hjob (connectReturns_ne_connect _ _ _ _)
  | spawnJoinable => exact h.frame rfl rfl rfl id

/-- A step of `do_write` behind `connect`. -/
theorem sends (h : Control st) (hs : st.writer.sending = true)
    (hw : ∀ job pc, st'.writer ≠ .connect job pc) (ht : st'.connectThread = st.connectThread)
    (hc : st'.connecting = st.connecting) (hd : st'.connected = true → st.connected = true) :
    Control st' := by
  refine h.goto ?_ ht hc hd (fun _ => Or.inr hs) fun job => ⟨hw _ _, hw _ _, hw _ _⟩
  intro job hjob
  rw [hjob] at hs
  cases hs

theorem writerMove (h : Control st) {pc : WriterPc} (hw : st.writer = pc)
    (hs : WriterMove p st pc st') : Control st' := by
  cases hs with
  | connect hmove => exact h.callMove hw hmove
  | @send le conns written =>
    refine h.sends (by rw [hw]; rfl) ?_ rfl rfl id
    cases written <;> nofun
  | takeNone => exact h.frame rfl rfl rfl id
  | take _ hv =>
    have hsend : st.writer.sending = true := by rw [hw]; rfl
    cases hv with
    | drop => exact h.sends hsend nofun rfl rfl id
    | returns => exact h.sends hsend nofun rfl rfl id
  | clear => exact h.sends (by rw [hw]; rfl) nofun rfl rfl nofun
  | _ => exact h.sends (by rw [hw]; rfl) nofun rfl rfl id

/-- A step of the connect thread. -/
theorem attempt (h : Control st) {pc pc' : ConnectPc} (hpc : st.connectThread = some pc)
    (ht : st'.connectThread = some pc') (hw : st'.writer = st.writer)
    (hc : st'.connecting = st.connecting)
    (htry : pc'.trying = true → pc.trying = true ∧ (st'.connected = true → st.connected = true)) :
    Control st' where
  trying pc₁ hpc₁ htry₁ := by
    obtain rfl := Option.some.inj (ht.symm.trans hpc₁)
    obtain ⟨htry, hd⟩ := htry htry₁
    obtain ⟨hconn, hsend⟩ := h.trying pc hpc htry
    refine ⟨?_, hw ▸ hsend⟩
    rw [← Bool.not_eq_true] at hconn ⊢
    exact mt hd hconn
  idle hoff := by
    rcases h.idle (hc ▸ hoff) with hnone | hjob
    · exact absurd (hnone.symm.trans hpc) nofun
    · exact Or.inr (hw ▸ hjob)
  exchange job _ hnone := absurd (hnone.symm.trans ht) nofun
  starting job hjob :=
    absurd ((h.starting job (hw ▸ hjob)).2.1.symm.trans hpc) nofun

theorem connectMove (h : Control st) {r : Outcome} {pc : ConnectPc}
    (hpc : st.connectThread = some pc)
    (hs : ConnectMove p st r pc st') : Control st' := by
  cases hs with
  | refused | unresolved | clear | setConnected | setDone | leave =>
    exact h.attempt hpc rfl rfl rfl nofun
  | takeNone => exact h.frame rfl rfl rfl id
  | take _ hg =>
    cases hg with
    | drop => exact h.attempt hpc rfl rfl rfl fun _ => ⟨rfl, id⟩
    | accept => exact h.attempt hpc rfl rfl rfl fun _ => ⟨rfl, id⟩
  | _ => exact h.attempt hpc rfl rfl rfl fun _ => ⟨rfl, id⟩

theorem move (h : Control st) {a : Action} (hs : Move p st a st') : Control st' := by
  cases hs with
  | call hidle =>
    refine h.goto (by rw [hidle]; nofun) rfl rfl id nofun fun _ => ⟨nofun, nofun, nofun⟩
  | writer hmove => exact h.writerMove rfl hmove
  | connect hpc hmove => exact h.connectMove hpc hmove
  | reader hr hmove =>
    cases hmove with
    | drop => exact h.frame rfl rfl rfl nofun
    | _ => exact h.frame rfl rfl rfl id
  | _ => exact h.frame rfl rfl rfl id

end Control

theorem control_start : Control .start :=
  ⟨nofun, fun _ => Or.inl rfl, nofun, by rintro job (hjob | hjob) <;> cases hjob⟩

/-- In every run. -/
theorem control_of_reach {p : StompParams} {ok : State → Action → Prop} {st : State}
    (h : (system p).Reach ok st) : Control st := by
  refine h.invariant ?_ fun _ _ _ _ hi _ hs => hi.move (move hs)
  rintro _ rfl
  exact control_start

end Logfile.Stomp
