import Logfile.Subsystems

/-!
# Concurrent registrations

`register_subsystem` is called by any number of clients. The lookup of the name, the taking of
the next handle, and the insertion are steps of their own, and there is no lock around them.

A name gets one handle as long as nobody looks it up while a client that has missed it has not
inserted it yet, and the counter does not come round (`merged_of_reach`).
-/

namespace Logfile.Registrations

open Text Logger

/-! ## The steps -/

/-- Where a client is in `register_subsystem`. -/
inductive Client
  | idle
  /-- `find_subsystem` has thrown -/
  | missed (name : Bytes)
  /-- it has its handle -/
  | took (name : Bytes) (id : UInt32)
  deriving DecidableEq

/-- The name that a client is about to insert. -/
def Client.name : Client → Option Bytes
  | idle => none
  | missed name => some name
  | took name _ => some name

/-- The handle that a client has taken. -/
def Client.id : Client → Option UInt32
  | took _ id => some id
  | _ => none

structure State where
  d : LoggerPrivate
  clients : ℕ → Client
  /-- handles taken so far -/
  taken : ℕ
  /-- the calls that have returned, with their handles -/
  returned : List (Bytes × UInt32)

def State.goto (st : State) (c : ℕ) (pc : Client) : State :=
  { st with clients := Function.update st.clients c pc }

@[simp] theorem State.name_goto (st : State) (c c' : ℕ) (pc : Client) :
    ((st.goto c pc).clients c').name = if c' = c then pc.name else (st.clients c').name := by
  simp only [State.goto, Function.update_apply]
  split_ifs <;> rfl

@[simp] theorem State.id_goto (st : State) (c c' : ℕ) (pc : Client) :
    ((st.goto c pc).clients c').id = if c' = c then pc.id else (st.clients c').id := by
  simp only [State.goto, Function.update_apply]
  split_ifs <;> rfl

/-- The clients' steps. -/
inductive Action
  | lookup (c : ℕ) (name : Bytes)
  | take (c : ℕ)
  | insert (c : ℕ)

variable (minLevel : LogLevel)

def step (st : State) : Action → Option State
  | .lookup c name =>
    match st.clients c with
    | .idle =>
      match findSubsystem st.d name with
      | .ok id => some { st with returned := st.returned ++ [(name, id)] }
      | .error _ => some (st.goto c (.missed name))
    | _ => none
  | .take c =>
    match st.clients c with
    | .missed name =>
      let (newId, d) := nextSubsystemId st.d
      some { st.goto c (.took name newId) with d := d, taken := st.taken + 1 }
    | _ => none
  | .insert c =>
    match st.clients c with
    | .took name id =>
      some { st.goto c .idle with
        d := insertSubsystem minLevel st.d id name
        returned := st.returned ++ [(name, id)] }
    | _ => none

def start : State :=
  ⟨⟨.empty, 0, []⟩, fun _ => .idle, 0, []⟩

def system : System State Action where
  init st := st = start
  step := step minLevel

/-- The steps of one client without another's between them are `register_subsystem`. -/
theorem exec_alone {st : State} {c : ℕ} (hc : st.clients c = .idle) (name : Bytes)
    (hname : ∀ id, findSubsystem st.d name ≠ .ok id) :
    ((system minLevel).exec (fun _ _ => true) st [.lookup c name, .take c, .insert c]).map
        (fun st => (st.d, st.returned)) =
      some ((registerSubsystem minLevel st.d name).2,
        st.returned ++ [(name, (registerSubsystem minLevel st.d name).1)]) := by
  cases hf : findSubsystem st.d name with
  | ok id => exact absurd hf (hname id)
  | error e =>
    simp [System.exec, system, step, hc, hf, registerSubsystem, State.goto, nextSubsystemId]

/-! ## What the clients see -/

/-- One handle for a name, and one name for a handle. -/
structure Merged (st : State) : Prop where
  same_iff : ∀ name id name' id', (name, id) ∈ st.returned → (name', id') ∈ st.returned →
    (id = id' ↔ name = name')
  once : ∀ id id' i i', st.d.subsystems.find id = some i → st.d.subsystems.find id' = some i' →
    i.name = i'.name → id = id'

/-- Nobody looks up a name that a client has missed and not inserted yet, and there are handles
left. -/
def Apart (st : State) : Action → Prop
  | .lookup _ name => ∀ c, (st.clients c).name ≠ some name
  | .take _ => st.taken < 2 ^ 32
  | .insert _ => True

/-- A name is in the map or with one client, and so is a handle. -/
structure Exclusive (st : State) : Prop where
  once : ∀ id id' i i', st.d.subsystems.find id = some i → st.d.subsystems.find id' = some i' →
    i.name = i'.name → id = id'
  absent : ∀ c name, (st.clients c).name = some name →
    ∀ id i, st.d.subsystems.find id = some i → i.name ≠ name
  alone : ∀ c c' name, (st.clients c).name = some name → (st.clients c').name = some name → c = c'
  free : ∀ c id, (st.clients c).id = some id → st.d.subsystems.find id = none
  own : ∀ c c' id, (st.clients c).id = some id → (st.clients c').id = some id → c = c'
  below : ∀ id, (∃ i, st.d.subsystems.find id = some i) ∨ (∃ c, (st.clients c).id = some id) →
    id.toNat < st.taken
  next : st.d.nextFreeSubsystemId = UInt32.ofNat st.taken
  returned : ∀ name id, (name, id) ∈ st.returned →
    ∃ i, st.d.subsystems.find id = some i ∧ i.name = name

namespace Exclusive

variable {minLevel} {st st' : State} {c c' : ℕ} {name : Bytes} {id : UInt32}

theorem init : Exclusive start where
  once _ _ _ _ h := by cases h
  absent _ _ h := by cases h
  alone _ _ _ h := by cases h
  free _ _ h := by cases h
  own _ _ _ h := by cases h
  below id h := by
    rcases h with ⟨i, hi⟩ | ⟨c, hc⟩
    · cases hi
    · cases hc
  next := rfl
  returned _ _ h := by cases h

theorem merged (h : Exclusive st) : Merged st := by
  refine ⟨fun name id name' id' hmem hmem' => ?_, h.once⟩
  obtain ⟨i, hi, rfl⟩ := h.returned name id hmem
  obtain ⟨i', hi', rfl⟩ := h.returned name' id' hmem'
  constructor
  · rintro rfl
    rw [hi] at hi'
    rw [Option.some.inj hi']
  · exact h.once id id' i i' hi hi'

theorem found (h : Exclusive st) (hf : findSubsystem st.d name = .ok id) :
    Exclusive { st with returned := st.returned ++ [(name, id)] } := by
  refine { h with returned := fun name' id' hmem => ?_ }
  rcases List.mem_append.1 hmem with hold | hnew
  · exact h.returned name' id' hold
  · obtain ⟨rfl, rfl⟩ := Prod.mk.inj (List.mem_singleton.1 hnew)
    exact find_of_findSubsystem hf

/-- The name is in nobody's hands, so the client is the only one to miss it. -/
theorem miss (h : Exclusive st) {e : Exn} (hf : findSubsystem st.d name = .error e)
    (hapart : ∀ c, (st.clients c).name ≠ some name) : Exclusive (st.goto c (.missed name)) := by
  have hid {c' : ℕ} {id : UInt32} (hc' : ((st.goto c (.missed name)).clients c').id = some id) :
      (st.clients c').id = some id := by
    rw [State.id_goto] at hc'
    split_ifs at hc'
    · cases hc'
    · exact hc'
  refine ⟨h.once, fun c' name' hc' => ?_, fun c₁ c₂ name' h₁ h₂ => ?_, fun c' id' hc' => ?_,
    fun c₁ c₂ id' h₁ h₂ => ?_, fun id' hid' => ?_, h.next, h.returned⟩
  · rw [State.name_goto] at hc'
    split_ifs at hc'
    · obtain rfl : name = name' := Option.some.inj hc'
      exact fun id i hi => name_ne_of_findSubsystem hf hi
    · exact h.absent c' name' hc'
  · rw [State.name_goto] at h₁ h₂
    split_ifs at h₁ h₂ with hc₁ hc₂ hc₂
    · exact hc₁.trans hc₂.symm
    · exact absurd (h₂.trans h₁.symm) (hapart c₂)
    · exact absurd (h₁.trans h₂.symm) (hapart c₁)
    · exact h.alone c₁ c₂ name' h₁ h₂
  · exact h.free c' id' (hid hc')
  · exact h.own c₁ c₂ id' (hid h₁) (hid h₂)
  · refine h.below id' (hid'.imp_right ?_)
    rintro ⟨c', hc'⟩
    exact ⟨c', hid hc'⟩

/-- The next handle is above all others. -/
theorem take (h : Exclusive st) (hc : st.clients c = .missed name) (hleft : st.taken < 2 ^ 32) :
    Exclusive { st.goto c (.took name st.d.nextFreeSubsystemId) with
      d := (nextSubsystemId st.d).2
      taken := st.taken + 1 } := by
  have hnext : st.d.nextFreeSubsystemId.toNat = st.taken := by
    rw [h.next, UInt32.toNat_ofNat_of_lt' hleft]
  have hname {c' : ℕ} {name' : Bytes}
      (hc' : ((st.goto c (.took name st.d.nextFreeSubsystemId)).clients c').name = some name') :
      (st.clients c').name = some name' := by
    rw [State.name_goto] at hc'
    split_ifs at hc' with heq
    · rw [heq, hc]
      exact hc'
    · exact hc'
  have hid {c' : ℕ} {id' : UInt32}
      (hc' : ((st.goto c (.took name st.d.nextFreeSubsystemId)).clients c').id = some id') :
      c' = c ∧ id' = st.d.nextFreeSubsystemId ∨ c' ≠ c ∧ (st.clients c').id = some id' := by
    rw [State.id_goto] at hc'
    split_ifs at hc' with heq
    · exact Or.inl ⟨heq, (Option.some.inj hc').symm⟩
    · exact Or.inr ⟨heq, hc'⟩
  have hfresh (hold : (∃ i, st.d.subsystems.find st.d.nextFreeSubsystemId = some i) ∨
      ∃ c, (st.clients c).id = some st.d.nextFreeSubsystemId) : False :=
    absurd (h.below _ hold) (by rw [hnext]; exact lt_irrefl _)
  refine ⟨h.once, fun c' name' hc' => h.absent c' name' (hname hc'),
    fun c₁ c₂ name' h₁ h₂ => h.alone c₁ c₂ name' (hname h₁) (hname h₂), fun c' id' hc' => ?_,
    fun c₁ c₂ id' h₁ h₂ => ?_, fun id' hid' => ?_, ?_, h.returned⟩
  · rcases hid hc' with ⟨-, rfl⟩ | ⟨-, hold⟩
    · cases hfind : st.d.subsystems.find st.d.nextFreeSubsystemId with
      | none => exact hfind
      | some i => exact (hfresh (Or.inl ⟨i, hfind⟩)).elim
    · exact h.free c' id' hold
  · rcases hid h₁ with ⟨hc₁, hid₁⟩ | ⟨hc₁, hold₁⟩
    · rcases hid h₂ with ⟨hc₂, -⟩ | ⟨-, hold₂⟩
      · exact hc₁.trans hc₂.symm
      · exact (hfresh (Or.inr ⟨c₂, hid₁ ▸ hold₂⟩)).elim
    · rcases hid h₂ with ⟨-, hid₂⟩ | ⟨-, hold₂⟩
      · exact (hfresh (Or.inr ⟨c₁, hid₂ ▸ hold₁⟩)).elim
      · exact h.own c₁ c₂ id' hold₁ hold₂
  · rcases hid' with hmap | ⟨c', hc'⟩
    · exact (h.below id' (Or.inl hmap)).trans (Nat.lt_succ_self _)
    · rcases hid hc' with ⟨-, rfl⟩ | ⟨-, hold⟩
      · rw [hnext]
        exact Nat.lt_succ_self _
      · exact (h.below id' (Or.inr ⟨c', hold⟩)).trans (Nat.lt_succ_self _)
  · rw [nextSubsystemId, h.next, UInt32.ofNat_add]
    rfl

/-- The handle is free and the name absent, so the insertion adds the entry. -/
theorem insert (h : Exclusive st) (hc : st.clients c = .took name id) :
    Exclusive { st.goto c .idle with
      d := insertSubsystem minLevel st.d id name
      returned := st.returned ++ [(name, id)] } := by
  have hname : (st.clients c).name = some name := by rw [hc, Client.name]
  have hid : (st.clients c).id = some id := by rw [hc, Client.id]
  have hfree := h.free c id hid
  have hfind {id' : UInt32} : (insertSubsystem minLevel st.d id name).subsystems.find id' =
      if id' = id then some ⟨name, minLevel⟩ else st.d.subsystems.find id' :=
    OrdMap.find_emplace hfree
  have hname' {c' : ℕ} {name' : Bytes} (hc' : ((st.goto c .idle).clients c').name = some name') :
      c' ≠ c ∧ (st.clients c').name = some name' := by
    rw [State.name_goto] at hc'
    split_ifs at hc' with heq
    · cases hc'
    · exact ⟨heq, hc'⟩
  have hid' {c' : ℕ} {id' : UInt32} (hc' : ((st.goto c .idle).clients c').id = some id') :
      c' ≠ c ∧ (st.clients c').id = some id' := by
    rw [State.id_goto] at hc'
    split_ifs at hc' with heq
    · cases hc'
    · exact ⟨heq, hc'⟩
  refine ⟨fun id₁ id₂ i₁ i₂ h₁ h₂ heq => ?_, fun c' name' hc' id' i hi => ?_,
    fun c₁ c₂ name' h₁ h₂ => h.alone c₁ c₂ name' (hname' h₁).2 (hname' h₂).2,
    fun c' id' hc' => ?_, fun c₁ c₂ id' h₁ h₂ => h.own c₁ c₂ id' (hid' h₁).2 (hid' h₂).2,
    fun id' hid'' => ?_, h.next, fun name' id' hmem => ?_⟩
  · rw [hfind] at h₁ h₂
    split_ifs at h₁ h₂ with hid₁ hid₂ hid₂
    · exact hid₁.trans hid₂.symm
    · obtain rfl := Option.some.inj h₁
      exact absurd heq.symm (h.absent c name hname id₂ i₂ h₂)
    · obtain rfl := Option.some.inj h₂
      exact absurd heq (h.absent c name hname id₁ i₁ h₁)
    · exact h.once id₁ id₂ i₁ i₂ h₁ h₂ heq
  · obtain ⟨hne, hold⟩ := hname' hc'
    rw [hfind] at hi
    split_ifs at hi
    · obtain rfl := Option.some.inj hi
      rintro rfl
      exact hne (h.alone c' c name hold hname)
    · exact h.absent c' name' hold id' i hi
  · obtain ⟨hne, hold⟩ := hid' hc'
    rw [hfind, if_neg]
    · exact h.free c' id' hold
    · rintro rfl
      exact hne (h.own c' c id' hold hid)
  · rcases hid'' with ⟨i, hi⟩ | ⟨c', hc'⟩
    · rw [hfind] at hi
      split_ifs at hi with heq
      · exact h.below id' (Or.inr ⟨c, heq ▸ hid⟩)
      · exact h.below id' (Or.inl ⟨i, hi⟩)
    · exact h.below id' (Or.inr ⟨c', (hid' hc').2⟩)
  · rw [hfind]
    rcases List.mem_append.1 hmem with hold | hnew
    · obtain ⟨i, hi, rfl⟩ := h.returned name' id' hold
      rw [if_neg]
      · exact ⟨i, hi, rfl⟩
      · rintro rfl
        rw [hfree] at hi
        cases hi
    · obtain ⟨rfl, rfl⟩ := Prod.mk.inj (List.mem_singleton.1 hnew)
      exact ⟨⟨name', minLevel⟩, if_pos rfl, rfl⟩

theorem step (h : Exclusive st) {a : Action} (hok : Apart st a)
    (hstep : step minLevel st a = some st') : Exclusive st' := by
  cases a with
  | lookup c name =>
    cases hc : st.clients c with
    | idle =>
      cases hf : findSubsystem st.d name with
      | ok id =>
        simp only [Registrations.step, hc, hf, Option.some.injEq] at hstep
        subst hstep
        exact h.found hf
      | error e =>
        simp only [Registrations.step, hc, hf, Option.some.injEq] at hstep
        subst hstep
        exact h.miss hf hok
    | _ => simp [Registrations.step, hc] at hstep
  | take c =>
    cases hc : st.clients c with
    | missed name =>
      simp only [Registrations.step, hc, Option.some.injEq] at hstep
      subst hstep
      exact h.take hc hok
    | _ => simp [Registrations.step, hc] at hstep
  | insert c =>
    cases hc : st.clients c with
    | took name id =>
      simp only [Registrations.step, hc, Option.some.injEq] at hstep
      subst hstep
      exact h.insert hc
    | _ => simp [Registrations.step, hc] at hstep

end Exclusive

/-- Registrations whose names are never looked up in between are merged. -/
theorem merged_of_reach (minLevel : LogLevel) (st : State)
    (h : (system minLevel).Reach Apart st) : Merged st := by
  refine Exclusive.merged (h.invariant ?_ fun _ _ _ _ hI hok hstep => hI.step hok hstep)
  rintro st rfl
  exact Exclusive.init

/-! ## Two clients -/

/-- Two registrations run through each other, and one of the names is registered again. -/
theorem merged_twoNames : ∃ st, st.returned =
    [(ascii "a", 1), (ascii "b", 0), (ascii "b", 0)] ∧ Merged st := by
  have htake {st : State} {c : ℕ} (h : st.taken < 2 ^ 32) : Apart st (.take c) := h
  have hinsert {st : State} {c : ℕ} : Apart st (.insert c) := trivial
  have h₀ : (system .finest).Reach Apart start := .init rfl
  have h₁ := h₀.step (a := .lookup 0 (ascii "a")) (fun _ h => by cases h) rfl
  have h₂ := h₁.step (a := .lookup 1 (ascii "b")) (fun c => by
    rcases c with _ | c
    · decide
    · exact fun h => by cases h) rfl
  have h₃ := h₂.step (a := .take 1) (htake (by decide)) rfl
  have h₄ := h₃.step (a := .take 0) (htake (by decide)) rfl
  have h₅ := h₄.step (a := .insert 0) hinsert rfl
  have h₆ := h₅.step (a := .insert 1) hinsert rfl
  have h₇ := h₆.step (a := .lookup 0 (ascii "b")) (fun c => by
    rcases c with _ | _ | c
    · exact fun h => by cases h
    · exact fun h => by cases h
    · exact fun h => by cases h) rfl
  exact ⟨_, rfl, merged_of_reach .finest _ h₇⟩

/-- Both clients miss the name. -/
def oneName : List Action :=
  [.lookup 0 (ascii "a"), .lookup 1 (ascii "a"), .take 0, .insert 0, .take 1, .insert 1]

/-- The name gets two handles and two entries. -/
theorem one_name_twice :
    ¬∀ (minLevel : LogLevel) (st : State), (system minLevel).Reachable st → Merged st := by
  intro h
  obtain ⟨st, hreach, hst⟩ := System.exists_reach (T := system .finest)
    (b := fun _ _ => true) (p := fun _ _ => True) (fun _ _ _ => trivial) rfl oneName
    (fun st => st.returned == [(ascii "a", 0), (ascii "a", 1)]) rfl
  have hmem := beq_iff_eq.1 hst
  have hiff := (h .finest st hreach).same_iff (ascii "a") 0 (ascii "a") 1 (by simp [hmem])
    (by simp [hmem])
  exact absurd (hiff.2 rfl) (by decide)

end Logfile.Registrations
