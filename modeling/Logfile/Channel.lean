import Logfile.Runs

/-!
# An ordered channel that may lose

What a delivery path promises, apart from any threads. Distinct items are sent, and
each is then pending until it arrives or is given up. Only the oldest pending item can
arrive; any pending items can be given up at any time.

Over every run, what arrived followed by what is pending is a subsequence of what was
sent, so arrival keeps the order of sending and nothing arrives twice, and every item
sent is in exactly one of the three lists (`Inv`, `inv_of_reachable`, `Inv.place`).
-/

/-- The items sent, on their way, arrived and given up. -/
@[ext] structure Channel (ι : Type*) where
  sent : List ι
  pending : List ι
  arrived : List ι
  lost : List ι

set_option linter.unusedSectionVars false

namespace Channel

variable {ι : Type*} [DecidableEq ι]

/-- One step of the channel. -/
inductive Act (ι : Type*)
  | send (x : ι)
  | arrive
  | lose (gone keep : List ι)

/-- Only a new item can be sent, and only the oldest pending one arrives. The items that
are not lost stay in their order. -/
def step (c : Channel ι) : Act ι → Option (Channel ι)
  | .send x =>
    if x ∈ c.sent then none
    else some { c with sent := c.sent ++ [x], pending := c.pending ++ [x] }
  | .arrive =>
    match c.pending with
    | [] => none
    | x :: rest => some { c with pending := rest, arrived := c.arrived ++ [x] }
  | .lose gone keep =>
    if keep.Sublist c.pending ∧ (gone ++ keep).Perm c.pending then
      some { c with pending := keep, lost := c.lost ++ gone }
    else none

/-- The channel before anything is sent. -/
def empty : Channel ι :=
  ⟨[], [], [], []⟩

/-- The channel as a transition system. -/
def system (ι : Type*) [DecidableEq ι] : System (Channel ι) (Act ι) :=
  ⟨(· = empty), step⟩

/-- What holds of the four lists at any time. -/
structure Inv (c : Channel ι) : Prop where
  nodup : c.sent.Nodup
  sublist : (c.arrived ++ c.pending).Sublist c.sent
  perm : (c.arrived ++ c.lost ++ c.pending).Perm c.sent

theorem inv_empty : Inv (empty : Channel ι) :=
  ⟨.nil, .refl _, .refl _⟩

theorem inv_send {c : Channel ι} (h : Inv c) {x : ι} (hx : x ∉ c.sent) :
    Inv { c with sent := c.sent ++ [x], pending := c.pending ++ [x] } where
  nodup := by
    simpa [List.nodup_append, h.nodup] using fun y hy (hyx : y = x) => hx (hyx ▸ hy)
  sublist := by simpa using h.sublist.append (.refl [x])
  perm := by simpa using h.perm.append_right [x]

theorem inv_arrive {c : Channel ι} (h : Inv c) {x : ι} {rest : List ι}
    (hp : c.pending = x :: rest) :
    Inv { c with pending := rest, arrived := c.arrived ++ [x] } where
  nodup := h.nodup
  sublist := by simpa [hp] using h.sublist
  perm := by
    refine List.Perm.trans ?_ (hp ▸ h.perm)
    simp only [List.append_assoc, List.singleton_append]
    exact (List.perm_middle.symm).append_left _

theorem inv_lose {c : Channel ι} (h : Inv c) {gone keep : List ι}
    (hsub : keep.Sublist c.pending) (hperm : (gone ++ keep).Perm c.pending) :
    Inv { c with pending := keep, lost := c.lost ++ gone } where
  nodup := h.nodup
  sublist := ((List.Sublist.refl _).append hsub).trans h.sublist
  perm := by
    refine List.Perm.trans ?_ h.perm
    simpa only [List.append_assoc] using (hperm.append_left _).append_left _

theorem inv_step {c c' : Channel ι} {a : Act ι} (h : Inv c) (hs : step c a = some c') :
    Inv c' := by
  cases a with
  | send x =>
    simp only [step] at hs
    split_ifs at hs with hx
    obtain rfl := Option.some.inj hs
    exact inv_send h hx
  | arrive =>
    simp only [step] at hs
    split at hs
    · cases hs
    · next x rest hp =>
      obtain rfl := Option.some.inj hs
      exact inv_arrive h hp
  | lose gone keep =>
    simp only [step] at hs
    split_ifs at hs with hp
    obtain rfl := Option.some.inj hs
    exact inv_lose h hp.1 hp.2

theorem inv_of_reachable {c : Channel ι} (h : (system ι).Reachable c) : Inv c :=
  h.invariant (by rintro _ rfl; exact inv_empty) fun _ _ _ _ hi _ hs => inv_step hi hs

/-- An item that was sent and has not arrived is pending or lost, and not both. -/
theorem Inv.place {c : Channel ι} (h : Inv c) {x : ι} (hx : x ∈ c.sent)
    (ha : x ∉ c.arrived) : Xor (x ∈ c.pending) (x ∈ c.lost) := by
  have hmem : x ∈ c.arrived ++ c.lost ++ c.pending := h.perm.mem_iff.2 hx
  have hnd : (c.arrived ++ c.lost ++ c.pending).Nodup := h.perm.nodup_iff.2 h.nodup
  have hdisj := (List.nodup_append'.1 hnd).2.2
  simp only [List.mem_append, ha, false_or] at hmem
  rcases hmem with hl | hp
  · exact Or.inr ⟨hl, fun hp => hdisj (by simp [hl]) hp⟩
  · exact Or.inl ⟨hp, fun hl => hdisj (by simp [hl]) hp⟩

/-- When what is pending or lost is divided into parts, an item that was sent and has not
arrived is in exactly one of them. -/
theorem Inv.part {κ : Type*} {c : Channel ι} (h : Inv c) {parts : List κ} {f : κ → List ι}
    (hall : ∀ k, k ∈ parts) (hf : (parts.flatMap f).Perm (c.pending ++ c.lost)) {x : ι}
    (hx : x ∈ c.sent) (ha : x ∉ c.arrived) : ∃! k, x ∈ f k := by
  have hnd : (c.arrived ++ c.lost ++ c.pending).Nodup := h.perm.nodup_iff.2 h.nodup
  rw [List.append_assoc, List.nodup_append'] at hnd
  have hparts : (parts.flatMap f).Nodup :=
    (hf.trans List.perm_append_comm).nodup_iff.2 hnd.2.1
  have hmem : x ∈ parts.flatMap f := by
    rw [hf.mem_iff, List.mem_append]
    exact (h.place hx ha).or
  obtain ⟨k, -, hk⟩ := List.mem_flatMap.1 hmem
  refine ⟨k, hk, fun k' hk' => ?_⟩
  by_contra hne
  have : Std.Symm (Function.onFun List.Disjoint f) := ⟨fun _ _ h _ ha hb => h hb ha⟩
  exact (List.nodup_flatMap.1 hparts).2.forall (hall k') (hall k) hne hk' hk

end Channel
