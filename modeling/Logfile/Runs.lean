import Mathlib

/-!
# Transition systems and their runs

A `System` is a set of initial states and a partial step function. An action names
the party that moves together with every choice its environment makes, so one step
function covers all interleavings. `Reach ok` are the states of the runs all of whose
steps satisfy `ok`, a condition on the state before the step and the action;
`Reachable` puts no condition.

`Reach.invariant` is induction over a run. `Reach.simulate` carries a run to a second
system along a relation, each step answered by any number of steps. `exec` runs a list
of actions, and `reach_of_exec` turns a successful execution into a run.

`Along` is for properties of a recorded history : every entry, given the ones before it.
-/

/-- Initial states and a partial step function; `none` is an action not enabled. -/
structure System (σ α : Type*) where
  init : σ → Prop
  step : σ → α → Option σ

namespace System

variable {σ α τ β : Type*} {T : System σ α} {A : System τ β}

/-- The states of the runs whose every step satisfies `ok`. -/
inductive Reach (T : System σ α) (ok : σ → α → Prop) : σ → Prop
  | init {s} : T.init s → Reach T ok s
  | step {s a s'} : Reach T ok s → ok s a → T.step s a = some s' → Reach T ok s'

/-- The states of all runs. -/
abbrev Reachable (T : System σ α) : σ → Prop :=
  T.Reach fun _ _ => True

/-- Some action leads from one state to the other. -/
def Moves (T : System σ α) (s s' : σ) : Prop :=
  ∃ a, T.step s a = some s'

namespace Reach

variable {ok ok' : σ → α → Prop} {s : σ}

theorem mono (h : ∀ s a, ok s a → ok' s a) (hs : T.Reach ok s) : T.Reach ok' s := by
  induction hs with
  | init hi => exact .init hi
  | step _ hok hstep ih => exact .step ih (h _ _ hok) hstep

/-- A property of the initial states that every step of the run keeps holds throughout.
The step may use that its first state is reached. -/
theorem invariant {I : σ → Prop} (hs : T.Reach ok s) (h0 : ∀ s, T.init s → I s)
    (hstep : ∀ s a s', T.Reach ok s → I s → ok s a → T.step s a = some s' → I s') : I s := by
  induction hs with
  | init hi => exact h0 _ hi
  | step hr hok hst ih => exact hstep _ _ _ hr ih hok hst

theorem moves {t t' : τ} (ht : A.Reachable t) (h : Relation.ReflTransGen A.Moves t t') :
    A.Reachable t' := by
  induction h with
  | refl => exact ht
  | tail _ hm ih =>
    obtain ⟨b, hb⟩ := hm
    exact .step ih trivial hb

/-- A relation that holds at the start and that the second system can restore after
every step of the first relates every state of the run to a reachable one. -/
theorem simulate {R : σ → τ → Prop} (hs : T.Reach ok s)
    (h0 : ∀ s, T.init s → ∃ t, A.init t ∧ R s t)
    (hstep : ∀ s a s' t, T.Reach ok s → R s t → ok s a → T.step s a = some s' →
      ∃ t', Relation.ReflTransGen A.Moves t t' ∧ R s' t') :
    ∃ t, A.Reachable t ∧ R s t := by
  induction hs with
  | init hi =>
    obtain ⟨t, ht, hR⟩ := h0 _ hi
    exact ⟨t, .init ht, hR⟩
  | step hr hok hst ih =>
    obtain ⟨t, ht, hR⟩ := ih
    obtain ⟨t', hm, hR'⟩ := hstep _ _ _ _ hr hR hok hst
    exact ⟨t', ht.moves hm, hR'⟩

end Reach

/-- Run a list of actions, each of which has to satisfy `ok`. -/
def exec (T : System σ α) (ok : σ → α → Bool) (s : σ) : List α → Option σ
  | [] => some s
  | a :: as => if ok s a then (T.step s a).bind (T.exec ok · as) else none

theorem reach_of_exec {ok : σ → α → Bool} {p : σ → α → Prop} (hp : ∀ s a, ok s a → p s a) :
    ∀ {as : List α} {s s' : σ}, T.Reach p s → T.exec ok s as = some s' → T.Reach p s'
  | [], s, s', hs, h => by
    obtain rfl : s = s' := by simpa [exec] using h
    exact hs
  | a :: as, s, s', hs, h => by
    unfold exec at h
    split at h
    · next hok =>
      obtain ⟨s₁, h₁, h₂⟩ := Option.bind_eq_some_iff.mp h
      exact reach_of_exec hp (.step hs (hp _ _ hok) h₁) h₂
    · cases h

/-- An execution that ends in a state with the property `q` shows such a state reached. -/
theorem exists_reach {b : σ → α → Bool} {p : σ → α → Prop} (hp : ∀ s a, b s a → p s a)
    {s : σ} (hs : T.init s) (as : List α) (q : σ → Bool)
    (h : (T.exec b s as).any q = true) : ∃ s', T.Reach p s' ∧ q s' = true := by
  obtain ⟨s', hexec, hq⟩ := (Option.any_eq_true _ _).1 h
  exact ⟨s', reach_of_exec hp (.init hs) hexec, hq⟩

end System

/-- An entry of a list and of what is appended to it. -/
theorem concat_eq_append_cons {α : Type*} {t past later : List α} {o o' : α}
    (h : t ++ [o] = past ++ o' :: later) :
    (t = past ∧ o = o' ∧ later = []) ∨
      ∃ later', later = later' ++ [o] ∧ t = past ++ o' :: later' := by
  rcases List.eq_nil_or_concat later with rfl | ⟨later', x, rfl⟩
  · obtain ⟨hpast, ho⟩ := List.append_inj' h rfl
    exact Or.inl ⟨hpast, (List.cons.inj ho).1, rfl⟩
  · rw [List.concat_eq_append, ← List.cons_append, ← List.append_assoc] at h
    obtain ⟨hpast, ho⟩ := List.append_inj' h rfl
    exact Or.inr ⟨later', by rw [List.concat_eq_append, (List.cons.inj ho).1], hpast⟩

/-- Every entry of the history satisfies `P` with the entries before it. -/
def Along {α : Type*} (P : List α → α → Prop) (t : List α) : Prop :=
  ∀ past o later, t = past ++ o :: later → P past o

namespace Along

variable {α : Type*} {P : List α → α → Prop} {t new : List α}

theorem nil : Along P [] := by
  intro past o later h
  simp at h

theorem concat (h : Along P t) {o : α} (ho : P t o) : Along P (t ++ [o]) := by
  intro past o' later heq
  obtain ⟨rfl, rfl, rfl⟩ | ⟨later', -, rfl⟩ := concat_eq_append_cons heq
  · exact ho
  · exact h past o' later' rfl

end Along
