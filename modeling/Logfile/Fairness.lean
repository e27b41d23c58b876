import Logfile.Runs

/-!
# Fair runs

A `Run` has no end. At some of its times a step is made, at the others nothing happens, so what
comes to an end idles for ever. An action belongs to a party or to the environment, and a run is
`Fair` if a party that is ready from some time on makes a step. Nothing is asked of the
environment.

`Fair.leadsTo` is the rule for what must happen. A `Ranking` names for each state a party that is
ready, until the goal is reached, and a rank that no step raises and every step of this party
lowers; a step that leaves the rank as it is leaves the party as it is.
-/

namespace System

variable {σ α ι W : Type*} {T : System σ α} {ok : σ → α → Prop}

/-- A run from a reachable state, all of whose steps satisfy `ok`. -/
structure Run (T : System σ α) (ok : σ → α → Prop) where
  state : ℕ → σ
  action : ℕ → Option α
  start : T.Reachable (state 0)
  idle : ∀ k, action k = none → state (k + 1) = state k
  step : ∀ k a, action k = some a → ok (state k) a ∧ T.step (state k) a = some (state (k + 1))

namespace Run

variable (r : Run T ok)

theorem reachable (k : ℕ) : T.Reachable (r.state k) := by
  induction k with
  | zero => exact r.start
  | succ k ih =>
    cases ha : r.action k with
    | none => rwa [r.idle k ha]
    | some a => exact .step ih trivial (r.step k a ha).2

/-- A party that is ready from some time on makes a step. -/
def Fair (party : α → Option ι) (ready : ι → σ → Prop) : Prop :=
  ∀ i k, (∀ j ≥ k, ready i (r.state j)) → ∃ j ≥ k, ∃ a, r.action j = some a ∧ party a = some i

variable {r} {party : α → Option ι} {ready : ι → σ → Prop}

/-- A run in which nobody is ready in the end is fair. -/
theorem fair_of_settled {n : ℕ} (h : ∀ j ≥ n, ∀ i, ¬ready i (r.state j)) :
    r.Fair party ready :=
  fun i k hready => absurd (hready (max k n) (le_max_left k n)) (h _ (le_max_right k n) i)

end Run

/-- The rank, and the party that brings the goal nearer. -/
structure Ranking [LT W] (T : System σ α) (ok : σ → α → Prop) (party : α → Option ι)
    (ready : ι → σ → Prop) (I goal : σ → Prop) (rank : σ → W) (helpful : σ → ι) : Prop where
  ready : ∀ s, T.Reachable s → I s → ¬goal s → ready (helpful s) s
  step : ∀ s a s', T.Reachable s → I s → ¬goal s → ok s a → T.step s a = some s' →
    goal s' ∨ I s' ∧ (rank s' < rank s ∨
      rank s' = rank s ∧ helpful s' = helpful s ∧ party a ≠ some (helpful s))

/-- A fair run reaches the goal. -/
theorem Run.Fair.leadsTo [LT W] [WellFoundedLT W] {r : Run T ok} {party : α → Option ι}
    {ready : ι → σ → Prop} {I goal : σ → Prop} {rank : σ → W} {helpful : σ → ι}
    (hfair : r.Fair party ready) (h : Ranking T ok party ready I goal rank helpful) {k : ℕ}
    (hI : I (r.state k)) : ∃ j ≥ k, goal (r.state j) := by
  generalize hw : rank (r.state k) = w
  induction w using WellFoundedLT.induction generalizing k with
  | ind w ih =>
    by_contra hnever
    push Not at hnever
    -- one time later the rank is lower, or nothing has changed
    have hnext : ∀ j ≥ k, I (r.state j) → rank (r.state j) = w →
        I (r.state (j + 1)) ∧ rank (r.state (j + 1)) = w ∧
          helpful (r.state (j + 1)) = helpful (r.state j) ∧
          ∀ a, r.action j = some a → party a ≠ some (helpful (r.state j)) := by
      intro j hj hIj hrank
      cases ha : r.action j with
      | none =>
        rw [r.idle j ha]
        exact ⟨hIj, hrank, rfl, by simp⟩
      | some a =>
        obtain ⟨hok, hs⟩ := r.step j a ha
        rcases h.step _ a _ (r.reachable j) hIj (hnever j hj) hok hs with hgoal | ⟨hI', hcase⟩
        · exact absurd hgoal (hnever _ (le_add_right hj))
        · rcases hcase with hlt | ⟨heq, hhelp, hparty⟩
          · obtain ⟨m, hm, hgoal⟩ := ih _ (hrank ▸ hlt) hI' rfl
            exact absurd hgoal (hnever m (le_trans (le_add_right hj) hm))
          · refine ⟨hI', heq.trans hrank, hhelp, ?_⟩
            rintro _ ⟨⟩
            exact hparty
    have hsame : ∀ j ≥ k, I (r.state j) ∧ rank (r.state j) = w ∧
        helpful (r.state j) = helpful (r.state k) := by
      intro j hj
      induction j, hj using Nat.le_induction with
      | base => exact ⟨hI, hw, rfl⟩
      | succ j hj ih =>
        obtain ⟨hI', hrank', hhelp', -⟩ := hnext j hj ih.1 ih.2.1
        exact ⟨hI', hrank', hhelp'.trans ih.2.2⟩
    obtain ⟨j, hj, a, ha, hparty⟩ := hfair (helpful (r.state k)) k fun j hj => by
      rw [← (hsame j hj).2.2]
      exact h.ready _ (r.reachable j) (hsame j hj).1 (hnever j hj)
    obtain ⟨hIj, hrank, hhelp⟩ := hsame j hj
    exact (hnext j hj hIj hrank).2.2.2 a ha (hparty.trans (by rw [hhelp]))

/-- The run that makes the given steps and then idles. -/
theorem exists_run {b : σ → α → Bool} (hb : ∀ s a, b s a → ok s a) :
    ∀ {as : List α} {s s' : σ}, T.Reachable s → T.exec b s as = some s' →
      ∃ r : Run T ok, r.state 0 = s ∧ ∀ j ≥ as.length, r.state j = s'
  | [], s, s', hs, h => by
    obtain rfl : s = s' := by simpa [exec] using h
    exact ⟨⟨fun _ => s, fun _ => none, hs, fun _ _ => rfl, by simp⟩, rfl, fun _ _ => rfl⟩
  | a :: as, s, s', hs, h => by
    unfold exec at h
    split at h
    · next hok =>
      obtain ⟨s₁, h₁, h₂⟩ := Option.bind_eq_some_iff.1 h
      obtain ⟨r, rfl, hend⟩ := exists_run hb (.step hs trivial h₁) h₂
      let state : ℕ → σ := fun k => k.casesOn s r.state
      let action : ℕ → Option α := fun k => k.casesOn (some a) r.action
      refine ⟨⟨state, action, hs, fun k hk => ?_, fun k b hk => ?_⟩, rfl, fun j hj => ?_⟩
      · cases k with
        | zero => cases hk
        | succ k => exact r.idle k hk
      · cases k with
        | zero =>
          obtain rfl := Option.some.inj hk
          exact ⟨hb _ _ hok, h₁⟩
        | succ k => exact r.step k b hk
      · obtain ⟨j, rfl⟩ : ∃ i, j = i + 1 := Nat.exists_eq_add_one.2 (by simp at hj; omega)
        exact hend j (by simpa using hj)
    · cases h

end System
