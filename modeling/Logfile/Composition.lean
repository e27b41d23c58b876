import Logfile.Runs

/-!
# Parts of a composed system

The states of a composed system are related to those of a part. If the part can follow every step
with steps of its own, or none, a run of the whole goes along with a run of the part
(`Reach.follow`), and whatever holds of the runs of the part holds of the whole. Where the state of
the part is a function of that of the whole, it is `Reach.project`.

A property that no step brings back held in all of a run that ends with it (`Reach.restrict`).
-/

namespace System

variable {σ α τ β : Type*} {T : System σ α} {A : System τ β} {ok : σ → α → Prop}
  {ok' : τ → β → Prop}

/-- The part makes some steps that satisfy its condition. -/
def PartSteps (A : System τ β) (ok' : τ → β → Prop) : τ → τ → Prop :=
  Relation.ReflTransGen fun t t' => ∃ b, ok' t b ∧ A.step t b = some t'

theorem PartSteps.single {t t' : τ} {b : β} (hok : ok' t b) (hs : A.step t b = some t') :
    PartSteps A ok' t t' :=
  Relation.ReflTransGen.single ⟨b, hok, hs⟩

theorem Reach.partSteps {t t' : τ} (ht : A.Reach ok' t) (h : PartSteps A ok' t t') :
    A.Reach ok' t' := by
  induction h with
  | refl => exact ht
  | tail _ hm ih =>
    obtain ⟨b, hb, hs⟩ := hm
    exact .step ih hb hs

/-- A run of the whole goes along with a run of the part. The step may use that its first state is
reached, and so is that of the part. -/
theorem Reach.follow {R : σ → τ → Prop} {s : σ} (hs : T.Reach ok s)
    (h0 : ∀ s, T.init s → ∃ t, A.Reach ok' t ∧ R s t)
    (hstep : ∀ s a s' t, T.Reach ok s → A.Reach ok' t → R s t → ok s a → T.step s a = some s' →
      ∃ t', PartSteps A ok' t t' ∧ R s' t') : ∃ t, A.Reach ok' t ∧ R s t := by
  induction hs with
  | init hi => exact h0 _ hi
  | step hr hok hst ih =>
    obtain ⟨t, ht, hR⟩ := ih
    obtain ⟨t', hsteps, hR'⟩ := hstep _ _ _ _ hr ht hR hok hst
    exact ⟨t', ht.partSteps hsteps, hR'⟩

theorem Reach.project {f : σ → τ} {s : σ} (hs : T.Reach ok s)
    (h0 : ∀ s, T.init s → A.Reach ok' (f s))
    (hstep : ∀ s a s', T.Reach ok s → A.Reach ok' (f s) → ok s a → T.step s a = some s' →
      PartSteps A ok' (f s) (f s')) : A.Reach ok' (f s) := by
  obtain ⟨t, ht, rfl⟩ := hs.follow (R := fun s t => t = f s) (fun s hi => ⟨_, h0 s hi, rfl⟩)
    fun s a s' t hr ht hR hok hst => ⟨_, hR ▸ hstep s a s' hr (hR ▸ ht) hok hst, rfl⟩
  exact ht

/-- If a property that holds at the end can only have held before each step, it held after every
step. -/
theorem Reach.restrict {I : σ → Prop} {s : σ} (hs : T.Reach ok s) (hI : I s)
    (hback : ∀ s a s', T.step s a = some s' → I s' → I s) :
    T.Reach (fun s a => ok s a ∧ ∀ s' ∈ T.step s a, I s') s := by
  induction hs with
  | init hi => exact .init hi
  | step hr hok hst ih =>
    refine .step (ih (hback _ _ _ hst hI)) ⟨hok, fun s' hs' => ?_⟩ hst
    rw [hst] at hs'
    obtain rfl := Option.some.inj hs'
    exact hI

end System
