import Mathlib

/-!
# Strings as lists

`std::string::find`, as the distance to the first occurrence of a pattern in what is left of
the string (`search`), and what a position found says about the string around it. The lists
are over any type; a `std::string` is a list of bytes.
-/

set_option linter.unusedSectionVars false

namespace Text

variable {α : Type*} [DecidableEq α] {pat s a b : List α} {c : α} {k : ℕ}

/-- The distance to the first occurrence of `pat`. -/
def search (pat : List α) : List α → Option ℕ
  | [] => if pat.isEmpty then some 0 else none
  | c :: s => if pat.isPrefixOf (c :: s) then some 0 else (search pat s).map (· + 1)

/-- `s.find(pat, pos)`, with `none` for `npos` -/
def find (s pat : List α) (pos : ℕ) : Option ℕ :=
  (search pat (s.drop pos)).map (pos + ·)

/-- `s.find_first_not_of(set)` -/
def findFirstNotOf (s set : List α) : Option ℕ :=
  s.findIdx? fun c => !set.contains c

theorem search_eq_zero (h : pat <+: s) : search pat s = some 0 := by
  cases s with
  | nil => simp [search, List.prefix_nil.1 h]
  | cons c s => simp [search, List.isPrefixOf_iff_prefix.2 h]

theorem search_cons (h : ¬pat <+: c :: s) :
    search pat (c :: s) = (search pat s).map (· + 1) := by
  have hfalse : pat.isPrefixOf (c :: s) = false := by
    rw [← List.isPrefixOf_iff_prefix] at h
    exact Bool.eq_false_iff.2 h
  simp [search, hfalse]

theorem find_append (a b pat : List α) :
    find (a ++ b) pat a.length = (search pat b).map (a.length + ·) := by
  simp [find]

/-- No occurrence starts in `a`. -/
theorem search_append_of_forall :
    ∀ {a : List α}, (∀ d e, a = d ++ e → e ≠ [] → ¬pat <+: e ++ b) →
      search pat (a ++ b) = (search pat b).map (a.length + ·)
  | [], _ => by simp
  | c :: a, h => by
    have hhead : ¬pat <+: c :: (a ++ b) := h [] (c :: a) rfl (by simp)
    have ih := search_append_of_forall (a := a) fun d e hde he =>
      h (c :: d) e (by rw [hde]; rfl) he
    rw [List.cons_append, search_cons hhead, ih, Option.map_map]
    congr 1
    funext k
    simp only [Function.comp_apply, List.length_cons]
    omega

theorem search_eq_none_iff (hp : pat ≠ []) : search pat s = none ↔ ¬pat <:+: s := by
  induction s with
  | nil => simp [search, hp]
  | cons c s ih =>
    rw [List.infix_cons_iff]
    by_cases hpre : pat <+: c :: s
    · simp [search_eq_zero hpre, hpre]
    · simp [search_cons hpre, hpre, ih]

/-- What a position found says. -/
theorem exists_of_search (h : search pat s = some k) :
    ∃ a b, s = a ++ pat ++ b ∧ a.length = k ∧
      ∀ d e, a = d ++ e → e ≠ [] → ¬pat <+: e ++ pat ++ b := by
  induction s generalizing k with
  | nil =>
    simp only [search] at h
    split at h
    · next hp =>
      obtain rfl := Option.some.inj h
      refine ⟨[], [], by simpa using hp, rfl, fun d e hde he => ?_⟩
      simp_all
    · cases h
  | cons c s ih =>
    by_cases hpre : pat <+: c :: s
    · rw [search_eq_zero hpre, Option.some.injEq] at h
      obtain ⟨b, hb⟩ := hpre
      refine ⟨[], b, hb.symm, h, fun d e hde he => ?_⟩
      simp_all
    · rw [search_cons hpre, Option.map_eq_some_iff] at h
      obtain ⟨k', hk', rfl⟩ := h
      obtain ⟨a, b, rfl, rfl, hno⟩ := ih hk'
      refine ⟨c :: a, b, by simp, by simp, fun d e hde he hpe => ?_⟩
      cases d with
      | nil =>
        obtain rfl : c :: a = e := hde
        exact hpre (by simpa using hpe)
      | cons c' d =>
        rw [List.cons_append, List.cons.injEq] at hde
        exact hno d e hde.2 he hpe

/-- A position found is in the string, not before the start of the search. -/
theorem find_bounds {pos i : ℕ} (hp : pat ≠ []) (h : find s pat pos = some i) :
    pos ≤ i ∧ i + pat.length ≤ s.length := by
  rw [find, Option.map_eq_some_iff] at h
  obtain ⟨k, hk, rfl⟩ := h
  obtain ⟨a, b, hab, rfl, -⟩ := exists_of_search hk
  have hlen := congrArg List.length hab
  have hpos : 0 < pat.length := List.length_pos_iff.2 hp
  simp only [List.length_drop, List.length_append] at hlen
  omega

/-! ## Patterns of one character -/

theorem search_singleton (h : c ∉ a) (b : List α) : search [c] (a ++ c :: b) = some a.length := by
  rw [search_append_of_forall, search_eq_zero (by simp)]
  · rfl
  · rintro d e rfl he hpre
    cases e with
    | nil => exact he rfl
    | cons x e =>
      rw [List.cons_append, List.cons_prefix_cons] at hpre
      exact h (by simp [hpre.1])

theorem search_singleton_eq_none : search [c] s = none ↔ c ∉ s := by
  rw [search_eq_none_iff (by simp), List.singleton_infix_iff]

theorem exists_of_search_singleton (h : search [c] s = some k) :
    ∃ a b, s = a ++ c :: b ∧ c ∉ a ∧ a.length = k := by
  obtain ⟨a, b, rfl, hk, hno⟩ := exists_of_search h
  refine ⟨a, b, by simp, fun hc => ?_, hk⟩
  obtain ⟨d, e, rfl⟩ := List.append_of_mem hc
  exact hno d (c :: e) rfl (by simp) (by simp)

/-- A character that stands in neither part in front of it cuts a list in one way. -/
theorem append_cons_inj {a' b' : List α} (h : c ∉ a) (h' : c ∉ a')
    (heq : a ++ c :: b = a' ++ c :: b') : a = a' ∧ b = b' := by
  have hsearch := congrArg (search [c]) heq
  rw [search_singleton h, search_singleton h', Option.some.injEq] at hsearch
  obtain ⟨ha, hb⟩ := List.append_inj heq hsearch
  exact ⟨ha, (List.cons.inj hb).2⟩

/-! ## Patterns without a border -/

/-- No proper suffix of the pattern is a beginning of it. -/
def Unbordered (pat : List α) : Prop :=
  ∀ k < pat.length, 0 < k → ¬pat.drop k <+: pat

instance (pat : List α) : Decidable (Unbordered pat) :=
  inferInstanceAs (Decidable (∀ k < pat.length, 0 < k → ¬pat.drop k <+: pat))

/-- The first occurrence of such a pattern is not overlapped by an earlier one. -/
theorem search_unbordered (hu : Unbordered pat) (h : ¬pat <:+: a) (b : List α) :
    search pat (a ++ pat ++ b) = some a.length := by
  rw [List.append_assoc, search_append_of_forall, search_eq_zero (List.prefix_append ..)]
  · rfl
  · rintro d e rfl he hpre
    rcases Nat.lt_or_ge e.length pat.length with hlt | hge
    · -- an occurrence reaching into the pattern would give it a border
      refine hu e.length hlt (List.length_pos_iff.2 he) ?_
      obtain ⟨t, ht⟩ := hpre
      have hdrop : pat.drop e.length ++ t = pat ++ b := by
        have := congrArg (List.drop e.length) ht
        simpa [List.drop_append_of_le_length hlt.le] using this
      refine List.prefix_of_prefix_length_le ⟨t, hdrop⟩ (List.prefix_append _ _) ?_
      simp
    · exact h ((List.prefix_of_prefix_length_le hpre (List.prefix_append _ _) hge).isInfix.trans
        (List.suffix_append d e).isInfix)

end Text

/-- One `char`. -/
abbrev Byte := UInt8

/-- A `std::string`. -/
abbrev Bytes := List Byte

/-- The bytes of a string literal. -/
def ascii (s : String) : Bytes :=
  s.toList.map fun c => c.toNat.toUInt8

namespace Text

/-! ## Substrings and exceptions -/

/-- The exceptions that can occur. -/
inductive Exn
  | invalidArgument (what : Bytes)
  | outOfRange
  deriving DecidableEq, Repr

section Except

variable {ε α β : Type} (a : α) (e : ε) (f : α → Except ε β) (g : α → β)

@[simp] theorem ok_bind : (Except.ok a >>= f) = f a := rfl
@[simp] theorem error_bind : (Except.error e >>= f) = Except.error e := rfl
@[simp] theorem map_ok : (g <$> (Except.ok a : Except ε α)) = Except.ok (g a) := rfl
@[simp] theorem map_error : (g <$> (Except.error e : Except ε α)) = Except.error e := rfl
@[simp] theorem pure_eq_ok : (pure a : Except ε α) = .ok a := rfl
@[simp] theorem throw_eq_error : (throw e : Except ε α) = .error e := rfl

theorem bind_eq_ok {x : Except ε α} {b : β} :
    (x >>= f) = .ok b ↔ ∃ a, x = .ok a ∧ f a = .ok b := by
  cases x <;> simp

end Except

/-- `s.substr(pos, n)` -/
def substr (s : Bytes) (pos n : ℕ) : Except Exn Bytes :=
  if pos ≤ s.length then .ok ((s.drop pos).take n) else .error .outOfRange

/-- `s.substr(pos)` -/
def substrFrom (s : Bytes) (pos : ℕ) : Except Exn Bytes :=
  if pos ≤ s.length then .ok (s.drop pos) else .error .outOfRange

section Substr

variable {i n : ℕ}

theorem substr_append (a b c : Bytes) (hi : i = a.length) (hn : n = b.length) :
    substr (a ++ b ++ c) i n = .ok b := by
  subst hi hn
  simp [substr]

theorem substrFrom_append (a b : Bytes) (hi : i = a.length) :
    substrFrom (a ++ b) i = .ok b := by
  subst hi
  simp [substrFrom]

end Substr

end Text
