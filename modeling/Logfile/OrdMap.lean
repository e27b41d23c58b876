import Mathlib

/-!
# Ordered maps

An `OrdMap κ ν` is a list of entries in strictly ascending key order, what a
`std::map` shows to its user : lookup (`find`), insertion of a new key (`emplace`),
assignment to the value of a present key (`assign`), removal (`erase`), and iteration,
from `first` on to the least key above the current one (`next`). Iteration by `next`
needs no snapshot, so the map may change between two steps of a loop over it.

The order is a field of the structure. `find_eq_some_iff` reduces lookup to membership,
and every other lemma is a fact about membership.
-/

/-- Entries with strictly ascending keys. -/
structure OrdMap (κ ν : Type*) [LinearOrder κ] where
  entries : List (κ × ν)
  sorted : entries.Pairwise fun a b => a.1 < b.1

namespace OrdMap

variable {κ ν : Type*} [LinearOrder κ] {m : OrdMap κ ν} {k k' : κ} {v v' : ν}

/-- The map without entries. -/
def empty : OrdMap κ ν :=
  ⟨[], .nil⟩

/-- The value at a key. -/
def find (m : OrdMap κ ν) (k : κ) : Option ν :=
  (m.entries.find? fun e => e.1 = k).map Prod.snd

/-- Insert a key that is absent; a present key keeps its value. -/
def emplace (m : OrdMap κ ν) (k : κ) (v : ν) : OrdMap κ ν :=
  if (m.find k).isSome then m
  else
    { entries := m.entries.filter (·.1 < k) ++ (k, v) :: m.entries.filter (k < ·.1)
      sorted := by
        refine List.pairwise_append.2 ⟨m.sorted.filter _, ?_, ?_⟩
        · refine List.pairwise_cons.2 ⟨fun e he => ?_, m.sorted.filter _⟩
          simpa using (List.mem_filter.1 he).2
        · intro a ha b hb
          have hak : a.1 < k := by simpa using (List.mem_filter.1 ha).2
          rcases List.mem_cons.1 hb with rfl | hb
          · exact hak
          · exact hak.trans (by simpa using (List.mem_filter.1 hb).2) }

/-- Assign to the value of a present key; an absent key stays absent. -/
def assign (m : OrdMap κ ν) (k : κ) (v : ν) : OrdMap κ ν :=
  { entries := m.entries.map fun e => if e.1 = k then (e.1, v) else e
    sorted := by
      refine List.pairwise_map.2 (m.sorted.imp fun {a b} hab => ?_)
      split_ifs <;> exact hab }

/-- Remove a key. -/
def erase (m : OrdMap κ ν) (k : κ) : OrdMap κ ν :=
  { entries := m.entries.filter fun e => e.1 ≠ k
    sorted := m.sorted.filter _ }

/-- The keys in order. -/
def keys (m : OrdMap κ ν) : List κ :=
  m.entries.map Prod.fst

/-- The entry with the least key. -/
def first (m : OrdMap κ ν) : Option (κ × ν) :=
  m.entries.head?

/-- The entry with the least key above `k`. -/
def next (m : OrdMap κ ν) (k : κ) : Option (κ × ν) :=
  m.entries.find? fun e => k < e.1

/-! ## Lookup -/

theorem find?_of_mem : ∀ {l : List (κ × ν)}, (l.Pairwise fun a b => a.1 < b.1) → (k, v) ∈ l →
    l.find? (fun e => e.1 = k) = some (k, v)
  | e :: l, hl, hm => by
    obtain ⟨hhead, htail⟩ := List.pairwise_cons.1 hl
    rcases List.mem_cons.1 hm with rfl | hm
    · simp
    · have hlt : e.1 < k := hhead _ hm
      rw [List.find?_cons_of_neg (by simpa using hlt.ne)]
      exact find?_of_mem htail hm

/-- Lookup is membership : a key has at most one entry. -/
theorem find_eq_some_iff : m.find k = some v ↔ (k, v) ∈ m.entries := by
  constructor
  · intro h
    obtain ⟨e, he, rfl⟩ := Option.map_eq_some_iff.1 h
    obtain rfl : e.1 = k := by simpa using List.find?_some he
    exact List.mem_of_find?_eq_some he
  · intro h
    simp [find, find?_of_mem m.sorted h]

theorem find_eq_none_iff : m.find k = none ↔ ∀ v, (k, v) ∉ m.entries := by
  constructor
  · intro h v hv
    simp [find_eq_some_iff.2 hv] at h
  · intro h
    cases hf : m.find k with
    | none => rfl
    | some v => exact (h v (find_eq_some_iff.1 hf)).elim

/-- Maps with the same entries at `k` and `k'` find the same there. -/
theorem find_congr {m' : OrdMap κ ν} (h : ∀ v, (k, v) ∈ m.entries ↔ (k', v) ∈ m'.entries) :
    m.find k = m'.find k' := by
  cases hf : m'.find k' with
  | none => exact find_eq_none_iff.2 fun v hv => find_eq_none_iff.1 hf v ((h v).1 hv)
  | some v => exact find_eq_some_iff.2 ((h v).2 (find_eq_some_iff.1 hf))

@[simp] theorem find_empty : (empty : OrdMap κ ν).find k = none :=
  rfl

theorem mem_keys : k ∈ m.keys ↔ ∃ v, m.find k = some v := by
  simp [keys, find_eq_some_iff]

theorem nodup_keys (m : OrdMap κ ν) : m.keys.Nodup :=
  List.pairwise_map.2 (m.sorted.imp fun h => h.ne)

theorem mem_emplace {e : κ × ν} (h : m.find k = none) :
    e ∈ (m.emplace k v).entries ↔ e = (k, v) ∨ e ∈ m.entries := by
  have hk : e ∈ m.entries → e.1 ≠ k := by
    rintro he rfl
    exact find_eq_none_iff.1 h _ he
  simp only [emplace, h, Option.isSome_none, Bool.false_eq_true, if_false, List.mem_append,
    List.mem_cons, List.mem_filter, decide_eq_true_eq]
  constructor
  · rintro (⟨he, -⟩ | rfl | ⟨he, -⟩)
    · exact Or.inr he
    · exact Or.inl rfl
    · exact Or.inr he
  · rintro (rfl | he)
    · exact Or.inr (Or.inl rfl)
    · rcases lt_or_gt_of_ne (hk he) with hlt | hgt
      · exact Or.inl ⟨he, hlt⟩
      · exact Or.inr (Or.inr ⟨he, hgt⟩)

theorem find_emplace (h : m.find k = none) :
    (m.emplace k v).find k' = if k' = k then some v else m.find k' := by
  split_ifs with hk
  · exact find_eq_some_iff.2 ((mem_emplace h).2 (Or.inl (by rw [hk])))
  · exact find_congr fun w => by simp [mem_emplace h, hk]

/-- A key above all others goes to the end. -/
theorem entries_emplace_of_lt (h : ∀ e ∈ m.entries, e.1 < k) :
    (m.emplace k v).entries = m.entries ++ [(k, v)] := by
  have hnone : m.find k = none := find_eq_none_iff.2 fun w hw => lt_irrefl k (h (k, w) hw)
  have hbelow : m.entries.filter (·.1 < k) = m.entries :=
    List.filter_eq_self.2 fun e he => by simpa using h e he
  have habove : m.entries.filter (k < ·.1) = [] :=
    List.filter_eq_nil_iff.2 fun e he => by simpa using (h e he).le
  simp [emplace, hnone, hbelow, habove]

theorem emplace_of_find (h : m.find k = some v') : m.emplace k v = m := by
  simp [emplace, h]

theorem find_erase : (m.erase k).find k' = if k' = k then none else m.find k' := by
  split_ifs with hk
  · exact find_eq_none_iff.2 fun w hw => by simp [erase, hk] at hw
  · exact find_congr fun w => by simp [erase, hk]

theorem mem_assign_self : (k, v') ∈ (m.assign k v).entries ↔
    v' = v ∧ ∃ w, (k, w) ∈ m.entries := by
  simp only [assign, List.mem_map]
  constructor
  · rintro ⟨e, he, heq⟩
    split_ifs at heq with hk
    · exact ⟨(Prod.mk.inj heq).2.symm, e.2, hk ▸ he⟩
    · exact (hk (congrArg Prod.fst heq)).elim
  · rintro ⟨rfl, w, hw⟩
    exact ⟨(k, w), hw, by simp⟩

theorem mem_assign_of_ne (h : k' ≠ k) :
    (k', v') ∈ (m.assign k v).entries ↔ (k', v') ∈ m.entries := by
  simp only [assign, List.mem_map]
  constructor
  · rintro ⟨e, he, heq⟩
    split_ifs at heq with hk
    · exact (h (hk ▸ (Prod.mk.inj heq).1.symm)).elim
    · exact heq ▸ he
  · intro hm
    exact ⟨(k', v'), hm, by simp [h]⟩

theorem find_assign (h : m.find k = some v') :
    (m.assign k v).find k' = if k' = k then some v else m.find k' := by
  split_ifs with hk
  · rw [hk]
    exact find_eq_some_iff.2 (mem_assign_self.2 ⟨rfl, v', find_eq_some_iff.1 h⟩)
  · exact find_congr fun w => mem_assign_of_ne hk

/-! ## Iteration -/

theorem find_of_first (h : m.first = some (k, v)) : m.find k = some v :=
  find_eq_some_iff.2 (List.mem_of_mem_head? h)

/-- No key lies below the first. -/
theorem first_le (h : m.first = some (k, v)) (hk : m.find k' = some v') : k ≤ k' := by
  obtain ⟨l, hl⟩ := List.head?_eq_some_iff.1 h
  have hs := m.sorted
  have hm := find_eq_some_iff.1 hk
  rw [hl] at hs hm
  rcases List.mem_cons.1 hm with heq | hm
  · exact (Prod.mk.inj heq).1.ge
  · exact ((List.pairwise_cons.1 hs).1 _ hm).le

theorem find_of_first_eq_none (h : m.first = none) : m.find k = none := by
  rw [first, List.head?_eq_none_iff] at h
  simp [find, h]

theorem find_of_next (h : m.next k = some (k', v')) : m.find k' = some v' :=
  find_eq_some_iff.2 (List.mem_of_find?_eq_some h)

theorem lt_of_next (h : m.next k = some (k', v')) : k < k' := by
  simpa using List.find?_some h

/-- `next` skips no key. -/
theorem next_le (h : m.next k = some (k', v')) {j : κ} {w : ν} (hj : m.find j = some w)
    (hkj : k < j) : k' ≤ j := by
  obtain ⟨-, l₁, l₂, hl, hskip⟩ := List.find?_eq_some_iff_append.1 h
  have hs := m.sorted
  have hm := find_eq_some_iff.1 hj
  rw [hl] at hs hm
  rcases List.mem_append.1 hm with hm | hm
  · simpa [hkj] using hskip _ hm
  · rcases List.mem_cons.1 hm with heq | hm
    · exact (Prod.mk.inj heq).1.ge
    · exact ((List.pairwise_cons.1 (List.pairwise_append.1 hs).2.1).1 _ hm).le

theorem not_lt_of_next_eq_none (h : m.next k = none) (hk : m.find k' = some v') : ¬k < k' := by
  have := List.find?_eq_none.1 h _ (find_eq_some_iff.1 hk)
  simpa using this

end OrdMap
