import Mathlib

/-!
# Frames in a stream

A stream of frames, each ended by a terminator, with any number of fillers between two
frames. `split` is the list of the frames and the unfinished rest, `feed` reads the stream
from the state after an earlier part and stops at the first frame it does not accept.
Feeding in chunks is feeding their concatenation (`feedChunks_eq`), and `feed` gives the
frames of `split` up to the first one that is not accepted (`feed_eq_split`).
-/

namespace Frames

variable {α : Type*} [DecidableEq α] (fill term : α) (accept : List α → Bool)

/-- The frames of a stream and the unfinished last one, when `cur` has been read of a
frame. A filler counts only inside a frame. -/
def split (cur : List α) : List α → List (List α) × List α
  | [] => ([], cur)
  | c :: s =>
    if cur = [] ∧ c = fill then split [] s
    else if c = term then (cur :: (split [] s).1, (split [] s).2)
    else split (cur ++ [c]) s

/-- The frames up to the first one that is not accepted. -/
def upTo : List (List α) → List (List α)
  | [] => []
  | f :: fs => f :: if accept f then upTo fs else []

/-- The frames read, and the unfinished one unless a frame was not accepted. -/
def feed (cur : List α) : List α → List (List α) × Option (List α)
  | [] => ([], some cur)
  | c :: s =>
    if cur = [] ∧ c = fill then feed [] s
    else if c = term then
      if accept cur then (cur :: (feed [] s).1, (feed [] s).2) else ([cur], none)
    else feed (cur ++ [c]) s

/-- Go on with the next part of the stream unless a frame was not accepted. -/
def andThen (r : List (List α) × Option (List α))
    (next : List α → List (List α) × Option (List α)) : List (List α) × Option (List α) :=
  match r with
  | (fs, none) => (fs, none)
  | (fs, some cur) => (fs ++ (next cur).1, (next cur).2)

/-- Feed chunk after chunk. -/
def feedChunks : List α → List (List α) → List (List α) × Option (List α)
  | cur, [] => ([], some cur)
  | cur, d :: ds => andThen (feed fill term accept cur d) fun cur => feedChunks cur ds

variable {fill term accept} {cur s a b f : List α}

theorem feed_append : ∀ {cur a : List α} (b : List α), feed fill term accept cur (a ++ b) =
    andThen (feed fill term accept cur a) fun cur => feed fill term accept cur b
  | cur, [], b => rfl
  | cur, c :: a, b => by
    simp only [List.cons_append, feed]
    split_ifs
    · exact feed_append b
    · rw [feed_append b]
      cases feed fill term accept [] a with
      | mk fs r => cases r <;> rfl
    · rfl
    · exact feed_append b

theorem feedChunks_eq : ∀ {cur : List α} (ds : List (List α)),
    feedChunks fill term accept cur ds = feed fill term accept cur ds.flatten
  | cur, [] => rfl
  | cur, d :: ds => by
    rw [feedChunks, List.flatten_cons, feed_append]
    congr 1
    funext cur
    exact feedChunks_eq ds

theorem feed_eq_split : ∀ {cur s : List α},
    (feed fill term accept cur s).1 = upTo accept (split fill term cur s).1 ∧
      ((∀ f ∈ (split fill term cur s).1, accept f = true) →
        (feed fill term accept cur s).2 = some (split fill term cur s).2)
  | cur, [] => ⟨rfl, fun _ => rfl⟩
  | cur, c :: s => by
    obtain ⟨ih, ih'⟩ := @feed_eq_split [] s
    simp only [feed, split]
    split_ifs with hfill hterm hacc
    · exact ⟨ih, ih'⟩
    · refine ⟨by simp [upTo, hacc, ih], fun hall => ih' fun f hf => hall f ?_⟩
      exact List.mem_cons_of_mem _ hf
    · refine ⟨by simp [upTo, hacc], fun hall => ?_⟩
      exact absurd (hall cur List.mem_cons_self) hacc
    · exact feed_eq_split

/-- What is read of an unfinished frame is the rest of the stream. -/
theorem split_of_feed {p : List α} : ∀ {cur s : List α},
    (feed fill term accept cur s).2 = some p → (split fill term cur s).2 = p
  | cur, [], h => Option.some.inj h
  | cur, c :: s, h => by
    simp only [feed, split] at h ⊢
    split_ifs at h ⊢ with hfill hterm hacc
    · exact split_of_feed h
    · exact split_of_feed h
    · exact split_of_feed h

theorem split_append : ∀ {cur a : List α} (b : List α), split fill term cur (a ++ b) =
    ((split fill term cur a).1 ++ (split fill term (split fill term cur a).2 b).1,
      (split fill term (split fill term cur a).2 b).2)
  | cur, [], b => rfl
  | cur, c :: a, b => by
    simp only [List.cons_append, split]
    split_ifs
    · exact split_append b
    · rw [split_append b]
      rfl
    · exact split_append b

/-- More of the stream gives more frames. -/
theorem split_subset (h : a <+: b) :
    (split fill term cur a).1 ⊆ (split fill term cur b).1 := by
  obtain ⟨t, rfl⟩ := h
  rw [split_append]
  exact List.subset_append_left _ _

/-! ## Reading more than one character at once -/

/-- A frame by itself. -/
theorem split_frame (hterm : term ∉ f) (hne : fill ≠ term)
    (hfill : cur = [] → f.head? ≠ some fill) :
    split fill term cur (f ++ [term]) = ([cur ++ f], []) := by
  induction f generalizing cur with
  | nil => simp [split, hne.symm]
  | cons c f ih =>
    have hc : ¬(cur = [] ∧ c = fill) := fun h => hfill h.1 (by simp [h.2])
    have hct : c ≠ term := fun h => hterm (by simp [h])
    rw [List.cons_append, split, if_neg hc, if_neg hct, ih (fun h => hterm (by simp [h])) (by simp),
      List.append_assoc]
    rfl

/-- A stream without terminator has no frame. -/
theorem split_of_not_mem (hterm : term ∉ a) : (split fill term cur a).1 = [] := by
  induction a generalizing cur with
  | nil => rfl
  | cons c a ih =>
    have hct : c ≠ term := fun h => hterm (by simp [h])
    have ih := fun cur => @ih cur fun h => hterm (by simp [h])
    rw [split, if_neg hct]
    split_ifs
    · exact ih _
    · exact ih _

/-- Fillers between two frames. -/
theorem feed_fill (h : ∀ c ∈ a, c = fill) (s : List α) :
    feed fill term accept [] (a ++ s) = feed fill term accept [] s := by
  induction a with
  | nil => rfl
  | cons c a ih =>
    obtain rfl := h c List.mem_cons_self
    simpa [feed] using ih fun c hc => h c (List.mem_cons_of_mem _ hc)

/-- Characters of a frame. -/
theorem feed_run (hterm : term ∉ a) (hfill : cur = [] → a.head? ≠ some fill) (s : List α) :
    feed fill term accept cur (a ++ s) = feed fill term accept (cur ++ a) s := by
  induction a generalizing cur with
  | nil => simp
  | cons c a ih =>
    have hc : ¬(cur = [] ∧ c = fill) := fun h => hfill h.1 (by simp [h.2])
    have hct : c ≠ term := fun h => hterm (by simp [h])
    rw [List.cons_append, feed, if_neg hc, if_neg hct,
      ih (fun h => hterm (by simp [h])) (by simp), List.append_assoc]
    rfl

/-- The end of a frame. -/
theorem feed_term (hne : fill ≠ term) (s : List α) :
    feed fill term accept cur (term :: s) =
      if accept cur then (cur :: (feed fill term accept [] s).1, (feed fill term accept [] s).2)
      else ([cur], none) := by
  rw [feed, if_neg fun h => hne h.2.symm, if_pos rfl]

end Frames
