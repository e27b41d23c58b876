import Logfile.LogEvent

/-!
# The list of the log viewer

`QLogList::expire`. The list is cut at the iterators : `front` is what stands before a run of
debug entries, or before `i` when there is no run. It is an assumption that the loop goes on with
the entry behind the erased range after `QList::erase`, and with the end of the shortened list : Qt
does not promise that `i` and `end` are still valid then.

The age is subtracted the wrong way round, so that the pass stops at the first entry that is more
than an hour ahead and removes the debug entries before it, old or not. And `row` still counts
the removed entries, so that only the first run is announced with its positions. So the pass is
right exactly if the debug entries it meets are old and in one block (`expires_iff`).
-/

namespace Logfile.QLogList

/-- `beginRemoveRows(first, last)`, in the list `front ++ erased ++ back`, of which `erased` is
erased then. -/
structure Removal where
  first : ℕ
  last : ℕ
  front : List LogEvent
  erased : List LogEvent
  back : List LogEvent
  deriving DecidableEq

/-- The levels of debug entries. -/
def isDebug (e : LogEvent) : Bool :=
  e.level = .finest || e.level = .finer || e.level = .fine

/-- `std::chrono::duration_cast<std::chrono::seconds>(i->time - now).count() > 3600` -/
def stops (now : ℤ) (e : LogEvent) : Bool :=
  seconds (e.time - now) > 3600

/-- What is removed in front of `i`. The run is `first_row` with the entries from `first_it` on. -/
def removal (row : ℕ) (front : List LogEvent) (run : Option (ℕ × List LogEvent))
    (back : List LogEvent) : List Removal :=
  match run with
  | none => []
  | some (first, erased) => [⟨first, row - 1, front, erased, back⟩]

/-- The loop from `i` on : the list at the end, and the removals. `erase` leaves `i` at the entry
behind the erased range. -/
def expireFrom (now : ℤ) (row : ℕ) (front : List LogEvent) (run : Option (ℕ × List LogEvent)) :
    List LogEvent → List LogEvent × List Removal
  | [] => (front, removal row front run [])
  | e :: rest =>
    if stops now e then (front ++ e :: rest, removal row front run (e :: rest))
    else if isDebug e then
      match run with
      | none => expireFrom now (row + 1) front (some (row, [e])) rest
      | some (first, entries) => expireFrom now (row + 1) front (some (first, entries ++ [e])) rest
    else
      let (logEvents, removals) := expireFrom now (row + 1) (front ++ [e]) none rest
      (logEvents, removal row front run (e :: rest) ++ removals)

/-- `expire()` -/
def expire (now : ℤ) (logEvents : List LogEvent) : List LogEvent × List Removal :=
  expireFrom now 0 [] none logEvents

/-! ## What is asked of it -/

/-- More than an hour old. -/
def Old (now : ℤ) (e : LogEvent) : Prop :=
  now - e.time > 3600 * 1000000000

instance (now : ℤ) (e : LogEvent) : Decidable (Old now e) :=
  inferInstanceAs (Decidable (_ > _))

/-- The rows are the positions of what is erased. -/
def Removal.Announced (r : Removal) : Prop :=
  r.first = r.front.length ∧ r.last + 1 = r.front.length + r.erased.length

/-- The old debug entries are removed, and every removal is announced. -/
structure Expires (now : ℤ) (logEvents : List LogEvent) : Prop where
  kept : (expire now logEvents).1 = logEvents.filter fun e => ¬(isDebug e = true ∧ Old now e)
  announced : ∀ r ∈ (expire now logEvents).2, r.Announced

/-- The entries that the pass looks at. -/
def met (now : ℤ) (logEvents : List LogEvent) : List LogEvent :=
  logEvents.takeWhile (!stops now ·)

/-- Behind the first block of debug entries there are no others. -/
def OneBlock (logEvents : List LogEvent) : Prop :=
  ∀ e ∈ (logEvents.dropWhile (!isDebug ·)).dropWhile isDebug, isDebug e = false

instance (logEvents : List LogEvent) : Decidable (OneBlock logEvents) :=
  inferInstanceAs (Decidable (∀ e ∈ _, _))

/-! ## What is removed -/

section Loop

variable {now : ℤ} {row first : ℕ} {front entries : List LogEvent}
  {run : Option (ℕ × List LogEvent)}

theorem expireFrom_fst : ∀ (l : List LogEvent) {row : ℕ} {front : List LogEvent}
    {run : Option (ℕ × List LogEvent)}, (expireFrom now row front run l).1 =
      front ++ (met now l).filter (!isDebug ·) ++ l.dropWhile (!stops now ·)
  | [], row, front, run => by simp [expireFrom, met]
  | e :: l, row, front, run => by
    rw [expireFrom.eq_def]
    dsimp only
    by_cases hstop : stops now e = true
    · rw [if_pos hstop]
      simp [met, hstop]
    rw [if_neg hstop]
    by_cases hdebug : isDebug e = true
    · rw [if_pos hdebug]
      cases run with
      | none => simp [expireFrom_fst l, met, hstop, hdebug]
      | some p => simp [expireFrom_fst l, met, hstop, hdebug]
    · rw [if_neg hdebug]
      simp [expireFrom_fst l, met, hstop, hdebug]

/-! ## What is announced -/

/-- Once entries have been removed, a run gets the wrong rows. -/
theorem exists_wrong_run : ∀ (l : List LogEvent) {row : ℕ} {entries : List LogEvent},
    front.length < first →
      ∃ r ∈ (expireFrom now row front (some (first, entries)) l).2, ¬r.Announced
  | [], row, entries, h => ⟨_, List.mem_singleton_self _, fun ha => h.ne' ha.1⟩
  | e :: l, row, entries, h => by
    have hwrong : ∀ back, ¬(Removal.mk first (row - 1) front entries back).Announced :=
      fun back ha => h.ne' ha.1
    rw [expireFrom]
    split_ifs
    · exact ⟨_, List.mem_singleton_self _, hwrong _⟩
    · exact exists_wrong_run l h
    · exact ⟨_, List.mem_append_left _ (List.mem_singleton_self _), hwrong _⟩

/-- Behind a removal there may be no debug entry. -/
theorem announced_behind : ∀ (l : List LogEvent) {row : ℕ} {front : List LogEvent},
    front.length < row →
      ((∀ r ∈ (expireFrom now row front none l).2, r.Announced) ↔
        ∀ e ∈ met now l, isDebug e = false)
  | [], row, front, h => by simp [expireFrom, removal, met]
  | e :: l, row, front, h => by
    rw [expireFrom]
    by_cases hstop : stops now e = true
    · simp [hstop, removal, met]
    have hmet : met now (e :: l) = e :: met now l := by simp [met, hstop]
    rw [if_neg hstop, hmet]
    by_cases hdebug : isDebug e = true
    · rw [if_pos hdebug]
      obtain ⟨r, hr, hwrong⟩ : ∃ r ∈ (expireFrom now (row + 1) front (some (row, [e])) l).2,
          ¬r.Announced := exists_wrong_run l h
      refine iff_of_false (fun hall => hwrong (hall r hr)) fun hall => ?_
      exact absurd (hall e List.mem_cons_self) (by simp [hdebug])
    · have ih := @announced_behind l (row + 1) (front ++ [e]) (by simpa using h)
      rw [if_neg hdebug]
      simp [removal, ih, hdebug]

/-- Behind the run there may be no debug entry. -/
theorem announced_run : ∀ (l : List LogEvent) {row : ℕ} {entries : List LogEvent},
    entries ≠ [] → front.length + entries.length = row →
      ((∀ r ∈ (expireFrom now row front (some (front.length, entries)) l).2, r.Announced) ↔
        ∀ e ∈ (met now l).dropWhile isDebug, isDebug e = false)
  | [], row, entries, hne, hrow => by
    have hpos := List.length_pos_iff.2 hne
    have hright : (Removal.mk front.length (row - 1) front entries []).Announced :=
      ⟨rfl, by dsimp only; omega⟩
    simp [expireFrom, removal, met, hright]
  | e :: l, row, entries, hne, hrow => by
    have hpos := List.length_pos_iff.2 hne
    have hright : ∀ back, (Removal.mk front.length (row - 1) front entries back).Announced :=
      fun back => ⟨rfl, by dsimp only; omega⟩
    rw [expireFrom]
    by_cases hstop : stops now e = true
    · simp [hstop, removal, met, hright]
    have hmet : met now (e :: l) = e :: met now l := by simp [met, hstop]
    rw [if_neg hstop, hmet]
    by_cases hdebug : isDebug e = true
    · have ih := @announced_run l (row + 1) (entries ++ [e]) (by simp)
        (by simp; omega)
      rw [if_pos hdebug, List.dropWhile_cons_of_pos hdebug]
      exact ih
    · have hbehind := @announced_behind now l (row + 1) (front ++ [e])
        (by simp; omega)
      rw [if_neg hdebug, List.dropWhile_cons_of_neg hdebug]
      simp [removal, hright, hbehind, hdebug]

/-- Before anything is removed. -/
theorem announced_iff : ∀ (l : List LogEvent) {front : List LogEvent},
    (∀ r ∈ (expireFrom now front.length front none l).2, r.Announced) ↔ OneBlock (met now l)
  | [], front => by simp [expireFrom, removal, met, OneBlock]
  | e :: l, front => by
    rw [expireFrom]
    by_cases hstop : stops now e = true
    · simp [hstop, removal, met, OneBlock]
    have hmet : met now (e :: l) = e :: met now l := by simp [met, hstop]
    rw [if_neg hstop, hmet]
    by_cases hdebug : isDebug e = true
    · have hrun := @announced_run now front l (front.length + 1) [e]
        (List.cons_ne_nil _ _) rfl
      rw [if_pos hdebug, OneBlock, List.dropWhile_cons_of_neg (by simp [hdebug]),
        List.dropWhile_cons_of_pos hdebug]
      exact hrun
    · have ih := @announced_iff l (front ++ [e])
      rw [if_neg hdebug, OneBlock, List.dropWhile_cons_of_pos (by simp [hdebug])]
      simpa [removal, OneBlock] using ih

end Loop

/-! ## When it is right -/

variable {now : ℤ} {logEvents : List LogEvent}

/-- In the order of time, nothing behind the stop is old. -/
theorem not_old_of_dropWhile (h : logEvents.Pairwise fun e e' => e.time ≤ e'.time)
    {e : LogEvent} (he : e ∈ logEvents.dropWhile (!stops now ·)) : ¬Old now e := by
  have hhead := List.head?_dropWhile_not (!stops now ·) logEvents
  have hsorted := h.sublist (List.dropWhile_sublist (!stops now ·))
  cases hdrop : logEvents.dropWhile (!stops now ·) with
  | nil =>
    rw [hdrop] at he
    cases he
  | cons s rest =>
    rw [hdrop] at he hhead hsorted
    have hahead : now < s.time := by
      have hstop : seconds (s.time - now) > 3600 := by simpa [stops] using hhead
      by_contra hle
      have hnonpos : seconds (s.time - now) ≤ seconds 0 :=
        Int.tdiv_le_tdiv (by decide) (by omega)
      rw [show seconds 0 = 0 from rfl] at hnonpos
      omega
    have hle : s.time ≤ e.time := by
      rcases List.mem_cons.1 he with rfl | he
      · exact le_rfl
      · exact (List.pairwise_cons.1 hsorted).1 e he
    unfold Old
    omega

/-- Exactly the old debug entries are removed if the debug entries met are old. -/
theorem kept_iff (h : logEvents.Pairwise fun e e' => e.time ≤ e'.time) :
    (expire now logEvents).1 = logEvents.filter (fun e => ¬(isDebug e = true ∧ Old now e)) ↔
      ∀ e ∈ met now logEvents, isDebug e = true → Old now e := by
  have hcut : met now logEvents ++ logEvents.dropWhile (!stops now ·) = logEvents :=
    List.takeWhile_append_dropWhile
  have hrest : (logEvents.dropWhile (!stops now ·)).filter
      (fun e => ¬(isDebug e = true ∧ Old now e)) = logEvents.dropWhile (!stops now ·) := by
    refine List.filter_eq_self.2 fun e he => ?_
    simp [not_old_of_dropWhile h he]
  have hfilter := List.filter_append (p := fun e => decide ¬(isDebug e = true ∧ Old now e))
    (met now logEvents) (logEvents.dropWhile (!stops now ·))
  rw [hcut, hrest] at hfilter
  rw [hfilter, expire, expireFrom_fst, List.nil_append, List.append_left_inj]
  constructor
  · intro heq e he hdebug
    by_contra hyoung
    have hmem : e ∈ (met now logEvents).filter (!isDebug ·) := by
      rw [heq]
      exact List.mem_filter.2 ⟨he, by simp [hyoung]⟩
    rw [List.mem_filter, hdebug] at hmem
    cases hmem.2
  · intro hall
    refine List.filter_congr fun e he => ?_
    cases hdebug : isDebug e with
    | false => simp
    | true => simp [hall e he hdebug]

theorem expires_iff (now : ℤ) (logEvents : List LogEvent)
    (h : logEvents.Pairwise fun e e' => e.time ≤ e'.time) :
    Expires now logEvents ↔ (∀ e ∈ met now logEvents, isDebug e = true → Old now e) ∧
      OneBlock (met now logEvents) := by
  rw [← kept_iff h, ← @announced_iff now logEvents []]
  exact ⟨fun he => ⟨he.kept, he.announced⟩, fun he => ⟨he.1, he.2⟩⟩

/-! ## Two runs -/

/-- An entry of the given level, the given number of seconds before the time 0. -/
def entry (level : LogLevel) (age : ℤ) : LogEvent where
  level := level
  subsystem := 0
  message := []
  time := -age * 1000000000
  function := []
  subsystemString := []
  timeString := []

/-- An entry of this minute is removed, and of two runs the second is announced with the row that
it had before. -/
theorem expires_wrong :
    ¬Expires 0 [entry .fine 60] ∧
      ¬Expires 0 [entry .fine 7200, entry .info 7000, entry .fine 6000, entry .info 60] := by
  constructor
  · intro h
    have hkept := h.kept
    revert hkept
    decide +kernel
  · intro h
    have hsecond := h.announced ⟨2, 2, [entry .info 7000], [entry .fine 6000], [entry .info 60]⟩
      (by decide +kernel)
    exact absurd hsecond.1 (by decide)

theorem expires_block : Expires 0 [entry .info 7200, entry .fine 7000, entry .finer 6000] :=
  (expires_iff _ _ (by simp [entry])).2 (by decide +kernel)

end Logfile.QLogList
