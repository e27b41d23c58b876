import Logfile.LogList

/-!
# The rows of the log viewer

`QLogList` as a model of rows, and a view that follows what it announces : it fetches the rows that
`beginInsertRows` announces, and drops those that `beginRemoveRows` announces. `do_write` and
`expire` are called one after the other. As in `QLogList.expireFrom`, `QList::erase` is taken to
leave the loop of `expire` at the entry behind the erased range.

No entry of the level `config` or above is ever removed, and the order is that of the calls
(`list_of_run`). The view has the rows of the list throughout a run exactly if every pass of
`expire` meets one block of debug entries (`shown_iff`) : the first entry of a second run stays in
the view, and nothing that is announced later touches it.
-/

namespace Logfile.QLogList

/-! ## A view that follows -/

/-- `endInsertRows()`. The new rows are fetched from the list. -/
def insertRows (logEvents : List LogEvent) (first last : ℕ) (rows : List LogEvent) :
    List LogEvent :=
  rows.take first ++ (logEvents.drop first).take (last + 1 - first) ++ rows.drop first

/-- `endRemoveRows()` -/
def removeRows (rows : List LogEvent) (r : Removal) : List LogEvent :=
  rows.take r.first ++ rows.drop (r.last + 1)

/-- `m_log_events`, and the rows of the view. -/
structure Viewer where
  logEvents : List LogEvent
  rows : List LogEvent

inductive Action
  | write (le : LogEvent)
  | expire (now : ℤ)

/-- `do_write`, which returns true. -/
def Viewer.doWrite (v : Viewer) (le : LogEvent) : Viewer where
  logEvents := v.logEvents ++ [le]
  rows := insertRows (v.logEvents ++ [le]) v.logEvents.length v.logEvents.length v.rows

/-- `expire`, with what the view makes of the removals. -/
def Viewer.expire (v : Viewer) (now : ℤ) : Viewer where
  logEvents := (QLogList.expire now v.logEvents).1
  rows := (QLogList.expire now v.logEvents).2.foldl removeRows v.rows

def act (v : Viewer) : Action → Viewer
  | .write le => v.doWrite le
  | .expire now => v.expire now

/-- The viewer after the calls. -/
def run (as : List Action) : Viewer :=
  as.foldl act ⟨[], []⟩

/-- What `do_write` was called with. -/
def written (as : List Action) : List LogEvent :=
  as.filterMap fun a => match a with
    | .write le => some le
    | .expire _ => none

variable {as : List Action} {a : Action} {le : LogEvent} {now : ℤ}

@[simp] theorem run_concat : run (as ++ [a]) = act (run as) a := by
  simp [run]

@[simp] theorem written_write : written (as ++ [.write le]) = written as ++ [le] := by
  simp [written]

@[simp] theorem written_expire : written (as ++ [.expire now]) = written as := by
  simp [written]

/-! ## The list -/

theorem expire_fst (now : ℤ) (l : List LogEvent) : (expire now l).1 =
    (met now l).filter (!isDebug ·) ++ l.dropWhile (!stops now ·) := by
  rw [expire, expireFrom_fst, List.nil_append]

theorem met_append (now : ℤ) (l : List LogEvent) :
    met now l ++ l.dropWhile (!stops now ·) = l :=
  List.takeWhile_append_dropWhile

/-- A pass removes nothing else than debug entries that are not far ahead. -/
theorem mem_expire (now : ℤ) {l : List LogEvent} {e : LogEvent} (he : e ∈ l) :
    e ∈ (expire now l).1 ∨ isDebug e = true ∧ stops now e = false := by
  rw [expire_fst, List.mem_append, List.mem_filter]
  rw [← met_append now l] at he
  rcases List.mem_append.1 he with he | he
  · cases hdebug : isDebug e with
    | false => exact Or.inl (Or.inl ⟨he, by simp⟩)
    | true => exact Or.inr ⟨rfl, by simpa using List.mem_takeWhile_imp he⟩
  · exact Or.inl (Or.inr he)

/-- The list has the written entries in their order. Those that are gone are debug entries, and a
pass was made when they were not an hour ahead. -/
theorem list_of_run (as : List Action) :
    (run as).logEvents.Sublist (written as) ∧
      (run as).logEvents.filter (!isDebug ·) = (written as).filter (!isDebug ·) ∧
        ∀ le ∈ written as, le ∈ (run as).logEvents ∨
          isDebug le = true ∧ ∃ now, .expire now ∈ as ∧ seconds (le.time - now) ≤ 3600 := by
  induction as using List.reverseRecOn with
  | nil => simp [run, written]
  | append_singleton as a ih =>
    obtain ⟨hsub, hfilter, hgone⟩ := ih
    cases a with
    | write le =>
      rw [run_concat, written_write]
      refine ⟨hsub.append (List.Sublist.refl _), ?_, fun le' hle' => ?_⟩
      · rw [List.filter_append, ← hfilter, ← List.filter_append]
        rfl
      · rcases List.mem_append.1 hle' with hle' | hle'
        · rcases hgone le' hle' with hmem | ⟨hdebug, now, hnow, hage⟩
          · exact Or.inl (List.mem_append_left _ hmem)
          · exact Or.inr ⟨hdebug, now, List.mem_append_left _ hnow, hage⟩
        · exact Or.inl (List.mem_append_right _ hle')
    | expire now =>
      rw [run_concat, written_expire]
      have hcut := met_append now (run as).logEvents
      have hlist : (act (run as) (.expire now)).logEvents = _ := expire_fst now (run as).logEvents
      refine ⟨?_, ?_, fun le hle => ?_⟩
      · rw [hlist]
        refine ((List.filter_sublist.append (List.Sublist.refl _)).trans ?_).trans hsub
        rw [hcut]
      · rw [hlist, ← hfilter, List.filter_append, List.filter_filter]
        conv_rhs => rw [← hcut, List.filter_append]
        simp
      · rcases hgone le hle with hmem | ⟨hdebug, now', hnow', hage⟩
        · rcases mem_expire now hmem with hkept | ⟨hdebug, hstops⟩
          · exact Or.inl hkept
          · exact Or.inr ⟨hdebug, now, by simp, by simpa [stops] using hstops⟩
        · exact Or.inr ⟨hdebug, now', List.mem_append_left _ hnow', hage⟩

/-! ## The rows after a pass -/

section Pass

variable {row first i : ℕ} {front rows : List LogEvent} {run : Option (ℕ × List LogEvent)}

/-- What is removed behind a row leaves it where it is. -/
theorem getElem?_foldl_removeRows {e : LogEvent} : ∀ {removals : List Removal}
    {rows : List LogEvent}, (∀ r ∈ removals, i < r.first) → rows[i]? = some e →
      (removals.foldl removeRows rows)[i]? = some e
  | [], rows, _, he => he
  | r :: removals, rows, h, he => by
    obtain ⟨hr, hrest⟩ := List.forall_mem_cons.1 h
    rw [List.foldl_cons]
    refine getElem?_foldl_removeRows hrest ?_
    have hlen := (List.getElem?_eq_some_iff.1 he).1
    rw [removeRows, List.getElem?_append_left (by simp; omega), List.getElem?_take_of_lt hr, he]

/-- The rows that a pass announces are those of the run, or later ones. -/
theorem lt_first : ∀ (l : List LogEvent) {row : ℕ} {front : List LogEvent}
    {run : Option (ℕ × List LogEvent)}, i < row → (∀ p, run = some p → i < p.1) →
      ∀ r ∈ (expireFrom now row front run l).2, i < r.first
  | [], row, front, run, hrow, hrun, r, hr => by
    cases run with
    | none => simp [expireFrom, removal] at hr
    | some p =>
      obtain rfl : r = _ := by simpa [expireFrom, removal] using hr
      exact hrun p rfl
  | e :: l, row, front, run, hrow, hrun, r, hr => by
    have hremoval : ∀ back, r ∈ removal row front run back → i < r.first := by
      intro back hr
      cases run with
      | none => simp [removal] at hr
      | some p =>
        obtain rfl : r = _ := by simpa [removal] using hr
        exact hrun p rfl
    have hlater : i < row + 1 := by omega
    rw [expireFrom.eq_def] at hr
    dsimp only at hr
    split_ifs at hr
    · exact hremoval _ hr
    · cases run with
      | none => exact lt_first l hlater (by simpa using hrow) r hr
      | some p => exact lt_first l hlater (by simpa using hrun p rfl) r hr
    · rcases List.mem_append.1 hr with hr | hr
      · exact hremoval _ hr
      · exact lt_first l hlater (by simp) r hr

/-- The first entry of a run that is announced too late stays. -/
theorem rows_ne_of_late (l : List LogEvent) {entries : List LogEvent} {e : LogEvent}
    (hdebug : isDebug e = true) (hstops : stops now e = false) (hfirst : front.length < first)
    (hrow : front.length < row) :
    (expireFrom now row front (some (first, e :: entries)) l).2.foldl removeRows
        (front ++ e :: entries ++ l) ≠
      (expireFrom now row front (some (first, e :: entries)) l).1 := by
  intro heq
  have hlater : ∀ p, some (first, e :: entries) = some p → front.length < p.1 := by
    rintro p ⟨⟩
    exact hfirst
  have hentry : (front ++ e :: entries ++ l)[front.length]? = some e := by simp
  have hrows := getElem?_foldl_removeRows (@lt_first now _ l row front _ hrow hlater) hentry
  rw [heq, expireFrom_fst, List.append_assoc, List.getElem?_append_right le_rfl, Nat.sub_self,
    ← List.head?_eq_getElem?] at hrows
  rcases hkept : (met now l).filter (!isDebug ·) with - | ⟨e', kept⟩
  · -- the pass has stopped behind the run
    rw [hkept, List.nil_append] at hrows
    have hhead := List.head?_dropWhile_not (!stops now ·) l
    rw [hrows] at hhead
    simp [hstops] at hhead
  · rw [hkept, List.cons_append, List.head?_cons] at hrows
    have hmem : e' ∈ (met now l).filter (!isDebug ·) := by
      rw [hkept]
      exact List.mem_cons_self
    rw [Option.some.inj hrows, List.mem_filter] at hmem
    simp [hdebug] at hmem

/-- A removal that is announced takes its entries out. -/
theorem removeRows_announced {r : Removal} (h : r.Announced) :
    removeRows (r.front ++ r.erased ++ r.back) r = r.front ++ r.back := by
  rw [removeRows, h.1, h.2, List.append_assoc, List.take_left,
    ← List.append_assoc, ← List.length_append, List.drop_left]

/-- Behind a removal there may be no debug entry. -/
theorem rows_behind : ∀ (l : List LogEvent) {row : ℕ} {front : List LogEvent},
    front.length < row →
      ((expireFrom now row front none l).2.foldl removeRows (front ++ l) =
        (expireFrom now row front none l).1 ↔ ∀ e ∈ met now l, isDebug e = false)
  | [], row, front, h => by simp [expireFrom, removal, met]
  | e :: l, row, front, h => by
    rw [expireFrom]
    by_cases hstop : stops now e = true
    · simp [hstop, removal, met]
    have hmet : met now (e :: l) = e :: met now l := by simp [met, hstop]
    rw [if_neg hstop, hmet]
    by_cases hdebug : isDebug e = true
    · have hlate := @rows_ne_of_late now (row + 1) row front l [] e hdebug (by simpa using hstop) h
        (by omega)
      rw [if_pos hdebug]
      refine iff_of_false (by simpa using hlate) fun hall => ?_
      exact absurd (hall e List.mem_cons_self) (by simp [hdebug])
    · have ih := @rows_behind l (row + 1) (front ++ [e]) (by simpa using h)
      rw [if_neg hdebug]
      simpa [removal, hdebug] using ih

/-- Behind the run there may be no debug entry. -/
theorem rows_run : ∀ (l : List LogEvent) {row : ℕ} {entries : List LogEvent},
    entries ≠ [] → front.length + entries.length = row →
      ((expireFrom now row front (some (front.length, entries)) l).2.foldl removeRows
          (front ++ entries ++ l) =
        (expireFrom now row front (some (front.length, entries)) l).1 ↔
          ∀ e ∈ (met now l).dropWhile isDebug, isDebug e = false)
  | [], row, entries, hne, hrow => by
    have hpos := List.length_pos_iff.2 hne
    have hright : (Removal.mk front.length (row - 1) front entries []).Announced :=
      ⟨rfl, by dsimp only; omega⟩
    simpa [expireFrom, removal, met] using removeRows_announced hright
  | e :: l, row, entries, hne, hrow => by
    have hpos := List.length_pos_iff.2 hne
    have hright : (Removal.mk front.length (row - 1) front entries (e :: l)).Announced :=
      ⟨rfl, by dsimp only; omega⟩
    have hremoved := removeRows_announced hright
    rw [expireFrom]
    by_cases hstop : stops now e = true
    · simpa [hstop, removal, met] using hremoved
    have hmet : met now (e :: l) = e :: met now l := by simp [met, hstop]
    rw [if_neg hstop, hmet]
    by_cases hdebug : isDebug e = true
    · have ih := @rows_run l (row + 1) (entries ++ [e]) (by simp) (by simp; omega)
      rw [if_pos hdebug, List.dropWhile_cons_of_pos hdebug]
      simpa using ih
    · have hbehind := @rows_behind now l (row + 1) (front ++ [e]) (by simp; omega)
      rw [if_neg hdebug, List.dropWhile_cons_of_neg hdebug]
      simp only [removal, List.singleton_append, List.foldl_cons, hremoved]
      simpa [hdebug] using hbehind

/-- Before anything is removed. -/
theorem rows_iff : ∀ (l : List LogEvent) {front : List LogEvent},
    (expireFrom now front.length front none l).2.foldl removeRows (front ++ l) =
      (expireFrom now front.length front none l).1 ↔ OneBlock (met now l)
  | [], front => by simp [expireFrom, removal, met, OneBlock]
  | e :: l, front => by
    rw [expireFrom]
    by_cases hstop : stops now e = true
    · simp [hstop, removal, met, OneBlock]
    have hmet : met now (e :: l) = e :: met now l := by simp [met, hstop]
    rw [if_neg hstop, hmet]
    by_cases hdebug : isDebug e = true
    · have hrun := @rows_run now front l (front.length + 1) [e] (List.cons_ne_nil _ _) rfl
      rw [if_pos hdebug, OneBlock, List.dropWhile_cons_of_neg (by simp [hdebug]),
        List.dropWhile_cons_of_pos hdebug]
      simpa using hrun
    · have ih := @rows_iff l (front ++ [e])
      rw [if_neg hdebug, OneBlock, List.dropWhile_cons_of_pos (by simp [hdebug])]
      simpa [removal, OneBlock] using ih

end Pass

/-! ## The rows throughout a run -/

/-- The view has the rows of the list. -/
def Viewer.Shown (v : Viewer) : Prop :=
  v.rows = v.logEvents

/-- The action is no pass, or one that meets one block of debug entries. -/
def Block (v : Viewer) : Action → Prop
  | .write _ => True
  | .expire now => OneBlock (met now v.logEvents)

theorem shown_act_iff {v : Viewer} (h : v.Shown) (a : Action) : (act v a).Shown ↔ Block v a := by
  rw [Viewer.Shown] at h
  cases a with
  | write le =>
    refine iff_of_true ?_ trivial
    simp [Viewer.Shown, act, Viewer.doWrite, insertRows, h]
  | expire now =>
    have hrows := @rows_iff now v.logEvents []
    simpa [Viewer.Shown, act, Viewer.expire, Block, QLogList.expire, h] using hrows

/-- The view has the rows of the list throughout a run exactly if every pass meets one block of
debug entries. -/
theorem shown_iff (as : List Action) :
    (∀ past, past <+: as → (run past).Shown) ↔
      ∀ past a, past ++ [a] <+: as → Block (run past) a := by
  induction as using List.reverseRecOn with
  | nil =>
    refine iff_of_true (fun past h => ?_) fun past a h => ?_
    · rw [List.prefix_nil.1 h]
      rfl
    · exact absurd (List.prefix_nil.1 h) (by simp)
  | append_singleton as a ih =>
    have hshown : (∀ past, past <+: as ++ [a] → (run past).Shown) ↔
        (∀ past, past <+: as → (run past).Shown) ∧ (run (as ++ [a])).Shown := by
      simp [List.prefix_concat_iff, or_imp, forall_and, and_comm]
    have hblock : (∀ past b, past ++ [b] <+: as ++ [a] → Block (run past) b) ↔
        (∀ past b, past ++ [b] <+: as → Block (run past) b) ∧ Block (run as) a := by
      simp [List.prefix_concat_iff, or_imp, forall_and, and_comm]
    rw [hshown, hblock, ← ih, run_concat]
    refine and_congr_right fun hpast => ?_
    exact shown_act_iff (hpast as List.prefix_rfl) a

/-- The second run is announced as the rows 2 to 2, of two that are left. -/
example : (run [.write (entry .fine 7200), .write (entry .info 7000), .write (entry .fine 6000),
    .expire 0]).rows = [entry .info 7000, entry .fine 6000] := by
  decide +kernel

end Logfile.QLogList
