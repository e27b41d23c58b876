import Logfile.Text

/-!
# Lines from chunks

`line_splitter` with its loop over the pointer `sol`, and the calls it makes of its sink.
Reading a buffer is adding its characters one after the other (`readAndForward_eq`), so it does
not matter how the input is cut, and the sink gets the lines of the whole (`lineSplitter_lines`).
-/

namespace Logfile

open Text

/-- `line_splitter`. `sink` are the calls of `m_sink`. -/
structure LineSplitter where
  activeLine : Bytes
  sink : List Bytes
  deriving DecidableEq

namespace LineSplitter

/-- The constructor. -/
def new : LineSplitter := ⟨[], []⟩

/-- `while (sol)`. `sol` is a position in the buffer, or null. There is no result when the fuel
runs out. -/
def forwardLoop (buf : Bytes) : ℕ → Option ℕ → LineSplitter → Option LineSplitter
  | 0, _, _ => none
  | _ + 1, none, ls => some ls
  | fuel + 1, some sol, ls =>
    let last := buf.length
    let lf := (find buf (ascii "\n") sol).getD last
    if lf ≠ last then
      let ls := ⟨[], ls.sink ++ [ls.activeLine ++ (buf.drop sol).take (lf - sol)]⟩
      let sol := lf + 1
      forwardLoop buf fuel (if last = sol then none else some sol) ls
    else
      forwardLoop buf fuel none
        { ls with activeLine := ls.activeLine ++ (buf.drop sol).take (last - sol) }

/-- `read_and_forward`. A null pointer stands for an empty buffer. -/
def readAndForward (ls : LineSplitter) : Option Bytes → Option LineSplitter
  | none => forwardLoop [] 1 none ls
  | some buf => forwardLoop buf (buf.length + 2) (some 0) ls

/-- The buffers one after the other. -/
def readAll : LineSplitter → List (Option Bytes) → Option LineSplitter
  | ls, [] => some ls
  | ls, buf :: bufs => (ls.readAndForward buf).bind (readAll · bufs)

/-- The destructor. -/
def destroy (ls : LineSplitter) : LineSplitter :=
  if ls.activeLine.isEmpty then ls else { ls with sink := ls.sink ++ [ls.activeLine] }

/-! ## One character at a time -/

/-- The next character. -/
def push (ls : LineSplitter) (c : Byte) : LineSplitter :=
  if c = 10 then ⟨[], ls.sink ++ [ls.activeLine]⟩
  else { ls with activeLine := ls.activeLine ++ [c] }

variable {ls : LineSplitter} {l s : Bytes}

/-- Characters of one line. -/
theorem foldl_push (h : 10 ∉ l) :
    l.foldl push ls = { ls with activeLine := ls.activeLine ++ l } := by
  induction l generalizing ls with
  | nil => simp
  | cons c l ih =>
    have hc : c ≠ 10 := fun hc => h (by simp [hc])
    rw [List.foldl_cons, push, if_neg hc, ih fun hl => h (List.mem_cons_of_mem _ hl)]
    simp

theorem foldl_push_line (h : 10 ∉ l) (s : Bytes) :
    (l ++ 10 :: s).foldl push ls = s.foldl push ⟨[], ls.sink ++ [ls.activeLine ++ l]⟩ := by
  rw [List.foldl_append, foldl_push h, List.foldl_cons, push, if_pos rfl]

/-- What stands before `sol` has been read. -/
theorem forwardLoop_eq : ∀ {fuel : ℕ} (passed rest : Bytes) (ls : LineSplitter),
    rest.length + 1 < fuel →
    forwardLoop (passed ++ rest) fuel (some passed.length) ls = some (rest.foldl push ls)
  | fuel + 1, passed, rest, ls, hfuel => by
    obtain ⟨fuel, rfl⟩ : ∃ k, fuel = k + 1 := ⟨fuel - 1, by omega⟩
    have hlf : find (passed ++ rest) (ascii "\n") passed.length =
        (search [10] rest).map (passed.length + ·) := find_append passed rest _
    rw [forwardLoop]
    simp only [hlf, List.drop_left]
    cases hsearch : search [10] rest with
    | none =>
      have hno := search_singleton_eq_none.1 hsearch
      simp [forwardLoop, foldl_push hno]
    | some k =>
      obtain ⟨l, s, rfl, hl, rfl⟩ := exists_of_search_singleton hsearch
      have hsink : (l ++ 10 :: s).take (passed.length + l.length - passed.length) = l := by
        rw [Nat.add_sub_cancel_left, List.take_left]
      rw [Option.map_some, Option.getD_some, if_pos (by simp), hsink, foldl_push_line hl]
      have hlen : (passed ++ (l ++ [10])).length = passed.length + l.length + 1 := by
        simp [Nat.add_assoc]
      rcases s with - | ⟨c, s⟩
      · rw [if_pos (by simp [Nat.add_assoc])]
        rfl
      · have hnext := @forwardLoop_eq (fuel + 1) (passed ++ (l ++ [10])) (c :: s)
          ⟨[], ls.sink ++ [ls.activeLine ++ l]⟩ (by simp at hfuel ⊢; omega)
        rw [if_neg (by simp; omega), ← hnext, hlen]
        simp

theorem readAndForward_eq (ls : LineSplitter) (buf : Option Bytes) :
    ls.readAndForward buf = some ((buf.getD []).foldl push ls) := by
  cases buf with
  | none => rfl
  | some buf => exact forwardLoop_eq [] buf ls (Nat.lt_succ_self _)

theorem readAll_eq : ∀ (ls : LineSplitter) (bufs : List (Option Bytes)),
    ls.readAll bufs = some ((bufs.map (·.getD [])).flatten.foldl push ls)
  | ls, [] => rfl
  | ls, buf :: bufs => by
    rw [readAll, readAndForward_eq, Option.bind_some, readAll_eq, List.map_cons, List.flatten_cons,
      List.foldl_append]

/-! ## The lines -/

/-- The lines of a text : what stands before each line end, and what stands behind the last one
unless that is nothing. -/
def linesOf (s : Bytes) : List Bytes :=
  (s.splitOn 10).dropLast ++ (s.splitOn 10).getLast?.toList.filter (!·.isEmpty)

theorem modifyHead_nil_append (ls : List Bytes) : ls.modifyHead (([] : Bytes) ++ ·) = ls := by
  cases ls <;> rfl

/-- The lines so far, the last of them unfinished. -/
theorem sink_foldl_push : ∀ (s : Bytes) (ls : LineSplitter),
    (s.foldl push ls).sink ++ [(s.foldl push ls).activeLine] =
      ls.sink ++ (s.splitOn 10).modifyHead (ls.activeLine ++ ·)
  | [], ls => by simp
  | c :: s, ls => by
    rw [List.foldl_cons, sink_foldl_push s, List.splitOn_cons_eq_if_modifyHead, push]
    by_cases hc : c = 10
    · rw [if_pos hc, if_pos (beq_iff_eq.2 hc), modifyHead_nil_append, List.modifyHead_cons,
        List.append_nil, List.append_assoc]
      rfl
    · simp [hc, Function.comp_def]

theorem sink_destroy (s : Bytes) : (s.foldl push new).destroy.sink = linesOf s := by
  have h : (s.foldl push new).sink ++ [(s.foldl push new).activeLine] = s.splitOn 10 :=
    (sink_foldl_push s new).trans (modifyHead_nil_append _)
  rw [linesOf, ← h, List.dropLast_concat, List.getLast?_concat, destroy]
  cases hline : (s.foldl push new).activeLine with
  | nil => simp
  | cons c l => simp

/-- However the input is cut into buffers, the sink gets its lines. Two buffers are read like one
that holds both. -/
theorem lineSplitter_lines (bufs : List (Option Bytes)) :
    (∃ ls, new.readAll bufs = some ls ∧
      ls.destroy.sink = linesOf (bufs.map (·.getD [])).flatten) ∧
    ∀ (ls : LineSplitter) (a b : Bytes),
      (ls.readAndForward (some a)).bind (·.readAndForward (some b)) =
        ls.readAndForward (some (a ++ b)) := by
  refine ⟨⟨_, readAll_eq new bufs, sink_destroy _⟩, fun ls a b => ?_⟩
  simp only [readAndForward_eq, Option.bind_some, Option.getD_some, List.foldl_append]

example : linesOf (ascii "a\n\nbc") = [ascii "a", [], ascii "bc"] := by
  decide

end LineSplitter

end Logfile
