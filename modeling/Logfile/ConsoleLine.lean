import Logfile.Cdata
import Logfile.Colors
import Logfile.LogEvent

/-!
# The lines on the console

The line that `do_write` of `output_stream_stdout` puts together, on a terminal : the colour of the
level, the time, the level in a field of seven characters, the first eight characters of the
subsystem, the message, and the end of the colour.

Whoever reads the lines takes the two fields by their width and the message up to the first
sequence that ends the colour and the line. So the text is read back just if no message has this
sequence (`readSession_iff`).
-/

namespace Logfile

open Text Xml

/-- The tables of colours. -/
def Colors.at : Colors → LogLevel → Bytes
  | basic, .finest | basic, .finer => 27 :: ascii "[37m"
  | basic, .fine => []
  | dark256, .finest | light256, .fine => 27 :: ascii "[38;5;240m"
  | dark256, .finer | light256, .finer => 27 :: ascii "[38;5;244m"
  | dark256, .fine | light256, .finest => 27 :: ascii "[38;5;248m"
  | _, .config => 27 :: ascii "[32m"
  | _, .info => 27 :: ascii "[33m"
  | _, .warning => 27 :: ascii "[31m"
  | _, .severe => 27 :: ascii "[1;31m"

/-- `s.resize(8, ' ')` -/
def resize8 (s : Bytes) : Bytes :=
  s.take 8 ++ List.replicate (8 - s.length) 32

/-- `setw(7)` with `left` -/
def setw7 (s : Bytes) : Bytes :=
  s ++ List.replicate (7 - s.length) 32

/-- The end of the colour and of the line. -/
def lineEnd : Bytes := 27 :: ascii "[0m\n"

/-- `msg` of `do_write` -/
def consoleLine (colors : Colors) (le : LogEvent) : Bytes :=
  colors.at le.level ++ le.timeString ++ ascii " [" ++ setw7 le.level.name ++ ascii "] [" ++
    resize8 le.subsystemString ++ ascii "] " ++ le.message ++ lineEnd

/-! ## Reading the lines -/

/-- What a line shows. -/
structure Shown where
  level : LogLevel
  time : Bytes
  subsystem : Bytes
  message : Bytes
  deriving DecidableEq

/-- What the line of the event shows. -/
def shownOf (le : LogEvent) : Shown :=
  ⟨le.level, le.timeString, resize8 le.subsystemString, le.message⟩

/-- Skip a colour, which goes up to an 'm'. -/
def skipColour : Bytes → Bytes
  | 27 :: s => (s.dropWhile (· ≠ 109)).tail
  | s => s

/-- The level with the name. -/
def levelOfField (field : Bytes) : Option LogLevel :=
  [.finest, .finer, .fine, .config, .info, .warning, .severe].find? fun l => setw7 l.name = field

/-- The text up to a separator, and what is behind it. -/
def upTo (sep s : Bytes) : Option (Bytes × Bytes) :=
  (search sep s).map fun k => (s.take k, s.drop (k + sep.length))

/-- A line and what is behind it. -/
def readLine (s : Bytes) : Option (Shown × Bytes) := do
  let (time, s) ← upTo (ascii " [") (skipColour s)
  let level ← levelOfField (s.take 7)
  let s ← expect (ascii "] [") (s.drop 7)
  let subsystem := s.take 8
  let s ← expect (ascii "] ") (s.drop 8)
  let (message, s) ← upTo lineEnd s
  return (⟨level, time, subsystem, message⟩, s)

/-- The lines of a text. Every round consumes one. -/
def readLines : ℕ → Bytes → Option (List Shown)
  | _, [] => some []
  | 0, _ => none
  | fuel + 1, s => do
    let (m, s) ← readLine s
    return m :: (← readLines fuel s)

def readSession (s : Bytes) : Option (List Shown) :=
  readLines s.length s

/-! ## The fields -/

section Fields

variable {s u v : Bytes}

@[simp] theorem length_resize8 (s : Bytes) : (resize8 s).length = 8 := by
  simp only [resize8, List.length_append, List.length_take, List.length_replicate]
  omega

theorem length_setw7_name (l : LogLevel) : (setw7 l.name).length = 7 := by
  cases l <;> rfl

theorem levelOfField_setw7 (l : LogLevel) : levelOfField (setw7 l.name) = some l := by
  cases l <;> decide

/-- A field is as wide as the reader takes it. -/
theorem take_drop_field {n : ℕ} (h : u.length = n) (s : Bytes) :
    (u ++ s).take n = u ∧ (u ++ s).drop n = s := by
  subst h
  exact ⟨List.take_left, List.drop_left⟩

theorem upTo_append {sep : Bytes} (hu : Unbordered sep) (h : ¬sep <:+: u) (s : Bytes) :
    upTo sep (u ++ (sep ++ s)) = some (u, s) := by
  rw [← List.append_assoc, upTo, search_unbordered hu h, Option.map_some, List.append_assoc,
    List.take_left, ← List.drop_drop, List.drop_left, List.drop_left]

/-- If the separator stands in the text, the reader stops too early. -/
theorem upTo_of_infix {sep t : Bytes} (hsep : sep ≠ []) (h : sep <:+: u) (s : Bytes)
    (hread : upTo sep (u ++ s) = some (t, v)) : t.length < u.length := by
  obtain ⟨a, b, rfl⟩ := h
  obtain ⟨k, hk, heq⟩ := Option.map_eq_some_iff.1 hread
  obtain ⟨a', b', hcut, rfl, hfirst⟩ := exists_of_search hk
  have hle : a'.length ≤ a.length := by
    by_contra hlt
    -- the occurrence in the text would be an earlier one
    have hpre : a <+: a' := by
      have hleft : a <+: a' ++ sep ++ b' := by
        rw [← hcut]
        exact ⟨sep ++ b ++ s, by simp⟩
      have hright : a' <+: a' ++ sep ++ b' := ⟨sep ++ b', by simp⟩
      exact List.prefix_of_prefix_length_le hleft hright (not_le.1 hlt).le
    obtain ⟨e, rfl⟩ := hpre
    refine hfirst a e rfl (by rintro rfl; simp at hlt) ⟨b ++ s, ?_⟩
    have hsame : a ++ (sep ++ (b ++ s)) = a ++ (e ++ (sep ++ b')) := by simpa using hcut
    rw [List.append_assoc]
    exact List.append_cancel_left hsame
  have hpos := List.length_pos_of_ne_nil hsep
  rw [← (Prod.mk.inj heq).1]
  simp only [List.length_take, List.length_append]
  omega

theorem skipColour_at (colors : Colors) (l : LogLevel) (h : s.head? ≠ some 27) :
    skipColour (colors.at l ++ s) = s := by
  have hplain : skipColour s = s := by
    unfold skipColour
    split
    · exact absurd rfl h
    · rfl
  cases colors <;> cases l <;> first | rfl | exact hplain

/-- The text of a time is neither a colour nor has it the separator behind it. -/
theorem time_free {f : TimeFormat} (hf : f.Numeric) (t : ℤ) :
    27 ∉ formatTime f t ∧ ¬ascii " [" <:+: formatTime f t := by
  refine ⟨not_mem_formatTime hf (by decide) (by decide) t, fun h => ?_⟩
  exact not_mem_formatTime hf (by decide) (by decide) t (h.subset (by decide : (91 : Byte) ∈ _))

end Fields

/-! ## Lines -/

section Lines

variable {f : TimeFormat} {colors : Colors} {le : LogEvent} {les : List LogEvent}

/-- The reader gets to the message. -/
theorem readLine_consoleLine (hf : f.Numeric) (htime : le.timeString = formatTime f le.time)
    (colors : Colors) (rest : Bytes) : readLine (consoleLine colors le ++ rest) =
      (upTo lineEnd (le.message ++ (lineEnd ++ rest))).map fun r =>
        ({ shownOf le with message := r.1 }, r.2) := by
  obtain ⟨hesc, hsep⟩ := time_free hf le.time
  rw [← htime] at hesc hsep
  have hhead : (le.timeString ++ (ascii " [" ++ (setw7 le.level.name ++ (ascii "] [" ++
      (resize8 le.subsystemString ++ (ascii "] " ++ (le.message ++ (lineEnd ++ rest)))))))).head? ≠
        some 27 := by
    cases hts : le.timeString with
    | nil => simp [ascii]
    | cons c t =>
      rintro ⟨⟩
      exact hesc (by simp [hts])
  obtain ⟨htake, hdrop⟩ := take_drop_field (length_setw7_name le.level) (ascii "] [" ++
    (resize8 le.subsystemString ++ (ascii "] " ++ (le.message ++ (lineEnd ++ rest)))))
  obtain ⟨htake', hdrop'⟩ := take_drop_field (length_resize8 le.subsystemString)
    (ascii "] " ++ (le.message ++ (lineEnd ++ rest)))
  simp only [readLine, consoleLine, List.append_assoc, skipColour_at colors le.level hhead,
    upTo_append (by decide : Unbordered (ascii " [")) hsep, Option.bind_eq_bind, Option.bind_some,
    htake, hdrop, levelOfField_setw7, expect_append, htake', hdrop', shownOf]
  cases upTo lineEnd (le.message ++ (lineEnd ++ rest)) <;> rfl

theorem lineEnd_unbordered : Unbordered lineEnd := by decide

theorem readLine_eq (hf : f.Numeric) (htime : le.timeString = formatTime f le.time)
    (hfree : ¬lineEnd <:+: le.message) (rest : Bytes) :
    readLine (consoleLine colors le ++ rest) = some (shownOf le, rest) := by
  rw [readLine_consoleLine hf htime, upTo_append lineEnd_unbordered hfree]
  rfl

/-- A line whose message has the sequence is not read as the event. -/
theorem readLine_ne (hf : f.Numeric) (htime : le.timeString = formatTime f le.time)
    (h : lineEnd <:+: le.message) {rest s : Bytes} {m : Shown}
    (hread : readLine (consoleLine colors le ++ rest) = some (m, s)) : m ≠ shownOf le := by
  rw [readLine_consoleLine hf htime] at hread
  obtain ⟨r, hr, heq⟩ := Option.map_eq_some_iff.1 hread
  have hlt := upTo_of_infix (by decide) h _ hr
  rintro rfl
  have hmessage : r.1 = le.message := congrArg Shown.message (Prod.mk.inj heq).1
  rw [hmessage] at hlt
  omega

theorem consoleLine_ne_nil (colors : Colors) (le : LogEvent) : consoleLine colors le ≠ [] := by
  simp [consoleLine, lineEnd]

theorem readLines_cons (fuel : ℕ) {s : Bytes} (hs : s ≠ []) :
    readLines (fuel + 1) s = (readLine s).bind fun r => (readLines fuel r.2).map (r.1 :: ·) := by
  rw [readLines.eq_def]
  cases s with
  | nil => exact absurd rfl hs
  | cons c s =>
    dsimp only
    cases readLine (c :: s) with
    | none => rfl
    | some r => cases h : readLines fuel r.2 <;> simp [h]

theorem readLines_iff (hf : f.Numeric) : ∀ {les : List LogEvent},
    (∀ le ∈ les, le.timeString = formatTime f le.time) → ∀ {fuel : ℕ}, les.length ≤ fuel →
      (readLines fuel (les.flatMap (consoleLine colors)) = some (les.map shownOf) ↔
        ∀ le ∈ les, ¬lineEnd <:+: le.message)
  | [], _, fuel, _ => by
    simp [readLines]
  | le :: les, h, 0, hfuel => by simp at hfuel
  | le :: les, h, fuel + 1, hfuel => by
    obtain ⟨htime, hles⟩ := List.forall_mem_cons.1 h
    have ih := readLines_iff hf hles (Nat.le_of_succ_le_succ hfuel)
    have hne : consoleLine colors le ++ les.flatMap (consoleLine colors) ≠ [] := by
      simp [consoleLine_ne_nil]
    rw [List.flatMap_cons, readLines_cons fuel hne, List.forall_mem_cons, List.map_cons, ← ih]
    constructor
    · intro hread
      obtain ⟨⟨m, s⟩, hline, hrest⟩ := Option.bind_eq_some_iff.1 hread
      obtain ⟨ms, hms, heq⟩ := Option.map_eq_some_iff.1 hrest
      obtain ⟨rfl, rfl⟩ := List.cons.inj heq
      have hfree : ¬lineEnd <:+: le.message := fun hin => readLine_ne hf htime hin hline rfl
      rw [readLine_eq hf htime hfree] at hline
      obtain ⟨-, rfl⟩ := Prod.mk.inj (Option.some.inj hline)
      exact ⟨hfree, hms⟩
    · rintro ⟨hfree, hrest⟩
      rw [readLine_eq hf htime hfree, Option.bind_some, hrest]
      rfl

theorem length_le_flatMap (colors : Colors) : ∀ les : List LogEvent,
    les.length ≤ (les.flatMap (consoleLine colors)).length
  | [] => Nat.le_refl _
  | le :: les => by
    have ih := length_le_flatMap colors les
    have hpos := List.length_pos_of_ne_nil (consoleLine_ne_nil colors le)
    rw [List.flatMap_cons, List.length_append, List.length_cons]
    omega

/-- A session is read back just if no message has the end of a line with its escape sequence. -/
theorem readSession_iff (f : TimeFormat) (hf : f.Numeric) (colors : Colors) (les : List LogEvent)
    (htime : ∀ le ∈ les, le.timeString = formatTime f le.time) :
    readSession (les.flatMap (consoleLine colors)) = some (les.map shownOf) ↔
      ∀ le ∈ les, ¬lineEnd <:+: le.message :=
  readLines_iff hf htime (length_le_flatMap colors les)

/-- The message has an escape sequence and more than one line. -/
def boldEvent : LogEvent :=
  ⟨.fine, 0, 27 :: ascii "[1mbold\nline", 0, ascii "main", ascii "example", formatTime newYear 0⟩

/-- The message is the end of a line. -/
def resetEvent : LogEvent :=
  { boldEvent with message := lineEnd }

theorem readSession_boldEvent :
    readSession ([boldEvent, boldEvent].flatMap (consoleLine .basic)) =
        some [shownOf boldEvent, shownOf boldEvent] ∧
      readSession ([boldEvent, resetEvent].flatMap (consoleLine .dark256)) ≠
        some [shownOf boldEvent, shownOf resetEvent] := by
  have hbold := readSession_iff newYear newYear_numeric .basic [boldEvent, boldEvent]
    (by simp [boldEvent])
  have hreset := readSession_iff newYear newYear_numeric .dark256 [boldEvent, resetEvent]
    (by simp [boldEvent, resetEvent])
  refine ⟨hbold.2 (by decide), fun h => ?_⟩
  exact hreset.1 h resetEvent (by simp) (List.infix_refl _)

end Lines

end Logfile
