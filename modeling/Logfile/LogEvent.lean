import Logfile.Numbers

/-!
# Log events

`log_event` with the severity levels of `logger::log_level`, the text of its time, and the
times after which `retry_thread::run` gives an undelivered event up.
-/

namespace Logfile

/-- `logger::log_level`, ordered by severity. -/
inductive LogLevel
  | finest
  | finer
  | fine
  | config
  | info
  | warning
  | severe
  deriving DecidableEq, Repr

/-- `logger_private::s_level_names`. -/
def LogLevel.name : LogLevel → Bytes
  | finest => ascii "finest"
  | finer => ascii "finer"
  | fine => ascii "fine"
  | config => ascii "config"
  | info => ascii "info"
  | warning => ascii "warning"
  | severe => ascii "severe"

/-- `log_event`. The time counts nanoseconds of the system clock. -/
structure LogEvent where
  level : LogLevel
  subsystem : UInt32
  message : Bytes
  time : ℤ
  function : Bytes
  subsystemString : Bytes
  timeString : Bytes
  deriving DecidableEq, Repr

/-- `expiry_time` : the age in seconds a queued event may reach. The age of a severe
event may reach the largest `time_t`. -/
def expiryTime : LogLevel → ℤ
  | .finest => 900
  | .finer => 900
  | .fine => 1800
  | .config => 1800
  | .info => 3600
  | .warning => 10 * 3600
  | .severe => 2 ^ 63 - 1

/-- `duration_cast<seconds>(_t).count()`, which rounds toward zero. -/
def seconds (t : ℤ) : ℤ :=
  t.tdiv 1000000000

/-- What `format_time` takes from the system and the build : the buffer that `strftime` fills
for a second, and whether `SuS_LOG_GMT` is defined. -/
structure TimeFormat where
  strftime : ℤ → Bytes
  gmt : Bool

/-- `setw(3)` with `setfill('0')` -/
def pad3 (s : Bytes) : Bytes :=
  List.replicate (3 - s.length) 48 ++ s

/-- `operator<<` for a signed number -/
def toDecInt (n : ℤ) : Bytes :=
  if n < 0 then ascii "-" ++ Text.toDec n.natAbs else Text.toDec n.natAbs

def formatTime (f : TimeFormat) (t : ℤ) : Bytes :=
  let ms := (t - seconds t * 1000000000).tdiv 1000000
  Text.cStr (f.strftime (seconds t)) ++ ascii "." ++ pad3 (toDecInt ms) ++
    if f.gmt then ascii " GMT" else []

def formatTimestamp (t : ℤ) : Bytes :=
  let ms := (t - seconds t * 1000000000).tdiv 1000000
  toDecInt (seconds t) ++ ascii "." ++ pad3 (toDecInt ms)

/-- The text of a time has no NUL. -/
theorem nul_not_mem_formatTime (f : TimeFormat) (t : ℤ) : 0 ∉ formatTime f t := by
  have hdec : ∀ n, 0 ∉ Text.toDec n := by
    intro n h
    exact absurd ((Text.digits_toDec n).1 0 h) (by decide)
  have hstr : 0 ∉ Text.cStr (f.strftime (seconds t)) := by
    intro h
    exact absurd (List.mem_takeWhile_imp h) (by decide)
  have hpad : ∀ s : Bytes, 0 ∉ s → 0 ∉ pad3 s := by
    intro s hs h
    rcases List.mem_append.1 h with h | h
    · exact absurd (List.eq_of_mem_replicate h) (by decide)
    · exact hs h
  have hint : ∀ n, 0 ∉ toDecInt n := by
    intro n
    unfold toDecInt
    split_ifs
    · simp only [List.mem_append, hdec, or_false]
      decide
    · exact hdec _
  simp only [formatTime, List.mem_append, hstr, hpad _ (hint _), false_or, or_false, not_or]
  refine ⟨by decide, ?_⟩
  split_ifs <;> decide

/-- The characters that `strftime` writes for `%Y-%m-%d %H:%M:%S`. -/
def TimeFormat.Numeric (f : TimeFormat) : Prop :=
  ∀ t, ∀ c ∈ Text.cStr (f.strftime t), Text.isDigit 10 c = true ∨ c ∈ ascii "-: "

theorem not_mem_toDecInt {c : Byte} (hdigit : Text.isDigit 10 c = false) (hminus : c ≠ 45)
    (n : ℤ) : c ∉ toDecInt n := by
  have hdec : c ∉ Text.toDec n.natAbs := by
    intro h
    rw [(Text.digits_toDec _).1 c h] at hdigit
    cases hdigit
  unfold toDecInt
  split_ifs
  · intro h
    rcases List.mem_append.1 h with h | h
    · exact hminus (List.mem_singleton.1 h)
    · exact hdec h
  · exact hdec

theorem not_mem_pad3 {c : Byte} {s : Bytes} (hzero : c ≠ 48) (h : c ∉ s) : c ∉ pad3 s := by
  intro hc
  rcases List.mem_append.1 hc with hc | hc
  · exact hzero (List.eq_of_mem_replicate hc)
  · exact h hc

/-- A character that the text of no time has. -/
theorem not_mem_formatTime {f : TimeFormat} (hf : f.Numeric) {c : Byte}
    (hdigit : Text.isDigit 10 c = false) (hc : c ∉ ascii "-: .GMT") (t : ℤ) :
    c ∉ formatTime f t := by
  have hminus : c ≠ 45 := by
    rintro rfl
    exact hc (by decide)
  have hzero : c ≠ 48 := by
    rintro rfl
    exact absurd hdigit (by decide)
  intro h
  simp only [formatTime, List.mem_append] at h
  rcases h with ((h | h) | h) | h
  · rcases hf _ c h with h | h
    · rw [hdigit] at h
      cases h
    · exact hc ((by decide : ascii "-: " ⊆ ascii "-: .GMT") h)
  · exact hc ((by decide : ascii "." ⊆ ascii "-: .GMT") h)
  · exact not_mem_pad3 hzero (not_mem_toDecInt hdigit hminus _) h
  · split_ifs at h
    · exact hc ((by decide : ascii " GMT" ⊆ ascii "-: .GMT") h)
    · cases h

/-- Filling with zeros keeps the value. -/
theorem number_pad3 (s : Bytes) : Text.number 10 (pad3 s) = Text.number 10 s := by
  have hzero : Text.digit 48 = 0 := by decide
  simp [pad3, Text.number, hzero]

theorem toDecInt_natCast (n : ℕ) : toDecInt n = Text.toDec n := by
  simp [toDecInt]

/-- From 1970 on. -/
theorem formatTimestamp_natCast (n : ℕ) : formatTimestamp n =
    Text.toDec (n / 1000000000) ++ ascii "." ++ pad3 (Text.toDec (n / 1000000 % 1000)) := by
  have hsec : seconds n = (n / 1000000000 : ℕ) := by
    rw [seconds, Int.tdiv_eq_ediv_of_nonneg (by omega)]
    omega
  have hms : ((n : ℤ) - (n / 1000000000 : ℕ) * 1000000000).tdiv 1000000 =
      (n / 1000000 % 1000 : ℕ) := by
    rw [Int.tdiv_eq_ediv_of_nonneg (by omega)]
    omega
  simp only [formatTimestamp, hsec, hms, toDecInt_natCast]

/-- From 1970 on, times have the same text if they are in the same millisecond. -/
theorem formatTimestamp_eq_iff {t u : ℤ} (ht : 0 ≤ t) (hu : 0 ≤ u) :
    formatTimestamp t = formatTimestamp u ↔ t / 1000000 = u / 1000000 := by
  lift t to ℕ using ht
  lift u to ℕ using hu
  have hdot : ∀ n, 46 ∉ Text.toDec n := by
    intro n h
    exact absurd ((Text.digits_toDec n).1 46 h) (by decide)
  rw [formatTimestamp_natCast, formatTimestamp_natCast]
  constructor
  · intro h
    have hsplit : Text.toDec (t / 1000000000) ++ 46 :: pad3 (Text.toDec (t / 1000000 % 1000)) =
        Text.toDec (u / 1000000000) ++ 46 :: pad3 (Text.toDec (u / 1000000 % 1000)) := by
      simpa [ascii] using h
    obtain ⟨hsec, -, hpad⟩ := (List.append_cons_inj_of_notMem (hdot _)
      (not_mem_pad3 (by decide) (hdot _))).1 hsplit
    have hms := congrArg (Text.number 10) hpad
    rw [number_pad3, number_pad3, (Text.digits_toDec _).2, (Text.digits_toDec _).2] at hms
    have hsec' := Text.toDec_injective hsec
    omega
  · intro h
    have hsec : t / 1000000000 = u / 1000000000 := by omega
    have hms : t / 1000000 = u / 1000000 := by omega
    rw [hsec, hms]

/-- Times of the first second of 2017. -/
def newYear : TimeFormat := ⟨fun _ => ascii "2017-01-01 00:00:00", true⟩

theorem newYear_numeric : newYear.Numeric := by
  have h : ∀ c ∈ Text.cStr (ascii "2017-01-01 00:00:00"),
      Text.isDigit 10 c = true ∨ c ∈ ascii "-: " := by decide +kernel
  exact fun _ => h

/-- The test of the expiry pass. -/
def LogEvent.expired (e : LogEvent) (now : ℤ) : Bool :=
  seconds (now - e.time) > expiryTime e.level

end Logfile
