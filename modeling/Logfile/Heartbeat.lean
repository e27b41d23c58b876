import Logfile.StompPacket

/-!
# The heart-beats of a connection

What `parse_heartbeat` makes of a heart-beat header, and the time-out that `reader_thread`
computes from it. The product with `1.5` is one of `double`s, rounded to nearest with ties to
even; the conversion to `unsigned long` needs a number that fits.

Of a header `<sx>,0` everything is accepted that `strtol` reads to its end, and
`m_heartbeat_interval` is assigned before that is checked. So the negotiation is right when
`sx` is a plain number in range, or is rejected with the interval already set
(`negotiated_iff`).
-/

namespace Logfile

open Text

/-! ## The time-out -/

/-- A positive number as a `double` : its first 53 bits, rounded. -/
def roundDouble (n : ℕ) : ℕ :=
  let unit := 2 ^ (Nat.log 2 n - 52)
  let q := n / unit
  let r := n % unit
  if 2 * r < unit ∨ 2 * r = unit ∧ q % 2 = 0 then q * unit else (q + 1) * unit

/-- `m_heartbeat_interval * 1000 * 1.5` as an `unsigned long`, unless a type overflows. A
negative product does not fit. -/
def readerTimeout (interval : ℤ) : Option ℕ :=
  let us := interval * 1000
  if 0 ≤ us ∧ us < 2 ^ 63 then
    -- in halves of a microsecond
    let halves := roundDouble (3 * roundDouble us.toNat)
    if halves / 2 < 2 ^ 64 then some (halves / 2) else none
  else none

theorem roundDouble_le {n k : ℕ} (h : n < 2 ^ (k + 53)) : roundDouble n ≤ n + 2 ^ k := by
  have hlog : Nat.log 2 n < k + 53 := Nat.log_lt_of_lt_pow' (by omega) h
  have hunit : 2 ^ (Nat.log 2 n - 52) ≤ 2 ^ k := Nat.pow_le_pow_right (by decide) (by omega)
  have hdiv := Nat.div_mul_le_self n (2 ^ (Nat.log 2 n - 52))
  unfold roundDouble
  dsimp only
  split
  · omega
  · rw [Nat.add_mul, Nat.one_mul]
    omega

/-- The time-out of an interval in range is computed without overflow. -/
theorem exists_readerTimeout {v : ℕ} (h : 1500 * v < 2 ^ 63) : ∃ t, readerTimeout v = some t := by
  have hus : roundDouble (1000 * v) ≤ 1000 * v + 2 ^ 10 := roundDouble_le (by omega)
  have hhalves : roundDouble (3 * roundDouble (1000 * v)) ≤
      3 * roundDouble (1000 * v) + 2 ^ 12 := roundDouble_le (by omega)
  have hnat : ((v : ℤ) * 1000).toNat = 1000 * v := by omega
  unfold readerTimeout
  dsimp only
  rw [hnat, if_pos (by omega), if_pos (by omega)]
  exact ⟨_, rfl⟩

example : readerTimeout 5000 = some 7500000 := by decide

/-! ## The negotiation -/

/-- The value is `<sx>,0` where `sx` is the number `v` and its time-out is in range. -/
def UsableHeartbeat (value : Bytes) (v : ℕ) : Prop :=
  ∃ sx, value = sx ++ ascii ",0" ∧ sx ≠ [] ∧ (∀ c ∈ sx, isDigit 10 c = true) ∧
    number 10 sx = v ∧ 1500 * v < 2 ^ 63

/-- `m_heartbeat_interval` behind `parse_heartbeat`. -/
def intervalAfter (interval : ℤ) (reply : StompReply) : ℤ :=
  (parseHeartbeat reply).2.getD interval

/-- `parse_heartbeat` accepts the usable values, sets the interval to them, and leaves it
alone otherwise. -/
structure Negotiated (interval : ℤ) (reply : StompReply) (value : Bytes) : Prop where
  accepts : (parseHeartbeat reply).1 = true ↔ ∃ v, UsableHeartbeat value v
  sets : ∀ v, UsableHeartbeat value v → intervalAfter interval reply = v ∧
    ∃ t, readerTimeout (intervalAfter interval reply) = some t
  kept : (parseHeartbeat reply).1 = false → intervalAfter interval reply = interval

/-- What stands in front of `,0` is usable, or `strtol` stops inside it and has read the
interval that is set already. -/
def PlainInterval (interval : ℤ) (value : Bytes) : Prop :=
  ∀ sx, 44 ∉ sx → value = sx ++ ascii ",0" → (∃ v, UsableHeartbeat value v) ∨
    (strtol 10 sx).2 ≠ [] ∧ (strtol 10 sx).1 = interval

variable {interval : ℤ} {reply : StompReply} {value sx rest : Bytes}

theorem comma_not_mem_of_digits (h : ∀ c ∈ sx, isDigit 10 c = true) : 44 ∉ sx :=
  fun hmem => absurd (h 44 hmem) (by decide)

/-- Digits in front of the first comma. -/
theorem UsableHeartbeat.cut {v : ℕ} (h : UsableHeartbeat (sx ++ 44 :: rest) v) (hsx : 44 ∉ sx) :
    rest = ascii "0" ∧ strtol 10 sx = ((v : ℤ), []) := by
  obtain ⟨ds, hvalue, hne, hdigits, rfl, hrange⟩ := h
  obtain ⟨rfl, rfl⟩ := append_cons_inj hsx (comma_not_mem_of_digits hdigits) hvalue
  refine ⟨rfl, ?_⟩
  rw [strtol_digits (by decide) hne hdigits, clampLong_of_le (by omega)]

theorem parseHeartbeat_of_not_mem (h : reply.headers.lookup (ascii "heart-beat") = some value)
    (hcomma : 44 ∉ value) : parseHeartbeat reply = (false, none) := by
  have hfind : find value (ascii ",") 0 = none := by
    simpa [find, ascii] using search_singleton_eq_none.2 hcomma
  simp only [parseHeartbeat, h, hfind]

theorem parseHeartbeat_of_comma
    (h : reply.headers.lookup (ascii "heart-beat") = some (sx ++ 44 :: rest)) (hsx : 44 ∉ sx) :
    parseHeartbeat reply =
      if rest ≠ ascii "0" then (false, none)
      else ((strtol 10 sx).2.isEmpty, some (strtol 10 sx).1) := by
  have hfind : find (sx ++ 44 :: rest) (ascii ",") 0 = some sx.length := by
    have := search_singleton hsx rest
    simpa [find, ascii] using this
  simp only [parseHeartbeat, h, hfind]
  simp

/-- A value that is rejected with the interval left alone. -/
theorem negotiated_of_rejected (hparse : parseHeartbeat reply = (false, none))
    (hvalue : ∀ v, ¬UsableHeartbeat value v) : Negotiated interval reply value := by
  refine ⟨?_, fun v hv => absurd hv (hvalue v), fun _ => ?_⟩
  · rw [hparse]
    simpa using hvalue
  · rw [intervalAfter, hparse]
    rfl

/-- Without a comma, or with something else than `0` behind it, all is right. -/
theorem plainInterval_of_ne (h : ∀ sx, 44 ∉ sx → value ≠ sx ++ ascii ",0") :
    PlainInterval interval value :=
  fun sx hsx heq => absurd heq (h sx hsx)

/-- In front of `,0`. -/
theorem negotiated_iff_of_zero
    (hparse : parseHeartbeat reply = ((strtol 10 sx).2.isEmpty, some (strtol 10 sx).1))
    (hsx : 44 ∉ sx) : Negotiated interval reply (sx ++ 44 :: ascii "0") ↔
      (∃ v, UsableHeartbeat (sx ++ 44 :: ascii "0") v) ∨
        (strtol 10 sx).2 ≠ [] ∧ (strtol 10 sx).1 = interval := by
  have hafter : intervalAfter interval reply = (strtol 10 sx).1 := by
    rw [intervalAfter, hparse]
    rfl
  constructor
  · intro hneg
    by_cases hend : (strtol 10 sx).2 = []
    · exact Or.inl (hneg.accepts.1 (by rw [hparse, hend]; rfl))
    · refine Or.inr ⟨hend, ?_⟩
      rw [← hafter]
      exact hneg.kept (by rw [hparse]; simpa using hend)
  · rintro (⟨v, hv⟩ | ⟨hend, hread⟩)
    · obtain ⟨-, hstrtol⟩ := hv.cut hsx
      refine ⟨⟨fun _ => ⟨v, hv⟩, fun _ => by rw [hparse, hstrtol]; rfl⟩, fun w hw => ?_, ?_⟩
      · obtain ⟨-, hstrtol'⟩ := hw.cut hsx
        obtain ⟨-, -, -, -, -, hrange⟩ := hw
        have hw' : (strtol 10 sx).1 = (w : ℤ) := by rw [hstrtol']
        rw [hafter, hw']
        exact ⟨rfl, exists_readerTimeout hrange⟩
      · rw [hparse, hstrtol]
        simp
    · have hnone : ∀ v, ¬UsableHeartbeat (sx ++ 44 :: ascii "0") v := by
        intro v hv
        exact hend (by rw [(hv.cut hsx).2])
      refine ⟨?_, fun v hv => absurd hv (hnone v), fun _ => hafter.trans hread⟩
      rw [hparse]
      simpa [hend] using hnone

/-- The negotiation is right exactly on plain intervals. -/
theorem negotiated_iff (interval : ℤ) (reply : StompReply) (value : Bytes)
    (h : reply.headers.lookup (ascii "heart-beat") = some value) :
    Negotiated interval reply value ↔ PlainInterval interval value := by
  by_cases hcomma : 44 ∈ value
  · obtain ⟨sx, rest, rfl, hsx⟩ := List.eq_append_cons_of_mem hcomma
    have hparse := parseHeartbeat_of_comma h hsx
    by_cases hrest : rest = ascii "0"
    · subst hrest
      rw [if_neg (by simp)] at hparse
      rw [negotiated_iff_of_zero hparse hsx]
      refine ⟨fun hor sx' hsx' heq => ?_, fun hplain => hplain sx hsx rfl⟩
      obtain ⟨rfl, -⟩ := append_cons_inj hsx hsx' heq
      exact hor
    · rw [if_pos hrest] at hparse
      refine iff_of_true (negotiated_of_rejected hparse fun v hv => hrest (hv.cut hsx).1) ?_
      exact plainInterval_of_ne fun sx' hsx' heq => hrest (append_cons_inj hsx hsx' heq).2
  · refine iff_of_true (negotiated_of_rejected (parseHeartbeat_of_not_mem h hcomma) ?_) ?_
    · rintro v ⟨sx, rfl, -⟩
      exact hcomma (by simp [ascii])
    · refine plainInterval_of_ne ?_
      rintro sx - rfl
      exact hcomma (by simp [ascii])

/-! ## A negative interval -/

/-- A CONNECTED frame with the given heart-beat header. -/
def greetingOf (value : Bytes) : StompReply :=
  ⟨ascii "CONNECTED", [(ascii "version", ascii "1.1"), (ascii "heart-beat", value)], []⟩

/-- `strtol` reads a sign. -/
theorem negative_interval_accepted :
    ¬∀ (interval : ℤ) (reply : StompReply) (value : Bytes),
      reply.headers.lookup (ascii "heart-beat") = some value → Negotiated interval reply value := by
  intro h
  have hneg := h 0 (greetingOf (ascii "-5,0")) (ascii "-5,0") (by decide)
  obtain ⟨v, sx, hvalue, -, hdigits, -⟩ := hneg.accepts.1 (by decide)
  have hmem : 45 ∈ sx := by
    have hhead : 45 ∈ sx ++ ascii ",0" := hvalue ▸ (by decide : 45 ∈ ascii "-5,0")
    rcases List.mem_append.1 hhead with hmem | hmem
    · exact hmem
    · exact absurd hmem (by decide)
  exact absurd (hdigits 45 hmem) (by decide)

theorem negotiated_fiveSeconds :
    Negotiated 0 (greetingOf (ascii "5000,0")) (ascii "5000,0") := by
  refine (negotiated_iff 0 (greetingOf (ascii "5000,0")) (ascii "5000,0") (by decide)).2 ?_
  intro sx hsx heq
  exact Or.inl ⟨5000, ascii "5000", by decide, by decide, by decide +kernel, by decide +kernel,
    by decide⟩

end Logfile
