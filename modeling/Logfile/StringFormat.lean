import Logfile.Text

/-!
# Formatted strings

`string_format` with its loop over the size of the buffer. `vsnprintf` tells the length of the
whole text whatever the size is, or it fails at every size.

A text is returned after at most two calls. An error makes the loop double `size` until the `int`
overflows, so the loop ends well exactly when there is none (`formatsExactly_iff`).
-/

namespace Logfile

open Text

/-- What `vsnprintf` makes of its arguments : a text of fewer than `INT_MAX` characters, or an
error. -/
inductive Formatted
  | text (t : Bytes) (h : t.length < 2147483647)
  | error (code : ℤ) (h : code < 0)

/-- `vsnprintf(buf, size, fmt, ap)` : what it returns, and the buffer afterwards. At most
`size - 1` characters and a NUL are written. -/
def Formatted.vsnprintf (o : Formatted) (buf : Bytes) (size : ℕ) : ℤ × Bytes :=
  match o with
  | text t _ =>
    let written := t.take (size - 1) ++ [0]
    (t.length, written ++ buf.drop written.length)
  | error code _ => (code, buf)

/-- `str.resize(n)` -/
def resize (str : Bytes) (n : ℕ) : Bytes :=
  str.take n ++ List.replicate (n - str.length) 0

/-- How `string_format` ends. -/
inductive FormatEnd
  /-- with `str`, after a number of calls of `vsnprintf` -/
  | returned (str : Bytes) (calls : ℕ)
  /-- `size` does not fit in an `int` -/
  | overflow
  deriving DecidableEq

/-- `while (1)`. There is no result when the fuel runs out. -/
def formatLoop (o : Formatted) : ℕ → ℕ → Bytes → ℕ → Option FormatEnd
  | 0, _, _, _ => none
  | fuel + 1, size, str, calls =>
    let (n, str) := o.vsnprintf (resize str size) size
    if n > -1 ∧ n < size then some (.returned (resize str n.toNat) (calls + 1))
    else
      let size := if n > -1 then n.toNat + 1 else size * 2
      if size > 2147483647 then some .overflow
      else formatLoop o fuel size str (calls + 1)

/-- `string_format` -/
def stringFormat (o : Formatted) (fuel : ℕ) : Option FormatEnd :=
  formatLoop o fuel 100 [] 0

/-- The loop ends, without an overflow, and a text comes back as it is after at most two calls. -/
structure FormatsExactly (o : Formatted) : Prop where
  ends : ∃ fuel str calls, stringFormat o fuel = some (.returned str calls)
  exact : ∀ t h, o = .text t h →
    ∃ fuel calls, stringFormat o fuel = some (.returned t calls) ∧ calls ≤ 2
  fits : ∀ fuel, stringFormat o fuel ≠ some .overflow

section Text

variable {t : Bytes} {h : t.length < 2147483647} {fuel size calls : ℕ} {str : Bytes}

/-- A buffer with room for the text and its NUL. -/
theorem formatLoop_fits (hsize : t.length < size) :
    formatLoop (.text t h) (fuel + 1) size str calls = some (.returned t (calls + 1)) := by
  have htake : t.take (size - 1) = t := List.take_of_length_le (by omega)
  rw [formatLoop, Formatted.vsnprintf, htake]
  dsimp only
  rw [if_pos ⟨by omega, by omega⟩, resize, Int.toNat_natCast, List.append_assoc, List.take_left]
  simp

/-- A buffer that is too small is replaced by one of the right size. -/
theorem formatLoop_grows (hsize : size ≤ t.length) :
    formatLoop (.text t h) (fuel + 2) size str calls = some (.returned t (calls + 2)) := by
  have hlength : (t.length : ℤ) > -1 := by omega
  rw [formatLoop, Formatted.vsnprintf]
  dsimp only
  rw [if_neg (by omega)]
  simp only [if_pos hlength, Int.toNat_natCast]
  rw [if_neg (by omega)]
  exact formatLoop_fits (Nat.lt_succ_self _)

end Text

/-- The first two rounds decide about a text. -/
theorem stringFormat_text (t : Bytes) (h : t.length < 2147483647) :
    ∃ calls ≤ 2, ∀ fuel, stringFormat (.text t h) (fuel + 2) = some (.returned t calls) := by
  rcases Nat.lt_or_ge t.length 100 with hlt | hge
  · exact ⟨1, by decide, fun fuel => formatLoop_fits hlt⟩
  · exact ⟨2, le_rfl, fun fuel => formatLoop_grows hge⟩

/-- With less fuel than a text needs, there is no result. -/
theorem formatLoop_mono {o : Formatted} {e : FormatEnd} : ∀ {fuel size calls : ℕ} {str : Bytes},
    formatLoop o fuel size str calls = some e → formatLoop o (fuel + 1) size str calls = some e
  | fuel + 1, size, calls, str, h => by
    rw [formatLoop] at h ⊢
    dsimp only at h ⊢
    split_ifs at h ⊢ with hdone hlength
    · exact h
    · exact h
    · exact formatLoop_mono h
    · exact h
    · exact formatLoop_mono h

section Error

variable {code : ℤ} {h : code < 0}

theorem formatLoop_error (fuel size calls : ℕ) (str : Bytes) :
    formatLoop (.error code h) (fuel + 1) size str calls =
      if size * 2 > 2147483647 then some .overflow
      else formatLoop (.error code h) fuel (size * 2) (resize str size) (calls + 1) := by
  have herror : ¬code > -1 := by omega
  rw [formatLoop, Formatted.vsnprintf]
  dsimp only
  rw [if_neg (by omega)]
  simp only [if_neg herror]

/-- An error is never the end. -/
theorem formatLoop_error_ne : ∀ (fuel size calls : ℕ) (str s : Bytes) (n : ℕ),
    formatLoop (.error code h) fuel size str calls ≠ some (.returned s n)
  | 0, _, _, _, _, _ => by simp [formatLoop]
  | fuel + 1, size, calls, str, s, n => by
    rw [formatLoop_error]
    split_ifs
    · simp
    · exact formatLoop_error_ne fuel _ _ _ s n

/-- `size` doubles until it overflows. -/
theorem formatLoop_error_overflow : ∀ (k : ℕ) {size calls : ℕ} {str : Bytes},
    size * 2 ^ (k + 1) > 2147483647 →
      formatLoop (.error code h) (k + 1) size str calls = some .overflow
  | 0, size, calls, str, hsize => by
    rw [formatLoop_error, if_pos (by simpa using hsize)]
  | k + 1, size, calls, str, hsize => by
    rw [formatLoop_error]
    split_ifs
    · rfl
    · refine formatLoop_error_overflow k ?_
      rwa [Nat.mul_assoc, ← Nat.pow_succ']

end Error

theorem stringFormat_error (code : ℤ) (h : code < 0) :
    stringFormat (.error code h) 25 = some .overflow :=
  formatLoop_error_overflow 24 (by norm_num)

/-- `vsnprintf` does not fail. -/
def Formatted.Succeeds : Formatted → Prop
  | text _ _ => True
  | error _ _ => False

/-- The loop ends well exactly if `vsnprintf` does not fail. -/
theorem formatsExactly_iff (o : Formatted) : FormatsExactly o ↔ o.Succeeds := by
  cases o with
  | text t h =>
    obtain ⟨calls, hcalls, hends⟩ := stringFormat_text t h
    refine iff_of_true ⟨⟨2, t, calls, hends 0⟩, fun t' h' heq => ?_, fun fuel hover => ?_⟩ trivial
    · obtain ⟨rfl⟩ := heq
      exact ⟨2, calls, hends 0, hcalls⟩
    · have hmore := formatLoop_mono (formatLoop_mono hover)
      cases hmore.symm.trans (hends fuel)
  | error code h =>
    refine iff_of_false (fun hexact => ?_) id
    obtain ⟨fuel, str, calls, hends⟩ := hexact.ends
    exact formatLoop_error_ne fuel _ _ _ _ _ hends

/-- After a failure of `vsnprintf` the loop goes on until `size` overflows. -/
theorem failed_format_overflows :
    ¬FormatsExactly (.error (-1) (by decide)) :=
  fun h => h.fits 25 (stringFormat_error _ _)

example : stringFormat (.text (ascii "3 * 3 = 9") (by decide)) 2 =
    some (.returned (ascii "3 * 3 = 9") 1) := by
  decide +kernel

end Logfile
