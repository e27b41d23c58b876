import Logfile.Text

/-!
# Numbers in strings

`strtol` and `atoi` of the C library, with `long` of 64 and `int` of 32 bits, and
`operator<<` for an unsigned number. On a non-empty string of digits `strtol` returns
their value (`strtol_digits`), and `std::stoi` reads a number up to the end of its digits
(`stoi_numeral`).
-/

namespace Text

/-- The part of a string that a C function sees. -/
def cStr (s : Bytes) : Bytes :=
  s.takeWhile (· ≠ 0)

def isspace (c : Byte) : Bool :=
  c == 32 || (9 ≤ c && c ≤ 13)

/-- The value of a digit or letter, 36 for any other character. -/
def digit (c : Byte) : ℕ :=
  if 48 ≤ c ∧ c ≤ 57 then c.toNat - 48
  else if 97 ≤ c ∧ c ≤ 122 then c.toNat - 87
  else if 65 ≤ c ∧ c ≤ 90 then c.toNat - 55
  else 36

def isDigit (base : ℕ) (c : Byte) : Bool :=
  digit c < base

/-- The value of a string of digits. -/
def number (base : ℕ) (ds : Bytes) : ℕ :=
  Nat.ofDigits base (ds.reverse.map digit)

/-- `strtol` returns `LONG_MIN` or `LONG_MAX` when the value does not fit. -/
def clampLong (v : ℤ) : ℤ :=
  max (-2 ^ 63) (min v (2 ^ 63 - 1))

/-- An optional `0x`, which is skipped only in front of a digit. -/
def skipHexPrefix : Bytes → Bytes
  | 48 :: x :: c :: s => if (x = 120 ∨ x = 88) ∧ isDigit 16 c then c :: s else 48 :: x :: c :: s
  | s => s

/-- `strtol(s, &endptr, base)` : the value and the string at `endptr`. -/
def strtol (base : ℕ) (s : Bytes) : ℤ × Bytes :=
  let t := (cStr s).dropWhile isspace
  let neg := t.head? = some 45
  let t := if neg ∨ t.head? = some 43 then t.tail else t
  let t := if base = 16 then skipHexPrefix t else t
  let ds := t.takeWhile (isDigit base)
  if ds.isEmpty then (0, cStr s)
  else (clampLong (if neg then -(number base ds : ℤ) else number base ds), t.drop ds.length)

/-- `atoi(s)` -/
def atoi (s : Bytes) : ℤ :=
  (strtol 10 s).1.bmod (2 ^ 32)

/-- `operator<<` for an unsigned number -/
def toDec (n : ℕ) : Bytes :=
  ascii (Nat.repr n)

theorem ofInt_natCast_uint8 (n : ℕ) : UInt8.ofInt n = UInt8.ofNat n := by
  refine UInt8.toNat_inj.1 ?_
  simp only [UInt8.ofInt, UInt8.toNat_ofNat']
  omega

theorem ofInt_natCast_uint16 (n : ℕ) : UInt16.ofInt n = UInt16.ofNat n := by
  refine UInt16.toNat_inj.1 ?_
  simp only [UInt16.ofInt, UInt16.toNat_ofNat']
  omega

section Digits

variable {base : ℕ} {c : Byte} {ds : Bytes}

theorem le_toNat_of_isDigit (hb : base ≤ 36) (h : isDigit base c = true) : 48 ≤ c.toNat := by
  have hlt : digit c < 36 := (of_decide_eq_true h).trans_le hb
  simp only [digit, UInt8.le_iff_toNat_le] at hlt
  split_ifs at hlt with h₁ h₂ h₃
  · exact h₁.1
  · exact le_trans (by decide) h₂.1
  · exact le_trans (by decide) h₃.1
  · omega

theorem cStr_of_digits (hb : base ≤ 36) (h : ∀ c ∈ ds, isDigit base c = true) : cStr ds = ds := by
  refine List.takeWhile_eq_self_iff.2 fun c hc => ?_
  have hle := le_toNat_of_isDigit hb (h c hc)
  simp only [ne_eq, decide_not, Bool.not_eq_true', decide_eq_false_iff_not]
  rintro rfl
  exact absurd hle (by decide)

theorem isspace_of_isDigit (hb : base ≤ 36) (h : isDigit base c = true) : isspace c = false := by
  have hle := le_toNat_of_isDigit hb h
  simp only [isspace, Bool.or_eq_false_iff, beq_eq_false_iff_ne, Bool.and_eq_false_iff,
    decide_eq_false_iff_not, UInt8.le_iff_toNat_le, ne_eq]
  refine ⟨?_, Or.inr fun h13 => absurd (hle.trans h13) (by decide)⟩
  rintro rfl
  exact absurd hle (by decide)

/-- There is no `0x` among digits. -/
theorem skipHexPrefix_of_digits (h : ∀ c ∈ ds, isDigit 16 c = true) : skipHexPrefix ds = ds := by
  unfold skipHexPrefix
  split
  · next x c s =>
    have hx : isDigit 16 x = true := h x (by simp)
    have hne : ¬(x = 120 ∨ x = 88) := by
      rintro (rfl | rfl)
      · exact absurd hx (by decide)
      · exact absurd hx (by decide)
    simp [hne]
  · rfl

/-- `strtol` of a string of digits. -/
theorem strtol_digits (hb : base ≤ 36) (hne : ds ≠ []) (h : ∀ c ∈ ds, isDigit base c = true) :
    strtol base ds = (clampLong (number base ds), []) := by
  obtain ⟨c, s, rfl⟩ := List.exists_cons_of_ne_nil hne
  have hc : isDigit base c = true := h c (by simp)
  have hsign : c ≠ 45 ∧ c ≠ 43 := by
    have hle := le_toNat_of_isDigit hb hc
    constructor
    · rintro rfl
      exact absurd hle (by decide)
    · rintro rfl
      exact absurd hle (by decide)
  have hhex : (if base = 16 then skipHexPrefix (c :: s) else c :: s) = c :: s := by
    split_ifs with h16
    · exact skipHexPrefix_of_digits (h16 ▸ h)
    · rfl
  have hds : (c :: s).takeWhile (isDigit base) = c :: s := List.takeWhile_eq_self_iff.2 h
  have hspace : (c :: s).dropWhile isspace = c :: s := by
    simp [isspace_of_isDigit hb hc]
  simp only [strtol, cStr_of_digits hb h, hspace, List.head?_cons, Option.some.injEq, hsign.1,
    hsign.2, or_self, if_false, hhex, hds]
  simp

theorem clampLong_of_le {n : ℕ} (h : n ≤ 2 ^ 63 - 1) : clampLong n = n := by
  unfold clampLong
  omega

/-- A string of digits is below a power of the base. -/
theorem number_lt (hb : 1 < base) (h : ∀ c ∈ ds, isDigit base c = true) :
    number base ds < base ^ ds.length := by
  have hlt := Nat.ofDigits_lt_base_pow_length hb (l := ds.reverse.map digit) (by
    intro d hd
    obtain ⟨c, hc, rfl⟩ := List.mem_map.1 hd
    exact of_decide_eq_true (h c (by simpa using hc)))
  simpa [number] using hlt

theorem atoi_digits (hne : ds ≠ []) (hlen : ds.length ≤ 5)
    (h : ∀ c ∈ ds, isDigit 10 c = true) : atoi ds = number 10 ds := by
  have hlt : number 10 ds < 10 ^ 5 :=
    (number_lt (by decide) h).trans_le (Nat.pow_le_pow_right (by decide) hlen)
  rw [atoi, strtol_digits (by decide) hne h, clampLong_of_le (by omega)]
  exact Int.bmod_eq_of_le (by omega) (by omega)

end Digits

/-! ## Written numbers -/

theorem number_concat (base : ℕ) (ds : Bytes) (c : Byte) :
    number base (ds ++ [c]) = digit c + base * number base ds := by
  simp [number, Nat.ofDigits_cons]

theorem digit_digitChar : ∀ d < 10, isDigit 10 d.digitChar.toNat.toUInt8 = true ∧
    digit d.digitChar.toNat.toUInt8 = d := by
  decide

theorem toDec_eq (n : ℕ) : toDec n = (Nat.toDigits 10 n).map fun c => c.toNat.toUInt8 := by
  rw [toDec, ascii, Nat.toList_repr]

/-- `operator<<` writes digits, and their value is the number. -/
theorem digits_toDec (n : ℕ) : (∀ c ∈ toDec n, isDigit 10 c = true) ∧ number 10 (toDec n) = n := by
  induction n using Nat.strong_induction_on with
  | _ n ih =>
    rw [toDec_eq, Nat.toDigits_eq_if (by decide)]
    split_ifs with h
    · obtain ⟨hdigit, hvalue⟩ := digit_digitChar n h
      simp [number, hdigit, hvalue]
    · obtain ⟨hdigits, hvalue⟩ := ih (n / 10) (by omega)
      obtain ⟨hdigit, hlast⟩ := digit_digitChar (n % 10) (by omega)
      rw [List.map_append, ← toDec_eq, List.map_singleton]
      refine ⟨?_, by rw [number_concat, hvalue, hlast]; omega⟩
      intro c hc
      rcases List.mem_append.1 hc with hc | hc
      · exact hdigits c hc
      · rw [List.mem_singleton.1 hc]
        exact hdigit

theorem toDec_injective : Function.Injective toDec := by
  intro m n h
  rw [← (digits_toDec m).2, ← (digits_toDec n).2, h]


/-! ## Signed numbers -/

/-- White space, a sign and digits, as `strtol` reads them. -/
def Numeral (s : Bytes) (v : ℤ) : Prop :=
  ∃ spaces sign ds, s = spaces ++ sign ++ ds ∧ (∀ c ∈ spaces, isspace c = true) ∧
    (sign = [] ∨ sign = [43] ∨ sign = [45]) ∧ ds ≠ [] ∧ (∀ c ∈ ds, isDigit 10 c = true) ∧
    v = if sign = [45] then -(number 10 ds : ℤ) else number 10 ds

/-- No digit follows. -/
def EndsDigits (rest : Bytes) : Prop :=
  ∀ c ∈ rest.head?, isDigit 10 c = false

/-- The values of an `int`. -/
def IsInt (v : ℤ) : Prop :=
  -2 ^ 31 ≤ v ∧ v < 2 ^ 31

instance (v : ℤ) : Decidable (IsInt v) :=
  inferInstanceAs (Decidable (_ ∧ _))

/-- `std::stoi(s, &pos)` : the value and the position behind it. -/
def stoi (s : Bytes) : Except Exn (ℤ × ℕ) :=
  let (v, rest) := strtol 10 s
  if rest.length = (cStr s).length then .error (.invalidArgument (ascii "stoi"))
  else if IsInt v then .ok (v, (cStr s).length - rest.length)
  else .error .outOfRange

section Numeral

variable {s a rest : Bytes} {v : ℤ}

theorem EndsDigits.takeWhile (h : EndsDigits rest) : rest.takeWhile (isDigit 10) = [] := by
  cases rest with
  | nil => rfl
  | cons c rest => simp [h c rfl]

theorem cStr_append (h : 0 ∉ a) : cStr (a ++ rest) = a ++ cStr rest := by
  refine List.takeWhile_append_of_pos fun c hc => ?_
  simp only [ne_eq, decide_not, Bool.not_eq_true', decide_eq_false_iff_not]
  rintro rfl
  exact h hc

theorem EndsDigits.cStr (h : EndsDigits rest) : EndsDigits (cStr rest) := by
  cases rest with
  | nil => exact h
  | cons c rest =>
    by_cases hc : c = 0
    · subst hc
      simp [Text.cStr, EndsDigits]
    · have hhead : Text.cStr (c :: rest) = c :: Text.cStr rest := by simp [Text.cStr, hc]
      rw [hhead]
      exact h

theorem EndsDigits.append {b : Bytes} (ha : EndsDigits a) (hb : EndsDigits b) :
    EndsDigits (a ++ b) := by
  cases a with
  | nil => exact hb
  | cons c a => exact ha

theorem endsDigits_dropWhile {p : Byte → Bool} (hp : ∀ c, p c = false → isDigit 10 c = false)
    (s : Bytes) : EndsDigits (s.dropWhile p) := by
  have hhead := List.head?_dropWhile_not p s
  intro c hc
  rw [Option.mem_def.1 hc] at hhead
  exact hp c hhead

theorem Numeral.noNul (h : Numeral a v) : 0 ∉ a := by
  obtain ⟨spaces, sign, ds, rfl, hspaces, hsign, -, hds, -⟩ := h
  simp only [List.mem_append, not_or]
  refine ⟨⟨fun hmem => ?_, ?_⟩, fun hmem => ?_⟩
  · exact absurd (hspaces 0 hmem) (by decide)
  · rcases hsign with rfl | rfl | rfl <;> decide
  · exact absurd (hds 0 hmem) (by decide)

theorem Numeral.ne_nil (h : Numeral a v) : a ≠ [] := by
  obtain ⟨spaces, sign, ds, rfl, -, -, hne, -, -⟩ := h
  simp [hne]

/-- `strtol` behind the white space and the sign. -/
theorem strtol_signed {sign u : Bytes} (h : (cStr s).dropWhile isspace = sign ++ u)
    (hsign : (sign = [] ∧ u.head? ≠ some 45 ∧ u.head? ≠ some 43) ∨ sign = [43] ∨ sign = [45]) :
    strtol 10 s = if (u.takeWhile (isDigit 10)).isEmpty then (0, cStr s)
      else (clampLong (if sign = [45] then -(number 10 (u.takeWhile (isDigit 10)) : ℤ)
        else number 10 (u.takeWhile (isDigit 10))), u.drop (u.takeWhile (isDigit 10)).length) := by
  have hbase : ¬(10 : ℕ) = 16 := by decide
  rcases hsign with ⟨rfl, hminus, hplus⟩ | rfl | rfl
  · simp only [strtol, h, List.nil_append, hminus, hplus, or_self, if_false, if_neg hbase]
    simp
  · simp [strtol, h]
  · simp [strtol, h]

/-- What stands behind the white space of a number is no white space. -/
theorem dropWhile_numeral {spaces sign ds : Bytes} (hspaces : ∀ c ∈ spaces, isspace c = true)
    (hsign : sign = [] ∨ sign = [43] ∨ sign = [45]) (hne : ds ≠ [])
    (hds : ∀ c ∈ ds, isDigit 10 c = true) :
    (spaces ++ sign ++ ds ++ rest).dropWhile isspace = sign ++ (ds ++ rest) := by
  rw [List.append_assoc, List.append_assoc, List.dropWhile_append_of_pos hspaces]
  obtain ⟨c, ds, rfl⟩ := List.exists_cons_of_ne_nil hne
  have hc : isspace c = false := isspace_of_isDigit (by decide) (hds c (by simp))
  rcases hsign with rfl | rfl | rfl
  · simp [hc]
  · rw [List.singleton_append, List.dropWhile_cons_of_neg (by decide)]
  · rw [List.singleton_append, List.dropWhile_cons_of_neg (by decide)]

theorem head_ne_sign {ds : Bytes} (hne : ds ≠ []) (hds : ∀ c ∈ ds, isDigit 10 c = true) :
    (ds ++ rest).head? ≠ some 45 ∧ (ds ++ rest).head? ≠ some 43 := by
  obtain ⟨c, ds, rfl⟩ := List.exists_cons_of_ne_nil hne
  have hle := le_toNat_of_isDigit (by decide) (hds c (by simp))
  simp only [List.cons_append, List.head?_cons, ne_eq, Option.some.injEq]
  exact ⟨fun hc => absurd (hc ▸ hle) (by decide), fun hc => absurd (hc ▸ hle) (by decide)⟩

/-- `strtol` of a number, with what follows it. -/
theorem strtol_numeral (h : Numeral a v) (hrest : EndsDigits rest) :
    strtol 10 (a ++ rest) = (clampLong v, cStr rest) := by
  have hcut : cStr (a ++ rest) = a ++ cStr rest := cStr_append h.noNul
  obtain ⟨spaces, sign, ds, rfl, hspaces, hsign, hne, hds, rfl⟩ := h
  have hdigits : (ds ++ cStr rest).takeWhile (isDigit 10) = ds := by
    rw [List.takeWhile_append_of_pos hds, hrest.cStr.takeWhile, List.append_nil]
  have hempty : ds.isEmpty = false := by simpa using hne
  have hdrop := @dropWhile_numeral (cStr rest) spaces sign ds hspaces hsign hne hds
  rw [← hcut] at hdrop
  rw [strtol_signed hdrop (hsign.imp_left fun h => ⟨h, head_ne_sign hne hds⟩), hdigits,
    List.drop_left, if_neg (by simp [hne])]

/-- What `strtol` does not read as a number. -/
theorem numeral_or_strtol (s : Bytes) :
    (∃ a rest v, s = a ++ rest ∧ Numeral a v ∧ EndsDigits rest) ∨ strtol 10 s = (0, cStr s) := by
  have hnul : cStr s ++ s.dropWhile (· ≠ 0) = s := List.takeWhile_append_dropWhile
  have hspaces := List.takeWhile_append_dropWhile (p := isspace) (l := cStr s)
  obtain ⟨sign, u, hu, hsign⟩ : ∃ sign u, (cStr s).dropWhile isspace = sign ++ u ∧
      ((sign = [] ∧ u.head? ≠ some 45 ∧ u.head? ≠ some 43) ∨ sign = [43] ∨ sign = [45]) := by
    cases (cStr s).dropWhile isspace with
    | nil => exact ⟨[], [], rfl, .inl ⟨rfl, by simp, by simp⟩⟩
    | cons c t =>
      by_cases hplus : c = 43
      · exact ⟨[43], t, by simp [hplus], .inr (.inl rfl)⟩
      by_cases hminus : c = 45
      · exact ⟨[45], t, by simp [hminus], .inr (.inr rfl)⟩
      exact ⟨[], c :: t, rfl, .inl ⟨rfl, by simp [hminus], by simp [hplus]⟩⟩
  have hdigits := List.takeWhile_append_dropWhile (p := isDigit 10) (l := u)
  by_cases hempty : u.takeWhile (isDigit 10) = []
  · right
    rw [strtol_signed hu hsign, hempty, List.isEmpty_nil, if_pos rfl]
  · left
    refine ⟨(cStr s).takeWhile isspace ++ sign ++ u.takeWhile (isDigit 10),
      u.dropWhile (isDigit 10) ++ s.dropWhile (· ≠ 0), _, ?_,
      ⟨_, sign, _, rfl, ?_, ?_, hempty, ?_, rfl⟩, ?_⟩
    · rw [← List.append_assoc, List.append_assoc _ _ (u.dropWhile _), hdigits,
        List.append_assoc _ sign, ← hu, hspaces, hnul]
    · exact fun c hc => List.mem_takeWhile_imp hc
    · exact hsign.imp_left And.left
    · exact fun c hc => List.mem_takeWhile_imp hc
    · refine (endsDigits_dropWhile (fun c hc => hc) u).append (endsDigits_dropWhile ?_ s)
      intro c hc
      obtain rfl : c = 0 := by simpa using hc
      decide

theorem clampLong_of_isInt (h : IsInt v) : clampLong v = v := by
  unfold clampLong
  obtain ⟨hlow, hhigh⟩ := h
  omega

theorem isInt_clampLong : IsInt (clampLong v) ↔ IsInt v := by
  unfold clampLong IsInt
  omega

/-- `std::stoi` of a number, with what follows it. -/
theorem stoi_numeral (h : Numeral a v) (hrest : EndsDigits rest) :
    stoi (a ++ rest) = if IsInt v then .ok (v, a.length) else .error .outOfRange := by
  have hlength : (cStr (a ++ rest)).length = a.length + (cStr rest).length := by
    rw [cStr_append h.noNul, List.length_append]
  have hpos : 0 < a.length := List.length_pos_iff.2 h.ne_nil
  rw [stoi, strtol_numeral h hrest]
  dsimp only
  rw [hlength, if_neg (by omega), Nat.add_sub_cancel]
  by_cases hint : IsInt v
  · rw [if_pos (isInt_clampLong.2 hint), if_pos hint, clampLong_of_isInt hint]
  · rw [if_neg (mt isInt_clampLong.1 hint), if_neg hint]

/-- What `std::stoi` does not read as a number. -/
theorem numeral_or_stoi (s : Bytes) :
    (∃ a rest v, s = a ++ rest ∧ Numeral a v ∧ EndsDigits rest) ∨
      stoi s = .error (.invalidArgument (ascii "stoi")) := by
  refine (numeral_or_strtol s).imp_right fun h => ?_
  rw [stoi, h]
  dsimp only
  rw [if_pos rfl]

end Numeral

end Text
