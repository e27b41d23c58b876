import Logfile.Numbers

/-!
# The colours of the terminal

`init_colors` of `output_stream_stdout`, which the constructor of the default sink calls.

`std::stoi` throws `std::out_of_range` where a number does not fit in an `int`, and only
`std::invalid_argument` is caught. So the choice fails exactly at the values of `COLORFGBG` with
such a number, and for every other environment the light table is the one that is wanted
(`choosesColors_iff`).
-/

namespace Logfile

open Text

/-! ## The environment -/

/-- A string that `getenv` finds. -/
structure EnvString where
  chars : Bytes
  noNul : 0 ∉ chars

/-- The variables that are read, `none` for one that is not set. -/
structure Environment where
  term : Option EnvString
  colorfgbg : Option EnvString

/-- The tables that `m_colors` can point to : `s_colors`, `s_colors256dark` and
`s_colors256light`. -/
inductive Colors
  | basic
  | dark256
  | light256
  deriving DecidableEq

/-! ## The choice -/

/-- The `try` block : what `m_colors` is at its end. -/
def readColorfgbg (fgbg : Bytes) : Except Exn Colors := do
  let (colorFg, next) ← stoi fgbg
  -- only one integer
  if next = fgbg.length then return .dark256
  -- ';'
  if fgbg[next]? ≠ some 59 then return .dark256
  if colorFg < 0 then return .dark256
  let bg ← substrFrom fgbg (next + 1)
  let (colorBg, next) ← stoi bg
  -- more than one integer
  if next ≠ bg.length then return .dark256
  if colorBg < 0 then return .dark256
  if colorBg = 7 ∨ colorBg > 9 then return .light256
  return .dark256

/-- `init_colors` -/
def initColors (env : Environment) : Except Exn Colors :=
  match env.term with
  | none => .ok .basic
  | some term =>
    if 9 > term.chars.length ∨
        (term.chars.drop (term.chars.length - 9)).take 9 ≠ ascii "-256color" then .ok .basic
    else
      match env.colorfgbg with
      | none => .ok .dark256
      | some fgbg =>
        match readColorfgbg fgbg.chars with
        -- an invalid variable is ignored
        | .error (.invalidArgument _) => .ok .dark256
        | r => r

/-! ## What is asked of it -/

/-- A terminal with 256 colours. -/
def Environment.Has256 (env : Environment) : Prop :=
  ∃ term, env.term = some term ∧ ascii "-256color" <:+ term.chars

/-- Two colours of type `int`, the second of which is light. -/
def LightBackground (fgbg : Bytes) : Prop :=
  ∃ a b v w, fgbg = a ++ 59 :: b ∧ Numeral a v ∧ IsInt v ∧ 0 ≤ v ∧
    Numeral b w ∧ IsInt w ∧ 0 ≤ w ∧ (w = 7 ∨ w > 9)

/-- A table is chosen in any case, and it is the light one for 256 colours on a light
background. -/
structure ChoosesColors (env : Environment) : Prop where
  returns : ∃ colors, initColors env = .ok colors
  light : initColors env = .ok .light256 ↔
    env.Has256 ∧ ∃ fgbg, env.colorfgbg = some fgbg ∧ LightBackground fgbg.chars

/-- The first number does not fit in an `int`, or it is a colour and the number behind the ';'
does not. -/
def TooLarge (fgbg : Bytes) : Prop :=
  (∃ a rest v, fgbg = a ++ rest ∧ Numeral a v ∧ EndsDigits rest ∧ ¬IsInt v) ∨
    ∃ a b rest v w, fgbg = a ++ 59 :: (b ++ rest) ∧ Numeral a v ∧ IsInt v ∧ 0 ≤ v ∧
      Numeral b w ∧ EndsDigits rest ∧ ¬IsInt w

/-! ## The two numbers -/

section Numbers

variable {a b rest fgbg : Bytes} {v w : ℤ} {e : Exn}

theorem endsDigits_semicolon (rest : Bytes) : EndsDigits (59 :: rest) := by
  intro c hc
  obtain rfl := Option.some.inj hc
  decide

/-- Behind a first colour and the ';' stands the second. -/
theorem readColorfgbg_colour (h : Numeral a v) (hint : IsInt v) (hv : 0 ≤ v) :
    readColorfgbg (a ++ 59 :: rest) = (do
      let (colorBg, next) ← stoi rest
      if next ≠ rest.length then return .dark256
      if colorBg < 0 then return .dark256
      if colorBg = 7 ∨ colorBg > 9 then return .light256
      return .dark256) := by
  have hsub : substrFrom (a ++ 59 :: rest) (a.length + 1) = .ok rest := by
    rw [List.append_cons, substrFrom_append _ _ (by simp)]
  rw [readColorfgbg, stoi_numeral h (endsDigits_semicolon rest), if_pos hint]
  simp only [ok_bind]
  rw [if_neg (by simp), if_neg (by simp), if_neg (not_lt.2 hv), hsub]
  rfl

theorem readColorfgbg_light (h : LightBackground fgbg) : readColorfgbg fgbg = .ok .light256 := by
  obtain ⟨a, b, v, w, rfl, ha, hv, hv0, hb, hw, hw0, hlight⟩ := h
  have hstoi : stoi b = .ok (w, b.length) := by
    have h := @stoi_numeral b [] w hb (fun c hc => by cases hc)
    rwa [List.append_nil, if_pos hw] at h
  rw [readColorfgbg_colour ha hv hv0, hstoi]
  simp only [ok_bind]
  rw [if_neg (by simp), if_neg (not_lt.2 hw0), if_pos hlight]
  rfl

theorem readColorfgbg_tooLarge (h : TooLarge fgbg) : readColorfgbg fgbg = .error .outOfRange := by
  rcases h with ⟨a, rest, v, rfl, ha, hrest, hv⟩ |
    ⟨a, b, rest, v, w, rfl, ha, hv, hv0, hb, hrest, hw⟩
  · rw [readColorfgbg, stoi_numeral ha hrest, if_neg hv]
    rfl
  · rw [readColorfgbg_colour ha hv hv0, stoi_numeral hb hrest, if_neg hw]
    rfl

/-- Where the second number is not too large. -/
theorem readColorfgbg_second (ha : Numeral a v) (hv : IsInt v) (hv0 : 0 ≤ v)
    (h : ¬TooLarge (a ++ 59 :: rest)) :
    LightBackground (a ++ 59 :: rest) ∨ readColorfgbg (a ++ 59 :: rest) = .ok .dark256 ∨
      ∃ what, readColorfgbg (a ++ 59 :: rest) = .error (.invalidArgument what) := by
  rcases numeral_or_stoi rest with ⟨b, more, w, rfl, hb, hmore⟩ | hno
  · have hw : IsInt w := by
      by_contra hw
      exact h (.inr ⟨a, b, more, v, w, rfl, ha, hv, hv0, hb, hmore, hw⟩)
    rw [readColorfgbg_colour ha hv hv0, stoi_numeral hb hmore, if_pos hw]
    simp only [ok_bind]
    cases more with
    | cons c more =>
      right; left
      rw [if_pos (by simp)]
      rfl
    | nil =>
      rw [List.append_nil, if_neg (by simp)]
      by_cases hw0 : w < 0
      · right; left
        rw [if_pos hw0]
        rfl
      by_cases hlight : w = 7 ∨ w > 9
      · exact .inl ⟨a, b, v, w, rfl, ha, hv, hv0, hb, hw, not_lt.1 hw0, hlight⟩
      · right; left
        rw [if_neg hw0, if_neg hlight]
        rfl
  · right; right
    exact ⟨_, by rw [readColorfgbg_colour ha hv hv0, hno]; rfl⟩

/-- Where no number is too large, only the light background gives the light table, and no other
exception is thrown than the one that is caught. -/
theorem readColorfgbg_cases (h : ¬TooLarge fgbg) :
    LightBackground fgbg ∨ readColorfgbg fgbg = .ok .dark256 ∨
      ∃ what, readColorfgbg fgbg = .error (.invalidArgument what) := by
  rcases numeral_or_stoi fgbg with ⟨a, rest, v, rfl, ha, hrest⟩ | hno
  · have hv : IsInt v := by
      by_contra hv
      exact h (.inl ⟨a, rest, v, rfl, ha, hrest, hv⟩)
    cases rest with
    | nil =>
      right; left
      rw [readColorfgbg, stoi_numeral ha hrest, if_pos hv]
      simp only [ok_bind]
      rw [if_pos (by simp)]
      rfl
    | cons c rest =>
      by_cases hc : c = 59
      · subst hc
        by_cases hv0 : v < 0
        · right; left
          rw [readColorfgbg, stoi_numeral ha hrest, if_pos hv]
          simp only [ok_bind]
          rw [if_neg (by simp), if_neg (by simp), if_pos hv0]
          rfl
        · exact readColorfgbg_second ha hv (not_lt.1 hv0) h
      · right; left
        rw [readColorfgbg, stoi_numeral ha hrest, if_pos hv]
        simp only [ok_bind]
        rw [if_neg (by simp), if_pos (by simpa using hc)]
        rfl
  · right; right
    exact ⟨_, by rw [readColorfgbg, hno]; rfl⟩

end Numbers

/-! ## Every environment -/

theorem suffix_iff_compare {pat : Bytes} (hpat : pat.length = 9) (term : Bytes) :
    pat <:+ term ↔ ¬(9 > term.length ∨ (term.drop (term.length - 9)).take 9 ≠ pat) := by
  rw [not_or, not_not, not_lt]
  constructor
  · rintro ⟨front, rfl⟩
    have hlength : (front ++ pat).length - 9 = front.length := by simp [hpat]
    refine ⟨by simp [hpat], ?_⟩
    rw [hlength, List.drop_left, List.take_of_length_le hpat.le]
  · rintro ⟨hlength, heq⟩
    have hwhole : (term.drop (term.length - 9)).length ≤ 9 := by
      rw [List.length_drop]
      omega
    rw [List.take_of_length_le hwhole] at heq
    exact heq ▸ List.drop_suffix _ _

section Environment

variable {env : Environment} {term fgbg : EnvString}

/-- Without 256 colours `COLORFGBG` is not read. -/
theorem initColors_basic (h : ¬env.Has256) : initColors env = .ok .basic := by
  unfold initColors
  cases hterm : env.term with
  | none => rfl
  | some term =>
    refine if_pos ?_
    by_contra hno
    exact h ⟨term, hterm, (suffix_iff_compare (by decide) _).2 hno⟩

theorem initColors_256 (h : env.Has256) :
    initColors env =
      match env.colorfgbg with
      | none => .ok .dark256
      | some fgbg =>
        match readColorfgbg fgbg.chars with
        | .error (.invalidArgument _) => .ok .dark256
        | r => r := by
  obtain ⟨term, hterm, hsuffix⟩ := h
  unfold initColors
  rw [hterm]
  exact if_neg ((suffix_iff_compare (by decide) _).1 hsuffix)

theorem initColors_colorfgbg (h : env.Has256) (hfgbg : env.colorfgbg = some fgbg) :
    initColors env =
      match readColorfgbg fgbg.chars with
      | .error (.invalidArgument _) => .ok .dark256
      | r => r := by
  rw [initColors_256 h, hfgbg]

end Environment

/-- The choice fails exactly if there are 256 colours and a number of `COLORFGBG` that is read is
too large. -/
theorem choosesColors_iff (env : Environment) :
    ChoosesColors env ↔
      ¬(env.Has256 ∧ ∃ fgbg, env.colorfgbg = some fgbg ∧ TooLarge fgbg.chars) := by
  constructor
  · rintro ⟨⟨colors, hcolors⟩, -⟩ ⟨h256, fgbg, hfgbg, hlarge⟩
    rw [initColors_colorfgbg h256 hfgbg, readColorfgbg_tooLarge hlarge] at hcolors
    cases hcolors
  · intro h
    by_cases h256 : env.Has256
    · cases hfgbg : env.colorfgbg with
      | none =>
        have hdark : initColors env = .ok .dark256 := by rw [initColors_256 h256, hfgbg]
        refine ⟨⟨_, hdark⟩, iff_of_false (fun hlight => ?_) ?_⟩
        · cases hdark.symm.trans hlight
        · rintro ⟨-, fgbg, hsome, -⟩
          cases hfgbg.symm.trans hsome
      | some fgbg =>
        have hnot : ¬TooLarge fgbg.chars := fun hlarge => h ⟨h256, fgbg, hfgbg, hlarge⟩
        have heq := initColors_colorfgbg h256 hfgbg
        by_cases hlight : LightBackground fgbg.chars
        · rw [readColorfgbg_light hlight] at heq
          exact ⟨⟨_, heq⟩, iff_of_true heq ⟨h256, fgbg, hfgbg, hlight⟩⟩
        · have hdark : initColors env = .ok .dark256 := by
            rcases readColorfgbg_cases hnot with hl | hread | ⟨what, hread⟩
            · exact absurd hl hlight
            · rw [heq, hread]
            · rw [heq, hread]
          refine ⟨⟨_, hdark⟩, iff_of_false (fun hl => ?_) ?_⟩
          · cases hdark.symm.trans hl
          · rintro ⟨-, fgbg', hsome, hl⟩
            obtain rfl := Option.some.inj (hfgbg.symm.trans hsome)
            exact hlight hl
    · have hbasic := initColors_basic h256
      refine ⟨⟨_, hbasic⟩, iff_of_false (fun hlight => ?_) fun hl => h256 hl.1⟩
      cases hbasic.symm.trans hlight

/-- A `COLORFGBG` with a number of eleven digits. -/
def largeColorfgbg : Environment where
  term := some ⟨ascii "xterm-256color", by decide⟩
  colorfgbg := some ⟨ascii "15;99999999999", by decide⟩

/-- The exception leaves the constructor of the default sink. -/
theorem large_colorfgbg_throws :
    initColors largeColorfgbg = .error .outOfRange ∧ ¬ChoosesColors largeColorfgbg := by
  have hthrows : initColors largeColorfgbg = .error .outOfRange := by decide +kernel
  refine ⟨hthrows, fun h => ?_⟩
  obtain ⟨colors, hcolors⟩ := h.returns
  cases hthrows.symm.trans hcolors

example : initColors { largeColorfgbg with colorfgbg := some ⟨ascii "0;15", by decide⟩ } =
    .ok .light256 := by
  decide +kernel

end Logfile
