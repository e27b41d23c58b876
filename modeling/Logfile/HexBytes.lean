import Logfile.ParseUrl

/-!
# Escaped bytes

`decode_hex_byte` accepts the texts that can be cut into a piece for each byte, and gives these
bytes (`decodeHexByte_exact`).

The loop stands here a second time, with its index and with every access to `_in` checked. It
ends with the same result, so that nothing behind the end is read.
-/

namespace Logfile

open Text

/-! ## The loop and its index -/

/-- The loop of `decode_hex_byte` from the index `i` on. There is no result when a character
behind the end of `_in` is read, or when the fuel runs out. -/
def decodeLoop (s : Bytes) : ℕ → ℕ → Bytes → Option (Except Exn Bytes)
  | 0, _, _ => none
  | fuel + 1, i, out =>
    if i < s.length then
      match s[i]? with
      | none => none
      | some c =>
        -- '%'
        if c = 37 then
          match substr s (i + 1) 2 with
          | .error e => some (.error e)
          | .ok escape =>
            if escape.length ≠ 2 then
              some (.error (.invalidArgument (ascii "Invalid escape sequence: %" ++ escape)))
            else if (findFirstNotOf escape (ascii "0123456789abcdefABCDEF")).isSome then
              some (.error (.invalidArgument (ascii "Invalid escape sequence: %" ++ escape)))
            -- `i += 2` and `++i`
            else decodeLoop s fuel (i + 2 + 1) (out ++ [UInt8.ofInt (strtol 16 escape).1])
        -- '+'
        else if c = 43 then decodeLoop s fuel (i + 1) (out ++ [32])
        else decodeLoop s fuel (i + 1) (out ++ [c])
    else some (.ok out)

theorem map_append_cons (out : Bytes) (c : Byte) (r : Except Exn Bytes) :
    (out ++ ·) <$> (c :: ·) <$> r = ((out ++ [c]) ++ ·) <$> r := by
  cases r with
  | error e => rfl
  | ok d => simp

/-- From the index behind `passed` on, the loop decodes the rest. -/
theorem decodeLoop_eq : ∀ {fuel : ℕ} (passed rest out : Bytes), rest.length < fuel →
    decodeLoop (passed ++ rest) fuel passed.length out =
      some ((out ++ ·) <$> decodeHexByte rest)
  | fuel + 1, passed, [], out, _ => by
    rw [decodeLoop, if_neg (by simp)]
    simp [decodeHexByte, decodeFrom]
  | fuel + 1, passed, c :: rest, out, hfuel => by
    have hin : passed.length < (passed ++ c :: rest).length := by simp
    have hget : (passed ++ c :: rest)[passed.length]? = some c := by simp
    have hcut : passed ++ c :: rest = (passed ++ [c]) ++ rest := by simp
    have hnext := fun out => @decodeLoop_eq fuel (passed ++ [c]) rest out
      (by simp at hfuel; omega)
    rw [← hcut, List.length_append, List.length_singleton] at hnext
    rw [decodeLoop, if_pos hin, hget]
    dsimp only
    by_cases hc : c = 37
    · subst hc
      have hsub : substr (passed ++ 37 :: rest) (passed.length + 1) 2 = .ok (rest.take 2) := by
        rw [hcut, substr, if_pos (by simp), List.drop_left' (by simp)]
      have hsub' : substr (37 :: rest) 1 2 = .ok (rest.take 2) := by simp [substr]
      rw [if_pos rfl, hsub, decodeHexByte, decodeFrom, if_pos rfl, hsub']
      simp only [ok_bind]
      by_cases hlen : (rest.take 2).length = 2
      · cases hbad : findFirstNotOf (rest.take 2) (ascii "0123456789abcdefABCDEF") with
        | some i => simp [hlen]
        | none =>
          obtain ⟨x, y, e, rfl⟩ : ∃ x y e, rest = x :: y :: e := by
            rcases rest with - | ⟨x, - | ⟨y, e⟩⟩
            · cases hlen
            · cases hlen
            · exact ⟨x, y, e, rfl⟩
          have hcut2 : passed ++ 37 :: x :: y :: e = (passed ++ [37, x, y]) ++ e := by simp
          have hskip := @decodeLoop_eq fuel (passed ++ [37, x, y]) e
            (out ++ [UInt8.ofInt (strtol 16 [x, y]).1]) (by simp at hfuel; omega)
          rw [← hcut2, List.length_append] at hskip
          rw [if_neg (not_not.2 hlen), if_neg (by simp)]
          refine hskip.trans ?_
          rw [← map_append_cons]
          simp only [decodeHexByte, decodeFrom, hlen, ne_eq, not_true_eq_false, if_false,
            Option.isSome_none, Bool.false_eq_true]
          cases decodeFrom 0 e with
          | error what => rfl
          | ok d => rfl
      · rw [if_pos hlen, if_pos hlen]
        rfl
    · rw [if_neg hc]
      by_cases hplus : c = 43
      · subst hplus
        rw [if_pos rfl, hnext, decode_plus, map_append_cons]
      · rw [if_neg hplus, hnext, decode_plain rest hc hplus, map_append_cons]

/-! ## Pieces -/

/-- A piece of a text that stands for the byte `c`. -/
inductive EscapeOf (c : Byte) : Bytes → Prop
  | plain : c ≠ 37 → c ≠ 43 → EscapeOf c [c]
  | plus : c = 32 → EscapeOf c [43]
  | hex {x y} : isDigit 16 x = true → isDigit 16 y = true → 16 * digit x + digit y = c.toNat →
      EscapeOf c [37, x, y]

/-- The text `e` can be cut into a piece for each byte of `d`. -/
def Encodes (e d : Bytes) : Prop :=
  ∃ pieces : List Bytes, e = pieces.flatten ∧ List.Forall₂ EscapeOf d pieces

theorem toNat_hex {x y : Byte} (hx : isDigit 16 x = true) (hy : isDigit 16 y = true) :
    (UInt8.ofNat (16 * digit x + digit y)).toNat = 16 * digit x + digit y := by
  have hx' : digit x < 16 := of_decide_eq_true hx
  have hy' : digit y < 16 := of_decide_eq_true hy
  rw [UInt8.toNat_ofNat']
  omega

theorem Escaped.encodes {e d : Bytes} (h : Escaped e d) : Encodes e d := by
  have hcons : ∀ {piece e d : Bytes} {c : Byte}, EscapeOf c piece → Encodes e d →
      Encodes (piece ++ e) (c :: d) := by
    rintro piece e d c hpiece ⟨pieces, rfl, hall⟩
    exact ⟨piece :: pieces, by simp, .cons hpiece hall⟩
  induction h with
  | nil => exact ⟨[], rfl, .nil⟩
  | plain hc hc' _ ih => exact hcons (.plain hc hc') ih
  | plus _ ih => exact hcons (.plus rfl) ih
  | hex hx hy _ ih => exact hcons (.hex hx hy (toNat_hex hx hy).symm) ih

theorem Encodes.escaped {e d : Bytes} (h : Encodes e d) : Escaped e d := by
  obtain ⟨pieces, rfl, hall⟩ := h
  induction hall with
  | nil => exact .nil
  | @cons c piece d pieces hpiece _ ih =>
    rw [List.flatten_cons]
    cases hpiece with
    | plain hc hc' => exact .plain hc hc' ih
    | plus hc =>
      rw [hc]
      exact .plus ih
    | hex hx hy hvalue =>
      have hc : c = UInt8.ofNat _ := UInt8.toNat_inj.1 (hvalue.symm.trans (toNat_hex hx hy).symm)
      rw [hc]
      exact .hex hx hy ih

/-- An encoder that escapes at least '%' and '+'. What it does with a byte may depend on where
the byte stands. -/
structure Encoder where
  encode : Bytes → Bytes
  encodes : ∀ d, Encodes (encode d) d

/-- The digit with the value `n`. -/
def hexDigit (n : ℕ) : Byte :=
  UInt8.ofNat (if n < 10 then 48 + n else 55 + n)

theorem escapeOf_hexDigit (c : Byte) :
    EscapeOf c [37, hexDigit (c.toNat / 16), hexDigit (c.toNat % 16)] := by
  have hdigit : ∀ n < 16, isDigit 16 (hexDigit n) = true ∧ digit (hexDigit n) = n := by decide
  obtain ⟨hx, hxv⟩ := hdigit (c.toNat / 16) (by have := c.toNat_lt; omega)
  obtain ⟨hy, hyv⟩ := hdigit (c.toNat % 16) (Nat.mod_lt _ (by decide))
  exact .hex hx hy (by rw [hxv, hyv]; omega)

/-- Every byte is escaped. -/
def Encoder.full : Encoder where
  encode d := d.flatMap fun c => [37, hexDigit (c.toNat / 16), hexDigit (c.toNat % 16)]
  encodes d := by
    refine ⟨d.map fun c => [37, hexDigit (c.toNat / 16), hexDigit (c.toNat % 16)], rfl, ?_⟩
    rw [List.forall₂_map_right_iff, List.forall₂_same]
    exact fun c _ => escapeOf_hexDigit c

/-- `decode_hex_byte` gives the bytes that a text has a piece for, and throws
`std::invalid_argument` if the text cannot be cut into pieces. It undoes every encoder, and it
reads nothing behind the end. -/
theorem decodeHexByte_exact (e : Bytes) :
    (∀ d, decodeHexByte e = .ok d ↔ Encodes e d) ∧
      ((∃ what, decodeHexByte e = .error (.invalidArgument what)) ↔ ∀ d, ¬Encodes e d) ∧
      (∀ (enc : Encoder) d, decodeHexByte (enc.encode d) = .ok d) ∧
      decodeLoop e (e.length + 1) 0 [] = some (decodeHexByte e) := by
  have hok : ∀ e d, decodeHexByte e = .ok d ↔ Encodes e d := fun e d =>
    decode_eq_ok_iff.trans ⟨Escaped.encodes, Encodes.escaped⟩
  refine ⟨hok e, ⟨?_, fun hno => ?_⟩, fun enc d => (hok _ d).2 (enc.encodes d), ?_⟩
  · rintro ⟨what, hwhat⟩ d hd
    cases hwhat.symm.trans ((hok e d).2 hd)
  · rcases escaped_or_rejected e with ⟨d, hd⟩ | hrejected
    · exact absurd hd.encodes (hno d)
    · exact hrejected
  · have h := @decodeLoop_eq (e.length + 1) [] e [] (Nat.lt_succ_self _)
    simpa using h

example : decodeHexByte (Encoder.full.encode (ascii "50% + x")) = .ok (ascii "50% + x") := by
  decide +kernel

end Logfile
