import Logfile.ParseUrl

/-!
# The documented form of a URL

`UrlText` is a URL by its parts, `[p ://] [l : w @] h [: n] [/ q]`. On its text the stages of
`parse_URL` find the parts (`parseParts_text`), so a URL of the documented form is parsed
into them when they are valid and rejected otherwise (`parseURL_documented`).

The login separator '@' is searched in the whole URL. An '@' in the path therefore turns
the host into a login (`path_as_authority`); without one the path has no influence on the
rest (`parseURL_path`).
-/

namespace Logfile

open Text

/-! ## Computations that return or reject -/

/-- The computation returns a value with the property `P` if `V`, and else throws
`invalid_argument`. -/
def Answers {α : Type} (V : Prop) (P : α → Prop) (x : Except Exn α) : Prop :=
  (V → ∃ a, x = .ok a ∧ P a) ∧ (¬V → ∃ what, x = .error (.invalidArgument what))

section Answers

variable {α β : Type} {V V' : Prop} {P R : α → Prop} {Q : β → Prop} {x : Except Exn α}
  {f : α → Except Exn β}

theorem Answers.ok {a : α} (h : P a) : Answers True P (.ok a) :=
  ⟨fun _ => ⟨a, rfl, h⟩, fun h => (h trivial).elim⟩

theorem Answers.bind (hx : Answers V P x) (hf : ∀ a, P a → Answers V' Q (f a)) :
    Answers (V ∧ V') Q (x >>= f) := by
  by_cases hV : V
  · obtain ⟨a, rfl, ha⟩ := hx.1 hV
    refine ⟨fun h => (hf a ha).1 h.2, fun h => (hf a ha).2 fun hV' => h ⟨hV, hV'⟩⟩
  · obtain ⟨what, rfl⟩ := hx.2 hV
    exact ⟨fun h => (hV h.1).elim, fun _ => ⟨what, rfl⟩⟩

theorem Answers.congr (hx : Answers V P x) (hV : V' ↔ V) (hP : ∀ a, P a → R a) :
    Answers V' R x := by
  rw [← propext hV] at hx
  refine ⟨fun h => ?_, hx.2⟩
  obtain ⟨a, rfl, ha⟩ := hx.1 h
  exact ⟨a, rfl, hP a ha⟩

theorem Answers.map {g : α → β} (hx : Answers V P x) (hg : ∀ a, P a → Q (g a)) :
    Answers V Q (x >>= fun a => .ok (g a)) := by
  have h := hx.bind fun a ha => Answers.ok (P := Q) (hg a ha)
  rwa [and_true] at h

end Answers

theorem answers_decode (e : Bytes) : Answers (∃ d, Escaped e d) (Escaped e) (decodeHexByte e) := by
  refine ⟨fun ⟨d, hd⟩ => ⟨d, decode_of_escaped hd, hd⟩, fun h => ?_⟩
  exact (escaped_or_rejected e).resolve_left h

instance (e : Bytes) : Decidable (∃ d, Escaped e d) :=
  decidable_of_iff ((decodeHexByte e).isOk = true) <| by
    cases h : decodeHexByte e with
    | ok d => exact ⟨fun _ => ⟨d, decode_eq_ok_iff.1 h⟩, fun _ => rfl⟩
    | error x =>
      refine ⟨nofun, fun ⟨d, hd⟩ => ?_⟩
      cases h.symm.trans (decode_of_escaped hd)

/-- A port is one to five decimal digits, and its value fits and is not zero. -/
structure ValidPort (t : Bytes) : Prop where
  ne_nil : t ≠ []
  length : t.length ≤ 5
  digits : ∀ c ∈ t, isDigit 10 c = true
  pos : 1 ≤ number 10 t
  le : number 10 t ≤ 65535

instance (t : Bytes) : Decidable (ValidPort t) :=
  decidable_of_iff (t ≠ [] ∧ t.length ≤ 5 ∧ (∀ c ∈ t, isDigit 10 c = true) ∧
      1 ≤ number 10 t ∧ number 10 t ≤ 65535)
    ⟨fun h => ⟨h.1, h.2.1, h.2.2.1, h.2.2.2.1, h.2.2.2.2⟩,
      fun h => ⟨h.ne_nil, h.length, h.digits, h.pos, h.le⟩⟩

theorem answers_port (t : Bytes) :
    Answers (ValidPort t) (fun p => p.toNat = number 10 t) (parsePort t) := by
  have hdigits : (findFirstNotOf t (ascii "0123456789")).isSome = false ↔
      ∀ c ∈ t, isDigit 10 c = true := by
    simp only [Option.isSome_eq_false_iff, Option.isNone_iff_eq_none, findFirstNotOf,
      List.findIdx?_eq_none_iff, contains_decDigits]
    simp
  refine ⟨fun h => ?_, fun h => ?_⟩
  · have hatoi := atoi_digits h.ne_nil h.length h.digits
    refine ⟨UInt16.ofNat (number 10 t), ?_, ?_⟩
    · have hguard : ¬(t.length > 5 ∨ (findFirstNotOf t (ascii "0123456789")).isSome ∨
          atoi t < 1 ∨ atoi t > 65535) := by
        have hlen := h.length
        have hpos := h.pos
        have hle := h.le
        rw [hdigits.2 h.digits, hatoi]
        simp
        omega
      simp only [parsePort]
      rw [if_neg hguard, hatoi, ofInt_natCast_uint16]
      rfl
    · have := h.le
      simp only [UInt16.toNat_ofNat']
      omega
  · have hguard : t.length > 5 ∨ (findFirstNotOf t (ascii "0123456789")).isSome ∨
        atoi t < 1 ∨ atoi t > 65535 := by
      by_contra hno
      simp only [not_or, Bool.not_eq_true, not_lt] at hno
      obtain ⟨hlen, hdig, hpos, hle⟩ := hno
      have hdig := hdigits.1 hdig
      have hne : t ≠ [] := by
        rintro rfl
        exact absurd hpos (by decide)
      rw [atoi_digits hne hlen hdig] at hpos hle
      exact h ⟨hne, hlen, hdig, by omega, by omega⟩
    exact ⟨_, if_pos hguard⟩

/-! ## A URL by its parts -/

/-- The parts of a URL; the login comes with the password. -/
structure UrlText where
  protocol : Option Bytes
  login : Option (Bytes × Bytes)
  host : Bytes
  port : Option Bytes
  path : Option Bytes

namespace UrlText

variable {u : UrlText} {ret : URLInfo}

def protocolText (u : UrlText) : Bytes :=
  u.protocol.elim [] (· ++ ascii "://")

def loginText (u : UrlText) : Bytes :=
  u.login.elim [] fun (l, w) => l ++ 58 :: (w ++ [64])

def addressText (u : UrlText) : Bytes :=
  u.host ++ behind 58 u.port ++ behind 47 u.path

/-- `[p ://] [l : w @] h [: n] [/ q]` -/
def text (u : UrlText) : Bytes :=
  u.protocolText ++ (u.loginText ++ u.addressText)

/-- No part contains a separator that would end it or be taken for an earlier one. -/
structure Documented (u : UrlText) : Prop where
  protocol : ∀ p ∈ u.protocol, ¬ascii "://" <:+: p
  bare : u.protocol = none → ¬ascii "://" <:+: u.text
  login : ∀ lw ∈ u.login, lw.1 ≠ [] ∧ 58 ∉ lw.1 ∧ 64 ∉ lw.1 ∧ 64 ∉ lw.2
  host : u.host ≠ [] ∧ 58 ∉ u.host ∧ 47 ∉ u.host ∧ 64 ∉ u.host
  port : ∀ n ∈ u.port, 47 ∉ n ∧ 64 ∉ n
  path : ∀ q ∈ u.path, 64 ∉ q

/-- Login, password and path are escaped correctly and the port is a port. -/
structure Valid (u : UrlText) : Prop where
  login : ∀ lw ∈ u.login, (∃ d, Escaped lw.1 d) ∧ ∃ d, Escaped lw.2 d
  port : ∀ n ∈ u.port, ValidPort n
  path : ∀ q ∈ u.path, ∃ d, Escaped q d

/-- The fields say what the parts say; those of absent parts are as before. -/
structure Sets (u : UrlText) (init r : URLInfo) : Prop where
  protocol : r.protocol = u.protocol.getD init.protocol
  login : ∀ l w, u.login = some (l, w) → Escaped l r.login ∧ Escaped w r.password
  noLogin : u.login = none → r.login = init.login ∧ r.password = init.password
  host : r.host = u.host
  port : ∀ n, u.port = some n → r.port.toNat = number 10 n
  noPort : u.port = none → r.port = init.port
  path : ∀ q, u.path = some q → Escaped q r.path
  noPath : u.path = none → r.path = init.path

/-! ## The stages on the text -/

theorem not_mem_behind {c s : Byte} {part : Option Bytes} (hc : c ≠ s)
    (h : ∀ t ∈ part, c ∉ t) : c ∉ behind s part := by
  cases part with
  | none => exact List.not_mem_nil
  | some t => simpa [behind, hc] using h t rfl

def assignLogin (u : UrlText) (ret : URLInfo) : Except Exn URLInfo :=
  u.login.elim (.ok ret) fun (l, w) => do
    let login ← decodeHexByte l
    let password ← decodeHexByte w
    return { ret with login, password }

def assignPath (u : UrlText) (ret : URLInfo) : Except Exn URLInfo :=
  u.path.elim (.ok ret) fun q => do
    let path ← decodeHexByte q
    return { ret with path }

def assignAddress (u : UrlText) (ret : URLInfo) : Except Exn URLInfo :=
  u.port.elim (.ok { ret with host := u.host }) fun n => do
    let port ← parsePort n
    return { ret with host := u.host, port }

theorem parseProtocol_text (hu : u.Documented) : parseProtocol u.text ret =
    .ok ({ ret with protocol := u.protocol.getD ret.protocol }, u.protocolText.length) := by
  cases hp : u.protocol with
  | none =>
    rw [parseProtocol_none (hu.bare hp)]
    simp [protocolText, hp]
  | some p =>
    have htext : u.text = p ++ ascii "://" ++ (u.loginText ++ u.addressText) := by
      rw [text, protocolText, hp]
      rfl
    rw [htext, parseProtocol_some (hu.protocol p hp)]
    simp [protocolText, hp]

theorem parseLogin_text (hu : u.Documented) : parseLogin u.text u.protocolText.length ret = (do
    let ret ← u.assignLogin ret
    return (ret, (u.protocolText ++ u.loginText).length)) := by
  rw [text, assignLogin]
  cases hl : u.login with
  | none =>
    have hat : (64 : Byte) ∉ u.loginText ++ u.addressText := by
      have hport := not_mem_behind (s := 58) (by decide) fun n hn => (hu.port n hn).2
      have hpath := not_mem_behind (s := 47) (by decide) hu.path
      simp [loginText, hl, addressText, hu.host, hport, hpath]
    rw [parseLogin_none _ hat]
    simp [loginText, hl]
  | some lw =>
    obtain ⟨l, w⟩ := lw
    obtain ⟨hne, hcolon, hat, hat'⟩ := hu.login (l, w) hl
    have htext : u.loginText ++ u.addressText = l ++ 58 :: (w ++ 64 :: u.addressText) := by
      simp [loginText, hl]
    have hlen : u.protocolText ++ (l ++ 58 :: (w ++ [64])) = u.protocolText ++ u.loginText := by
      simp [loginText, hl]
    rw [htext, parseLogin_some _ _ hne hcolon hat hat', hlen]
    simp only [Option.elim_some, bind_assoc, pure_eq_ok, ok_bind]

theorem parseAddress_text (hu : u.Documented) :
    parseAddress u.text (u.protocolText ++ u.loginText).length ret =
      u.assignPath ret >>= u.assignAddress := by
  obtain ⟨hne, hcolon, hslash, -⟩ := hu.host
  rw [text, ← List.append_assoc, addressText,
    parseAddress_eq _ hne hcolon hslash fun n hn => (hu.port n hn).1]
  rfl

/-- On the text of its parts the parser finds the parts. -/
theorem parseParts_text (hu : u.Documented) : parseParts u.text ret = (do
    let ret ← u.assignLogin { ret with protocol := u.protocol.getD ret.protocol }
    let ret ← u.assignPath ret
    u.assignAddress ret) := by
  rw [parseParts, parseProtocol_text hu]
  simp only [ok_bind]
  rw [parseLogin_text hu]
  simp only [bind_assoc, pure_eq_ok, ok_bind]
  simp only [parseAddress_text hu]

/-! ## The result -/

theorem answers_assignLogin (u : UrlText) (ret : URLInfo) :
    Answers (∀ lw ∈ u.login, (∃ d, Escaped lw.1 d) ∧ ∃ d, Escaped lw.2 d)
      (fun r => (∀ l w, u.login = some (l, w) → Escaped l r.login ∧ Escaped w r.password) ∧
        (u.login = none → r.login = ret.login ∧ r.password = ret.password) ∧
        r = { ret with login := r.login, password := r.password })
      (u.assignLogin ret) := by
  unfold assignLogin
  cases u.login with
  | none => simpa using Answers.ok (a := ret) (by simp)
  | some lw =>
    obtain ⟨l, w⟩ := lw
    have h := (answers_decode l).bind (f := fun login => do
      let password ← decodeHexByte w
      return { ret with login, password })
      (Q := fun r => (Escaped l r.login ∧ Escaped w r.password) ∧
        r = { ret with login := r.login, password := r.password })
      fun login hlogin => (answers_decode w).map fun password hpassword =>
        ⟨⟨hlogin, hpassword⟩, rfl⟩
    simpa using h

theorem answers_assignPath (u : UrlText) (ret : URLInfo) :
    Answers (∀ q ∈ u.path, ∃ d, Escaped q d)
      (fun r => (∀ q, u.path = some q → Escaped q r.path) ∧
        (u.path = none → r.path = ret.path) ∧ r = { ret with path := r.path })
      (u.assignPath ret) := by
  unfold assignPath
  cases u.path with
  | none => simpa using Answers.ok (a := ret) (by simp)
  | some q =>
    have h := (answers_decode q).map (g := fun path => { ret with path })
      (Q := fun r => Escaped q r.path ∧ r = { ret with path := r.path }) fun path hpath =>
        ⟨hpath, rfl⟩
    simpa using h

theorem answers_assignAddress (u : UrlText) (ret : URLInfo) :
    Answers (∀ n ∈ u.port, ValidPort n)
      (fun r => r.host = u.host ∧ (∀ n, u.port = some n → r.port.toNat = number 10 n) ∧
        (u.port = none → r.port = ret.port) ∧ r = { ret with host := r.host, port := r.port })
      (u.assignAddress ret) := by
  unfold assignAddress
  cases u.port with
  | none =>
    exact (Answers.ok ⟨rfl, nofun, fun _ => rfl, rfl⟩).congr (iff_true_intro nofun) fun _ => id
  | some n =>
    have h := (answers_port n).map (g := fun port => { ret with host := u.host, port })
      (Q := fun r => r.host = u.host ∧ r.port.toNat = number 10 n ∧
        r = { ret with host := r.host, port := r.port }) fun port hport => ⟨rfl, hport, rfl⟩
    simpa using h

theorem answers_parseParts (hu : u.Documented) (init : URLInfo) :
    Answers u.Valid (u.Sets init) (parseParts u.text init) := by
  have h := (answers_assignLogin u { init with protocol := u.protocol.getD init.protocol }).bind
    fun r₁ h₁ => (answers_assignPath u r₁).bind fun r₂ h₂ =>
      (answers_assignAddress u r₂).congr (R := u.Sets init) Iff.rfl fun r h₃ => ?_
  · rw [parseParts_text hu]
    refine h.congr ⟨fun h => ⟨h.login, h.path, h.port⟩, fun h => ⟨h.1, h.2.2, h.2.1⟩⟩ fun _ => id
  · obtain ⟨hlogin, hnologin, heq₁⟩ := h₁
    obtain ⟨hpath, hnopath, heq₂⟩ := h₂
    obtain ⟨hhost, hport, hnoport, heq₃⟩ := h₃
    rw [heq₂, heq₁] at heq₃ hnoport
    rw [heq₁] at hnopath
    exact {
      protocol := by rw [heq₃]
      login := by rw [heq₃]; exact hlogin
      noLogin := by rw [heq₃]; exact hnologin
      host := hhost
      port := hport
      noPort := hnoport
      path := by rw [heq₃]; exact hpath
      noPath := by rw [heq₃]; exact hnopath }

end UrlText

/-- A URL of the documented form is parsed into its parts if these are valid. If they are
not, it is rejected and `_parts` is as before. -/
theorem parseURL_documented {u : UrlText} (hu : u.Documented) (init : URLInfo) :
    (u.Valid → ∃ r, parseURL u.text init = (.ok (), r) ∧ u.Sets init r) ∧
      (¬u.Valid →
        ∃ what, parseURL u.text init = (.error (.invalidArgument what), init)) := by
  obtain ⟨hvalid, hinvalid⟩ := UrlText.answers_parseParts hu init
  constructor
  · intro hv
    obtain ⟨r, hr, hsets⟩ := hvalid hv
    exact ⟨r, by rw [parseURL, hr], hsets⟩
  · intro hv
    obtain ⟨what, hw⟩ := hinvalid hv
    exact ⟨what, by rw [parseURL, hw]⟩

/-- A URL with all its parts. -/
def fullUrl : UrlText where
  protocol := some (ascii "stomp")
  login := some (ascii "a%41+", ascii "")
  host := ascii "broker"
  port := some (ascii "61613")
  path := some (ascii "LOG/x:y")

theorem parseURL_fullUrl : ∃ r, parseURL (ascii "stomp://a%41+:@broker:61613/LOG/x:y")
    ⟨[], [], [], [], 0, []⟩ = (.ok (), r) ∧ fullUrl.Sets ⟨[], [], [], [], 0, []⟩ r := by
  have hdoc : fullUrl.Documented := by
    constructor <;> decide
  have hvalid : fullUrl.Valid := by
    constructor <;> decide +kernel
  exact (parseURL_documented hdoc _).1 hvalid

/-! ## The path and the authority -/

/-- `p://h[:n]/q` -/
def pathUrl (p h : Bytes) (n : Option Bytes) (q : Bytes) : UrlText where
  protocol := some p
  login := none
  host := h
  port := n
  path := some q

theorem decode_ne_nil {e d : Bytes} (h : decodeHexByte e = .ok d) (he : e ≠ []) : d ≠ [] := by
  cases decode_eq_ok_iff.1 h with
  | nil => exact (he rfl).elim
  | _ => simp

/-- Once there is an '@', a URL that is accepted has a login. -/
theorem parseLogin_ne_nil {url : Bytes} {protoEnd pos k : ℕ} {ret r : URLInfo}
    (hat : find url (ascii "@") protoEnd = some pos)
    (h : parseLogin url protoEnd ret = .ok (r, k)) : r.login ≠ [] := by
  simp only [parseLogin, hat] at h
  split at h
  · cases h
  · next colon hcolon =>
    split at h
    · cases h
    · next hguard =>
      simp only [bind_eq_ok, pure_eq_ok, Except.ok.injEq, Prod.mk.injEq] at h
      obtain ⟨s, hsub, login, hlogin, -, -, password, -, rfl, -⟩ := h
      refine decode_ne_nil hlogin ?_
      simp only [find, Option.map_eq_some_iff] at hat hcolon
      obtain ⟨i, hi, -⟩ := hat
      obtain ⟨j, -, rfl⟩ := hcolon
      obtain ⟨x, y, hxy, -⟩ := exists_of_search hi
      simp only [substr] at hsub
      split at hsub
      · obtain rfl := Except.ok.inj hsub
        rw [ne_eq, List.take_eq_nil_iff, hxy]
        simp only [not_or] at hguard ⊢
        exact ⟨by omega, by simp [ascii]⟩
      · cases hsub

theorem parseAddress_login {url : Bytes} {k : ℕ} {ret r : URLInfo}
    (h : parseAddress url k ret = .ok r) : r.login = ret.login := by
  have hpath : ∀ slash ret₁, parsePath url slash ret = .ok ret₁ → ret₁.login = ret.login := by
    rintro (_ | slash) ret₁ h
    · obtain rfl := Except.ok.inj h
      rfl
    · simp only [parsePath, bind_eq_ok, pure_eq_ok, Except.ok.injEq] at h
      obtain ⟨s, -, path, -, rfl⟩ := h
      rfl
  have hhost : ∀ slash ret₁ ret₂, parseHost url k slash ret₁ = .ok ret₂ →
      ret₂.login = ret₁.login := by
    intro slash ret₁ ret₂ h
    unfold parseHost at h
    split at h
    · simp only [bind_eq_ok, pure_eq_ok, Except.ok.injEq] at h
      obtain ⟨host, -, rfl⟩ := h
      rfl
    · split at h
      · simp only [bind_eq_ok, pure_eq_ok, Except.ok.injEq] at h
        obtain ⟨host, -, rfl⟩ := h
        rfl
      · simp only [bind_eq_ok, pure_eq_ok, Except.ok.injEq] at h
        obtain ⟨port, -, host, -, p, -, rfl⟩ := h
        rfl
  simp only [parseAddress, bind_eq_ok, pure_eq_ok] at h
  obtain ⟨ret₁, h₁, ret₂, h₂, h⟩ := h
  split at h
  · simp at h
  · obtain rfl : ret₂ = r := by simpa using h
    rw [hhost _ _ _ h₂, hpath _ _ h₁]

/-- With an '@' behind the authority a URL is rejected or gives a login. -/
theorem login_ne_nil_of_at {p h q : Bytes} {n : Option Bytes} (hp : ¬ascii "://" <:+: p)
    (hq : 64 ∈ q) {init r : URLInfo} (hr : parseURL (pathUrl p h n q).text init = (.ok (), r)) :
    r.login ≠ [] := by
  have htext : (pathUrl p h n q).text = p ++ ascii "://" ++ (h ++ behind 58 n ++ 47 :: q) := rfl
  rw [htext, parseURL] at hr
  split at hr
  · next r' hparts =>
    obtain rfl : r' = r := (Prod.mk.inj hr).2
    simp only [parseParts, parseProtocol_some hp, ok_bind, bind_eq_ok] at hparts
    obtain ⟨⟨r₁, k⟩, hlogin, haddress⟩ := hparts
    have hat : ∃ pos, find (p ++ ascii "://" ++ (h ++ behind 58 n ++ 47 :: q)) (ascii "@")
        (p ++ ascii "://").length = some pos := by
      rw [find_append, ← Option.isSome_iff_exists, Option.isSome_map, Option.isSome_iff_ne_none,
        show ascii "@" = [64] from rfl, ne_eq, search_singleton_eq_none]
      simp [hq]
    obtain ⟨pos, hpos⟩ := hat
    rw [parseAddress_login haddress]
    exact parseLogin_ne_nil hpos hlogin
  · cases hr

theorem ValidPort.not_mem {t : Bytes} (ht : ValidPort t) {c : Byte} (hc : isDigit 10 c = false) :
    c ∉ t := by
  intro hmem
  rw [ht.digits c hmem] at hc
  cases hc

theorem pathUrl_documented {p h q : Bytes} {n : Option Bytes} (hp : ¬ascii "://" <:+: p)
    (hh : h ≠ [] ∧ 58 ∉ h ∧ 47 ∉ h ∧ 64 ∉ h) (hn : ∀ t ∈ n, ValidPort t) (hq : 64 ∉ q) :
    (pathUrl p h n q).Documented where
  protocol := by
    rintro _ ⟨⟩
    exact hp
  bare := nofun
  login := nofun
  host := hh
  port t ht := ⟨(hn t ht).not_mem (by decide), (hn t ht).not_mem (by decide)⟩
  path := by
    rintro _ ⟨⟩
    exact hq

/-- Exactly without an '@' in the path, a URL with a path and no login is parsed into
protocol, host, port and path, whatever `_parts` was. Two such paths give the same
authority. -/
theorem parseURL_path {p h q : Bytes} {n : Option Bytes} (hp : ¬ascii "://" <:+: p)
    (hh : h ≠ [] ∧ 58 ∉ h ∧ 47 ∉ h ∧ 64 ∉ h) (hn : ∀ t ∈ n, ValidPort t)
    (hq : ∃ d, Escaped q d) :
    ((∀ init, ∃ r, parseURL (pathUrl p h n q).text init = (.ok (), r) ∧
      (pathUrl p h n q).Sets init r) ↔ 64 ∉ q) ∧
    (64 ∉ q → ∀ q', (∃ d, Escaped q' d) → 64 ∉ q' → ∀ init r r',
      parseURL (pathUrl p h n q).text init = (.ok (), r) →
      parseURL (pathUrl p h n q').text init = (.ok (), r') →
      r'.host = r.host ∧ r'.port = r.port ∧ r'.login = r.login ∧ r'.password = r.password) := by
  have hparsed : ∀ q, (∃ d, Escaped q d) → 64 ∉ q → ∀ init,
      ∃ r, parseURL (pathUrl p h n q).text init = (.ok (), r) ∧ (pathUrl p h n q).Sets init r := by
    intro q hq hat init
    refine (parseURL_documented (pathUrl_documented hp hh hn hat) init).1 ⟨nofun, hn, ?_⟩
    rintro _ ⟨⟩
    exact hq
  refine ⟨⟨fun hall hat => ?_, hparsed q hq⟩, fun hat q' hq' hat' init r r' hr hr' => ?_⟩
  · -- an '@' gives a login, and there was none before
    obtain ⟨r, hr, hsets⟩ := hall ⟨[], [], [], [], 0, []⟩
    exact login_ne_nil_of_at hp hat hr (hsets.noLogin rfl).1
  · obtain ⟨s, hs, hsets⟩ := hparsed q hq hat init
    obtain ⟨s', hs', hsets'⟩ := hparsed q' hq' hat' init
    obtain rfl : s = r := (Prod.mk.inj (hs.symm.trans hr)).2
    obtain rfl : s' = r' := (Prod.mk.inj (hs'.symm.trans hr')).2
    have hport : s'.port = s.port := by
      cases n with
      | none => rw [hsets'.noPort rfl, hsets.noPort rfl]
      | some t => exact UInt16.toNat_inj.1 ((hsets'.port t rfl).trans (hsets.port t rfl).symm)
    obtain ⟨hlogin, hpassword⟩ := hsets.noLogin rfl
    obtain ⟨hlogin', hpassword'⟩ := hsets'.noLogin rfl
    exact ⟨hsets'.host.trans hsets.host.symm, hport, hlogin'.trans hlogin.symm,
      hpassword'.trans hpassword.symm⟩

/-- The host and the port become the credentials for a host named in the path. -/
theorem path_as_authority : ¬∀ (p h q : Bytes) (n : Option Bytes) (init : URLInfo),
    ¬ascii "://" <:+: p → (h ≠ [] ∧ 58 ∉ h ∧ 47 ∉ h ∧ 64 ∉ h) → (∀ t ∈ n, ValidPort t) →
      (∃ d, Escaped q d) → ∃ r, parseURL (pathUrl p h n q).text init = (.ok (), r) ∧
        (pathUrl p h n q).Sets init r := by
  intro h
  obtain ⟨r, hr, hsets⟩ := h (ascii "stomp") (ascii "broker") (ascii "LOG@evil")
    (some (ascii "61613")) ⟨[], [], [], [], 0, []⟩ (by decide) (by decide) (by decide +kernel)
    (by decide)
  have hevil : parseURL (ascii "stomp://broker:61613/LOG@evil") ⟨[], [], [], [], 0, []⟩ =
      (.ok (), ⟨ascii "stomp", ascii "broker", ascii "61613/LOG", ascii "evil", 0, []⟩) := by
    decide
  obtain rfl := (Prod.mk.inj (hevil.symm.trans hr)).2
  exact absurd hsets.host (by decide)

theorem parseURL_path_broker : ∃ r,
    parseURL (ascii "stomp://broker:61613/LOG") ⟨[], [], [], [], 0, []⟩ = (.ok (), r) ∧
      (pathUrl (ascii "stomp") (ascii "broker") (some (ascii "61613")) (ascii "LOG")).Sets
        ⟨[], [], [], [], 0, []⟩ r := by
  have h := parseURL_path (p := ascii "stomp") (h := ascii "broker") (n := some (ascii "61613"))
    (q := ascii "LOG") (by decide) (by decide) (by decide +kernel) (by decide)
  exact h.1.2 (by decide) _

end Logfile
