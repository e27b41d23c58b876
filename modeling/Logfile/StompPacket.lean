import Logfile.Frames
import Logfile.LogEvent
import Logfile.ParseUrl
import Logfile.StompFrame

/-!
# The packets of a STOMP stream

`sanitize_string` with its loop over positions, the members that the constructor of
`output_stream_stomp` computes from its arguments and from the system, the packets that
`connect_thread` and `do_write` write, and the checks of a CONNECTED frame.

`replace_all` of one character is a map over the string (`replaceAll_singleton`), so a
sanitized string has no NUL. If neither the path nor the time text has a '\n' or a NUL in
the wrong place, a SEND packet is one frame, whose `receipt` is the number of the packet
(`sendText_nul`, `replyOf_sendText`).

What the checks log is left out.
-/

namespace Logfile

open Text

/-! ## `sanitize_string` -/

/-- The loop of `replace_all`. Each round passes a character of the original string. -/
def replaceLoop (pattern new : Bytes) : ℕ → Bytes → ℕ → Bytes
  | 0, str, _ => str
  | fuel + 1, str, pos =>
    match find str pattern pos with
    | none => str
    | some pos =>
      replaceLoop pattern new fuel (str.take pos ++ new ++ str.drop (pos + pattern.length))
        (pos + new.length)

def replaceAll (str pattern new : Bytes) : Bytes :=
  replaceLoop pattern new (str.length + 1) str 0

/-- The entries of `replacements`. -/
def replacements : List (Bytes × Bytes) :=
  [(ascii "\"", ascii "&quot;"), (ascii "'", ascii "&apos;"), (ascii "<", ascii "&lt;"),
    (ascii ">", ascii "&gt;")]

/-- An order of the entries. The map is sorted by the addresses of its keys. -/
structure LiteralOrder where
  entries : List (Bytes × Bytes)
  perm : entries.Perm replacements

/-- The order in which the code lists the entries. -/
def LiteralOrder.listed : LiteralOrder :=
  ⟨replacements, .refl _⟩

def sanitizeString (order : LiteralOrder) (s : Bytes) : Bytes :=
  let cur := replaceAll s (ascii "&") (ascii "&amp;")
  let cur := order.entries.foldl (fun cur i => replaceAll cur i.1 i.2) cur
  replaceAll cur [0] (ascii "\\0")

/-! ## The stream and its packets -/

/-- The arguments of the constructor, with the URL parsed, and what it asks the system. -/
structure StompParams where
  order : LiteralOrder
  appName : Bytes
  url : URLInfo
  /-- `gethostname`, unless it fails -/
  hostname : Option Bytes
  /-- `pw_name`, unless there is no entry for the user -/
  pwName : Option Bytes

namespace StompParams

variable (p : StompParams)

/-- `m_app_name` -/
def mAppName : Bytes :=
  sanitizeString p.order p.appName

/-- `m_host` -/
def mHost : Bytes :=
  match p.hostname with
  | some name => sanitizeString p.order (cStr name)
  | none => ascii "/UNKNOWN/"

/-- `m_user` -/
def mUser : Bytes :=
  match p.pwName with
  | some name => sanitizeString p.order (cStr name)
  | none => ascii "/UNKNOWN/"

end StompParams

/-- `toupper` in the C locale -/
def toupper (c : Byte) : Byte :=
  if 97 ≤ c ∧ c ≤ 122 then c - 32 else c

/-- `m_level_strings` -/
def levelString (l : LogLevel) : Bytes :=
  (l.name.filter fun c => !isspace c).map toupper

/-- The packet of `connect_thread`. -/
def connectPacket (p : StompParams) : Bytes :=
  ascii "CONNECT\naccept-version:1.1\nheart-beat:0,5000\nhost:" ++ p.url.host ++ ascii "\n" ++
    (if p.url.login.isEmpty then []
      else ascii "login:" ++ p.url.login ++ ascii "\npasscode:" ++ p.url.password ++ ascii "\n") ++
    ascii "\n" ++ [0]

/-- An entry of the map in the body. -/
def mapEntry (key value : Bytes) : Bytes :=
  ascii "<entry><string>" ++ key ++ ascii "</string><string>" ++ value ++
    ascii "</string></entry>\n"

/-- The body of a SEND packet. -/
def sendBody (p : StompParams) (le : LogEvent) : Bytes :=
  ascii "<map>\n" ++ mapEntry (ascii "APPLICATION-ID") p.mAppName ++
    mapEntry (ascii "CREATETIME") le.timeString ++ mapEntry (ascii "HOST") p.mHost ++
    mapEntry (ascii "NAME") (sanitizeString p.order le.function) ++
    mapEntry (ascii "SEVERITY") (levelString le.level) ++
    mapEntry (ascii "TEXT") (sanitizeString p.order le.message) ++
    mapEntry (ascii "TYPE") (ascii "log") ++ mapEntry (ascii "USER") p.mUser ++
    mapEntry (ascii "CLASS") (sanitizeString p.order le.subsystemString) ++ ascii "</map>\n"

/-- The packet of `do_write` without the NUL. -/
def sendText (p : StompParams) (receipt : ℕ) (le : LogEvent) : Bytes :=
  ascii "SEND\ndestination:/topic/" ++ p.url.path ++
    ascii "\ntransformation:jms-map-xml\nreceipt:" ++ toDec receipt ++ ascii "\n\n" ++
    sendBody p le

/-- The packet of `do_write`. -/
def sendPacket (p : StompParams) (receipt : ℕ) (le : LogEvent) : Bytes :=
  sendText p receipt le ++ [0]

/-! ## The checks of a CONNECTED frame -/

def checkServerVersion (reply : StompReply) : Bool :=
  reply.headers.lookup (ascii "version") == some (ascii "1.1")

/-- `parse_heartbeat` : its result, and what it assigns to `m_heartbeat_interval`. -/
def parseHeartbeat (reply : StompReply) : Bool × Option ℤ :=
  match reply.headers.lookup (ascii "heart-beat") with
  | none => (true, some 0)
  | some hb =>
    match find hb (ascii ",") 0 with
    | none => (false, none)
    | some comma =>
      -- sy != 0: we cannot send heart-beats
      if hb.drop (comma + 1) ≠ ascii "0" then (false, none)
      else
        let (interval, endptr) := strtol 10 (hb.take comma)
        (endptr.isEmpty, some interval)

/-- The receipt that a reply confirms, if it is a RECEIPT. -/
def StompReply.receipt (reply : StompReply) : Option Bytes :=
  if reply.command = ascii "RECEIPT" then reply.headers.lookup (ascii "receipt-id") else none

example : parseHeartbeat ⟨[], [(ascii "heart-beat", ascii "5000,0")], []⟩ = (true, some 5000) := by
  decide

/-! ## Sanitized strings -/

section Sanitize

variable {c : Byte} {new : Bytes}

/-- `replace_all` of one character. -/
def replaceByte (c : Byte) (new : Bytes) (s : Bytes) : Bytes :=
  s.flatMap fun x => if x = c then new else [x]

theorem replaceByte_of_not_mem (new : Bytes) : ∀ {s : Bytes}, c ∉ s → replaceByte c new s = s
  | [], _ => rfl
  | x :: s, h => by
    obtain ⟨hx, hs⟩ : c ≠ x ∧ c ∉ s := by simpa using h
    have ih := replaceByte_of_not_mem new hs
    rw [replaceByte, List.flatMap_cons, if_neg hx.symm]
    simpa [replaceByte] using ih

theorem not_mem_replaceByte (hnew : c ∉ new) (s : Bytes) : c ∉ replaceByte c new s := by
  intro h
  obtain ⟨x, -, hx⟩ := List.mem_flatMap.1 h
  split_ifs at hx with hxc
  · exact hnew hx
  · exact hxc (List.mem_singleton.1 hx).symm

/-- What the loop has passed is final. -/
theorem replaceLoop_singleton : ∀ {fuel : ℕ} (passed : Bytes) {rest : Bytes}, rest.length < fuel →
    replaceLoop [c] new fuel (passed ++ rest) passed.length = passed ++ replaceByte c new rest
  | fuel + 1, passed, rest, hfuel => by
    rw [replaceLoop, find_append]
    cases hs : search [c] rest with
    | none =>
      rw [replaceByte_of_not_mem new (search_singleton_eq_none.1 hs)]
      rfl
    | some k =>
      obtain ⟨a, b, rfl, ha, rfl⟩ := exists_of_search_singleton hs
      have hstr : (passed ++ (a ++ c :: b)).take (passed.length + a.length) ++ new ++
          (passed ++ (a ++ c :: b)).drop (passed.length + a.length + 1) =
            (passed ++ a ++ new) ++ b := by
        simp [List.take_append, List.drop_append, List.take_of_length_le, List.drop_of_length_le,
          Nat.add_assoc]
      have hpos : passed.length + a.length + new.length = (passed ++ a ++ new).length := by
        simp only [List.length_append]
      simp only [Option.map_some, List.length_singleton]
      rw [hstr, hpos, replaceLoop_singleton _ (by simp at hfuel; omega)]
      have hhead : replaceByte c new a = a := replaceByte_of_not_mem new ha
      simp only [replaceByte, List.flatMap_append, List.flatMap_cons, if_true] at hhead ⊢
      rw [hhead]
      simp

theorem replaceAll_singleton (c : Byte) (new s : Bytes) :
    replaceAll s [c] new = replaceByte c new s := by
  have := @replaceLoop_singleton c new _ [] _ (Nat.lt_succ_self s.length)
  simpa [replaceAll] using this

theorem nul_not_mem_sanitizeString (order : LiteralOrder) (s : Bytes) :
    0 ∉ sanitizeString order s := by
  rw [sanitizeString, replaceAll_singleton]
  exact not_mem_replaceByte (by decide) _

end Sanitize

/-! ## A SEND packet is one frame -/

section Send

variable (p : StompParams) (receipt : ℕ) (le : LogEvent)

/-- The headers of a SEND packet. -/
def sendHeaders : List (Bytes × Bytes) :=
  [(ascii "destination", ascii "/topic/" ++ p.url.path),
    (ascii "transformation", ascii "jms-map-xml"), (ascii "receipt", toDec receipt)]

theorem sendText_eq : sendText p receipt le =
    frameText (ascii "SEND") (sendHeaders p receipt) (sendBody p le) := by
  have hdest : ascii "SEND\ndestination:/topic/" =
      ascii "SEND" ++ ascii "\n" ++ (ascii "destination" ++ ascii ":" ++ ascii "/topic/") := rfl
  have hreceipt : ascii "\ntransformation:jms-map-xml\nreceipt:" =
      ascii "\n" ++ (ascii "transformation" ++ ascii ":" ++ ascii "jms-map-xml" ++ ascii "\n") ++
        (ascii "receipt" ++ ascii ":") := rfl
  have hend : ascii "\n\n" = ascii "\n" ++ ascii "\n" := rfl
  rw [sendText, hdest, hreceipt, hend]
  simp only [frameText, sendHeaders, headerText, List.append_assoc, List.nil_append]

theorem not_mem_toDec {c : Byte} (h : isDigit 10 c = false) (n : ℕ) : c ∉ toDec n := by
  intro hc
  rw [(digits_toDec n).1 c hc] at h
  cases h

/-- `do_write`'s SEND read back. -/
theorem replyOf_sendText (hpath : 10 ∉ p.url.path) : replyOf (sendText p receipt le) =
    some ⟨ascii "SEND", sendHeaders p receipt, sendBody p le⟩ := by
  have hform : FrameForm (ascii "SEND") (sendHeaders p receipt) := by
    refine ⟨by decide, ?_, ?_⟩
    · simp only [sendHeaders, List.forall_mem_cons]
      decide
    · have hdest : (10 : Byte) ∉ ascii "/topic/" ++ p.url.path := by
        simp [hpath]
        decide
      simp only [sendHeaders, List.forall_mem_cons]
      exact ⟨hdest, by decide, not_mem_toDec (c := 10) (by decide) receipt, nofun⟩
  rw [sendText_eq, replyOf_frameText hform]
  rfl

theorem nul_not_mem_levelString (l : LogLevel) : 0 ∉ levelString l := by
  cases l <;> decide

theorem nul_not_mem_mHost : 0 ∉ p.mHost := by
  unfold StompParams.mHost
  split
  · exact nul_not_mem_sanitizeString _ _
  · decide

theorem nul_not_mem_mUser : 0 ∉ p.mUser := by
  unfold StompParams.mUser
  split
  · exact nul_not_mem_sanitizeString _ _
  · decide

theorem nul_not_mem_mapEntry {key value : Bytes} (hkey : 0 ∉ key) (hvalue : 0 ∉ value) :
    0 ∉ mapEntry key value := by
  simp only [mapEntry, List.mem_append, hkey, hvalue, or_false, not_or]
  decide

theorem nul_not_mem_sendBody (htime : 0 ∉ le.timeString) : 0 ∉ sendBody p le := by
  have hmap : (0 : Byte) ∉ ascii "<map>\n" ∧ (0 : Byte) ∉ ascii "</map>\n" := by decide
  have hsanitize := nul_not_mem_sanitizeString p.order
  simp only [sendBody, List.mem_append, not_or]
  refine ⟨⟨⟨⟨⟨⟨⟨⟨⟨⟨hmap.1, ?_⟩, ?_⟩, ?_⟩, ?_⟩, ?_⟩, ?_⟩, ?_⟩, ?_⟩, ?_⟩, hmap.2⟩
  · exact nul_not_mem_mapEntry (by decide) (hsanitize _)
  · exact nul_not_mem_mapEntry (by decide) htime
  · exact nul_not_mem_mapEntry (by decide) (nul_not_mem_mHost p)
  · exact nul_not_mem_mapEntry (by decide) (hsanitize _)
  · exact nul_not_mem_mapEntry (by decide) (nul_not_mem_levelString _)
  · exact nul_not_mem_mapEntry (by decide) (hsanitize _)
  · exact nul_not_mem_mapEntry (by decide) (by decide)
  · exact nul_not_mem_mapEntry (by decide) (nul_not_mem_mUser p)
  · exact nul_not_mem_mapEntry (by decide) (hsanitize _)

theorem nul_not_mem_sendText (hpath : 0 ∉ p.url.path) (htime : 0 ∉ le.timeString) :
    0 ∉ sendText p receipt le := by
  have hbody := nul_not_mem_sendBody p le htime
  have hreceipt : 0 ∉ toDec receipt := not_mem_toDec (by decide) receipt
  simp only [sendText, List.mem_append, hpath, hreceipt, hbody, or_false, not_or]
  decide

/-- A SEND packet is one frame. -/
theorem split_sendPacket (hpath : 0 ∉ p.url.path) (htime : 0 ∉ le.timeString) :
    Frames.split 10 0 [] (sendPacket p receipt le) = ([sendText p receipt le], []) := by
  refine Frames.split_frame (nul_not_mem_sendText p receipt le hpath htime) (by decide) ?_
  intro _
  have hhead : (sendText p receipt le).head? = some 83 := rfl
  simp [hhead]

end Send

end Logfile
