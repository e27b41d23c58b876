import Logfile.StompPacket

/-!
# URLs in the headers of a STOMP stream

`connect_thread` and `do_write` paste the host, the login, the password and the path of the
URL between their header lines. The percent-decoder can put any byte into the last three,
and the parser lets any byte through in the host.

`packetsOneFrame_iff` : the packets are single frames with the URL's values, read by the
grammar of `handle_reply`, just if no pasted part has a '\n' or a NUL. Whether such a part
is rejected is seen by cutting the frame at the first '\n' of the value
(`newline_not_mem_of_replyOf`).
-/

namespace Logfile

open Text

/-! ## One frame -/

/-- The packet is the text of one frame, read back as `reply`, and a NUL behind it. -/
def OneFrame (packet : Bytes) (reply : StompReply) : Prop :=
  ∃ text, packet = text ++ [0] ∧ 0 ∉ text ∧ replyOf text = some reply

/-- The headers of the CONNECT packet. -/
def connectHeaders (p : StompParams) : List (Bytes × Bytes) :=
  [(ascii "accept-version", ascii "1.1"), (ascii "heart-beat", ascii "0,5000"),
    (ascii "host", p.url.host)] ++
    if p.url.login.isEmpty then []
    else [(ascii "login", p.url.login), (ascii "passcode", p.url.password)]

/-- Every packet of the stream is one frame with the values of the URL. The text of an
event's time comes from `format_time`. -/
def PacketsOneFrame (p : StompParams) : Prop :=
  OneFrame (connectPacket p) ⟨ascii "CONNECT", connectHeaders p, []⟩ ∧
  ∀ (f : TimeFormat) (receipt : ℕ) (le : LogEvent), le.timeString = formatTime f le.time →
    OneFrame (sendPacket p receipt le) ⟨ascii "SEND", sendHeaders p receipt, sendBody p le⟩

/-- A value that ends neither its header line nor the frame. -/
def LineSafe (value : Bytes) : Prop :=
  10 ∉ value ∧ 0 ∉ value

/-- The parts of the URL that stand in headers. The password stands in none without a
login. -/
structure HeaderSafe (url : URLInfo) : Prop where
  host : LineSafe url.host
  login : LineSafe url.login
  password : url.login ≠ [] → LineSafe url.password
  path : LineSafe url.path

/-- The packet of `connect_thread` without the NUL. -/
def connectText (p : StompParams) : Bytes :=
  frameText (ascii "CONNECT") (connectHeaders p) []

variable (p : StompParams)

theorem connectPacket_eq : connectPacket p = connectText p ++ [0] := by
  have hhead : ascii "CONNECT\naccept-version:1.1\nheart-beat:0,5000\nhost:" =
      ascii "CONNECT" ++ ascii "\n" ++
        (ascii "accept-version" ++ ascii ":" ++ ascii "1.1" ++ ascii "\n") ++
        (ascii "heart-beat" ++ ascii ":" ++ ascii "0,5000" ++ ascii "\n") ++
        (ascii "host" ++ ascii ":") := rfl
  have hlogin : ascii "login:" = ascii "login" ++ ascii ":" := rfl
  have hpasscode : ascii "\npasscode:" = ascii "\n" ++ (ascii "passcode" ++ ascii ":") := rfl
  rw [connectPacket, connectText, frameText, connectHeaders, hhead, hlogin, hpasscode]
  split_ifs <;> simp only [headerText, List.append_assoc, List.cons_append,
    List.nil_append, List.append_nil]

/-- A packet that ends in a NUL is one frame if its text is. -/
theorem oneFrame_append_iff {text : Bytes} {reply : StompReply} :
    OneFrame (text ++ [0]) reply ↔ 0 ∉ text ∧ replyOf text = some reply := by
  unfold OneFrame
  constructor
  · rintro ⟨text', heq, hnul, hreply⟩
    rw [List.append_left_inj] at heq
    exact heq ▸ ⟨hnul, hreply⟩
  · exact fun h => ⟨text, rfl, h⟩

/-! ## The condition is enough -/

theorem nul_not_mem_headerText {headers : List (Bytes × Bytes)}
    (h : ∀ x ∈ headers, 0 ∉ x.1 ∧ 0 ∉ x.2) : 0 ∉ headerText headers := by
  induction headers with
  | nil => exact List.not_mem_nil
  | cons x headers ih =>
    obtain ⟨hx, hheaders⟩ := List.forall_mem_cons.1 h
    simp only [headerText, List.mem_append, hx.1, hx.2, ih hheaders, or_false, false_or, not_or]
    decide

/-- A frame of headers with distinct keys and safe values. -/
theorem oneFrame_frameText {command body : Bytes} {headers : List (Bytes × Bytes)}
    (hcommand : LineSafe command) (hkey : ∀ x ∈ headers, LineSafe x.1 ∧ 58 ∉ x.1)
    (hvalue : ∀ x ∈ headers, LineSafe x.2) (hdistinct : (headers.map Prod.fst).Nodup)
    (hbody : 0 ∉ body) :
    OneFrame (frameText command headers body ++ [0]) ⟨command, headers, body⟩ := by
  have hform : FrameForm command headers :=
    ⟨hcommand.1, fun x hx => ⟨(hkey x hx).1.1, (hkey x hx).2⟩, fun x hx => (hvalue x hx).1⟩
  have hheaders : 0 ∉ headerText headers :=
    nul_not_mem_headerText fun x hx => ⟨(hkey x hx).1.2, (hvalue x hx).2⟩
  have hread := replyOf_frameText hform body
  rw [keepFirst_of_nodup (by simpa using hdistinct), List.nil_append] at hread
  refine oneFrame_append_iff.2 ⟨?_, hread⟩
  simp only [frameText, List.mem_append, hcommand.2, hheaders, hbody, or_false, false_or, not_or]
  decide

variable {p}

theorem oneFrame_connectPacket (h : HeaderSafe p.url) :
    OneFrame (connectPacket p) ⟨ascii "CONNECT", connectHeaders p, []⟩ := by
  have hversion : LineSafe (ascii "1.1") ∧ LineSafe (ascii "0,5000") := by
    unfold LineSafe
    decide
  rw [connectPacket_eq, connectText]
  by_cases hlogin : p.url.login = []
  · have hheaders : connectHeaders p = [(ascii "accept-version", ascii "1.1"),
        (ascii "heart-beat", ascii "0,5000"), (ascii "host", p.url.host)] := by
      simp [connectHeaders, hlogin]
    rw [hheaders]
    refine oneFrame_frameText ?_ ?_ ?_ ?_ List.not_mem_nil
    · unfold LineSafe
      decide
    · simp only [LineSafe, List.forall_mem_cons]
      decide
    · simp [hversion, h.host]
    · simp only [List.map_cons, List.map_nil]
      decide
  · have hheaders : connectHeaders p = [(ascii "accept-version", ascii "1.1"),
        (ascii "heart-beat", ascii "0,5000"), (ascii "host", p.url.host),
        (ascii "login", p.url.login), (ascii "passcode", p.url.password)] := by
      simp [connectHeaders, hlogin]
    rw [hheaders]
    refine oneFrame_frameText ?_ ?_ ?_ ?_ List.not_mem_nil
    · unfold LineSafe
      decide
    · simp only [LineSafe, List.forall_mem_cons]
      decide
    · simp [hversion, h.host, h.login, h.password hlogin]
    · simp only [List.map_cons, List.map_nil]
      decide

theorem oneFrame_sendPacket (h : HeaderSafe p.url) {le : LogEvent} (receipt : ℕ)
    (htime : 0 ∉ le.timeString) :
    OneFrame (sendPacket p receipt le)
      ⟨ascii "SEND", sendHeaders p receipt, sendBody p le⟩ :=
  oneFrame_append_iff.2
    ⟨nul_not_mem_sendText p receipt le h.path.2 htime, replyOf_sendText p receipt le h.path.1⟩

/-! ## The condition is necessary -/

/-- What one frame says of a value behind headers that are safe. -/
theorem lineSafe_of_oneFrame {command key value rest : Bytes}
    {headers more : List (Bytes × Bytes)} {body : Bytes} (hform : FrameForm command headers)
    (hkey : 10 ∉ key ∧ 58 ∉ key) (hdistinct : ((headers.map Prod.fst) ++ [key]).Nodup)
    (h : OneFrame (command ++ 10 :: (headerText headers ++
      (key ++ 58 :: (value ++ 10 :: rest))) ++ [0])
        ⟨command, headers ++ (key, value) :: more, body⟩) : LineSafe value := by
  obtain ⟨hnul, hreply⟩ := oneFrame_append_iff.1 h
  refine ⟨newline_not_mem_of_replyOf hform hkey hdistinct hreply ?_, fun hmem => hnul ?_⟩
  · exact ⟨more, by simp⟩
  · simp [hmem]

/-- The text of a frame, cut at one of its headers. -/
theorem frameText_append (command : Bytes) (headers more : List (Bytes × Bytes))
    (key value body : Bytes) : frameText command (headers ++ (key, value) :: more) body =
      command ++ 10 :: (headerText headers ++
        (key ++ 58 :: (value ++ 10 :: (headerText more ++ 10 :: body)))) := by
  simp [frameText, headerText_append, headerText, newline, colon]

theorem lineSafe_of_frameText {command key value : Bytes} {headers more : List (Bytes × Bytes)}
    {body : Bytes} (hform : FrameForm command headers) (hkey : 10 ∉ key ∧ 58 ∉ key)
    (hdistinct : ((headers.map Prod.fst) ++ [key]).Nodup)
    (h : OneFrame (frameText command (headers ++ (key, value) :: more) body ++ [0])
        ⟨command, headers ++ (key, value) :: more, body⟩) : LineSafe value := by
  rw [frameText_append] at h
  exact lineSafe_of_oneFrame hform hkey hdistinct h

theorem headerSafe_of_packetsOneFrame (h : PacketsOneFrame p) : HeaderSafe p.url := by
  obtain ⟨hconnect, hsend⟩ := h
  rw [connectPacket_eq, connectText] at hconnect
  have hkey : (10 ∉ ascii "host" ∧ 58 ∉ ascii "host") ∧
      (10 ∉ ascii "login" ∧ 58 ∉ ascii "login") ∧
      (10 ∉ ascii "passcode" ∧ 58 ∉ ascii "passcode") ∧
      (10 ∉ ascii "destination" ∧ 58 ∉ ascii "destination") := by decide
  have hfront : FrameForm (ascii "CONNECT")
      [(ascii "accept-version", ascii "1.1"), (ascii "heart-beat", ascii "0,5000")] := by
    refine ⟨by decide, ?_, ?_⟩ <;> simp only [List.forall_mem_cons] <;> decide
  have hhost : LineSafe p.url.host := lineSafe_of_frameText hfront hkey.1 (by decide) hconnect
  have hlogin : p.url.login ≠ [] → LineSafe p.url.login ∧ LineSafe p.url.password := by
    intro hne
    have hheaders : connectHeaders p = [(ascii "accept-version", ascii "1.1"),
        (ascii "heart-beat", ascii "0,5000"), (ascii "host", p.url.host),
        (ascii "login", p.url.login), (ascii "passcode", p.url.password)] := by
      simp [connectHeaders, hne]
    rw [hheaders] at hconnect
    have hhostForm := hfront.append_singleton hkey.1 hhost.1
    have hlogin : LineSafe p.url.login :=
      lineSafe_of_frameText hhostForm hkey.2.1 (by simp; decide) hconnect
    have hloginForm := hhostForm.append_singleton hkey.2.1 hlogin.1
    exact ⟨hlogin, lineSafe_of_frameText hloginForm hkey.2.2.1 (by simp; decide) hconnect⟩
  have hdest : LineSafe (ascii "/topic/" ++ p.url.path) := by
    have hform : FrameForm (ascii "SEND") [] := ⟨by decide, by simp, by simp⟩
    have hframe := hsend ⟨fun _ => [], false⟩ 0
      ⟨.info, 0, [], 0, [], [], formatTime ⟨fun _ => [], false⟩ 0⟩ rfl
    rw [sendPacket, sendText_eq] at hframe
    exact lineSafe_of_frameText hform hkey.2.2.2 (by decide) hframe
  refine ⟨hhost, ?_, fun hne => (hlogin hne).2, ?_⟩
  · by_cases hne : p.url.login = []
    · simp [hne, LineSafe]
    · exact (hlogin hne).1
  · exact ⟨fun hmem => hdest.1 (List.mem_append_right _ hmem),
      fun hmem => hdest.2 (List.mem_append_right _ hmem)⟩

/-- The packets are single frames that carry the URL's values just if no value that stands
in a header has a '\n' or a NUL. -/
theorem packetsOneFrame_iff (p : StompParams) : PacketsOneFrame p ↔ HeaderSafe p.url := by
  constructor
  · exact headerSafe_of_packetsOneFrame
  · intro h
    refine ⟨oneFrame_connectPacket h, fun f receipt le htime => ?_⟩
    exact oneFrame_sendPacket h receipt (htime ▸ nul_not_mem_formatTime f le.time)

/-! ## A URL that injects a header -/

/-- The parts that the constructor sets before it parses its URL. -/
def stompDefaults : URLInfo :=
  ⟨ascii "stomp", [], [], [], 61613, ascii "LOG"⟩

/-- The login brings a header of its own. -/
theorem login_injects_header :
    ¬∀ (url : Bytes) (parts : URLInfo), parseURL url stompDefaults = (.ok (), parts) →
      ∀ p : StompParams, p.url = parts → PacketsOneFrame p := by
  intro h
  have hsafe := headerSafe_of_packetsOneFrame (h (ascii "stomp://u%0Ax:p@broker/LOG")
    ⟨ascii "stomp", ascii "u\nx", ascii "p", ascii "broker", 61613, ascii "LOG"⟩ (by decide)
    ⟨.listed, [], _, none, none⟩ rfl)
  exact absurd hsafe.login.1 (by decide)

end Logfile
