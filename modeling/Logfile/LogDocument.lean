import Logfile.LogLine

/-!
# Log files read as XML

The reader of a log file : a `message` element for every event, with the level as attribute
and the other fields as the text of its children. The message is cut into CDATA sections,
and the time and the level have no characters that XML takes for its own. The subsystem and
the function are pasted as they are, and a carriage return does not get through any field.

`decodeLine_iff` : a line is read back just if the event is `Legible`, and then so is a
whole file. A subsystem or function with markup can swallow the tags behind it, so that the
reader goes on in the middle of the message; but then it gets less text than the message has
(`length_le_of_content`).
-/

namespace Logfile

open Text Xml

/-- A `message` element. -/
@[ext] structure Message where
  level : Bytes
  time : Bytes
  subsystem : Bytes
  function : Bytes
  text : Bytes
  deriving DecidableEq

def decodeMessage (s : Bytes) : Option (Message × Bytes) := do
  let s ← expect (ascii "<message level=\"") s
  let (level, s) ← attValue s
  let s ← expect (ascii "><time>") s
  let (time, s) ← text s
  let s ← expect (ascii "</time><subsystem>") s
  let (subsystem, s) ← text s
  let s ← expect (ascii "</subsystem><function>") s
  let (function, s) ← text s
  let s ← expect (ascii "</function><text>") s
  let (text, s) ← text s
  let s ← expect (ascii "</text></message>\n") s
  return (⟨level, time, subsystem, function, text⟩, s)

/-- The element that a line is. -/
def decodeLine (line : Bytes) : Option Message := do
  let (m, s) ← decodeMessage (← input line)
  if s = [] then some m else none

/-- The elements up to the end of the file. Every round consumes one. -/
def decodeMessages : ℕ → Bytes → Option (List Message)
  | 0, _ => none
  | fuel + 1, s =>
    if s = ascii "</logfile>\n" then some []
    else do
      let (m, s) ← decodeMessage s
      return m :: (← decodeMessages fuel s)

/-- The elements of a log file. -/
def decodeFile (file : Bytes) : Option (List Message) := do
  let s ← input file
  let s ← expect (ascii "<logfile>\n") s
  decodeMessages (s.length + 1) s

/-- The content of a file with the given events. -/
def logFile (les : List LogEvent) : Bytes :=
  logHeader ++ (les.flatMap logLine ++ logFooter)

/-- The element that an event should be read as. -/
def messageOf (le : LogEvent) : Message :=
  ⟨le.level.name, le.timeString, le.subsystemString, le.function, le.message⟩

/-! ## Elements written out -/

/-- The element with its text in sections. -/
def Message.written (m : Message) : Bytes :=
  ascii "<message level=\"" ++ (m.level ++ (ascii "\"" ++ (ascii "><time>" ++ (m.time ++
    (ascii "</time><subsystem>" ++ (m.subsystem ++ (ascii "</subsystem><function>" ++ (m.function ++
      (ascii "</function><text>" ++ (ascii "<![CDATA[" ++ sections 0 m.text ++ ascii "]]>" ++
        ascii "</text></message>\n"))))))))))

theorem logLine_eq (le : LogEvent) : logLine le = (messageOf le).written := by
  have hsplit : ascii "\"><time>" = ascii "\"" ++ ascii "><time>" := rfl
  simp only [logLine, formatCData_eq, Message.written, messageOf, hsplit, List.append_assoc]

/-- The level and the time have no markup. -/
structure Message.Inert (m : Message) : Prop where
  quote : 34 ∉ m.level
  level : Plain m.level
  time : Plain m.time

/-- What stands behind the subsystem's content. -/
def Message.afterSubsystem (m : Message) (rest : Bytes) : Bytes :=
  m.function ++ (ascii "</function><text>" ++ (ascii "<![CDATA[" ++ sections 0 m.text ++
    ascii "]]>" ++ (ascii "</text></message>\n" ++ rest)))

/-- The reader stands in front of the subsystem's content. -/
theorem decodeMessage_written {m : Message} (h : m.Inert) (rest : Bytes) :
    decodeMessage (m.written ++ rest) = (do
      let (subsystem, s) ←
        text (m.subsystem ++ (ascii "</subsystem><function>" ++ m.afterSubsystem rest))
      let s ← expect (ascii "</subsystem><function>") s
      let (function, s) ← text s
      let s ← expect (ascii "</function><text>") s
      let (text, s) ← text s
      let s ← expect (ascii "</text></message>\n") s
      return (⟨m.level, m.time, subsystem, function, text⟩, s)) := by
  have htime : ∀ t, text (m.time ++ (ascii "</time><subsystem>" ++ t)) =
      some (m.time, ascii "</time><subsystem>" ++ t) := fun t =>
    h.time.writes.text_eq (ascii "time><subsystem>" ++ t)
  simp only [decodeMessage, Message.written, List.append_assoc, expect_append,
    attValue_append h.quote h.level, htime, Option.bind_eq_bind, Option.bind_some,
    Message.afterSubsystem]

/-- An element whose fields are plain is read back. -/
theorem decodeMessage_of_plain {m : Message} (h : m.Inert) (hsubsystem : Plain m.subsystem)
    (hfunction : Plain m.function) (rest : Bytes) :
    decodeMessage (m.written ++ rest) = some (m, rest) := by
  have hs : ∀ t, text (m.subsystem ++ (ascii "</subsystem><function>" ++ t)) =
      some (m.subsystem, ascii "</subsystem><function>" ++ t) := fun t =>
    hsubsystem.writes.text_eq (ascii "subsystem><function>" ++ t)
  have hf : ∀ t, text (m.function ++ (ascii "</function><text>" ++ t)) =
      some (m.function, ascii "</function><text>" ++ t) := fun t =>
    hfunction.writes.text_eq (ascii "function><text>" ++ t)
  have ht : ∀ t, text (ascii "<![CDATA[" ++ sections 0 m.text ++ ascii "]]>" ++
      (ascii "</text></message>\n" ++ t)) = some (m.text, ascii "</text></message>\n" ++ t) :=
    fun t => (writes_sections m.text).text_eq (ascii "text></message>\n" ++ t)
  rw [decodeMessage_written h, hs]
  simp only [Option.bind_eq_bind, Option.bind_some, expect_append, Message.afterSubsystem, hf, ht,
    Option.pure_def]

/-! ## Fields that are not plain -/

/-- Behind a literal, text without a character of it. -/
theorem exists_of_append_cons {lit u s t : Bytes} {c : Byte} (hc : c ∉ lit)
    (heq : u ++ c :: s = lit ++ t) : ∃ v, u = lit ++ v ∧ v ++ c :: s = t := by
  rcases List.append_eq_append_iff.1 heq with ⟨w, hlit, hs⟩ | ⟨v, hu, ht⟩
  · cases w with
    | nil => exact ⟨[], by simpa using hlit.symm, by simpa using hs⟩
    | cons d w =>
      rw [List.cons_append, List.cons.injEq] at hs
      exact absurd (by rw [hlit, hs.1]; simp) hc
  · exact ⟨v, hu, ht.symm⟩

/-- A reader that is in the middle of a message's text when it should be in front of it has
passed the end of the element when it has read as much. -/
theorem length_lt_of_ahead {a b m t y tail rest : Bytes}
    (hsplit : a ++ (ascii "</function><text>" ++ y) = b ++ (ascii "</function><text>" ++
      (ascii "<![CDATA[" ++ (sections 0 m ++ (ascii "]]>" ++ tail)))))
    (hlt : y.length < (ascii "<![CDATA[" ++ (sections 0 m ++ (ascii "]]>" ++ tail))).length)
    (hread : Content y t rest) (hm : m.length ≤ t.length) : rest.length < tail.length := by
  by_contra hge
  rw [← List.append_assoc, ← List.append_assoc b] at hsplit
  rcases List.append_eq_append_iff.1 hsplit with ⟨w, -, rfl⟩ | ⟨pre, htag, hpre⟩
  · rw [List.length_append] at hlt
    omega
  · -- the characters in front of `y` are the end of the tag
    rcases List.eq_nil_or_concat pre with rfl | ⟨pre, p, rfl⟩
    · rw [List.nil_append] at hpre
      rw [hpre] at hlt
      omega
    have hend : (a ++ ascii "</function><tex") ++ [116] ++ [62] =
        (b ++ ascii "</function><text>" ++ pre) ++ [p] := by
      simpa [ascii] using htag
    obtain ⟨hfront, hp⟩ := List.append_inj' hend rfl
    obtain rfl : 62 = p := by simpa using hp
    rcases List.eq_nil_or_concat pre with rfl | ⟨u, q, rfl⟩
    · exact absurd hpre (by simp [ascii])
    have hfront' : (a ++ ascii "</function><tex") ++ [116] =
        (b ++ ascii "</function><text>" ++ u) ++ [q] := by
      simpa using hfront
    obtain ⟨-, hq⟩ := List.append_inj' hfront' rfl
    obtain rfl : 116 = q := by simpa using hq
    have hcut : u ++ 116 :: 62 :: y =
        ascii "<![CDATA[" ++ (sections 0 m ++ (ascii "]]>" ++ tail)) := by
      rw [hpre]
      simp
    obtain ⟨v, -, hv⟩ := exists_of_append_cons (by decide) hcut
    have hle := hread.length_le
    rcases exists_of_gt (by decide) (by decide) (by decide) hv with ⟨m', rfl, hlen⟩ | hlen
    · have hbound := length_le_of_content hread (not_lt.1 hge)
      omega
    · omega

/-- The reader is where it should be, or further. -/
def OnOrAhead (s s₀ : Bytes) : Prop :=
  s = s₀ ∨ s.length < s₀.length

/-- A field that is read as text that is not shorter : it is plain, or the reader has gone
further. -/
theorem field_step {s u tag t w y : Bytes} (hs : OnOrAhead s (u ++ (tag ++ w)))
    (h : Content s t (tag ++ y)) (hlen : u.length ≤ t.length) :
    s = u ++ (tag ++ w) ∧ t = u ∧ Plain u ∧ y = w ∨ y.length < w.length := by
  obtain ⟨used, rfl, hle, hplain⟩ := h.exists_used
  rcases Nat.lt_or_ge y.length w.length with hlt | hge
  · exact Or.inr hlt
  rcases hs with heq | hlt
  · have htotal := congrArg List.length heq
    simp only [List.length_append] at htotal
    obtain ⟨rfl, hrest⟩ := List.append_inj heq (by omega)
    obtain ⟨rfl, hu⟩ := hplain (by omega)
    exact Or.inl ⟨heq, rfl, hu, List.append_cancel_left hrest⟩
  · simp only [List.length_append] at hlt
    omega

theorem OnOrAhead.field {s u tag t w y : Bytes} (hs : OnOrAhead s (u ++ (tag ++ w)))
    (h : Content s t (tag ++ y)) (hlen : u.length ≤ t.length) : OnOrAhead y w :=
  (field_step hs h hlen).imp_left fun hon => hon.2.2.2

theorem OnOrAhead.of_append {p s s₀ : Bytes} (h : OnOrAhead (p ++ s) (p ++ s₀)) :
    OnOrAhead s s₀ := by
  rcases h with h | h
  · exact Or.inl (List.append_cancel_left h)
  · exact Or.inr (by simpa using h)

theorem suffix_of_content {s t tag y : Bytes} (h : Content s t (tag ++ y)) :
    tag ++ y <:+ s := by
  obtain ⟨used, heq, -⟩ := h.exists_used
  exact ⟨used, heq.symm⟩

theorem exists_of_attValue {s value s' : Bytes} (h : attValue s = some (value, s')) :
    s = value ++ (ascii "\"" ++ s') := by
  simp only [attValue, Option.bind_eq_bind, Option.bind_eq_some_iff, Prod.exists] at h
  obtain ⟨value', s'', hcut, h⟩ := h
  split_ifs at h
  obtain ⟨rfl, rfl⟩ : value' = value ∧ s'' = s' := by simpa using h
  exact (exists_of_cutAt hcut).1

/-- What an element that is read consists of. -/
theorem exists_of_decodeMessage {s s' : Bytes} {m : Message}
    (h : decodeMessage s = some (m, s')) : ∃ s₁ s₂ w y,
      s = ascii "<message level=\"" ++ (m.level ++ (ascii "\"" ++ (ascii "><time>" ++ s₁))) ∧
      Content s₁ m.time (ascii "</time><subsystem>" ++ s₂) ∧
      Content s₂ m.subsystem (ascii "</subsystem><function>" ++ w) ∧
      Content w m.function (ascii "</function><text>" ++ y) ∧
      Content y m.text (ascii "</text></message>\n" ++ s') := by
  simp only [decodeMessage, Option.bind_eq_bind, Option.bind_eq_some_iff, Prod.exists,
    expect_eq_some, Option.pure_def, Option.some.injEq, Prod.mk.injEq, text_eq_some_iff] at h
  obtain ⟨_, rfl, level, _, hlevel, s₁, rfl, time, _, htime, s₂, rfl, subsystem, _, hsubsystem, w,
    rfl, function, _, hfunction, y, rfl, text, _, htext, s', rfl, rfl, rfl⟩ := h
  refine ⟨s₁, s₂, w, y, ?_, htime, hsubsystem, hfunction, htext⟩
  rw [exists_of_attValue hlevel]

/-- No field of `m₀` is longer than that of `m`. -/
structure NoLonger (m₀ m : Message) : Prop where
  level : m.level = m₀.level
  time : m₀.time.length ≤ m.time.length
  subsystem : m₀.subsystem.length ≤ m.subsystem.length
  function : m₀.function.length ≤ m.function.length
  text : m₀.text.length ≤ m.text.length

theorem written_append (m : Message) (rest : Bytes) : m.written ++ rest =
    ascii "<message level=\"" ++ (m.level ++ (ascii "\"" ++ (ascii "><time>" ++ (m.time ++
      (ascii "</time><subsystem>" ++ (m.subsystem ++ (ascii "</subsystem><function>" ++
        m.afterSubsystem rest))))))) := by
  simp only [Message.written, Message.afterSubsystem, List.append_assoc]

/-- One element. Where the reader is on, the element is read as it is, or the reader gets
ahead; and a reader that is ahead stays so. -/
theorem decodeMessage_step {a b s rest s' : Bytes} {m₀ m : Message}
    (hdoc : a ++ s = b ++ (m₀.written ++ rest)) (hs : OnOrAhead s (m₀.written ++ rest))
    (hread : decodeMessage s = some (m, s')) (hm : NoLonger m₀ m) :
    (∃ a', a ++ s = a' ++ s') ∧
      (s = m₀.written ++ rest ∧ m = m₀ ∧ Plain m₀.subsystem ∧ Plain m₀.function ∧ s' = rest ∨
        s'.length < rest.length) := by
  obtain ⟨s₁, s₂, w, y, heq, htime, hsubsystem, hfunction, htext⟩ := exists_of_decodeMessage hread
  have hfunctionText : ascii "</function><text>" ++ y <:+ s := by
    have hw := (List.suffix_append _ w).trans (suffix_of_content hsubsystem)
    have hs₂ := (List.suffix_append _ s₂).trans (suffix_of_content htime)
    have hs₁ : s₁ <:+ s := heq ▸ (List.suffix_append (ascii "><time>") s₁).trans
      ((List.suffix_append _ _).trans ((List.suffix_append _ _).trans (List.suffix_append _ _)))
    exact (suffix_of_content hfunction).trans (hw.trans (hs₂.trans hs₁))
  obtain ⟨front, hfront⟩ := hfunctionText
  have hrest : s' <:+ s := by
    have hy := (List.suffix_append _ s').trans (suffix_of_content htext)
    exact hy.trans ((List.suffix_append _ y).trans ⟨front, hfront⟩)
  obtain ⟨front', hfront'⟩ := hrest
  refine ⟨⟨a ++ front', by rw [List.append_assoc, hfront']⟩, ?_⟩
  rw [written_append, heq, hm.level] at hs
  have h₁ := hs.of_append.of_append.of_append.of_append
  have h₂ := h₁.field htime hm.time
  have h₃ := h₂.field hsubsystem hm.subsystem
  by_cases hy : y.length < (ascii "<![CDATA[" ++ (sections 0 m₀.text ++ (ascii "]]>" ++
      (ascii "</text></message>\n" ++ rest)))).length
  · right
    have hsplit : (a ++ front) ++ (ascii "</function><text>" ++ y) =
        (b ++ (ascii "<message level=\"" ++ (m₀.level ++ (ascii "\"" ++ (ascii "><time>" ++
          (m₀.time ++ (ascii "</time><subsystem>" ++ (m₀.subsystem ++
            (ascii "</subsystem><function>" ++ m₀.function))))))))) ++
          (ascii "</function><text>" ++ (ascii "<![CDATA[" ++ (sections 0 m₀.text ++ (ascii "]]>" ++
            (ascii "</text></message>\n" ++ rest))))) := by
      rw [List.append_assoc, hfront, hdoc, written_append]
      simp only [Message.afterSubsystem, List.append_assoc]
    have hlt := length_lt_of_ahead hsplit hy htext hm.text
    simpa using hlt
  · left
    simp only [Message.afterSubsystem, List.append_assoc] at h₂ h₃
    rcases field_step h₃ hfunction hm.function with ⟨rfl, hf, hfplain, rfl⟩ | hlt
    swap
    · exact absurd hlt hy
    rcases field_step h₂ hsubsystem hm.subsystem with ⟨rfl, hsub, hsplain, -⟩ | hlt
    swap
    · exact absurd hlt (lt_irrefl _)
    rcases field_step h₁ htime hm.time with ⟨rfl, ht, -, -⟩ | hlt
    swap
    · simp [Message.afterSubsystem] at hlt
    have hwritten : Content (ascii "<![CDATA[" ++ sections 0 m₀.text ++ ascii "]]>" ++
        (ascii "</text></message>\n" ++ rest)) m₀.text (ascii "</text></message>\n" ++ rest) :=
      writes_sections m₀.text (ascii "text></message>\n" ++ rest)
    simp only [List.append_assoc] at hwritten
    have hunique := (text_eq_some_iff.2 htext).symm.trans (text_eq_some_iff.2 hwritten)
    obtain ⟨hmtext, rfl⟩ : m.text = m₀.text ∧ s' = rest := by simpa using hunique
    refine ⟨?_, ?_, hsplain, hfplain, rfl⟩
    · rw [heq, written_append, hm.level]
    · exact Message.ext hm.level ht hsub hf hmtext

/-- The elements of a file. A reader that gets ahead does not find the end of the file. -/
theorem decodeMessages_run : ∀ {ms out : List Message} {a b s : Bytes} {fuel : ℕ},
    a ++ s = b ++ (ms.flatMap Message.written ++ logFooter) →
    OnOrAhead s (ms.flatMap Message.written ++ logFooter) → decodeMessages fuel s = some out →
    List.Forall₂ NoLonger ms out →
      s = ms.flatMap Message.written ++ logFooter ∧ out = ms ∧
        ∀ m ∈ ms, Plain m.subsystem ∧ Plain m.function
  | _, _, _, _, _, 0, _, _, hread, _ => by
    rw [decodeMessages] at hread
    cases hread
  | [], _, a, b, s, fuel + 1, _, _, hread, .nil => by
    rw [decodeMessages] at hread
    split_ifs at hread with hs
    · exact ⟨hs, rfl, by simp⟩
    · simp [Option.bind_eq_some_iff] at hread
  | m₀ :: ms, m :: out, a, b, s, fuel + 1, hdoc, hon, hread, .cons hm hms => by
    rw [decodeMessages] at hread
    split_ifs at hread with hs
    · cases hread
    simp only [Option.bind_eq_bind, Option.bind_eq_some_iff, Prod.exists, Option.pure_def,
      Option.some.injEq, List.cons.injEq] at hread
    obtain ⟨_, s', hhead, _, htail, rfl, rfl⟩ := hread
    rw [List.flatMap_cons, List.append_assoc] at hdoc hon ⊢
    obtain ⟨⟨a', hdoc'⟩, hstep⟩ := decodeMessage_step hdoc hon hhead hm
    rw [hdoc, ← List.append_assoc] at hdoc'
    rcases hstep with ⟨hs, rfl, hsubsystem, hfunction, rfl⟩ | hlt
    · obtain ⟨-, rfl, hplain⟩ := decodeMessages_run hdoc'.symm (Or.inl rfl) htail hms
      exact ⟨hs, rfl, List.forall_mem_cons.2 ⟨⟨hsubsystem, hfunction⟩, hplain⟩⟩
    · obtain ⟨rfl, -⟩ := decodeMessages_run hdoc'.symm (Or.inr hlt) htail hms
      exact absurd hlt (lt_irrefl _)

/-! ## The lines of the stream -/

/-- No byte of the strings is one that XML forbids. -/
def XmlStrings (le : LogEvent) : Prop :=
  (le.message ++ le.function ++ le.subsystemString).all isXmlByte = true

/-- The subsystem and the function have no markup, and no field has a carriage return. -/
structure Legible (le : LogEvent) : Prop where
  subsystem : Plain le.subsystemString ∧ 13 ∉ le.subsystemString
  function : Plain le.function ∧ 13 ∉ le.function
  message : 13 ∉ le.message

/-- The element after the line ends are replaced. -/
def Message.withLineEnds (m : Message) : Message :=
  { m with
    subsystem := lineEnds false m.subsystem
    function := lineEnds false m.function
    text := lineEnds false m.text }

theorem lineEnds_written {m : Message} (hlevel : 13 ∉ m.level) (htime : 13 ∉ m.time) (t : Bytes) :
    lineEnds false (m.written ++ t) = m.withLineEnds.written ++ lineEnds false t := by
  have hsections : lineEnds false (sections 0 m.text) = sections 0 (lineEnds false m.text) :=
    lineEnds_sections m.text fun _ => rfl
  simp only [Message.written, Message.withLineEnds, List.append_assoc]
  rw [lineEnds_append_of_not_mem _ (by decide), lineEnds_append_of_not_mem _ hlevel,
    lineEnds_append_of_not_mem _ (by decide), lineEnds_append_of_not_mem _ (by decide),
    lineEnds_append_of_not_mem _ htime, lineEnds_append_of_not_mem _ (by decide),
    lineEnds_tag (by decide) (by decide) (by decide),
    lineEnds_tag (by decide) (by decide) (by decide), lineEnds_append_of_not_mem _ (by decide),
    lineEnds_tag (by decide) (by decide) (by decide), lineEnds_append_of_not_mem _ (by decide),
    hsections]

variable {f : TimeFormat} {le : LogEvent}

/-- The characters of a time. -/
theorem not_mem_timeString (hf : f.Numeric) (htime : le.timeString = formatTime f le.time)
    {c : Byte} (hdigit : isDigit 10 c = false) (hc : c ∉ ascii "-: .GMT") : c ∉ le.timeString := by
  rw [htime]
  exact not_mem_formatTime hf hdigit hc le.time

theorem inert_messageOf (hf : f.Numeric) (htime : le.timeString = formatTime f le.time) :
    (messageOf le).withLineEnds.Inert := by
  have hlevel : ∀ l : LogLevel, 34 ∉ l.name ∧ Plain l.name := by
    rintro (_ | _ | _ | _ | _ | _ | _) <;> decide
  refine ⟨(hlevel le.level).1, (hlevel le.level).2, ?_⟩
  exact plain_of_not_mem (not_mem_timeString hf htime (by decide) (by decide))
    (not_mem_timeString hf htime (by decide) (by decide))
    (not_mem_timeString hf htime (by decide) (by decide))

theorem isXmlByte_timeString (hf : f.Numeric) (htime : le.timeString = formatTime f le.time)
    {c : Byte} (hc : c ∈ le.timeString) : isXmlByte c = true := by
  by_contra hno
  have hsmall : ¬32 ≤ c := fun h => hno (by simp [isXmlByte, h])
  refine not_mem_timeString hf htime ?_ ?_ hc
  · have hlow : ¬48 ≤ c ∧ ¬97 ≤ c ∧ ¬65 ≤ c := by
      simp only [UInt8.le_iff_toNat_le] at hsmall ⊢
      simp at hsmall ⊢
      omega
    simp [isDigit, digit, hlow]
  · intro hmem
    have hall : (ascii "-: .GMT").all (32 ≤ ·) = true := by decide
    exact hsmall (by simpa using List.all_eq_true.1 hall c hmem)

theorem all_logLine (hf : f.Numeric) (htime : le.timeString = formatTime f le.time)
    (hxml : XmlStrings le) : (logLine le).all isXmlByte = true := by
  have hlevel : le.level.name.all isXmlByte = true := by
    cases le.level <;> decide
  have htimeString : le.timeString.all isXmlByte = true :=
    List.all_eq_true.2 fun c hc => isXmlByte_timeString hf htime hc
  obtain ⟨⟨hmessage, hfunction⟩, hsubsystem⟩ :
      (le.message.all isXmlByte = true ∧ le.function.all isXmlByte = true) ∧
        le.subsystemString.all isXmlByte = true := by
    simpa only [XmlStrings, List.all_append, Bool.and_eq_true] using hxml
  have hsections : (sections 0 le.message).all isXmlByte = true := by
    refine List.all_eq_true.2 fun c hc => ?_
    rcases mem_sections hc with hc | hc
    · exact List.all_eq_true.1 hmessage c hc
    · exact List.all_eq_true.1 (by decide : (ascii "]]><![CDATA[").all isXmlByte = true) c hc
  simp only [logLine, formatCData_eq, List.all_append, hlevel, htimeString, hfunction, hsubsystem,
    hsections, Bool.and_true]
  decide

theorem lineEnds_logLine (hf : f.Numeric) (htime : le.timeString = formatTime f le.time)
    (t : Bytes) : lineEnds false (logLine le ++ t) =
      (messageOf le).withLineEnds.written ++ lineEnds false t := by
  have hlevel : 13 ∉ le.level.name := by
    cases le.level <;> decide
  rw [logLine_eq]
  exact lineEnds_written hlevel (not_mem_timeString hf htime (by decide) (by decide)) t

theorem input_logLine (hf : f.Numeric) (htime : le.timeString = formatTime f le.time)
    (hxml : XmlStrings le) : input (logLine le) = some (messageOf le).withLineEnds.written := by
  rw [input, if_pos (all_logLine hf htime hxml)]
  have h := lineEnds_logLine hf htime []
  simpa [lineEnds] using h

/-- Without carriage returns the element is parsed as it is written. -/
theorem withLineEnds_messageOf (h : Legible le) : (messageOf le).withLineEnds = messageOf le := by
  simp only [Message.withLineEnds, messageOf, lineEnds_of_not_mem h.subsystem.2,
    lineEnds_of_not_mem h.function.2, lineEnds_of_not_mem h.message]

theorem decodeMessage_logLine (hf : f.Numeric) (htime : le.timeString = formatTime f le.time)
    (h : Legible le) (rest : Bytes) :
    decodeMessage (logLine le ++ rest) = some (messageOf le, rest) := by
  have hinert := inert_messageOf hf htime
  rw [withLineEnds_messageOf h] at hinert
  rw [logLine_eq]
  exact decodeMessage_of_plain hinert h.subsystem.1 h.function.1 rest

theorem noLonger_messageOf (le : LogEvent) :
    NoLonger (messageOf le).withLineEnds (messageOf le) :=
  ⟨rfl, le_rfl, length_lineEnds_le _ _, length_lineEnds_le _ _, length_lineEnds_le _ _⟩

/-- What is parsed being what was logged makes the event legible. -/
theorem legible_of_eq (heq : messageOf le = (messageOf le).withLineEnds)
    (hsubsystem : Plain (messageOf le).withLineEnds.subsystem)
    (hfunction : Plain (messageOf le).withLineEnds.function) : Legible le := by
  obtain ⟨-, -, hs, hf, hm⟩ := Message.ext_iff.1 heq
  rw [← heq] at hsubsystem hfunction
  have hcr : ∀ {s : Bytes}, s = lineEnds false s → 13 ∉ s := fun h => h ▸ not_mem_lineEnds _ _
  exact ⟨⟨hsubsystem, hcr hs⟩, ⟨hfunction, hcr hf⟩, hcr hm⟩

theorem decodeLine_iff_legible (hf : f.Numeric) (htime : le.timeString = formatTime f le.time)
    (hxml : XmlStrings le) : decodeLine (logLine le) = some (messageOf le) ↔ Legible le := by
  rw [decodeLine, input_logLine hf htime hxml]
  simp only [Option.bind_eq_bind, Option.bind_some]
  constructor
  · intro h
    simp only [Option.bind_eq_some_iff, Prod.exists] at h
    obtain ⟨m, s, hread, hm⟩ := h
    split_ifs at hm with hs
    obtain rfl := Option.some.inj hm
    have hdoc : [] ++ (messageOf le).withLineEnds.written =
        [] ++ ((messageOf le).withLineEnds.written ++ []) := by simp
    obtain ⟨-, ⟨-, heq, hsubsystem, hfunction, -⟩ | hlt⟩ :=
      decodeMessage_step hdoc (Or.inl (by simp)) hread (noLonger_messageOf le)
    · exact legible_of_eq heq hsubsystem hfunction
    · simp at hlt
  · intro h
    have hread := decodeMessage_logLine hf htime h []
    rw [List.append_nil, logLine_eq] at hread
    rw [withLineEnds_messageOf h, hread]
    rfl

/-! ## Files -/

/-- An event as the stream gets it, without the bytes that XML forbids. -/
structure Logged (f : TimeFormat) (le : LogEvent) : Prop where
  time : le.timeString = formatTime f le.time
  xml : XmlStrings le

/-- The elements that the lines of a file are. -/
def parsedMessages (les : List LogEvent) : List Message :=
  les.map fun le => (messageOf le).withLineEnds

theorem lineEnds_lines (hf : f.Numeric) : ∀ {les : List LogEvent}, (∀ le ∈ les, Logged f le) →
    lineEnds false (les.flatMap logLine ++ logFooter) =
      (parsedMessages les).flatMap Message.written ++ logFooter
  | [], _ => rfl
  | le :: les, h => by
    obtain ⟨hle, hles⟩ := List.forall_mem_cons.1 h
    have hcons : parsedMessages (le :: les) = (messageOf le).withLineEnds :: parsedMessages les :=
      rfl
    rw [List.flatMap_cons, List.append_assoc, lineEnds_logLine hf hle.time,
      lineEnds_lines hf hles, hcons, List.flatMap_cons, List.append_assoc]

theorem all_lines (hf : f.Numeric) {les : List LogEvent} (h : ∀ le ∈ les, Logged f le) :
    (les.flatMap logLine).all isXmlByte = true := by
  rw [List.all_eq_true]
  intro c hc
  obtain ⟨le, hle, hc⟩ := List.mem_flatMap.1 hc
  exact List.all_eq_true.1 (all_logLine hf (h le hle).time (h le hle).xml) c hc

/-- The file is read as its elements. -/
theorem decodeFile_eq (hf : f.Numeric) {les : List LogEvent} (h : ∀ le ∈ les, Logged f le) :
    ∃ fuel, les.length < fuel ∧ decodeFile (logFile les) =
      decodeMessages fuel ((parsedMessages les).flatMap Message.written ++ logFooter) := by
  have hall : (logFile les).all isXmlByte = true := by
    simp only [logFile, List.all_append, all_lines hf h, Bool.true_and]
    decide
  have hends : lineEnds false (logFile les) =
      ascii "<logfile>\n" ++ ((parsedMessages les).flatMap Message.written ++ logFooter) := by
    rw [logFile, logHeader, lineEnds_append_of_not_mem _ (by decide), lineEnds_lines hf h]
  have hlen : ∀ ms : List Message, ms.length ≤ (ms.flatMap Message.written).length := by
    intro ms
    induction ms with
    | nil => exact le_rfl
    | cons m ms ih =>
      have hend : (ascii "</text></message>\n").length = 18 := rfl
      simp only [List.flatMap_cons, List.length_append, List.length_cons, Message.written]
      omega
  refine ⟨((parsedMessages les).flatMap Message.written ++ logFooter).length + 1, ?_, ?_⟩
  · have hles := hlen (parsedMessages les)
    rw [parsedMessages, List.length_map] at hles
    rw [List.length_append, parsedMessages]
    omega
  · rw [decodeFile, input, if_pos hall, hends]
    simp only [Option.bind_eq_bind, Option.bind_some, expect_append]

theorem decodeMessages_of_plain : ∀ {ms : List Message},
    (∀ m ∈ ms, m.Inert ∧ Plain m.subsystem ∧ Plain m.function) → ∀ {fuel : ℕ}, ms.length < fuel →
      decodeMessages fuel (ms.flatMap Message.written ++ logFooter) = some ms
  | [], _, fuel + 1, _ => by
    rw [decodeMessages]
    rfl
  | m :: ms, h, fuel + 1, hfuel => by
    obtain ⟨⟨hinert, hsubsystem, hfunction⟩, hms⟩ := List.forall_mem_cons.1 h
    have ih := decodeMessages_of_plain hms (show ms.length < fuel by simpa using hfuel)
    have hne : ∀ s : Bytes, m.written ++ s ≠ ascii "</logfile>\n" := by
      intro s heq
      have := congrArg (List.take 2) heq
      simp [Message.written, ascii] at this
    rw [List.flatMap_cons, List.append_assoc, decodeMessages, if_neg (hne _),
      decodeMessage_of_plain hinert hsubsystem hfunction]
    simp only [Option.bind_eq_bind, Option.bind_some, ih, Option.pure_def]

theorem decodeFile_iff_legible (hf : f.Numeric) {les : List LogEvent}
    (h : ∀ le ∈ les, Logged f le) :
    decodeFile (logFile les) = some (les.map messageOf) ↔ ∀ le ∈ les, Legible le := by
  obtain ⟨fuel, hfuel, hread⟩ := decodeFile_eq hf h
  rw [hread]
  constructor
  · intro hout
    have hlonger : List.Forall₂ NoLonger (parsedMessages les) (les.map messageOf) := by
      rw [parsedMessages, List.forall₂_map_left_iff, List.forall₂_map_right_iff]
      exact List.forall₂_same.2 fun le _ => noLonger_messageOf le
    obtain ⟨-, heq, hplain⟩ := decodeMessages_run (a := []) (b := []) rfl (Or.inl rfl) hout hlonger
    intro le hle
    rw [parsedMessages] at heq hplain
    obtain ⟨hsubsystem, hfunction⟩ := hplain _ (List.mem_map_of_mem hle)
    exact legible_of_eq (List.map_inj_left.1 heq le hle) hsubsystem hfunction
  · intro hlegible
    have heq : parsedMessages les = les.map messageOf :=
      List.map_congr_left fun le hle => withLineEnds_messageOf (hlegible le hle)
    rw [heq]
    refine decodeMessages_of_plain ?_ (by simpa using hfuel)
    intro m hm
    obtain ⟨le, hle, rfl⟩ := List.mem_map.1 hm
    have hinert := inert_messageOf hf (h le hle).time
    rw [withLineEnds_messageOf (hlegible le hle)] at hinert
    exact ⟨hinert, (hlegible le hle).subsystem.1, (hlegible le hle).function.1⟩

/-- A line, and a file, is read back just if the events are legible. -/
theorem decodes_iff_legible (f : TimeFormat) (hf : f.Numeric) :
    (∀ le, Logged f le → (decodeLine (logLine le) = some (messageOf le) ↔ Legible le)) ∧
    ∀ les, (∀ le ∈ les, Logged f le) →
      (decodeFile (logFile les) = some (les.map messageOf) ↔ ∀ le ∈ les, Legible le) :=
  ⟨fun _ h => decodeLine_iff_legible hf h.time h.xml, fun _ h => decodeFile_iff_legible hf h⟩

/-! ## Two events -/

/-- The message has ends of sections. -/
def bracketsEvent : LogEvent :=
  ⟨.severe, 0, ascii "a]]>&]]]>", 1483228800005000000, ascii "void f(int)", ascii "s",
    formatTime newYear 1483228800005000000⟩

/-- A function as `__PRETTY_FUNCTION__` names it. -/
def templateEvent : LogEvent :=
  ⟨.info, 0, ascii "text", 1483228800005000000, ascii "void f(std::vector<int>)", ascii "s",
    formatTime newYear 1483228800005000000⟩

theorem decodes_bracketsEvent :
    decodeLine (logLine bracketsEvent) = some (messageOf bracketsEvent) ∧
      decodeFile (logFile [bracketsEvent, bracketsEvent]) =
        some [messageOf bracketsEvent, messageOf bracketsEvent] := by
  have hlogged : Logged newYear bracketsEvent := ⟨rfl, by unfold XmlStrings; decide⟩
  have hlegible : Legible bracketsEvent :=
    ⟨⟨by decide, by decide⟩, ⟨by decide, by decide⟩, by decide⟩
  obtain ⟨hline, hfile⟩ := decodes_iff_legible newYear newYear_numeric
  exact ⟨(hline _ hlogged).2 hlegible,
    (hfile [bracketsEvent, bracketsEvent] (by simp [hlogged])).2 (by simp [hlegible])⟩

/-- The angle brackets of the function are read as a tag. -/
theorem template_not_decoded :
    ¬∀ f : TimeFormat, f.Numeric → ∀ le, Logged f le →
      decodeLine (logLine le) = some (messageOf le) := by
  intro h
  have hlogged : Logged newYear templateEvent := ⟨rfl, by unfold XmlStrings; decide⟩
  have hlegible := (decodeLine_iff_legible newYear_numeric hlogged.time hlogged.xml).1
    (h newYear newYear_numeric templateEvent hlogged)
  exact absurd hlegible.function.1.tag (by decide)

end Logfile
