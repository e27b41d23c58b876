import Logfile.StompPacket
import Logfile.Xml

/-!
# The map in the body of a SEND packet

`sanitize_string` works character by character whatever the order of its replacements
(`sanitizeString_eq`) : no replacement puts in a character that a later one replaces. So the
entities can be undone (`sanitizeString_charwise`), a sanitized string is read back by an XML
reader with each NUL written out, and the body as the map of the event's values
(`decodeMap_sendBody`).

The time is not sanitized. It has the characters of `strftime`'s `%Y-%m-%d %H:%M:%S`.
-/

namespace Logfile

open Text Xml

/-! ## `sanitize_string` by characters -/

/-- What `sanitize_string` makes of a character. -/
def sanitizeByte (c : Byte) : Bytes :=
  if c = 38 then ascii "&amp;"
  else if c = 34 then ascii "&quot;"
  else if c = 39 then ascii "&apos;"
  else if c = 60 then ascii "&lt;"
  else if c = 62 then ascii "&gt;"
  else if c = 0 then ascii "\\0"
  else [c]

theorem replaceByte_append (c : Byte) (new s t : Bytes) :
    replaceByte c new (s ++ t) = replaceByte c new s ++ replaceByte c new t :=
  List.flatMap_append

theorem replaceByte_singleton (c : Byte) (new : Bytes) (x : Byte) :
    replaceByte c new [x] = if x = c then new else [x] := by
  simp [replaceByte]

/-- Replacements that do not put in each other's characters commute. -/
theorem replaceByte_comm {c d : Byte} {new new' : Bytes} (hcd : c ≠ d) (hc : c ∉ new')
    (hd : d ∉ new) (s : Bytes) :
    replaceByte c new (replaceByte d new' s) = replaceByte d new' (replaceByte c new s) := by
  induction s with
  | nil => rfl
  | cons x s ih =>
    have hhead : replaceByte c new (replaceByte d new' [x]) =
        replaceByte d new' (replaceByte c new [x]) := by
      rw [replaceByte_singleton, replaceByte_singleton]
      split_ifs with hxd hxc hxc
      · exact absurd (hxc.symm.trans hxd) hcd
      · rw [replaceByte_of_not_mem new hc, hxd, replaceByte_singleton, if_pos rfl]
      · rw [replaceByte_of_not_mem new' hd, hxc, replaceByte_singleton, if_pos rfl]
      · rw [replaceByte_singleton, replaceByte_singleton, if_neg hxc, if_neg hxd]
    rw [← List.singleton_append, replaceByte_append, replaceByte_append, replaceByte_append,
      replaceByte_append, ih, hhead]

/-- A replacement of one character. -/
def replaceEntry (s : Bytes) (i : Bytes × Bytes) : Bytes :=
  replaceAll s i.1 i.2

theorem replaceEntry_comm : ∀ i ∈ replacements, ∀ j ∈ replacements, ∀ s,
    replaceEntry (replaceEntry s i) j = replaceEntry (replaceEntry s j) i := by
  have hall : ∀ i ∈ replacements, ∀ j ∈ replacements, ∃ c d, i.1 = [c] ∧ j.1 = [d] ∧
      (c = d ∧ i = j ∨ c ≠ d ∧ c ∉ j.2 ∧ d ∉ i.2) := by
    intro i hi j hj
    refine ⟨i.1.headD 0, j.1.headD 0, ?_⟩
    revert i j
    decide
  intro i hi j hj s
  obtain ⟨c, d, hc, hd, ⟨-, rfl⟩ | ⟨hcd, hcj, hdi⟩⟩ := hall i hi j hj
  · rfl
  · simp only [replaceEntry, hc, hd, replaceAll_singleton]
    exact (replaceByte_comm hcd hcj hdi s).symm

/-- The order of the entries does not matter. -/
theorem sanitizeString_order (order : LiteralOrder) (s : Bytes) : sanitizeString order s =
    replaceByte 0 (ascii "\\0") (replaceByte 62 (ascii "&gt;") (replaceByte 60 (ascii "&lt;")
      (replaceByte 39 (ascii "&apos;") (replaceByte 34 (ascii "&quot;")
        (replaceByte 38 (ascii "&amp;") s))))) := by
  have hfold : ∀ cur,
      order.entries.foldl replaceEntry cur = replacements.foldl replaceEntry cur := by
    intro cur
    refine order.perm.foldl_eq' (fun i hi j hj s => ?_) cur
    exact replaceEntry_comm i (order.perm.subset hi) j (order.perm.subset hj) s
  have hentries : ∀ cur, replacements.foldl replaceEntry cur =
      replaceByte 62 (ascii "&gt;") (replaceByte 60 (ascii "&lt;")
        (replaceByte 39 (ascii "&apos;") (replaceByte 34 (ascii "&quot;") cur))) := by
    intro cur
    simp only [← replaceAll_singleton]
    rfl
  calc sanitizeString order s
      = replaceAll (order.entries.foldl replaceEntry (replaceAll s (ascii "&") (ascii "&amp;")))
          [0] (ascii "\\0") := rfl
    _ = _ := by
      rw [hfold, hentries, show ascii "&" = [38] from rfl, replaceAll_singleton,
        replaceAll_singleton]

/-- `sanitize_string` replaces each character on its own. -/
theorem sanitizeString_eq (order : LiteralOrder) (s : Bytes) :
    sanitizeString order s = s.flatMap sanitizeByte := by
  rw [sanitizeString_order]
  induction s with
  | nil => rfl
  | cons x s ih =>
    have hhead : replaceByte 0 (ascii "\\0") (replaceByte 62 (ascii "&gt;")
        (replaceByte 60 (ascii "&lt;") (replaceByte 39 (ascii "&apos;")
          (replaceByte 34 (ascii "&quot;") (replaceByte 38 (ascii "&amp;") [x]))))) =
            sanitizeByte x := by
      unfold sanitizeByte
      split_ifs with h h h h h h
      · subst h
        rfl
      · subst h
        rfl
      · subst h
        rfl
      · subst h
        rfl
      · subst h
        rfl
      · subst h
        rfl
      · simp only [replaceByte_singleton, *, if_false]
    rw [List.flatMap_cons, ← hhead, ← ih, ← List.singleton_append]
    simp only [replaceByte_append]

/-- A value as the map shows it : every NUL is a backslash and a '0'. -/
def shownNul (s : Bytes) : Bytes :=
  replaceByte 0 (ascii "\\0") s

/-! ## The entities undone -/

/-- The five entities undone, from left to right. -/
def undoEntities : Bytes → Bytes
  | 38 :: 97 :: 109 :: 112 :: 59 :: s => 38 :: undoEntities s
  | 38 :: 113 :: 117 :: 111 :: 116 :: 59 :: s => 34 :: undoEntities s
  | 38 :: 97 :: 112 :: 111 :: 115 :: 59 :: s => 39 :: undoEntities s
  | 38 :: 108 :: 116 :: 59 :: s => 60 :: undoEntities s
  | 38 :: 103 :: 116 :: 59 :: s => 62 :: undoEntities s
  | c :: s => c :: undoEntities s
  | [] => []

theorem undoEntities_cons {c : Byte} (h : c ≠ 38) (s : Bytes) :
    undoEntities (c :: s) = c :: undoEntities s := by
  rw [undoEntities]
  all_goals
    rintro s rfl
    exact absurd rfl h

/-- What `sanitize_string` makes of a character is undone, wherever it stands. -/
theorem undoEntities_sanitizeByte (c : Byte) (s : Bytes) :
    undoEntities (sanitizeByte c ++ s) = shownNul [c] ++ undoEntities s := by
  unfold sanitizeByte
  split_ifs with h h h h h h0
  · subst h
    rfl
  · subst h
    rfl
  · subst h
    rfl
  · subst h
    rfl
  · subst h
    rfl
  · subst h0
    rfl
  · rw [List.singleton_append, undoEntities_cons ‹_›, shownNul, replaceByte_singleton, if_neg h0]
    rfl

/-- `sanitize_string` escapes each character on its own whatever the order of its
replacements, and undoing the entities gives the string with its NULs shown. -/
theorem sanitizeString_charwise (order : LiteralOrder) (s : Bytes) :
    sanitizeString order s = s.flatMap sanitizeByte ∧
      undoEntities (sanitizeString order s) = shownNul s := by
  refine ⟨sanitizeString_eq order s, ?_⟩
  rw [sanitizeString_eq]
  induction s with
  | nil => rfl
  | cons c s ih =>
    rw [List.flatMap_cons, undoEntities_sanitizeByte, ih, shownNul, shownNul, shownNul,
      ← replaceByte_append]
    rfl

example : sanitizeString .listed (ascii "<a & 'b'>" ++ [0]) =
    ascii "&lt;a &amp; &apos;b&apos;&gt;\\0" := by
  decide

/-! ## Sanitized strings read back -/

theorem gt_not_mem_sanitized (s : Bytes) : 62 ∉ s.flatMap sanitizeByte := by
  intro h
  obtain ⟨x, -, hx⟩ := List.mem_flatMap.1 h
  revert hx
  unfold sanitizeByte
  split_ifs with h38 h34 h39 h60 h62 h0
  · decide
  · decide
  · decide
  · decide
  · decide
  · decide
  · simpa using fun heq => h62 heq.symm

/-- A character that needs no escape, in front of text without '>'. -/
theorem item_of_plain {c : Byte} {u s : Bytes} (hlt : c ≠ 60) (hamp : c ≠ 38) (hgt : c ≠ 62)
    (hu : 62 ∉ u) : Xml.Item (c :: (u ++ (ascii "</" ++ s))) [c] (u ++ (ascii "</" ++ s)) := by
  refine .char hlt hamp fun hpre => ?_
  have hinfix := close_within (u := c :: u) hpre
  have hmem : (62 : Byte) ∈ c :: u := hinfix.subset (by decide)
  rcases List.mem_cons.1 hmem with h | h
  · exact hgt h.symm
  · exact hu h

/-- A replacement that is a reference to the character. -/
theorem content_reference {c : Byte} {name s t r : Bytes} (hname : 59 ∉ name)
    (hc : refText name = some [c]) (h : Content s t r) :
    Content (38 :: (name ++ 59 :: s)) ([c] ++ t) r :=
  .item (.reference hname hc) h

theorem content_sanitizeByte (x : Byte) {u t r : Bytes} (hgt : 62 ∉ u)
    (h : Content (u ++ (ascii "</" ++ r)) t (ascii "</" ++ r)) :
    Content (sanitizeByte x ++ (u ++ (ascii "</" ++ r))) (shownNul [x] ++ t)
      (ascii "</" ++ r) := by
  unfold sanitizeByte
  split_ifs with h38 h34 h39 h60 h62 h0
  · subst h38
    exact content_reference (by decide) (by decide : refText (ascii "amp") = some [38]) h
  · subst h34
    exact content_reference (by decide) (by decide : refText (ascii "quot") = some [34]) h
  · subst h39
    exact content_reference (by decide) (by decide : refText (ascii "apos") = some [39]) h
  · subst h60
    exact content_reference (by decide) (by decide : refText (ascii "lt") = some [60]) h
  · subst h62
    exact content_reference (by decide) (by decide : refText (ascii "gt") = some [62]) h
  · subst h0
    have hzero : Content (48 :: (u ++ (ascii "</" ++ r))) ([48] ++ t) (ascii "</" ++ r) :=
      .item (item_of_plain (by decide) (by decide) (by decide) hgt) h
    have hgt' : 62 ∉ (48 :: u : Bytes) := by simp [hgt]
    have hslash : Xml.Item (92 :: (48 :: u ++ (ascii "</" ++ r))) [92]
        (48 :: u ++ (ascii "</" ++ r)) :=
      item_of_plain (by decide) (by decide) (by decide) hgt'
    have hshown : shownNul [0] ++ t = [92] ++ ([48] ++ t) := rfl
    rw [hshown]
    exact .item hslash hzero
  · have hshown : shownNul [x] = [x] := by rw [shownNul, replaceByte_singleton, if_neg h0]
    rw [hshown]
    exact .item (item_of_plain h60 h38 h62 hgt) h

theorem writes_sanitized : ∀ s : Bytes, Writes (s.flatMap sanitizeByte) (shownNul s)
  | [], _ => .stop
  | x :: s, r => by
    have hcons : shownNul (x :: s) = shownNul [x] ++ shownNul s :=
      replaceByte_append 0 _ [x] s
    rw [List.flatMap_cons, List.append_assoc, hcons]
    exact content_sanitizeByte x (gt_not_mem_sanitized s) (writes_sanitized s r)

/-! ## The map -/

/-- An entry, and the rest behind it. -/
def decodeEntry (s : Bytes) : Option ((Bytes × Bytes) × Bytes) := do
  let s ← expect (ascii "<entry><string>") s
  let (key, s) ← text s
  let s ← expect (ascii "</string><string>") s
  let (value, s) ← text s
  let s ← expect (ascii "</string></entry>\n") s
  return ((key, value), s)

/-- The entries up to the end of the map, which ends the body. Every round consumes an
entry. -/
def decodeEntries : ℕ → Bytes → Option (List (Bytes × Bytes))
  | 0, _ => none
  | fuel + 1, s =>
    if s = ascii "</map>\n" then some []
    else do
      let (entry, s) ← decodeEntry s
      return entry :: (← decodeEntries fuel s)

/-- The map that a body is read as. The receiver undoes the entities and nothing else : it is not
`Xml.input`, which would replace the line ends of a value and refuse control characters. -/
def decodeMap (s : Bytes) : Option (List (Bytes × Bytes)) := do
  let s ← expect (ascii "<map>\n") s
  decodeEntries (s.length + 1) s

theorem decodeEntry_mapEntry {key value written : Bytes} (hkey : Plain key)
    (hvalue : Writes written value) (s : Bytes) :
    decodeEntry (mapEntry key written ++ s) = some ((key, value), s) := by
  have hclose : ∀ t : Bytes, ascii "</string><string>" ++ t =
      ascii "</" ++ (ascii "string><string>" ++ t) := fun t => rfl
  have hend : ∀ t : Bytes, ascii "</string></entry>\n" ++ t =
      ascii "</" ++ (ascii "string></entry>\n" ++ t) := fun t => rfl
  have hkeyText : text (key ++ (ascii "</string><string>" ++
      (written ++ (ascii "</string></entry>\n" ++ s)))) =
        some (key,
          ascii "</string><string>" ++ (written ++ (ascii "</string></entry>\n" ++ s))) := by
    rw [hclose]
    exact hkey.writes.text_eq _
  have hvalueText : text (written ++ (ascii "</string></entry>\n" ++ s)) =
      some (value, ascii "</string></entry>\n" ++ s) := by
    rw [hend]
    exact hvalue.text_eq _
  rw [decodeEntry, mapEntry]
  simp only [List.append_assoc, expect_append, Option.bind_eq_bind, Option.bind_some, hkeyText,
    hvalueText, Option.pure_def]

theorem length_le_flatMap_mapEntry : ∀ entries : List (Bytes × Bytes × Bytes),
    entries.length ≤ (entries.flatMap fun e => mapEntry e.1 e.2.1).length
  | [] => le_rfl
  | e :: entries => by
    have ih := length_le_flatMap_mapEntry entries
    simp [mapEntry, ascii]
    omega

/-- A list of entries is read back as the list of what they write. -/
theorem decodeEntries_flatMap : ∀ {entries : List (Bytes × Bytes × Bytes)},
    (∀ e ∈ entries, Plain e.1 ∧ Writes e.2.1 e.2.2) → ∀ {fuel : ℕ}, entries.length < fuel →
      decodeEntries fuel (entries.flatMap (fun e => mapEntry e.1 e.2.1) ++ ascii "</map>\n") =
        some (entries.map fun e => (e.1, e.2.2))
  | [], _, fuel + 1, _ => by
    rw [decodeEntries]
    rfl
  | (key, written, value) :: entries, h, fuel + 1, hfuel => by
    obtain ⟨⟨hkey, hwritten⟩, hentries⟩ := List.forall_mem_cons.1 h
    have ih := decodeEntries_flatMap hentries (show entries.length < fuel by simpa using hfuel)
    have hne : ∀ s : Bytes, mapEntry key written ++ s ≠ ascii "</map>\n" := by
      intro s heq
      have := congrArg (List.take 2) heq
      simp [mapEntry, ascii] at this
    rw [List.flatMap_cons, List.append_assoc, decodeEntries, if_neg (hne _),
      decodeEntry_mapEntry hkey hwritten]
    simp only [Option.bind_eq_bind, Option.bind_some, ih, Option.pure_def, List.map_cons]

/-! ## The body -/

/-- A value the system was asked for, before it is sanitized. -/
def systemName : Option Bytes → Bytes
  | some name => cStr name
  | none => ascii "/UNKNOWN/"

/-- The entries of the body with their original values. -/
def mapEntriesOf (p : StompParams) (le : LogEvent) : List (Bytes × Bytes) :=
  [(ascii "APPLICATION-ID", p.appName), (ascii "CREATETIME", le.timeString),
    (ascii "HOST", systemName p.hostname), (ascii "NAME", le.function),
    (ascii "SEVERITY", levelString le.level), (ascii "TEXT", le.message),
    (ascii "TYPE", ascii "log"), (ascii "USER", systemName p.pwName),
    (ascii "CLASS", le.subsystemString)]

theorem shownNul_of_not_mem {s : Bytes} (h : 0 ∉ s) : shownNul s = s :=
  replaceByte_of_not_mem _ h

theorem writes_sanitizeString (order : LiteralOrder) (s : Bytes) :
    Writes (sanitizeString order s) (shownNul s) := by
  rw [sanitizeString_eq]
  exact writes_sanitized s

/-- Text that is pasted as it is. -/
theorem writes_of_plain {s : Bytes} (hplain : Plain s) (hnul : 0 ∉ s) : Writes s (shownNul s) := by
  rw [shownNul_of_not_mem hnul]
  exact hplain.writes

theorem writes_unknown : Writes (ascii "/UNKNOWN/") (shownNul (ascii "/UNKNOWN/")) :=
  writes_of_plain (by decide) (by decide)

theorem writes_mHost (p : StompParams) : Writes p.mHost (shownNul (systemName p.hostname)) := by
  unfold StompParams.mHost
  cases p.hostname with
  | some name => exact writes_sanitizeString _ _
  | none => exact writes_unknown

theorem writes_mUser (p : StompParams) : Writes p.mUser (shownNul (systemName p.pwName)) := by
  unfold StompParams.mUser
  cases p.pwName with
  | some name => exact writes_sanitizeString _ _
  | none => exact writes_unknown

theorem plain_levelString (l : LogLevel) : Plain (levelString l) := by
  cases l <;> decide

theorem plain_formatTime {f : TimeFormat} (hf : f.Numeric) (t : ℤ) : Plain (formatTime f t) := by
  have hnot := fun c hdigit hc => @not_mem_formatTime f hf c hdigit hc t
  exact plain_of_not_mem (hnot 60 (by decide) (by decide)) (hnot 38 (by decide) (by decide))
    (hnot 62 (by decide) (by decide))

/-- The body is a map of exactly the event's values, and the packet goes on behind it with
the NUL only. -/
theorem decodeMap_sendBody (f : TimeFormat) (hf : f.Numeric) (p : StompParams) (le : LogEvent)
    (htime : le.timeString = formatTime f le.time) :
    decodeMap (sendBody p le) =
        some ((mapEntriesOf p le).map fun e => (e.1, shownNul e.2)) ∧
      0 ∉ sendBody p le ∧
      ∀ receipt, ∃ header, sendPacket p receipt le = header ++ sendBody p le ++ [0] := by
  have hnul : 0 ∉ le.timeString := htime ▸ nul_not_mem_formatTime f le.time
  have hplain : Plain le.timeString := htime ▸ plain_formatTime hf le.time
  refine ⟨?_, nul_not_mem_sendBody p le hnul, fun receipt => ⟨_, rfl⟩⟩
  let entries : List (Bytes × Bytes × Bytes) :=
    [(ascii "APPLICATION-ID", p.mAppName, shownNul p.appName),
      (ascii "CREATETIME", le.timeString, shownNul le.timeString),
      (ascii "HOST", p.mHost, shownNul (systemName p.hostname)),
      (ascii "NAME", sanitizeString p.order le.function, shownNul le.function),
      (ascii "SEVERITY", levelString le.level, shownNul (levelString le.level)),
      (ascii "TEXT", sanitizeString p.order le.message, shownNul le.message),
      (ascii "TYPE", ascii "log", shownNul (ascii "log")),
      (ascii "USER", p.mUser, shownNul (systemName p.pwName)),
      (ascii "CLASS", sanitizeString p.order le.subsystemString, shownNul le.subsystemString)]
  have hbody : sendBody p le = ascii "<map>\n" ++
      (entries.flatMap (fun e => mapEntry e.1 e.2.1) ++ ascii "</map>\n") := by
    simp only [sendBody, entries, List.flatMap_cons, List.flatMap_nil, List.append_assoc,
      List.nil_append]
  have hentries : ∀ e ∈ entries, Plain e.1 ∧ Writes e.2.1 e.2.2 := by
    simp only [entries, List.forall_mem_cons]
    refine ⟨⟨by decide, writes_sanitizeString _ _⟩, ⟨by decide, writes_of_plain hplain hnul⟩,
      ⟨by decide, writes_mHost p⟩, ⟨by decide, writes_sanitizeString _ _⟩,
      ⟨by decide, writes_of_plain (plain_levelString _) (nul_not_mem_levelString _)⟩,
      ⟨by decide, writes_sanitizeString _ _⟩, ⟨by decide, writes_of_plain (by decide) (by decide)⟩,
      ⟨by decide, writes_mUser p⟩, ⟨by decide, writes_sanitizeString _ _⟩, by simp⟩
  rw [hbody, decodeMap, expect_append]
  simp only [Option.bind_eq_bind, Option.bind_some]
  have hlen := length_le_flatMap_mapEntry entries
  rw [decodeEntries_flatMap hentries (by rw [List.length_append]; omega)]
  rfl

def quotingEvent : LogEvent :=
  ⟨.info, 0, ascii "a < b && '" ++ [0], 1483228800005000000, ascii "f<int>", ascii "s",
    formatTime newYear 1483228800005000000⟩

def quotingParams : StompParams :=
  ⟨.listed, ascii "ioc", ⟨ascii "stomp", [], [], ascii "broker", 61613,
    ascii "LOG"⟩, some (ascii "host"), none⟩

theorem decodeMap_quotingEvent :
    (decodeMap (sendBody quotingParams quotingEvent)).bind (·.lookup (ascii "TEXT")) =
        some (ascii "a < b && '\\0") ∧ 0 ∉ sendBody quotingParams quotingEvent := by
  obtain ⟨hmap, hnul, -⟩ :=
    decodeMap_sendBody newYear newYear_numeric quotingParams quotingEvent rfl
  rw [hmap]
  exact ⟨by decide, hnul⟩

end Logfile
