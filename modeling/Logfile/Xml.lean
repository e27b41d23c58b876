import Logfile.Numbers

/-!
# The text of XML elements

A reader for the content of an element that has only text : character data, references to
characters and to the predefined entities, CDATA sections, and comments and processing
instructions, which are skipped. It stops at the first end tag. An element inside is
refused. The bytes of a character from 128 on are passed one by one. Before a document is
parsed, its line ends are made line feeds (`input`).

`Content` is the grammar and `text` the reader (`text_eq_some_iff`). Every item stands for
at most as many bytes as it is written with, and for as many only if it is written as it is
(`Content.exists_used`).
-/

namespace Xml

open Text

/-! ## Cutting and matching -/

/-- What stands before and behind the first `pat`. -/
def cutAt (pat s : Bytes) : Option (Bytes × Bytes) :=
  (search pat s).map fun k => (s.take k, s.drop (k + pat.length))

/-- The rest behind `tag`, which has to come first. -/
def expect (tag s : Bytes) : Option Bytes :=
  if tag <+: s then some (s.drop tag.length) else none

@[simp] theorem expect_append (tag s : Bytes) : expect tag (tag ++ s) = some s := by
  simp [expect]

theorem expect_eq_some {tag s r : Bytes} : expect tag s = some r ↔ s = tag ++ r := by
  constructor
  · intro h
    unfold expect at h
    split_ifs at h with hpre
    obtain ⟨t, rfl⟩ := hpre
    simpa using h
  · rintro rfl
    exact expect_append tag r

theorem exists_of_cutAt {pat s a b : Bytes} (h : cutAt pat s = some (a, b)) :
    s = a ++ (pat ++ b) ∧ ∀ d e, a = d ++ e → e ≠ [] → ¬pat <+: e ++ pat ++ b := by
  obtain ⟨k, hk, hab⟩ := Option.map_eq_some_iff.1 h
  obtain ⟨a', b', rfl, rfl, hno⟩ := exists_of_search hk
  obtain ⟨rfl, rfl⟩ : a' = a ∧ b' = b := by simpa using hab
  exact ⟨by simp, hno⟩

theorem cutAt_of_search {pat a b : Bytes} (h : search pat (a ++ (pat ++ b)) = some a.length) :
    cutAt pat (a ++ (pat ++ b)) = some (a, b) := by
  rw [cutAt, h]
  simp

theorem cutAt_unbordered {pat a : Bytes} (hu : Unbordered pat) (ha : ¬pat <:+: a) (b : Bytes) :
    cutAt pat (a ++ (pat ++ b)) = some (a, b) := by
  have h := search_unbordered hu ha b
  rw [List.append_assoc] at h
  exact cutAt_of_search h

/-- No occurrence ends in a beginning `q` of the first one. -/
theorem not_infix_append {pat a b q : Bytes} (hq : q <+: pat) (hlt : q.length < pat.length)
    (h : ∀ d e, a = d ++ e → e ≠ [] → ¬pat <+: e ++ pat ++ b) : ¬pat <:+: a ++ q := by
  rintro ⟨d, t, heq⟩
  have hlen := congrArg List.length heq
  simp only [List.length_append] at hlen
  have hd : d <+: a := List.prefix_of_prefix_length_le ⟨pat ++ t, by simpa using heq⟩
    (List.prefix_append a _) (by omega)
  obtain ⟨e, rfl⟩ := hd
  have he : pat ++ t = e ++ q := by simpa using heq
  refine h d e rfl ?_ ?_
  · rintro rfl
    have hlen' := congrArg List.length he
    simp only [List.length_append, List.length_nil] at hlen'
    omega
  · obtain ⟨u, rfl⟩ := hq
    exact ⟨t ++ u ++ b, by simp [← List.append_assoc, he]⟩

theorem not_infix_of_forall {pat a b : Bytes} (hp : pat ≠ [])
    (h : ∀ d e, a = d ++ e → e ≠ [] → ¬pat <+: e ++ pat ++ b) : ¬pat <:+: a := by
  simpa using not_infix_append List.nil_prefix (List.length_pos_iff.2 hp) h

/-! ## References -/

/-- The UTF-8 bytes of a code point. -/
def utf8 (n : ℕ) : Bytes :=
  if n < 0x80 then [UInt8.ofNat n]
  else if n < 0x800 then [UInt8.ofNat (0xC0 + n / 64), UInt8.ofNat (0x80 + n % 64)]
  else if n < 0x10000 then
    [UInt8.ofNat (0xE0 + n / 4096), UInt8.ofNat (0x80 + n / 64 % 64), UInt8.ofNat (0x80 + n % 64)]
  else
    [UInt8.ofNat (0xF0 + n / 262144), UInt8.ofNat (0x80 + n / 4096 % 64),
      UInt8.ofNat (0x80 + n / 64 % 64), UInt8.ofNat (0x80 + n % 64)]

/-- The code points that a document may contain. -/
def isChar (n : ℕ) : Bool :=
  n = 9 || n = 10 || n = 13 || (0x20 ≤ n && n < 0xD800) || (0xE000 ≤ n && n < 0xFFFE) ||
    (0x10000 ≤ n && n < 0x110000)

/-- The character with the given number. -/
def charRef (base : ℕ) (ds : Bytes) : Option Bytes :=
  if ds ≠ [] ∧ ds.all (isDigit base) ∧ isChar (number base ds) then some (utf8 (number base ds))
  else none

/-- The predefined entities. -/
def entities : List (Bytes × Byte) :=
  [(ascii "amp", 38), (ascii "lt", 60), (ascii "gt", 62), (ascii "quot", 34), (ascii "apos", 39)]

/-- What the name between '&' and ';' refers to. -/
def refText (name : Bytes) : Option Bytes :=
  if ascii "#x" <+: name then charRef 16 (name.drop 2)
  else if ascii "#" <+: name then charRef 10 (name.drop 1)
  else (entities.lookup name).map ([·])

theorem length_utf8 (n : ℕ) : (utf8 n).length ≤ 4 := by
  unfold utf8
  split_ifs <;> simp

theorem length_utf8_of_lt {n : ℕ} (h : n < 128) : (utf8 n).length = 1 := by
  rw [utf8, if_pos h]
  rfl

/-- A reference is longer than what it refers to. -/
theorem length_refText {name out : Bytes} (h : refText name = some out) :
    out.length < name.length + 2 := by
  unfold refText at h
  split_ifs at h with hx hd
  · obtain ⟨ds, rfl⟩ := hx
    unfold charRef at h
    split_ifs at h with hds
    obtain rfl := Option.some.inj h
    have hpos : 0 < ds.length := List.length_pos_iff.2 (by simpa [ascii] using hds.1)
    have hlen := length_utf8 (number 16 (List.drop 2 (ascii "#x" ++ ds)))
    simp [ascii] at hlen ⊢
    omega
  · obtain ⟨ds, rfl⟩ := hd
    unfold charRef at h
    split_ifs at h with hds
    obtain rfl := Option.some.inj h
    have hdrop : List.drop 1 (ascii "#" ++ ds) = ds := rfl
    rw [hdrop] at hds ⊢
    have hlen := length_utf8 (number 10 ds)
    rcases ds with - | ⟨c, ds⟩
    · exact absurd rfl hds.1
    rcases ds with - | ⟨c', ds⟩
    · -- one digit
      have hc : digit c < 10 := by simpa [isDigit] using hds.2.1
      rw [length_utf8_of_lt (by simp [number]; omega)]
      simp [ascii]
    · simp [ascii]
      omega
  · obtain ⟨c, hc, rfl⟩ := Option.map_eq_some_iff.1 h
    simp

/-! ## Content -/

/-- The item that `s` begins with : what it stands for, and the rest behind it. -/
inductive Item : Bytes → Bytes → Bytes → Prop
  | cdata {data s} : ¬ascii "]]>" <:+: data →
      Item (ascii "<![CDATA[" ++ (data ++ (ascii "]]>" ++ s))) data s
  | comment {note s} : ¬ascii "--" <:+: note ++ ascii "-" →
      Item (ascii "<!--" ++ (note ++ (ascii "-->" ++ s))) [] s
  | instruction {note s} : ¬ascii "?>" <:+: note →
      Item (ascii "<?" ++ (note ++ (ascii "?>" ++ s))) [] s
  | reference {name out s} : 59 ∉ name → refText name = some out →
      Item (38 :: (name ++ 59 :: s)) out s
  | char {c s} : c ≠ 60 → c ≠ 38 → ¬ascii "]]>" <+: c :: s → Item (c :: s) [c] s

/-- The content that `s` begins with : its text, and the rest from the end tag on. -/
inductive Content : Bytes → Bytes → Bytes → Prop
  | stop {s} : Content (ascii "</" ++ s) [] (ascii "</" ++ s)
  | item {s out s' text rest} : Item s out s' → Content s' text rest →
      Content s (out ++ text) rest

def item (s : Bytes) : Option (Bytes × Bytes) :=
  if ascii "<![CDATA[" <+: s then cutAt (ascii "]]>") (s.drop 9)
  else if ascii "<!--" <+: s then do
    -- "--" ends a comment and must be followed by '>'
    let (_, s) ← cutAt (ascii "--") (s.drop 4)
    return ([], ← expect (ascii ">") s)
  else if ascii "<?" <+: s then do
    let (_, s) ← cutAt (ascii "?>") (s.drop 2)
    return ([], s)
  else if ascii "]]>" <+: s then none
  else
    match s with
    | [] => none
    | c :: s =>
      -- an element
      if c = 60 then none
      else if c = 38 then do
        let (name, s) ← cutAt (ascii ";") s
        return (← refText name, s)
      else some ([c], s)

/-- The reader. Every round consumes a character. -/
def content : ℕ → Bytes → Option (Bytes × Bytes)
  | 0, _ => none
  | fuel + 1, s =>
    if ascii "</" <+: s then some ([], s)
    else do
      let (out, s) ← item s
      let (text, rest) ← content fuel s
      return (out ++ text, rest)

def text (s : Bytes) : Option (Bytes × Bytes) :=
  content (s.length + 1) s

example : text (ascii "a &lt;<![CDATA[<b]]>&#x41;</t>") = some (ascii "a <<bA", ascii "</t>") := by
  decide

/-! ## The reader reads the grammar -/

/-- No "--" starts in the note of a comment, the first '-' of its end included. -/
theorem comment_iff {note s : Bytes} :
    (∀ d e, note = d ++ e → e ≠ [] → ¬ascii "--" <+: e ++ ascii "--" ++ s) ↔
      ¬ascii "--" <:+: note ++ ascii "-" := by
  constructor
  · exact not_infix_append ⟨ascii "-", rfl⟩ (by decide)
  · rintro h d e rfl he hpre
    have hsplit : e ++ ascii "--" ++ s = (e ++ ascii "-") ++ (ascii "-" ++ s) := by simp [ascii]
    have hpos : 0 < e.length := List.length_pos_iff.2 he
    rw [hsplit] at hpre
    have hshort : ascii "--" <+: e ++ ascii "-" :=
      List.prefix_of_prefix_length_le hpre (List.prefix_append _ _) (by simp [ascii]; omega)
    exact h (hshort.isInfix.trans ⟨d, [], by simp⟩)

theorem item_eq_some_iff {s out s' : Bytes} : item s = some (out, s') ↔ Item s out s' := by
  constructor
  · intro h
    unfold item at h
    split_ifs at h with hcdata hcomment hinstr hend
    · obtain ⟨s, rfl⟩ := hcdata
      obtain ⟨hs, hno⟩ := exists_of_cutAt h
      have hdrop : List.drop 9 (ascii "<![CDATA[" ++ s) = s := rfl
      rw [hdrop] at hs
      subst hs
      exact .cdata (not_infix_of_forall (by decide) hno)
    · obtain ⟨s, rfl⟩ := hcomment
      simp only [Option.bind_eq_bind, Option.bind_eq_some_iff, Prod.exists, Option.pure_def,
        Option.some.injEq, Prod.mk.injEq] at h
      obtain ⟨note, s₁, hcut, s₂, hexpect, rfl, rfl⟩ := h
      obtain ⟨hs, hno⟩ := exists_of_cutAt hcut
      have hdrop : List.drop 4 (ascii "<!--" ++ s) = s := rfl
      rw [hdrop] at hs
      obtain rfl := expect_eq_some.1 hexpect
      subst hs
      exact .comment (comment_iff.1 hno)
    · obtain ⟨s, rfl⟩ := hinstr
      simp only [Option.bind_eq_bind, Option.bind_eq_some_iff, Prod.exists, Option.pure_def,
        Option.some.injEq, Prod.mk.injEq] at h
      obtain ⟨note, s', hcut, rfl, rfl⟩ := h
      obtain ⟨hs, hno⟩ := exists_of_cutAt hcut
      have hdrop : List.drop 2 (ascii "<?" ++ s) = s := rfl
      rw [hdrop] at hs
      subst hs
      exact .instruction (not_infix_of_forall (by decide) hno)
    · cases s with
      | nil => cases h
      | cons c s =>
        simp only at h
        split_ifs at h with hlt hamp
        · subst hamp
          simp only [Option.bind_eq_bind, Option.bind_eq_some_iff, Prod.exists, Option.pure_def,
            Option.some.injEq, Prod.mk.injEq] at h
          obtain ⟨name, s', hcut, out, hout, rfl, rfl⟩ := h
          obtain ⟨rfl, hno⟩ := exists_of_cutAt hcut
          have hname : ¬ascii ";" <:+: name := not_infix_of_forall (by decide) hno
          rw [show ascii ";" = [59] from rfl, List.singleton_infix_iff] at hname
          exact .reference hname hout
        · obtain ⟨rfl, rfl⟩ : [c] = out ∧ s = s' := by simpa using h
          exact .char hlt hamp hend
  · intro h
    cases h with
    | cdata hdata =>
      unfold item
      rw [if_pos (List.prefix_append _ _)]
      exact cutAt_unbordered (by decide) hdata _
    | @comment note s hnote =>
      have hcut : cutAt (ascii "--") (note ++ (ascii "--" ++ (ascii ">" ++ s'))) =
          some (note, ascii ">" ++ s') := by
        refine cutAt_of_search ?_
        rw [search_append_of_forall, search_eq_zero (List.prefix_append _ _)]
        · rfl
        · simpa using comment_iff.2 hnote
      have hdrop : List.drop 4 (ascii "<!--" ++ (note ++ (ascii "-->" ++ s'))) =
          note ++ (ascii "--" ++ (ascii ">" ++ s')) := by simp [ascii]
      unfold item
      rw [if_neg (by simp [ascii]), if_pos (List.prefix_append _ _), hdrop, hcut]
      simp
    | @instruction note s hnote =>
      unfold item
      have hdrop : List.drop 2 (ascii "<?" ++ (note ++ (ascii "?>" ++ s'))) =
          note ++ (ascii "?>" ++ s') := rfl
      rw [if_neg (by simp [ascii]), if_neg (by simp [ascii]), if_pos (List.prefix_append _ _),
        hdrop, cutAt_unbordered (by decide) hnote]
      rfl
    | @reference name out s hname hout =>
      have hcut : cutAt (ascii ";") (name ++ 59 :: s') = some (name, s') := by
        have hinfix : ¬ascii ";" <:+: name := by
          rwa [show ascii ";" = [59] from rfl, List.singleton_infix_iff]
        exact cutAt_unbordered (by decide) hinfix s'
      unfold item
      rw [if_neg (by simp [ascii]), if_neg (by simp [ascii]), if_neg (by simp [ascii]),
        if_neg (by simp [ascii])]
      simp [hcut, hout]
    | @char c s hlt hamp hend =>
      have hmarkup : ∀ tag : Bytes, tag.head? = some 60 → ¬tag <+: c :: s' := by
        rintro tag htag hpre
        obtain ⟨tag, rfl⟩ := List.head?_eq_some_iff.1 htag
        exact hlt (List.cons_prefix_cons.1 hpre).1.symm
      unfold item
      rw [if_neg (hmarkup _ rfl), if_neg (hmarkup _ rfl), if_neg (hmarkup _ rfl), if_neg hend]
      simp [hlt, hamp]

theorem Item.length_lt {s out s' : Bytes} (h : Item s out s') : s'.length < s.length := by
  cases h <;> simp [ascii] <;> omega

theorem content_sound : ∀ {fuel : ℕ} {s t rest : Bytes}, content fuel s = some (t, rest) →
    Content s t rest
  | fuel + 1, s, t, rest, h => by
    rw [content] at h
    split_ifs at h with hstop
    · obtain ⟨s, rfl⟩ := hstop
      obtain ⟨rfl, rfl⟩ : [] = t ∧ _ = rest := by simpa using h
      exact .stop
    · simp only [Option.bind_eq_bind, Option.bind_eq_some_iff, Prod.exists, Option.pure_def,
        Option.some.injEq, Prod.mk.injEq] at h
      obtain ⟨out, s', hitem, text, rest', hread, rfl, rfl⟩ := h
      exact .item (item_eq_some_iff.1 hitem) (content_sound hread)

theorem content_complete {s t rest : Bytes} (h : Content s t rest) :
    ∀ {fuel : ℕ}, s.length < fuel → content fuel s = some (t, rest) := by
  induction h with
  | stop =>
    intro fuel hfuel
    cases fuel with
    | zero => omega
    | succ fuel => rw [content, if_pos (List.prefix_append _ _)]
  | @item s out s' text rest hitem _ ih =>
    intro fuel hfuel
    cases fuel with
    | zero => omega
    | succ fuel =>
      have hlen := hitem.length_lt
      have hstop : ¬ascii "</" <+: s := by
        cases hitem with
        | char hlt _ _ =>
          intro hpre
          exact hlt (List.cons_prefix_cons.1 hpre).1.symm
        | _ => simp [ascii]
      rw [content, if_neg hstop, item_eq_some_iff.2 hitem]
      simp [ih (show s'.length < fuel by omega)]

/-- The reader accepts just what has the form of the grammar. -/
theorem text_eq_some_iff {s t rest : Bytes} : text s = some (t, rest) ↔ Content s t rest :=
  ⟨content_sound, fun h => content_complete h (Nat.lt_succ_self _)⟩

/-! ## Text that stands for itself -/

/-- Characters that are read as they are. -/
structure Plain (s : Bytes) : Prop where
  tag : 60 ∉ s
  ref : 38 ∉ s
  close : ¬ascii "]]>" <:+: s

instance (s : Bytes) : Decidable (Plain s) :=
  decidable_of_iff (60 ∉ s ∧ 38 ∉ s ∧ ¬ascii "]]>" <:+: s)
    ⟨fun h => ⟨h.1, h.2.1, h.2.2⟩, fun h => ⟨h.tag, h.ref, h.close⟩⟩

theorem plain_nil : Plain [] := by decide

theorem Plain.of_cons {c : Byte} {s : Bytes} (h : Plain (c :: s)) : Plain s :=
  ⟨fun hs => h.tag (List.mem_cons_of_mem _ hs), fun hs => h.ref (List.mem_cons_of_mem _ hs),
    fun hs => h.close (hs.trans (List.suffix_cons c s).isInfix)⟩

/-- Without a '>' there is no end of a section. -/
theorem plain_of_not_mem {s : Bytes} (h60 : 60 ∉ s) (h38 : 38 ∉ s) (h62 : 62 ∉ s) : Plain s :=
  ⟨h60, h38, fun h => h62 (h.subset (by decide))⟩

/-- An end of a section does not reach into an end tag. -/
theorem close_within {u s : Bytes} (h : ascii "]]>" <+: u ++ (ascii "</" ++ s)) :
    ascii "]]>" <:+: u := by
  rcases Nat.lt_or_ge u.length 3 with hlt | hge
  · have hmem : (60 : Byte) ∈ (u ++ (ascii "</" ++ s)).take 3 := by
      rw [List.take_append]
      refine List.mem_append_right _ ?_
      obtain ⟨k, hk⟩ : ∃ k, 3 - u.length = k + 1 := ⟨2 - u.length, by omega⟩
      rw [hk]
      exact List.mem_cons_self
    obtain ⟨t, ht⟩ := h
    rw [← ht] at hmem
    exact absurd hmem (by simp [ascii])
  · exact (List.prefix_of_prefix_length_le h (List.prefix_append _ _) hge).isInfix

/-- In front of an end tag, `u` is content whose text is `t`. -/
def Writes (u t : Bytes) : Prop :=
  ∀ s, Content (u ++ (ascii "</" ++ s)) t (ascii "</" ++ s)

theorem Writes.text_eq {u t : Bytes} (h : Writes u t) (s : Bytes) :
    text (u ++ (ascii "</" ++ s)) = some (t, ascii "</" ++ s) :=
  text_eq_some_iff.2 (h s)

theorem Plain.writes : ∀ {u : Bytes}, Plain u → Writes u u
  | [], _, _ => .stop
  | c :: u, h, s => by
    have htag : c ≠ 60 := by
      rintro rfl
      exact h.tag List.mem_cons_self
    have href : c ≠ 38 := by
      rintro rfl
      exact h.ref List.mem_cons_self
    exact .item (.char htag href fun hpre => h.close (close_within hpre)) (h.of_cons.writes s)

/-- The value of an attribute, behind the opening quotation mark. References in it are not
read. -/
def attValue (s : Bytes) : Option (Bytes × Bytes) := do
  let (value, s) ← cutAt (ascii "\"") s
  if 60 ∉ value ∧ 38 ∉ value then some (value, s) else none

theorem attValue_append {value : Bytes} (hquote : 34 ∉ value) (h : Plain value) (s : Bytes) :
    attValue (value ++ (ascii "\"" ++ s)) = some (value, s) := by
  have hinfix : ¬ascii "\"" <:+: value := by
    rwa [show ascii "\"" = [34] from rfl, List.singleton_infix_iff]
  rw [attValue, cutAt_unbordered (by decide) hinfix]
  simp [h.tag, h.ref]

/-! ## What is used up -/

theorem Item.exists_used {s out s' : Bytes} (h : Item s out s') :
    ∃ used, s = used ++ s' ∧ out.length ≤ used.length ∧
      (out.length = used.length → ∃ c, out = [c] ∧ used = [c] ∧ c ≠ 60 ∧ c ≠ 38 ∧
        ¬ascii "]]>" <+: s) := by
  cases h with
  | @cdata data s hdata =>
    refine ⟨ascii "<![CDATA[" ++ (out ++ ascii "]]>"), by simp, ?_, fun h => ?_⟩
    · simp
      omega
    · simp [ascii] at h
      omega
  | @comment note s hnote =>
    exact ⟨ascii "<!--" ++ (note ++ ascii "-->"), by simp, by simp, fun h => by simp [ascii] at h⟩
  | @instruction note s hnote =>
    exact ⟨ascii "<?" ++ (note ++ ascii "?>"), by simp, by simp, fun h => by simp [ascii] at h⟩
  | @reference name out s hname hout =>
    have hlen := length_refText hout
    refine ⟨38 :: (name ++ [59]), by simp, ?_, fun h => ?_⟩
    · simp
      omega
    · simp at h
      omega
  | @char c s hlt hamp hend =>
    exact ⟨[c], rfl, le_rfl, fun _ => ⟨c, rfl, rfl, hlt, hamp, hend⟩⟩

/-- No text is longer than what it is written with, and text of the same length is plain. -/
theorem Content.exists_used {s t rest : Bytes} (h : Content s t rest) :
    ∃ used, s = used ++ rest ∧ t.length ≤ used.length ∧
      (t.length = used.length → t = used ∧ Plain used) := by
  induction h with
  | stop => exact ⟨[], rfl, le_rfl, fun _ => ⟨rfl, plain_nil⟩⟩
  | @item s out s' text rest hitem _ ih =>
    obtain ⟨used', rfl, hle', heq'⟩ := ih
    obtain ⟨used, rfl, hle, heq⟩ := hitem.exists_used
    refine ⟨used ++ used', by simp, by simp; omega, fun hlen => ?_⟩
    simp only [List.length_append] at hlen
    obtain ⟨c, rfl, rfl, hlt, hamp, hend⟩ := heq (by omega)
    obtain ⟨rfl, hplain⟩ := heq' (by omega)
    refine ⟨rfl, ?_, ?_, fun hinfix => ?_⟩
    · simpa using ⟨hlt.symm, hplain.tag⟩
    · simpa using ⟨hamp.symm, hplain.ref⟩
    · rcases List.infix_cons_iff.1 hinfix with hpre | hinfix
      · exact hend (hpre.trans ⟨rest, by simp⟩)
      · exact hplain.close hinfix

/-! ## The input -/

/-- The bytes that a document may contain. Strings are taken as valid in the encoding of the
document, so that no byte from 128 on is refused. -/
def isXmlByte (c : Byte) : Bool :=
  32 ≤ c || c = 9 || c = 10 || c = 13

/-- Every line end becomes a line feed. `cr` : a carriage return has just been replaced. -/
def lineEnds : Bool → Bytes → Bytes
  | _, [] => []
  | cr, c :: s =>
    if c = 13 then 10 :: lineEnds true s
    else if c = 10 ∧ cr = true then lineEnds false s
    else c :: lineEnds false s

/-- What is parsed of a document. -/
def input (s : Bytes) : Option Bytes :=
  if s.all isXmlByte then some (lineEnds false s) else none

theorem lineEnds_of_ne {c : Byte} (hc : c ≠ 10) (cr : Bool) (s : Bytes) :
    lineEnds cr (c :: s) = lineEnds false (c :: s) := by
  simp [lineEnds, hc]

theorem lineEnds_append {c : Byte} (hc : c ≠ 10) (t : Bytes) : ∀ (cr : Bool) (s : Bytes),
    lineEnds cr (s ++ c :: t) = lineEnds cr s ++ lineEnds false (c :: t)
  | cr, [] => lineEnds_of_ne hc cr t
  | cr, d :: s => by
    have ih := fun cr => lineEnds_append hc t cr s
    rw [List.cons_append, lineEnds, lineEnds]
    split_ifs
    · rw [ih, List.cons_append]
    · rw [ih]
    · rw [ih, List.cons_append]

theorem lineEnds_append_of_not_mem (t : Bytes) : ∀ {s : Bytes}, 13 ∉ s →
    lineEnds false (s ++ t) = s ++ lineEnds false t
  | [], _ => rfl
  | c :: s, h => by
    have hc : c ≠ 13 := by
      rintro rfl
      exact h List.mem_cons_self
    rw [List.cons_append, lineEnds, if_neg hc, if_neg (by simp),
      lineEnds_append_of_not_mem t fun hs => h (List.mem_cons_of_mem _ hs), List.cons_append]

theorem lineEnds_of_not_mem {s : Bytes} (h : 13 ∉ s) : lineEnds false s = s := by
  simpa [lineEnds] using lineEnds_append_of_not_mem [] h

/-- Text without carriage returns that does not begin with a line feed keeps what stands in
front of it and behind it apart. -/
theorem lineEnds_tag {tag : Bytes} (hne : tag ≠ []) (h10 : tag.head? ≠ some 10) (h13 : 13 ∉ tag)
    (s t : Bytes) :
    lineEnds false (s ++ (tag ++ t)) = lineEnds false s ++ (tag ++ lineEnds false t) := by
  rw [← lineEnds_append_of_not_mem t h13]
  cases tag with
  | nil => exact absurd rfl hne
  | cons c tag => exact lineEnds_append (by simpa using h10) (tag ++ t) false s

theorem not_mem_lineEnds : ∀ (cr : Bool) (s : Bytes), 13 ∉ lineEnds cr s
  | _, [] => List.not_mem_nil
  | cr, c :: s => by
    rw [lineEnds]
    split_ifs with h13
    · simpa using not_mem_lineEnds true s
    · exact not_mem_lineEnds false s
    · simpa [eq_comm, h13] using not_mem_lineEnds false s

theorem length_lineEnds_le : ∀ (cr : Bool) (s : Bytes), (lineEnds cr s).length ≤ s.length
  | _, [] => le_rfl
  | cr, c :: s => by
    have ih := fun cr => length_lineEnds_le cr s
    rw [lineEnds]
    split_ifs
    · simpa using ih true
    · exact (ih false).trans (Nat.le_succ _)
    · simpa using ih false

end Xml
