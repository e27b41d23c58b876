import Logfile.Xml

/-!
# Text in CDATA sections

A section ends at the first "]]>", so text that contains one is cut behind the brackets and
goes on in a further section. `sections` writes any text this way, and a reader gets it back
(`writes_sections`).

A reader that comes upon such text somewhere in the middle gets at most as many characters
as are left of it (`length_le_of_content`).
-/

namespace Xml

open Text

/-- The inside of the sections that hold a text, behind `n` brackets. -/
def sections : ℕ → Bytes → Bytes
  | _, [] => []
  | n, c :: s =>
    if c = 93 then 93 :: sections (n + 1) s
    else if c = 62 ∧ 2 ≤ n then ascii "]]><![CDATA[" ++ 62 :: sections 0 s
    else c :: sections 0 s

/-- The number of brackets at the end of a text behind `n` brackets. -/
def brackets : ℕ → Bytes → ℕ
  | n, [] => n
  | n, c :: s => if c = 93 then brackets (n + 1) s else brackets 0 s

variable {n : ℕ} {c : Byte} {s m : Bytes}

@[simp] theorem sections_nil (n : ℕ) : sections n [] = [] := rfl

@[simp] theorem sections_bracket (n : ℕ) (s : Bytes) :
    sections n (93 :: s) = 93 :: sections (n + 1) s := rfl

theorem sections_close (hn : 2 ≤ n) (s : Bytes) :
    sections n (62 :: s) = ascii "]]><![CDATA[" ++ 62 :: sections 0 s := by
  simp [sections, hn]

theorem sections_of_ne (h93 : c ≠ 93) (h62 : ¬(c = 62 ∧ 2 ≤ n)) (s : Bytes) :
    sections n (c :: s) = c :: sections 0 s := by
  rw [sections, if_neg h93, if_neg h62]

@[simp] theorem sections_zero_close (s : Bytes) : sections 0 (62 :: s) = 62 :: sections 0 s := rfl

theorem sections_append : ∀ (n : ℕ) (s t : Bytes),
    sections n (s ++ t) = sections n s ++ sections (brackets n s) t
  | n, [], t => rfl
  | n, c :: s, t => by
    have ih := fun n => sections_append n s t
    rw [List.cons_append, sections, sections, brackets]
    split_ifs with h93 h62
    · rw [ih, List.cons_append]
    · rw [ih, List.append_assoc, List.cons_append]
    · rw [ih, List.cons_append]

theorem brackets_append : ∀ (n : ℕ) (s t : Bytes), brackets n (s ++ t) = brackets (brackets n s) t
  | n, [], t => rfl
  | n, c :: s, t => by
    rw [List.cons_append, brackets, brackets]
    split_ifs
    · exact brackets_append _ s t
    · exact brackets_append _ s t

/-- Text without "]]>" is left as it is. -/
theorem sections_of_not_infix : ∀ {n : ℕ} {s : Bytes},
    ¬ascii "]]>" <:+: List.replicate n 93 ++ s → sections n s = s
  | _, [], _ => rfl
  | n, c :: s, h => by
    by_cases h93 : c = 93
    · subst h93
      have hrest : ¬ascii "]]>" <:+: List.replicate (n + 1) 93 ++ s := by
        rwa [List.replicate_succ', List.append_assoc]
      rw [sections_bracket, sections_of_not_infix hrest]
    · have h62 : ¬(c = 62 ∧ 2 ≤ n) := by
        rintro ⟨rfl, hn⟩
        refine h ⟨List.replicate (n - 2) 93, s, ?_⟩
        obtain ⟨k, rfl⟩ : ∃ k, n = k + 2 := ⟨n - 2, by omega⟩
        simp [ascii, List.replicate_add]
      have hrest : ¬ascii "]]>" <:+: List.replicate 0 93 ++ s := fun hs =>
        h (hs.trans ((List.suffix_cons c s).trans (List.suffix_append _ _)).isInfix)
      rw [sections_of_ne h93 h62, sections_of_not_infix hrest]

/-- A text has no "]]>", or is cut in front of the '>' of its first. -/
theorem sections_cases (m : Bytes) : ¬ascii "]]>" <:+: m ∧ sections 0 m = m ∨
    ∃ x b, m = x ++ (ascii "]]>" ++ b) ∧ ¬ascii "]]>" <:+: x ++ ascii "]]" ∧
      sections 0 m =
        (x ++ ascii "]]") ++ (ascii "]]>" ++ (ascii "<![CDATA[" ++ sections 0 (62 :: b))) := by
  cases hs : search (ascii "]]>") m with
  | none =>
    have hno := (search_eq_none_iff (by decide)).1 hs
    exact Or.inl ⟨hno, sections_of_not_infix (by simpa using hno)⟩
  | some k =>
    obtain ⟨x, b, rfl, -, hno⟩ := exists_of_search hs
    have hfree : ¬ascii "]]>" <:+: x ++ ascii "]]" :=
      not_infix_append ⟨ascii ">", rfl⟩ (by decide) hno
    refine Or.inr ⟨x, b, by simp, hfree, ?_⟩
    have htwo : 2 ≤ brackets 0 (x ++ ascii "]]") := by
      rw [brackets_append]
      exact Nat.le_add_left 2 _
    have hsplit : x ++ ascii "]]>" ++ b = (x ++ ascii "]]") ++ 62 :: b := by simp [ascii]
    rw [hsplit, sections_append, sections_close htwo, sections_of_not_infix (by simpa using hfree),
      sections_zero_close]
    simp [ascii]

/-- Text in sections is read back. -/
theorem content_sections {t rest : Bytes} (h : Content s t rest) (m : Bytes) :
    Content (ascii "<![CDATA[" ++ (sections 0 m ++ (ascii "]]>" ++ s))) (m ++ t) rest := by
  rcases sections_cases m with ⟨hno, heq⟩ | ⟨x, b, hm, hno, heq⟩
  · rw [heq]
    exact .item (.cdata hno) h
  · have hlen : (62 :: b).length < m.length := by simp [hm, ascii]; omega
    have ih := content_sections h (62 :: b)
    have hread := Content.item (.cdata hno) ih
    have htext : m ++ t = (x ++ ascii "]]") ++ (62 :: b ++ t) := by simp [hm, ascii]
    rw [heq, htext]
    simpa only [List.append_assoc] using hread
termination_by m.length

theorem writes_sections (m : Bytes) :
    Writes (ascii "<![CDATA[" ++ sections 0 m ++ ascii "]]>") m := by
  intro s
  have h := content_sections (Content.stop (s := s)) m
  simpa only [List.append_assoc, List.append_nil] using h

theorem mem_sections : ∀ {n : ℕ} {m : Bytes}, c ∈ sections n m →
    c ∈ m ∨ c ∈ ascii "]]><![CDATA["
  | n, d :: m, h => by
    rw [sections] at h
    split_ifs at h with h93 h62
    · subst h93
      rcases List.mem_cons.1 h with rfl | h
      · exact Or.inl List.mem_cons_self
      · exact (mem_sections h).imp_left (List.mem_cons_of_mem _)
    · rcases List.mem_append.1 h with h | h
      · exact Or.inr h
      rcases List.mem_cons.1 h with rfl | h
      · exact Or.inl (h62.1 ▸ List.mem_cons_self)
      · exact (mem_sections h).imp_left (List.mem_cons_of_mem _)
    · rcases List.mem_cons.1 h with rfl | h
      · exact Or.inl List.mem_cons_self
      · exact (mem_sections h).imp_left (List.mem_cons_of_mem _)

/-- The cuts leave the line ends alone. -/
theorem lineEnds_sections : ∀ {n : ℕ} {cr : Bool} (m : Bytes), (cr = true → n = 0) →
    lineEnds cr (sections n m) = sections n (lineEnds cr m)
  | _, _, [], _ => rfl
  | n, cr, c :: m, h => by
    by_cases h93 : c = 93
    · subst h93
      rw [sections_bracket, lineEnds_of_ne (by decide), lineEnds_of_ne (by decide)]
      have ih : lineEnds false (sections (n + 1) m) = sections (n + 1) (lineEnds false m) :=
        lineEnds_sections m (by simp)
      simp [lineEnds, ih]
    have ih : ∀ cr, lineEnds cr (sections 0 m) = sections 0 (lineEnds cr m) := fun cr =>
      lineEnds_sections m fun _ => rfl
    by_cases h62 : c = 62 ∧ 2 ≤ n
    · obtain ⟨rfl, hn⟩ := h62
      have hcr : cr = false := by
        cases cr with
        | false => rfl
        | true => exact absurd (h rfl) (by omega)
      subst hcr
      have hcut : lineEnds false (ascii "]]><![CDATA[" ++ 62 :: sections 0 m) =
          ascii "]]><![CDATA[" ++ 62 :: lineEnds false (sections 0 m) := rfl
      have hgt : lineEnds false (62 :: m) = 62 :: lineEnds false m := rfl
      rw [sections_close hn, hcut, hgt, sections_close hn, ih]
    · rw [sections_of_ne h93 h62, lineEnds, lineEnds]
      split_ifs with h13 h10
      · rw [sections_of_ne (by decide) (by simp), ih]
      · rw [ih, h h10.2]
      · rw [sections_of_ne h93 h62, ih]

/-! ## Sections alone -/

/-- The section with the text `x`. -/
def cdataSection (x : Bytes) : Bytes :=
  ascii "<![CDATA[" ++ (x ++ ascii "]]>")

/-- Reads a text that consists of sections. Each runs to the first "]]>" that follows. -/
def readSections (s : Bytes) : Option (List Bytes) :=
  if s = [] then some []
  else if (ascii "<![CDATA[").isPrefixOf s then
    match search (ascii "]]>") (s.drop 9) with
    | none => none
    | some k => (readSections (s.drop (9 + k + 3))).map ((s.drop 9).take k :: ·)
  else none
termination_by s.length
decreasing_by
  have := List.length_pos_iff.2 ‹s ≠ []›
  simp only [List.length_drop]
  omega

/-- A section is read, whatever follows it. -/
theorem readSections_append {x : Bytes} (hx : ¬ascii "]]>" <:+: x) (rest : Bytes) :
    readSections (cdataSection x ++ rest) = (readSections rest).map (x :: ·) := by
  have hne : cdataSection x ++ rest ≠ [] := by simp [cdataSection, ascii]
  have hprefix : (ascii "<![CDATA[").isPrefixOf (cdataSection x ++ rest) = true := by
    rw [List.isPrefixOf_iff_prefix, cdataSection, List.append_assoc]
    exact List.prefix_append _ _
  have hdrop : (cdataSection x ++ rest).drop 9 = x ++ ascii "]]>" ++ rest := by
    rw [cdataSection, List.append_assoc]
    exact List.drop_left' (by decide)
  have hrest : (cdataSection x ++ rest).drop (9 + x.length + 3) = rest := by
    have hlen : 9 + x.length + 3 = (cdataSection x).length := by
      simp [cdataSection, ascii]
      omega
    rw [hlen, List.drop_left]
  rw [readSections, if_neg hne, if_pos hprefix, hdrop, search_unbordered (by decide) hx]
  simp only [hrest, List.append_assoc, List.take_left]

/-- A text that is cut into sections is read back as their contents. -/
theorem exists_readSections (m : Bytes) :
    ∃ cs, cs ≠ [] ∧ ascii "<![CDATA[" ++ sections 0 m ++ ascii "]]>" = cs.flatMap cdataSection ∧
      readSections (cs.flatMap cdataSection) = some cs ∧ cs.flatten = m ∧
      ∀ x ∈ cs, ¬ascii "]]>" <:+: x := by
  rcases sections_cases m with ⟨hno, heq⟩ | ⟨x, b, hm, hno, heq⟩
  · refine ⟨[m], List.cons_ne_nil _ _, ?_, ?_, by simp, by simpa using hno⟩
    · simp [heq, cdataSection]
    · rw [List.flatMap_cons, readSections_append hno, List.flatMap_nil, readSections, if_pos rfl]
      rfl
  · have hlen : (62 :: b).length < m.length := by simp [hm, ascii]; omega
    obtain ⟨cs, -, htext, hread, hflat, hfree⟩ := exists_readSections (62 :: b)
    refine ⟨(x ++ ascii "]]") :: cs, List.cons_ne_nil _ _, ?_, ?_, ?_, ?_⟩
    · rw [List.flatMap_cons, ← htext, heq, cdataSection]
      simp only [List.append_assoc]
    · rw [List.flatMap_cons, readSections_append hno, hread]
      rfl
    · rw [List.flatten_cons, hflat, hm]
      simp [ascii]
    · rintro y hy
      rcases List.mem_cons.1 hy with rfl | hy
      · exact hno
      · exact hfree y hy
termination_by m.length

/-! ## Reading on from the middle -/

variable {r s' t u : Bytes}

/-- Before a section ends, a literal without brackets can only come from the text. -/
theorem exists_of_literal : ∀ {p : Bytes} {n : ℕ} {m : Bytes}, p ≠ [] → 93 ∉ p → 62 ∉ p →
    p ++ s' = sections n m ++ (ascii "]]>" ++ r) →
      ∃ m', m = p ++ m' ∧ s' = sections 0 m' ++ (ascii "]]>" ++ r)
  | c :: p, n, [], _, h93, _, heq => by
    have hc : c = 93 := by simpa [ascii] using congrArg List.head? heq
    exact absurd (hc ▸ List.mem_cons_self) h93
  | c :: p, n, d :: m, _, h93, h62, heq => by
    have hc93 : c ≠ 93 := by
      rintro rfl
      exact h93 List.mem_cons_self
    have hd93 : d ≠ 93 := by
      rintro rfl
      exact hc93 (by simpa using congrArg List.head? heq)
    have hd62 : ¬(d = 62 ∧ 2 ≤ n) := by
      rintro ⟨rfl, hn⟩
      rw [sections_close hn] at heq
      exact hc93 (by simpa [ascii] using congrArg List.head? heq)
    rw [sections_of_ne hd93 hd62, List.cons_append, List.cons_append, List.cons.injEq] at heq
    obtain ⟨rfl, heq⟩ := heq
    by_cases hp : p = []
    · subst hp
      exact ⟨m, rfl, heq⟩
    · obtain ⟨m', rfl, hs⟩ := exists_of_literal hp (fun h => h93 (List.mem_cons_of_mem _ h))
        (fun h => h62 (List.mem_cons_of_mem _ h)) heq
      exact ⟨m', rfl, hs⟩

/-- The characters in front of a '>' where a text is cut. -/
theorem not_gt_in_cut (h91 : c ≠ 91) (h93 : c ≠ 93) (h62 : c ≠ 62) (hlt : u.length < 13) :
    u ++ c :: 62 :: s' ≠ ascii "]]><![CDATA[>" ++ t := by
  intro heq
  have hlen : (ascii "]]><![CDATA[>").length = 13 := rfl
  have hc : (ascii "]]><![CDATA[>")[u.length]? = some c := by
    have := congrArg (·[u.length]?) heq
    simpa [List.getElem?_append_left (show u.length < (ascii "]]><![CDATA[>").length by omega)]
      using this.symm
  rcases Nat.lt_or_ge u.length 12 with hlt' | hge
  · have hgt : (ascii "]]><![CDATA[>")[u.length + 1]? = some 62 := by
      have := congrArg (·[u.length + 1]?) heq
      simpa [List.getElem?_append_left
        (show u.length + 1 < (ascii "]]><![CDATA[>").length by omega)] using this.symm
    have hall : ∀ k < 12, (ascii "]]><![CDATA[>")[k + 1]? = some 62 →
        (ascii "]]><![CDATA[>")[k]? = some 93 ∨ (ascii "]]><![CDATA[>")[k]? = some 91 := by
      decide
    rcases hall _ hlt' hgt with h | h
    · exact h93 (Option.some.inj (hc.symm.trans h))
    · exact h91 (Option.some.inj (hc.symm.trans h))
  · have heq12 : u.length = 12 := by omega
    rw [heq12] at hc
    exact h62 (Option.some.inj hc).symm

/-- A '>' behind another character than a bracket or a '>' is the text's, or comes after the
sections. -/
theorem exists_of_gt (h91 : c ≠ 91) (h93 : c ≠ 93) (h62 : c ≠ 62) :
    ∀ {n : ℕ} {m u : Bytes}, u ++ c :: 62 :: s' = sections n m ++ (ascii "]]>" ++ r) →
      (∃ m', s' = sections 0 m' ++ (ascii "]]>" ++ r) ∧ m'.length < m.length) ∨
        s'.length < r.length
  | n, [], u, heq => by
    refine Or.inr ?_
    have hlen := congrArg List.length heq
    rcases u with - | ⟨a, - | ⟨b, u⟩⟩
    · simp [ascii] at heq
    · simp [ascii] at heq
      exact absurd heq.2.1 h93
    · simp [ascii] at hlen
      omega
  | n, d :: m, u, heq => by
    have hstep : ∀ {k : ℕ} {v : Bytes}, v ++ c :: 62 :: s' = sections k m ++ (ascii "]]>" ++ r) →
        (∃ m', s' = sections 0 m' ++ (ascii "]]>" ++ r) ∧ m'.length < (d :: m).length) ∨
          s'.length < r.length := by
      intro k v hv
      rcases exists_of_gt h91 h93 h62 hv with ⟨m', hm', hlen⟩ | hlen
      · exact Or.inl ⟨m', hm', by simp; omega⟩
      · exact Or.inr hlen
    by_cases hd93 : d = 93
    · subst hd93
      rw [sections_bracket, List.cons_append] at heq
      cases u with
      | nil => exact absurd (List.cons.inj heq).1 h93
      | cons a u => exact hstep (List.cons.inj heq).2
    by_cases hd62 : d = 62 ∧ 2 ≤ n
    · obtain ⟨rfl, hn⟩ := hd62
      have hsplit : sections n (62 :: m) = ascii "]]><![CDATA[>" ++ sections 0 m := by
        simp [sections_close hn, ascii]
      rw [hsplit, List.append_assoc] at heq
      rcases Nat.lt_or_ge u.length 13 with hlt | hge
      · exact absurd heq (not_gt_in_cut h91 h93 h62 hlt)
      · obtain ⟨v, rfl⟩ : ascii "]]><![CDATA[>" <+: u :=
          List.prefix_of_prefix_length_le ⟨_, heq.symm⟩ (List.prefix_append u _) hge
        rw [List.append_assoc, List.append_cancel_left_eq] at heq
        exact hstep heq
    · rw [sections_of_ne hd93 hd62, List.cons_append] at heq
      cases u with
      | cons a u => exact hstep (List.cons.inj heq).2
      | nil =>
        -- the '>' is the next character of the text
        have hnext := (List.cons.inj heq).2
        cases m with
        | nil => simp [ascii] at hnext
        | cons e m =>
          have he93 : e ≠ 93 := by
            rintro rfl
            simp at hnext
          rw [sections_of_ne he93 (by omega), List.cons_append, List.cons.injEq] at hnext
          exact Or.inl ⟨m, hnext.2, by simp⟩

/-- The first end of a section is where the section is cut. -/
theorem append_close_inj {a b : Bytes} (ha : ¬ascii "]]>" <:+: a) (hb : ¬ascii "]]>" <:+: b)
    (heq : a ++ (ascii "]]>" ++ s) = b ++ (ascii "]]>" ++ t)) : a = b ∧ s = t := by
  have hsa := cutAt_unbordered (by decide) ha s
  have hsb := cutAt_unbordered (by decide) hb t
  rw [heq, hsb] at hsa
  simpa [eq_comm] using hsa

theorem Content.length_le {t rest : Bytes} (h : Content s t rest) : rest.length ≤ s.length := by
  obtain ⟨used, rfl, -⟩ := h.exists_used
  simp

/-- The text of content is at most what is left of a text in sections, if the reading does
not go beyond `r` behind them. -/
structure Bounded (s t rest : Bytes) : Prop where
  inside : ∀ {n m r}, s = sections n m ++ (ascii "]]>" ++ r) → r.length ≤ rest.length →
    t.length ≤ m.length
  opened : ∀ {m r}, s = ascii "<![CDATA[" ++ (sections 0 m ++ (ascii "]]>" ++ r)) →
    r.length ≤ rest.length → t.length ≤ m.length

/-- A section that the reader finds in the text. -/
theorem length_le_of_cdata {data rest : Bytes} (hdata : ¬ascii "]]>" <:+: data)
    (hread : Content s' t rest) (ih : Bounded s' t rest)
    (heq : data ++ (ascii "]]>" ++ s') = sections 0 m ++ (ascii "]]>" ++ r))
    (hr : r.length ≤ rest.length) : (data ++ t).length ≤ m.length := by
  rcases sections_cases m with ⟨hno, hm⟩ | ⟨x, b, rfl, hno, hm⟩
  · rw [hm] at heq
    obtain ⟨rfl, rfl⟩ := append_close_inj hdata hno heq
    obtain ⟨used, rfl, hle, -⟩ := hread.exists_used
    simp only [List.length_append] at hr ⊢
    omega
  · rw [hm] at heq
    simp only [List.append_assoc] at heq
    have hcut := append_close_inj hdata hno (by simpa only [List.append_assoc] using heq)
    obtain ⟨rfl, hs'⟩ := hcut
    have hlen := ih.opened hs' hr
    simp [ascii] at hlen ⊢
    omega

theorem not_mem_of_refText {name out : Bytes} (h : refText name = some out) :
    93 ∉ name ∧ 62 ∉ name := by
  have hdigits : ∀ {base : ℕ} {ds : Bytes}, base ≤ 16 → charRef base ds = some out →
      93 ∉ ds ∧ 62 ∉ ds := by
    intro base ds hbase hds
    unfold charRef at hds
    split_ifs at hds with hcond
    have hall : ∀ c ∈ ds, digit c < base := by simpa [isDigit] using hcond.2.1
    refine ⟨fun hmem => ?_, fun hmem => ?_⟩
    · have := hall 93 hmem
      have h93 : digit 93 = 36 := rfl
      omega
    · have := hall 62 hmem
      have h62 : digit 62 = 36 := rfl
      omega
  unfold refText at h
  split_ifs at h with hx hd
  · obtain ⟨ds, rfl⟩ := hx
    obtain ⟨h93, h62⟩ := hdigits le_rfl h
    have hdrop : List.drop 2 (ascii "#x" ++ ds) = ds := rfl
    rw [hdrop] at h93 h62
    simpa [ascii] using ⟨h93, h62⟩
  · obtain ⟨ds, rfl⟩ := hd
    obtain ⟨h93, h62⟩ := hdigits (by decide) h
    have hdrop : List.drop 1 (ascii "#" ++ ds) = ds := rfl
    rw [hdrop] at h93 h62
    simpa [ascii] using ⟨h93, h62⟩
  · obtain ⟨c, hc, -⟩ := Option.map_eq_some_iff.1 h
    have hmem : ∀ e ∈ entities, 93 ∉ e.1 ∧ 62 ∉ e.1 := by decide
    obtain ⟨l₁, l₂, hl, -⟩ := List.lookup_eq_some_iff.1 hc
    exact hmem (name, c) (by rw [hl]; simp)

theorem bounded_of_item {out rest : Bytes} (hitem : Item s out s') (hread : Content s' t rest)
    (ih : Bounded s' t rest) : Bounded s (out ++ t) rest := by
  have hle := hread.length_le
  constructor
  · intro n m r heq hr
    cases hitem with
    | @cdata data s hdata =>
      obtain ⟨m, rfl, hs⟩ := exists_of_literal (by decide) (by decide) (by decide) heq
      have hlen := length_le_of_cdata hdata hread ih hs hr
      simp at hlen ⊢
      omega
    | @comment note s hnote =>
      obtain ⟨m, rfl, hs⟩ := exists_of_literal (by decide) (by decide) (by decide) heq
      have hsplit : note ++ (ascii "-->" ++ s') = (note ++ ascii "-") ++ 45 :: 62 :: s' := by
        simp [ascii]
      rw [hsplit] at hs
      rcases exists_of_gt (by decide) (by decide) (by decide) hs with ⟨m', hm', hlt⟩ | hlt
      · have hlen := ih.inside hm' hr
        simp
        omega
      · omega
    | @instruction note s hnote =>
      obtain ⟨m, rfl, hs⟩ := exists_of_literal (by decide) (by decide) (by decide) heq
      have hsplit : note ++ (ascii "?>" ++ s') = note ++ 63 :: 62 :: s' := by simp [ascii]
      rw [hsplit] at hs
      rcases exists_of_gt (by decide) (by decide) (by decide) hs with ⟨m', hm', hlt⟩ | hlt
      · have hlen := ih.inside hm' hr
        simp
        omega
      · omega
    | @reference name out s hname hout =>
      obtain ⟨h93, h62⟩ := not_mem_of_refText hout
      have hsplit : 38 :: (name ++ 59 :: s') = (38 :: (name ++ [59])) ++ s' := by simp
      rw [hsplit] at heq
      obtain ⟨m, rfl, hs⟩ := exists_of_literal (by simp) (by simp [h93]) (by simp [h62]) heq
      have hlen := ih.inside hs hr
      have hout := length_refText hout
      simp
      omega
    | @char c s hlt hamp hend =>
      cases m with
      | nil => exact absurd ⟨r, by simpa using heq.symm⟩ hend
      | cons d m =>
        by_cases hd93 : d = 93
        · subst hd93
          rw [sections_bracket, List.cons_append, List.cons.injEq] at heq
          have hlen := ih.inside heq.2 hr
          simpa using hlen
        by_cases hd62 : d = 62 ∧ 2 ≤ n
        · obtain ⟨rfl, hn⟩ := hd62
          rw [sections_close hn] at heq
          exact absurd ⟨_, by rw [heq]; simp [ascii]; rfl⟩ hend
        · rw [sections_of_ne hd93 hd62, List.cons_append, List.cons.injEq] at heq
          have hlen := ih.inside heq.2 hr
          simpa using hlen
  · intro m r heq hr
    cases hitem with
    | cdata hdata =>
      rw [List.append_cancel_left_eq] at heq
      exact length_le_of_cdata hdata hread ih heq hr
    | comment hnote => simp [ascii] at heq
    | instruction hnote => simp [ascii] at heq
    | reference hname hout => simp [ascii] at heq
    | char hlt hamp hend => exact absurd (List.cons.inj heq).1 hlt

theorem Content.bounded {t rest : Bytes} (h : Content s t rest) : Bounded s t rest := by
  induction h with
  | stop => exact ⟨fun _ _ => Nat.zero_le _, fun _ _ => Nat.zero_le _⟩
  | item hitem hread ih => exact bounded_of_item hitem hread ih

/-- A reader that starts in the middle of a text in sections, just behind a '>', gets at most
what is left of the text. -/
theorem length_le_of_content {rest : Bytes}
    (h : Content (sections 0 m ++ (ascii "]]>" ++ r)) t rest) (hr : r.length ≤ rest.length) :
    t.length ≤ m.length :=
  h.bounded.inside rfl hr

end Xml
