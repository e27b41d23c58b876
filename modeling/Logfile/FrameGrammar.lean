import Logfile.StompFrame

/-!
# The grammar of frames

`handle_reply` accepts the texts that `frameText` writes out and no others, each of them is
written out in one way only, and the reply queued has its parts (`handleReply_grammar`).

`find` takes any position. To see that none is behind the end, `handle_reply` stands here a
second time with a `find` that throws there, together with the queue it appends to.
-/

namespace Logfile

open Text

/-! ## Every position checked -/

/-- `s.find(pat, pos)`, but throwing behind the end. -/
def findFrom (s pat : Bytes) (pos : ℕ) : Except Exn (Option ℕ) :=
  if pos ≤ s.length then .ok (find s pat pos) else .error .outOfRange

/-- The loop over the headers with every position checked. -/
def strictLoop (frame : Bytes) : ℕ → ℕ → List (Bytes × Bytes) →
    Except Exn (Option (List (Bytes × Bytes) × ℕ))
  | 0, _, _ => .ok none
  | fuel + 1, i, headers =>
    if frame.length < i + 1 then .ok none
    else do
      let oldi := i + 1
      match ← findFrom frame (ascii "\n") oldi with
      | none => .ok none
      | some i =>
        if i = oldi then .ok (some (headers, i))
        else do
          let line ← substr frame oldi (i - oldi)
          match ← findFrom line (ascii ":") 0 with
          | none => .ok none
          | some colon => do
            let key ← substr line 0 colon
            let value ← substrFrom line (colon + 1)
            if (headers.lookup key).isSome then strictLoop frame fuel i headers
            else strictLoop frame fuel i (headers ++ [(key, value)])

/-- `handle_reply` on `m_reply_queue` with every position checked. -/
def strictHandleReply (queue : List StompReply) (frame : Bytes) :
    Except Exn (Bool × List StompReply) := do
  match ← findFrom frame (ascii "\n") 0 with
  | none => .ok (false, queue)
  | some i => do
    let command ← substr frame 0 i
    match ← strictLoop frame (frame.length + 1) i [] with
    | none => .ok (false, queue)
    | some (headers, i) =>
      if frame.length < i + 1 then .ok (false, queue)
      else do
        let body ← substrFrom frame (i + 1)
        .ok (true, queue ++ [⟨command, headers, body⟩])

theorem findFrom_of_le {s : Bytes} {pos : ℕ} (pat : Bytes) (h : pos ≤ s.length) :
    findFrom s pat pos = .ok (find s pat pos) := if_pos h

theorem strictLoop_eq (frame : Bytes) : ∀ (fuel i : ℕ) (headers : List (Bytes × Bytes)),
    strictLoop frame fuel i headers = headerLoop frame fuel i headers
  | 0, _, _ => rfl
  | fuel + 1, i, headers => by
    rw [strictLoop, headerLoop]
    split
    · rfl
    · next hsize =>
      dsimp only
      rw [findFrom_of_le _ (show i + 1 ≤ frame.length by omega), ok_bind]
      cases find frame (ascii "\n") (i + 1) with
      | none => rfl
      | some j =>
        dsimp only
        split
        · rfl
        · cases substr frame (i + 1) (j - (i + 1)) with
          | error e => rfl
          | ok line =>
            rw [ok_bind, ok_bind, findFrom_of_le _ (Nat.zero_le _), ok_bind]
            cases find line (ascii ":") 0 with
            | none => rfl
            | some colon => simp only [strictLoop_eq frame fuel]

/-- No position is behind the end. -/
theorem strictHandleReply_eq (queue : List StompReply) (frame : Bytes) :
    strictHandleReply queue frame =
      .ok ((replyOf frame).isSome, queue ++ (replyOf frame).toList) := by
  have hreply := handleReply_eq frame
  generalize replyOf frame = reply at hreply ⊢
  rw [handleReply] at hreply
  rw [strictHandleReply, findFrom_of_le _ (Nat.zero_le _), ok_bind]
  cases hi : find frame (ascii "\n") 0 with
  | none =>
    rw [hi] at hreply
    obtain rfl := Except.ok.inj hreply
    simp
  | some i =>
    simp only [hi, substr_of_le _ (Nat.zero_le _), ok_bind, strictLoop_eq] at hreply ⊢
    cases hloop : headerLoop frame (frame.length + 1) i [] with
    | error e => exact (headerLoop_ne_error _ _ _ _ _ hloop).elim
    | ok o =>
      rw [hloop, ok_bind] at hreply
      rw [ok_bind]
      cases o with
      | none =>
        obtain rfl := Except.ok.inj hreply
        simp
      | some o =>
        simp only at hreply ⊢
        split at hreply
        · next hsize =>
          rw [if_pos hsize]
          obtain rfl := Except.ok.inj hreply
          simp
        · next hsize =>
          rw [if_neg hsize, substrFrom_of_le (by omega), ok_bind]
          rw [substrFrom_of_le (by omega), ok_bind] at hreply
          obtain rfl := Except.ok.inj hreply
          simp

/-! ## What is accepted -/

/-- A text that the loop reads to its end is header lines, an empty line and a body. -/
theorem exists_of_headerLoop : ∀ {fuel : ℕ} {a rest : Bytes} {kept : List (Bytes × Bytes)}
    {o : List (Bytes × Bytes) × ℕ},
    headerLoop (a ++ 10 :: rest) fuel a.length kept = .ok (some o) →
    ∃ headers body, rest = headerText headers ++ 10 :: body ∧
      (∀ h ∈ headers, 10 ∉ h.1 ∧ 58 ∉ h.1) ∧ ∀ h ∈ headers, 10 ∉ h.2
  | 0, _, _, _, _, h => by
    rw [headerLoop] at h
    cases h
  | fuel + 1, a, rest, kept, o, h => by
    have hfind : find (a ++ 10 :: rest) (ascii "\n") (a.length + 1) =
        (search [10] rest).map (a.length + 1 + ·) := by
      have := find_append (a ++ [10]) rest [10]
      simpa [newline] using this
    rw [headerLoop, if_neg (by simp)] at h
    simp only [hfind] at h
    cases hsearch : search [10] rest with
    | none =>
      rw [hsearch] at h
      cases h
    | some k =>
      obtain ⟨line, rest, rfl, hline, rfl⟩ := exists_of_search_singleton hsearch
      rw [hsearch, Option.map_some] at h
      simp only at h
      split at h
      · next hempty =>
        -- the empty line
        obtain rfl : line = [] := List.length_eq_zero_iff.1 (by omega)
        exact ⟨[], rest, rfl, by simp, by simp⟩
      · have hsub : substr (a ++ 10 :: (line ++ 10 :: rest)) (a.length + 1)
            (a.length + 1 + line.length - (a.length + 1)) = .ok line := by
          have := substr_append (a ++ [10]) line (10 :: rest) (i := a.length + 1)
            (n := a.length + 1 + line.length - (a.length + 1)) (by simp) (by omega)
          simpa using this
        have hcolon : find line (ascii ":") 0 = search [58] line := by
          simp [find, colon]
        rw [hsub, ok_bind, hcolon] at h
        cases hsearch' : search [58] line with
        | none =>
          rw [hsearch'] at h
          cases h
        | some c =>
          obtain ⟨key, value, rfl, hkey, rfl⟩ := exists_of_search_singleton hsearch'
          rw [hsearch'] at h
          simp only at h
          rw [substr_of_le _ (by omega), ok_bind, substrFrom_of_le (by simp), ok_bind] at h
          have ih : ∀ {kept}, headerLoop (a ++ 10 :: (key ++ 58 :: value ++ 10 :: rest)) fuel
              (a.length + 1 + (key ++ 58 :: value).length) kept = .ok (some o) →
              ∃ headers body, rest = headerText headers ++ 10 :: body ∧
                (∀ h ∈ headers, 10 ∉ h.1 ∧ 58 ∉ h.1) ∧ ∀ h ∈ headers, 10 ∉ h.2 := by
            intro kept hloop
            refine @exists_of_headerLoop fuel (a ++ 10 :: (key ++ 58 :: value)) rest kept o ?_
            have hpos : (a ++ 10 :: (key ++ 58 :: value)).length =
                a.length + 1 + (key ++ 58 :: value).length := by
              simp
              omega
            rw [hpos]
            simpa using hloop
          obtain ⟨headers, body, rfl, hkeys, hvalues⟩ : ∃ headers body,
              rest = headerText headers ++ 10 :: body ∧
                (∀ h ∈ headers, 10 ∉ h.1 ∧ 58 ∉ h.1) ∧ ∀ h ∈ headers, 10 ∉ h.2 := by
            split at h
            · exact ih h
            · exact ih h
          have hkeyLine : 10 ∉ key := fun hmem => hline (by simp [hmem])
          have hvalueLine : 10 ∉ value := fun hmem => hline (by simp [hmem])
          refine ⟨(key, value) :: headers, body, by simp [headerText, ascii], ?_, ?_⟩
          · exact List.forall_mem_cons.2 ⟨⟨hkeyLine, hkey⟩, hkeys⟩
          · exact List.forall_mem_cons.2 ⟨hvalueLine, hvalues⟩

/-- An accepted text is a frame that is written out. -/
theorem exists_of_replyOf {frame : Bytes} {reply : StompReply} (h : replyOf frame = some reply) :
    ∃ command headers body, FrameForm command headers ∧
      frame = frameText command headers body := by
  have hreply := handleReply_eq frame
  rw [h, handleReply] at hreply
  cases hi : find frame (ascii "\n") 0 with
  | none =>
    rw [hi] at hreply
    cases hreply
  | some i =>
    have hsearch : search [10] frame = some i := by
      simpa [find, newline] using hi
    obtain ⟨command, rest, rfl, hcommand, rfl⟩ := exists_of_search_singleton hsearch
    simp only [hi, substr_of_le _ (Nat.zero_le _), ok_bind] at hreply
    cases hloop : headerLoop (command ++ 10 :: rest) ((command ++ 10 :: rest).length + 1)
        command.length [] with
    | error e => exact (headerLoop_ne_error _ _ _ _ _ hloop).elim
    | ok o =>
      cases o with
      | none =>
        rw [hloop] at hreply
        cases hreply
      | some o =>
        obtain ⟨headers, body, rfl, hkeys, hvalues⟩ := exists_of_headerLoop hloop
        exact ⟨command, headers, body, ⟨hcommand, hkeys, hvalues⟩, by simp [frameText, ascii]⟩

/-! ## Only one way -/

theorem headerText_cons_append (key value rest : Bytes) (headers : List (Bytes × Bytes)) :
    headerText ((key, value) :: headers) ++ rest =
      (key ++ 58 :: value) ++ 10 :: (headerText headers ++ rest) := by
  simp [headerText, ascii]

theorem newline_not_mem_line {headers : List (Bytes × Bytes)} {key value : Bytes}
    (hkey : ∀ h ∈ (key, value) :: headers, 10 ∉ h.1 ∧ 58 ∉ h.1)
    (hvalue : ∀ h ∈ (key, value) :: headers, 10 ∉ h.2) : 10 ∉ key ++ 58 :: value := by
  have hk := (hkey _ List.mem_cons_self).1
  have hv := hvalue _ List.mem_cons_self
  simp [hk, hv]

theorem headerText_inj : ∀ {headers headers' : List (Bytes × Bytes)} {body body' : Bytes},
    (∀ h ∈ headers, 10 ∉ h.1 ∧ 58 ∉ h.1) → (∀ h ∈ headers, 10 ∉ h.2) →
    (∀ h ∈ headers', 10 ∉ h.1 ∧ 58 ∉ h.1) → (∀ h ∈ headers', 10 ∉ h.2) →
    headerText headers ++ 10 :: body = headerText headers' ++ 10 :: body' →
    headers = headers' ∧ body = body'
  | [], [], _, _, _, _, _, _, heq => ⟨rfl, (List.cons.inj heq).2⟩
  | [], (key, value) :: headers', body, _, _, _, hkey, hvalue, heq => by
    rw [headerText_cons_append] at heq
    have hline := (append_cons_inj (a := []) (by simp) (newline_not_mem_line hkey hvalue) heq).1
    simp at hline
  | (key, value) :: headers, [], _, _, hkey, hvalue, _, _, heq => by
    rw [headerText_cons_append] at heq
    have hline := (append_cons_inj (a := []) (by simp) (newline_not_mem_line hkey hvalue)
      heq.symm).1
    simp at hline
  | (key, value) :: headers, (key', value') :: headers', _, _, hkey, hvalue, hkey', hvalue',
      heq => by
    rw [headerText_cons_append, headerText_cons_append] at heq
    obtain ⟨hline, hrest⟩ := append_cons_inj (newline_not_mem_line hkey hvalue)
      (newline_not_mem_line hkey' hvalue') heq
    obtain ⟨rfl, rfl⟩ := append_cons_inj (hkey _ List.mem_cons_self).2
      (hkey' _ List.mem_cons_self).2 hline
    obtain ⟨rfl, rfl⟩ := headerText_inj (fun h hh => hkey h (List.mem_cons_of_mem _ hh))
      (fun h hh => hvalue h (List.mem_cons_of_mem _ hh))
      (fun h hh => hkey' h (List.mem_cons_of_mem _ hh))
      (fun h hh => hvalue' h (List.mem_cons_of_mem _ hh)) hrest
    exact ⟨rfl, rfl⟩

/-- A frame is written out in one way. -/
theorem frameText_inj {command command' body body' : Bytes}
    {headers headers' : List (Bytes × Bytes)}
    (h : FrameForm command headers) (h' : FrameForm command' headers')
    (heq : frameText command headers body = frameText command' headers' body') :
    command = command' ∧ headers = headers' ∧ body = body' := by
  have hcut : command ++ 10 :: (headerText headers ++ 10 :: body) =
      command' ++ 10 :: (headerText headers' ++ 10 :: body') := by
    simpa [frameText, ascii] using heq
  obtain ⟨hcommand, hrest⟩ := append_cons_inj h.command h'.command hcut
  exact ⟨hcommand, headerText_inj h.key h.value h'.key h'.value hrest⟩

/-! ## The grammar -/

theorem nodup_keepFirst : ∀ {kept : List (Bytes × Bytes)} (headers : List (Bytes × Bytes)),
    (kept.map Prod.fst).Nodup → ((keepFirst kept headers).map Prod.fst).Nodup
  | kept, [], h => h
  | kept, (key, value) :: headers, h => by
    rw [keepFirst]
    split_ifs with hsome
    · exact nodup_keepFirst headers h
    · refine nodup_keepFirst headers ?_
      have hnew : key ∉ kept.map Prod.fst := by
        intro hmem
        obtain ⟨x, hx, rfl⟩ := List.mem_map.1 hmem
        rw [Bool.not_eq_true, Option.isSome_eq_false_iff, Option.isNone_iff_eq_none,
          List.lookup_eq_none_iff] at hsome
        exact absurd (hsome x hx) (by simp)
      rw [List.map_append, List.map_singleton]
      exact List.nodup_append.2 ⟨h, List.nodup_singleton _, by
        rintro a ha b hb rfl
        rw [List.mem_singleton.1 hb] at ha
        exact hnew ha⟩

/-- The reply has the parts of the frame, every key with its first value. -/
structure StompReply.HasParts (reply : StompReply) (command : Bytes)
    (headers : List (Bytes × Bytes)) (body : Bytes) : Prop where
  command : reply.command = command
  headers : ∀ key, reply.headers.lookup key = headers.lookup key
  distinct : (reply.headers.map Prod.fst).Nodup
  body : reply.body = body

/-- `handle_reply` accepts exactly the frames, and queues the parts of each. -/
theorem handleReply_grammar (queue : List StompReply) (frame : Bytes) :
    ∃ ret queue', strictHandleReply queue frame = .ok (ret, queue') ∧
      (ret = true ↔ ∃ command headers body, FrameForm command headers ∧
        frame = frameText command headers body) ∧
      (∀ command headers body, FrameForm command headers →
        frame = frameText command headers body →
          (∀ command' headers' body', FrameForm command' headers' →
            frame = frameText command' headers' body' →
              command' = command ∧ headers' = headers ∧ body' = body) ∧
          ∃ reply, queue' = queue ++ [reply] ∧ reply.HasParts command headers body) ∧
      (ret = false → queue' = queue) := by
  refine ⟨_, _, strictHandleReply_eq queue frame, ⟨fun hret => ?_, ?_⟩, ?_, fun hret => ?_⟩
  · obtain ⟨reply, hreply⟩ := Option.isSome_iff_exists.1 hret
    exact exists_of_replyOf hreply
  · rintro ⟨command, headers, body, hform, rfl⟩
    rw [replyOf_frameText hform]
    rfl
  · rintro command headers body hform rfl
    refine ⟨fun command' headers' body' hform' heq => frameText_inj hform' hform heq.symm, ?_⟩
    rw [replyOf_frameText hform]
    refine ⟨_, rfl, rfl, fun key => ?_, nodup_keepFirst headers List.nodup_nil, rfl⟩
    rw [lookup_keepFirst]
    rfl
  · rw [Option.isSome_eq_false_iff, Option.isNone_iff_eq_none] at hret
    rw [hret, Option.toList_none, List.append_nil]

end Logfile
