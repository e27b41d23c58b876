import Logfile.Numbers

/-!
# STOMP frames

`output_stream_stomp::handle_reply` on the text of a frame, without the terminating NUL.
The loop over the headers moves an index through the frame, and every access that can go
past its end is one that throws. None does (`handleReply_ne_error`), so a frame is either
queued as a reply or rejected.

What `handle_reply` logs about an ERROR frame is left out.
-/

namespace Logfile

open Text

/-- `stomp_reply`. The keys of the headers are distinct. -/
structure StompReply where
  command : Bytes
  headers : List (Bytes × Bytes)
  body : Bytes
  deriving DecidableEq, Repr

/-- The loop over the headers, from the '\n' at `i`. `none` is `return false`; otherwise the
headers and the '\n' that ends them. A round moves `i`, so the frame's size is fuel enough. -/
def headerLoop (frame : Bytes) : ℕ → ℕ → List (Bytes × Bytes) →
    Except Exn (Option (List (Bytes × Bytes) × ℕ))
  | 0, _, _ => .ok none
  | fuel + 1, i, headers =>
    if frame.length < i + 1 then .ok none
    else
      let oldi := i + 1
      match find frame (ascii "\n") oldi with
      | none => .ok none
      | some i =>
        -- two '\n' in a row => end of headers
        if i = oldi then .ok (some (headers, i))
        else do
          let line ← substr frame oldi (i - oldi)
          match find line (ascii ":") 0 with
          | none => .ok none
          | some colon => do
            let key ← substr line 0 colon
            let value ← substrFrom line (colon + 1)
            -- repeated keys are ignored
            if (headers.lookup key).isSome then headerLoop frame fuel i headers
            else headerLoop frame fuel i (headers ++ [(key, value)])

/-- `output_stream_stomp::handle_reply` : the reply it appends to `m_reply_queue`, or `none`
where it returns false. -/
def handleReply (frame : Bytes) : Except Exn (Option StompReply) :=
  match find frame (ascii "\n") 0 with
  | none => .ok none
  | some i => do
    let command ← substr frame 0 i
    match ← headerLoop frame (frame.length + 1) i [] with
    | none => .ok none
    | some (headers, i) =>
      if frame.length < i + 1 then .ok none
      else do
        let body ← substrFrom frame (i + 1)
        .ok (some ⟨command, headers, body⟩)

/-- The reply that a frame is queued as, if it is accepted. -/
def replyOf (frame : Bytes) : Option StompReply :=
  match handleReply frame with
  | .ok reply => reply
  | .error _ => none

/-- `handle_reply` returns true. -/
def accepts (frame : Bytes) : Bool :=
  (replyOf frame).isSome

example : replyOf (ascii "RECEIPT\nreceipt-id:1\nreceipt-id:2\n\n") =
    some ⟨ascii "RECEIPT", [(ascii "receipt-id", ascii "1")], []⟩ := by
  decide

/-! ## Every access is inside the frame -/

theorem substr_of_le {s : Bytes} {pos : ℕ} (n : ℕ) (h : pos ≤ s.length) :
    substr s pos n = .ok ((s.drop pos).take n) := if_pos h

theorem substrFrom_of_le {s : Bytes} {pos : ℕ} (h : pos ≤ s.length) :
    substrFrom s pos = .ok (s.drop pos) := if_pos h

theorem headerLoop_ne_error (frame : Bytes) : ∀ (fuel i : ℕ) (headers : List (Bytes × Bytes))
    (e : Exn), headerLoop frame fuel i headers ≠ .error e
  | 0, _, _, _ => nofun
  | fuel + 1, i, headers, e => by
    rw [headerLoop]
    split
    · nofun
    · next hsize =>
      simp only
      split
      · nofun
      · next j hj =>
        split
        · nofun
        · rw [substr_of_le _ (by omega), ok_bind]
          split
          · nofun
          · next colon hcolon =>
            obtain ⟨-, hlt⟩ : _ ∧ colon + 1 ≤ _ := find_bounds (by decide) hcolon
            rw [substr_of_le _ (by omega), ok_bind, substrFrom_of_le hlt, ok_bind]
            split
            · exact headerLoop_ne_error frame fuel j _ e
            · exact headerLoop_ne_error frame fuel j _ e

theorem handleReply_ne_error (frame : Bytes) (e : Exn) : handleReply frame ≠ .error e := by
  unfold handleReply
  split
  · nofun
  · next i hi =>
    rw [substr_of_le _ (by omega), ok_bind]
    cases hloop : headerLoop frame (frame.length + 1) i [] with
    | error e' => exact (headerLoop_ne_error _ _ _ _ _ hloop).elim
    | ok o =>
      rw [ok_bind]
      cases o with
      | none => nofun
      | some p =>
        simp only
        split
        · nofun
        · rw [substrFrom_of_le (by omega), ok_bind]
          nofun

/-- `handle_reply` queues the reply or returns false. -/
theorem handleReply_eq (frame : Bytes) : handleReply frame = .ok (replyOf frame) := by
  cases h : handleReply frame with
  | error e => exact (handleReply_ne_error frame e h).elim
  | ok o => rw [replyOf, h]

/-- The loop ends before its fuel does. -/
theorem headerLoop_fuel (frame : Bytes) : ∀ {fuel i : ℕ} (headers : List (Bytes × Bytes)),
    frame.length < fuel + i →
      headerLoop frame (fuel + 1) i headers = headerLoop frame fuel i headers
  | 0, i, headers, h => by
    rw [show headerLoop frame 0 i headers = .ok none from rfl, headerLoop, if_pos (by omega)]
  | fuel + 1, i, headers, h => by
    rw [headerLoop.eq_2, headerLoop.eq_2]
    split
    · rfl
    · simp only
      split
      · rfl
      · next j hj =>
        obtain ⟨hle, -⟩ := find_bounds (by decide) hj
        have hfuel : frame.length < fuel + j := by omega
        simp only [headerLoop_fuel frame _ hfuel]

/-! ## Frames written out -/

/-- The header lines of a frame. -/
def headerText : List (Bytes × Bytes) → Bytes
  | [] => []
  | (key, value) :: headers => key ++ ascii ":" ++ value ++ ascii "\n" ++ headerText headers

/-- A frame without the NUL that ends it. -/
def frameText (command : Bytes) (headers : List (Bytes × Bytes)) (body : Bytes) : Bytes :=
  command ++ ascii "\n" ++ headerText headers ++ ascii "\n" ++ body

/-- A command and headers that can stand in a frame. -/
structure FrameForm (command : Bytes) (headers : List (Bytes × Bytes)) : Prop where
  command : 10 ∉ command
  key : ∀ h ∈ headers, 10 ∉ h.1 ∧ 58 ∉ h.1
  value : ∀ h ∈ headers, 10 ∉ h.2

/-- The headers as `handle_reply` collects them. -/
def keepFirst : List (Bytes × Bytes) → List (Bytes × Bytes) → List (Bytes × Bytes)
  | kept, [] => kept
  | kept, (key, value) :: headers =>
    if (kept.lookup key).isSome then keepFirst kept headers
    else keepFirst (kept ++ [(key, value)]) headers

theorem lookup_keepFirst (key : Bytes) : ∀ (kept headers : List (Bytes × Bytes)),
    (keepFirst kept headers).lookup key = (kept.lookup key).or (headers.lookup key)
  | kept, [] => by simp [keepFirst]
  | kept, (k, v) :: headers => by
    rw [keepFirst]
    split_ifs with h
    · rw [lookup_keepFirst key kept headers, List.lookup_cons]
      by_cases hk : key = k
      · subst hk
        obtain ⟨w, hw⟩ := Option.isSome_iff_exists.1 h
        simp [hw]
      · rw [beq_false_of_ne hk]
    · rw [lookup_keepFirst key _ headers, List.lookup_append, Option.or_assoc]
      congr 1
      rw [List.lookup_cons, List.lookup_cons]
      cases key == k <;> simp

theorem newline : ascii "\n" = [10] := rfl

theorem colon : ascii ":" = [58] := rfl

/-- The next line end behind a line end. -/
theorem find_lineEnd {line : Bytes} (h : 10 ∉ line) (a b : Bytes) :
    find (a ++ 10 :: (line ++ 10 :: b)) (ascii "\n") (a.length + 1) =
      some (a.length + 1 + line.length) := by
  have hfind := find_append (a ++ [10]) (line ++ 10 :: b) [10]
  rw [search_singleton h] at hfind
  rw [newline]
  simpa using hfind

/-- The loop behind header lines that are written out goes on at the '\n' that ends them. -/
theorem headerLoop_append : ∀ {headers : List (Bytes × Bytes)} (kept : List (Bytes × Bytes))
    (a rest : Bytes) (fuel : ℕ), (∀ h ∈ headers, 10 ∉ h.1 ∧ 58 ∉ h.1) →
    (∀ h ∈ headers, 10 ∉ h.2) →
    headerLoop (a ++ 10 :: (headerText headers ++ rest)) (fuel + headers.length) a.length kept =
      headerLoop (a ++ 10 :: (headerText headers ++ rest)) fuel
        (a.length + (headerText headers).length) (keepFirst kept headers)
  | [], kept, a, rest, fuel, _, _ => rfl
  | (key, value) :: headers, kept, a, rest, fuel, hkey, hvalue => by
    obtain ⟨hk10, hk58⟩ := hkey _ List.mem_cons_self
    have hv10 : 10 ∉ value := hvalue _ List.mem_cons_self
    have hline : 10 ∉ key ++ 58 :: value := by simp [hk10, hv10]
    have htext : headerText ((key, value) :: headers) ++ rest =
        (key ++ 58 :: value) ++ 10 :: (headerText headers ++ rest) := by
      simp [headerText, ascii]
    have hsub : substr (a ++ 10 :: ((key ++ 58 :: value) ++ 10 :: (headerText headers ++ rest)))
        (a.length + 1) (a.length + 1 + (key ++ 58 :: value).length - (a.length + 1)) =
          .ok (key ++ 58 :: value) := by
      have := substr_append (a ++ [10]) (key ++ 58 :: value)
        (10 :: (headerText headers ++ rest)) (i := a.length + 1)
        (n := a.length + 1 + (key ++ 58 :: value).length - (a.length + 1)) (by simp) (by omega)
      simpa using this
    have hcolon : find (key ++ 58 :: value) (ascii ":") 0 = some key.length := by
      simp [find, colon, search_singleton hk58 value]
    have hkeyText : substr (key ++ 58 :: value) 0 key.length = .ok key := by
      simp [substr]
    have hvalueText : substrFrom (key ++ 58 :: value) (key.length + 1) = .ok value := by
      have := substrFrom_append (key ++ [58]) value (i := key.length + 1) (by simp)
      simpa using this
    have ih := fun kept => headerLoop_append kept (a ++ 10 :: (key ++ 58 :: value)) rest fuel
      (fun h hh => hkey h (List.mem_cons_of_mem _ hh))
      (fun h hh => hvalue h (List.mem_cons_of_mem _ hh))
    have hpos : (a ++ 10 :: (key ++ 58 :: value)).length =
        a.length + 1 + (key ++ 58 :: value).length := by
      simp
      omega
    have hbuf : a ++ 10 :: (key ++ 58 :: value) ++ 10 :: (headerText headers ++ rest) =
        a ++ 10 :: ((key ++ 58 :: value) ++ 10 :: (headerText headers ++ rest)) := by
      simp
    have hlen : a.length + (headerText ((key, value) :: headers)).length =
        a.length + 1 + (key ++ 58 :: value).length + (headerText headers).length := by
      simp [headerText, ascii]
      omega
    simp only [hbuf, hpos] at ih
    rw [htext, List.length_cons, ← Nat.add_assoc, headerLoop, if_neg (by simp)]
    simp only [find_lineEnd hline]
    rw [if_neg (by simp), hsub, ok_bind]
    simp only [hcolon, hkeyText, hvalueText, ok_bind]
    rw [ih, ih, hlen, keepFirst]
    split_ifs <;> rfl

/-- The loop reads the header lines behind the '\n' at its start. -/
theorem headerLoop_headerText {headers : List (Bytes × Bytes)} (kept : List (Bytes × Bytes))
    (a body : Bytes) {fuel : ℕ} (hkey : ∀ h ∈ headers, 10 ∉ h.1 ∧ 58 ∉ h.1)
    (hvalue : ∀ h ∈ headers, 10 ∉ h.2) (hfuel : headers.length < fuel) :
    headerLoop (a ++ 10 :: (headerText headers ++ 10 :: body)) fuel a.length kept =
      .ok (some (keepFirst kept headers, a.length + 1 + (headerText headers).length)) := by
  obtain ⟨n, rfl⟩ : ∃ n, fuel = n + 1 + headers.length := ⟨fuel - 1 - headers.length, by omega⟩
  have hend : find (a ++ 10 :: (headerText headers ++ 10 :: body)) (ascii "\n")
      (a.length + (headerText headers).length + 1) =
        some (a.length + (headerText headers).length + 1) := by
    have hfind := find_append (a ++ 10 :: headerText headers) (10 :: body) [10]
    rw [search_eq_zero (by simp)] at hfind
    simpa [newline, Nat.add_assoc] using hfind
  have hpos : a.length + (headerText headers).length + 1 =
      a.length + 1 + (headerText headers).length := by omega
  rw [headerLoop_append kept a _ _ hkey hvalue, headerLoop, if_neg (by simp)]
  simp only [hend, if_true]
  rw [hpos]

/-- The loop only adds headers. -/
theorem prefix_of_headerLoop {frame : Bytes} : ∀ {fuel i : ℕ} {kept headers : List (Bytes × Bytes)}
    {j : ℕ}, headerLoop frame fuel i kept = .ok (some (headers, j)) → kept <+: headers
  | 0, _, _, _, _, h => by
    rw [headerLoop] at h
    cases h
  | fuel + 1, i, kept, headers, j, h => by
    rw [headerLoop] at h
    split at h
    · cases h
    simp only at h
    split at h
    · cases h
    next k hk =>
    split at h
    · simp only [Except.ok.injEq, Option.some.injEq, Prod.mk.injEq] at h
      rw [h.1]
    next hsize _ =>
    rw [substr_of_le _ (by omega), ok_bind] at h
    split at h
    · cases h
    next colon hcolon =>
    obtain ⟨-, hlt⟩ : _ ∧ colon + 1 ≤ _ := find_bounds (by decide) hcolon
    rw [substr_of_le _ (by omega), ok_bind, substrFrom_of_le hlt, ok_bind] at h
    split at h
    · exact prefix_of_headerLoop h
    · exact (List.prefix_append _ _).trans (prefix_of_headerLoop h)

theorem length_le_headerText : ∀ headers : List (Bytes × Bytes),
    headers.length ≤ (headerText headers).length
  | [] => le_rfl
  | (key, value) :: headers => by
    have ih := length_le_headerText headers
    simp [headerText, ascii]
    omega

/-- A frame that is written out is read back, each header with its first value. -/
theorem replyOf_frameText {command : Bytes} {headers : List (Bytes × Bytes)}
    (h : FrameForm command headers) (body : Bytes) :
    replyOf (frameText command headers body) = some ⟨command, keepFirst [] headers, body⟩ := by
  have htext : frameText command headers body =
      command ++ 10 :: (headerText headers ++ 10 :: body) := by
    simp [frameText, ascii]
  have hfind : find (frameText command headers body) (ascii "\n") 0 = some command.length := by
    have := search_singleton h.command (headerText headers ++ 10 :: body)
    simpa [htext, find, ascii] using this
  have hlen := length_le_headerText headers
  have hloop : headerLoop (frameText command headers body)
      ((frameText command headers body).length + 1) command.length [] =
        .ok (some (keepFirst [] headers, command.length + 1 + (headerText headers).length)) := by
    rw [htext]
    refine headerLoop_headerText _ _ _ h.key h.value ?_
    simp
    omega
  have hcommand : substr (frameText command headers body) 0 command.length = .ok command := by
    simp [htext, substr]
  have hbody : substrFrom (frameText command headers body)
      (command.length + 1 + (headerText headers).length + 1) = .ok body := by
    rw [show frameText command headers body =
      (command ++ 10 :: (headerText headers ++ [10])) ++ body by simp [htext]]
    exact substrFrom_append _ _ (by simp; omega)
  have hhandle : handleReply (frameText command headers body) =
      .ok (some ⟨command, keepFirst [] headers, body⟩) := by
    rw [handleReply, hfind]
    simp only [hcommand, ok_bind, hloop]
    rw [if_neg (by simp [htext]; omega), hbody, ok_bind]
  rw [replyOf, hhandle]

/-! ## What header lines cannot hide -/

theorem keepFirst_of_nodup : ∀ {kept headers : List (Bytes × Bytes)},
    ((kept ++ headers).map Prod.fst).Nodup → keepFirst kept headers = kept ++ headers
  | kept, [], _ => by simp [keepFirst]
  | kept, (key, value) :: headers, h => by
    have hnew : (kept.lookup key).isSome = false := by
      rw [Option.isSome_eq_false_iff, Option.isNone_iff_eq_none, List.lookup_eq_none_iff]
      intro x hx
      have hmem : x.1 ∈ kept.map Prod.fst := List.mem_map_of_mem hx
      rw [List.map_append, List.map_cons] at h
      have hne : x.1 ≠ key := fun hkey =>
        List.disjoint_of_nodup_append h hmem (hkey ▸ List.mem_cons_self)
      exact bne_iff_ne.2 hne.symm
    have ih : keepFirst (kept ++ [(key, value)]) headers = (kept ++ [(key, value)]) ++ headers :=
      keepFirst_of_nodup (by simpa using h)
    rw [keepFirst, hnew, if_neg (by simp), ih, List.append_assoc, List.singleton_append]

theorem headerText_append (headers headers' : List (Bytes × Bytes)) :
    headerText (headers ++ headers') = headerText headers ++ headerText headers' := by
  induction headers with
  | nil => rfl
  | cons h headers ih => simp [headerText, ih]

theorem FrameForm.append_singleton {command key value : Bytes} {headers : List (Bytes × Bytes)}
    (h : FrameForm command headers) (hkey : 10 ∉ key ∧ 58 ∉ key) (hvalue : 10 ∉ value) :
    FrameForm command (headers ++ [(key, value)]) := by
  refine ⟨h.command, ?_, ?_⟩
  · intro x hx
    rcases List.mem_append.1 hx with hx | hx
    · exact h.key x hx
    · rwa [List.mem_singleton.1 hx]
  · intro x hx
    rcases List.mem_append.1 hx with hx | hx
    · exact h.value x hx
    · rwa [List.mem_singleton.1 hx]

/-- The header lines that a text begins with are the first headers of its reply. -/
theorem prefix_of_replyOf {command rest : Bytes} {headers : List (Bytes × Bytes)}
    {reply : StompReply} (h : FrameForm command headers)
    (hreply : replyOf (command ++ 10 :: (headerText headers ++ rest)) = some reply) :
    keepFirst [] headers <+: reply.headers := by
  have hhandle := handleReply_eq (command ++ 10 :: (headerText headers ++ rest))
  have hfind : find (command ++ 10 :: (headerText headers ++ rest)) (ascii "\n") 0 =
      some command.length := by
    have := search_singleton h.command (headerText headers ++ rest)
    simpa [find, ascii] using this
  have hlen := length_le_headerText headers
  obtain ⟨n, hn⟩ : ∃ n, (command ++ 10 :: (headerText headers ++ rest)).length + 1 =
      n + headers.length := ⟨_, (Nat.sub_add_cancel (by simp; omega)).symm⟩
  rw [hreply, handleReply, hfind] at hhandle
  simp only [substr_of_le _ (Nat.zero_le _), ok_bind, hn,
    headerLoop_append [] command rest n h.key h.value] at hhandle
  cases hloop : headerLoop (command ++ 10 :: (headerText headers ++ rest)) n
      (command.length + (headerText headers).length) (keepFirst [] headers) with
  | error e => exact (headerLoop_ne_error _ _ _ _ _ hloop).elim
  | ok o =>
    rw [hloop, ok_bind] at hhandle
    cases o with
    | none => cases hhandle
    | some o =>
      have hprefix := prefix_of_headerLoop hloop
      simp only at hhandle
      split at hhandle
      · cases hhandle
      · rw [substrFrom_of_le (by omega), ok_bind] at hhandle
        simp only [Except.ok.injEq, Option.some.injEq] at hhandle
        rwa [← hhandle]

/-- A value that is read back whole has no '\n' : the line would end there. -/
theorem newline_not_mem_of_replyOf {command key value rest : Bytes}
    {headers : List (Bytes × Bytes)} {reply : StompReply} (h : FrameForm command headers)
    (hkey : 10 ∉ key ∧ 58 ∉ key) (hdistinct : ((headers.map Prod.fst) ++ [key]).Nodup)
    (hreply : replyOf (command ++ 10 :: (headerText headers ++
      (key ++ 58 :: (value ++ 10 :: rest)))) = some reply)
    (hheaders : headers ++ [(key, value)] <+: reply.headers) : 10 ∉ value := by
  intro hmem
  obtain ⟨line, more, rfl, hline⟩ := List.eq_append_cons_of_mem hmem
  have hform := h.append_singleton hkey hline
  have htext : headerText headers ++ (key ++ 58 :: ((line ++ 10 :: more) ++ 10 :: rest)) =
      headerText (headers ++ [(key, line)]) ++ (more ++ 10 :: rest) := by
    simp [headerText_append, headerText, ascii]
  rw [htext] at hreply
  have hcut := prefix_of_replyOf hform hreply
  rw [keepFirst_of_nodup (by simpa using hdistinct), List.nil_append] at hcut
  have heq := (List.prefix_of_prefix_length_le hcut hheaders (by simp)).eq_of_length (by simp)
  simp at heq

end Logfile
