import Logfile.Frames
import Logfile.StompFrame

/-!
# The frames `reader_thread` assembles

The inner loops of `output_stream_stomp::reader_thread` on the buffer, with positions for
the pointers. A read puts its bytes at the start of `buf`, over what earlier reads left, and
a NUL behind them, so `strchr` stops there at the latest (`innerLoop_eq`). However the
network cuts the data, the loops pass the frames of the stream to `handle_reply`
(`reassembly`).
-/

namespace Logfile

open Text

/-- The members that the loops change, and the strings passed to `handle_reply`. -/
structure Reader where
  partialReply : Bytes
  lastWasData : Bool
  handled : List Bytes
  deriving DecidableEq, Repr

/-- The loop over heartbeats at the position `sod` : `sod` and `bytesLeft` behind them. -/
def skipHeartbeats (buf : Bytes) (inReply : Bool) : ℕ → ℕ → ℕ × ℕ
  | 0, sod => (sod, 0)
  | bytesLeft + 1, sod =>
    if !inReply && buf[sod]? == some 10 then skipHeartbeats buf inReply bytesLeft (sod + 1)
    else (sod, bytesLeft + 1)

/-- The reply data at `sod` up to the NUL that `strchr` finds : the position behind it, and
whether `handle_reply` returned false. There is no result when there is no NUL. -/
def readReply (buf : Bytes) (endPos sod : ℕ) (r : Reader) : Option (ℕ × Reader × Bool) :=
  match find buf [0] sod with
  | none => none
  | some i =>
    let reply := r.partialReply ++ (buf.drop sod).take (i - sod)
    -- '\0' found => reply complete
    if i ≠ endPos then some (i + 1, ⟨[], true, r.handled ++ [reply]⟩, !accepts reply)
    else some (i, { r with partialReply := reply, lastWasData := true }, false)

/-- `while (bytesLeft)`, with `true` if it was left by `break`. There is no result when the
fuel runs out. -/
def innerLoop (buf : Bytes) (endPos : ℕ) : ℕ → ℕ → ℕ → Reader → Option (Reader × Bool)
  | 0, _, _, _ => none
  | fuel + 1, sod, bytesLeft, r =>
    if bytesLeft = 0 then some (r, false)
    else
      let (sod, bytesLeft) := skipHeartbeats buf (!r.partialReply.isEmpty) bytesLeft sod
      -- heartbeat, but no data => just move on.
      if bytesLeft = 0 then innerLoop buf endPos fuel sod bytesLeft r
      else
        match readReply buf endPos sod r with
        | none => none
        | some (_, r, true) => some (r, true)
        | some (sod, r, false) => innerLoop buf endPos fuel sod (endPos - sod) r

/-- `read` of the bytes `d` and the NUL written behind them. -/
def fillBuffer (buf d : Bytes) : Bytes :=
  (d ++ buf.drop d.length).set d.length 0

/-- `reader_thread` on one connection, from which it reads the given chunks. A rejected
frame closes the connection. -/
def readerLoop : Bytes → List Bytes → Reader → Option Reader
  | _, [], r => some r
  | buf, d :: ds, r =>
    let buf := fillBuffer buf d
    match innerLoop buf d.length (d.length + 1) 0 d.length r with
    | none => none
    | some (r, true) => some r
    | some (r, false) => readerLoop buf ds r

/-! ## The loops follow the stream -/

section Loops

variable {a s t stale : Bytes} {r : Reader} {inReply : Bool}

theorem skipHeartbeats_eq {hs : Bytes} (hhs : ∀ c ∈ hs, c = 10) (hin : inReply = true → hs = [])
    (ht : inReply = false → t.head? ≠ some 10) (stale : Bytes) :
    skipHeartbeats (a ++ (hs ++ (t ++ 0 :: stale))) inReply (hs.length + t.length) a.length =
      (a.length + hs.length, t.length) := by
  induction hs generalizing a with
  | nil =>
    cases t with
    | nil => rfl
    | cons c t =>
      have hstop : (!inReply && (a ++ ([] ++ (c :: t ++ 0 :: stale)))[a.length]? == some 10) =
          false := by
        cases inReply with
        | true => rfl
        | false => simpa using ht rfl
      rw [List.length_nil, Nat.zero_add, List.length_cons, skipHeartbeats, hstop]
      rfl
  | cons c hs ih =>
    have hfalse : inReply = false := by
      cases inReply with
      | true => cases hin rfl
      | false => rfl
    obtain rfl := hhs c List.mem_cons_self
    have hgo : (!inReply && (a ++ (10 :: hs ++ (t ++ 0 :: stale)))[a.length]? == some 10) =
        true := by simp [hfalse]
    have ih := ih (a := a ++ [10]) (fun c hc => hhs c (List.mem_cons_of_mem _ hc))
      (fun h => absurd h (by simp [hfalse]))
    rw [List.length_cons, Nat.add_right_comm, skipHeartbeats, hgo, if_pos rfl]
    simpa [Nat.add_assoc, Nat.add_comm 1] using ih

theorem strchr_eq (ht : 0 ∉ t) (s : Bytes) :
    find (a ++ (t ++ 0 :: s)) [0] a.length = some (a.length + t.length) := by
  rw [find_append, search_singleton ht]
  rfl

/-- The reply is complete. -/
theorem readReply_nul (ht : 0 ∉ t) {endPos : ℕ} (hend : a.length + t.length < endPos) (s : Bytes) :
    readReply (a ++ (t ++ 0 :: s)) endPos a.length r =
      some (a.length + t.length + 1, ⟨[], true, r.handled ++ [r.partialReply ++ t]⟩,
        !accepts (r.partialReply ++ t)) := by
  simp [readReply, strchr_eq ht, hend.ne]

/-- The reply goes on in the next read. -/
theorem readReply_end (ht : 0 ∉ t) (s : Bytes) :
    readReply (a ++ (t ++ 0 :: s)) (a.length + t.length) a.length r =
      some (a.length + t.length, ⟨r.partialReply ++ t, true, r.handled⟩, false) := by
  simp [readReply, strchr_eq ht]

/-- The heartbeats in front of what is left, if no reply is pending. -/
theorem exists_heartbeats (p s : Bytes) : ∃ hs t, s = hs ++ t ∧ (∀ c ∈ hs, c = 10) ∧
    (p ≠ [] → hs = []) ∧ (p = [] → t.head? ≠ some 10) := by
  by_cases hp : p = []
  · refine ⟨s.takeWhile (· = 10), s.dropWhile (· = 10), List.takeWhile_append_dropWhile.symm,
      fun c hc => by simpa using List.mem_takeWhile_imp hc, fun h => (h hp).elim, fun _ h => ?_⟩
    have := List.head?_dropWhile_not (· = (10 : Byte)) s
    rw [h] at this
    simp at this
  · exact ⟨[], s, rfl, nofun, fun _ => rfl, fun h => (hp h).elim⟩

/-- The result of reading `s` in one go. -/
def Reader.reads (r : Reader) (s : Bytes) (w : Bool) : Reader × Bool :=
  let fd := Frames.feed 10 0 accepts r.partialReply s
  (⟨fd.2.getD [], w, r.handled ++ fd.1⟩, fd.2.isNone)

theorem innerLoop_zero {buf : Bytes} {endPos sod fuel : ℕ} (h : 0 < fuel) :
    innerLoop buf endPos fuel sod 0 r = some (r, false) := by
  obtain ⟨fuel, rfl⟩ := Nat.exists_eq_add_of_lt h
  rfl

/-- Something of `s` is not a heartbeat, behind the beginning `p` of a reply. -/
def hasData (p s : Bytes) : Bool :=
  !s.isEmpty && (!p.isEmpty || s.any (· != 10))

theorem hasData_heartbeats {hs : Bytes} (h : ∀ c ∈ hs, c = 10) : hasData [] hs = false := by
  have hall : hs.any (· != 10) = false := by simpa using h
  simp [hasData, hall]

/-- Where the heartbeats end. -/
theorem hasData_of_head {p hs : Bytes} (hne : t ≠ []) (h : p = [] → t.head? ≠ some 10) :
    hasData p (hs ++ t) = true := by
  obtain ⟨c, t, rfl⟩ := List.exists_cons_of_ne_nil hne
  by_cases hp : p = []
  · have hc : c ≠ 10 := by simpa using h hp
    simp [hasData, hc]
  · simp [hasData, hp]

/-- The rest of a round, once the heartbeats are skipped. -/
theorem round_eq (stale : Bytes) {fuel : ℕ}
    (ih : ∀ {a s : Bytes} {r : Reader}, s.length < fuel →
      innerLoop (a ++ (s ++ 0 :: stale)) (a.length + s.length) fuel a.length s.length r =
        some (r.reads s (r.lastWasData || hasData r.partialReply s)))
    (ht : r.partialReply = [] → t.head? ≠ some 10) (hne : t ≠ []) (hlen : t.length ≤ fuel) :
    (match readReply (a ++ (t ++ 0 :: stale)) (a.length + t.length) a.length r with
      | none => none
      | some (_, r, true) => some (r, true)
      | some (sod, r, false) =>
        innerLoop (a ++ (t ++ 0 :: stale)) (a.length + t.length) fuel sod
          (a.length + t.length - sod) r) = some (r.reads t true) := by
  by_cases h0 : 0 ∈ t
  · obtain ⟨f, u, rfl, hf⟩ := List.eq_append_cons_of_mem h0
    have hfill : r.partialReply = [] → f.head? ≠ some 10 := by
      intro hp
      cases f with
      | nil => simp
      | cons c f => exact ht hp
    have hfeed : Frames.feed 10 0 accepts r.partialReply (f ++ 0 :: u) =
        if accepts (r.partialReply ++ f) then
          ((r.partialReply ++ f) :: (Frames.feed 10 0 accepts [] u).1,
            (Frames.feed 10 0 accepts [] u).2)
        else ([r.partialReply ++ f], none) := by
      rw [Frames.feed_run hf hfill, Frames.feed_term (by decide)]
    rw [List.append_assoc, List.cons_append, readReply_nul hf (by simp)]
    cases hacc : accepts (r.partialReply ++ f) with
    | false => simp [Reader.reads, hfeed, hacc]
    | true =>
      have hw := ih (a := a ++ (f ++ [0])) (s := u)
        (r := ⟨[], true, r.handled ++ [r.partialReply ++ f]⟩) (by simp at hlen; omega)
      have hsod : (a ++ (f ++ [0])).length = a.length + f.length + 1 := by
        simp
        omega
      have hend : a.length + (f ++ 0 :: u).length = (a ++ (f ++ [0])).length + u.length := by
        simp
        omega
      have hbuf : a ++ (f ++ 0 :: (u ++ 0 :: stale)) = a ++ (f ++ [0]) ++ (u ++ 0 :: stale) := by
        simp
      rw [hsod] at hw hend
      rw [hbuf, hend]
      simp only [Bool.not_true, Nat.add_sub_cancel_left]
      rw [hw]
      simp [Reader.reads, hfeed, hacc]
  · rw [readReply_end h0]
    have hfeed : Frames.feed 10 0 accepts r.partialReply t = ([], some (r.partialReply ++ t)) := by
      have := @Frames.feed_run _ _ _ _ accepts _ _ h0 ht []
      simpa [Frames.feed] using this
    have hpos : 0 < fuel := (List.length_pos_iff.2 hne).trans_le hlen
    simp [innerLoop_zero hpos, Reader.reads, hfeed]

/-- `while (bytesLeft)` passes to `handle_reply` the frames that end in what is left, up to
the first one rejected, and sets `m_last_was_data` if there is more than heartbeats. -/
theorem innerLoop_eq (stale : Bytes) : ∀ (fuel : ℕ) {a s : Bytes} {r : Reader},
    s.length < fuel → innerLoop (a ++ (s ++ 0 :: stale)) (a.length + s.length) fuel a.length
      s.length r = some (r.reads s (r.lastWasData || hasData r.partialReply s))
  | fuel + 1, a, s, r, hfuel => by
    obtain ⟨hs, t, rfl, hhs, hin, ht⟩ := exists_heartbeats r.partialReply s
    have hskip := @skipHeartbeats_eq a t (!r.partialReply.isEmpty) hs hhs
      (by simpa using hin) (by simpa using ht) stale
    have hreads : ∀ w, r.reads (hs ++ t) w = r.reads t w := by
      intro w
      by_cases hp : r.partialReply = []
      · simp only [Reader.reads, hp, Frames.feed_fill hhs]
      · rw [hin hp, List.nil_append]
    rw [hreads, List.append_assoc, List.length_append, innerLoop, hskip]
    by_cases hnil : t = []
    · subst hnil
      have hbeats : hasData r.partialReply (hs ++ []) = false := by
        by_cases hp : r.partialReply = []
        · rw [hp, List.append_nil, hasData_heartbeats hhs]
        · rw [hin hp]
          rfl
      have hreads : r.reads [] r.lastWasData = (r, false) := by simp [Reader.reads, Frames.feed]
      rw [hbeats, Bool.or_false, hreads]
      split
      · rfl
      · next hpos =>
        dsimp only
        rw [if_pos List.length_nil]
        refine innerLoop_zero ?_
        simp only [List.append_nil, List.length_nil] at hpos hfuel
        omega
    · have hpos : t.length ≠ 0 := by simpa using hnil
      rw [hasData_of_head hnil ht, Bool.or_true]
      dsimp only
      rw [if_neg (by simp [hnil]), if_neg hpos]
      have hround := round_eq (a := a ++ hs) stale (fun h => innerLoop_eq stale fuel h) ht hnil
        (by simp at hfuel; omega)
      simpa [Nat.add_assoc] using hround

theorem fillBuffer_eq {buf d : Bytes} (h : d.length < buf.length) :
    fillBuffer buf d = d ++ 0 :: buf.drop (d.length + 1) := by
  rw [fillBuffer, List.set_append_right _ _ le_rfl, Nat.sub_self, List.drop_eq_getElem_cons h]
  rfl

theorem length_fillBuffer {buf d : Bytes} (h : d.length < buf.length) :
    (fillBuffer buf d).length = buf.length := by
  rw [fillBuffer_eq h]
  simp
  omega

/-- The loop over the bytes of one read. -/
theorem innerLoop_fillBuffer {buf d : Bytes} (h : d.length < buf.length) :
    innerLoop (fillBuffer buf d) d.length (d.length + 1) 0 d.length r =
      some (r.reads d (r.lastWasData || hasData r.partialReply d)) := by
  have hloop := innerLoop_eq (a := []) (r := r) (buf.drop (d.length + 1)) (d.length + 1)
    (Nat.lt_succ_self d.length)
  simpa [fillBuffer_eq h] using hloop

/-- The reads follow the stream, chunk after chunk. -/
theorem readerLoop_eq : ∀ {ds : List Bytes} {buf : Bytes} (r : Reader),
    (∀ d ∈ ds, d.length < buf.length) → ∃ w, readerLoop buf ds r =
      some ⟨(Frames.feedChunks 10 0 accepts r.partialReply ds).2.getD [], w,
        r.handled ++ (Frames.feedChunks 10 0 accepts r.partialReply ds).1⟩
  | [], buf, r, _ => ⟨r.lastWasData, by simp [readerLoop, Frames.feedChunks]⟩
  | d :: ds, buf, r, h => by
    have hd := h d List.mem_cons_self
    rw [readerLoop]
    simp only [innerLoop_fillBuffer hd, Frames.feedChunks]
    generalize hw : (r.lastWasData || hasData r.partialReply d) = w
    cases hfd : Frames.feed 10 0 accepts r.partialReply d with
    | mk fs p =>
      cases p with
      | none => exact ⟨w, by simp [Reader.reads, hfd, Frames.andThen]⟩
      | some p =>
        obtain ⟨w', hw'⟩ := readerLoop_eq ⟨p, w, r.handled ++ fs⟩ fun d' hd' =>
          (length_fillBuffer hd).symm ▸ h d' (List.mem_cons_of_mem _ hd')
        refine ⟨w', ?_⟩
        simpa [Reader.reads, hfd, Frames.andThen] using hw'

end Loops

/-- However the network cuts the data `D` of a connection into reads of at most 1536 bytes,
`handle_reply` gets the frames of `D` up to the first one it rejects, and if it rejects none,
`m_partial_reply` is the unfinished last frame. -/
theorem reassembly (D : Bytes) {buf : Bytes} (hbuf : buf.length = 1537) {ds : List Bytes}
    (hD : ds.flatten = D) (hds : ∀ d ∈ ds, d ≠ [] ∧ d.length ≤ 1536) (w : Bool) :
    ∃ r, readerLoop buf ds ⟨[], w, []⟩ = some r ∧
      r.handled = Frames.upTo accepts (Frames.split 10 0 [] D).1 ∧
      ((∀ f ∈ (Frames.split 10 0 [] D).1, accepts f = true) →
        r.partialReply = (Frames.split 10 0 [] D).2) := by
  obtain ⟨w', hw⟩ := readerLoop_eq ⟨[], w, []⟩ fun d hd =>
    show d.length < buf.length by have := (hds d hd).2; omega
  obtain ⟨hfeed, hrest⟩ := @Frames.feed_eq_split _ _ 10 0 accepts [] D
  -- the cuts do not matter
  rw [Frames.feedChunks_eq, hD] at hw
  refine ⟨_, hw, by simp [hfeed], fun hall => ?_⟩
  simp [hrest hall]

/-- Two heartbeats, a receipt, a frame that is rejected, and more. -/
def someStream : Bytes :=
  ascii "\n\nRECEIPT\nreceipt-id:1\n\n" ++ [0] ++ ascii "ERROR" ++ [0] ++ ascii "\nREC"

theorem reassembly_someStream : ∃ r,
    readerLoop (List.replicate 1537 0) [someStream.take 9, someStream.drop 9] ⟨[], false, []⟩ =
      some r ∧ r.handled = [ascii "RECEIPT\nreceipt-id:1\n\n", ascii "ERROR"] := by
  obtain ⟨r, hr, hhandled, -⟩ := @reassembly someStream (List.replicate 1537 0)
    List.length_replicate [someStream.take 9, someStream.drop 9] (by decide) (by decide) false
  exact ⟨r, hr, hhandled.trans (by decide)⟩

end Logfile
