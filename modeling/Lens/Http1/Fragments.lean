import Lens.Http1.Runs

/-!
# Messages in fragments

A direction that has a part of a message waits for the rest, whatever the part is
(`Completes.waits`), provided that the lines and sections of the message are within what a
direction holds while it waits.  So a byte of a message is read without a report, and the
last one gives the message (`push_inner`, `push_last`).  Pushes of several bytes are pushes
of one byte each (`run_pushes_eq_bytes`).
-/

namespace Lens.Http1

open List
open Stream (Settles Halts)
open Search (Delimits)

section Waits

variable {d : Direction} {maxBody : Nat} {answersHead : Bool}

/-- A step on a part of a message goes on or waits, and what was missing still completes the
message. -/
def Waits (d : Direction) (maxBody : Nat) (answersHead : Bool) (p : Option PendingBody)
    (buf r : Bytes) (m : DecodedMessage) : Prop :=
  ∃ t step, Steps d maxBody answersHead ⟨buf, p⟩ (t, step) ∧ (step = .progress ∨ step = .needMore) ∧
    Completes true d maxBody answersHead false t.pending (t.buffer ++ r) m

theorem TrailerSection.waits {m : DecodedMessage} {buf r : Bytes}
    (h : TrailerSection true (buf ++ r)) (hr : r ≠ []) :
    Waits d maxBody answersHead (some (.chunked m .trailers)) buf r m := by
  have hdone :
      Completes true d maxBody answersHead false (some (.chunked m .trailers)) (buf ++ r) m :=
    ⟨rfl, .trailers h⟩
  have hlen := length_pos_iff.mpr hr
  have hwait : ¬crlf <+: buf → Search.find headEnd buf = none → buf.length ≤ maxHeadBytes →
      Waits d maxBody answersHead (some (.chunked m .trailers)) buf r m :=
    fun hp hfind hle => ⟨_, _, .trailersWait hp hfind hle, .inr rfl, hdone⟩
  generalize htotal : buf ++ r = total at h
  cases h with
  | empty =>
    have hshort : buf.length < 2 := by
      have hlength := congrArg List.length htotal
      simp [crlf] at hlength
      omega
    refine hwait ?_ ?_ (by rw [maxHeadBytes]; omega)
    · intro hp
      have hle := hp.length_le
      simp [crlf] at hle
      omega
    · rcases hfind : Search.find headEnd buf with _ | k
      · rfl
      · have hle := Search.find_le hfind
        simp [headEnd] at hle
        omega
  | @lines t hp hend hshort =>
    have heq : t ++ headEnd ++ [] = buf ++ r := by rw [append_nil, htotal]
    obtain ⟨y, -, hy⟩ | ⟨hfind, hlt⟩ := hend.cases heq
    · exact absurd (append_eq_nil_iff.mp hy.symm).2 hr
    · refine hwait (fun hcrlf => hp (hcrlf.trans ?_)) hfind ?_
      · rw [← htotal]
        exact prefix_append ..
      · have hmax := hshort rfl
        simp [headEnd] at hlt
        omega

theorem Rest.waits {p : PendingBody} {buf r : Bytes} {m : DecodedMessage}
    (hp : p.isUntilEof = false) (h : Rest true maxBody p (buf ++ r) m) (hr : r ≠ []) :
    Waits d maxBody answersHead (some p) buf r m := by
  generalize htotal : buf ++ r = total at h
  have hlen := length_pos_iff.mpr hr
  cases h with
  | untilEof => cases hp
  | @fixed m₀ _ n hw =>
    have hk : n = buf.length + (r.length - 1 + 1) := by
      rw [← hw, ← htotal, length_append]
      omega
    subst hk
    refine ⟨_, _, .fixedWaits, .inr rfl, rfl, ?_⟩
    rw [← htotal, ← capture_capture]
    exact .fixed (by rw [nil_append]; omega)
  | @size m₀ _ line r₀ n hline hrest =>
    obtain ⟨hend, htext, hshort⟩ := id hline
    obtain ⟨text, htext, hsize⟩ := Option.bind_eq_some_iff.mp htext
    obtain ⟨y, rfl, rfl⟩ | ⟨hfind, hlt⟩ := hend.cases htotal.symm
    · exact ⟨_, _, .size hend htext hsize, .inl rfl, rfl, hrest⟩
    · refine ⟨_, _, .sizeWaits hfind ?_, .inr rfl, rfl, ?_⟩
      · have hmax := hshort rfl
        simp [crlf] at hlt
        omega
      · rw [htotal]
        exact .size hline hrest
  | @data m₀ _ w r₀ n hw hrest =>
    subst hw
    obtain ⟨y, rfl, rfl⟩ | ⟨y, hy, rfl, rfl⟩ := Search.append_cases htotal.symm
    · exact ⟨_, _, .data, .inl rfl, rfl, hrest⟩
    · have hk : (buf ++ y).length = buf.length + (y.length - 1 + 1) := by
        have hpos := length_pos_iff.mpr hy
        rw [length_append]
        omega
      rw [hk]
      refine ⟨_, _, .dataWaits, .inr rfl, rfl, ?_⟩
      rw [nil_append]
      rw [← capture_capture] at hrest
      exact .data (by have hpos := length_pos_iff.mpr hy; omega) hrest
  | @dataCrlf m₀ _ r₀ hrest =>
    obtain ⟨y, rfl, rfl⟩ | ⟨y, hy, hcrlf, rfl⟩ := Search.append_cases htotal.symm
    · exact ⟨_, _, .dataCrlf, .inl rfl, rfl, hrest⟩
    · refine ⟨_, _, .dataCrlfWaits ?_, .inr rfl, rfl, ?_⟩
      · have hpos := length_pos_iff.mpr hy
        have hlength := congrArg List.length hcrlf
        simp [crlf] at hlength
        omega
      · rw [htotal]
        exact .dataCrlf hrest
  | trailers ht => exact (htotal ▸ ht).waits hr

/-- A part of a message is not refused. -/
theorem Completes.waits {p : Option PendingBody} {buf r : Bytes} {m : DecodedMessage}
    (h : Completes true d maxBody answersHead false p (buf ++ r) m) (hr : r ≠ []) :
    Waits d maxBody answersHead p buf r m := by
  cases p with
  | some p => exact Rest.waits h.1 h.2 hr
  | none =>
    have hall := h
    rw [Completes] at h
    generalize htotal : buf ++ r = total at h
    cases h with
    | @mk h body payload head hend hshort hparse hf hbody =>
      obtain ⟨y, rfl, rfl⟩ | ⟨hfind, hlt⟩ := hend.cases htotal.symm
      · have hbegin := beginBody_framing d answersHead head y
        generalize head.framing answersHead = f at hbegin hbody hf
        generalize hbytes : y ++ r = bytes at hbody
        cases hbody with
        | untilEof => cases hf
        | empty => exact absurd (append_eq_nil_iff.mp hbytes).2 hr
        | chunked hcs hline ht =>
          refine ⟨_, _, .head hend hparse hbegin, .inl rfl, rfl, ?_⟩
          rw [hbytes]
          exact BodyBytes.rest hcs hline ht _
        | @fixed n _ hw =>
          cases n with
          | zero =>
            obtain rfl := length_eq_zero_iff.mp hw
            exact absurd (append_eq_nil_iff.mp hbytes).2 hr
          | succ n =>
            refine ⟨_, _, .head hend hparse hbegin, .inl rfl, rfl, ?_⟩
            rw [hbytes]
            exact .fixed hw
      · refine ⟨_, _, .headWaits hfind ?_, .inr rfl, hall⟩
        have hmax := hshort rfl
        simp [headEnd] at hlt
        omega

end Waits

namespace Http1Decoder

/-! ## Bytes -/

variable {d : Direction} {s : Http1Decoder} {m : DecodedMessage}

/-- A direction that holds nothing waits. -/
theorem turn_fresh (h : s.state d = {}) : turn d s = .stop s .needMore := by
  have hsteps : Steps d s.maxBody (s.responseToHead d) (s.state d) (s.state d, .needMore) := by
    rw [h]
    exact .headWaits rfl (Nat.zero_le _)
  rw [turn_of_steps hsteps, follow, setState_state]

/-- A part of a message in the buffer is read without a report. -/
theorem settles_waits {r : Bytes} (hr : r ≠ [])
    (h : Completes true d s.maxBody (s.responseToHead d) false (s.state d).pending
      ((s.state d).buffer ++ r) m) :
    ∃ st, Settles (turn d) s (s.setState d st) .needMore ∧
      Completes true d s.maxBody (s.responseToHead d) false st.pending (st.buffer ++ r) m := by
  induction hn : (s.state d).measure using Nat.strong_induction_on generalizing s with
  | _ n ih =>
  obtain ⟨t, step, hsteps, rfl | rfl, hdone⟩ := h.waits hr
  · have hturn : turn d s = .again (s.setState d t) .needMore := turn_of_steps hsteps
    have hlt : ((s.setState d t).state d).measure < (s.state d).measure :=
      turn_decreases d _ _ _ hturn
    have hnext : Completes true d (s.setState d t).maxBody ((s.setState d t).responseToHead d) false
        ((s.setState d t).state d).pending (((s.setState d t).state d).buffer ++ r) m := by
      rwa [state_setState_self, setState_maxBody, responseToHead_setState]
    obtain ⟨st, hrun, hrest⟩ := ih _ (hn ▸ hlt) hnext rfl
    rw [setState_maxBody, responseToHead_setState] at hrest
    rw [setState_setState] at hrun
    have hall := Settles.again hturn hrun
    rw [Stream.Batch.needMore_seq] at hall
    exact ⟨st, hall, hrest⟩
  · exact ⟨t, .stop (turn_of_steps hsteps), hdone⟩

variable {x r : Bytes} {d' : Direction}

/-- A fragment inside a message is read without a report. -/
theorem push_inner (hr : r ≠ [])
    (h : Completes true d s.maxBody (s.responseToHead d) false (s.state d).pending
      ((s.state d).buffer ++ (x ++ r)) m) :
    ∃ st, s.push d x = (s.setState d st, .needMore) ∧
      Completes true d s.maxBody (s.responseToHead d) false st.pending (st.buffer ++ r) m := by
  have hfeed : Completes true d (feed d s x).maxBody ((feed d s x).responseToHead d) false
      ((feed d s x).state d).pending (((feed d s x).state d).buffer ++ r) m := by
    rw [state_feed, DirectionState.append, append_assoc, feed, setState_maxBody,
      responseToHead_setState]
    exact h
  obtain ⟨st, hrun, hrest⟩ := settles_waits hr hfeed
  rw [feed, setState_setState] at hrun
  rw [feed, setState_maxBody, responseToHead_setState] at hrest
  exact ⟨st, hrun.drive (turn_decreases d) _ (Nat.lt_succ_self _), hrest⟩

/-- The last fragment of a message gives the message. -/
theorem push_last {short : Bool}
    (h : Completes short d s.maxBody (s.responseToHead d) false (s.state d).pending
      ((s.state d).buffer ++ x) m) :
    s.push d x = ((s.setState d {}).trackExchange m, ⟨[m], none⟩) := by
  have hfeed : Completes short d (feed d s x).maxBody ((feed d s x).responseToHead d) false
      (s.state d).pending ((s.state d).buffer ++ x) m := by
    rw [feed, setState_maxBody, responseToHead_setState]
    exact h
  have hstate : (feed d s x).state d = ⟨(s.state d).buffer ++ x ++ [], (s.state d).pending⟩ := by
    rw [state_feed, DirectionState.append, append_nil]
  have hgoes := goes_message hfeed hstate
  rw [feed, setState_setState] at hgoes
  have hrun := hgoes.settles (.stop (turn_fresh (by rw [trackExchange_state, state_setState_self])))
  exact hrun.drive (turn_decreases d) _ (Nat.lt_succ_self _)

/-! ## Pushes of several bytes -/

/-- Pushes as the bytes they bring, in their order. -/
def onWire (xs : List (Direction × Bytes)) : List (Direction × UInt8) :=
  xs.flatMap fun p => p.2.map fun c => (p.1, c)

def pushes (xs : List (Direction × Bytes)) : List Op := xs.map fun p => .push p.1 p.2

/-- One push for each byte. -/
def bytePushes (ws : List (Direction × UInt8)) : List Op := ws.map fun p => .push p.1 [p.2]

/-- Both directions wait. -/
def Quiescent (s : Http1Decoder) : Prop := ∀ d, turn d s = .stop s .needMore

theorem state_setState_of_ne (h : d' ≠ d) (st : DirectionState) :
    (s.setState d st).state d' = s.state d' := by
  cases d <;> cases d'
  · exact absurd rfl h
  · rfl
  · rfl
  · exact absurd rfl h

/-- A push leaves the cap and the other direction alone. -/
theorem push_other (h : d' ≠ d) (x : Bytes) :
    (s.push d x).1.maxBody = s.maxBody ∧ (s.push d x).1.state d' = s.state d' := by
  let Same (u : Http1Decoder) : Prop := u.maxBody = s.maxBody ∧ u.state d' = s.state d'
  have hset : ∀ (u : Http1Decoder) (st : DirectionState), Same u → Same (u.setState d st) := by
    rintro u st ⟨hmax, hstate⟩
    exact ⟨by rw [setState_maxBody, hmax], by rw [state_setState_of_ne h, hstate]⟩
  have hagain : ∀ {u v b}, turn d u = .again v b → Same u → Same v := by
    intro u v b hturn hu
    obtain ⟨st, step, -, ⟨-, rfl, -⟩ | ⟨m, -, rfl, -⟩⟩ := turn_again hturn
    · exact hset u st hu
    · obtain ⟨hmax, hstate⟩ := hset u st hu
      exact ⟨by rw [trackExchange_maxBody, hmax], by rw [trackExchange_state, hstate]⟩
  have hstop : ∀ {u v b}, turn d u = .stop v b → Same u → Same v := by
    intro u v b hturn hu
    obtain ⟨st, step, -, rfl, -⟩ := turn_stop hturn
    exact hset u st hu
  exact Stream.drive_keeps hagain hstop _ (feed d s x) (hset s _ ⟨rfl, rfl⟩)

theorem steps_needMore {maxBody : Nat} {answersHead : Bool} {st t : DirectionState}
    (h : Steps d maxBody answersHead st (t, .needMore)) (answersHead' : Bool) :
    Steps d maxBody answersHead' st (t, .needMore) := by
  cases h with
  | head hend hparse hr =>
    exact (beginBody_goesOn hr).elim
  | headWaits hfind hlen => exact .headWaits hfind hlen
  | fixedWaits => exact .fixedWaits
  | untilEof => exact .untilEof
  | sizeWaits hfind hlen => exact .sizeWaits hfind hlen
  | dataWaits => exact .dataWaits
  | dataCrlfWaits hlen => exact .dataCrlfWaits hlen
  | trailersWait hp hfind hlen => exact .trailersWait hp hfind hlen

/-- After a push without a report both directions wait. -/
theorem Quiescent.push (h : s.Quiescent) (hq : (s.push d x).2.desynchronized = none) :
    (s.push d x).1.Quiescent := by
  intro d'
  by_cases hd : d' = d
  · subst hd
    have hrun := (turn_plain d').settles (turn_decreases d') _ (feed d' s x) (Nat.lt_succ_self _) hq
    exact hrun.waits (turn_local d').resumes
  · obtain ⟨hmax, hstate⟩ := push_other (s := s) hd x
    obtain ⟨st, step, hsteps, hs, ⟨rfl, -⟩ | ⟨reason, -, hb⟩⟩ := turn_stop (h d')
    · have hst : st = s.state d' := by
        have hs' := congrArg (·.state d') hs
        rw [state_setState_self] at hs'
        exact hs'.symm
      have hnext : Steps d' (s.push d x).1.maxBody ((s.push d x).1.responseToHead d')
          ((s.push d x).1.state d') ((s.push d x).1.state d', .needMore) := by
        rw [hmax, hstate]
        exact steps_needMore (hst ▸ hsteps) _
      rw [turn_of_steps hnext, follow, setState_state]
    · cases hb

/-- A push of several bytes is a push for each of them. -/
theorem push_eq_bytes (x : Bytes) (h : s.Quiescent)
    (hq : ∀ b ∈ (s.run (bytePushes (x.map fun c => (d, c)))).2, b.desynchronized = none) :
    s.push d x = ((s.run (bytePushes (x.map fun c => (d, c)))).1,
      ⟨s.messages (bytePushes (x.map fun c => (d, c))), none⟩) := by
  induction x generalizing s with
  | nil =>
    have hrun := Settles.drive (turn_decreases d) (.stop (h d)) ((s.state d).measure + 1)
      (Nat.lt_succ_self _)
    have hnil : feed d s [] = s := (bytes d).feed_nil s
    rw [push, process, hnil]
    exact hrun
  | cons c x ih =>
    obtain ⟨hfirst, hrest⟩ := forall_mem_cons.mp hq
    have htail := ih (h.push hfirst) hrest
    have hfirst' : (s.push d [c]).2.desynchronized = none := hfirst
    have hall := push_append (b := x) hfirst' (by rw [htail])
    rw [htail, Stream.Batch.seq, hfirst'] at hall
    exact hall

/-- Pushes without a report are pushes of one byte each. -/
theorem run_pushes_eq_bytes (xs : List (Direction × Bytes)) (h : s.Quiescent)
    (hq : ∀ b ∈ (s.run (bytePushes (onWire xs))).2, b.desynchronized = none) :
    (∀ b ∈ (s.run (pushes xs)).2, b.desynchronized = none) ∧
      s.messages (pushes xs) = s.messages (bytePushes (onWire xs)) := by
  induction xs generalizing s with
  | nil => exact ⟨hq, rfl⟩
  | cons p xs ih =>
    obtain ⟨d, x⟩ := p
    have hwire : bytePushes (onWire ((d, x) :: xs)) =
        bytePushes (x.map fun c => (d, c)) ++ bytePushes (onWire xs) := by
      simp [bytePushes, onWire]
    rw [hwire, run_append] at hq
    obtain ⟨hfirst, hrest⟩ := forall_mem_append.mp hq
    have hpush := push_eq_bytes x h hfirst
    have hsilent : (s.push d x).2.desynchronized = none := by rw [hpush]
    have hnext := ih (h.push hsilent) (by rwa [hpush])
    rw [hwire, messages_append, pushes, map_cons, run, messages_cons]
    refine ⟨forall_mem_cons.mpr ⟨hsilent, hnext.1⟩, ?_⟩
    change (s.push d x).2.messages ++ (s.push d x).1.messages (pushes xs) = _
    rw [hnext.2, hpush]

end Http1Decoder

end Lens.Http1
