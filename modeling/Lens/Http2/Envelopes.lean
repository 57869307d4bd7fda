import Lens.Http2.Table

/-!
# gRPC envelopes

`Parses` is the loop of `GrpcParser::push` as a relation, with the bytes of a DATA
frame cut where the envelopes are: one constructor for each way a turn can go.  From a
parser that keeps what it keeps (`GrpcParser.Ok`) the loop takes a byte on every turn,
so a parse is what a push does (`Parses.push_eq`), and every frame has one
(`push_parses`).  What the parser does is then shown by
induction on `Parses`.
-/

namespace Lens.Http2

open List
open Search (beNat)

namespace GrpcPayload

/-- The payload of an envelope that begins, from its five bytes. -/
def ofHead (head : Bytes) (maxBody : Nat) : GrpcPayload :=
  let length := beNat ((head.drop 1).take 4)
  ⟨head.headD 0 = 1, length, length, [], maxBody⟩

/-- The payload with more of its bytes, captured up to a limit. -/
def fill (q : GrpcPayload) (limit : Nat) (bytes : Bytes) : GrpcPayload :=
  { q with
    body := q.body ++ bytes.take (limit - q.body.length)
    remaining := q.remaining - bytes.length }

variable (q : GrpcPayload) (limit : Nat) (bytes : Bytes)

theorem fill_body_length_le : (q.fill limit bytes).body.length ≤ max q.body.length limit := by
  simp only [fill, length_append, length_take]
  omega

end GrpcPayload

/-- The first byte of an envelope is a flag. -/
def validFlag (head : Bytes) : Bool := head.headD 0 == 0 || head.headD 0 == 1

namespace GrpcParser

/-- What holds of a parser between two DATA frames. -/
structure Ok (p : GrpcParser) : Prop where
  short : p.prefixBytes.length < 5
  remaining : ∀ q, p.pending = some q → 0 < q.remaining ∧ p.prefixBytes = []

theorem Ok.init : Ok {} := ⟨by decide, by simp⟩

section Parses

variable (d : Direction) (id : Nat) (path : String) (limit : Nat)

inductive Parses :
    GrpcParser → Bytes → GrpcParser → Except String (List DecodedMessage) → Prop where
  | done {p : GrpcParser} : Parses p [] p (.ok [])
  /-- The payload under way goes on after these bytes. -/
  | grows {p : GrpcParser} {q : GrpcPayload} {xs : Bytes} :
      p.pending = some q → xs.length < q.remaining →
      Parses p xs { p with pending := some (q.fill limit xs) } (.ok [])
  /-- The payload under way ends. -/
  | ends {p p' : GrpcParser} {q : GrpcPayload} {xs ys : Bytes}
      {r : Except String (List DecodedMessage)} :
      p.pending = some q → xs.length = q.remaining →
      Parses { p with pending := none } ys p' r →
      Parses p (xs ++ ys) p' (r.map ((q.fill limit xs).finish d id path :: ·))
  /-- The five bytes of an envelope are not complete. -/
  | waits {p : GrpcParser} {xs : Bytes} :
      p.pending = none → (p.prefixBytes ++ xs).length < 5 →
      Parses p xs { p with prefixBytes := p.prefixBytes ++ xs } (.ok [])
  | rejects {p : GrpcParser} {xs ys : Bytes} :
      p.pending = none → (p.prefixBytes ++ xs).length = 5 → xs ≠ [] →
      validFlag (p.prefixBytes ++ xs) = false →
      Parses p (xs ++ ys) { p with prefixBytes := [] }
        (.error "invalid gRPC compressed-message flag")
  | empty {p p' : GrpcParser} {xs ys : Bytes} {r : Except String (List DecodedMessage)} :
      p.pending = none → (p.prefixBytes ++ xs).length = 5 → xs ≠ [] →
      validFlag (p.prefixBytes ++ xs) = true →
      (GrpcPayload.ofHead (p.prefixBytes ++ xs) limit).length = 0 →
      Parses {} ys p' r →
      Parses p (xs ++ ys) p'
        (r.map ((GrpcPayload.ofHead (p.prefixBytes ++ xs) limit).finish d id path :: ·))
  | begins {p p' : GrpcParser} {xs ys : Bytes} {r : Except String (List DecodedMessage)} :
      p.pending = none → (p.prefixBytes ++ xs).length = 5 → xs ≠ [] →
      validFlag (p.prefixBytes ++ xs) = true →
      (GrpcPayload.ofHead (p.prefixBytes ++ xs) limit).length ≠ 0 →
      Parses { pending := some (GrpcPayload.ofHead (p.prefixBytes ++ xs) limit) } ys p' r →
      Parses p (xs ++ ys) p' r

end Parses

section Push

variable {q : GrpcPayload} {pre xs : Bytes} {n : Nat} {messages : List DecodedMessage}

variable {d : Direction} {id : Nat} {path : String} {limit : Nat}

theorem Ok.ended {p : GrpcParser} (h : p.Ok) : Ok { p with pending := none } :=
  ⟨h.short, by simp⟩

theorem Ok.begun (h : 0 < q.remaining) : Ok { pending := some q } :=
  ⟨Nat.zero_lt_succ 4, by simpa using h⟩

theorem validFlag_iff (head : Bytes) :
    validFlag head = true ↔ ¬(head.headD 0 ≠ 0 ∧ head.headD 0 ≠ 1) := by
  simp only [validFlag, Bool.or_eq_true, beq_iff_eq]
  tauto

/-- The payload of a turn, as the loop writes it. -/
theorem fill_take (q : GrpcPayload) (bytes : Bytes) :
    ({ q with
        body := q.body ++ bytes.take (min (limit - q.body.length) (min q.remaining bytes.length))
        remaining := q.remaining - min q.remaining bytes.length } : GrpcPayload) =
      q.fill limit (bytes.take (min q.remaining bytes.length)) := by
  simp [GrpcPayload.fill, take_take]

/-! ## A push is a parse -/

theorem fill_nil (q : GrpcPayload) : q.fill limit [] = q := by
  simp [GrpcPayload.fill]

theorem pushLoop_nil (n : Nat) (p : GrpcParser) :
    pushLoop d id path limit n p [] = (p, .ok []) := by
  cases n <;> rfl

/-- The turn of the loop that ends the payload under way. -/
theorem pushLoop_ends {p : GrpcParser} (hq : p.pending = some q) (hlen : xs.length = q.remaining)
    (hne : xs ≠ []) (ys : Bytes) :
    pushLoop d id path limit (n + 1) p (xs ++ ys) =
      ((pushLoop d id path limit n { p with pending := none } ys).1,
        (pushLoop d id path limit n { p with pending := none } ys).2.map
          ((q.fill limit xs).finish d id path :: ·)) := by
  have hmin : min q.remaining (xs ++ ys).length = xs.length := by
    rw [length_append]
    omega
  have hfill := @fill_take limit q (xs ++ ys)
  rw [hmin, take_left] at hfill
  rw [pushLoop, if_neg (by simp [hne])]
  simp only [hq, hmin, hfill, drop_left]
  exact if_pos (by simp [hlen])

/-- The turn of the loop that completes the five bytes of an envelope. -/
theorem pushLoop_head {p : GrpcParser} (hq : p.pending = none)
    (h5 : (p.prefixBytes ++ xs).length = 5) (hne : xs ≠ []) (ys : Bytes) :
    pushLoop d id path limit (n + 1) p (xs ++ ys) =
      if validFlag (p.prefixBytes ++ xs) = false then
        ({ p with prefixBytes := [] }, .error "invalid gRPC compressed-message flag")
      else if (GrpcPayload.ofHead (p.prefixBytes ++ xs) limit).length = 0 then
        ((pushLoop d id path limit n {} ys).1, (pushLoop d id path limit n {} ys).2.map
          ((GrpcPayload.ofHead (p.prefixBytes ++ xs) limit).finish d id path :: ·))
      else pushLoop d id path limit n
        { pending := some (GrpcPayload.ofHead (p.prefixBytes ++ xs) limit) } ys := by
  have hmin : min (5 - p.prefixBytes.length) (xs ++ ys).length = xs.length := by
    rw [length_append] at h5 ⊢
    omega
  rw [pushLoop, if_neg (by simp [hne])]
  simp only [hq, hmin, take_left, drop_left]
  rw [if_neg (by omega)]
  refine if_congr ?_ rfl rfl
  rw [← Bool.not_eq_true, validFlag_iff]
  tauto

/-- The parse is what the loop does. -/
theorem Parses.pushLoop_eq {p p' : GrpcParser} {bytes : Bytes}
    {r : Except String (List DecodedMessage)} (h : Parses d id path limit p bytes p' r) (hp : p.Ok)
    (hn : bytes.length < n) : pushLoop d id path limit n p bytes = (p', r) := by
  induction h generalizing n with
  | done => exact pushLoop_nil n _
  | @grows p q xs hq hlt =>
    obtain ⟨n, rfl⟩ := Nat.exists_eq_succ_of_ne_zero (Nat.ne_zero_of_lt hn)
    by_cases hnil : xs = []
    · subst hnil
      rw [pushLoop_nil, fill_nil, ← hq]
    · have hmin : min q.remaining xs.length = xs.length := by omega
      have hfill := @fill_take limit q xs
      rw [hmin, take_length] at hfill
      rw [pushLoop, if_neg (by simpa using hnil)]
      simp only [hq, hmin, hfill, drop_length, pushLoop_nil]
      exact if_neg (by omega)
  | @ends p p' q xs ys r hq hlen _ ih =>
    have hpos := (hp.remaining q hq).1
    have hne : xs ≠ [] := ne_nil_of_length_pos (by omega)
    obtain ⟨n, rfl⟩ := Nat.exists_eq_succ_of_ne_zero (Nat.ne_zero_of_lt hn)
    rw [length_append] at hn
    rw [pushLoop_ends hq hlen hne, ih hp.ended (by omega)]
  | @waits p xs hq hlt =>
    obtain ⟨n, rfl⟩ := Nat.exists_eq_succ_of_ne_zero (Nat.ne_zero_of_lt hn)
    by_cases hnil : xs = []
    · subst hnil
      rw [pushLoop_nil, append_nil]
    · have hmin : min (5 - p.prefixBytes.length) xs.length = xs.length := by
        rw [length_append] at hlt
        omega
      rw [pushLoop, if_neg (by simpa using hnil)]
      simp only [hq, hmin, take_length]
      exact if_pos hlt
  | @rejects p xs ys hq h5 hne hbad =>
    obtain ⟨n, rfl⟩ := Nat.exists_eq_succ_of_ne_zero (Nat.ne_zero_of_lt hn)
    rw [pushLoop_head hq h5 hne, if_pos hbad]
  | @empty p p' xs ys r hq h5 hne hgood hlen _ ih =>
    obtain ⟨n, rfl⟩ := Nat.exists_eq_succ_of_ne_zero (Nat.ne_zero_of_lt hn)
    have hpos := length_pos_iff.mpr hne
    rw [length_append] at hn
    rw [pushLoop_head hq h5 hne, if_neg (by simp [hgood]), if_pos hlen, ih .init (by omega)]
  | @begins p p' xs ys r hq h5 hne hgood hlen _ ih =>
    obtain ⟨n, rfl⟩ := Nat.exists_eq_succ_of_ne_zero (Nat.ne_zero_of_lt hn)
    have hpos := length_pos_iff.mpr hne
    rw [length_append] at hn
    rw [pushLoop_head hq h5 hne, if_neg (by simp [hgood]), if_neg hlen,
      ih (.begun (Nat.pos_of_ne_zero hlen)) (by omega)]

theorem Parses.push_eq {p p' : GrpcParser} {bytes : Bytes}
    {r : Except String (List DecodedMessage)}
    (h : Parses d id path limit p bytes p' r) (hp : p.Ok) :
    p.push d id path bytes limit = (p', r) :=
  h.pushLoop_eq hp (Nat.lt_succ_self _)

/-- The bytes of a frame can be parsed. -/
theorem Ok.exists_parses {p : GrpcParser} (hp : p.Ok) (bytes : Bytes) :
    ∃ p' r, Parses d id path limit p bytes p' r ∧ p'.Ok := by
  induction hn : bytes.length using Nat.strong_induction_on generalizing p bytes with
  | _ n ih =>
    subst hn
    cases hq : p.pending with
    | some q =>
      obtain ⟨hpos, hpre⟩ := hp.remaining q hq
      obtain ⟨xs, ys, rfl, hlen⟩ | ⟨k, hk⟩ := Search.split_or_short q.remaining bytes
      · obtain ⟨p', r, hrest, hok⟩ := ih ys.length (by rw [length_append]; omega) hp.ended ys rfl
        exact ⟨p', _, .ends hq hlen.symm hrest, hok⟩
      · exact ⟨_, _, .grows hq (by omega), hp.short, by simpa [GrpcPayload.fill, hk] using hpre⟩
    | none =>
      have hshort := hp.short
      obtain ⟨xs, ys, rfl, hlen⟩ | ⟨k, hk⟩ :=
        Search.split_or_short (5 - p.prefixBytes.length) bytes
      · have h5 : (p.prefixBytes ++ xs).length = 5 := by
          rw [length_append]
          omega
        have hne : xs ≠ [] := ne_nil_of_length_pos (by omega)
        have hless : ys.length < (xs ++ ys).length := by
          rw [length_append]
          omega
        cases hflag : validFlag (p.prefixBytes ++ xs) with
        | false => exact ⟨_, _, .rejects hq h5 hne hflag, Nat.zero_lt_succ 4, by simp [hq]⟩
        | true =>
          by_cases hzero : (GrpcPayload.ofHead (p.prefixBytes ++ xs) limit).length = 0
          · obtain ⟨p', r, hrest, hok⟩ := ih _ hless .init ys rfl
            exact ⟨p', _, .empty hq h5 hne hflag hzero hrest, hok⟩
          · have hbegun : Ok { pending := some (.ofHead (p.prefixBytes ++ xs) limit) } :=
              .begun (Nat.pos_of_ne_zero hzero)
            obtain ⟨p', r, hrest, hok⟩ := ih _ hless hbegun ys rfl
            exact ⟨p', _, .begins hq h5 hne hflag hzero hrest, hok⟩
      · have hwaits : (p.prefixBytes ++ bytes).length < 5 := by
          rw [length_append]
          omega
        exact ⟨_, _, .waits hq hwaits, hwaits, by simp [hq]⟩

/-- A push parses the bytes of its frame. -/
theorem push_parses {p : GrpcParser} (hp : p.Ok) (bytes : Bytes) :
    Parses d id path limit p bytes (p.push d id path bytes limit).1
      (p.push d id path bytes limit).2 := by
  obtain ⟨p', r, h, -⟩ := hp.exists_parses bytes
  rwa [h.push_eq hp]

theorem Ok.push {p : GrpcParser} (hp : p.Ok) (bytes : Bytes) :
    (p.push d id path bytes limit).1.Ok := by
  obtain ⟨p', r, h, hok⟩ := hp.exists_parses bytes
  rwa [h.push_eq hp]

/-! ## What a push keeps and gives -/

variable {p p' : GrpcParser} {bytes : Bytes} {r : Except String (List DecodedMessage)}

theorem retained_some (h : p.pending = some q) : p.retained = q.body.length := by
  simp [retained, h]

/-- A parser keeps no more than it kept before, or the limit. -/
theorem Parses.retained_le (h : Parses d id path limit p bytes p' r) :
    p'.retained ≤ max p.retained limit := by
  induction h with
  | done => exact le_max_left _ _
  | grows hq _ =>
    rw [retained_some hq]
    exact GrpcPayload.fill_body_length_le _ _ _
  | ends hq _ _ ih => exact ih.trans (max_le (Nat.zero_le _) (le_max_right _ _))
  | waits hq _ => exact le_max_left _ _
  | rejects hq _ _ _ => exact le_max_left _ _
  | empty _ _ _ _ _ _ ih => exact ih.trans (max_le (Nat.zero_le _) (le_max_right _ _))
  | begins _ _ _ _ _ _ ih => exact ih.trans (max_le (Nat.zero_le _) (le_max_right _ _))

/-- No message is longer than what was kept before, or the limit. -/
theorem Parses.body_le (h : Parses d id path limit p bytes p' r)
    (hr : r = .ok messages) : ∀ m ∈ messages, m.body.length ≤ max p.retained limit := by
  induction h generalizing messages with
  | done | grows | waits =>
    cases hr
    simp
  | rejects => cases hr
  | @ends p p' q xs ys r hq _ _ ih =>
    cases r with
    | error => cases hr
    | ok rest =>
      cases hr
      simp only [mem_cons, forall_eq_or_imp]
      refine ⟨?_, fun m hm => (ih rfl m hm).trans (max_le (Nat.zero_le _) (le_max_right _ _))⟩
      rw [retained_some hq]
      exact GrpcPayload.fill_body_length_le q limit xs
  | @empty p p' xs ys r _ _ _ _ _ _ ih =>
    cases r with
    | error => cases hr
    | ok rest =>
      cases hr
      simp only [mem_cons, forall_eq_or_imp]
      exact ⟨Nat.zero_le _, fun m hm => (ih rfl m hm).trans (max_le (Nat.zero_le _)
        (le_max_right _ _))⟩
  | begins _ _ _ _ _ _ ih =>
    exact fun m hm => (ih hr m hm).trans (max_le (Nat.zero_le _) (le_max_right _ _))

/-- Every message is a finished payload. -/
theorem Parses.finished (h : Parses d id path limit p bytes p' r)
    (hr : r = .ok messages) : ∀ m ∈ messages, ∃ q : GrpcPayload, m = q.finish d id path := by
  induction h generalizing messages with
  | done | grows | waits =>
    cases hr
    simp
  | rejects => cases hr
  | @ends _ _ _ _ _ r _ _ _ ih | @empty _ _ _ _ r _ _ _ _ _ _ ih =>
    cases r with
    | error => cases hr
    | ok rest =>
      cases hr
      simp only [mem_cons, forall_eq_or_imp]
      exact ⟨⟨_, rfl⟩, ih rfl⟩
  | begins _ _ _ _ _ _ ih => exact ih hr

/-- A parser that fails keeps no payload. -/
theorem Parses.pending_of_error (h : Parses d id path limit p bytes p' r) {reason : String}
    (hr : r = .error reason) : p'.pending = none := by
  induction h with
  | done | grows | waits => cases hr
  | rejects hq => exact hq
  | @ends _ _ _ _ _ r _ _ _ ih | @empty _ _ _ _ r _ _ _ _ _ _ ih =>
    cases r with
    | ok => cases hr
    | error => exact ih hr
  | begins _ _ _ _ _ _ ih => exact ih hr

end Push

/-! ## Bad flags -/

/-- After `skip` bytes, an envelope with a bad flag stands somewhere in the bytes. -/
def badFlag : Nat → Bytes → Bool
  | _, [] => false
  | skip + 1, _ :: rest => badFlag skip rest
  | 0, flag :: a :: b :: c :: e :: rest =>
    !validFlag [flag] || badFlag (beNat [a, b, c, e]) rest
  | 0, _ => false

theorem badFlag_skip (xs ys : Bytes) : badFlag xs.length (xs ++ ys) = badFlag 0 ys := by
  induction xs with
  | nil => rfl
  | cons x xs ih => simpa [badFlag] using ih

theorem badFlag_of_lt {xs : Bytes} :
    ∀ {skip : Nat}, xs.length ≤ skip → badFlag skip xs = false := by
  induction xs with
  | nil => intro skip _; cases skip <;> rfl
  | cons x xs ih =>
    intro skip h
    cases skip with
    | zero => simp at h
    | succ skip => exact ih (by simpa using h)

theorem badFlag_short : ∀ {xs : Bytes}, xs.length < 5 → badFlag 0 xs = false
  | [], _ | [_], _ | [_, _], _ | [_, _, _], _ | [_, _, _, _], _ => rfl
  | _ :: _ :: _ :: _ :: _ :: _, h => by simp at h; omega

theorem badFlag_head (limit : Nat) : ∀ {head : Bytes} (_ : head.length = 5) (ys : Bytes),
    badFlag 0 (head ++ ys) =
      (!validFlag head || badFlag (GrpcPayload.ofHead head limit).length ys)
  | [_, _, _, _, _], _, _ => rfl

/-- An envelope that begins in the data has a bad flag. -/
def rejects (p : GrpcParser) (data : Bytes) : Bool :=
  match p.pending with
  | some q => badFlag q.remaining data
  | none => badFlag 0 (p.prefixBytes ++ data)

variable {p : GrpcParser} {r : Except String (List DecodedMessage)}

theorem rejects_some {q : GrpcPayload} (h : p.pending = some q) (data : Bytes) :
    p.rejects data = badFlag q.remaining data := by
  simp [rejects, h]

theorem rejects_none (h : p.pending = none) (data : Bytes) :
    p.rejects data = badFlag 0 (p.prefixBytes ++ data) := by
  simp [rejects, h]

/-- A message in front of a result does not change whether it is a fault. -/
theorem map_cons_isError (m : DecodedMessage) :
    (∃ reason, r.map (m :: ·) = .error reason) ↔ ∃ reason, r = .error reason := by
  cases r <;> simp [Except.map]

/-- A push fails where an envelope has a bad flag. -/
theorem Parses.error_iff {d : Direction} {id : Nat} {path : String} {limit : Nat} {p' : GrpcParser}
    {bytes : Bytes} (h : Parses d id path limit p bytes p' r) (hp : p.Ok) :
    (∃ reason, r = .error reason) ↔ p.rejects bytes = true := by
  induction h with
  | @done p =>
    have hno : p.rejects [] = false := by
      cases hq : p.pending with
      | none => rw [rejects_none hq, append_nil, badFlag_short hp.short]
      | some q => rw [rejects_some hq, badFlag_of_lt (Nat.zero_le _)]
    simp [hno]
  | grows hq hlt => simp [rejects_some hq, badFlag_of_lt hlt.le]
  | @ends p p' q xs ys r hq hlen _ ih =>
    have hpre := (hp.remaining q hq).2
    rw [map_cons_isError, ih hp.ended, rejects_none rfl, rejects_some hq, ← hlen, badFlag_skip,
      hpre, nil_append]
  | waits hq hlt => simp [rejects_none hq, badFlag_short hlt]
  | rejects hq h5 _ hbad =>
    rw [rejects_none hq, ← append_assoc, badFlag_head 0 h5, hbad]
    simp
  | @empty p p' xs ys r hq h5 _ hgood hlen _ ih =>
    rw [map_cons_isError, ih .init, rejects_none rfl, rejects_none hq, ← append_assoc,
      badFlag_head limit h5, hgood, hlen]
    rfl
  | @begins p p' xs ys r hq h5 _ hgood hlen _ ih =>
    rw [ih (.begun (Nat.pos_of_ne_zero hlen)), rejects_some rfl, rejects_none hq,
      ← append_assoc, badFlag_head limit h5, hgood]
    rfl

end GrpcParser

/-- A DATA frame on a gRPC stream parses its data. -/
theorem StreamState.pushGrpc_parses {st : StreamState} {d : Direction}
    (hok : (st.grpcParser d).Ok) (id : Nat) (data : Bytes) (maxBody retained : Nat) :
    GrpcParser.Parses d id (st.path.getD "/unknown")
      (captureLimit maxBody retained (st.grpcParser d)) (st.grpcParser d) data
      (st.pushGrpc d id data maxBody retained).1 (st.pushGrpc d id data maxBody retained).2 :=
  GrpcParser.push_parses hok data

end Lens.Http2
