import Lens.Http2.Streams
import Lens.Http2.Wire

/-!
# The capture budget

The decoder counts the body bytes that its streams hold, and captures no more than
`maxInflightCapture` of them.  Each event is an entry in that account: what the
counter gains is what the stream gains, plus what the stream drops and the counter
still counts (`leaked`, `outcome_accounts`).  The counter is therefore never below
the bytes held, and the difference never shrinks.  It is exact in a state if and only
if no event before it leaked (`budget_exact_iff`).

Three events leak: a reset of a stream with captured bytes, initial headers in
place of a message that has a body, and gRPC data in which a bad flag follows the end
of a payload.
-/

namespace Lens.Http2

open List

variable {retained maxBody : Nat} {old : Option StreamState} {st : StreamState} {grown leak : Nat}
  {d : Direction}

/-! ## Bytes of a stream -/

/-- The captured bytes of an entry. -/
def bytesOf : Option StreamState → Nat
  | none => 0
  | some st => st.retainedBodyBytes

@[simp] theorem bytesOf_none : bytesOf none = 0 := rfl

@[simp] theorem bytesOf_some (st : StreamState) : bytesOf (some st) = st.retainedBodyBytes := rfl

/-- The captured bytes of a message under way. -/
def bodyLength (p : Option PendingMessage) : Nat := (p.map fun m => m.body.length).getD 0

@[simp] theorem bodyLength_none : bodyLength none = 0 := rfl

@[simp] theorem bodyLength_some (p : PendingMessage) : bodyLength (some p) = p.body.length := rfl

namespace StreamState

theorem retained_setPending (st : StreamState) (d : Direction) (p : Option PendingMessage) :
    (st.setPending d p).retainedBodyBytes + bodyLength (st.pending d) =
      st.retainedBodyBytes + bodyLength p := by
  cases d <;> simp only [setPending, pending, retainedBodyBytes, bodyLength] <;> omega

theorem retained_setGrpcParser (st : StreamState) (d : Direction) (p : GrpcParser) :
    (st.setGrpcParser d p).retainedBodyBytes + (st.grpcParser d).retained =
      st.retainedBodyBytes + p.retained := by
  cases d <;> simp only [setGrpcParser, grpcParser, retainedBodyBytes] <;> omega

@[simp] theorem retained_marked (old : Option StreamState) (hs : Headers) :
    (marked old hs).retainedBodyBytes = bytesOf old := by
  cases old <;> rfl

theorem bodyLength_pending_le (st : StreamState) (d : Direction) :
    bodyLength (st.pending d) ≤ st.retainedBodyBytes := by
  cases d <;> simp only [pending, retainedBodyBytes, bodyLength] <;> omega

theorem grpcParser_retained_le (st : StreamState) (d : Direction) :
    (st.grpcParser d).retained ≤ st.retainedBodyBytes := by
  cases d <;> simp only [grpcParser, retainedBodyBytes] <;> omega

end StreamState

/-! ## What an event leaks -/

/-- The captured bytes that an event drops and the counter keeps. -/
def leaked (old : Option StreamState) : Event → Nat
  | .headers d _ _ hs =>
    if (StreamState.marked old hs).grpc then 0
    else if (startLine hs).isSome then bodyLength (old.bind (·.pending d)) else 0
  | .data d _ _ data =>
    match old with
    | none => 0
    | some st =>
      if st.grpc && (st.grpcParser d).rejects data then (st.grpcParser d).retained else 0
  | .reset _ => bytesOf old

/-- The counter after an outcome goes with the bytes of the stream. -/
structure Accounts (retained : Nat) (old : Option StreamState) (o : Outcome)
    (leak : Nat) : Prop where
  balance : o.retained + bytesOf old = retained + bytesOf (o.change.next old) + leak
  within : o.retained ≤ maxInflightCapture

theorem saturatingAdd_of_le {a b : Nat} (h : a + b ≤ maxInflightCapture) :
    saturatingAdd a b = a + b := by
  rw [saturatingAdd]
  simp only [maxInflightCapture] at h
  omega

/-- A stream whose direction has ended gives back what it held. -/
theorem Accounts.ended (d : Direction) (messages : List DecodedMessage)
    (h : grown + bytesOf old = retained + st.retainedBodyBytes + leak)
    (hle : bytesOf old ≤ retained) (hin : grown ≤ maxInflightCapture) :
    Accounts retained old (.ended d st grown messages) leak := by
  cases d with
  | clientToServer => exact ⟨h, hin⟩
  | serverToClient =>
    refine ⟨?_, (Nat.sub_le _ _).trans hin⟩
    simp only [Outcome.ended, ↓reduceIte, Change.next, bytesOf_none]
    omega

/-- A message under way in place of another one. -/
theorem Accounts.setPending {p : Option PendingMessage}
    {result : Except String (List DecodedMessage)} (hst : st.retainedBodyBytes = bytesOf old)
    (h : grown + bodyLength (st.pending d) = retained + bodyLength p + leak)
    (hin : grown ≤ maxInflightCapture) :
    Accounts retained old ⟨.put (st.setPending d p), grown, result⟩ leak := by
  have hset := st.retained_setPending d p
  refine ⟨?_, hin⟩
  simp only [Change.next, bytesOf_some]
  omega

/-- A message that has ended. -/
theorem Accounts.endPending {p : PendingMessage} (messages : List DecodedMessage)
    (hst : st.retainedBodyBytes = bytesOf old) (hp : st.pending d = some p)
    (h : grown + p.body.length = retained) (hle : bytesOf old ≤ retained)
    (hin : grown ≤ maxInflightCapture) :
    Accounts retained old (.ended d (st.setPending d none) grown messages) 0 := by
  have hset := st.retained_setPending d none
  rw [hp, bodyLength_some, bodyLength_none] at hset
  exact .ended d messages (by omega) hle hin

section Data

variable {id : Nat} {data : Bytes}

theorem grown_le (maxBody : Nat) (data : Bytes) (p : PendingMessage)
    (hin : retained ≤ maxInflightCapture) : retained + capturable maxBody retained p data ≤
      maxInflightCapture := by
  rw [capturable]
  omega

theorem length_extend (p : PendingMessage) : (p.extend maxBody retained data).body.length =
    p.body.length + capturable maxBody retained p data := by
  rw [PendingMessage.extend, length_append, length_take, capturable]
  omega

/-- The counter after gRPC data goes with the bytes of its parser. -/
theorem pushGrpc_accounts {parser : GrpcParser} {messages : List DecodedMessage}
    (hok : (st.grpcParser d).Ok) (hle : st.retainedBodyBytes ≤ retained)
    (hin : retained ≤ maxInflightCapture)
    (hpush : st.pushGrpc d id data maxBody retained = (parser, .ok messages)) :
    (∀ endStream, leaked (some st) (.data d id endStream data) = 0) ∧
      saturatingAdd (retained - (st.grpcParser d).retained) parser.retained +
        st.retainedBodyBytes = retained + (st.setGrpcParser d parser).retainedBodyBytes + 0 ∧
      saturatingAdd (retained - (st.grpcParser d).retained) parser.retained ≤
        maxInflightCapture := by
  obtain ⟨hparses, -⟩ := StreamState.parses_of_push hok hpush
  have hkept := st.grpcParser_retained_le d
  have hset := st.retained_setGrpcParser d parser
  have hgood : (st.grpcParser d).rejects data = false := by
    rw [Bool.eq_false_iff, Ne, ← hparses.error_iff hok]
    simp
  have hafter := hparses.retained_le
  have hroom : saturatingAdd (st.grpcParser d).retained (maxInflightCapture - retained) =
      (st.grpcParser d).retained + (maxInflightCapture - retained) :=
    saturatingAdd_of_le (by omega)
  have hcap : retained - (st.grpcParser d).retained + parser.retained ≤ maxInflightCapture := by
    rw [captureLimit, hroom] at hafter
    omega
  rw [saturatingAdd_of_le hcap]
  exact ⟨fun _ => by simp [leaked, hgood], by omega, hcap⟩

end Data

/-- Every event balances the account, up to what it leaks. -/
theorem outcome_accounts (full : Bool) (e : Event)
    (hok : ∀ st, old = some st → ∀ d, (st.grpcParser d).Ok) (hle : bytesOf old ≤ retained)
    (hin : retained ≤ maxInflightCapture) :
    Accounts retained old (outcome maxBody retained full old e) (leaked old e) := by
  have hyields := outcome_yields maxBody retained full old e
  generalize outcome maxBody retained full old e = o at hyields ⊢
  cases hyields with
  | reset => exact ⟨by simp [Change.next, leaked], hin⟩
  | full hold | noStream hold =>
    subst hold
    exact ⟨by simp [Change.next, leaked], hin⟩
  | grpcHeaders hg => exact ⟨by simp [Change.next, leaked, hg], hin⟩
  | grpcHeadersEnd hg => exact .ended _ _ (by simp [leaked, hg]) hle hin
  | start hg hline | startEnd hg hline =>
    exact .setPending (StreamState.retained_marked ..) (by simp [leaked, hg, hline]) hin
  | orphan hg hline => exact ⟨by simp [Change.next, leaked, hg, hline], hin⟩
  | trailers hg hline hp =>
    exact .setPending (StreamState.retained_marked ..) (by simp [leaked, hg, hline, hp]) hin
  | @trailersEnd d id hs p hg hline hp =>
    have hleak : leaked old (.headers d id true hs) = 0 := by simp [leaked, hg, hline]
    have hpending := (StreamState.marked old hs).bodyLength_pending_le d
    rw [hp, StreamState.retained_marked, bodyLength_some] at hpending
    rw [hleak]
    exact .endPending _ (StreamState.retained_marked ..) hp (by omega) hle
      ((Nat.sub_le _ _).trans hin)
  | noMessage hold hg =>
    subst hold
    exact ⟨by simp [Change.next, leaked, hg], hin⟩
  | @data st d id data p hold hg hp =>
    subst hold
    have hgrown := grown_le maxBody data p hin
    rw [saturatingAdd_of_le hgrown]
    refine .setPending rfl ?_ hgrown
    simp [hp, length_extend, leaked, hg]
    omega
  | @dataEnd st d id data p hold hg hp =>
    subst hold
    have hgrown := grown_le maxBody data p hin
    have hleak : leaked (some st) (.data d id true data) = 0 := by simp [leaked, hg]
    rw [hleak, saturatingAdd_of_le hgrown, length_extend]
    have hpending := st.bodyLength_pending_le d
    rw [hp, bodyLength_some] at hpending
    rw [bytesOf_some] at hle
    exact .endPending _ rfl hp (by omega) hle (by omega)
  | @refused st d id endStream data parser reason hold hg hpush =>
    subst hold
    obtain ⟨hparses, -⟩ := StreamState.parses_of_push (hok st rfl d) hpush
    have hzero : parser.retained = 0 := by
      simp [GrpcParser.retained, hparses.pending_of_error rfl]
    have hset := st.retained_setGrpcParser d parser
    have hbad := (hparses.error_iff (hok st rfl d)).mp ⟨reason, rfl⟩
    refine ⟨?_, hin⟩
    simp only [leaked, hg, hbad, Bool.and_self, ↓reduceIte, Change.next, bytesOf_some]
    omega
  | inside hold _ hpush | push hold _ hpush =>
    subst hold
    obtain ⟨hleak, hbalance, hcap⟩ := pushGrpc_accounts (hok _ rfl _) hle hin hpush
    rw [hleak]
    exact ⟨hbalance, hcap⟩
  | pushEnd hold _ hpush =>
    subst hold
    obtain ⟨hleak, hbalance, hcap⟩ := pushGrpc_accounts (hok _ rfl _) hle hin hpush
    rw [hleak]
    exact .ended _ _ hbalance hle hcap

/-! ## The whole table -/

/-- The captured bytes that the streams hold. -/
def held (streams : Streams) : Nat := (streams.entries.map fun e => e.2.retainedBodyBytes).sum

theorem held_erase (streams : Streams) (id : Nat) :
    held (streams.erase id) + bytesOf (streams.lookup id) = held streams := by
  change ((streams.entries.kerase id).map fun e => e.2.retainedBodyBytes).sum +
    bytesOf (streams.entries.dlookup id) = (streams.entries.map fun e => e.2.retainedBodyBytes).sum
  induction streams.entries with
  | nil => rfl
  | cons entry rest ih =>
    by_cases hid : id = entry.1
    · rw [kerase_cons_eq hid]
      obtain ⟨id', st⟩ := entry
      subst hid
      rw [dlookup_cons_eq, bytesOf_some, map_cons, sum_cons, Nat.add_comm]
    · rw [kerase_cons_ne hid, dlookup_cons_ne _ _ hid, map_cons, map_cons,
        sum_cons, sum_cons, Nat.add_assoc, ih]

theorem held_insert (streams : Streams) (id : Nat) (st : StreamState) :
    held (streams.insert id st) = st.retainedBodyBytes + held (streams.erase id) := by
  rw [held, AList.entries_insert, map_cons, sum_cons]
  rfl

theorem held_change (streams : Streams) (id : Nat) (c : Change) :
    held (Table.change streams id c) + bytesOf (streams.lookup id) =
      held streams + bytesOf (c.next (streams.lookup id)) := by
  have h := held_erase streams id
  cases c with
  | keep => rfl
  | remove => exact h
  | put st =>
    simp only [Table.change, Change.next, bytesOf_some, held_insert]
    omega

namespace Table

variable {t : Table}

/-- The counter covers the bytes held and stays within the budget. -/
structure Covered (t : Table) : Prop where
  ok : t.Ok
  held_le : held t.streams ≤ t.retainedBodyBytes
  within : t.retainedBodyBytes ≤ maxInflightCapture

theorem Covered.new (maxBody : Nat) : (Table.new maxBody).Covered :=
  ⟨.new maxBody, le_refl 0, Nat.zero_le _⟩

theorem Covered.accounts (h : t.Covered) (e : Event) :
    Accounts t.retainedBodyBytes (t.streams.lookup e.id) (t.outcome e)
      (leaked (t.streams.lookup e.id) e) := by
  have herase := held_erase t.streams e.id
  have hle := h.held_le
  exact outcome_accounts t.full e (fun st hst => (h.ok e.id st hst).parser) (by omega) h.within

/-- The bytes that are counted and not held grow by what the event leaks. -/
theorem Covered.balance (h : t.Covered) (e : Event) :
    (t.apply e).retainedBodyBytes + held t.streams =
      t.retainedBodyBytes + held (t.apply e).streams + leaked (t.streams.lookup e.id) e := by
  have hchange := held_change t.streams e.id (t.outcome e).change
  have hbalance := (h.accounts e).balance
  simp only [apply]
  omega

theorem Covered.apply (h : t.Covered) (e : Event) : (t.apply e).Covered where
  ok := h.ok.apply e
  held_le := by
    have hbalance := h.balance e
    have hle := h.held_le
    omega
  within := (h.accounts e).within

theorem Covered.applyAll (h : t.Covered) (es : List Event) : (t.applyAll es).Covered :=
  applyAll_induction (fun _ e ht => ht.apply e) h es

/-- No event of a sequence leaks, each in the table it comes to. -/
def NoLeak : Table → List Event → Prop
  | _, [] => True
  | t, e :: es => leaked (t.streams.lookup e.id) e = 0 ∧ NoLeak (t.apply e) es

/-- The counter is exact after a sequence if it was before and nothing leaked. -/
theorem Covered.exact_iff (h : t.Covered) (es : List Event) :
    (t.applyAll es).retainedBodyBytes = held (t.applyAll es).streams ↔
      t.retainedBodyBytes = held t.streams ∧ t.NoLeak es := by
  induction es generalizing t with
  | nil => simp [NoLeak]
  | cons e es ih =>
    have hbalance := h.balance e
    have hle := h.held_le
    rw [applyAll_cons, ih (h.apply e), NoLeak, ← and_assoc]
    refine and_congr_left fun _ => ?_
    -- The difference is not negative, so it is zero only if both parts are.
    constructor
    · intro hexact
      constructor <;> omega
    · rintro ⟨hexact, hleak⟩
      omega

end Table

/-! ## Runs -/

namespace Http2Decoder

variable {η : Type}

/-- The counter is the sum over the streams, so that all of the budget is there when
no stream holds a byte. -/
structure BudgetExact (s : Http2Decoder η) : Prop where
  sum : s.retainedBodyBytes = held s.streams
  released : held s.streams = 0 → maxInflightCapture - s.retainedBodyBytes = maxInflightCapture

theorem budgetExact_iff_sum (s : Http2Decoder η) :
    s.BudgetExact ↔ s.retainedBodyBytes = held s.streams :=
  ⟨BudgetExact.sum, fun h => ⟨h, fun hzero => by rw [h, hzero]; rfl⟩⟩

/-- In every state that calls reach the budget is exact if and only if no event up to
there leaked. -/
theorem budget_exact_iff (hp : Hpack η) (maxBody : Nat) (calls : List Call) :
    ((new hp maxBody).run hp calls).1.BudgetExact ↔
      (Table.new maxBody).NoLeak ((new hp maxBody).events hp calls) := by
  have htable := (new hp maxBody).run_table hp calls
  have hexact := (Table.Covered.new maxBody).exact_iff ((new hp maxBody).events hp calls)
  have hstart : (new hp maxBody).table = Table.new maxBody := rfl
  rw [hstart] at htable
  rw [← htable] at hexact
  rw [budgetExact_iff_sum]
  refine hexact.trans ?_
  simp [Table.new, held]

/-- An upload of three bytes that the client resets. -/
def resetUpload : List Call :=
  [.push .clientToServer (clientPreface ++
    [⟨frameHeaders, flagEndHeaders, 1, []⟩, ⟨frameData, 0, 1, [1, 2, 3]⟩,
      ⟨frameRstStream, 0, 1, [0, 0, 0, 8]⟩].flatMap Frame.bytes)]

/-- After the reset no stream holds a byte, and three bytes are still counted. -/
theorem resetUpload_not_exact :
    ¬((new (.always [(":method", "POST"), (":path", "/")]) 16).run
      (.always [(":method", "POST"), (":path", "/")]) resetUpload).1.BudgetExact := by
  rw [budgetExact_iff_sum]
  decide +kernel

end Http2Decoder

end Lens.Http2
