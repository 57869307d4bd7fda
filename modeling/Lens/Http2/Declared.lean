import Lens.Http2.Calls
import Lens.Http2.Capture

/-!
# Captured gRPC payloads

A gRPC payload is marked as truncated when the length that its envelope declares is over
the limit of the frame in which it began.  Its bytes are captured under the limits of the
frames in which they come.  Each limit is the cap, or what the parser holds and the budget
still has.  The two disagree when other streams use up the budget in between, or give it
back.

`unread` is the wire's account of a stream and direction: the bytes of the envelope under
way.  As long as the budget leaves every frame the whole cap (`limitFree`), and no DATA is
dropped, a payload holds the first bytes of its envelope up to the cap, and it is marked
if and only if these are not all (`payloads_honest`).
-/

namespace Lens.Http2

open List

/-! ## The wire's account -/

/-- The table and the bytes of the envelope under way on a stream and direction.  The
bytes are gone with the stream. -/
def unreadStep (d : Direction) (id : Nat) (s : Table × Bytes) : Logged → Table × Bytes
  | .taken e =>
    (s.1.apply e,
      if ((s.1.apply e).streams.lookup id).isNone then []
      else if e.id = id then readOn d (s.1.streams.lookup id) s.2 e else s.2)
  | .lost e => (s.1, if e.id = id then readOn d (s.1.streams.lookup id) s.2 e else s.2)

/-- The bytes of the envelope under way after a log. -/
def unread (d : Direction) (id mb : Nat) (log : List Logged) : Bytes :=
  (log.foldl (unreadStep d id) (Table.new mb, [])).2

/-! ## Captured bytes -/

/-- The first bytes of the payload, up to the cap. -/
def FirstBytes (mb : Nat) (q : GrpcPayload) (xs : Bytes) : Prop :=
  q.maxBody = mb ∧ q.body = xs.take mb

theorem firstBytes_kept (mb : Nat) : GrpcParser.Kept (FirstBytes mb) mb where
  begins _ := ⟨rfl, take_nil.symm⟩
  fills q xs ys h := by
    have hroom : mb - min mb xs.length = mb - xs.length := by omega
    refine ⟨h.1, ?_⟩
    change q.body ++ ys.take (mb - q.body.length) = (xs ++ ys).take mb
    rw [h.2, take_append, length_take, hroom]

/-- The message is marked if and only if it lacks bytes of its envelope, and has the first
of them. -/
structure PayloadHonest (m : DecodedMessage) (r : Envelope) : Prop where
  flag : m.truncated = true ↔ m.body.length < r.payload.length
  start : m.body <+: r.payload

variable {d : Direction}

theorem PayloadHonest.of_tells {mb id : Nat} {path : String} {m : DecodedMessage} {r : Envelope}
    (h : GrpcParser.Tells (FirstBytes mb) d id path m r) : PayloadHonest m r := by
  obtain ⟨q, rfl, hlen, -, hmax, hbody⟩ := h
  constructor
  · simp only [GrpcPayload.finish, hmax, hlen, hbody, length_take, decide_eq_true_eq]
    omega
  · simp only [GrpcPayload.finish, hbody]
    exact take_prefix _ _

/-- The budget leaves a DATA frame on a gRPC stream the whole cap. -/
def limitFree (t : Table) : Event → Bool
  | .data d id _ _ =>
    match t.streams.lookup id with
    | none => true
    | some st => !st.grpc || decide (t.maxBody ≤
        saturatingAdd (st.grpcParser d).retained (maxInflightCapture - t.retainedBodyBytes))
  | .headers .. | .reset _ => true

/-- A frame that has the whole cap captures the first bytes. -/
theorem kept_of_limitFree {t : Table} {id : Nat} {endStream : Bool} {data : Bytes}
    {st : StreamState} (h : limitFree t (.data d id endStream data) = true)
    (hst : t.streams.lookup id = some st) (hg : st.grpc = true) :
    GrpcParser.Kept (FirstBytes t.maxBody)
      (captureLimit t.maxBody t.retainedBodyBytes (st.grpcParser d)) := by
  simp only [limitFree, hst, hg, Bool.not_true, Bool.false_or, decide_eq_true_eq] at h
  rw [captureLimit, Nat.min_eq_left h]
  exact firstBytes_kept t.maxBody

namespace Table

/-- In a sequence of events every DATA frame on a gRPC stream has the whole cap. -/
def limitsFree : Table → List Event → Bool
  | _, [] => true
  | t, e :: es => limitFree t e && limitsFree (t.apply e) es

theorem limitsFree_split {t : Table} {pre post : List Event} {e : Event}
    (h : t.limitsFree (pre ++ e :: post) = true) : limitFree (t.applyAll pre) e = true := by
  induction pre generalizing t with
  | nil => exact (Bool.and_eq_true_iff.mp h).1
  | cons e' pre ih => exact ih (Bool.and_eq_true_iff.mp h).2

end Table

/-! ## Runs -/

section Account

variable {mb : Nat} {id : Nat} {es : List Event}

theorem foldl_unreadStep_taken (es : List Event) (t : Table) (buf : Bytes) :
    ((es.map Logged.taken).foldl (unreadStep d id) (t, buf)).1 = t.applyAll es := by
  induction es generalizing t buf with
  | nil => rfl
  | cons e es ih => exact ih ..

/-- The account after one more event. -/
theorem unread_append (es : List Event) (e : Event) :
    unread d id mb ((es ++ [e]).map .taken) =
      (unreadStep d id ((Table.new mb).applyAll es, unread d id mb (es.map .taken))
        (.taken e)).2 := by
  rw [unread, map_append, foldl_append, ← foldl_unreadStep_taken es (Table.new mb) []]
  rfl

/-- Events of other streams do not change the account of a stream that is in the table. -/
theorem unread_others {es' : List Event} {st : StreamState}
    (hst : ((Table.new mb).applyAll es).streams.lookup id = some st) (h : ∀ e ∈ es', e.id ≠ id) :
    ((Table.new mb).applyAll (es ++ es')).streams.lookup id = some st ∧
      unread d id mb ((es ++ es').map .taken) = unread d id mb (es.map .taken) := by
  induction es' using List.reverseRecOn with
  | nil =>
    rw [append_nil]
    exact ⟨hst, rfl⟩
  | append_singleton es' e ih =>
    obtain ⟨hlookup, hunread⟩ := ih fun e' he' => h e' (mem_append_left _ he')
    have hid : e.id ≠ id := h e (by simp)
    have hnext : (((Table.new mb).applyAll (es ++ es')).apply e).streams.lookup id = some st := by
      rw [Table.lookup_apply_ne _ _ (Ne.symm hid), hlookup]
    rw [← append_assoc, unread_append, unreadStep]
    simp only [hnext, Option.isNone_some, Bool.false_eq_true, ↓reduceIte, hid, hunread, and_true]
    rw [Table.applyAll_append]
    exact hnext

/-- The parsers hold the bytes that the wire's account has. -/
structure Account (mb : Nat) (es : List Event) (t : Table) : Prop where
  holds : ∀ d id st, t.streams.lookup id = some st →
    GrpcParser.Holds (FirstBytes mb) (st.grpcParser d) (unread d id mb (es.map .taken))
  gone : ∀ d id, t.streams.lookup id = none → unread d id mb (es.map .taken) = []

theorem Account.new (mb : Nat) : Account mb [] (Table.new mb) where
  holds d id st hst := by simp [Table.new] at hst
  gone _ _ _ := rfl

theorem Account.old {t : Table} (h : Account mb es t) (d : Direction) (id : Nat) :
    GrpcParser.Holds (FirstBytes mb) (((t.streams.lookup id).getD {}).grpcParser d)
      (unread d id mb (es.map .taken)) := by
  cases hst : t.streams.lookup id with
  | some st => exact h.holds d id st hst
  | none =>
    rw [h.gone d id hst]
    cases d <;> exact .init

/-- An event that leaves a gRPC frame the whole cap keeps the account. -/
theorem Account.apply {e : Event} (h : Account mb es ((Table.new mb).applyAll es))
    (hfree : limitFree ((Table.new mb).applyAll es) e = true) :
    Account mb (es ++ [e]) (((Table.new mb).applyAll es).apply e) := by
  have hmb : ((Table.new mb).applyAll es).maxBody = mb := Table.applyAll_maxBody _ _
  generalize ht : (Table.new mb).applyAll es = t at h hfree hmb ⊢
  constructor
  · intro d id st hst
    rw [unread_append, ht, unreadStep]
    simp only [hst, Option.isNone_some, Bool.false_eq_true, ↓reduceIte]
    by_cases hid : e.id = id
    · rw [if_pos hid]
      subst hid
      rw [Table.lookup_apply_self] at hst
      rw [outcome_grpcParser hst]
      have hold := h.old d e.id
      rw [← hmb] at hold ⊢
      refine holds_readOn hold fun d' id endStream data he hg => ?_
      subst he
      cases hlookup : t.streams.lookup id with
      | none =>
        simp only [Event.id, hlookup] at hg
        cases hg
      | some st' =>
        simp only [Event.id, hlookup] at hg ⊢
        exact kept_of_limitFree hfree hlookup hg
    · rw [if_neg hid]
      rw [Table.lookup_apply_ne t e (Ne.symm hid)] at hst
      exact h.holds d id st hst
  · intro d id hst
    rw [unread_append, ht, unreadStep]
    simp [hst]

end Account

namespace Http2Decoder

variable {η : Type} {id : Nat}

/-- A message of a gRPC payload. -/
def isPayload (m : DecodedMessage) : Bool := m.headers.contains ("lens-content", "protobuf")

/-- The log of a direction before an event of the direction. -/
def before (hp : Hpack η) (d : Direction) (calls : List Call) (pre : List (Direction × Event))
    (e : Event) : List Logged :=
  (woven d (log hp d calls) (pre ++ [(d, e)])).dropLast

/-- The payloads that a frame gives are those of the first envelopes that end in it, and
they are honest about them. -/
def PayloadsHonest (hp : Hpack η) (maxBody : Nat) (calls : List Call) : Prop :=
  ∀ pre d id endStream data post,
    (new hp maxBody).directed hp calls = pre ++ (d, .data d id endStream data) :: post →
    ∀ st, ((Table.new maxBody).applyAll (pre.map Prod.snd)).streams.lookup id = some st →
      st.grpc = true →
      ∃ rs, rs <+: (envelopes.records (unread d id maxBody
          (before hp d calls pre (.data d id endStream data)) ++ data)).1 ∧
        List.Forall₂ PayloadHonest
          ((gives (((Table.new maxBody).applyAll (pre.map Prod.snd)).outcome
            (.data d id endStream data)).result).filter isPayload) rs

theorem before_of_taken {hp : Hpack η} {calls : List Call}
    (h : (log hp d calls).all Logged.isTaken = true) (pre : List (Direction × Event)) (e : Event) :
    before hp d calls pre e = (pre.map Prod.snd).map .taken := by
  rw [before, woven_of_taken d h, map_append, map_singleton, dropLast_concat, map_map]
  rfl

/-- The payload messages of a frame. -/
theorem filter_isPayload {K : GrpcPayload → Bytes → Prop} {path : String}
    {ms : List DecodedMessage} {rs : List Envelope} (endStream : Bool)
    (h : List.Forall₂ (GrpcParser.Tells K d id path) ms rs) :
    (ms ++ if endStream then endMessages d id else []).filter isPayload = ms := by
  have hms : ∀ m ∈ ms, isPayload m = true := by
    induction h with
    | nil => simp
    | cons hm _ ih =>
      obtain ⟨q, rfl, -⟩ := hm
      exact forall_mem_cons.mpr ⟨by simp [isPayload, GrpcPayload.finish], ih⟩
  have hend : (if endStream then endMessages d id else []).filter isPayload = [] := by
    cases endStream with
    | false => rfl
    | true =>
      cases d with
      | clientToServer => rfl
      | serverToClient => simp [endMessages, endedWithoutTrailers, isPayload]
  rw [filter_append, hend, append_nil, filter_eq_self.mpr hms]

/-- If no DATA is dropped and every frame of a gRPC stream has the whole cap, all payloads
are honest. -/
theorem payloads_honest (hp : Hpack η) (maxBody : Nat) (calls : List Call)
    (htaken : ∀ d, (log hp d calls).all Logged.isTaken = true)
    (hfree : (Table.new maxBody).limitsFree ((new hp maxBody).events hp calls) = true) :
    PayloadsHonest hp maxBody calls := by
  intro pre d id endStream data post hdirected st hst hg
  have hes : (new hp maxBody).events hp calls =
      pre.map Prod.snd ++ .data d id endStream data :: post.map Prod.snd := by
    rw [← directed_snd, hdirected]
    simp
  rw [hes] at hfree
  have hstep : ∀ pre' e' post', pre.map Prod.snd ++ .data d id endStream data :: post.map Prod.snd =
      pre' ++ e' :: post' → limitFree ((Table.new maxBody).applyAll pre') e' = true :=
    fun pre' e' post' heq => Table.limitsFree_split (heq ▸ hfree)
  have haccount := Table.applyAll_history (P := fun es t => t = (Table.new maxBody).applyAll es →
    Account maxBody es t) (fun _ => .new maxBody)
    (fun pre' e' post' heq h _ => (h rfl).apply (hstep pre' e' post' heq))
    _ (.data d id endStream data :: post.map Prod.snd) rfl rfl
  have hmb : ((Table.new maxBody).applyAll (pre.map Prod.snd)).maxBody = maxBody :=
    Table.applyAll_maxBody _ _
  have hkept := kept_of_limitFree (hstep _ _ _ rfl) hst hg
  have hholds := haccount.holds d id st hst
  rw [hmb] at hkept
  rw [before_of_taken (htaken d)]
  have houtcome : ((Table.new maxBody).applyAll (pre.map Prod.snd)).outcome
      (.data d id endStream data) = grpcDataOutcome d id endStream data maxBody
        ((Table.new maxBody).applyAll (pre.map Prod.snd)).retainedBodyBytes st := by
    simp only [Table.outcome, outcome, Event.id, hst, hg, ↓reduceIte, hmb]
  rw [houtcome]
  by_cases hok : ∃ left, (envelopes.records (unread d id maxBody ((pre.map Prod.snd).map .taken) ++
      data)).2 = some left ∧ (endStream = true → left = [])
  · obtain ⟨left, hleft, hend⟩ := hok
    obtain ⟨ms, hms, hresult⟩ := grpcData_ok hkept hholds id (Prod.ext rfl hleft) hend
    refine ⟨_, prefix_refl _, ?_⟩
    rw [hresult, gives, filter_isPayload endStream hms]
    exact hms.imp fun _ _ => .of_tells
  · have hbad : ∀ left, (envelopes.records (unread d id maxBody
        ((pre.map Prod.snd).map .taken) ++ data)).2 = some left → endStream = true ∧ left ≠ [] := by
      intro left hleft
      by_contra hno
      refine hok ⟨left, hleft, fun hend => ?_⟩
      by_contra hne
      exact hno ⟨hend, hne⟩
    obtain ⟨reason, hresult⟩ := grpcData_lost hkept hholds id hbad
    refine ⟨[], nil_prefix, ?_⟩
    rw [hresult]
    exact .nil

/-- The header list of a gRPC call. -/
def callHeaders : Headers :=
  [(":method", "POST"), (":path", "/a"), ("content-type", "application/grpc")]

/-- An HPACK decoder for two header lists. -/
def callsHpack : Hpack Unit where
  init := ()
  decode _ block :=
    ((), .ok ((if block = [1] then callHeaders else postHeaders).map
      fun f => (Utf8.asBytes f.1, Utf8.asBytes f.2)))

/-- A payload over the cap, in two frames. -/
def cappedCall : List Call :=
  [.push .clientToServer (clientPreface ++
    [headersFrame 1 false true none none [1], dataFrame 1 false none [0, 0, 0, 0, 3, 7],
      dataFrame 1 true none [8, 9]].flatMap Frame.bytes)]

theorem cappedCall_honest :
    (Table.new 2).limitsFree ((new callsHpack 2).events callsHpack cappedCall) = true ∧
      PayloadsHonest callsHpack 2 cappedCall :=
  ⟨by decide +kernel, payloads_honest callsHpack 2 cappedCall
    (fun d => by cases d <;> decide +kernel) (by decide +kernel)⟩

/-! ### A budget that is used up inside an envelope -/

/-- The envelope begins, another stream uses up the budget, and the envelope ends. -/
def lateFrames : List Frame :=
  [headersFrame 1 false true none none [1], dataFrame 1 false none [0, 0, 0, 0, 1],
    headersFrame 3 false true none none [2]] ++
    (List.replicate 4 (dataFrame 3 false none zeros) ++ [dataFrame 1 false none [7]])

/-- The events of the first two frames. -/
def lateBegun : List Event :=
  [.headers .clientToServer 1 false callHeaders, .data .clientToServer 1 false [0, 0, 0, 0, 1]]

/-- The events of the other stream. -/
def lateOthers : List Event :=
  .headers .clientToServer 3 false postHeaders ::
    List.replicate 4 (.data .clientToServer 3 false zeros)

def lateCalls : List Call :=
  [.push .clientToServer (clientPreface ++ lateFrames.flatMap Frame.bytes)]

/-- The stream with its envelope under way. -/
def called : StreamState :=
  (StreamState.marked none callHeaders).setGrpcParser .clientToServer
    ⟨[], some ⟨false, 1, 1, [], maxInflightCapture⟩⟩

theorem lateBegun_table :
    (Table.new maxInflightCapture).applyAll lateBegun =
      ⟨(∅ : Streams).insert 1 called, maxInflightCapture, 0⟩ := by
  rfl

/-- The table before the envelope ends. -/
theorem late_table :
    (Table.new maxInflightCapture).applyAll (lateBegun ++ lateOthers) =
      ⟨((∅ : Streams).insert 1 called).insert 3 (posted held4), maxInflightCapture,
        maxInflightCapture⟩ := by
  have hthird : ((∅ : Streams).insert 1 called).lookup 3 = none := by
    rw [AList.lookup_insert_ne (by decide), AList.lookup_empty]
  rw [Table.applyAll_append, lateBegun_table, lateOthers]
  exact applyAll_posted hthird (Nat.lt_of_le_of_lt (Nat.le_refl 1) (by decide))

/-- The payload has none of its bytes and is not marked. -/
theorem late_gives :
    (gives (((Table.new maxInflightCapture).applyAll (lateBegun ++ lateOthers)).outcome
      (.data .clientToServer 1 false [7])).result).filter isPayload =
      [GrpcPayload.finish ⟨false, 1, 0, [], maxInflightCapture⟩ .clientToServer 1 "/a"] := by
  have hfirst :
      (((∅ : Streams).insert 1 called).insert 3 (posted held4)).lookup 1 = some called := by
    rw [AList.lookup_insert_ne (by decide), AList.lookup_insert]
  have hgrpc : called.grpc = true := rfl
  rw [late_table]
  simp only [Table.outcome, outcome, Event.id, hfirst, hgrpc, ↓reduceIte]
  rfl

theorem lateFrames_onWire : ∀ f ∈ lateFrames, f.OnWire := by
  have hwire : (dataFrame 3 false none zeros).OnWire :=
    ⟨length_zeros.trans_lt (by decide), by decide⟩
  simp only [lateFrames, List.replicate, cons_append, nil_append, forall_mem_cons]
  exact ⟨by decide, by decide, by decide, hwire, hwire, hwire, hwire, by decide, by simp⟩

/-- The HEADERS frame of a header list that fits, and its event. -/
theorem receive_call (hid : id ≠ 0) {block : UInt8} {hs : Headers}
    (hblock : hs = if block = 1 then callHeaders else postHeaders) :
    (DirectionState.new callsHpack false).receive callsHpack .clientToServer
        (headersFrame id false true none none [block]) =
      (.new callsHpack false, [.headers .clientToServer id false hs]) := by
  have hdecode : callsHpack.decode (DirectionState.new callsHpack false).hpack [block] =
      ((DirectionState.new callsHpack false).hpack,
        .ok (hs.map fun f => (Utf8.asBytes f.1, Utf8.asBytes f.2))) := by
    simp [callsHpack, hblock]
  have hlists : hs = callHeaders ∨ hs = postHeaders := by
    rw [hblock]
    split
    · exact .inl rfl
    · exact .inr rfl
  have htext : headerText (hs.map fun f => (Utf8.asBytes f.1, Utf8.asBytes f.2)) = hs := by
    rcases hlists with rfl | rfl <;> decide +kernel
  have hsize : decodedSize (hs.map fun f => (Utf8.asBytes f.1, Utf8.asBytes f.2)) ≤
      maxDecodedHeaders := by
    rcases hlists with rfl | rfl <;> decide +kernel
  refine (DirectionState.receive_headersFrame rfl hid
    (by simp [maxHeaderBlock]) hdecode hsize).trans ?_
  rw [htext]

theorem lateFrames_receive :
    List.Forall₂ (fun f e => (DirectionState.new callsHpack false).receive callsHpack
      .clientToServer f = (.new callsHpack false, [e])) lateFrames
      (lateBegun ++ lateOthers ++ [.data .clientToServer 1 false [7]]) := by
  have hdata : ∀ id data, id ≠ 0 → data.length ≤ maxObservedFramePayload →
      (DirectionState.new callsHpack false).receive callsHpack .clientToServer
        (dataFrame id false none data) =
        (.new callsHpack false, [.data .clientToServer id false data]) :=
    fun id data hid hlen => DirectionState.receive_dataFrame rfl hid hlen
  have hzeros := hdata 3 zeros (by decide) length_zeros.le
  exact .cons (receive_call one_ne_zero rfl) (.cons (hdata 1 _ one_ne_zero (by decide))
    (.cons (receive_call (by decide) rfl) (.cons hzeros (.cons hzeros (.cons hzeros (.cons hzeros
      (.cons (hdata 1 _ one_ne_zero (by decide)) .nil)))))))

theorem lateCalls_directed :
    (new callsHpack maxInflightCapture).directed callsHpack lateCalls =
      (lateBegun ++ lateOthers).map (.clientToServer, ·) ++
        [(.clientToServer, .data .clientToServer 1 false [7])] := by
  have hevents := events_push callsHpack maxInflightCapture lateFrames_onWire lateFrames_receive
  rw [events, events, append_nil] at hevents
  rw [lateCalls, directed, directed, append_nil, hevents, map_append]
  rfl

theorem lateCalls_not_honest : ¬PayloadsHonest callsHpack maxInflightCapture lateCalls := by
  intro h
  have htaken : (log callsHpack .clientToServer lateCalls).all Logged.isTaken = true := by
    rw [lateCalls, log_push lateFrames_onWire lateFrames_receive]
    simp [Logged.isTaken]
  have hpre : ((lateBegun ++ lateOthers).map ((Direction.clientToServer, ·) : Event → _)).map
      Prod.snd = lateBegun ++ lateOthers := by simp
  have hbegun : ((Table.new maxInflightCapture).applyAll lateBegun).streams.lookup 1 =
      some called := by
    rw [lateBegun_table, AList.lookup_insert]
  have hids : ∀ e ∈ lateOthers, e.id ≠ 1 := by
    simp [lateOthers, List.replicate, Event.id]
  obtain ⟨hst, hunread⟩ := unread_others (d := .clientToServer) hbegun hids
  have hhead : unread .clientToServer 1 maxInflightCapture (lateBegun.map .taken) =
      [0, 0, 0, 0, 1] := by decide +kernel
  obtain ⟨rs, hrs, hall⟩ := h _ .clientToServer 1 false [7] [] lateCalls_directed called
    (by rw [hpre]; exact hst) rfl
  rw [before_of_taken htaken, hpre, hunread, hhead] at hrs
  rw [hpre, late_gives] at hall
  have hread : (envelopes.records ([0, 0, 0, 0, 1] ++ [7])).1 = [⟨[0, 0, 0, 0, 1], [7]⟩] := by
    decide +kernel
  rw [hread] at hrs
  cases hall with
  | @cons _ r _ _ hhonest _ =>
    have hr : r ∈ [(⟨[0, 0, 0, 0, 1], [7]⟩ : Envelope)] := hrs.subset (mem_cons_self ..)
    obtain rfl := mem_singleton.mp hr
    have hflag := hhonest.flag.mpr (by decide)
    revert hflag
    decide

end Http2Decoder

end Lens.Http2
