import Lens.Http2.Isolation
import Lens.Http2.Serialised

/-!
# Interleaved requests

Requests on streams of their own, each cut into parts, with the parts of different
requests in any order on the wire (`Interleaves`).  A stream turns the parts of its
request into one message (`request_results`), whatever comes in between: there is room
in the table for all of them, and in the budget for all their bodies.  The parts in the
order of the wire then give the messages in the order in which the requests end
(`requests_roundtrip`).
-/

namespace Lens.Http2

open List

/-! ## Requests -/

structure Request where
  id : Nat
  head : HeaderUnit
  data : List DataUnit
  trailers : Option HeaderUnit

namespace Request

def body (r : Request) : Bytes := r.data.flatMap DataUnit.data

/-- What comes after the header block: the last part ends the stream. -/
def restParts (trailers : Option HeaderUnit) : List DataUnit → List MessagePart
  | [] => (trailers.map (MessagePart.headers true)).toList
  | u :: us => .data (us.isEmpty && trailers.isNone) u :: restParts trailers us

def parts (r : Request) : List MessagePart :=
  .headers (r.data.isEmpty && r.trailers.isNone) r.head :: restParts r.trailers r.data

/-- The header list, then the trailers. -/
def headers (r : Request) : Headers :=
  r.head.headers ++ (r.trailers.map HeaderUnit.headers).getD []

def startLine (r : Request) : String :=
  (findHeader r.head.headers ":method").getD "" ++ " " ++
    (findHeader r.head.headers ":path").getD "" ++ " HTTP/2"

/-- The message of the request. -/
def message (maxBody : Nat) (r : Request) : DecodedMessage where
  direction := .clientToServer
  startLine := r.startLine
  headers := r.headers ++ [("lens-protocol", "http2"), ("lens-stream-id", toString r.id),
    ("lens-boundary", "request")]
  body := r.body.take maxBody
  truncated := decide (maxBody < r.body.length)

structure Valid (r : Request) : Prop where
  id_ne : r.id ≠ 0
  id_lt : r.id < 0x80000000
  method : (findHeader r.head.headers ":method").isSome
  path : (findHeader r.head.headers ":path").isSome
  plain : marksGrpc r.head.headers = false
  /-- Trailers name no method, no status and no gRPC content type. -/
  trailers : ∀ u, r.trailers = some u →
    Http2.startLine u.headers = none ∧ marksGrpc u.headers = false
  fits : ∀ p ∈ r.parts, p.Fits

end Request

/-! ## One request -/

section Stream

variable {line : String} {hs : Headers} {data : Bytes} {a : Arrival}
  {st : StreamState} {p : PendingMessage} {id : Nat} {e : Bool} {r : Request}

variable {mb : Nat}

/-- A message under way with the data that has come. -/
def underway (mb : Nat) (line : String) (hs : Headers) (data : Bytes) :
    PendingMessage :=
  ⟨.clientToServer, line, hs, data.take mb, decide (mb < data.length)⟩

/-- A frame that the budget has room for. -/
theorem underway_extend {retained : Nat} {sofar : Bytes}
    (h : retained + data.length ≤ maxInflightCapture) :
    (underway mb line hs sofar).extend mb retained data = underway mb line hs (sofar ++ data) := by
  have hcap : capturable mb retained (underway mb line hs sofar) data =
      min (mb - (sofar.take mb).length) data.length := capturable_of_le h (le_refl _)
  rw [length_take] at hcap
  have hbody : sofar.take mb ++ data.take (min (mb - min mb sofar.length) data.length) =
      (sofar ++ data).take mb := by
    rw [take_append]
    congr 1
    rcases Nat.le_total (mb - sofar.length) data.length with hle | hle
    · congr 1
      omega
    · rw [take_of_length_le (by omega), take_of_length_le hle]
  have hflag : (decide (mb < sofar.length) ||
      decide (min (mb - min mb sofar.length) data.length < data.length)) =
      decide (mb < (sofar ++ data).length) := by
    rw [← Bool.decide_or, decide_eq_decide, length_append]
    omega
  simp only [PendingMessage.extend, hcap]
  exact congrArg₂ (PendingMessage.mk _ _ _) hbody hflag

variable (mb) in
/-- A DATA frame of a request under way. -/
theorem data_arrives (hev : a.event = .data .clientToServer id e data) (hg : st.grpc = false)
    (hp : st.pending .clientToServer = some p) :
    (arrive mb (some st) a).result = .ok (if e then
        [addHttp2Metadata (p.extend mb a.retained data).finish id .clientToServer] else []) ∧
      (arrive mb (some st) a).change.next (some st) = some (st.setPending .clientToServer
        (if e then none else some (p.extend mb a.retained data))) := by
  simp only [arrive, hev, outcome, hg, Bool.false_eq_true, ↓reduceIte, plainDataOutcome, hp]
  cases e with
  | false => exact ⟨rfl, rfl⟩
  | true => exact ⟨rfl, rfl⟩

/-- The trailers of a request under way. -/
theorem trailers_arrive (hev : a.event = .headers .clientToServer id true hs)
    (hline : startLine hs = none) (hmark : marksGrpc hs = false) (hg : st.grpc = false)
    (hp : st.pending .clientToServer = some p) :
    (arrive mb (some st) a).result = .ok
      [addHttp2Metadata ({ p with headers := p.headers ++ hs } : PendingMessage).finish id
        .clientToServer] := by
  have hgrpc : (StreamState.marked (some st) hs).grpc = false := by
    simp [StreamState.marked, hg, hmark]
  have hpending : (StreamState.marked (some st) hs).pending .clientToServer = some p := by
    rw [StreamState.pending_marked]
    exact hp
  simp only [arrive, hev, outcome, Option.isNone_some, Bool.false_and, Bool.false_eq_true,
    ↓reduceIte, headersOutcome, hgrpc, hline, hpending, Outcome.ended_result]

variable (mb) in
/-- The header list of a request on a stream of its own. -/
theorem head_arrives (hev : a.event = .headers .clientToServer id e hs) (hfull : a.full = false)
    (hline : startLine hs = some line) (hmark : marksGrpc hs = false) :
    (arrive mb none a).result = .ok (if e then
        [addHttp2Metadata (underway mb line hs []).finish id .clientToServer] else []) ∧
      (arrive mb none a).change.next none = some ((StreamState.marked none hs).setPending
        .clientToServer (if e then none else some (underway mb line hs []))) := by
  have hgrpc : (StreamState.marked none hs).grpc = false := by
    simp [StreamState.marked, hmark]
  have hunderway : underway mb line hs [] = ⟨.clientToServer, line, hs, [], false⟩ := by
    simp [underway]
  simp only [arrive, hev, outcome, hfull, Bool.and_false, Bool.false_eq_true, ↓reduceIte,
    headersOutcome, hgrpc, hline, hunderway]
  cases e with
  | false => exact ⟨rfl, rfl⟩
  | true => exact ⟨rfl, rfl⟩

/-- The parts of a request after its header block. -/
theorem rest_results {trailers : Option HeaderUnit} (htrailers : ∀ u, trailers = some u →
      startLine u.headers = none ∧ marksGrpc u.headers = false) :
    ∀ {us : List DataUnit} {st : StreamState} {sofar : Bytes} {as : List Arrival},
      st.grpc = false → st.pending .clientToServer = some (underway mb line hs sofar) →
      as.map Arrival.event = (Request.restParts trailers us).map (·.event .clientToServer id) →
      Roomy mb (some st) as →
      streamResults mb (some st) as = (Request.restParts trailers us).map fun p =>
        .ok (if p.endStream then
          [addHttp2Metadata (underway mb line (hs ++ (trailers.map HeaderUnit.headers).getD [])
            (sofar ++ us.flatMap DataUnit.data)).finish id .clientToServer] else [])
  | [], st, sofar, as, hg, hp, hev, hroom => by
    cases trailers with
    | none =>
      obtain rfl := map_eq_nil_iff.mp hev
      rfl
    | some u =>
      obtain ⟨a, as', rfl, hevent, hrest⟩ := map_eq_cons_iff.mp hev
      obtain rfl := map_eq_nil_iff.mp hrest
      obtain ⟨hline, hmark⟩ := htrailers u rfl
      rw [streamResults, trailers_arrive hevent hline hmark hg hp]
      simp [Request.restParts, MessagePart.endStream, streamResults, underway]
  | u :: us, st, sofar, as, hg, hp, hev, hroom => by
    obtain ⟨a, as', rfl, hevent, hrest⟩ := map_eq_cons_iff.mp hev
    obtain ⟨-, -, hle, hroom⟩ := hroom
    obtain ⟨hresult, hnext⟩ := data_arrives mb hevent hg hp
    have hdata : a.retained + u.data.length ≤ maxInflightCapture := by
      rw [hevent, dataBytes_cons] at hle
      exact (Nat.add_le_add_left (Nat.le_add_right _ _) _).trans hle
    rw [underway_extend hdata] at hresult hnext
    rw [hnext] at hroom
    rw [streamResults, hresult, hnext, Request.restParts, map_cons]
    cases hend : us.isEmpty && trailers.isNone with
    | true =>
      -- The last part: nothing is left of the request.
      rw [Bool.and_eq_true, List.isEmpty_iff, Option.isNone_iff_eq_none] at hend
      obtain ⟨rfl, rfl⟩ := hend
      obtain rfl := map_eq_nil_iff.mp hrest
      simp [MessagePart.endStream, Request.restParts, streamResults]
    | false =>
      rw [hend] at hroom
      have hgrpc : (st.setPending .clientToServer
          (some (underway mb line hs (sofar ++ u.data)))).grpc = false := hg
      have ih := rest_results htrailers hgrpc (StreamState.pending_setPending ..) hrest hroom
      simp only [Bool.false_eq_true, ↓reduceIte, MessagePart.endStream, flatMap_cons,
        ← append_assoc]
      exact congrArg _ ih

theorem Request.Valid.startLine_eq (h : r.Valid) :
    Http2.startLine r.head.headers = some r.startLine := by
  obtain ⟨method, hmethod⟩ := Option.isSome_iff_exists.mp h.method
  obtain ⟨path, hpath⟩ := Option.isSome_iff_exists.mp h.path
  simp [Http2.startLine, Request.startLine, hmethod, hpath]

/-- The last part of a request gives its message, and the parts before it give nothing. -/
def Request.gives (mb : Nat) (r : Request) (p : MessagePart) : List DecodedMessage :=
  if p.endStream then [r.message mb] else []

theorem Request.message_eq (mb : Nat) (r : Request) :
    addHttp2Metadata (underway mb r.startLine r.headers r.body).finish r.id .clientToServer =
      r.message mb := by
  simp [addHttp2Metadata, DecodedMessage.pushHeader, PendingMessage.finish, underway,
    Request.message, role]

/-- A stream with room turns the parts of a request into its message. -/
theorem request_results (hr : r.Valid) {as : List Arrival}
    (hev : as.map Arrival.event = r.parts.map (·.event .clientToServer r.id))
    (hroom : Roomy mb none as) :
    streamResults mb none as = r.parts.map fun p => .ok (r.gives mb p) := by
  obtain ⟨a, as', rfl, hevent, hrest⟩ := map_eq_cons_iff.mp hev
  obtain ⟨hfull, -, -, hroom⟩ := hroom
  obtain ⟨hresult, hnext⟩ := head_arrives mb hevent hfull hr.startLine_eq hr.plain
  rw [hnext] at hroom
  rw [streamResults, hresult, hnext, Request.parts, map_cons]
  cases hend : r.data.isEmpty && r.trailers.isNone with
  | true =>
    rw [Bool.and_eq_true, List.isEmpty_iff, Option.isNone_iff_eq_none] at hend
    have hparts : Request.restParts r.trailers r.data = [] := by
      rw [hend.1, hend.2]
      rfl
    have hmessage := r.message_eq mb
    rw [hparts] at hrest ⊢
    obtain rfl := map_eq_nil_iff.mp hrest
    simp only [Request.headers, Request.body, hend.1, hend.2, Option.map_none, Option.getD_none,
      append_nil, flatMap_nil] at hmessage
    simp [streamResults, Request.gives, MessagePart.endStream, hmessage]
  | false =>
    rw [hend] at hroom
    have hgrpc : ((StreamState.marked none r.head.headers).setPending .clientToServer
        (some (underway mb r.startLine r.head.headers []))).grpc = false := by
      simp [StreamState.setPending, StreamState.marked, hr.plain]
    have htail := rest_results hr.trailers hgrpc (StreamState.pending_setPending ..) hrest hroom
    rw [nil_append] at htail
    simp only [Bool.false_eq_true, ↓reduceIte, Request.gives, MessagePart.endStream,
      ← r.message_eq mb]
    exact congrArg _ htail

end Stream

/-! ## Many requests -/

/-- The parts on the wire are those of the requests, each with its parts in order. -/
structure Interleaves (requests : List Request) (wire : List (Request × MessagePart)) : Prop where
  ids : (requests.map Request.id).Nodup
  parts : ∀ r ∈ requests, (wire.filter fun i => i.1.id = r.id).map Prod.snd = r.parts
  mem : ∀ i ∈ wire, i.1 ∈ requests

namespace Table

/-- Results that every stream gives in its own order are the results in the order of
the wire. -/
theorem results_of_resultsFor {ι : Type} (event : ι → Event)
    (f : ι → Except String (List DecodedMessage)) :
    ∀ {is : List ι} {t : Table},
      (∀ id, t.resultsFor id (is.map event) =
        (is.filter fun i => (event i).id = id).map f) →
      t.results (is.map event) = is.map f
  | [], _, _ => rfl
  | i :: is, t, h => by
    have hi := h (event i).id
    rw [map_cons, resultsFor_self t rfl, filter_cons_of_pos (by simp), map_cons,
      List.cons.injEq] at hi
    rw [map_cons, results, hi.1, map_cons]
    congr 1
    refine results_of_resultsFor event f fun id => ?_
    by_cases hid : (event i).id = id
    · subst hid
      exact hi.2
    · have hother := h id
      rwa [map_cons, resultsFor_other t hid, filter_cons_of_neg (by simpa using hid)]
        at hother

end Table

/-- A sum over a list is the sum over its groups. -/
theorem sum_map_groups {ι κ : Type} [DecidableEq κ] (key : ι → κ) (g : ι → Nat) :
    ∀ {ks : List κ} {is : List ι}, ks.Nodup → (∀ i ∈ is, key i ∈ ks) →
      (is.map g).sum = (ks.map fun k => ((is.filter fun i => key i = k).map g).sum).sum
  | [], is, _, hmem => by
    have hnil : is = [] := eq_nil_iff_forall_not_mem.mpr fun i hi => by simpa using hmem i hi
    rw [hnil]
    rfl
  | k :: ks, is, hnodup, hmem => by
    have hks := nodup_cons.mp hnodup
    have hsplit := ((filter_append_perm (fun i => decide (key i = k)) is).map g).sum_eq
    have hrest : ∀ i ∈ is.filter fun i => !decide (key i = k), key i ∈ ks := by
      intro i hi
      simp only [mem_filter, Bool.not_eq_eq_eq_not, Bool.not_true, decide_eq_false_iff_not]
        at hi
      exact (mem_cons.mp (hmem i hi.1)).resolve_left hi.2
    have hgroups : (ks.map fun k' =>
        (((is.filter fun i => !decide (key i = k)).filter fun i => key i = k').map g).sum) =
        ks.map fun k' => ((is.filter fun i => key i = k').map g).sum := by
      refine map_congr_left fun k' hk' => ?_
      have hne : k' ≠ k := fun heq => hks.1 (heq ▸ hk')
      rw [filter_filter]
      congr 3
      funext i
      by_cases hik : key i = k'
      · simp [hik, hne]
      · simp [hik]
    rw [← hsplit, map_append, sum_append, map_cons, sum_cons,
      sum_map_groups key g hks.2 hrest, hgroups]

/-- The event of a part on the wire. -/
def wireEvent (i : Request × MessagePart) : Event := i.2.event .clientToServer i.1.id

theorem dataBytes_restParts (id : Nat) (trailers : Option HeaderUnit) (us : List DataUnit) :
    dataBytes ((Request.restParts trailers us).map (·.event .clientToServer id)) =
      (us.flatMap DataUnit.data).length := by
  induction us with
  | nil => cases trailers <;> rfl
  | cons u us ih =>
    rw [Request.restParts, map_cons, dataBytes_cons, ih, flatMap_cons, length_append]
    rfl

theorem Request.dataBytes_parts (r : Request) :
    dataBytes (r.parts.map (·.event .clientToServer r.id)) = r.body.length := by
  rw [Request.parts, map_cons, dataBytes_cons, dataBytes_restParts]
  exact Nat.zero_add _

/-- One part of a request ends its stream. -/
theorem Request.length_ends (r : Request) : (r.parts.filter MessagePart.endStream).length = 1 := by
  have hrest : ∀ us : List DataUnit,
      ((Request.restParts r.trailers us).filter MessagePart.endStream).length =
        if us.isEmpty && r.trailers.isNone then 0 else 1 := by
    intro us
    induction us with
    | nil => cases r.trailers <;> rfl
    | cons u us ih =>
      rw [Request.restParts, filter_cons]
      cases hend : us.isEmpty && r.trailers.isNone <;> simp [MessagePart.endStream, ih, hend]
  rw [Request.parts, filter_cons]
  cases hend : r.data.isEmpty && r.trailers.isNone <;> simp [MessagePart.endStream, hrest, hend]

namespace Interleaves

variable {r : Request} {i : Request × MessagePart}

variable {requests : List Request} {wire : List (Request × MessagePart)}

/-- The parts of a request on the wire carry the request itself. -/
theorem eq_of_id (h : Interleaves requests wire) (hr : r ∈ requests) (hi : i ∈ wire)
    (hid : i.1.id = r.id) : i.1 = r :=
  inj_on_of_nodup_map h.ids (h.mem i hi) hr hid

/-- The events of a request on the wire are those of its parts. -/
theorem events_eq (h : Interleaves requests wire) (hr : r ∈ requests) :
    (wire.filter fun i => i.1.id = r.id).map wireEvent =
      r.parts.map (·.event .clientToServer r.id) := by
  rw [← h.parts r hr, map_map]
  refine map_congr_left fun i hi => ?_
  have hid : i.1.id = r.id := by simpa using (mem_filter.mp hi).2
  simp [wireEvent, hid]

/-- The bytes of DATA on the wire are the bodies. -/
theorem dataBytes_eq (h : Interleaves requests wire) :
    dataBytes (wire.map wireEvent) = (requests.map fun r => r.body.length).sum := by
  have hmem : ∀ i ∈ wire, i.1.id ∈ requests.map Request.id :=
    fun i hi => mem_map_of_mem (h.mem i hi)
  have hgroups := sum_map_groups (fun i : Request × MessagePart => i.1.id)
    (fun i => (wireEvent i).dataLength) h.ids hmem
  rw [dataBytes, map_map]
  refine hgroups.trans ?_
  rw [map_map]
  refine congrArg List.sum (map_congr_left fun r hr => ?_)
  rw [← r.dataBytes_parts, ← h.events_eq hr, dataBytes, map_map]
  rfl

theorem card_ids_le (h : Interleaves requests wire) :
    ((wire.map wireEvent).map Event.id).toFinset.card ≤ requests.length := by
  have hsub :
      ((wire.map wireEvent).map Event.id).toFinset ⊆ (requests.map Request.id).toFinset := by
    intro x hx
    simp only [mem_toFinset, mem_map, exists_exists_and_eq_and] at hx ⊢
    obtain ⟨i, hi, rfl⟩ := hx
    exact ⟨i.1, h.mem i hi, (MessagePart.id_event _ _ _).symm⟩
  calc ((wire.map wireEvent).map Event.id).toFinset.card
      ≤ (requests.map Request.id).toFinset.card := Finset.card_le_card hsub
    _ ≤ (requests.map Request.id).length := toFinset_card_le _
    _ = requests.length := length_map _

/-- The parts on the wire give the messages of the requests. -/
theorem results (h : Interleaves requests wire) (hvalid : ∀ r ∈ requests, r.Valid)
    (hcount : requests.length ≤ maxTrackedStreams)
    (hbody : (requests.map fun r => r.body.length).sum ≤ maxInflightCapture) (mb : Nat) :
    (Table.new mb).results (wire.map wireEvent) = wire.map fun i => .ok (i.1.gives mb i.2) := by
  refine Table.results_of_resultsFor wireEvent _ fun id => ?_
  have hroom : Roomy mb none ((Table.new mb).arrivals id (wire.map wireEvent)) :=
    Table.arrivals_roomy id (.new mb (h.card_ids_le.trans hcount)) (.new mb)
      (by simpa [Table.new, h.dataBytes_eq] using hbody)
  have hevents := Table.arrivals_map_event (Table.new mb) id (wire.map wireEvent)
  have hfilter : (wire.map wireEvent).filter (fun e => e.id = id) =
      (wire.filter fun i => i.1.id = id).map wireEvent := by
    rw [filter_map]
    congr 2
    funext i
    simp [wireEvent]
  have hids : (fun i => decide ((wireEvent i).id = id)) =
      fun i : Request × MessagePart => decide (i.1.id = id) := by
    funext i
    simp [wireEvent]
  rw [hfilter] at hevents
  rw [Table.resultsFor_eq, hids]
  by_cases hr : ∃ r ∈ requests, r.id = id
  · obtain ⟨r, hr, rfl⟩ := hr
    rw [h.events_eq hr] at hevents
    refine (request_results (hvalid r hr) hevents hroom).trans ?_
    rw [← h.parts r hr, map_map]
    refine map_congr_left fun i hi => ?_
    obtain ⟨hi, hid⟩ := mem_filter.mp hi
    rw [Function.comp_apply, h.eq_of_id hr hi (by simpa using hid)]
  · have hnil : (wire.filter fun i => i.1.id = id) = [] :=
      filter_eq_nil_iff.mpr fun i hi hid => hr ⟨i.1, h.mem i hi, by simpa using hid⟩
    rw [hnil] at hevents ⊢
    rw [map_eq_nil_iff.mp hevents]
    rfl

theorem mem_parts (h : Interleaves requests wire) (hi : i ∈ wire) :
    i.2 ∈ i.1.parts := by
  rw [← h.parts i.1 (h.mem i hi)]
  exact mem_map_of_mem (mem_filter.mpr ⟨hi, by simp⟩)

/-- The requests in the order in which they end are the requests. -/
theorem ended_perm (h : Interleaves requests wire) :
    ((wire.filter fun i => i.2.endStream).map Prod.fst).Perm requests := by
  have hlast : ∀ r ∈ requests,
      ((wire.filter fun i => i.2.endStream).filter fun i => i.1.id = r.id).length = 1 := by
    intro r hr
    rw [← r.length_ends, ← h.parts r hr, filter_map, length_map, filter_filter, filter_filter]
    congr 2
    funext i
    exact Bool.and_comm _ _
  have hids : (((wire.filter fun i => i.2.endStream).map Prod.fst).map Request.id).Nodup := by
    rw [map_map, nodup_iff_count_le_one]
    intro a
    by_cases ha : a ∈ (wire.filter fun i => i.2.endStream).map (Request.id ∘ Prod.fst)
    · obtain ⟨i, hi, rfl⟩ := mem_map.mp ha
      have hone := hlast i.1 (h.mem i (mem_filter.mp hi).1)
      rw [count_eq_countP, countP_map, countP_eq_length_filter]
      exact hone.le
    · rw [count_eq_zero_of_not_mem ha]
      exact Nat.zero_le 1
  refine (perm_ext_iff_of_nodup hids.of_map h.ids.of_map).mpr fun r => ⟨?_, fun hr => ?_⟩
  · intro hr
    obtain ⟨i, hi, rfl⟩ := mem_map.mp hr
    exact h.mem i (mem_filter.mp hi).1
  · obtain ⟨i, hi⟩ := exists_mem_of_length_pos (hlast r hr ▸ Nat.one_pos)
    obtain ⟨hi, hid⟩ := mem_filter.mp hi
    have heq := h.eq_of_id hr (mem_filter.mp hi).1 (by simpa using hid)
    exact mem_map.mpr ⟨i, hi, heq⟩

/-- What the parts give is what the last parts give. -/
theorem flatMap_gives (wire : List (Request × MessagePart)) (mb : Nat) :
    (wire.flatMap fun i => i.1.gives mb i.2) =
      (wire.filter fun i => i.2.endStream).map fun i => i.1.message mb := by
  induction wire with
  | nil => rfl
  | cons i wire ih =>
    rw [flatMap_cons, ih]
    cases hend : i.2.endStream <;> simp [Request.gives, hend]

end Interleaves

/-! ## The decoder -/

/-- The HPACK decoder reads the header lists from the blocks of the parts, in order. -/
def Encodes {η : Type} (hp : Hpack η) : η → List MessagePart → Prop
  | _, [] => True
  | state, p :: ps => ∃ state', p.Decodes hp state state' ∧ Encodes hp state' ps

/-- The bytes of the parts on the wire. -/
def wireBytes (wire : List (Request × MessagePart)) : Bytes :=
  (wire.flatMap fun i => i.2.frames i.1.id).flatMap Frame.bytes

namespace Http2Decoder

variable {η : Type} {hp : Hpack η}

@[simp] theorem table_accept (s : Http2Decoder η) (d : Direction) (state : η) (e : Event) :
    (s.accept d state e).table = s.table.apply e := rfl

@[simp] theorem state_accept (s : Http2Decoder η) (d : Direction) (state : η) (e : Event) :
    (s.accept d state e).state d = { s.state d with hpack := state, continuation := none } := by
  simp [accept]

/-- Parts whose events have no fault are handled one after the other. -/
theorem wire_handles {mb : Nat} :
    ∀ {wire : List (Request × MessagePart)} {s : Http2Decoder η},
      (∀ i ∈ wire, i.1.id ≠ 0 ∧ i.2.Fits) → (s.state .clientToServer).continuation = none →
      Encodes hp (s.state .clientToServer).hpack (wire.map Prod.snd) →
      s.table.results (wire.map wireEvent) = (wire.map fun i => .ok (i.1.gives mb i.2)) →
      ∃ t, HandlesAll hp .clientToServer s (wire.flatMap fun i => i.2.frames i.1.id) t
        (wire.flatMap fun i => i.1.gives mb i.2)
  | [], s, _, _, _, _ => ⟨s, .nil⟩
  | i :: wire, s, hfits, hc, hencodes, hresults => by
    obtain ⟨state, hdecodes, hencodes⟩ := hencodes
    rw [map_cons, Table.results, map_cons, List.cons.injEq] at hresults
    obtain ⟨hid, hfit⟩ := hfits i (mem_cons_self ..)
    have hpart := part_handles hid hc hfit hdecodes hresults.1
    obtain ⟨t, ht⟩ := wire_handles (fun j hj => hfits j (mem_cons_of_mem _ hj))
      (s := s.accept .clientToServer state (wireEvent i)) (by rw [state_accept])
      (by rw [state_accept]; exact hencodes) (by rw [table_accept]; exact hresults.2)
    exact ⟨t, hpart.append ht⟩

/-- A run of pushes is the loop on the fragments. -/
theorem run_pushes (s : Http2Decoder η) (d : Direction) (chunks : List Bytes) :
    s.run hp (chunks.map (.push d)) =
      Stream.pushAll (turn hp d) (bytes d) (fun s => (s.state d).buffer.length) s chunks := by
  induction chunks generalizing s with
  | nil => rfl
  | cons x xs ih =>
    rw [map_cons, run, ih]
    rfl

/-- What the pushes of the requests give: no report, each message once, and in the order
in which the requests end. -/
structure Delivered (maxBody : Nat) (requests : List Request) (wire : List (Request × MessagePart))
    (batches : List DecodeBatch) : Prop where
  silent : ∀ b ∈ batches, b.desynchronized = none
  inOrder : batches.flatMap Stream.Batch.messages =
    (wire.filter fun i => i.2.endStream).map fun i => i.1.message maxBody
  once : (batches.flatMap Stream.Batch.messages).Perm (requests.map (Request.message maxBody))

/-- Interleaved requests are decoded in any fragmentation. -/
theorem requests_roundtrip (hp : Hpack η) (maxBody : Nat) (requests : List Request)
    (wire : List (Request × MessagePart)) (chunks : List Bytes)
    (hvalid : ∀ r ∈ requests, r.Valid) (hcount : requests.length ≤ maxTrackedStreams)
    (hbody : (requests.map fun r => r.body.length).sum ≤ maxInflightCapture)
    (hwire : Interleaves requests wire) (hencodes : Encodes hp hp.init (wire.map Prod.snd))
    (hchunks : chunks.flatten = clientPreface ++ wireBytes wire) :
    Delivered maxBody requests wire
      ((new hp maxBody).run hp (chunks.map (.push .clientToServer))).2 := by
  have hopened : ((new hp maxBody).state .clientToServer).afterPreface.Ready :=
    .afterPreface rfl rfl
  have hfits : ∀ i ∈ wire, i.1.id ≠ 0 ∧ i.2.Fits := fun i hi =>
    ⟨(hvalid i.1 (hwire.mem i hi)).id_ne,
      (hvalid i.1 (hwire.mem i hi)).fits i.2 (hwire.mem_parts hi)⟩
  have hframes : ∀ f ∈ wire.flatMap fun i => i.2.frames i.1.id, f.Fits := by
    intro f hf
    obtain ⟨i, hi, hf⟩ := mem_flatMap.mp hf
    exact (hfits i hi).2.frames (hvalid i.1 (hwire.mem i hi)).id_lt f hf
  obtain ⟨t, ht⟩ := wire_handles hfits
    (s := (new hp maxBody).setState .clientToServer
      ((new hp maxBody).state .clientToServer).afterPreface) rfl hencodes
    (hwire.results hvalid hcount hbody maxBody)
  have hpreface : Stream.Reads (turn hp .clientToServer) (bytes .clientToServer) (new hp maxBody)
    clientPreface _ [] := preface_reads rfl rfl rfl
  have hreads := hpreface.append (decoder_resumes hp .clientToServer) (ht.reads hopened hframes)
  obtain ⟨-, hmessages, hsilent⟩ := hreads.pushAll (decoder_decreases hp .clientToServer)
    (decoder_resumes hp .clientToServer) (turn_needMore rfl) hchunks
  rw [← run_pushes, nil_append, Interleaves.flatMap_gives] at hmessages
  rw [← run_pushes] at hsilent
  refine ⟨hsilent, hmessages, ?_⟩
  rw [hmessages]
  have hperm := hwire.ended_perm.map (Request.message maxBody)
  rwa [map_map] at hperm

/-- An upload with padding and priority, whose header block needs a CONTINUATION. -/
def upload : Request where
  id := 1
  head := ⟨[(Utf8.asBytes ":method", Utf8.asBytes "POST"),
    (Utf8.asBytes ":path", Utf8.asBytes "/")],
    some ⟨[0, 0], by decide⟩, some ⟨[0, 0, 0, 0, 15], rfl⟩, [0x83], [[0x84]]⟩
  data := [⟨none, [1, 2]⟩, ⟨some ⟨[0], by decide⟩, [3]⟩]
  trailers := none

/-- A request that ends with trailers. -/
def lookup : Request where
  id := 3
  head := ⟨[(Utf8.asBytes ":method", Utf8.asBytes "GET"), (Utf8.asBytes ":path", Utf8.asBytes "/")],
    none, none, [0x82, 0x84], []⟩
  data := []
  trailers := some ⟨[], none, none, [], []⟩

/-- The two requests, the second inside the first. -/
def nested : List (Request × MessagePart) :=
  [(upload, .headers false upload.head), (lookup, .headers false lookup.head),
    (upload, .data false ⟨none, [1, 2]⟩), (lookup, .headers true ⟨[], none, none, [], []⟩),
    (upload, .data true ⟨some ⟨[0], by decide⟩, [3]⟩)]

theorem nested_delivered :
    Delivered 2 [upload, lookup] nested
      ((new .static 2).run .static
        ([clientPreface ++ (wireBytes nested).take 20, (wireBytes nested).drop 20].map
          (.push .clientToServer))).2 := by
  have hupload : upload.Valid := by
    refine ⟨by decide, by decide, by decide +kernel, by decide +kernel, by decide +kernel,
      by simp [upload], ?_⟩
    simp only [Request.parts, upload, Request.restParts, forall_mem_cons, not_mem_nil,
      Option.map_none, Option.toList_none, false_imp_iff, implies_true, and_true]
    exact ⟨⟨by decide, by decide +kernel⟩,
      by simp [MessagePart.Fits, padded, maxObservedFramePayload],
      by simp [MessagePart.Fits, padded, maxObservedFramePayload]⟩
  have hlookup : lookup.Valid := by
    refine ⟨by decide, by decide, by decide +kernel, by decide +kernel, by decide +kernel, ?_, ?_⟩
    · intro u hu
      cases hu
      exact ⟨rfl, rfl⟩
    · simp only [Request.parts, lookup, Request.restParts, forall_mem_cons, not_mem_nil,
        Option.map_some, Option.toList_some, false_imp_iff, implies_true, and_true]
      exact ⟨⟨by decide, by decide +kernel⟩, by decide, by decide⟩
  refine requests_roundtrip .static 2 [upload, lookup] nested _ ?_ (by decide) (by decide)
    ⟨by decide, ?_, ?_⟩ ?_ ?_
  · simpa using ⟨hupload, hlookup⟩
  · simp only [forall_mem_cons, not_mem_nil, false_imp_iff, implies_true, and_true]
    exact ⟨rfl, rfl⟩
  · simp [nested]
  · exact ⟨(), rfl, (), rfl, (), rfl, (), rfl, (), rfl, trivial⟩
  · simp [append_assoc]

end Http2Decoder

end Lens.Http2
