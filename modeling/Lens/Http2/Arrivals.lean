import Lens.Http2.Streams

/-!
# One stream of a connection

The streams of a connection share the table and the count of captured bytes, and
nothing else.  What a stream meets is therefore the sequence of its own events, each
with the count at that moment and whether the table refuses it (`Arrival`).
`streamResults` runs one stream over its arrivals.  The results of a stream in a run
of the whole table are those of its arrivals (`resultsFor_eq`), so a property of one
stream is shown by induction on the arrivals alone, whatever the counts in them are.

A connection that uses no more than `maxTrackedStreams` identifiers refuses none of
them (`arrivals_full`).
-/

namespace Lens.Http2

open List

/-- The event has the `END_STREAM` flag. -/
def Event.last : Event → Bool
  | .headers _ _ endStream _ => endStream
  | .data _ _ endStream _ => endStream
  | .reset _ => false

/-- An event of a stream, with what the stream cannot see of the others. -/
structure Arrival where
  /-- The count of captured bytes. -/
  retained : Nat
  /-- The stream is not in the table and there is no room for it. -/
  full : Bool
  event : Event

/-! ## A stream on its own -/

section Alone

variable (maxBody : Nat)

/-- What an arrival does to its stream. -/
def arrive (old : Option StreamState) (a : Arrival) : Outcome :=
  outcome maxBody a.retained a.full old a.event

/-- The entry after a sequence of arrivals. -/
def streamAfter (old : Option StreamState) (as : List Arrival) : Option StreamState :=
  as.foldl (fun old a => (arrive maxBody old a).change.next old) old

/-- What each arrival gives. -/
def streamResults : Option StreamState → List Arrival → List (Except String (List DecodedMessage))
  | _, [] => []
  | old, a :: as =>
    (arrive maxBody old a).result :: streamResults ((arrive maxBody old a).change.next old) as

variable {maxBody}

@[simp] theorem streamAfter_nil (old : Option StreamState) : streamAfter maxBody old [] = old := rfl

@[simp] theorem streamAfter_cons (old : Option StreamState) (a : Arrival) (as : List Arrival) :
    streamAfter maxBody old (a :: as) =
      streamAfter maxBody ((arrive maxBody old a).change.next old) as := rfl

theorem streamResults_append (old : Option StreamState) (as bs : List Arrival) :
    streamResults maxBody old (as ++ bs) =
      streamResults maxBody old as ++ streamResults maxBody (streamAfter maxBody old as) bs := by
  induction as generalizing old with
  | nil => rfl
  | cons a as ih => simp [streamResults, ih]

end Alone

/-! ## A stream in the table -/

namespace Table

variable {e : Event} {t : Table} {ids : Finset Nat} {es : List Event}

/-- The arrivals of a stream in a sequence of events. -/
def arrivals (id : Nat) : Table → List Event → List Arrival
  | _, [] => []
  | t, e :: es =>
    if e.id = id then
      ⟨t.retainedBodyBytes, (t.streams.lookup id).isNone && t.full, e⟩ :: arrivals id (t.apply e) es
    else arrivals id (t.apply e) es

/-- What the events of a stream give. -/
def resultsFor (id : Nat) : Table → List Event → List (Except String (List DecodedMessage))
  | _, [] => []
  | t, e :: es =>
    if e.id = id then (t.outcome e).result :: resultsFor id (t.apply e) es
    else resultsFor id (t.apply e) es

/-- The messages of a stream. -/
def messagesFor (id : Nat) (t : Table) (es : List Event) : List DecodedMessage :=
  (t.resultsFor id es).flatMap gives

variable {id : Nat}

/-- Whether there is room matters only for a stream that is not in the table. -/
theorem outcome_isNone_and (maxBody retained : Nat) (full : Bool) (old : Option StreamState)
    (e : Event) :
    Http2.outcome maxBody retained (old.isNone && full) old e =
      Http2.outcome maxBody retained full old e := by
  cases old <;> cases e <;> rfl

/-- An arrival does what its event does in the table. -/
theorem arrive_eq (t : Table) (h : e.id = id) :
    arrive t.maxBody (t.streams.lookup id)
        ⟨t.retainedBodyBytes, (t.streams.lookup id).isNone && t.full, e⟩ = t.outcome e := by
  subst h
  exact outcome_isNone_and ..

theorem arrivals_self (t : Table) (h : e.id = id) (es : List Event) :
    t.arrivals id (e :: es) =
      ⟨t.retainedBodyBytes, (t.streams.lookup id).isNone && t.full, e⟩ ::
        (t.apply e).arrivals id es :=
  if_pos h

theorem arrivals_other (t : Table) (h : e.id ≠ id) (es : List Event) :
    t.arrivals id (e :: es) = (t.apply e).arrivals id es :=
  if_neg h

theorem resultsFor_self (t : Table) (h : e.id = id) (es : List Event) :
    t.resultsFor id (e :: es) = (t.outcome e).result :: (t.apply e).resultsFor id es :=
  if_pos h

theorem resultsFor_other (t : Table) (h : e.id ≠ id) (es : List Event) :
    t.resultsFor id (e :: es) = (t.apply e).resultsFor id es :=
  if_neg h

/-- The results of a stream are those of its arrivals. -/
theorem resultsFor_eq (t : Table) (id : Nat) (es : List Event) :
    t.resultsFor id es = streamResults t.maxBody (t.streams.lookup id) (t.arrivals id es) := by
  induction es generalizing t with
  | nil => rfl
  | cons e es ih =>
    by_cases h : e.id = id
    · have hlookup := lookup_apply_self t e
      rw [h] at hlookup
      rw [arrivals_self t h, resultsFor_self t h, streamResults, arrive_eq t h, ih, hlookup,
        apply_maxBody]
    · rw [arrivals_other t h, resultsFor_other t h, ih, lookup_apply_ne t e (Ne.symm h),
        apply_maxBody]

/-- The arrivals of a stream are its events. -/
theorem arrivals_map_event (t : Table) (id : Nat) (es : List Event) :
    (t.arrivals id es).map Arrival.event = es.filter fun e => e.id = id := by
  induction es generalizing t with
  | nil => rfl
  | cons e es ih =>
    by_cases h : e.id = id
    · rw [arrivals_self t h, map_cons, ih, filter_cons_of_pos (by simpa using h)]
    · rw [arrivals_other t h, ih, filter_cons_of_neg (by simpa using h)]

/-! ## Room -/

/-- The identifiers of the events and of the table are few. -/
structure Fewer (t : Table) (ids : Finset Nat) (es : List Event) : Prop where
  card : ids.card ≤ maxTrackedStreams
  keys : ∀ id ∈ t.streams.keys, id ∈ ids
  events : ∀ e ∈ es, e.id ∈ ids

/-- The identifiers that a change leaves in the table. -/
theorem mem_keys_apply (h : id ∈ (t.apply e).streams.keys) : id ∈ t.streams.keys ∨ id = e.id := by
  by_cases hid : id = e.id
  · exact .inr hid
  · have hmem : id ∈ (t.apply e).streams := AList.mem_keys.mpr h
    rw [← AList.lookup_isSome, lookup_apply_ne t e hid, AList.lookup_isSome] at hmem
    exact .inl (AList.mem_keys.mp hmem)

theorem Fewer.apply (h : t.Fewer ids (e :: es)) : (t.apply e).Fewer ids es where
  card := h.card
  keys id hid := by
    rcases mem_keys_apply hid with hid | rfl
    · exact h.keys id hid
    · exact h.events e (mem_cons_self ..)
  events e' he' := h.events e' (mem_cons_of_mem _ he')

/-- A stream that is not in the table finds room. -/
theorem Fewer.room (h : t.Fewer ids (e :: es))
    (hnone : t.streams.lookup e.id = none) : t.full = false := by
  rw [Bool.eq_false_iff, Ne, full_iff]
  intro hfull
  have hnot : e.id ∉ t.streams.keys.toFinset := by
    rw [mem_toFinset]
    exact AList.lookup_eq_none.mp hnone
  -- The identifier and the keys of a full table would be too many.
  have hsub : insert e.id t.streams.keys.toFinset ⊆ ids := by
    intro id hid
    rcases Finset.mem_insert.mp hid with rfl | hid
    · exact h.events e (mem_cons_self ..)
    · exact h.keys id (mem_toFinset.mp hid)
  have hcard := Finset.card_le_card hsub
  have hkeys : t.streams.keys.toFinset.card = t.streams.entries.length := by
    rw [toFinset_card_of_nodup t.streams.keys_nodup]
    exact length_map _
  rw [Finset.card_insert_of_notMem hnot, hkeys] at hcard
  have := h.card
  omega

/-- With few identifiers no stream is refused. -/
theorem arrivals_full (h : t.Fewer ids es) :
    ∀ a ∈ t.arrivals id es, a.full = false := by
  induction es generalizing t with
  | nil => simp [arrivals]
  | cons e es ih =>
    by_cases hid : e.id = id
    · rw [arrivals_self t hid]
      intro a ha
      rcases mem_cons.mp ha with rfl | ha
      · rw [← hid]
        cases hlookup : t.streams.lookup e.id with
        | none => simp [h.room hlookup]
        | some st => simp
      · exact ih h.apply a ha
    · rw [arrivals_other t hid]
      exact ih h.apply

theorem Fewer.new (maxBody : Nat) (h : (es.map Event.id).toFinset.card ≤ maxTrackedStreams) :
    (Table.new maxBody).Fewer (es.map Event.id).toFinset es where
  card := h
  keys id hid := by simp [Table.new] at hid
  events e he := mem_toFinset.mpr (mem_map_of_mem he)

end Table

end Lens.Http2
