import Lens.Core

/-!
# Streams with bytes in front

An intercepted connection starts with the bytes that the proxy has read to tell its
protocol, and `PrefixedIo` hands them out before it reads on.  A stream is a state with a
poll function, which is given the room in the read buffer.  A run of reads of the prefixed
stream is some reads out of the bytes in front, then the reads of the inner stream
(`reads_new`).
-/

namespace Lens.Proxy

open List

/-- What one `poll_read` gives.  The bytes are those it puts into the buffer. -/
inductive Poll where
  | pending
  | ready (bytes : Bytes)
  | failed (error : String)
deriving DecidableEq, Repr

/-- The results of reads with some room each. -/
def reads {σ : Type} (poll : σ → Nat → Poll × σ) : σ → List Nat → List Poll
  | _, [] => []
  | s, remaining :: rooms => (poll s remaining).1 :: reads poll (poll s remaining).2 rooms

/-- The bytes that a reader gets. -/
def delivered (results : List Poll) : Bytes :=
  results.flatMap fun
    | .ready bytes => bytes
    | _ => []

structure PrefixedIo (σ : Type) where
  inner : σ
  prefixed : Bytes
  offset : Nat

namespace PrefixedIo

variable {σ : Type} (poll : σ → Nat → Poll × σ)

def new (inner : σ) (prefixed : Bytes) : PrefixedIo σ := ⟨inner, prefixed, 0⟩

def pollRead (s : PrefixedIo σ) (remaining : Nat) : Poll × PrefixedIo σ :=
  if s.offset < s.prefixed.length then
    let available := s.prefixed.drop s.offset
    let copied := min available.length remaining
    (.ready (available.take copied), { s with offset := s.offset + copied })
  else ((poll s.inner remaining).1, { s with inner := (poll s.inner remaining).2 })

/-- A read in front fits the buffer, and is of no bytes only if there is no room. -/
def Fills (piece : Bytes) (remaining : Nat) : Prop :=
  piece.length ≤ remaining ∧ (0 < remaining → piece ≠ [])

variable {poll}

/-- After the bytes in front the reads are those of the inner stream. -/
theorem reads_inner {s : PrefixedIo σ} (h : s.prefixed.length ≤ s.offset) (rooms : List Nat) :
    reads (pollRead poll) s rooms = reads poll s.inner rooms := by
  induction rooms generalizing s with
  | nil => rfl
  | cons remaining rooms ih =>
    have hread : pollRead poll s remaining =
        ((poll s.inner remaining).1, { s with inner := (poll s.inner remaining).2 }) :=
      if_neg (Nat.not_lt.mpr h)
    rw [reads, reads, hread, ih (by exact h)]

theorem reads_eq (s : PrefixedIo σ) (rooms : List Nat) :
    ∃ pieces early late, rooms = early ++ late ∧
      reads (pollRead poll) s rooms = pieces.map .ready ++ reads poll s.inner late ∧
      List.Forall₂ Fills pieces early ∧ pieces.flatten <+: s.prefixed.drop s.offset ∧
      (late ≠ [] → pieces.flatten = s.prefixed.drop s.offset) := by
  induction rooms generalizing s with
  | nil => exact ⟨[], [], [], rfl, rfl, .nil, nil_prefix, fun h => absurd rfl h⟩
  | cons remaining rooms ih =>
    by_cases h : s.offset < s.prefixed.length
    · -- The offset moves over what is copied, and the rest of the run is from there.
      have hread : pollRead poll s remaining =
          (.ready ((s.prefixed.drop s.offset).take (min (s.prefixed.length - s.offset) remaining)),
            { s with offset := s.offset + min (s.prefixed.length - s.offset) remaining }) := by
        simp only [pollRead, if_pos h, length_drop]
      generalize hk : min (s.prefixed.length - s.offset) remaining = k at hread
      obtain ⟨pieces, early, late, hrooms, hreads, hfills, hpre, hlate⟩ :=
        ih { s with offset := s.offset + k }
      have hsplit : (s.prefixed.drop s.offset).take k ++ s.prefixed.drop (s.offset + k) =
          s.prefixed.drop s.offset := by
        rw [← drop_drop, take_append_drop]
      refine ⟨(s.prefixed.drop s.offset).take k :: pieces, remaining :: early, late, ?_, ?_,
        .cons ⟨?_, fun hroom hnil => ?_⟩ hfills, ?_, fun hne => ?_⟩
      · rw [hrooms, cons_append]
      · rw [reads, hread, hreads, map_cons, cons_append]
      · rw [length_take]
        omega
      · have hlen := congrArg length hnil
        rw [length_take, length_drop, length_nil] at hlen
        omega
      · have hfront := (prefix_append_right_inj ((s.prefixed.drop s.offset).take k)).mpr hpre
        rwa [hsplit] at hfront
      · rw [flatten_cons, hlate hne, hsplit]
    · have hdone := Nat.not_lt.mp h
      refine ⟨[], [], remaining :: rooms, rfl, reads_inner hdone _, .nil, nil_prefix, fun _ => ?_⟩
      rw [drop_eq_nil_of_le hdone, flatten_nil]

/-- Whatever the inner stream does and however large the buffers are, a reader of the
prefixed stream gets the bytes in front, in pieces that are empty only without room, and the
inner stream is read only once they are all out.  So what it gets is a first part of the
bytes in front and the bytes of the inner stream. -/
theorem reads_new (inner : σ) (prefixed : Bytes) (rooms : List Nat) :
    ∃ pieces early late, rooms = early ++ late ∧
      reads (pollRead poll) (new inner prefixed) rooms =
        pieces.map .ready ++ reads poll inner late ∧
      List.Forall₂ Fills pieces early ∧ (late ≠ [] → pieces.flatten = prefixed) ∧
      delivered (reads (pollRead poll) (new inner prefixed) rooms) <+:
        prefixed ++ delivered (reads poll inner late) := by
  obtain ⟨pieces, early, late, hrooms, hreads, hfills, hpre, hlate⟩ :=
    @reads_eq σ poll (new inner prefixed) rooms
  refine ⟨pieces, early, late, hrooms, hreads, hfills, hlate, ?_⟩
  have hdelivered : delivered (pieces.map .ready) = pieces.flatten := by
    rw [delivered, flatMap_map, flatMap_id']
  rw [hreads, delivered, flatMap_append, ← delivered, hdelivered]
  cases late with
  | nil =>
    rw [reads, flatMap_nil, append_nil]
    exact hpre.trans <| prefix_append _ _
  | cons remaining late =>
    rw [hlate (cons_ne_nil _ _)]
    exact prefix_rfl

end PrefixedIo

end Lens.Proxy
