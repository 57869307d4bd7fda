import Mathlib.Data.List.Basic
import Mathlib.Tactic

/-!
# Records with a head

A record is a head of fixed length, which tells the length of the payload, and the
payload.  A framing says how long a head is and what it announces, and it may refuse a
head.  `records` reads the complete records at the front of a sequence and gives what is
left of it, where nothing is left to read after a head that is refused.

`Splits` is the same reading as a relation, one constructor for each thing that can stand
at the front.  The two agree (`splits_records`, `Splits.eq`), so facts about `records`
are shown by induction on `Splits`.  A sequence may be read in parts: what is left of the
first part goes in front of the second (`records_append`).
-/

namespace Stream

open List

/-- How records are framed. -/
structure Framing (α : Type) where
  /-- The length of a head. -/
  head : Nat
  head_pos : 0 < head
  /-- The length of the payload that a head announces, unless the head is refused. -/
  size : List α → Option Nat

/-- A head and its payload. -/
structure Record (α : Type) where
  head : List α
  payload : List α
deriving DecidableEq, Repr

def Record.symbols {α : Type} (r : Record α) : List α := r.head ++ r.payload

namespace Framing

variable {α : Type} (F : Framing α)

/-- The head of a record has its length and announces its payload. -/
structure Fits (r : Record α) : Prop where
  head : r.head.length = F.head
  payload : F.size r.head = some r.payload.length

instance (r : Record α) : Decidable (F.Fits r) :=
  decidable_of_iff (r.head.length = F.head ∧ F.size r.head = some r.payload.length)
    ⟨fun h => ⟨h.1, h.2⟩, fun h => ⟨h.1, h.2⟩⟩

/-- Reading with a bound on the records. -/
def split : Nat → List α → List (Record α) × Option (List α)
  | 0, xs => ([], some xs)
  | n + 1, xs =>
    if xs.length < F.head then ([], some xs)
    else
      match F.size (xs.take F.head) with
      | none => ([], none)
      | some k =>
        let rest := xs.drop F.head
        if rest.length < k then ([], some xs)
        else
          let r := split n (rest.drop k)
          (⟨xs.take F.head, rest.take k⟩ :: r.1, r.2)

/-- The complete records at the front, and what is left. -/
def records (xs : List α) : List (Record α) × Option (List α) := F.split (xs.length + 1) xs

/-- A reading that goes on with more symbols. -/
def continued (r : List (Record α) × Option (List α)) (ys : List α) :
    List (Record α) × Option (List α) :=
  match r.2 with
  | none => r
  | some left => (r.1 ++ (F.records (left ++ ys)).1, (F.records (left ++ ys)).2)

/-- The reading as a relation. -/
inductive Splits : List α → List (Record α) → Option (List α) → Prop where
  /-- The head is not complete. -/
  | short {xs : List α} : xs.length < F.head → Splits xs [] (some xs)
  | refused {head xs : List α} :
      head.length = F.head → F.size head = none → Splits (head ++ xs) [] none
  /-- The payload is not complete. -/
  | waits {head xs : List α} {k : Nat} :
      head.length = F.head → F.size head = some k → xs.length < k →
      Splits (head ++ xs) [] (some (head ++ xs))
  | record {r : Record α} {xs : List α} {rs : List (Record α)} {left : Option (List α)} :
      F.Fits r → Splits xs rs left → Splits (r.symbols ++ xs) (r :: rs) left

variable {F} {r : Record α} {xs : List α} {rs : List (Record α)} {left : Option (List α)}

theorem Fits.length_pos (h : F.Fits r) : 0 < r.symbols.length := by
  have hpos := F.head_pos
  rw [Record.symbols, length_append, h.head]
  omega

theorem split_head {head : List α} (hhead : head.length = F.head) (n : Nat) :
    F.split (n + 1) (head ++ xs) =
      match F.size head with
      | none => ([], none)
      | some k =>
        if xs.length < k then ([], some (head ++ xs))
        else (⟨head, xs.take k⟩ :: (F.split n (xs.drop k)).1, (F.split n (xs.drop k)).2) := by
  have htake : (head ++ xs).take F.head = head := by rw [← hhead, take_left]
  have hdrop : (head ++ xs).drop F.head = xs := by rw [← hhead, drop_left]
  rw [split, if_neg (by rw [length_append]; omega), htake, hdrop]

/-- The relation gives what the function gives, with enough bound. -/
theorem Splits.split_eq (h : F.Splits xs rs left) :
    ∀ {n : Nat}, xs.length < n → F.split n xs = (rs, left) := by
  induction h with
  | short hlt =>
    intro n hn
    cases n with
    | zero => omega
    | succ n => rw [split, if_pos hlt]
  | refused hhead hsize =>
    intro n hn
    cases n with
    | zero => omega
    | succ n => rw [split_head hhead, hsize]
  | waits hhead hsize hlt =>
    intro n hn
    cases n with
    | zero => omega
    | succ n =>
      rw [split_head hhead, hsize]
      exact if_pos hlt
  | @record r xs rs left hr _ ih =>
    intro n hn
    have hpos := hr.length_pos
    rw [length_append] at hn
    cases n with
    | zero => omega
    | succ n =>
      rw [Record.symbols, append_assoc, split_head hr.head, hr.payload]
      have hrest : F.split n xs = (rs, left) := ih (by omega)
      have hlen : ¬(r.payload ++ xs).length < r.payload.length := by
        rw [length_append]
        omega
      simp only [if_neg hlen, take_left, drop_left, hrest]

theorem Splits.eq (h : F.Splits xs rs left) : F.records xs = (rs, left) :=
  h.split_eq (Nat.lt_succ_self _)

theorem splits_split (n : Nat) (hn : xs.length < n) :
    F.Splits xs (F.split n xs).1 (F.split n xs).2 := by
  induction n generalizing xs with
  | zero => omega
  | succ n ih =>
    by_cases hshort : xs.length < F.head
    · rw [split, if_pos hshort]
      exact .short hshort
    have hhead : (xs.take F.head).length = F.head := by
      rw [length_take]
      omega
    rw [← take_append_drop F.head xs, split_head hhead]
    cases hsize : F.size (xs.take F.head) with
    | none => exact .refused hhead hsize
    | some k =>
      simp only
      by_cases hlt : (xs.drop F.head).length < k
      · rw [if_pos hlt]
        exact .waits hhead hsize hlt
      · rw [if_neg hlt]
        have hfits : F.Fits ⟨xs.take F.head, (xs.drop F.head).take k⟩ := by
          refine ⟨hhead, hsize.trans (congrArg some ?_)⟩
          rw [length_take]
          omega
        have hpos := F.head_pos
        have hshorter : ((xs.drop F.head).drop k).length < n := by
          rw [length_drop, length_drop]
          omega
        have hsplits := Splits.record hfits (ih hshorter)
        rwa [Record.symbols, append_assoc, take_append_drop] at hsplits

/-- The function gives what the relation gives. -/
theorem splits_records (xs : List α) : F.Splits xs (F.records xs).1 (F.records xs).2 :=
  splits_split _ (Nat.lt_succ_self _)

/-- A part of a sequence, and then the rest. -/
theorem Splits.append (h : F.Splits xs rs left) (ys : List α) :
    F.records (xs ++ ys) = F.continued (rs, left) ys := by
  induction h with
  | short | waits => rfl
  | @refused head xs hhead hsize =>
    rw [append_assoc]
    exact (Splits.refused hhead hsize).eq
  | @record r xs rs left hr _ ih =>
    have hsplits := (Splits.record hr (splits_records (F := F) (xs ++ ys))).eq
    rw [append_assoc, hsplits, ih]
    cases left <;> rfl

theorem records_append (xs ys : List α) :
    F.records (xs ++ ys) = F.continued (F.records xs) ys :=
  (splits_records xs).append ys

end Framing

end Stream
