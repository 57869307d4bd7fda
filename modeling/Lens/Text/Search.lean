import Mathlib.Data.List.Basic
import Mathlib.Data.List.Infix
import Mathlib.Tactic

/-!
# Searching a list for a delimiter

`find` is the position of the first window equal to a needle, the search
`windows(n).position(..)` of a slice.  A stream decoder calls it on a buffer
that grows at its end, so the lemmas say how the answer moves when the haystack
is extended (`find_append`), and how text without the first symbol of the needle
is skipped (`find_skip`).

`beNat` is the number a big-endian byte string stands for.
-/

namespace Search

open List

/-- A front part of a list that also ends with `r` has arrived in the other front part, or
more of it is still to come. -/
theorem append_cases {α : Type} {a b c r : List α} (h : a ++ b = c ++ r) :
    (∃ y, c = a ++ y ∧ b = y ++ r) ∨ ∃ y, y ≠ [] ∧ a = c ++ y ∧ r = y ++ b := by
  rcases append_eq_append_iff.mp h with ⟨y, hc, hb⟩ | ⟨y, ha, hr⟩
  · exact .inl ⟨y, hc, hb⟩
  · cases y with
    | nil => exact .inl ⟨[], by simpa using ha.symm, by simpa using hr.symm⟩
    | cons x y => exact .inr ⟨x :: y, by simp, ha, hr⟩

/-- Each part is no longer than the whole. -/
theorem length_le_flatMap {α β : Type} {f : α → List β} {as : List α} {a : α} (h : a ∈ as) :
    (f a).length ≤ (as.flatMap f).length := by
  rw [flatMap_def]
  exact (sublist_flatten_of_mem (mem_map_of_mem h)).length_le

section Find

variable {α : Type} [DecidableEq α] {needle xs w : List α} {k : Nat}

/-- The position of the first window equal to `needle`. -/
def find (needle : List α) : List α → Option Nat
  | [] => if needle.isEmpty then some 0 else none
  | x :: xs =>
    if needle.isPrefixOf (x :: xs) then some 0 else (find needle xs).map (· + 1)

theorem find_cons_of_not_isPrefixOf {x : α} (h : needle.isPrefixOf (x :: xs) = false) :
    find needle (x :: xs) = (find needle xs).map (· + 1) := by
  simp [find, h]

/-- A needle at the front is found at once. -/
theorem find_of_prefix (needle rest : List α) : find needle (needle ++ rest) = some 0 := by
  cases hxs : needle ++ rest with
  | nil =>
    have h : needle = [] := (append_eq_nil_iff.mp hxs).1
    simp [find, h]
  | cons x xs =>
    have h : needle.isPrefixOf (x :: xs) = true := by
      rw [← hxs, isPrefixOf_iff_prefix]
      exact prefix_append ..
    simp [find, h]

/-- The window at the position found is the needle. -/
theorem eq_of_find {needle : List α} :
    ∀ {xs : List α} {k : Nat}, find needle xs = some k →
      ∃ pre post, xs = pre ++ needle ++ post ∧ pre.length = k
  | [], k, h => by
    rw [find] at h
    split at h
    next he =>
      simp only [List.isEmpty_iff] at he
      injection h with h
      exact ⟨[], [], by simp [he], h⟩
    next => cases h
  | x :: xs, k, h => by
    rw [find] at h
    split at h
    next hp =>
      obtain ⟨post, hpost⟩ := isPrefixOf_iff_prefix.mp hp
      injection h with h
      exact ⟨[], post, by simpa using hpost.symm, h⟩
    next =>
      rw [Option.map_eq_some_iff] at h
      obtain ⟨j, hj, rfl⟩ := h
      obtain ⟨pre, post, hx, hl⟩ := eq_of_find hj
      exact ⟨x :: pre, post, by simp [hx], by simp [hl]⟩

theorem find_le (h : find needle xs = some k) : k + needle.length ≤ xs.length := by
  obtain ⟨pre, post, rfl, rfl⟩ := eq_of_find h
  simp only [length_append]
  omega

/-- A window inside the front part of a list is not changed by the back part. -/
theorem isPrefixOf_append_of_le (ys : List α) (h : needle.length ≤ xs.length) :
    needle.isPrefixOf (xs ++ ys) = needle.isPrefixOf xs := by
  rw [Bool.eq_iff_iff, isPrefixOf_iff_prefix, isPrefixOf_iff_prefix]
  constructor
  · intro hp
    exact prefix_of_prefix_length_le hp (prefix_append ..) h
  · intro hp
    exact hp.trans (prefix_append ..)

/-- Extending the haystack keeps the first match. -/
theorem find_append {needle : List α} :
    ∀ {xs : List α} {k : Nat} (ys : List α), find needle xs = some k →
      find needle (xs ++ ys) = some k
  | [], k, ys, h => by
    rw [find] at h
    split at h
    next he =>
      simp only [List.isEmpty_iff] at he
      subst he
      rw [← h]
      exact find_of_prefix [] ys
    next => cases h
  | x :: xs, k, ys, h => by
    have hle : needle.length ≤ (x :: xs).length := by
      have := find_le h
      omega
    rw [find] at h
    rw [cons_append, find, ← cons_append, isPrefixOf_append_of_le ys hle]
    split at h
    next hp => rw [if_pos hp, h]
    next hp =>
      rw [Option.map_eq_some_iff] at h
      obtain ⟨j, hj, rfl⟩ := h
      rw [if_neg hp, find_append ys hj]
      rfl

/-- A match inside the front part is found in the front part. -/
theorem find_of_append (ys : List α) :
    ∀ {xs : List α} {k : Nat}, find needle (xs ++ ys) = some k → k + needle.length ≤ xs.length →
      find needle xs = some k := by
  intro xs
  induction xs with
  | nil =>
    intro k h hk
    rw [length_nil] at hk
    have hn : needle = [] := eq_nil_of_length_eq_zero (by omega)
    have hk0 : k = 0 := by omega
    simp [hn, hk0, find]
  | cons x xs ih =>
    intro k h hk
    rw [cons_append, find, ← cons_append,
      isPrefixOf_append_of_le ys (by omega : needle.length ≤ (x :: xs).length)] at h
    rw [find]
    split at h
    next hp => rw [if_pos hp, h]
    next hp =>
      rw [Option.map_eq_some_iff] at h
      obtain ⟨j, hj, rfl⟩ := h
      rw [length_cons] at hk
      rw [if_neg hp, ih hj (by omega)]
      rfl

/-- Text without the first symbol of the needle is skipped. -/
theorem find_skip {a : α} {needle : List α} (ys : List α) :
    ∀ {xs : List α}, a ∉ xs →
      find (a :: needle) (xs ++ ys) = (find (a :: needle) ys).map (· + xs.length)
  | [], _ => by simp
  | x :: xs, h => by
    rw [mem_cons, not_or] at h
    have hp : (a :: needle).isPrefixOf (x :: (xs ++ ys)) = false := by
      simp [List.isPrefixOf, h.1]
    rw [cons_append, find_cons_of_not_isPrefixOf hp, find_skip ys h.2, Option.map_map]
    congr 1

theorem find_eq_none_of_not_mem {a : α} (h : a ∉ xs) : find (a :: needle) xs = none := by
  have hskip : find (a :: needle) (xs ++ []) = (find (a :: needle) []).map (· + xs.length) :=
    find_skip [] h
  rw [append_nil] at hskip
  rw [hskip]
  rfl

/-- A prefix of a list in which the needle first ends at `k` holds no match
unless it reaches that far. -/
theorem find_eq_none_of_prefix {ys : List α} (h : find needle (xs ++ ys) = some k)
    (hlt : xs.length < k + needle.length) : find needle xs = none := by
  cases hx : find needle xs with
  | none => rfl
  | some j =>
    have hj := find_append ys hx
    rw [h] at hj
    injection hj with hj
    have := find_le hx
    omega

/-- The needle comes right after `w`, and not before. -/
def Delimits (needle w : List α) : Prop := find needle (w ++ needle) = some w.length

instance (needle w : List α) : Decidable (Delimits needle w) :=
  inferInstanceAs (Decidable (_ = _))

theorem Delimits.find (h : Delimits needle w) (rest : List α) :
    find needle (w ++ needle ++ rest) = some w.length :=
  find_append rest h

theorem delimits_of_find (h : Search.find needle xs = some k) :
    ∃ w rest, xs = w ++ needle ++ rest ∧ w.length = k ∧ Delimits needle w := by
  obtain ⟨w, rest, rfl, rfl⟩ := eq_of_find h
  exact ⟨w, rest, rfl, rfl, find_of_append rest h (by simp)⟩

/-- The needle has arrived, or the haystack is short and holds no match. -/
theorem Delimits.cases {rest buf r : List α} (h : Delimits needle w)
    (heq : w ++ needle ++ rest = buf ++ r) : (∃ y, buf = w ++ needle ++ y ∧ rest = y ++ r) ∨
      Search.find needle buf = none ∧ buf.length < w.length + needle.length := by
  rcases append_cases heq with harrived | ⟨y, hy, hbuf, -⟩
  · exact .inl harrived
  · have hlt : buf.length < w.length + needle.length := by
      have hlen := congrArg List.length hbuf
      have hpos := length_pos_iff.mpr hy
      rw [length_append, length_append] at hlen
      omega
    have hfind : Search.find needle (buf ++ y) = some w.length := hbuf ▸ h
    refine .inr ⟨?_, hlt⟩
    exact find_eq_none_of_prefix hfind hlt

/-- Two different symbols come right after a text that does not hold them. -/
theorem delimits_of_find_eq_none {a b : α} (hab : a ≠ b) : ∀ {w : List α}, find [a, b] w = none →
    Delimits [a, b] w
  | [], _ => by simp [Delimits, find]
  | x :: w, h => by
    rw [find] at h
    split at h
    next => cases h
    next hp =>
      rw [Option.map_eq_none_iff] at h
      have ih : find [a, b] (w ++ [a, b]) = some w.length := delimits_of_find_eq_none hab h
      have hp' : [a, b].isPrefixOf (x :: (w ++ [a, b])) = false := by
        cases w with
        | nil => simp [List.isPrefixOf, hab.symm]
        | cons y w =>
          rw [Bool.eq_false_iff]
          intro hc
          apply hp
          simpa [List.isPrefixOf] using hc
      rw [Delimits, cons_append, find_cons_of_not_isPrefixOf hp', ih]
      rfl

end Find

/-! ## Big-endian numbers -/

/-- The number a byte string stands for, most significant byte first. -/
def beNat (bs : List UInt8) : Nat := bs.foldl (fun n b => n * 256 + b.toNat) 0

theorem beNat_concat (bs : List UInt8) (b : UInt8) :
    beNat (bs ++ [b]) = beNat bs * 256 + b.toNat := by
  rw [beNat, foldl_append, beNat]
  rfl

theorem beNat_lt (bs : List UInt8) : beNat bs < 256 ^ bs.length := by
  induction bs using List.reverseRecOn with
  | nil => decide
  | append_singleton bs b ih =>
    have hb := b.toNat_lt
    rw [beNat_concat, length_append, length_singleton, Nat.pow_succ]
    omega

/-- Two bytes, most significant first. -/
def be16 (n : Nat) : List UInt8 := [UInt8.ofNat (n / 0x100), UInt8.ofNat n]

/-- Three bytes, most significant first. -/
def be24 (n : Nat) : List UInt8 :=
  [UInt8.ofNat (n / 0x10000), UInt8.ofNat (n / 0x100), UInt8.ofNat n]

/-- Four bytes, most significant first. -/
def be32 (n : Nat) : List UInt8 :=
  [UInt8.ofNat (n / 0x1000000), UInt8.ofNat (n / 0x10000), UInt8.ofNat (n / 0x100), UInt8.ofNat n]

@[simp] theorem length_be16 (n : Nat) : (be16 n).length = 2 := rfl

@[simp] theorem length_be24 (n : Nat) : (be24 n).length = 3 := rfl

@[simp] theorem length_be32 (n : Nat) : (be32 n).length = 4 := rfl

variable {n : Nat}

theorem beNat_be16 (h : n < 0x10000) : beNat (be16 n) = n := by
  simp [beNat, be16]
  omega

theorem beNat_be24 (h : n < 0x1000000) : beNat (be24 n) = n := by
  simp [beNat, be24]
  omega

/-- Four bytes are the bytes of their number. -/
theorem be32_beNat (a b c d : UInt8) : be32 (beNat [a, b, c, d]) = [a, b, c, d] := by
  have ha := a.toNat_lt
  have hb := b.toNat_lt
  have hc := c.toNat_lt
  have hd := d.toNat_lt
  simp only [be32, beNat, foldl_cons, foldl_nil, List.cons.injEq, ← UInt8.toNat_inj,
    UInt8.toNat_ofNat', and_true]
  refine ⟨?_, ?_, ?_, ?_⟩ <;> omega

theorem beNat_be32 (h : n < 0x100000000) : beNat (be32 n) = n := by
  simp [beNat, be32]
  omega

/-! ## Little-endian numbers -/

/-- The number a byte string stands for, least significant byte first. -/
def leNat : List UInt8 → Nat
  | [] => 0
  | b :: bs => b.toNat + 256 * leNat bs

/-- The low `width` bytes of a number, least significant first. -/
def le : Nat → Nat → List UInt8
  | 0, _ => []
  | width + 1, n => UInt8.ofNat n :: le width (n / 256)

theorem leNat_le (width : Nat) : ∀ {n : Nat}, n < 256 ^ width → leNat (le width n) = n := by
  induction width with
  | zero =>
    intro n hn
    rw [Nat.lt_one_iff.mp hn]
    rfl
  | succ width ih =>
    intro n hn
    have hrest : n / 256 < 256 ^ width := Nat.div_lt_of_lt_mul (by rwa [Nat.pow_succ'] at hn)
    rw [le, leNat, ih hrest, UInt8.toNat_ofNat']
    omega

/-- A part of the wanted length at the front of a buffer, or a buffer that is too short. -/
theorem split_or_short (n : Nat) (buf : List UInt8) :
    (∃ w rest, buf = w ++ rest ∧ n = w.length) ∨ ∃ k, n = buf.length + (k + 1) := by
  rcases Nat.lt_or_ge buf.length n with hlt | hle
  · exact .inr ⟨n - buf.length - 1, by omega⟩
  · exact .inl ⟨buf.take n, buf.drop n, (take_append_drop n buf).symm, by simp [hle]⟩

end Search
