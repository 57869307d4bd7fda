import Lens.Text.Utf8

/-!
# Lossy reading

`String::from_utf8_lossy` shows each ill-formed part as one replacement character
of three bytes, so a text has at most three bytes for each byte read.  A byte below
`0x80` is never part of a longer sequence: at the end of the bytes it is the last
character of the text.
-/

namespace Utf8

open List

/-! ## Size -/

theorem length_encode_lossyFuel : ∀ (n : Nat) (bs : List UInt8),
    (encode (lossyFuel n bs)).length ≤ 3 * bs.length
  | _, [] => by
    rw [lossyFuel]
    exact Nat.zero_le _
  | 0, _ :: _ => Nat.zero_le _
  | n + 1, b :: bs => by
    rw [lossyFuel]
    have hrest := front_length b bs
    cases hf : front b bs with
    | char c rest =>
      have ih := length_encode_lossyFuel n rest
      have hlen := congrArg List.length (eq_of_front hf)
      simp only [encode_cons, length_append, length_cons] at hlen ⊢
      rw [hf, Front.rest] at hrest
      omega
    | bad rest =>
      have ih := length_encode_lossyFuel n rest
      have hchar : (String.utf8EncodeChar (Char.ofNat 0xfffd)).length = 3 := by decide
      simp only [encode_cons, length_append, length_cons, hchar] at ih ⊢
      rw [hf, Front.rest] at hrest
      omega

/-- A lossy text has at most three bytes for each byte read. -/
theorem length_fromUtf8Lossy (bs : List UInt8) :
    (asBytes (fromUtf8Lossy bs)).length ≤ 3 * bs.length := by
  rw [fromUtf8Lossy, asBytes_ofList]
  exact length_encode_lossyFuel bs.length bs

/-! ## The last character -/

theorem front_rest_suffix (b : UInt8) (bs : List UInt8) : (front b bs).rest <:+ bs := by
  have hone : ∀ (x : UInt8) (l : List UInt8), l <:+ x :: l := suffix_cons
  unfold front
  dsimp only
  repeat' split
  all_goals simp only [Front.rest, suffix_rfl, nil_suffix, hone]
  · exact (hone _ _).trans (hone _ _)
  · exact (hone _ _).trans ((hone _ _).trans (hone _ _))
  · exact (hone _ _).trans (hone _ _)

variable {m : Nat}

theorem second3_nonascii {n : Nat} (h : second3 n m = true) : 0x80 ≤ m := by
  rw [second3] at h
  split at h
  · simp at h
    omega
  · split at h
    · simp at h
      omega
    · simp [isCont] at h
      omega

theorem second4_nonascii {n : Nat} (h : second4 n m = true) : 0x80 ≤ m := by
  rw [second4] at h
  split at h
  · simp at h
    omega
  · split at h
    · simp at h
      omega
    · simp [isCont] at h
      omega

theorem isCont_nonascii (h : isCont m = true) : 0x80 ≤ m := by
  simp [isCont] at h
  omega

/-- A sequence that is read to the end of the bytes has no ASCII after its first byte. -/
theorem nonascii_of_front {b : UInt8} {bs : List UInt8} (h : (front b bs).rest = []) :
    ∀ x ∈ bs, 0x80 ≤ x.toNat := by
  unfold front at h
  dsimp only at h
  repeat' split at h
  all_goals simp only [Front.rest] at h
  all_goals grind [→ isCont_nonascii, → second3_nonascii, → second4_nonascii]

/-- An ASCII byte at the end of the bytes is left for itself. -/
theorem front_snoc {a : UInt8} (ha : a.toNat < 0x80) (b : UInt8) (bs : List UInt8) :
    ∃ rest, (front b (bs ++ [a])).rest = rest ++ [a] := by
  have hne : (front b (bs ++ [a])).rest ≠ [] := by
    intro h
    have hlast := nonascii_of_front h a (mem_append_right _ (mem_singleton_self a))
    omega
  obtain ⟨lead, hlead⟩ := front_rest_suffix b (bs ++ [a])
  obtain ⟨rest, x, hrest⟩ := (eq_nil_or_concat' _).resolve_left hne
  rw [hrest, ← append_assoc] at hlead
  obtain ⟨_, hx⟩ := append_inj' hlead rfl
  exact ⟨rest, by rw [hrest, hx]⟩

theorem getLast?_lossyFuel {a : UInt8} (ha : a.toNat < 0x80) : ∀ (n : Nat) (bs : List UInt8),
    bs.length < n → (lossyFuel n (bs ++ [a])).getLast? = some (Char.ofNat a.toNat)
  | 0, _, h => absurd h (Nat.not_lt_zero _)
  | n + 1, [], _ => by
    have hfront : front a [] = .char (Char.ofNat a.toNat) [] := by
      simp [front, ha]
    rw [nil_append, lossyFuel, hfront]
    cases n with
    | zero => rfl
    | succ n => rfl
  | n + 1, b :: bs, h => by
    obtain ⟨rest, hrest⟩ := front_snoc ha b bs
    have hshort : rest.length < n := by
      have hle := front_length b (bs ++ [a])
      rw [hrest, length_append, length_append] at hle
      simp only [length_cons, length_nil] at hle h
      omega
    have ih := getLast?_lossyFuel ha n rest hshort
    rw [cons_append, lossyFuel]
    cases hf : front b (bs ++ [a]) with
    | char c rest' =>
      rw [hf, Front.rest] at hrest
      simp only [hrest, getLast?_cons, ih, Option.getD_some]
    | bad rest' =>
      rw [hf, Front.rest] at hrest
      simp only [hrest, getLast?_cons, ih, Option.getD_some]

/-- The last ASCII byte is the last character. -/
theorem getLast?_fromUtf8Lossy {a : UInt8} (ha : a.toNat < 0x80) (bs : List UInt8) :
    (fromUtf8Lossy (bs ++ [a])).toList.getLast? = some (Char.ofNat a.toNat) := by
  rw [fromUtf8Lossy, String.toList_ofList]
  exact getLast?_lossyFuel ha _ bs (by rw [length_append, length_singleton]; omega)

end Utf8
