import Mathlib

/-!
# UTF-8 byte sequences

Text is `String` and wire data is `List UInt8`.  `asBytes` is the encoding of a
text.  `front` reads one character off a nonempty byte sequence, or the
ill-formed part in front of it.  The ill-formed part is the longest prefix of
some encoded character, and one byte when there is none, so that a lossy reader
replaces it by one U+FFFD.  `fromUtf8` accepts a sequence without ill-formed
parts and `fromUtf8Lossy` accepts every sequence.

`front_encode` and `eq_of_front` say that `front` inverts the encoding of one
character.  The round trip `fromUtf8_asBytes` follows by induction along the
sequence.

Every recursive definition is structural, so that concrete texts evaluate.
-/

namespace Utf8

open List

variable {n m k v : Nat} {c : Char} {b : UInt8} {bs : List UInt8} {s : String} {cs : List Char}

/-! ## Encoding -/

/-- The bytes of a list of characters. -/
def encode (cs : List Char) : List UInt8 := cs.flatMap String.utf8EncodeChar

/-- The bytes of a text. -/
def asBytes (s : String) : List UInt8 := encode s.toList

@[simp] theorem encode_nil : encode [] = [] := rfl

@[simp] theorem encode_cons (c : Char) (cs : List Char) :
    encode (c :: cs) = String.utf8EncodeChar c ++ encode cs := by
  simp [encode]

@[simp] theorem encode_append (cs ds : List Char) :
    encode (cs ++ ds) = encode cs ++ encode ds := by
  simp [encode]

@[simp] theorem asBytes_append (s t : String) : asBytes (s ++ t) = asBytes s ++ asBytes t := by
  simp [asBytes]

/-- The number of bytes of a text. -/
def width (s : String) : Nat := (asBytes s).length

theorem width_append (s t : String) : width (s ++ t) = width s + width t := by
  rw [width, asBytes_append, length_append, width, width]

@[simp] theorem asBytes_ofList (cs : List Char) : asBytes (String.ofList cs) = encode cs := by
  simp [asBytes]

/-- The code point of a character is a Unicode scalar value. -/
theorem scalar (c : Char) : c.toNat < 0xd800 ∨ (0xdfff < c.toNat ∧ c.toNat < 0x110000) := by
  have h := c.valid
  simp only [UInt32.isValidChar, Nat.isValidChar] at h
  exact h

theorem toNat_ofNat (h : n < 0xd800 ∨ (0xdfff < n ∧ n < 0x110000)) :
    (Char.ofNat n).toNat = n := by
  have hv : n.isValidChar := by
    rcases h with h | h
    · exact Or.inl h
    · exact Or.inr h
  simp only [Char.ofNat, hv, dif_pos, Char.ofNatAux, Char.toNat]
  rfl

/-! The encoding of a character by the size of its code point. -/

theorem encode_one (h : c.toNat < 0x80) :
    String.utf8EncodeChar c = [UInt8.ofNat c.toNat] := by
  have h1 : c.val.toNat ≤ 0x7f := Nat.le_of_lt_succ h
  simp only [String.utf8EncodeChar, h1, if_true]
  rfl

theorem encode_two (h : 0x80 ≤ c.toNat) (h' : c.toNat < 0x800) :
    String.utf8EncodeChar c =
      [UInt8.ofNat (c.toNat / 0x40 % 0x20 + 0xc0), UInt8.ofNat (c.toNat % 0x40 + 0x80)] := by
  have h1 : ¬ c.val.toNat ≤ 0x7f := Nat.not_le_of_lt h
  have h2 : c.val.toNat ≤ 0x7ff := Nat.le_of_lt_succ h'
  simp only [String.utf8EncodeChar, h1, h2, if_true, if_false]
  rfl

theorem encode_three (h : 0x800 ≤ c.toNat) (h' : c.toNat < 0x10000) :
    String.utf8EncodeChar c =
      [UInt8.ofNat (c.toNat / 0x1000 % 0x10 + 0xe0), UInt8.ofNat (c.toNat / 0x40 % 0x40 + 0x80),
        UInt8.ofNat (c.toNat % 0x40 + 0x80)] := by
  have h1 : ¬ c.val.toNat ≤ 0x7f := Nat.not_le_of_lt (Nat.lt_of_lt_of_le (by decide) h)
  have h2 : ¬ c.val.toNat ≤ 0x7ff := Nat.not_le_of_lt h
  have h3 : c.val.toNat ≤ 0xffff := Nat.le_of_lt_succ h'
  simp only [String.utf8EncodeChar, h1, h2, h3, if_true, if_false]
  rfl

theorem encode_four (h : 0x10000 ≤ c.toNat) :
    String.utf8EncodeChar c =
      [UInt8.ofNat (c.toNat / 0x40000 % 0x08 + 0xf0),
        UInt8.ofNat (c.toNat / 0x1000 % 0x40 + 0x80),
        UInt8.ofNat (c.toNat / 0x40 % 0x40 + 0x80), UInt8.ofNat (c.toNat % 0x40 + 0x80)] := by
  have h1 : ¬ c.val.toNat ≤ 0x7f := Nat.not_le_of_lt (Nat.lt_of_lt_of_le (by decide) h)
  have h2 : ¬ c.val.toNat ≤ 0x7ff := Nat.not_le_of_lt (Nat.lt_of_lt_of_le (by decide) h)
  have h3 : ¬ c.val.toNat ≤ 0xffff := Nat.not_le_of_lt h
  simp only [String.utf8EncodeChar, h1, h2, h3, if_false]
  rfl

/-! ## Reading one character -/

/-- What stands in front of a byte sequence: a character, or an ill-formed part.
Both carry the bytes after it. -/
inductive Front where
  | char (c : Char) (rest : List UInt8)
  | bad (rest : List UInt8)
deriving Repr, DecidableEq

/-- A continuation byte. -/
def isCont (n : Nat) : Bool := 0x80 ≤ n && n ≤ 0xbf

/-- The second bytes allowed after a three-byte lead `n`. -/
def second3 (n m : Nat) : Bool :=
  if n = 0xe0 then 0xa0 ≤ m && m ≤ 0xbf
  else if n = 0xed then 0x80 ≤ m && m ≤ 0x9f
  else isCont m

/-- The second bytes allowed after a four-byte lead `n`. -/
def second4 (n m : Nat) : Bool :=
  if n = 0xf0 then 0x90 ≤ m && m ≤ 0xbf
  else if n = 0xf4 then 0x80 ≤ m && m ≤ 0x8f
  else isCont m

/-- Read the character at the lead byte `b`. -/
def front (b : UInt8) (bs : List UInt8) : Front :=
  let n := b.toNat
  if n < 0x80 then .char (Char.ofNat n) bs
  else if n < 0xc2 then .bad bs
  else if n < 0xe0 then
    match bs with
    | [] => .bad []
    | b1 :: bs1 =>
      if isCont b1.toNat then .char (Char.ofNat (n % 0x20 * 0x40 + b1.toNat % 0x40)) bs1
      else .bad bs
  else if n < 0xf0 then
    match bs with
    | [] => .bad []
    | b1 :: bs1 =>
      if second3 n b1.toNat then
        match bs1 with
        | [] => .bad []
        | b2 :: bs2 =>
          if isCont b2.toNat then
            .char (Char.ofNat (n % 0x10 * 0x1000 + b1.toNat % 0x40 * 0x40 + b2.toNat % 0x40)) bs2
          else .bad bs1
      else .bad bs
  else if n < 0xf5 then
    match bs with
    | [] => .bad []
    | b1 :: bs1 =>
      if second4 n b1.toNat then
        match bs1 with
        | [] => .bad []
        | b2 :: bs2 =>
          if isCont b2.toNat then
            match bs2 with
            | [] => .bad []
            | b3 :: bs3 =>
              if isCont b3.toNat then
                .char (Char.ofNat (n % 0x08 * 0x40000 + b1.toNat % 0x40 * 0x1000
                  + b2.toNat % 0x40 * 0x40 + b3.toNat % 0x40)) bs3
              else .bad bs2
          else .bad bs1
      else .bad bs
  else .bad bs

/-- The bytes a reader leaves are fewer than the bytes it was given. -/
def Front.rest : Front → List UInt8
  | .char _ rest => rest
  | .bad rest => rest

theorem front_length (b : UInt8) (bs : List UInt8) : (front b bs).rest.length ≤ bs.length := by
  unfold front
  dsimp only
  repeat' split
  all_goals simp only [Front.rest, length_cons, length_nil]
  all_goals omega

theorem isCont_iff {n : Nat} : isCont n = true ↔ 0x80 ≤ n ∧ n ≤ 0xbf := by
  rw [isCont, Bool.and_eq_true, decide_eq_true_eq, decide_eq_true_eq]

theorem second3_iff {n m : Nat} : second3 n m = true ↔
    0x80 ≤ m ∧ m ≤ 0xbf ∧ (n = 0xe0 → 0xa0 ≤ m) ∧ (n = 0xed → m ≤ 0x9f) := by
  unfold second3
  split <;> [skip; split] <;> simp only [isCont_iff, Bool.and_eq_true, decide_eq_true_eq] <;> omega

theorem second4_iff {n m : Nat} : second4 n m = true ↔
    0x80 ≤ m ∧ m ≤ 0xbf ∧ (n = 0xf0 → 0x90 ≤ m) ∧ (n = 0xf4 → m ≤ 0x8f) := by
  unfold second4
  split <;> [skip; split] <;> simp only [isCont_iff, Bool.and_eq_true, decide_eq_true_eq] <;> omega

/-! `front` at a well-formed sequence of each width. -/

theorem front_one (h : n < 0x80) (bs : List UInt8) :
    front (UInt8.ofNat n) bs = .char (Char.ofNat n) bs := by
  have hn : (UInt8.ofNat n).toNat = n := by simp; omega
  simp only [front, hn, h, if_true]

theorem front_two (h : 0xc2 ≤ n) (h' : n < 0xe0) (hm : isCont m) (bs : List UInt8) :
    front (UInt8.ofNat n) (UInt8.ofNat m :: bs) =
      .char (Char.ofNat (n % 0x20 * 0x40 + m % 0x40)) bs := by
  have hb := isCont_iff.mp hm
  have hn : (UInt8.ofNat n).toNat = n := by simp; omega
  have hm' : (UInt8.ofNat m).toNat = m := by simp; omega
  have e1 : ¬ n < 0x80 := by omega
  have e2 : ¬ n < 0xc2 := by omega
  simp only [front, hn, hm', e1, e2, h', hm, if_true, if_false]

theorem front_three (h : 0xe0 ≤ n) (h' : n < 0xf0) (hm : second3 n m) (hk : isCont k)
    (bs : List UInt8) :
    front (UInt8.ofNat n) (UInt8.ofNat m :: UInt8.ofNat k :: bs) =
      .char (Char.ofNat (n % 0x10 * 0x1000 + m % 0x40 * 0x40 + k % 0x40)) bs := by
  have hb := isCont_iff.mp hk
  have hmb := second3_iff.mp hm
  have hn : (UInt8.ofNat n).toNat = n := by simp; omega
  have hm' : (UInt8.ofNat m).toNat = m := by simp; omega
  have hk' : (UInt8.ofNat k).toNat = k := by simp; omega
  have e1 : ¬ n < 0x80 := by omega
  have e2 : ¬ n < 0xc2 := by omega
  have e3 : ¬ n < 0xe0 := by omega
  simp only [front, hn, hm', hk', e1, e2, e3, h', hm, hk, if_true, if_false]

theorem front_four {l : Nat} (h : 0xf0 ≤ n) (h' : n < 0xf5) (hm : second4 n m) (hk : isCont k)
    (hl : isCont l) (bs : List UInt8) :
    front (UInt8.ofNat n) (UInt8.ofNat m :: UInt8.ofNat k :: UInt8.ofNat l :: bs) =
      .char (Char.ofNat (n % 0x08 * 0x40000 + m % 0x40 * 0x1000 + k % 0x40 * 0x40 + l % 0x40))
        bs := by
  have hb := isCont_iff.mp hk
  have hc := isCont_iff.mp hl
  have hmb := second4_iff.mp hm
  have hn : (UInt8.ofNat n).toNat = n := by simp; omega
  have hm' : (UInt8.ofNat m).toNat = m := by simp; omega
  have hk' : (UInt8.ofNat k).toNat = k := by simp; omega
  have hl' : (UInt8.ofNat l).toNat = l := by simp; omega
  have e1 : ¬ n < 0x80 := by omega
  have e2 : ¬ n < 0xc2 := by omega
  have e3 : ¬ n < 0xe0 := by omega
  have e4 : ¬ n < 0xf0 := by omega
  simp only [front, hn, hm', hk', hl', e1, e2, e3, e4, h', hm, hk, hl, if_true, if_false]

theorem isCont_low (v : Nat) : isCont (v % 0x40 + 0x80) := isCont_iff.mpr (by omega)

theorem second3_high (h : 0x800 ≤ v) (hs : v < 0xd800 ∨ 0xdfff < v) (h' : v < 0x10000) :
    second3 (v / 0x1000 % 0x10 + 0xe0) (v / 0x40 % 0x40 + 0x80) :=
  second3_iff.mpr (by omega)

theorem second4_high (h : 0x10000 ≤ v) (h' : v < 0x110000) :
    second4 (v / 0x40000 % 0x08 + 0xf0) (v / 0x1000 % 0x40 + 0x80) :=
  second4_iff.mpr (by omega)

/-- One encoded character is read back. -/
theorem front_encode (c : Char) (rest : List UInt8) :
    ∃ b bs, String.utf8EncodeChar c = b :: bs ∧ front b (bs ++ rest) = .char c rest := by
  have hs := scalar c
  by_cases h1 : c.toNat < 0x80
  · refine ⟨_, _, encode_one h1, ?_⟩
    rw [nil_append, front_one h1, Char.ofNat_toNat]
  by_cases h2 : c.toNat < 0x800
  · refine ⟨_, _, encode_two (by omega) h2, ?_⟩
    rw [cons_append, nil_append, front_two (by omega) (by omega) (isCont_low _)]
    congr
    rw [show (c.toNat / 0x40 % 0x20 + 0xc0) % 0x20 * 0x40 + (c.toNat % 0x40 + 0x80) % 0x40
      = c.toNat by omega, Char.ofNat_toNat]
  by_cases h3 : c.toNat < 0x10000
  · refine ⟨_, _, encode_three (by omega) h3, ?_⟩
    rw [cons_append, cons_append, nil_append,
      front_three (by omega) (by omega) (second3_high (by omega) (by omega) h3) (isCont_low _)]
    congr
    rw [show (c.toNat / 0x1000 % 0x10 + 0xe0) % 0x10 * 0x1000
      + (c.toNat / 0x40 % 0x40 + 0x80) % 0x40 * 0x40 + (c.toNat % 0x40 + 0x80) % 0x40
      = c.toNat by omega, Char.ofNat_toNat]
  · refine ⟨_, _, encode_four (by omega), ?_⟩
    rw [cons_append, cons_append, cons_append, nil_append,
      front_four (by omega) (by omega) (second4_high (by omega) (by omega)) (isCont_low _)
        (isCont_low _)]
    congr
    rw [show (c.toNat / 0x40000 % 0x08 + 0xf0) % 0x08 * 0x40000
      + (c.toNat / 0x1000 % 0x40 + 0x80) % 0x40 * 0x1000
      + (c.toNat / 0x40 % 0x40 + 0x80) % 0x40 * 0x40 + (c.toNat % 0x40 + 0x80) % 0x40
      = c.toNat by omega, Char.ofNat_toNat]

/-- A character that is read was encoded there. -/
theorem eq_of_front {rest : List UInt8}
    (h : front b bs = .char c rest) : b :: bs = String.utf8EncodeChar c ++ rest := by
  have hb (x : UInt8) : UInt8.ofNat x.toNat = x := by simp
  have hlt := b.toNat_lt
  unfold front at h
  dsimp only at h
  split at h
  next h1 =>
    injection h with hc hr
    have hn : c.toNat = b.toNat := by rw [← hc]; exact toNat_ofNat (by omega)
    rw [encode_one (by omega), hn, hb, hr]
    rfl
  next h1 =>
  split at h
  next h2 => cases h
  next h2 =>
  split at h
  next h3 =>
    cases bs with
    | nil => cases h
    | cons b1 bs1 =>
      dsimp only at h
      split at h
      next hc1 =>
        injection h with hc hr
        rw [isCont_iff] at hc1
        have hn : c.toNat = b.toNat % 0x20 * 0x40 + b1.toNat % 0x40 := by
          rw [← hc]; exact toNat_ofNat (by omega)
        rw [encode_two (by omega) (by omega), show c.toNat / 0x40 % 0x20 + 0xc0 = b.toNat by omega,
          show c.toNat % 0x40 + 0x80 = b1.toNat by omega, hb, hb, hr]
        rfl
      next => cases h
  next h3 =>
  split at h
  next h4 =>
    cases bs with
    | nil => cases h
    | cons b1 bs1 =>
      dsimp only at h
      split at h
      next hc1 =>
        cases bs1 with
        | nil => cases h
        | cons b2 bs2 =>
          dsimp only at h
          split at h
          next hc2 =>
            injection h with hc hr
            rw [isCont_iff] at hc2
            have hs := second3_iff.mp hc1
            have hn : c.toNat =
                b.toNat % 0x10 * 0x1000 + b1.toNat % 0x40 * 0x40 + b2.toNat % 0x40 := by
              rw [← hc]; exact toNat_ofNat (by omega)
            rw [encode_three (by omega) (by omega),
              show c.toNat / 0x1000 % 0x10 + 0xe0 = b.toNat by omega,
              show c.toNat / 0x40 % 0x40 + 0x80 = b1.toNat by omega,
              show c.toNat % 0x40 + 0x80 = b2.toNat by omega, hb, hb, hb, hr]
            rfl
          next => cases h
      next => cases h
  next h4 =>
  split at h
  next h5 =>
    cases bs with
    | nil => cases h
    | cons b1 bs1 =>
      dsimp only at h
      split at h
      next hc1 =>
        cases bs1 with
        | nil => cases h
        | cons b2 bs2 =>
          dsimp only at h
          split at h
          next hc2 =>
            cases bs2 with
            | nil => cases h
            | cons b3 bs3 =>
              dsimp only at h
              split at h
              next hc3 =>
                injection h with hc hr
                rw [isCont_iff] at hc2 hc3
                have hs := second4_iff.mp hc1
                have hn : c.toNat = b.toNat % 0x08 * 0x40000 + b1.toNat % 0x40 * 0x1000
                    + b2.toNat % 0x40 * 0x40 + b3.toNat % 0x40 := by
                  rw [← hc]; exact toNat_ofNat (by omega)
                rw [encode_four (by omega), show c.toNat / 0x40000 % 0x08 + 0xf0 = b.toNat by omega,
                  show c.toNat / 0x1000 % 0x40 + 0x80 = b1.toNat by omega,
                  show c.toNat / 0x40 % 0x40 + 0x80 = b2.toNat by omega,
                  show c.toNat % 0x40 + 0x80 = b3.toNat by omega, hb, hb, hb, hb, hr]
                rfl
              next => cases h
          next => cases h
      next => cases h
  next h5 => cases h

/-! ## Reading a whole sequence -/

/-- The characters of a sequence, with a bound on their number. -/
def decodeFuel : Nat → List UInt8 → Option (List Char)
  | _, [] => some []
  | 0, _ :: _ => none
  | n + 1, b :: bs =>
    match front b bs with
    | .char c rest => (decodeFuel n rest).map (c :: ·)
    | .bad _ => none

/-- The characters of a sequence with every ill-formed part replaced. -/
def lossyFuel : Nat → List UInt8 → List Char
  | _, [] => []
  | 0, _ :: _ => []
  | n + 1, b :: bs =>
    match front b bs with
    | .char c rest => c :: lossyFuel n rest
    | .bad rest => Char.ofNat 0xfffd :: lossyFuel n rest

/-- `str::from_utf8`. -/
def fromUtf8 (bs : List UInt8) : Option String := (decodeFuel bs.length bs).map String.ofList

/-- `String::from_utf8_lossy`. -/
def fromUtf8Lossy (bs : List UInt8) : String := String.ofList (lossyFuel bs.length bs)

/-- Fuel for the length of the sequence reads an encoded text to its end. -/
theorem decodeFuel_encode : ∀ (cs : List Char) (n : Nat), (encode cs).length ≤ n →
    decodeFuel n (encode cs) = some cs
  | [], n, _ => by cases n <;> rfl
  | c :: cs, n, hn => by
    obtain ⟨b, bs, hc, hf⟩ := front_encode c (encode cs)
    rw [encode_cons, hc, cons_append] at hn ⊢
    cases n with
    | zero => simp at hn
    | succ n =>
      have hle : (encode cs).length ≤ n := by
        simp only [length_cons, length_append] at hn
        omega
      simp only [decodeFuel, hf, decodeFuel_encode cs n hle, Option.map_some]

/-- Every text survives the round trip through its bytes. -/
@[simp] theorem fromUtf8_asBytes (s : String) : fromUtf8 (asBytes s) = some s := by
  rw [fromUtf8, asBytes, decodeFuel_encode s.toList _ le_rfl]
  simp

theorem asBytes_injective {t : String} (h : asBytes s = asBytes t) : s = t := by
  have hs := fromUtf8_asBytes s
  rw [h, fromUtf8_asBytes] at hs
  exact (Option.some.inj hs).symm

/-! ## ASCII bytes

An ASCII byte of an encoded text is an ASCII character of the text.  So a search
for ASCII delimiters can be done before decoding or after it. -/

/-- The bytes of a character outside ASCII are outside ASCII. -/
theorem nonascii_of_mem_encode (h : 0x80 ≤ c.toNat)
    (hb : b ∈ String.utf8EncodeChar c) : 0x80 ≤ b.toNat := by
  have hs := scalar c
  by_cases h2 : c.toNat < 0x800
  · rw [encode_two h h2] at hb
    simp only [mem_cons, not_mem_nil, or_false] at hb
    rcases hb with rfl | rfl <;> simp <;> omega
  by_cases h3 : c.toNat < 0x10000
  · rw [encode_three (by omega) h3] at hb
    simp only [mem_cons, not_mem_nil, or_false] at hb
    rcases hb with rfl | rfl | rfl <;> simp <;> omega
  · rw [encode_four (by omega)] at hb
    simp only [mem_cons, not_mem_nil, or_false] at hb
    rcases hb with rfl | rfl | rfl | rfl <;> simp <;> omega

/-- ASCII text is encoded byte by byte. -/
theorem encode_ascii : ∀ {cs : List Char}, (∀ c ∈ cs, c.toNat < 0x80) →
    encode cs = cs.map fun c => UInt8.ofNat c.toNat := by
  intro cs
  induction cs with
  | nil =>
    intro _
    rfl
  | cons c cs ih =>
    intro h
    rw [forall_mem_cons] at h
    rw [encode_cons, encode_one h.1, ih h.2]
    rfl

theorem length_encode_ascii (h : ∀ c ∈ cs, c.toNat < 0x80) :
    (encode cs).length = cs.length := by
  rw [encode_ascii h, length_map]

theorem mem_encode_ascii {a : Char} (ha : a.toNat < 0x80) (cs : List Char) :
    UInt8.ofNat a.toNat ∈ encode cs ↔ a ∈ cs := by
  induction cs with
  | nil => simp
  | cons c cs ih =>
    rw [encode_cons, mem_append, mem_cons, ih]
    refine or_congr_left ?_
    by_cases hc : c.toNat < 0x80
    · rw [encode_one hc, mem_singleton]
      constructor
      · intro h
        have hn := congrArg UInt8.toNat h
        simp only [UInt8.toNat_ofNat'] at hn
        rw [← Char.ofNat_toNat a, ← Char.ofNat_toNat c]
        congr 1
        omega
      · rintro rfl
        rfl
    · constructor
      · intro h
        have hb := nonascii_of_mem_encode (by omega) h
        simp only [UInt8.toNat_ofNat'] at hb
        omega
      · rintro rfl
        omega

end Utf8
