import Lens.Redact.Scan

/-!
# Constants in front of the scanner

The turns that take a quoted token or a dollar-quoted constant.  A quoted token is
given by the characters it stands for, with the quotes inside doubled (`doubled`).
The content of a dollar-quoted constant ends where its delimiter first stands again.
-/

namespace Lens.Redact

open List

variable {q c : Char} {cs b x : List Char}

/-! ## Quoted tokens -/

/-- The content of a quoted token, with the quotes inside doubled. -/
def doubled (q : Char) (cs : List Char) : List Char :=
  cs.flatMap fun c => if c = q then [q, q] else [c]

theorem doubled_cons (q c : Char) (cs : List Char) :
    doubled q (c :: cs) = (if c = q then [q, q] else [c]) ++ doubled q cs := rfl

theorem quotedLength_cons {d : Char} (hc : c ≠ q) :
    quotedLength q (c :: d :: cs) = quotedLength q (d :: cs) + 1 := by
  rw [quotedLength, if_neg hc]

/-- A token ends at the first quote that is not doubled. -/
theorem quotedLength_doubled (hb : b.head? ≠ some q) (x : List Char) :
    quotedLength q (doubled q x ++ q :: b) = (doubled q x).length + 1 := by
  induction x with
  | nil =>
    cases b with
    | nil => rfl
    | cons d b =>
      have hd : d ≠ q := fun he => hb (he ▸ rfl)
      rw [doubled, flatMap_nil, nil_append, quotedLength, if_pos rfl, if_neg hd]
      rfl
  | cons c x ih =>
    rw [doubled_cons]
    split
    · simp only [cons_append, nil_append, quotedLength, if_true, ih, length_cons]
    next hc =>
      -- What follows the character is not empty: the closing quote is there.
      obtain ⟨d, r, hd⟩ : ∃ d r, doubled q x ++ q :: b = d :: r :=
        exists_cons_of_ne_nil (by simp)
      rw [hd] at ih
      rw [append_assoc, singleton_append, singleton_append, hd,
        quotedLength_cons hc, ih, length_cons]

variable (previous : Option Char)

theorem sqlStep_quote (cs : List Char) :
    sqlStep previous ('\'' :: cs) = ("'?'".toList, true, quotedLength '\'' cs + 1) := rfl

theorem sqlStep_identifier (cs : List Char) : sqlStep previous ('"' :: cs) =
      (('"' :: cs).take (quotedLength '"' cs + 1), false, quotedLength '"' cs + 1) := rfl

/-- A string constant is one turn. -/
theorem sqlStep_string (x : List Char) (hb : b.head? ≠ some '\'') :
    sqlStep previous (('\'' :: (doubled '\'' x ++ ['\''])) ++ b) =
      ("'?'".toList, true, ('\'' :: (doubled '\'' x ++ ['\''])).length) := by
  rw [cons_append, append_assoc, sqlStep_quote, singleton_append,
    quotedLength_doubled hb, length_cons, length_append]
  rfl

/-- A quoted identifier is one turn that pushes it as it stands. -/
theorem sqlStep_quoted (x : List Char) (hb : b.head? ≠ some '"') :
    sqlStep previous (('"' :: (doubled '"' x ++ ['"'])) ++ b) =
      ('"' :: (doubled '"' x ++ ['"']), false, ('"' :: (doubled '"' x ++ ['"'])).length) := by
  have hlen : quotedLength '"' (doubled '"' x ++ ['"'] ++ b) + 1 =
      ('"' :: (doubled '"' x ++ ['"'])).length := by
    rw [append_assoc, singleton_append, quotedLength_doubled hb, length_cons, length_append]
    rfl
  have htake :
      ('"' :: (doubled '"' x ++ ['"'] ++ b)).take ('"' :: (doubled '"' x ++ ['"'])).length =
      '"' :: (doubled '"' x ++ ['"']) := by
    rw [length_cons, take_succ_cons, take_left]
  rw [cons_append, sqlStep_identifier, hlen, htake]

/-! ## Dollar-quoted constants -/

/-- The characters of a delimiter between its dollar signs, for the scanner. -/
abbrev Tag := { tag : List Char // ∀ c ∈ tag, (c.isAlphanum || c == '_') = true }

def dollarDelimiter (tag : List Char) : List Char := '$' :: (tag ++ ['$'])

/-- A delimiter of a dollar-quoted constant. -/
def Tag.delimiter (tag : Tag) : List Char := dollarDelimiter tag.1

theorem delimiterTail_tag (rest : List Char) : ∀ {tag : List Char},
    (∀ c ∈ tag, (c.isAlphanum || c == '_') = true) →
      delimiterTail (tag ++ '$' :: rest) = some (tag.length + 1) := by
  intro tag
  induction tag with
  | nil =>
    intro _
    rfl
  | cons c tag ih =>
    intro h
    rw [forall_mem_cons] at h
    have hc : c ≠ '$' := by
      rintro rfl
      exact absurd h.1 (by decide)
    have hword : ¬ (!c.isAlphanum && c ≠ '_') = true := by
      have hc' := h.1
      simp only [Bool.or_eq_true, beq_iff_eq] at hc'
      rcases hc' with ha | rfl
      · simp [ha]
      · simp
    rw [cons_append, delimiterTail, if_neg hc, if_neg hword, ih h.2]
    rfl

/-- Content without a dollar sign ends at the delimiter. -/
theorem find_delimiter (tag : List Char) (hx : '$' ∉ x) :
    Search.find (dollarDelimiter tag) (x ++ dollarDelimiter tag) = some x.length := by
  have hfront : Search.find (dollarDelimiter tag) (dollarDelimiter tag ++ []) = some 0 :=
    Search.find_of_prefix _ _
  rw [append_nil] at hfront
  rw [dollarDelimiter] at hfront ⊢
  rw [Search.find_skip _ hx, hfront]
  simp

/-- A dollar-quoted constant is found where its delimiter stands again. -/
theorem dollarQuote_tag (tag : Tag)
    (hx : Search.find tag.delimiter (x ++ tag.delimiter) = some x.length) (b : List Char) :
    dollarQuote (tag.delimiter ++ (x ++ (tag.delimiter ++ b))) =
      some (tag.delimiter, tag.delimiter.length + x.length + tag.delimiter.length) := by
  refine dollarQuote_eq_some.mpr ⟨tag.delimiter.length, x.length, ?_, ?_, ?_, rfl⟩
  · rw [Tag.delimiter, dollarDelimiter, cons_append, append_assoc, singleton_append,
      dollarDelimiterEnd, if_pos rfl, delimiterTail_tag _ tag.2]
    simp
  · rw [take_left]
  · rw [drop_left, ← append_assoc]
    exact Search.find_append b hx

theorem sqlStep_dollar {previous : Option Char} {delimiter : List Char} {taken : Nat}
    (h : dollarQuote ('$' :: cs) = some (delimiter, taken)) :
    sqlStep previous ('$' :: cs) = (delimiter ++ ['?'] ++ delimiter, true, taken) := by
  have h1 : startsLineComment ('$' :: cs) = false := by simp [startsLineComment_cons]
  have h2 : startsBlockComment ('$' :: cs) = false := by simp [startsBlockComment_cons]
  rw [sqlStep, if_neg (by decide), if_neg (by decide), h1, h2]
  simp [h]

/-- A dollar-quoted constant is one turn. -/
theorem sqlStep_tag (tag : Tag)
    (hx : Search.find tag.delimiter (x ++ tag.delimiter) = some x.length) (b : List Char) :
    sqlStep previous ((tag.delimiter ++ (x ++ tag.delimiter)) ++ b) =
      (tag.delimiter ++ ['?'] ++ tag.delimiter, true,
        (tag.delimiter ++ (x ++ tag.delimiter)).length) := by
  rw [append_assoc, append_assoc, length_append, length_append, ← Nat.add_assoc]
  exact sqlStep_dollar (dollarQuote_tag tag hx b)

/-! ## ASCII word characters -/

theorem ascii_of_word (hc : (c.isAlphanum || c == '_') = true) : c.toNat < 0x80 := by
  simp only [Char.isAlphanum, Char.isAlpha, Char.isUpper, Char.isLower, Char.isDigit,
    Bool.or_eq_true, Bool.and_eq_true, decide_eq_true_eq, beq_iff_eq, UInt32.le_iff_toNat_le,
    ge_iff_le] at hc
  have hz : c.toNat = c.val.toNat := rfl
  rcases hc with ((⟨-, h⟩ | ⟨-, h⟩) | ⟨-, h⟩) | rfl
  · exact Nat.lt_of_le_of_lt h (by decide)
  · exact Nat.lt_of_le_of_lt h (by decide)
  · exact Nat.lt_of_le_of_lt h (by decide)
  · decide

end Lens.Redact
