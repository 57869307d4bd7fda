import Lens.Redact.Lexical

/-!
# The scanner on lexed text

The scanner knows standard strings, quoted identifiers, line comments and
dollar-quoted constants with an ASCII tag (`Token.covered`).  It takes each of them
as the lexer does and pushes a text that does not depend on the content
(`scans_token`), so it stays in step over any sequence of them.

An identifier that holds what looks like a delimiter, or a digit after a letter that
is not ASCII, may lead the scanner astray or not, depending on the text around it.
`SqlText.Regular` leaves these out.
-/

namespace Lens.Redact

open List

variable {c : Char} {rest cs x : List Char} {ts : List Token} {t : Token}

/-! ## Text pushed as it stands -/

/-- Every digit is glued to the character before it and no dollar sign begins a
delimiter. -/
def unbroken : Option Char → List Char → Bool
  | _, [] => true
  | previous, c :: cs =>
    (!c.isDigit || previous.any isWordByte) && (c != '$' || (delimiterTail cs).isNone)
      && unbroken (some c) cs

namespace Token

/-- The scanner has the lexer's rule for the token. -/
def covered : Token → Bool
  | escape _ _ => false
  | number _ => false
  | block _ => false
  | dollar tag _ => tag.all fun c => decide (c.toNat < 0x80)
  | _ => true

/-- The scanner does not take a part of an identifier for a constant, and a line ends
where the scanner ends it. -/
def regular : Token → Bool
  | word cs => unbroken none cs
  | line _ eol => eol != ['\r']
  | _ => true

def isParam : Token → Bool
  | param _ => true
  | _ => false

/-- The token begins with a dollar sign. -/
def opensDollar : Token → Bool
  | param _ => true
  | dollar _ _ => true
  | _ => false

/-- What the scanner pushes for a token that it covers. -/
def safe : Token → List Char
  | string _ => "'?'".toList
  | dollar tag _ => dollarDelimiter tag ++ ['?'] ++ dollarDelimiter tag
  | line _ eol => if eol = [] then "-- [REDACTED]".toList else "-- [REDACTED]\n".toList
  | token => token.text

/-- The scanner replaces the token. -/
def replaced : Token → Bool
  | string _ => true
  | dollar _ _ => true
  | line _ _ => true
  | _ => false

end Token

/-- No identifier leads the scanner astray, and no parameter stands before a dollar
sign. -/
def regularTokens : List Token → Bool
  | [] => true
  | t :: ts => t.regular && !(t.isParam && ts.head?.any Token.opensDollar) && regularTokens ts

def SqlText.Regular (s : SqlText) : Prop := regularTokens s.tokens = true

/-! ## Tokens and their shapes -/

section Shape

variable (t)

theorem Token.follows_shape (next : Option Char) : t.shape.follows next = t.follows next := by
  cases t with
  | _ => rfl

theorem Token.covered_shape : t.shape.covered = t.covered := by
  cases t with
  | _ => rfl

theorem Token.safe_shape (h : t.covered = true) : t.shape.safe = t.safe := by
  cases t with
  | escape letter items => cases h
  | number cs => cases h
  | block cs => cases h
  | _ => rfl

theorem Token.replaced_shape : t.shape.replaced = t.replaced := by
  cases t with
  | _ => rfl

theorem Token.regular_shape : t.shape.regular = t.regular := by
  cases t with
  | _ => rfl

theorem Token.isParam_shape : t.shape.isParam = t.isParam := by
  cases t with
  | _ => rfl

theorem Token.opensDollar_shape : t.shape.opensDollar = t.opensDollar := by
  cases t with
  | _ => rfl

end Shape

theorem regularTokens_shape (ts : List Token) :
    regularTokens (ts.map Token.shape) = regularTokens ts := by
  induction ts with
  | nil => rfl
  | cons t ts ih =>
    have hhead : (ts.map Token.shape).head?.any Token.opensDollar =
        ts.head?.any Token.opensDollar := by
      cases ts with
      | nil => rfl
      | cons u us => exact u.opensDollar_shape
    rw [map_cons, regularTokens, regularTokens, t.regular_shape, t.isParam_shape, hhead, ih]

/-! ## Characters of the tokens -/

/-- A character that begins no quoted token and no comment begins at most a number or a
dollar-quoted constant. -/
theorem sqlStep_other (previous : Option Char) (hq : c ≠ '"') (hs : c ≠ '\'')
    (hline : startsLineComment (c :: rest) = false)
    (hblock : startsBlockComment (c :: rest) = false) (hquote : dollarQuote (c :: rest) = none) :
    sqlStep previous (c :: rest) =
      if isNumberStart previous (c :: rest) then
        (['?'], true, 1 + (rest.takeWhile isNumberTail).length)
      else ([c], false, 1) := by
  rw [sqlStep, if_neg hq, if_neg hs, hline, hblock, hquote]
  rfl

theorem sqlStep_ident {previous : Option Char} (hc : isIdentCont c = true)
    (hquote : dollarQuote (c :: rest) = none) :
    sqlStep previous (c :: rest) =
      if isNumberStart previous (c :: rest) then
        (['?'], true, 1 + (rest.takeWhile isNumberTail).length)
      else ([c], false, 1) := by
  have hne : ∀ d : Char, isIdentCont d = false → c ≠ d := by
    rintro d hd rfl
    simp [hc] at hd
  have hline : startsLineComment (c :: rest) = false := by
    simp [startsLineComment_cons, hne '-' rfl]
  have hblock : startsBlockComment (c :: rest) = false := by
    simp [startsBlockComment_cons, hne '/' rfl]
  exact sqlStep_other previous (hne '"' rfl) (hne '\'' rfl) hline hblock hquote

/-- A character that does not continue a word ends a delimiter nowhere. -/
theorem delimiterTail_append_none (hrest : rest.head?.any isIdentCont = false) :
    ∀ {cs : List Char}, delimiterTail cs = none → delimiterTail (cs ++ rest) = none := by
  intro cs
  induction cs with
  | nil =>
    intro _
    cases rest with
    | nil => rfl
    | cons d rest =>
      simp only [head?_cons, Option.any_some, isIdentCont, isTagCont, isIdentStart,
        Bool.or_eq_false_iff, beq_eq_false_iff_ne] at hrest
      obtain ⟨⟨⟨⟨halpha, hunder⟩, -⟩, hdigit⟩, hdollar⟩ := hrest
      simp [delimiterTail, Char.isAlphanum, halpha, hdigit, hunder, hdollar]
  | cons c cs ih =>
    intro h
    rw [delimiterTail] at h
    rw [cons_append, delimiterTail]
    split at h
    · cases h
    next hc =>
      split at h
      next hw => rw [if_neg hc, if_pos hw]
      next hw =>
        rw [Option.map_eq_none_iff] at h
        rw [if_neg hc, if_neg hw, ih h]
        rfl

/-- Identifiers and parameters are pushed as they stand. -/
theorem Scans.unbroken (hrest : rest.head?.any isIdentCont = false) :
    ∀ {cs : List Char} {previous : Option Char}, cs.all isIdentCont = true →
      unbroken previous cs = true → ∃ last, Scans previous cs rest cs false last := by
  intro cs
  induction cs with
  | nil =>
    intro previous _ _
    exact ⟨previous, .nil previous rest⟩
  | cons c cs ih =>
    intro previous hcont h
    rw [all_cons, Bool.and_eq_true] at hcont
    simp only [Redact.unbroken, Bool.and_eq_true, Bool.or_eq_true, Bool.not_eq_true', bne_iff_ne,
      Option.isNone_iff_eq_none] at h
    obtain ⟨⟨hdigit, hdollar⟩, hrun⟩ := h
    obtain ⟨last, hscans⟩ := ih hcont.2 hrun
    have hquote : dollarQuote (c :: (cs ++ rest)) = none := by
      rcases hdollar with hc | hnone
      · simp [dollarQuote, dollarDelimiterEnd, hc]
      · have htail := delimiterTail_append_none hrest hnone
        simp [dollarQuote, dollarDelimiterEnd, htail]
    have hnumber : isNumberStart previous (c :: (cs ++ rest)) = false := by
      rcases hdigit with hc | hglued
      · simp [isNumberStart, hc]
      · simp [isNumberStart, hglued]
    refine ⟨last, hscans.push ?_⟩
    rw [sqlStep_ident hcont.1 hquote, hnumber]
    rfl

/-! ## One token -/

theorem delimiterTail_of_not_mem : ∀ {cs : List Char}, '$' ∉ cs → delimiterTail cs = none
  | [], _ => rfl
  | c :: cs, h => by
    rw [mem_cons, not_or] at h
    rw [delimiterTail, if_neg (Ne.symm h.1), delimiterTail_of_not_mem h.2]
    split
    · rfl
    · rfl

theorem not_dollar_of_isTagCont (h : isTagCont c = true) : c ≠ '$' := by
  rintro rfl
  exact absurd h (by decide)

theorem isTagCont_of_isDigit (h : c.isDigit = true) : isTagCont c = true := by
  simp [isTagCont, h]

theorem isWordByte_of_isDigit (h : c.isDigit = true) : isWordByte c = true := by
  simp [isWordByte, Char.isAlphanum, h]

theorem dollar_not_mem_of_tagCont (h : cs.all isTagCont = true) : '$' ∉ cs := by
  intro hm
  exact not_dollar_of_isTagCont (all_eq_true.mp h '$' hm) rfl

theorem tagCont_of_digits (h : cs.all Char.isDigit = true) :
    cs.all isTagCont = true := by
  rw [all_eq_true] at h ⊢
  intro c hc
  exact isTagCont_of_isDigit (h c hc)

theorem unbroken_digits : ∀ {cs : List Char} {previous : Option Char}, cs.all Char.isDigit = true →
    previous.any isWordByte = true → unbroken previous cs = true
  | [], _, _, _ => rfl
  | c :: cs, previous, h, hprevious => by
    rw [all_cons, Bool.and_eq_true] at h
    have hc : c ≠ '$' := not_dollar_of_isTagCont (isTagCont_of_isDigit h.1)
    have ih : unbroken (some c) cs = true := unbroken_digits h.2 (isWordByte_of_isDigit h.1)
    simp [unbroken, hprevious, hc, ih]

theorem unbroken_param {digits : List Char} (h : digits.all Char.isDigit = true) :
    unbroken none ('$' :: digits) = true := by
  have htail : delimiterTail digits = none :=
    delimiterTail_of_not_mem (dollar_not_mem_of_tagCont (tagCont_of_digits h))
  have hdigits : unbroken (some '$') digits = true := unbroken_digits h (by decide)
  simp [unbroken, htail, hdigits]

theorem sqlStep_line (previous : Option Char) (cs : List Char) :
    sqlStep previous ('-' :: '-' :: cs) = lineComment ('-' :: '-' :: cs) := by
  have hstart : startsLineComment ('-' :: '-' :: cs) = true := by simp [startsLineComment_cons]
  rw [sqlStep, if_neg (by decide), if_neg (by decide), if_pos hstart]

theorem takeWhile_line (hx : '\n' ∉ x) (rest : List Char) :
    (x ++ rest).takeWhile (· ≠ '\n') = x ++ rest.takeWhile (· ≠ '\n') := by
  refine takeWhile_append_of_pos ?_
  intro c hc
  have hne : c ≠ '\n' := fun he => hx (he ▸ hc)
  simpa using hne

theorem lineComment_open (hx : '\n' ∉ x) :
    lineComment x = ("-- [REDACTED]".toList, true, x.length) := by
  have hline : x.takeWhile (· ≠ '\n') = x := by
    have h := takeWhile_line hx []
    simpa using h
  rw [lineComment]
  simp only [hline, Nat.lt_irrefl, if_false]

theorem lineComment_closed (hx : '\n' ∉ x) (rest : List Char) :
    lineComment (x ++ '\n' :: rest) = ("-- [REDACTED]\n".toList, true, x.length + 1) := by
  have hline : (x ++ '\n' :: rest).takeWhile (· ≠ '\n') = x := by
    rw [takeWhile_line hx]
    simp
  have hlt : x.length < (x ++ '\n' :: rest).length := by simp
  rw [lineComment]
  simp only [hline, hlt, if_true]

theorem not_isDigit_of_isIdentStart (h : isIdentStart c = true) : c.isDigit = false := by
  simp only [isIdentStart, Char.isAlpha, Char.isUpper, Char.isLower, Bool.or_eq_true,
    Bool.and_eq_true, decide_eq_true_eq, beq_iff_eq, UInt32.le_iff_toNat_le, ge_iff_le] at h
  have hval : c.toNat = c.val.toNat := rfl
  have hA : 'A'.val.toNat = 65 := rfl
  have ha : 'a'.val.toNat = 97 := rfl
  have hbig : 57 < c.val.toNat := by
    rcases h with ((h | h) | rfl) | h
    · omega
    · omega
    · decide
    · omega
  have h9 : '9'.val.toNat = 57 := rfl
  have hnot : ¬ c.val ≤ '9'.val := by
    rw [UInt32.le_iff_toNat_le]
    omega
  rw [Char.isDigit, decide_eq_false hnot, Bool.and_false]

/-- The character before matters only to a digit. -/
theorem unbroken_previous (h : cs.head?.any Char.isDigit = false)
    (previous : Option Char) : unbroken previous cs = unbroken none cs := by
  cases cs with
  | nil => rfl
  | cons c cs =>
    have hc : c.isDigit = false := h
    simp [unbroken, hc]

/-- The tag of a delimiter that the scanner knows. -/
theorem word_of_ascii (h : isTagCont c = true) (hascii : c.toNat < 0x80) :
    (c.isAlphanum || c == '_') = true := by
  have hlow : decide (0x80 ≤ c.toNat) = false := by simpa using hascii
  rw [isTagCont, isIdentStart, hlow, Bool.or_false] at h
  rw [Char.isAlphanum]
  simp only [Bool.or_eq_true] at h ⊢
  rcases h with (h | h) | h
  · exact .inl (.inl h)
  · exact .inr h
  · exact .inl (.inr h)

/-- A line comment is one turn. -/
theorem sqlStep_comment (previous : Option Char) {eol : List Char}
    (hv : (Token.line cs eol).valid = true) (hf : (Token.line cs eol).follows rest.head? = true)
    (hr : (Token.line cs eol).regular = true) :
    sqlStep previous ((Token.line cs eol).text ++ rest) =
      ((Token.line cs eol).safe, true, (Token.line cs eol).text.length) := by
  simp only [Token.valid, Bool.and_eq_true, contains_iff_mem, mem_cons, not_mem_nil, or_false] at hv
  obtain ⟨hcs, heol⟩ := hv
  have hline : '\n' ∉ '-' :: '-' :: cs := by
    intro hm
    simp only [mem_cons, Char.reduceEq, false_or] at hm
    have hc := all_eq_true.mp hcs _ hm
    simp at hc
  rw [Token.text, cons_append, cons_append, sqlStep_line]
  rcases heol with rfl | rfl | rfl | rfl
  · -- Nothing follows a line without an end.
    have hrest : rest = [] := by simpa [Token.follows] using hf
    rw [hrest, append_nil, append_nil, lineComment_open hline]
    rfl
  · have h := lineComment_closed hline rest
    simp only [cons_append] at h
    rw [append_assoc, singleton_append, h]
    simp [Token.safe]
  · -- The scanner takes the carriage return as a part of the comment.
    have hreturn : '\n' ∉ '-' :: '-' :: (cs ++ ['\r']) := by
      simp only [mem_cons, not_or] at hline
      simp [hline.2.2]
    have h := lineComment_closed hreturn rest
    simp only [cons_append, append_assoc, nil_append] at h
    simp only [append_assoc, cons_append, nil_append, h]
    simp [Token.safe]
  · simp [Token.regular] at hr

/-- The scanner takes a token that it covers, and what it pushes does not depend on
the content. -/
theorem scans_token (previous : Option Char) (hv : t.valid = true)
    (hf : t.follows rest.head? = true) (hr : t.regular = true)
    (hp : t.isParam = true → rest.head? ≠ some '$') (hc : t.covered = true) :
    ∃ last, Scans previous t.text rest t.safe t.replaced last := by
  cases t with
  | plain c =>
    simp only [Token.valid, contains_cons, contains_nil, Bool.or_false, isTagCont,
      Bool.and_eq_true, Bool.not_eq_true', Bool.or_eq_false_iff, beq_eq_false_iff_ne] at hv
    obtain ⟨⟨hq, hs, hdollar⟩, -, hdigit⟩ := hv
    simp only [Token.follows, Bool.and_eq_true, Bool.not_eq_true'] at hf
    refine ⟨some c, (Scans.nil _ rest).push (sqlStep_push hq hs ?_ ?_ ?_ ?_)⟩
    · rw [startsLineComment_cons]
      exact hf.1.1
    · rw [startsBlockComment_cons]
      exact hf.1.2
    · simp [dollarQuote, dollarDelimiterEnd, hdollar]
    · simp [isNumberStart, hdigit]
  | word cs =>
    simp only [Token.valid, Bool.and_eq_true] at hv
    simp only [Token.follows, Bool.and_eq_true, Bool.not_eq_true'] at hf
    have hstart : cs.head?.any Char.isDigit = false := by
      cases cs with
      | nil => rfl
      | cons c cs => exact not_isDigit_of_isIdentStart hv.1
    refine Scans.unbroken hf.1 hv.2 ?_
    rw [Token.text, unbroken_previous hstart]
    exact hr
  | param digits =>
    simp only [Token.valid, Bool.and_eq_true] at hv
    simp only [Token.follows, Bool.not_eq_true'] at hf
    have hrest : rest.head?.any isIdentCont = false := by
      cases rest with
      | nil => rfl
      | cons d rest =>
        have hd : d ≠ '$' := fun he => hp rfl (he ▸ rfl)
        simp only [head?_cons, Option.any_some] at hf ⊢
        simp [isIdentCont, hf, hd]
    have hcont : ('$' :: digits).all isIdentCont = true := by
      have htag := tagCont_of_digits hv.2
      simp only [all_eq_true] at htag
      simp only [all_cons, Bool.and_eq_true, all_eq_true]
      exact ⟨rfl, fun c hm => by simp [isIdentCont, htag c hm]⟩
    refine Scans.unbroken hrest hcont ?_
    rw [Token.text, unbroken_previous rfl]
    exact unbroken_param hv.2
  | quoted cs =>
    have hrest : rest.head? ≠ some '"' := by simpa [Token.follows] using hf
    exact ⟨_, .single (cons_ne_nil _ _) (sqlStep_quoted previous cs hrest)⟩
  | string cs =>
    have hrest : rest.head? ≠ some '\'' := by simpa [Token.follows] using hf
    exact ⟨_, .single (cons_ne_nil _ _) (sqlStep_string previous cs hrest)⟩
  | escape letter items => cases hc
  | dollar tag cs =>
    simp only [Token.valid, Bool.and_eq_true, beq_iff_eq] at hv
    have hword : ∀ c ∈ tag, (c.isAlphanum || c == '_') = true := by
      intro c hm
      have hascii := all_eq_true.mp hc c hm
      exact word_of_ascii (all_eq_true.mp hv.1.2 c hm) (of_decide_eq_true hascii)
    rw [Token.text, append_assoc]
    refine ⟨_, .single ?_ (sqlStep_tag previous ⟨tag, hword⟩ hv.2 rest)⟩
    simp [dollarDelimiter]
  | number cs => cases hc
  | line cs eol =>
    exact ⟨_, .single (cons_ne_nil _ _) (sqlStep_comment previous hv hf hr)⟩
  | block cs => cases hc

/-! ## Sequences of tokens -/

/-- A numeric constant begins with a digit or with its point. -/
theorem numeric_cons (h : isNumeric cs = true) :
    ∃ c rest, cs = c :: rest ∧ (c.isDigit = true ∨ c = '.') := by
  cases cs with
  | nil => cases h
  | cons c rest =>
    refine ⟨c, rest, rfl, ?_⟩
    cases hc : c.isDigit with
    | true => exact .inl rfl
    | false =>
      rw [isNumeric, dropWhile_cons, takeWhile_cons, hc] at h
      simp only [Bool.false_eq_true, if_false] at h
      split at h
      next heq => exact .inr (List.cons.inj heq).1
      next => simp at h

/-- The scanner stays inside letters, digits, points and signs, whatever it takes for a
number there, if no two minus signs begin a comment. -/
theorem exists_scans_numeric (hrest : rest.head?.any isNumberTail = false) :
    ∀ (n : Nat) (cs : List Char) (previous : Option Char), cs.length ≤ n →
      (cs.all fun c => isTagCont c || isNumberTail c) = true → cs.count '-' ≤ 1 →
        ∃ out changed last, Scans previous cs rest out changed last := by
  intro n
  induction n with
  | zero =>
    intro cs previous hlen _ _
    rw [eq_nil_of_length_eq_zero (Nat.le_zero.mp hlen)]
    exact ⟨_, _, _, .nil previous _⟩
  | succ n ih =>
    intro cs previous hlen hall hsign
    cases cs with
    | nil => exact ⟨_, _, _, .nil previous _⟩
    | cons c cs =>
      rw [all_cons, Bool.and_eq_true] at hall
      rw [length_cons] at hlen
      have hne : ∀ d : Char, (isTagCont d || isNumberTail d) = false → c ≠ d := by
        rintro d hd rfl
        simp [hall.1] at hd
      have hline : startsLineComment (c :: (cs ++ rest)) = false := by
        rw [startsLineComment_cons, Bool.and_eq_false_iff, beq_eq_false_iff_ne,
          beq_eq_false_iff_ne]
        by_contra hboth
        rw [not_or, not_not, not_not] at hboth
        obtain ⟨rfl, hnext⟩ := hboth
        cases cs with
        | nil => simp [show rest.head? = _ from hnext, isNumberTail] at hrest
        | cons d cs =>
          obtain rfl : d = '-' := Option.some.inj hnext
          simp at hsign
      have hblock : startsBlockComment (c :: (cs ++ rest)) = false := by
        simp [startsBlockComment_cons, hne '/' rfl]
      have hquote : dollarQuote (c :: (cs ++ rest)) = none := by
        simp [dollarQuote, dollarDelimiterEnd, hne '$' rfl]
      have hstep := sqlStep_other previous (hne '"' rfl) (hne '\'' rfl) hline hblock hquote
      rw [count_cons] at hsign
      cases hnumber : isNumberStart previous (c :: (cs ++ rest)) with
      | false =>
        obtain ⟨out, changed, last, hrun⟩ := ih cs (some c) (by omega) hall.2 (by omega)
        exact ⟨_, _, _, hrun.push (by rw [hstep, hnumber]; rfl)⟩
      | true =>
        -- The scan of a number stops where the rest begins, or before.
        obtain ⟨front, back, rfl, hfront⟩ : ∃ front back, cs = front ++ back ∧
            (cs ++ rest).takeWhile isNumberTail = front := by
          refine ⟨cs.takeWhile isNumberTail, cs.dropWhile isNumberTail,
            takeWhile_append_dropWhile.symm, ?_⟩
          rw [takeWhile_append]
          split
          next hfull =>
            have hpre : cs.takeWhile isNumberTail <+: cs := takeWhile_prefix isNumberTail
            have hcs := hpre.eq_of_length hfull
            cases rest with
            | nil => rw [hcs, takeWhile_nil, append_nil]
            | cons d rest => rw [hcs, takeWhile_cons_of_neg (by simpa using hrest), append_nil]
          · rfl
        rw [all_append, Bool.and_eq_true] at hall
        rw [length_append] at hlen
        rw [count_append] at hsign
        obtain ⟨out, changed, last, hrun⟩ := ih back (c :: front).getLast? (by omega) hall.2.2
          (by omega)
        have hturn : sqlStep previous ((c :: front) ++ (back ++ rest)) =
            (['?'], true, (c :: front).length) := by
          rw [cons_append, ← append_assoc, hstep, hnumber, hfront, length_cons, Nat.add_comm]
          rfl
        exact ⟨_, _, _, .step (cons_ne_nil _ _) hturn hrun⟩

/-- A token is not empty, and only parameters and dollar-quoted constants begin with
a dollar sign. -/
theorem Token.text_cons (h : t.valid = true) :
    ∃ c cs, t.text = c :: cs ∧ (c = '$' → t.opensDollar = true) := by
  cases t with
  | plain c =>
    refine ⟨c, [], rfl, ?_⟩
    rintro rfl
    simp [valid] at h
  | word cs =>
    cases cs with
    | nil => cases h
    | cons c cs =>
      refine ⟨c, cs, rfl, ?_⟩
      rintro rfl
      simp only [valid, Bool.and_eq_true] at h
      have hstart : isIdentStart '$' = true := h.1
      exact absurd hstart (by decide)
  | param digits => exact ⟨'$', digits, rfl, fun _ => rfl⟩
  | quoted cs => exact ⟨_, _, rfl, fun hc => absurd hc (by decide)⟩
  | string cs => exact ⟨_, _, rfl, fun hc => absurd hc (by decide)⟩
  | escape letter items =>
    refine ⟨_, _, rfl, ?_⟩
    rintro rfl
    simp [valid] at h
  | dollar tag cs => exact ⟨'$', _, rfl, fun _ => rfl⟩
  | number cs =>
    obtain ⟨c, rest, rfl, hc⟩ := numeric_cons h
    refine ⟨c, rest, rfl, ?_⟩
    rintro rfl
    exact absurd hc (by decide)
  | line cs eol => exact ⟨_, _, rfl, fun hc => absurd hc (by decide)⟩
  | block cs => exact ⟨_, _, rfl, fun hc => absurd hc (by decide)⟩

/-- A parameter does not stand before a dollar sign. -/
theorem head_ne_dollar (hl : Lexed ts) (hr : regularTokens (t :: ts) = true)
    (hp : t.isParam = true) :
    (textOf ts).head? ≠ some '$' := by
  cases ts with
  | nil => simp
  | cons u us =>
    obtain ⟨c, cs, htext, hdollar⟩ := u.text_cons hl.1
    intro hhead
    rw [textOf_cons, htext, cons_append, head?_cons, Option.some.injEq] at hhead
    simp [regularTokens, hp, hdollar hhead] at hr

/-- The scanner takes the tokens that it covers one by one. -/
theorem scans_tokens : ∀ {ts us : List Token} (previous : Option Char), Lexed (ts ++ us) →
    regularTokens (ts ++ us) = true → (∀ t ∈ ts, t.covered = true) →
      ∃ last, Scans previous (textOf ts) (textOf us) (ts.flatMap Token.safe) (ts.any Token.replaced)
        last := by
  intro ts
  induction ts with
  | nil =>
    intro us previous _ _ _
    exact ⟨previous, .nil previous _⟩
  | cons t ts ih =>
    intro us previous hl hr hc
    rw [forall_mem_cons] at hc
    rw [cons_append] at hl
    obtain ⟨hv, hf, hrest⟩ := hl
    have hp := head_ne_dollar hrest hr
    rw [cons_append, regularTokens, Bool.and_eq_true, Bool.and_eq_true] at hr
    rw [textOf_append] at hf hp
    obtain ⟨middle, hfirst⟩ := scans_token previous hv hf hr.1.1 hp hc.1
    obtain ⟨last, hlast⟩ := ih middle hrest hr.2 hc.2
    exact ⟨last, hfirst.append hlast⟩

theorem redactSqlLiterals_ofList (cs : List Char) :
    redactSqlLiterals (String.ofList cs) = (String.ofList (scan none cs).1, (scan none cs).2) := by
  simp [redactSqlLiterals, scan]

/-- The result for a text of covered tokens. -/
theorem redact_covered (hl : Lexed ts) (hr : regularTokens ts = true)
    (hc : ∀ t ∈ ts, t.covered = true) :
    redactSqlLiterals (String.ofList (textOf ts)) =
      (String.ofList (ts.flatMap Token.safe), ts.any Token.replaced) := by
  have hl' : Lexed (ts ++ []) := by simpa using hl
  have hr' : regularTokens (ts ++ []) = true := by simpa using hr
  obtain ⟨last, hscans⟩ := scans_tokens none hl' hr' hc
  have hloop := hscans.loop
  rw [textOf_nil, append_nil, scan_nil, append_nil, Bool.or_false] at hloop
  rw [redactSqlLiterals_ofList, hloop]

end Lens.Redact
