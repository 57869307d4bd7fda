import Lens.Redact.Lexed

/-!
# Texts with the same tokens

The scanner has no rule for a backslash in an escape string, for a comment inside a
comment, for an exponent and for a tag with letters that are not ASCII.  Each token
without a rule has two contents that leave different texts behind, whatever stands
around it (`exists_variants`).  So the result is the same for all texts with the same
tokens exactly where every token has its rule (`SqlText.redact_same_iff`).
-/

namespace Lens.Redact

open List

variable {previous last : Option Char} {rest out tag : List Char} {changed : Bool} {c d : Char}
  {t u : Token} {ts us : List Token}

/-! ## Contents that show -/

/-- Runs that pushed different texts of one length are told apart. -/
theorem Scans.ne {last' : Option Char} {a a' rest' out' : List Char} {changed' : Bool}
    (h : Scans previous a rest out changed last) (h' : Scans previous a' rest' out' changed' last')
    (hlen : out.length = out'.length)
    (hne : out ≠ out') : (scan previous (a ++ rest)).1 ≠ (scan previous (a' ++ rest')).1 := by
  rw [h.loop, h'.loop]
  intro heq
  exact hne (append_inj_left heq hlen)

/-- A digit before a letter, or after a word character, is pushed as it stands. -/
theorem sqlStep_digit (hc : c.isDigit = true)
    (h : previous.any isWordByte = true ∨ rest.head?.any Char.isAlpha = true) :
    sqlStep previous (c :: rest) = ([c], false, 1) := by
  have hcont : isIdentCont c = true := by simp [isIdentCont, isTagCont_of_isDigit hc]
  have hdollar := not_dollar_of_isTagCont (isTagCont_of_isDigit hc)
  have hquote : dollarQuote (c :: rest) = none := by
    simp [dollarQuote, dollarDelimiterEnd, hdollar]
  have hnumber : isNumberStart previous (c :: rest) = false := by
    rcases h with hp | hn
    · simp [isNumberStart, hp]
    · cases rest with
      | nil => cases hn
      | cons d rest =>
        have hd : d.isAlpha = true := hn
        simp [isNumberStart, hd]
  rw [sqlStep_ident hcont hquote, hnumber]
  rfl

/-- A number with an exponent is pushed as it stands. -/
theorem Scans.exponent (hc : c.isDigit = true) (hd : d.isDigit = true) (previous : Option Char)
    (rest : List Char) :
    Scans previous [c, 'e', d] rest [c, 'e', d] false (some d) := by
  have hlast : Scans (some 'e') [d] rest [d] false (some d) :=
    (Scans.nil _ rest).push (sqlStep_digit hd (.inl rfl))
  have hletter : Scans (some c) ['e', d] rest ['e', d] false (some d) :=
    hlast.push (sqlStep_quiet rfl _ _)
  exact hletter.push (sqlStep_digit hc (.inr rfl))

/-- An escaped quote closes the constant for the scanner. -/
theorem Scans.escape {letter : Char} (hl : letter = 'e' ∨ letter = 'E') (hd : isQuiet d = true)
    (previous : Option Char) (rest : List Char) :
    Scans previous (letter :: ['\'', '\\', '\'', d]) rest (letter :: ("'?'".toList ++ [d])) true
      (some d) := by
  have hlast : Scans (some '\'') [d] rest [d] false (some d) :=
    (Scans.nil _ rest).push (sqlStep_quiet hd _ _)
  have hne : d ≠ '\'' := by
    rintro rfl
    exact absurd hd (by decide)
  have hstep : sqlStep (some letter) (['\'', '\\', '\''] ++ ([d] ++ rest)) =
      ("'?'".toList, true, 3) := by
    have hquote : quotedLength '\'' ('\\' :: '\'' :: d :: rest) = 2 := by
      simp [quotedLength, hne]
    simp only [cons_append, nil_append, sqlStep_quote, hquote]
  have hconstant : Scans (some letter) (['\'', '\\', '\''] ++ [d]) rest ("'?'".toList ++ [d]) true
      (some d) := .step (cons_ne_nil _ _) hstep hlast
  refine hconstant.push (sqlStep_quiet ?_ _ _)
  rcases hl with rfl | rfl
  · decide
  · decide

/-- The first end mark closes a comment for the scanner. -/
theorem Scans.nested (hd : isQuiet d = true) (previous : Option Char) (rest : List Char) :
    Scans previous ("/*/**/".toList ++ [d]) rest ("/* [REDACTED] */".toList ++ [d]) true
      (some d) := by
  have hlast : Scans (some '/') [d] rest [d] false (some d) :=
    (Scans.nil _ rest).push (sqlStep_quiet hd _ _)
  have hfind : Search.find "*/".toList ("/**/".toList ++ ([d] ++ rest)) = some 2 :=
    Search.find_append _ (by decide)
  have hstep : sqlStep previous ("/*/**/".toList ++ ([d] ++ rest)) =
      ("/* [REDACTED] */".toList, true, 6) := by
    have hdrop : ("/*/**/".toList ++ ([d] ++ rest)).drop 2 = "/**/".toList ++ ([d] ++ rest) := rfl
    have hcomment : blockComment ("/*/**/".toList ++ ([d] ++ rest)) =
        ("/* [REDACTED] */".toList, true, 6) := by
      rw [blockComment, hdrop, hfind]
    exact hcomment
  exact .step (by decide) hstep hlast

/-- A letter that is not ASCII ends the search for a delimiter. -/
theorem delimiterTail_of_nonascii (rest : List Char) : ∀ {tag : List Char},
    tag.all isTagCont = true → (tag.all fun c => decide (c.toNat < 0x80)) = false →
      delimiterTail (tag ++ rest) = none := by
  intro tag
  induction tag with
  | nil =>
    intro _ h
    cases h
  | cons c tag ih =>
    intro hcont h
    rw [all_cons, Bool.and_eq_true] at hcont
    have hc : c ≠ '$' := not_dollar_of_isTagCont hcont.1
    rw [cons_append, delimiterTail, if_neg hc]
    split
    · rfl
    next hword =>
      have hascii : c.toNat < 0x80 := by
        refine ascii_of_word ?_
        cases halnum : c.isAlphanum with
        | true => rfl
        | false => simpa [halnum] using hword
      rw [all_cons, decide_eq_true hascii, Bool.true_and] at h
      rw [ih hcont.2 h]
      rfl

/-- A dollar sign that begins no delimiter is pushed as it stands. -/
theorem sqlStep_lone_dollar
    (h : delimiterTail rest = none) : sqlStep previous ('$' :: rest) = (['$'], false, 1) := by
  have hquote : dollarQuote ('$' :: rest) = none := by
    simp [dollarQuote, dollarDelimiterEnd, h]
  rw [sqlStep_ident rfl hquote]
  rfl

/-- Whatever the scanner makes of a tag, it comes to the dollar sign after it. -/
theorem exists_scans_tag (rest : List Char) {tag : List Char} (previous : Option Char)
    (htag : tag.all isTagCont = true) :
    ∃ out changed last, Scans previous tag ('$' :: rest) out changed last := by
  have hcount : tag.count '-' = 0 := by
    rw [count_eq_zero]
    intro hm
    exact absurd (all_eq_true.mp htag _ hm) (by decide)
  refine exists_scans_numeric rfl _ tag previous (Nat.le_refl _) ?_ (by omega)
  rw [all_eq_true] at htag ⊢
  intro c hm
  simp [htag c hm]

/-- The scanner pushes the content after a tag that it does not know. -/
theorem Scans.foreign {u : List Char} (hcont : tag.all isTagCont = true)
    (hforeign : (tag.all fun c => decide (c.toNat < 0x80)) = false) (hd : isQuiet d = true)
    (h : Scans (some '$') tag ('$' :: ' ' :: d :: u) out changed last) (previous : Option Char) :
    Scans previous (('$' :: tag) ++ ['$', ' ', d]) u ('$' :: out ++ ['$', ' ', d])
      (changed || false) (some d) := by
  have hopen : Scans previous ('$' :: tag) ('$' :: ' ' :: d :: u) ('$' :: out) changed last :=
    h.push (sqlStep_lone_dollar (delimiterTail_of_nonascii _ hcont hforeign))
  have hcontent : Scans (some '$') [' ', d] u [' ', d] false (some d) :=
    ((Scans.nil _ u).push (sqlStep_quiet hd _ _)).push (sqlStep_quiet rfl _ _)
  have hclose : Scans last ['$', ' ', d] u ['$', ' ', d] false (some d) :=
    hcontent.push (sqlStep_lone_dollar rfl)
  exact hopen.append hclose

/-- A dollar-quoted constant whose tag the scanner does not know shows its content. -/
theorem scan_foreign_ne (hcont : tag.all isTagCont = true)
    (hforeign : (tag.all fun c => decide (c.toNat < 0x80)) = false) (previous : Option Char)
    (u : List Char) :
    (scan previous (('$' :: tag) ++ ['$', ' ', 'a'] ++ u)).1 ≠
      (scan previous (('$' :: tag) ++ ['$', ' ', 'b'] ++ u)).1 := by
  obtain ⟨out, changed, last, hrun⟩ :=
    exists_scans_tag (' ' :: 'a' :: u) (some '$') hcont
  obtain ⟨out', changed', last', hrun'⟩ :=
    exists_scans_tag (' ' :: 'b' :: u) (some '$') hcont
  -- Both runs over the tag end in front of a dollar sign, so they are the same.
  have hsame := (hrun.shorten nil_prefix).deterministic (hrun'.shorten nil_prefix)
  obtain ⟨rfl, rfl, rfl⟩ := hsame
  refine (hrun.foreign hcont hforeign rfl previous).ne
    (hrun'.foreign hcont hforeign rfl previous) (by simp) ?_
  simp

/-- The same token with another content. -/
structure Token.Variant (t u : Token) : Prop where
  valid : u.valid = true
  shape : u.shape = t.shape
  head : u.text.head? = t.text.head?

/-- A token without a rule has contents that the scanner tells apart, whatever stands
around it. -/
theorem exists_variants (hv : t.valid = true) (hc : t.covered = false) :
    ∃ t₁ t₂ : Token, t.Variant t₁ ∧ t.Variant t₂ ∧ ∀ (previous : Option Char) (rest : List Char),
      (scan previous (t₁.text ++ rest)).1 ≠ (scan previous (t₂.text ++ rest)).1 := by
  cases t with
  | escape letter items =>
    simp only [Token.valid, Bool.and_eq_true, Bool.or_eq_true, beq_iff_eq] at hv
    have hletter : (letter == 'e' || letter == 'E') = true := by simpa using hv.1
    refine ⟨.escape letter [.escaped '\'', .char 'a'], .escape letter [.escaped '\'', .char 'b'],
      ⟨?_, rfl, rfl⟩, ⟨?_, rfl, rfl⟩, ?_⟩
    · rw [Token.valid, hletter]
      rfl
    · rw [Token.valid, hletter]
      rfl
    · intro previous rest
      have hne := (Scans.escape hv.1 (d := 'a') rfl previous ('\'' :: rest)).ne
        (Scans.escape hv.1 (d := 'b') rfl previous ('\'' :: rest)) rfl (by simp)
      exact hne
  | dollar tag cs =>
    simp only [Token.valid, Bool.and_eq_true] at hv
    refine ⟨.dollar tag [' ', 'a'], .dollar tag [' ', 'b'], ⟨?_, rfl, rfl⟩, ⟨?_, rfl, rfl⟩, ?_⟩
    · rw [Token.valid, hv.1.1, hv.1.2, find_delimiter tag (by decide)]
      rfl
    · rw [Token.valid, hv.1.1, hv.1.2, find_delimiter tag (by decide)]
      rfl
    · intro previous rest
      have hne := scan_foreign_ne hv.1.2 hc previous (dollarDelimiter tag ++ rest)
      simpa [Token.text, dollarDelimiter, append_assoc] using hne
  | number cs =>
    obtain ⟨c, rest, rfl, hdigit | rfl⟩ := numeric_cons hv
    · have hvalid : ∀ d : Char, d = '1' ∨ d = '2' → isNumeric [c, 'e', d] = true := by
        rintro d (rfl | rfl)
        · simp [isNumeric, hdigit, isNumberEnd, isExponent]
        · simp [isNumeric, hdigit, isNumberEnd, isExponent]
      refine ⟨.number [c, 'e', '1'], .number [c, 'e', '2'], ⟨hvalid _ (.inl rfl), rfl, rfl⟩,
        ⟨hvalid _ (.inr rfl), rfl, rfl⟩, ?_⟩
      intro previous rest
      exact (Scans.exponent hdigit rfl previous rest).ne (Scans.exponent hdigit rfl previous rest)
        rfl (by simp)
    · refine ⟨.number ['.', '1', 'e', '1'], .number ['.', '1', 'e', '2'], ⟨by decide, rfl, rfl⟩,
        ⟨by decide, rfl, rfl⟩, ?_⟩
      intro previous rest
      have hpoint : ∀ u : List Char, sqlStep previous ('.' :: u) = (['.'], false, 1) :=
        sqlStep_quiet rfl previous
      exact ((Scans.exponent rfl rfl (some '.') rest).push (hpoint _)).ne
        ((Scans.exponent rfl rfl (some '.') rest).push (hpoint _)) rfl (by decide)
  | block cs =>
    refine ⟨.block "/**/a".toList, .block "/**/b".toList, ⟨by decide, rfl, rfl⟩,
      ⟨by decide, rfl, rfl⟩, ?_⟩
    intro previous rest
    have hne := (Scans.nested (d := 'a') rfl previous ('*' :: '/' :: rest)).ne
      (Scans.nested (d := 'b') rfl previous ('*' :: '/' :: rest)) rfl (by decide)
    exact hne
  | plain c => cases hc
  | word cs => cases hc
  | param digits => cases hc
  | quoted cs => cases hc
  | string cs => cases hc
  | line cs eol => cases hc

/-- A token may be replaced by one of its variants. -/
theorem Lexed.variant (hu : t.Variant u) : ∀ {before after : List Token},
    Lexed (before ++ t :: after) → Lexed (before ++ u :: after) := by
  intro before
  induction before with
  | nil =>
    intro after h
    refine ⟨hu.valid, ?_, h.2.2⟩
    have hf : t.follows (textOf after).head? = true := h.2.1
    rw [← u.follows_shape, hu.shape, t.follows_shape]
    exact hf
  | cons b before ih =>
    intro after h
    rw [cons_append] at h
    obtain ⟨hv, hf, hrest⟩ := h
    have hhead : (textOf (before ++ u :: after)).head? = (textOf (before ++ t :: after)).head? := by
      simp only [textOf_append, textOf_cons, head?_append, hu.head]
    exact ⟨hv, hhead ▸ hf, ih hrest⟩

/-- What the scanner makes of the text around a variant of the first token without a
rule. -/
theorem scan_variant {before after : List Token} (hu : t.Variant u)
    (hl : Lexed (before ++ t :: after)) (hr : regularTokens (before ++ t :: after) = true)
    (hc : ∀ b ∈ before, b.covered = true) :
    (scan none (textOf (before ++ u :: after))).1 =
      before.flatMap Token.safe ++ (scan (textOf before).getLast? (u.text ++ textOf after)).1 := by
  have hregular : regularTokens (before ++ u :: after) = true := by
    rw [← regularTokens_shape, map_append, map_cons] at hr ⊢
    rw [hu.shape]
    exact hr
  obtain ⟨last, hscans⟩ := scans_tokens none (hl.variant hu) hregular hc
  rw [textOf_append, hscans.loop, hscans.last_eq, Option.or_none, textOf_cons]

/-- The result of covered tokens is a matter of their shapes. -/
theorem safe_of_shape (hshape : us.map Token.shape = ts.map Token.shape)
    (hts : ∀ t ∈ ts, t.covered = true) (hus : ∀ t ∈ us, t.covered = true) :
    us.flatMap Token.safe = ts.flatMap Token.safe ∧
      us.any Token.replaced = ts.any Token.replaced := by
  have hsafe : ∀ ws : List Token, (∀ t ∈ ws, t.covered = true) →
      (ws.map Token.shape).flatMap Token.safe = ws.flatMap Token.safe := by
    intro ws hws
    rw [flatMap_map]
    exact flatMap_congr fun t ht => t.safe_shape (hws t ht)
  have hreplaced : ∀ ws : List Token,
      (ws.map Token.shape).any Token.replaced = ws.any Token.replaced := by
    intro ws
    rw [any_map]
    exact congrArg ws.any (funext Token.replaced_shape)
  rw [← hsafe us hus, ← hsafe ts hts, ← hreplaced us, ← hreplaced ts, hshape]
  exact ⟨rfl, rfl⟩

theorem covered_of_shape (hshape : us.map Token.shape = ts.map Token.shape)
    (hts : ∀ t ∈ ts, t.covered = true) : ∀ u ∈ us, u.covered = true := by
  intro u hu
  have hmem : u.shape ∈ ts.map Token.shape := hshape ▸ mem_map_of_mem hu
  obtain ⟨t, ht, heq⟩ := mem_map.mp hmem
  rw [← u.covered_shape, ← heq, t.covered_shape]
  exact hts t ht

/-! ## Texts with the same tokens -/

/-- The scanner gives one result for all texts with the tokens of `s`, if and only if
it has a rule for every one of them. -/
theorem SqlText.redact_same_iff (s : SqlText) (hs : s.Regular) :
    (∀ t : SqlText, t.shape = s.shape → redactSqlLiterals t.text = redactSqlLiterals s.text) ↔
      ∀ token ∈ s.tokens, token.covered = true := by
  constructor
  · intro h
    by_contra hnot
    obtain ⟨token, hfound⟩ : ∃ token, s.tokens.find? (fun t => !t.covered) = some token := by
      rw [← Option.isSome_iff_exists, find?_isSome]
      simpa using hnot
    obtain ⟨hbad, before, after, htokens, hbefore⟩ := find?_eq_some_iff_append.mp hfound
    have hl : Lexed (before ++ token :: after) := htokens ▸ s.lexed
    have hr : regularTokens (before ++ token :: after) = true := htokens ▸ hs
    have hc : ∀ b ∈ before, b.covered = true := by simpa using hbefore
    have hvalid : token.valid = true := hl.valid token (by simp)
    obtain ⟨t₁, t₂, hv₁, hv₂, hne⟩ := exists_variants hvalid (by simpa using hbad)
    -- Both variants of the text have the result of `s`.
    have hsame : ∀ u : Token, token.Variant u →
        (scan none (textOf (before ++ u :: after))).1 = (scan none (textOf s.tokens)).1 := by
      intro u hu
      have hshape : (⟨before ++ u :: after, hl.variant hu⟩ : SqlText).shape = s.shape := by
        simp [SqlText.shape, htokens, hu.shape]
      have hresult := congrArg Prod.fst (h _ hshape)
      rw [SqlText.text, SqlText.text, redactSqlLiterals_ofList, redactSqlLiterals_ofList] at hresult
      exact String.ofList_injective hresult
    have heq := (hsame t₁ hv₁).trans (hsame t₂ hv₂).symm
    rw [scan_variant hv₁ hl hr hc, scan_variant hv₂ hl hr hc] at heq
    exact hne _ _ (append_cancel_left heq)
  · intro hc t hshape
    have hct := covered_of_shape hshape hc
    have hrt : regularTokens t.tokens = true := by
      rw [← regularTokens_shape, show t.tokens.map Token.shape = _ from hshape]
      exact (regularTokens_shape s.tokens).trans hs
    obtain ⟨hsafe, hreplaced⟩ := safe_of_shape hshape hc hct
    rw [SqlText.text, SqlText.text, redact_covered t.lexed hrt hct, redact_covered s.lexed hs hc,
      hsafe, hreplaced]

/-- A query with a string constant and a comment. -/
def commentedQuery : SqlText where
  tokens := [.word "SELECT".toList, .plain ' ', .string "it's Ada".toList, .plain ' ',
    .line " note".toList []]
  lexed := by decide

theorem commentedQuery_redact_same : commentedQuery.Regular ∧
    ∀ t : SqlText, t.shape = commentedQuery.shape →
      redactSqlLiterals t.text = redactSqlLiterals commentedQuery.text := by
  have hregular : commentedQuery.Regular := by
    rw [SqlText.Regular]
    decide
  exact ⟨hregular, (SqlText.redact_same_iff commentedQuery hregular).mpr (by decide)⟩

/-- A query with an escape string that begins with an escaped quote. -/
def escapeQuery (content : List EscapeItem)
    (h : content.all EscapeItem.valid = true) : SqlText where
  tokens := [.word "SELECT".toList, .plain ' ', .escape 'E' (.escaped '\'' :: content)]
  lexed := by
    refine ⟨by decide, rfl, by decide, rfl, ?_, rfl, trivial⟩
    rw [Token.valid, all_cons, h]
    rfl

/-- The scanner closes the constant at the escaped quote and leaves the rest of it. -/
theorem escapeQuery_redact_ne :
    (escapeQuery [.char 'x'] rfl).shape = (escapeQuery [.char 'y'] rfl).shape ∧
      (escapeQuery [.char 'x'] rfl).text = "SELECT E'\\'x'" ∧
      (escapeQuery [.char 'y'] rfl).text = "SELECT E'\\'y'" ∧
      redactSqlLiterals (escapeQuery [.char 'x'] rfl).text = ("SELECT E'?'x'?'", true) ∧
      redactSqlLiterals (escapeQuery [.char 'y'] rfl).text = ("SELECT E'?'y'?'", true) := by
  refine ⟨rfl, by decide, by decide, by decide, by decide⟩

end Lens.Redact
