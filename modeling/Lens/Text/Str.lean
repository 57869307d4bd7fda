import Mathlib

/-!
# Text operations

The `str` operations of the standard library that the decoders call, on
`String`.  Each works on the list of characters.  Whitespace is the Unicode
property White_Space, letter case is ASCII only, and numbers are read as
`str::parse` and `from_str_radix` read them: an optional `+`, then at least one
digit, then nothing, with a bound on the value.
-/

namespace Str

open List

variable {cs : List Char} {a sep c : Char} {s t : String} {p : Char → Bool} {radix limit n : Nat}

/-! ## Whitespace -/

/-- The Unicode property White_Space. -/
def isWhitespace (c : Char) : Bool :=
  let n := c.toNat
  (9 ≤ n && n ≤ 13) || n == 0x20 || n == 0x85 || n == 0xa0 || n == 0x1680
    || (0x2000 ≤ n && n ≤ 0x200a) || n == 0x2028 || n == 0x2029 || n == 0x202f || n == 0x205f
    || n == 0x3000

/-- Characters with the whitespace at both ends removed. -/
def trimList (cs : List Char) : List Char :=
  ((cs.dropWhile isWhitespace).reverse.dropWhile isWhitespace).reverse

/-- `str::trim`. -/
def trim (s : String) : String := String.ofList (trimList s.toList)

/-- Whether no character of a text is whitespace. -/
def NoSpace (s : String) : Prop := ∀ c ∈ s.toList, isWhitespace c = false

instance (s : String) : Decidable (NoSpace s) :=
  List.decidableBAll (fun c => isWhitespace c = false) s.toList

theorem dropWhile_eq_self_of_noSpace (h : ∀ c ∈ cs, isWhitespace c = false) :
    cs.dropWhile isWhitespace = cs := by
  cases cs with
  | nil => rfl
  | cons c cs => simp [List.dropWhile, h c (mem_cons_self ..)]

theorem trimList_of_noSpace (h : ∀ c ∈ cs, isWhitespace c = false) :
    trimList cs = cs := by
  have hr : ∀ c ∈ cs.reverse, isWhitespace c = false := fun c hc => h c (mem_reverse.mp hc)
  rw [trimList, dropWhile_eq_self_of_noSpace h, dropWhile_eq_self_of_noSpace hr, reverse_reverse]

/-- A text that starts and ends with a character that is not whitespace is
trimmed already. -/
theorem trimList_of_ends {b : Char} (ha : isWhitespace a = false)
    (hb : isWhitespace b = false) : trimList (a :: (cs ++ [b])) = a :: (cs ++ [b]) := by
  have h1 : (a :: (cs ++ [b])).dropWhile isWhitespace = a :: (cs ++ [b]) := by
    simp [List.dropWhile, ha]
  have h2 : (a :: (cs ++ [b])).reverse = b :: (a :: cs).reverse := by simp
  have h3 : (b :: (a :: cs).reverse).dropWhile isWhitespace = b :: (a :: cs).reverse := by
    simp [List.dropWhile, hb]
  rw [trimList, h1, h2, h3, ← h2, reverse_reverse]

/-! ## Splitting -/

/-- The pieces between the characters that `p` selects. -/
def pieces (p : Char → Bool) : List Char → List (List Char)
  | [] => [[]]
  | c :: cs =>
    if p c then [] :: pieces p cs
    else match pieces p cs with
      | [] => [[c]]
      | l :: ls => (c :: l) :: ls

/-- `str::split` at one character. -/
def split (sep : Char) (s : String) : List String :=
  (pieces (· == sep) s.toList).map String.ofList

/-- `str::split_whitespace`. -/
def splitWhitespace (s : String) : List String :=
  ((pieces isWhitespace s.toList).filter (· ≠ [])).map String.ofList

/-- The characters before and after the first one that is `sep`. -/
def splitOnceList (sep : Char) : List Char → Option (List Char × List Char)
  | [] => none
  | c :: cs =>
    if c = sep then some ([], cs)
    else (splitOnceList sep cs).map fun (l, r) => (c :: l, r)

/-- `str::split_once` at one character. -/
def splitOnce (sep : Char) (s : String) : Option (String × String) :=
  (splitOnceList sep s.toList).map fun (l, r) => (String.ofList l, String.ofList r)

/-- The lines between CRLF pairs. -/
def crlfLines : List Char → List (List Char)
  | [] => [[]]
  | '\r' :: '\n' :: cs => [] :: crlfLines cs
  | c :: cs =>
    match crlfLines cs with
    | [] => [[c]]
    | l :: ls => (c :: l) :: ls

/-- `str::split` at CRLF. -/
def splitCrlf (s : String) : List String := (crlfLines s.toList).map String.ofList

/-- A line that ended at a line feed, without the CR before it. -/
def stripCr (cs : List Char) : List Char := if cs.getLast? = some '\r' then cs.dropLast else cs

/-- The lines of the pieces between line feeds.  An empty last piece is no line. -/
def linesOf : List (List Char) → List (List Char)
  | [] => []
  | [l] => if l = [] then [] else [l]
  | l :: l' :: ls => stripCr l :: linesOf (l' :: ls)

/-- `str::lines`. -/
def lines (s : String) : List String :=
  (linesOf (pieces (· == '\n') s.toList)).map String.ofList

/-- `join` with a separator. -/
def join (sep : String) : List String → String
  | [] => ""
  | [s] => s
  | s :: t :: ss => s ++ sep ++ join sep (t :: ss)

theorem join_cons (sep t : String) : ∀ {ss : List String}, ss ≠ [] →
    join sep (t :: ss) = t ++ sep ++ join sep ss
  | [], h => absurd rfl h
  | _ :: _, _ => rfl

theorem mem_join {sep : String} : ∀ {ss : List String}, c ∈ (join sep ss).toList →
    c ∈ sep.toList ∨ ∃ s ∈ ss, c ∈ s.toList
  | [], h => by simp [join] at h
  | [s], h => .inr ⟨s, .head _, h⟩
  | s :: t :: ss, h => by
    rw [join, String.toList_append, String.toList_append, mem_append, mem_append] at h
    obtain (h | h) | h := h
    · exact .inr ⟨s, .head _, h⟩
    · exact .inl h
    · rcases mem_join h with h | ⟨u, hu, h⟩
      · exact .inl h
      · exact .inr ⟨u, .tail _ hu, h⟩

/-- A joined list with one part left open. -/
theorem join_hole (sep : String) (trail : List String) : ∀ lead : List String,
    ∃ l r : String, ∀ s, join sep (lead ++ s :: trail) = l ++ s ++ r
  | [] => by
    cases trail with
    | nil => exact ⟨"", "", fun s => by simp [join]⟩
    | cons t ts =>
      exact ⟨"", sep ++ join sep (t :: ts), fun s => by simp [join, String.append_assoc]⟩
  | t :: lead => by
    obtain ⟨l, r, h⟩ := join_hole sep trail lead
    refine ⟨t ++ sep ++ l, r, fun s => ?_⟩
    rw [cons_append, join_cons sep t (by simp), h]
    simp only [String.append_assoc]

/-- A part of a joined text is determined by the others. -/
theorem join_append_cons_inj {sep : String} (before after : List String)
    (h : join sep (before ++ s :: after) = join sep (before ++ t :: after)) : s = t := by
  induction before with
  | nil =>
    cases after with
    | nil => exact h
    | cons next after =>
      rw [nil_append, nil_append, join_cons sep s (cons_ne_nil _ _),
        join_cons sep t (cons_ne_nil _ _), String.append_left_inj, String.append_left_inj] at h
      exact h
  | cons first before ih =>
    rw [cons_append, cons_append, join_cons sep first (by simp),
      join_cons sep first (by simp), String.append_right_inj] at h
    exact ih h

/-- Joined lists that differ in one place differ. -/
theorem join_ne {sep : String} {l l' : List String} {k : Nat} (hlen : l.length = l'.length)
    (hsame : ∀ i, i ≠ k → l[i]? = l'[i]?) (hne : l[k]? ≠ l'[k]?) : join sep l ≠ join sep l' := by
  have hk : k < l.length := by
    by_contra hk
    rw [getElem?_eq_none (Nat.le_of_not_lt hk),
      getElem?_eq_none (hlen ▸ Nat.le_of_not_lt hk)] at hne
    exact hne rfl
  have htake : l.take k = l'.take k := by
    apply ext_getElem?
    intro i
    rw [getElem?_take, getElem?_take]
    split
    · exact hsame i (by omega)
    · rfl
  have hdrop : l.drop (k + 1) = l'.drop (k + 1) := by
    apply ext_getElem?
    intro i
    rw [getElem?_drop, getElem?_drop]
    exact hsame _ (by omega)
  obtain ⟨lead, trail, hjoin⟩ := join_hole sep (l.drop (k + 1)) (l.take k)
  have hl : l.take k ++ l[k] :: l.drop (k + 1) = l := by
    rw [← drop_eq_getElem_cons, take_append_drop]
  have hl' : l.take k ++ l'[k] :: l.drop (k + 1) = l' := by
    rw [htake, hdrop, ← drop_eq_getElem_cons, take_append_drop]
  intro heq
  rw [← hl, ← hl', hjoin, hjoin] at heq
  have hchars := congrArg String.toList heq
  simp only [String.toList_append, append_assoc, append_cancel_left_eq,
    append_cancel_right_eq] at hchars
  rw [getElem?_eq_getElem hk, getElem?_eq_getElem (hlen ▸ hk)] at hne
  exact hne (congrArg some (String.toList_injective hchars))

theorem pieces_of_none : ∀ {cs : List Char}, (∀ c ∈ cs, p c = false) →
    pieces p cs = [cs]
  | [], _ => rfl
  | c :: cs, h => by
    have hc := h c (mem_cons_self ..)
    have ih : pieces p cs = [cs] := pieces_of_none fun d hd => h d (mem_cons_of_mem _ hd)
    simp [pieces, hc, ih]

/-- A separator after characters that are not separators ends the first piece. -/
theorem pieces_append (ha : p a = true) (ds : List Char) :
    ∀ {cs : List Char}, (∀ c ∈ cs, p c = false) →
      pieces p (cs ++ a :: ds) = cs :: pieces p ds
  | [], _ => by simp [pieces, ha]
  | c :: cs, h => by
    have hc := h c (mem_cons_self ..)
    have ih : pieces p (cs ++ a :: ds) = cs :: pieces p ds :=
      pieces_append ha ds fun d hd => h d (mem_cons_of_mem _ hd)
    simp [pieces, hc, ih]

theorem pieces_ne_nil (p : Char → Bool) : ∀ cs : List Char, pieces p cs ≠ []
  | [] => by simp [pieces]
  | c :: cs => by
    rw [pieces]
    split
    · simp
    · split <;> simp

/-- A line that needs no change ends at the first line feed. -/
theorem linesOf_append (ds : List Char) (hlf : '\n' ∉ cs) (hcr : '\r' ∉ cs) :
    linesOf (pieces (· == '\n') (cs ++ '\n' :: ds)) = cs :: linesOf (pieces (· == '\n') ds) := by
  have hpieces : pieces (· == '\n') (cs ++ '\n' :: ds) = cs :: pieces (· == '\n') ds := by
    apply pieces_append (by simp)
    intro c hc
    simpa using ne_of_mem_of_not_mem hc hlf
  have hstrip : stripCr cs = cs := if_neg fun h => hcr (mem_of_getLast? h)
  rw [hpieces]
  obtain ⟨l, ls, hmore⟩ := exists_cons_of_ne_nil (pieces_ne_nil (· == '\n') ds)
  rw [hmore, linesOf, hstrip]

/-- Joined lines are split again, with or without a last line feed. -/
theorem lines_join {ending : String} (hending : ending = "" ∨ ending = "\n") :
    ∀ {ls : List String}, ls ≠ [] → (∀ l ∈ ls, l ≠ "" ∧ '\n' ∉ l.toList ∧ '\r' ∉ l.toList) →
      lines (join "\n" ls ++ ending) = ls
  | [], h, _ => absurd rfl h
  | [l], _, h => by
    obtain ⟨hne, hlf, hcr⟩ := h l (.head _)
    rw [join, lines, String.toList_append]
    obtain rfl | rfl := hending
    · have hpieces : pieces (· == '\n') l.toList = [l.toList] :=
        pieces_of_none fun c hc => by simpa using ne_of_mem_of_not_mem hc hlf
      have hchars : l.toList ≠ [] := by simpa using hne
      rw [String.toList_empty, append_nil, hpieces, linesOf, if_neg hchars]
      simp
    · have hline := linesOf_append [] hlf hcr
      show (linesOf (pieces (· == '\n') (l.toList ++ '\n' :: []))).map String.ofList = [l]
      rw [hline]
      simp [pieces, linesOf]
  | l :: l' :: ls, _, h => by
    obtain ⟨-, hlf, hcr⟩ := h l (.head _)
    have hrest := lines_join hending (cons_ne_nil l' ls) fun m hm => h m (.tail _ hm)
    have hchars : (join "\n" (l :: l' :: ls) ++ ending).toList =
        l.toList ++ '\n' :: (join "\n" (l' :: ls) ++ ending).toList := by simp [join]
    rw [lines, hchars, linesOf_append _ hlf hcr, map_cons, String.ofList_toList]
    exact congrArg (l :: ·) hrest

theorem splitOnceList_append (ds : List Char) :
    ∀ {cs : List Char}, sep ∉ cs → splitOnceList sep (cs ++ sep :: ds) = some (cs, ds)
  | [], _ => by simp [splitOnceList]
  | c :: cs, h => by
    rw [mem_cons, not_or] at h
    have hc : c ≠ sep := fun he => h.1 he.symm
    simp [splitOnceList, hc, splitOnceList_append ds h.2]

theorem splitOnceList_of_not_mem : ∀ {cs : List Char}, sep ∉ cs →
    splitOnceList sep cs = none
  | [], _ => rfl
  | c :: cs, h => by
    rw [mem_cons, not_or] at h
    have hc : c ≠ sep := fun he => h.1 he.symm
    simp [splitOnceList, hc, splitOnceList_of_not_mem h.2]

/-- A text with a separator is split at the first one. -/
theorem splitOnce_append (h : sep ∉ s.toList) (t : String) :
    splitOnce sep (s ++ String.ofList [sep] ++ t) = some (s, t) := by
  rw [splitOnce, String.toList_append, String.toList_append, String.toList_ofList,
    append_assoc, singleton_append, splitOnceList_append _ h]
  simp

theorem splitOnce_of_not_mem (h : sep ∉ s.toList) :
    splitOnce sep s = none := by
  rw [splitOnce, splitOnceList_of_not_mem h]
  rfl

/-- A text with a separator has parts before and after the first one. -/
theorem exists_of_mem (h : sep ∈ s.toList) :
    ∃ l r, s = l ++ String.ofList [sep] ++ r ∧ sep ∉ l.toList := by
  obtain ⟨l, r, heq, hl⟩ := eq_append_cons_of_mem h
  refine ⟨String.ofList l, String.ofList r, ?_, by rwa [String.toList_ofList]⟩
  apply String.toList_injective
  simp [heq]

/-- Texts without a separator are split again after they were joined. -/
theorem split_join : ∀ {ss : List String}, ss ≠ [] → (∀ s ∈ ss, sep ∉ s.toList) →
    split sep (join (String.ofList [sep]) ss) = ss
  | [], h, _ => absurd rfl h
  | [s], _, h => by
    have hpieces : pieces (· == sep) s.toList = [s.toList] :=
      pieces_of_none fun c hc => by simpa using ne_of_mem_of_not_mem hc (h s (.head _))
    rw [join, split, hpieces]
    simp
  | s :: t :: ss, _, h => by
    have hrest := split_join (cons_ne_nil t ss) fun u hu => h u (.tail _ hu)
    have hpieces := pieces_append (p := (· == sep)) (beq_self_eq_true sep)
      (join (String.ofList [sep]) (t :: ss)).toList
      (fun c hc => by simpa using ne_of_mem_of_not_mem hc (h s (.head _)))
    rw [split] at hrest
    rw [join, split, String.toList_append, String.toList_append, String.toList_ofList,
      append_assoc, singleton_append, hpieces, map_cons, hrest, String.ofList_toList]

/-- Every text is joined from parts without a separator. -/
theorem exists_join (sep : Char) (s : String) :
    ∃ ss, ss ≠ [] ∧ (∀ t ∈ ss, sep ∉ t.toList ∧ ∀ c ∈ t.toList, c ∈ s.toList) ∧
      s = join (String.ofList [sep]) ss := by
  induction hn : s.toList.length using Nat.strong_induction_on generalizing s with
  | _ n ih =>
  by_cases h : sep ∈ s.toList
  · obtain ⟨l, r, rfl, hl⟩ := exists_of_mem h
    obtain ⟨ss, hne, hss, hr⟩ := ih r.toList.length (by simp at hn; omega) r rfl
    refine ⟨l :: ss, cons_ne_nil _ _, ?_, by rw [join_cons _ _ hne, ← hr]⟩
    refine forall_mem_cons.mpr ⟨⟨hl, fun c hc => by simp [hc]⟩, fun t ht => ?_⟩
    obtain ⟨hsep, hchars⟩ := hss t ht
    exact ⟨hsep, fun c hc => by simp [hchars c hc]⟩
  · exact ⟨[s], cons_ne_nil _ _, by simpa using h, rfl⟩

/-- Words between single spaces. -/
theorem splitWhitespace_join : ∀ {ws : List String}, (∀ w ∈ ws, NoSpace w ∧ w ≠ "") →
    splitWhitespace (join " " ws) = ws
  | [], _ => rfl
  | [w], h => by
    obtain ⟨hspace, hne⟩ := h w (.head _)
    have hchars : w.toList ≠ [] := by simpa using hne
    rw [join, splitWhitespace, pieces_of_none hspace]
    simp [hchars]
  | w :: v :: ws, h => by
    obtain ⟨hspace, hne⟩ := h w (.head _)
    have hchars : w.toList ≠ [] := by simpa using hne
    have hrest := splitWhitespace_join fun u (hu : u ∈ v :: ws) => h u (.tail _ hu)
    have hpieces := pieces_append (p := isWhitespace) (a := ' ') (by decide)
      (join " " (v :: ws)).toList hspace
    rw [splitWhitespace] at hrest
    have hjoin : (join " " (w :: v :: ws)).toList =
        w.toList ++ ' ' :: (join " " (v :: ws)).toList := by
      simp [join]
    rw [splitWhitespace, hjoin, hpieces, filter_cons_of_pos (by simpa using hchars),
      map_cons, hrest, String.ofList_toList]

theorem crlfLines_cons (hc : c ≠ '\r') (cs : List Char) :
    crlfLines (c :: cs) =
      match crlfLines cs with
      | [] => [[c]]
      | l :: ls => (c :: l) :: ls := by
  rw [crlfLines]
  rintro ds ⟨rfl, -⟩
  exact absurd rfl hc

/-- A text without CR is one line. -/
theorem crlfLines_of_not_mem : ∀ {cs : List Char}, '\r' ∉ cs → crlfLines cs = [cs]
  | [], _ => rfl
  | c :: cs, h => by
    rw [mem_cons, not_or] at h
    rw [crlfLines_cons (fun he => h.1 he.symm), crlfLines_of_not_mem h.2]

/-- CRLF after a text without CR ends the first line. -/
theorem crlfLines_append (ds : List Char) : ∀ {cs : List Char}, '\r' ∉ cs →
    crlfLines (cs ++ '\r' :: '\n' :: ds) = cs :: crlfLines ds
  | [], _ => rfl
  | c :: cs, h => by
    rw [mem_cons, not_or] at h
    rw [cons_append, crlfLines_cons (fun he => h.1 he.symm), crlfLines_append ds h.2]

/-- Lines that start with CRLF, after a first one. -/
theorem crlfLines_flatMap (lines : List (List Char)) (hl : ∀ l ∈ lines, '\r' ∉ l) :
    ∀ {cs : List Char}, '\r' ∉ cs →
      crlfLines (cs ++ lines.flatMap fun l => '\r' :: '\n' :: l) = cs :: lines := by
  induction lines with
  | nil =>
    intro cs hc
    simp [crlfLines_of_not_mem hc]
  | cons l lines ih =>
    intro cs hc
    rw [forall_mem_cons] at hl
    rw [flatMap_cons, cons_append, cons_append, crlfLines_append _ hc, ih hl.2 hl.1]

/-! ## Letter case -/

/-- `str::to_ascii_lowercase`. -/
def toAsciiLowercase (s : String) : String := String.ofList (s.toList.map Char.toLower)

/-- `str::to_ascii_uppercase`. -/
def toAsciiUppercase (s : String) : String := String.ofList (s.toList.map Char.toUpper)

/-- `str::eq_ignore_ascii_case`. -/
def eqIgnoreAsciiCase (s t : String) : Bool := toAsciiLowercase s == toAsciiLowercase t

theorem eqIgnoreAsciiCase_iff :
    eqIgnoreAsciiCase s t = true ↔ toAsciiLowercase s = toAsciiLowercase t := by
  simp [eqIgnoreAsciiCase]

/-- Texts that differ in letter case only are equal to the same texts. -/
theorem eqIgnoreAsciiCase_congr (h : eqIgnoreAsciiCase s t = true) (u : String) :
    eqIgnoreAsciiCase s u = eqIgnoreAsciiCase t u := by
  rw [eqIgnoreAsciiCase, eqIgnoreAsciiCase, eqIgnoreAsciiCase_iff.mp h]

/-- Whitespace has no letter case. -/
theorem toLower_of_isWhitespace (h : isWhitespace c = true) : c.toLower = c := by
  have hn : ¬ (65 ≤ c.toNat ∧ c.toNat ≤ 90) := by
    simp only [isWhitespace, Bool.or_eq_true, Bool.and_eq_true, decide_eq_true_eq, beq_iff_eq] at h
    omega
  rw [Char.toLower]
  refine dif_neg ?_
  rintro ⟨h1, h2⟩
  exact hn ⟨UInt32.le_iff_toNat_le.mp h1, UInt32.le_iff_toNat_le.mp h2⟩

/-- A text is free of whitespace when a text with the same letters is. -/
theorem noSpace_of_eqIgnoreAsciiCase (h : eqIgnoreAsciiCase s t = true)
    (ht : NoSpace (toAsciiLowercase t)) : NoSpace s := by
  intro c hc
  cases hw : isWhitespace c with
  | false => rfl
  | true =>
    have hm : c ∈ (toAsciiLowercase t).toList := by
      rw [← eqIgnoreAsciiCase_iff.mp h, toAsciiLowercase, String.toList_ofList, mem_map]
      exact ⟨c, hc, toLower_of_isWhitespace hw⟩
    rw [← hw]
    exact ht c hm

@[simp] theorem eqIgnoreAsciiCase_refl (s : String) : eqIgnoreAsciiCase s s = true := by
  simp [eqIgnoreAsciiCase]

/-! ## Prefixes, suffixes and substrings -/

/-- `str::starts_with` a text. -/
def startsWith (s pat : String) : Bool := pat.toList.isPrefixOf s.toList

/-- `str::ends_with` a text. -/
def endsWith (s pat : String) : Bool := pat.toList.reverse.isPrefixOf s.toList.reverse

/-- Whether `pat` stands somewhere in a list of characters. -/
def containsList (pat : List Char) : List Char → Bool
  | [] => pat.isEmpty
  | c :: cs => pat.isPrefixOf (c :: cs) || containsList pat cs

/-- `str::contains` a text. -/
def contains (s pat : String) : Bool := containsList pat.toList s.toList

/-! ## Numbers -/

/-- A byte in two lower-case hexadecimal digits, the format `02x`. -/
def hex2 (b : UInt8) : String :=
  String.ofList [Nat.digitChar (b.toNat / 16), Nat.digitChar (b.toNat % 16)]

/-- The value of a digit, `char::to_digit`. -/
def digit (radix : Nat) (c : Char) : Option Nat :=
  let n := c.toNat
  let v :=
    if 0x30 ≤ n ∧ n ≤ 0x39 then n - 0x30
    else if 0x61 ≤ n ∧ n ≤ 0x7a then n - 0x61 + 10
    else if 0x41 ≤ n ∧ n ≤ 0x5a then n - 0x41 + 10
    else radix
  if v < radix then some v else none

/-- Read digits onto an accumulator.  A value of `limit` or more is an overflow. -/
def readDigits (radix limit : Nat) : Nat → List Char → Option Nat
  | acc, [] => some acc
  | acc, c :: cs =>
    match digit radix c with
    | none => none
    | some d => if acc * radix + d < limit then readDigits radix limit (acc * radix + d) cs
        else none

/-- `from_str_radix` of an unsigned type with `limit` values. -/
def parseUnsigned (radix limit : Nat) (s : String) : Option Nat :=
  match s.toList with
  | [] => none
  | ['+'] => none
  | '+' :: cs => readDigits radix limit 0 cs
  | cs => readDigits radix limit 0 cs

/-- `parse::<usize>` on a 64-bit target. -/
def parseUsize (s : String) : Option Nat := parseUnsigned 10 (2 ^ 64) s

/-- `parse::<u16>`. -/
def parseU16 (s : String) : Option Nat := parseUnsigned 10 (2 ^ 16) s

/-- `parse::<i64>`. -/
def parseI64 (s : String) : Option Int :=
  match s.toList with
  | [] => none
  | ['+'] => none
  | ['-'] => none
  | '+' :: cs => (readDigits 10 (2 ^ 63) 0 cs).map Int.ofNat
  | '-' :: cs => (readDigits 10 (2 ^ 63 + 1) 0 cs).map fun n => -(n : Int)
  | cs => (readDigits 10 (2 ^ 63) 0 cs).map Int.ofNat

/-- The value of a list of digits, with no bound. -/
def digitsValue (radix : Nat) : Nat → List Char → Option Nat
  | acc, [] => some acc
  | acc, c :: cs => (digit radix c).bind fun d => digitsValue radix (acc * radix + d) cs

/-- A nonempty text of digits with value `n`: what a sender writes for `n`, with
any letter case and any number of leading zeros. -/
def Numeral (radix n : Nat) (s : String) : Prop :=
  s ≠ "" ∧ digitsValue radix 0 s.toList = some n

instance (radix n : Nat) (s : String) : Decidable (Numeral radix n s) := by
  unfold Numeral; infer_instance

theorem le_digitsValue (hr : 0 < radix) : ∀ {cs : List Char} {acc n : Nat},
    digitsValue radix acc cs = some n → acc ≤ n
  | [], acc, n, h => by
    injection h with h
    omega
  | c :: cs, acc, n, h => by
    rw [digitsValue, Option.bind_eq_some_iff] at h
    obtain ⟨d, _, hd⟩ := h
    have h1 := le_digitsValue hr hd
    have h2 : acc * 1 ≤ acc * radix := Nat.mul_le_mul_left acc hr
    omega

/-- Below the bound, reading with an overflow check is reading without one. -/
theorem readDigits_of_digitsValue (hr : 0 < radix) :
    ∀ {cs : List Char} {acc n : Nat}, digitsValue radix acc cs = some n → n < limit →
      readDigits radix limit acc cs = some n
  | [], acc, n, h, _ => h
  | c :: cs, acc, n, h, hn => by
    rw [digitsValue, Option.bind_eq_some_iff] at h
    obtain ⟨d, hd, hv⟩ := h
    have hle := le_digitsValue hr hv
    rw [readDigits, hd]
    dsimp only
    rw [if_pos (by omega)]
    exact readDigits_of_digitsValue hr hv hn

theorem digit_plus (radix : Nat) : digit radix '+' = none := by
  simp [digit, show '+'.toNat = 43 from rfl]

theorem digitsValue_append (radix : Nat) (cs ds : List Char) : ∀ acc,
    digitsValue radix acc (cs ++ ds) =
      (digitsValue radix acc cs).bind fun n => digitsValue radix n ds := by
  induction cs with
  | nil => intro acc; rfl
  | cons c cs ih =>
    intro acc
    cases hd : digit radix c with
    | none => simp [digitsValue, hd]
    | some d => simp [digitsValue, hd, ih]

theorem digit_digitChar {d : Nat} (h : d < 10) : digit 10 d.digitChar = some d := by
  interval_cases d <;> rfl

/-- What `to_string` writes for a number is a numeral of it. -/
theorem digitsValue_toDigits (n : Nat) : digitsValue 10 0 (Nat.toDigits 10 n) = some n := by
  induction n using Nat.strong_induction_on with
  | _ n ih =>
  by_cases hn : n < 10
  · rw [Nat.toDigits_of_lt_base hn]
    simp [digitsValue, digit_digitChar hn]
  · have hlow : n % 10 < 10 := Nat.mod_lt _ (by omega)
    rw [Nat.toDigits_of_base_le (by omega) (by omega), digitsValue_append,
      ih (n / 10) (by omega), Option.bind_some, digitsValue, digit_digitChar hlow, Option.bind_some,
      digitsValue, Nat.div_add_mod']

/-- The characters of a numeral are digits. -/
theorem not_mem_of_digitsValue (hc : digit radix c = none) :
    ∀ {cs : List Char} {acc n : Nat}, digitsValue radix acc cs = some n → c ∉ cs
  | [], _, _, _ => not_mem_nil
  | d :: cs, acc, n, h => by
    rw [digitsValue, Option.bind_eq_some_iff] at h
    obtain ⟨v, hv, hrest⟩ := h
    rw [mem_cons, not_or]
    refine ⟨?_, not_mem_of_digitsValue hc hrest⟩
    rintro rfl
    rw [hc] at hv
    cases hv

theorem toList_toString (n : Nat) : (toString n).toList = Nat.toDigits 10 n := by
  rw [Nat.toString_eq_repr, Nat.repr_eq_ofList_toDigits, String.toList_ofList]

theorem numeral_toString (n : Nat) : Numeral 10 n (toString n) := by
  have hlist := toList_toString n
  refine ⟨?_, ?_⟩
  · intro h
    rw [h] at hlist
    exact Nat.toDigits_ne_nil hlist.symm
  · rw [hlist]
    exact digitsValue_toDigits n

/-- What is read below the bound is the value of the digits. -/
theorem digitsValue_of_readDigits :
    ∀ {cs : List Char} {acc n : Nat}, readDigits radix limit acc cs = some n →
      digitsValue radix acc cs = some n
  | [], _, _, h => h
  | c :: cs, acc, n, h => by
    cases hd : digit radix c with
    | none => simp [readDigits, hd] at h
    | some d =>
      simp only [readDigits, hd] at h
      split at h
      · rw [digitsValue, hd, Option.bind_some]
        exact digitsValue_of_readDigits h
      · cases h

theorem digit_minus (radix : Nat) : digit radix '-' = none := by
  simp [digit, show '-'.toNat = 45 from rfl]

/-- A numeral has no sign. -/
theorem parseI64_numeral (h : Numeral 10 n s) :
    parseI64 s = (readDigits 10 (2 ^ 63) 0 s.toList).map Int.ofNat := by
  obtain ⟨hne, hv⟩ := h
  unfold parseI64
  cases hs : s.toList with
  | nil => exact absurd (String.toList_eq_nil_iff.mp hs) hne
  | cons c cs =>
    rw [hs] at hv
    have hplus : c ≠ '+' := by
      rintro rfl
      rw [digitsValue, digit_plus] at hv
      cases hv
    have hminus : c ≠ '-' := by
      rintro rfl
      rw [digitsValue, digit_minus] at hv
      cases hv
    split
    next h1 => cases h1
    next h1 => injection h1 with h1 _; exact absurd h1 hplus
    next h1 => injection h1 with h1 _; exact absurd h1 hminus
    next h1 => injection h1 with h1 _; exact absurd h1 hplus
    next h1 => injection h1 with h1 _; exact absurd h1 hminus
    next => rfl

theorem parseI64_of_numeral (h : Numeral 10 n s) (hn : n < 2 ^ 63) :
    parseI64 s = some (n : Int) := by
  rw [parseI64_numeral h, readDigits_of_digitsValue (by omega) h.2 hn]
  rfl

theorem eq_of_parseI64 {i : Int} (h : Numeral 10 n s) (hp : parseI64 s = some i) : i = n := by
  rw [parseI64_numeral h, Option.map_eq_some_iff] at hp
  obtain ⟨m, hm, rfl⟩ := hp
  have hv := digitsValue_of_readDigits hm
  rw [h.2] at hv
  cases hv
  rfl

end Str
