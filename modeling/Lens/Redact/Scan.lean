import Lens.Redact.Sql

/-!
# Runs of the SQL scanner

`Scans previous a rest out changed last` says that the scanner, with `a` and then
`rest` in front of it, takes turns that end where `rest` begins.  It pushed `out`
and `last` is the character before `rest`.  The relation composes along
concatenation and determines the loop (`Scans.loop`).

The scanner looks ahead by one character, and by a whole constant only where it
then takes the constant.  So a run up to `rest` is a run up to any part of `rest`
that is cut off at the end and not empty (`Scans.shorten`).
-/

namespace Lens.Redact

open List

variable {cs : List Char} {c : Char} {previous : Option Char}

/-! ## Turns -/

/-- A delimiter and where it stands again. -/
theorem dollarQuote_eq_some {delimiter : List Char} {taken : Nat} :
    dollarQuote cs = some (delimiter, taken) ↔
      ∃ delimiterEnd contentLen, dollarDelimiterEnd cs = some delimiterEnd ∧
        delimiter = cs.take delimiterEnd ∧
        Search.find delimiter (cs.drop delimiterEnd) = some contentLen ∧
        taken = delimiterEnd + contentLen + delimiter.length := by
  rw [dollarQuote]
  cases dollarDelimiterEnd cs with
  | none => simp
  | some delimiterEnd =>
    cases hfind : Search.find (cs.take delimiterEnd) (cs.drop delimiterEnd) with
    | none =>
      simp only [hfind, reduceCtorEq, Option.some.injEq, false_iff]
      rintro ⟨_, _, rfl, rfl, hf, -⟩
      rw [hfind] at hf
      cases hf
    | some contentLen =>
      simp only [hfind, Option.some.injEq, Prod.mk.injEq]
      constructor
      · rintro ⟨rfl, rfl⟩
        exact ⟨_, _, rfl, rfl, hfind, rfl⟩
      · rintro ⟨_, _, rfl, rfl, hf, rfl⟩
        rw [hfind, Option.some.injEq] at hf
        exact ⟨rfl, by rw [hf]⟩

theorem dollarDelimiterEnd_pos {delimiterEnd : Nat}
    (h : dollarDelimiterEnd cs = some delimiterEnd) : 0 < delimiterEnd := by
  cases cs with
  | nil => cases h
  | cons c cs =>
    rw [dollarDelimiterEnd] at h
    split at h
    · rw [Option.map_eq_some_iff] at h
      obtain ⟨e, -, rfl⟩ := h
      exact Nat.succ_pos _
    · cases h

/-- Every turn takes a character. -/
theorem sqlStep_pos (previous : Option Char) (c : Char) (rest : List Char) :
    0 < (sqlStep previous (c :: rest)).2.2 := by
  rw [sqlStep]
  split
  · exact Nat.succ_pos _
  split
  · exact Nat.succ_pos _
  split
  · rw [lineComment]
    split
    · exact Nat.succ_pos _
    next hlen =>
      rw [length_cons] at hlen
      simp only
      omega
  split
  · rw [blockComment]
    split
    · simp only
      omega
    · exact Nat.succ_pos _
  split
  next hquote =>
    obtain ⟨delimiterEnd, contentLen, hend, -, -, rfl⟩ := dollarQuote_eq_some.mp hquote
    have hpos := dollarDelimiterEnd_pos hend
    simp only
    omega
  split
  · simp only
    omega
  · exact Nat.one_pos

/-- The loop does not depend on a bound that is large enough. -/
theorem sqlLoop_eq : ∀ (n m : Nat) (previous : Option Char) (cs : List Char), cs.length ≤ n →
    cs.length ≤ m → sqlLoop n previous cs = sqlLoop m previous cs := by
  intro n
  induction n with
  | zero =>
    intro m previous cs hn hm
    have hcs : cs = [] := eq_nil_of_length_eq_zero (by omega)
    cases m with
    | zero => rfl
    | succ m => simp [hcs, sqlLoop]
  | succ n ih =>
    intro m previous cs hn hm
    cases cs with
    | nil =>
      cases m with
      | zero => rfl
      | succ m => rfl
    | cons c rest =>
      cases m with
      | zero => simp at hm
      | succ m =>
        have hpos := sqlStep_pos previous c rest
        have hlen : ((c :: rest).drop (sqlStep previous (c :: rest)).2.2).length ≤ rest.length := by
          simp only [length_drop, length_cons]
          omega
        simp only [length_cons] at hn hm
        simp only [sqlLoop, isEmpty_cons, Bool.false_eq_true, if_false]
        rw [ih m _ _ (by omega) (by omega)]

/-- The scanner from a character on. -/
def scan (previous : Option Char) (cs : List Char) : List Char × Bool :=
  sqlLoop cs.length previous cs

@[simp] theorem scan_nil (previous : Option Char) : scan previous [] = ([], false) := rfl

/-- One turn and the rest of the run. -/
theorem scan_step {t u o : List Char} {changed : Bool} (ht : t ≠ [])
    (h : sqlStep previous (t ++ u) = (o, changed, t.length)) : scan previous (t ++ u) =
      (o ++ (scan t.getLast? u).1, changed || (scan t.getLast? u).2) := by
  cases t with
  | nil => exact absurd rfl ht
  | cons c t =>
    rw [scan, length_append, length_cons, Nat.succ_add, sqlLoop]
    simp only [cons_append, isEmpty_cons, Bool.false_eq_true, if_false]
    rw [cons_append] at h
    simp only [h]
    rw [← cons_append, take_left, drop_left, scan,
      sqlLoop_eq (t.length + u.length) u.length _ u (Nat.le_add_left ..) (Nat.le_refl _)]

/-! ## Less to look ahead to

A turn that takes `t` in front of `u` takes it in front of any `v` that `u` starts
with, as long as `v` is not empty. -/

section Shorten

variable {t delimiter u v o : List Char} {k : Nat} {d : Char} {changed : Bool}

theorem quotedLength_pos (q c : Char) (cs : List Char) : 0 < quotedLength q (c :: cs) := by
  cases cs with
  | nil => exact Nat.one_pos
  | cons d cs =>
    rw [quotedLength]
    split
    · split
      · exact Nat.succ_pos _
      · exact Nat.one_pos
    · exact Nat.succ_pos _

/-- A token that closed before the rest closes before less of it. -/
theorem quotedLength_shorten (q d : Char) (u v : List Char) : ∀ t : List Char,
    quotedLength q (t ++ d :: u) = t.length → quotedLength q (t ++ d :: v) = t.length
  | [], h => by
    have hpos := quotedLength_pos q d u
    rw [nil_append, length_nil] at h
    omega
  | [c], h => by
    have hpos := quotedLength_pos q d u
    simp only [cons_append, nil_append, quotedLength, length_singleton] at h ⊢
    split at h
    next hc =>
      split at h
      · omega
      next hd => rw [if_pos hc, if_neg hd]
    next hc => omega
  | c :: c' :: t, h => by
    simp only [cons_append, quotedLength, length_cons] at h ⊢
    split at h
    next hc =>
      split at h
      next hc' =>
        have ih := quotedLength_shorten q d u v t (by omega)
        rw [if_pos hc, if_pos hc', ih]
      · omega
    next hc =>
      have ih := quotedLength_shorten q d u v (c' :: t)
        (by simp only [cons_append, length_cons]; omega)
      rw [cons_append] at ih
      rw [if_neg hc, ih, length_cons]

/-- The end of a delimiter is inside the text. -/
theorem delimiterTail_bounds : ∀ {t : List Char} {k : Nat}, delimiterTail t = some k →
    0 < k ∧ k ≤ t.length
  | [], _, h => by cases h
  | c :: t, k, h => by
    rw [delimiterTail] at h
    split at h
    · cases h
      exact ⟨Nat.one_pos, Nat.succ_pos _⟩
    · split at h
      · cases h
      · rw [Option.map_eq_some_iff] at h
        obtain ⟨k', hk', rfl⟩ := h
        have hle := (delimiterTail_bounds hk').2
        exact ⟨Nat.succ_pos _, Nat.succ_le_succ hle⟩

/-- A delimiter is found with whatever follows, and without what follows it. -/
theorem delimiterTail_append : ∀ {t : List Char} {k : Nat} (u : List Char),
    delimiterTail t = some k → delimiterTail (t ++ u) = some k
  | [], _, _, h => by cases h
  | c :: t, k, u, h => by
    rw [delimiterTail] at h
    rw [cons_append, delimiterTail]
    split at h
    next hc => rw [if_pos hc, h]
    next hc =>
      split at h
      · cases h
      next hw =>
        rw [Option.map_eq_some_iff] at h
        obtain ⟨k', hk', rfl⟩ := h
        rw [if_neg hc, if_neg hw, delimiterTail_append u hk']
        rfl

theorem delimiterTail_of_append : ∀ {t : List Char} {k : Nat} (u : List Char),
    delimiterTail (t ++ u) = some k → k ≤ t.length → delimiterTail t = some k
  | [], k, u, h, hk => by
    have hpos := (delimiterTail_bounds h).1
    rw [length_nil] at hk
    omega
  | c :: t, k, u, h, hk => by
    rw [cons_append, delimiterTail] at h
    rw [delimiterTail]
    split at h
    next hc => rw [if_pos hc, h]
    next hc =>
      split at h
      · cases h
      next hw =>
        rw [Option.map_eq_some_iff] at h
        obtain ⟨k', hk', rfl⟩ := h
        rw [length_cons] at hk
        rw [if_neg hc, if_neg hw, delimiterTail_of_append u hk' (by omega)]
        rfl

theorem dollarDelimiterEnd_append (u : List Char)
    (h : dollarDelimiterEnd t = some k) : dollarDelimiterEnd (t ++ u) = some k := by
  cases t with
  | nil => cases h
  | cons c t =>
    rw [dollarDelimiterEnd] at h
    rw [cons_append, dollarDelimiterEnd]
    split at h
    next hc =>
      rw [Option.map_eq_some_iff] at h
      obtain ⟨k', hk', rfl⟩ := h
      rw [if_pos hc, delimiterTail_append u hk']
      rfl
    · cases h

theorem dollarDelimiterEnd_of_append (u : List Char) (h : dollarDelimiterEnd (t ++ u) = some k)
    (hk : k ≤ t.length) :
    dollarDelimiterEnd t = some k := by
  have hpos := dollarDelimiterEnd_pos h
  cases t with
  | nil =>
    rw [length_nil] at hk
    omega
  | cons c t =>
    rw [cons_append, dollarDelimiterEnd] at h
    rw [dollarDelimiterEnd]
    split at h
    next hc =>
      rw [Option.map_eq_some_iff] at h
      obtain ⟨k', hk', rfl⟩ := h
      rw [length_cons] at hk
      rw [if_pos hc, delimiterTail_of_append u hk' (by omega)]
      rfl
    · cases h

theorem dollarDelimiterEnd_le (h : dollarDelimiterEnd cs = some k) : k ≤ cs.length := by
  cases cs with
  | nil => cases h
  | cons c cs =>
    rw [dollarDelimiterEnd] at h
    split at h
    · rw [Option.map_eq_some_iff] at h
      obtain ⟨k', hk', rfl⟩ := h
      exact Nat.succ_le_succ (delimiterTail_bounds hk').2
    · cases h

/-- A constant is found with whatever follows. -/
theorem dollarQuote_append (u : List Char)
    (h : dollarQuote t = some (delimiter, k)) : dollarQuote (t ++ u) = some (delimiter, k) := by
  obtain ⟨e, len, hend, rfl, hfind, rfl⟩ := dollarQuote_eq_some.mp h
  have hle := dollarDelimiterEnd_le hend
  refine dollarQuote_eq_some.mpr ⟨e, len, dollarDelimiterEnd_append u hend, ?_, ?_, rfl⟩
  · rw [take_append_of_le_length hle]
  · rw [drop_append_of_le_length hle]
    exact Search.find_append u hfind

/-- A constant inside the text taken is found without what follows. -/
theorem dollarQuote_of_append (u : List Char) (h : dollarQuote (t ++ u) = some (delimiter, k))
    (hk : k ≤ t.length) :
    dollarQuote t = some (delimiter, k) := by
  obtain ⟨e, len, hend, rfl, hfind, rfl⟩ := dollarQuote_eq_some.mp h
  have hle : e ≤ t.length := by omega
  rw [take_append_of_le_length hle] at hfind hk ⊢
  rw [drop_append_of_le_length hle] at hfind
  refine dollarQuote_eq_some.mpr ⟨e, len, dollarDelimiterEnd_of_append u hend hle, rfl, ?_, rfl⟩
  refine Search.find_of_append u hfind ?_
  rw [length_drop]
  omega

/-- A scan that stopped before the rest stops before less of it. -/
theorem takeWhile_shorten {p : Char → Bool}
    (h : ((t ++ d :: u).takeWhile p).length = t.length) : (t ++ d :: v).takeWhile p = t := by
  rw [takeWhile_append] at h ⊢
  split at h
  next hall =>
    have hd : p d = false := by
      rw [takeWhile_cons] at h
      cases hd : p d with
      | false => rfl
      | true => simp [hd] at h
    rw [if_pos hall, takeWhile_cons, hd]
    simp
  next hall => exact absurd h hall

theorem startsLineComment_cons (c : Char) (cs : List Char) :
    startsLineComment (c :: cs) = (c == '-' && cs.head? == some '-') := by
  rw [startsLineComment, show "--".toList = ['-', '-'] from rfl]
  cases cs with
  | nil => simp [List.isPrefixOf]
  | cons d cs => simp [List.isPrefixOf, BEq.comm]

theorem startsBlockComment_cons (c : Char) (cs : List Char) :
    startsBlockComment (c :: cs) = (c == '/' && cs.head? == some '*') := by
  rw [startsBlockComment, show "/*".toList = ['/', '*'] from rfl]
  cases cs with
  | nil => simp [List.isPrefixOf]
  | cons d cs => simp [List.isPrefixOf, BEq.comm]

/-- A line comment that ended before the rest ends before less of it. -/
theorem lineComment_shorten (h : lineComment (t ++ d :: u) = (o, changed, t.length)) :
    lineComment (t ++ d :: v) = (o, changed, t.length) := by
  rw [lineComment] at h
  split at h
  next hlt =>
    simp only [Prod.mk.injEq] at h
    obtain ⟨rfl, rfl, hlen⟩ := h
    have hall : ¬ (t.takeWhile (· ≠ '\n')).length = t.length := by
      intro hall
      rw [takeWhile_append, if_pos hall, length_append] at hlen
      omega
    rw [takeWhile_append, if_neg hall] at hlen
    rw [lineComment, takeWhile_append, if_neg hall, if_pos, hlen]
    rw [length_append, length_cons]
    omega
  next hlt =>
    simp only [Prod.mk.injEq] at h
    obtain ⟨-, -, hlen⟩ := h
    rw [hlen, length_append, length_cons] at hlt
    omega

/-- A block comment that ended before the rest ends before less of it. -/
theorem blockComment_shorten (h : blockComment (t ++ d :: u) = (o, changed, t.length)) :
    blockComment (t ++ d :: v) = (o, changed, t.length) := by
  rw [blockComment] at h
  split at h
  next offset hfind =>
    simp only [Prod.mk.injEq] at h
    obtain ⟨rfl, rfl, hlen⟩ := h
    rw [drop_append_of_le_length (by omega)] at hfind
    have hin : Search.find "*/".toList (t.drop 2) = some offset := by
      refine Search.find_of_append _ hfind ?_
      rw [length_drop, show "*/".toList.length = 2 from rfl]
      omega
    rw [blockComment, drop_append_of_le_length (by omega), Search.find_append _ hin]
    simp only [hlen]
  next hfind =>
    simp only [Prod.mk.injEq, length_append, length_cons] at h
    omega

/-- A turn that ended before the rest ends before less of it. -/
theorem sqlStep_shorten {previous : Option Char} (hv : v <+: u) (ht : t ≠ [])
    (h : sqlStep previous (t ++ d :: u) = (o, changed, t.length)) :
    sqlStep previous (t ++ d :: v) = (o, changed, t.length) := by
  cases t with
  | nil => exact absurd rfl ht
  | cons c t =>
    have hhead : (t ++ d :: v).head? = (t ++ d :: u).head? := by
      cases t with
      | nil => rfl
      | cons e t => rfl
    rw [cons_append, sqlStep] at h ⊢
    rw [startsLineComment_cons, startsBlockComment_cons] at h ⊢
    rw [hhead]
    split at h
    next hq =>
      -- A quoted identifier is pushed as it stands.
      simp only [Prod.mk.injEq, length_cons, Nat.add_right_cancel_iff] at h
      obtain ⟨rfl, rfl, hlen⟩ := h
      have htake : ∀ w, (c :: (t ++ d :: w)).take (t.length + 1) = c :: t := by
        intro w
        rw [take_succ_cons, take_left]
      simp only [if_pos hq, hlen, quotedLength_shorten '"' d u v t hlen, length_cons, htake]
    next hq =>
    rw [if_neg hq]
    split at h
    next hs =>
      simp only [Prod.mk.injEq, length_cons, Nat.add_right_cancel_iff] at h
      obtain ⟨rfl, rfl, hlen⟩ := h
      rw [if_pos hs, quotedLength_shorten '\'' d u v t hlen, length_cons]
    next hs =>
    rw [if_neg hs]
    split at h
    next hl =>
      rw [if_pos hl]
      exact lineComment_shorten (t := c :: t) h
    next hl =>
    rw [if_neg hl]
    split at h
    next hb =>
      rw [if_pos hb]
      exact blockComment_shorten (t := c :: t) h
    next hb =>
    rw [if_neg hb]
    split at h
    next delimiter taken hquote =>
      simp only [Prod.mk.injEq] at h
      obtain ⟨rfl, rfl, rfl⟩ := h
      have hin := dollarQuote_of_append (t := c :: t) (d :: u) hquote (Nat.le_refl _)
      have hout := dollarQuote_append (d :: v) hin
      rw [cons_append] at hout
      rw [hout]
    next hquote =>
      have hout : dollarQuote (c :: (t ++ d :: v)) = none := by
        obtain ⟨w, rfl⟩ := hv
        cases hsome : dollarQuote (c :: (t ++ d :: v)) with
        | none => rfl
        | some r =>
          have hlong := dollarQuote_append w hsome
          rw [cons_append, append_assoc, cons_append, hquote] at hlong
          cases hlong
      have hnumber : isNumberStart previous (c :: (t ++ d :: v)) =
          isNumberStart previous (c :: (t ++ d :: u)) := by
        rw [isNumberStart, isNumberStart, hhead]
      rw [hout]
      simp only [hnumber]
      split at h
      next hn =>
        simp only [Prod.mk.injEq, length_cons] at h
        obtain ⟨rfl, rfl, hlen⟩ := h
        have hstop : ((t ++ d :: u).takeWhile isNumberTail).length = t.length := by omega
        have hstop' : (t ++ d :: v).takeWhile isNumberTail = t := takeWhile_shorten hstop
        rw [if_pos hn, hstop', length_cons, Nat.add_comm]
      next hn =>
        simp only [Prod.mk.injEq] at h
        obtain ⟨rfl, rfl, hlen⟩ := h
        rw [if_neg hn, hlen]

end Shorten

/-! ## Characters that begin nothing -/

/-- A character that begins no token of its own. -/
def isQuiet (c : Char) : Bool := !(['"', '\'', '-', '/', '$'].contains c) && !c.isDigit

/-- A character that begins no constant and no comment is pushed as it stands. -/
theorem sqlStep_push {rest : List Char} (hq : c ≠ '"') (hs : c ≠ '\'')
    (hline : startsLineComment (c :: rest) = false)
    (hblock : startsBlockComment (c :: rest) = false) (hquote : dollarQuote (c :: rest) = none)
    (hnumber : isNumberStart previous (c :: rest) = false) :
    sqlStep previous (c :: rest) = ([c], false, 1) := by
  simp [sqlStep, hq, hs, hline, hblock, hquote, hnumber]

theorem sqlStep_quiet (hc : isQuiet c = true) (previous : Option Char)
    (rest : List Char) : sqlStep previous (c :: rest) = ([c], false, 1) := by
  simp only [isQuiet, contains_cons, contains_nil, Bool.or_false, Bool.and_eq_true,
    Bool.not_eq_true', Bool.or_eq_false_iff, beq_eq_false_iff_ne] at hc
  obtain ⟨⟨h1, h2, h3, h4, h5⟩, hdigit⟩ := hc
  refine sqlStep_push h1 h2 ?_ ?_ ?_ ?_
  · simp [startsLineComment_cons, h3]
  · simp [startsBlockComment_cons, h4]
  · simp [dollarQuote, dollarDelimiterEnd, h5]
  · simp [isNumberStart, hdigit]

/-! ## Runs -/

/-- The scanner takes turns over `a` in front of `rest`. -/
inductive Scans : Option Char → List Char → List Char → List Char → Bool → Option Char → Prop where
  | nil (previous : Option Char) (rest : List Char) : Scans previous [] rest [] false previous
  | step {previous last : Option Char} {t a rest o out : List Char} {changed changed' : Bool} :
      t ≠ [] → sqlStep previous (t ++ (a ++ rest)) = (o, changed, t.length) →
      Scans t.getLast? a rest out changed' last →
      Scans previous (t ++ a) rest (o ++ out) (changed || changed') last

namespace Scans

variable {last : Option Char} {a rest out : List Char} {changed : Bool}

/-- One turn is a run. -/
theorem single {o : List Char} (ha : a ≠ [])
    (h : sqlStep previous (a ++ rest) = (o, changed, a.length)) :
    Scans previous a rest o changed a.getLast? := by
  have hnil := Scans.nil a.getLast? rest
  have hstep := Scans.step (a := []) ha h hnil
  simpa using hstep

/-- One run after another. -/
theorem append {middle : Option Char} {b out' : List Char} {changed' : Bool}
    (h : Scans previous a (b ++ rest) out changed middle)
    (h' : Scans middle b rest out' changed' last) :
    Scans previous (a ++ b) rest (out ++ out') (changed || changed') last := by
  generalize hr : b ++ rest = r at h
  induction h with
  | nil => simpa using h'
  | step ht hstep _ ih =>
    subst hr
    rw [append_assoc, append_assoc, Bool.or_assoc]
    refine .step ht ?_ (ih h' rfl)
    rw [append_assoc]
    exact hstep

/-- A character pushed as it stands and the rest of the run. -/
theorem push {c : Char} (h : sqlStep previous (c :: (a ++ rest)) = ([c], false, 1))
    (hrun : Scans (some c) a rest out changed last) :
    Scans previous (c :: a) rest (c :: out) changed last := by
  have hstep := Scans.step (t := [c]) (cons_ne_nil _ _) h hrun
  simpa using hstep

/-- A run determines the loop up to the rest. -/
theorem loop (h : Scans previous a rest out changed last) :
    scan previous (a ++ rest) =
      (out ++ (scan last rest).1, changed || (scan last rest).2) := by
  induction h with
  | nil => simp
  | step ht hstep _ ih =>
    rw [append_assoc, scan_step ht hstep, ih, append_assoc, Bool.or_assoc]

/-- The last character is the last one of the text. -/
theorem last_eq (h : Scans previous a rest out changed last) : last = a.getLast?.or previous := by
  induction h with
  | nil => rfl
  | step ht _ _ ih =>
    rw [ih, getLast?_append, Option.or_assoc, getLast?_eq_some_getLast ht, Option.some_or]

/-- Runs over one text in front of one text are the same. -/
theorem deterministic (h : Scans previous a rest out changed last) :
    ∀ {out' : List Char} {changed' : Bool} {last' : Option Char},
      Scans previous a rest out' changed' last' → out = out' ∧ changed = changed' ∧
        last = last' := by
  induction h with
  | nil previous rest =>
    intro out' changed' last' h'
    generalize hnil : ([] : List Char) = e at h'
    cases h' with
    | nil => exact ⟨rfl, rfl, rfl⟩
    | step ht => exact absurd (append_eq_nil_iff.mp hnil.symm).1 ht
  | @step previous last t a rest o out changed changed' ht hstep _ ih =>
    intro out' changed'' last' h'
    generalize hta : t ++ a = e at h'
    cases h' with
    | nil => exact absurd (append_eq_nil_iff.mp hta).1 ht
    | @step _ _ t' a' _ o' _ _ _ ht' hstep' hrest' =>
      rw [← append_assoc, hta, append_assoc, hstep'] at hstep
      simp only [Prod.mk.injEq] at hstep
      obtain ⟨rfl, rfl, hlen⟩ := hstep
      obtain ⟨rfl, rfl⟩ := append_inj hta hlen.symm
      obtain ⟨rfl, rfl, rfl⟩ := ih hrest'
      exact ⟨rfl, rfl, rfl⟩

/-- A run up to the rest is a run up to less of it. -/
theorem shorten {d : Char} {u v : List Char} (hv : v <+: u)
    (h : Scans previous a (d :: u) out changed last) :
    Scans previous a (d :: v) out changed last := by
  generalize hr : d :: u = r at h
  induction h with
  | nil => exact .nil _ _
  | @step _ _ t a _ o _ _ _ ht hstep _ ih =>
    subst hr
    refine .step ht ?_ (ih rfl)
    cases a with
    | nil => exact sqlStep_shorten hv ht hstep
    | cons e a =>
      rw [cons_append] at hstep ⊢
      refine sqlStep_shorten ?_ ht hstep
      exact (prefix_append_right_inj a).mpr ((prefix_cons_inj d).mpr hv)

end Scans

end Lens.Redact
