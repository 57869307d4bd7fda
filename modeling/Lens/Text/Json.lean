import Lens.Text.Str

/-!
# JSON texts

A JSON text is read into a `Json` value by the grammar of RFC 8259.  Numbers are kept as
they are written, and the members of an object in their order, names that come twice
included.  The readers take fuel, two for each character (`parse`).

`render` writes a value without white space.  How a character is written in a string is a
parameter, an escape function that the reader undoes (`Undone`).  A value whose numbers are
naturals in decimal (`Natural`) is read back as it was (`parse_render`).
-/

inductive Json where
  | null
  | bool (b : Bool)
  | num (lexeme : List Char)
  | str (text : String)
  | arr (items : List Json)
  | obj (members : List (String × Json))

namespace Json

open List

/-! ## Reading -/

def isSpace (c : Char) : Bool := c = ' ' || c = '\n' || c = '\r' || c = '\t'

def skip (cs : List Char) : List Char := cs.dropWhile isSpace

/-- The integer part of a number. -/
def readInt : List Char → Option (List Char × List Char)
  | [] => none
  | c :: cs =>
    if c = '0' then some ([c], cs)
    else if c.isDigit then some (c :: cs.takeWhile Char.isDigit, cs.dropWhile Char.isDigit)
    else none

/-- One or more digits. -/
def readDigits (cs : List Char) : Option (List Char × List Char) :=
  if (cs.takeWhile Char.isDigit).isEmpty then none
  else some (cs.takeWhile Char.isDigit, cs.dropWhile Char.isDigit)

def readFraction : List Char → Option (List Char × List Char)
  | '.' :: cs => (readDigits cs).map fun r => ('.' :: r.1, r.2)
  | cs => some ([], cs)

def readExponent : List Char → Option (List Char × List Char)
  | [] => some ([], [])
  | e :: cs =>
    if e = 'e' || e = 'E' then
      match cs with
      | '+' :: cs => (readDigits cs).map fun r => (e :: '+' :: r.1, r.2)
      | '-' :: cs => (readDigits cs).map fun r => (e :: '-' :: r.1, r.2)
      | cs => (readDigits cs).map fun r => (e :: r.1, r.2)
    else some ([], e :: cs)

def readUnsigned (cs : List Char) : Option (List Char × List Char) :=
  (readInt cs).bind fun (int, cs) =>
    (readFraction cs).bind fun (fraction, cs) =>
      (readExponent cs).map fun (exponent, cs) => (int ++ fraction ++ exponent, cs)

def readNumber : List Char → Option (List Char × List Char)
  | '-' :: cs => (readUnsigned cs).map fun r => ('-' :: r.1, r.2)
  | cs => readUnsigned cs

/-- Four hexadecimal digits. -/
def readHex4 : List Char → Option (Nat × List Char)
  | a :: b :: c :: d :: cs => (Str.digitsValue 16 0 [a, b, c, d]).map (·, cs)
  | _ => none

/-- The second half of a character that is written as two escapes. -/
def readLow (high : Nat) : List Char → Option (Char × List Char)
  | '\\' :: 'u' :: cs =>
    match readHex4 cs with
    | none => none
    | some (low, cs) =>
      if 0xdc00 ≤ low ∧ low ≤ 0xdfff then
        some (Char.ofNat (0x10000 + (high - 0xd800) * 0x400 + (low - 0xdc00)), cs)
      else none
  | _ => none

/-- An escape, after its backslash. -/
def readEscape : List Char → Option (Char × List Char)
  | '"' :: cs => some ('"', cs)
  | '\\' :: cs => some ('\\', cs)
  | '/' :: cs => some ('/', cs)
  | 'b' :: cs => some (Char.ofNat 8, cs)
  | 'f' :: cs => some (Char.ofNat 12, cs)
  | 'n' :: cs => some ('\n', cs)
  | 'r' :: cs => some ('\r', cs)
  | 't' :: cs => some ('\t', cs)
  | 'u' :: cs =>
    match readHex4 cs with
    | none => none
    | some (n, cs) =>
      if n < 0xd800 ∨ 0xdfff < n then some (Char.ofNat n, cs)
      else if n < 0xdc00 then readLow n cs
      else none
  | _ => none

/-- One character of a string. -/
def readChar : List Char → Option (Char × List Char)
  | [] => none
  | c :: cs =>
    if c = '\\' then readEscape cs
    else if c = '"' || c.toNat < 0x20 then none
    else some (c, cs)

/-- The characters of a string up to its closing quote. -/
def readBody : Nat → List Char → Option (List Char × List Char)
  | 0, _ => none
  | _, [] => none
  | n + 1, c :: cs =>
    if c = '"' then some ([], cs)
    else
      (readChar (c :: cs)).bind fun (d, rest) =>
        (readBody n rest).map fun (ds, rest) => (d :: ds, rest)

/-- A string, after its opening quote. -/
def readString (cs : List Char) : Option (String × List Char) :=
  (readBody cs.length cs).map fun r => (String.ofList r.1, r.2)

/-- The name of a member and its colon. -/
def readName (cs : List Char) : Option (String × List Char) :=
  match skip cs with
  | '"' :: cs =>
    match readString cs with
    | none => none
    | some (name, cs) =>
      match skip cs with
      | ':' :: cs => some (name, cs)
      | _ => none
  | _ => none

mutual

def readValue : Nat → List Char → Option (Json × List Char)
  | 0, _ => none
  | n + 1, cs =>
    match skip cs with
    | 'n' :: 'u' :: 'l' :: 'l' :: cs => some (.null, cs)
    | 't' :: 'r' :: 'u' :: 'e' :: cs => some (.bool true, cs)
    | 'f' :: 'a' :: 'l' :: 's' :: 'e' :: cs => some (.bool false, cs)
    | '"' :: cs => (readString cs).map fun r => (.str r.1, r.2)
    | '[' :: cs =>
      match skip cs with
      | ']' :: cs => some (.arr [], cs)
      | cs => (readItems n cs).map fun r => (.arr r.1, r.2)
    | '{' :: cs =>
      match skip cs with
      | '}' :: cs => some (.obj [], cs)
      | cs => (readMembers n cs).map fun r => (.obj r.1, r.2)
    | cs => (readNumber cs).map fun r => (.num r.1, r.2)

/-- The items of an array, one or more, up to its end. -/
def readItems : Nat → List Char → Option (List Json × List Char)
  | 0, _ => none
  | n + 1, cs =>
    match readValue n cs with
    | none => none
    | some (item, cs) =>
      match skip cs with
      | ']' :: cs => some ([item], cs)
      | ',' :: cs => (readItems n cs).map fun r => (item :: r.1, r.2)
      | _ => none

/-- The members of an object, one or more, up to its end. -/
def readMembers : Nat → List Char → Option (List (String × Json) × List Char)
  | 0, _ => none
  | n + 1, cs =>
    match readName cs with
    | none => none
    | some (name, cs) =>
      match readValue n cs with
      | none => none
      | some (value, cs) =>
        match skip cs with
        | '}' :: cs => some ([(name, value)], cs)
        | ',' :: cs => (readMembers n cs).map fun r => ((name, value) :: r.1, r.2)
        | _ => none

end

/-- The value of a text that is one JSON value, with white space around it. -/
def parse (text : String) : Option Json :=
  match readValue (2 * text.toList.length) text.toList with
  | none => none
  | some (value, rest) => if skip rest = [] then some value else none

/-! ## Parts of a value -/

/-- The member of an object with a name, the last one if there are several. -/
def get (name : String) : Json → Option Json
  | .obj members => members.foldl (fun found m => if m.1 = name then some m.2 else found) none
  | _ => none

def asNat : Json → Option Nat
  | .num lexeme => Str.digitsValue 10 0 lexeme
  | _ => none

def asBool : Json → Option Bool
  | .bool b => some b
  | _ => none

def asStr : Json → Option String
  | .str text => some text
  | _ => none

/-- A value that may be null. -/
def asOption {α : Type} (f : Json → Option α) : Json → Option (Option α)
  | .null => some none
  | j => (f j).map some

def asList {α : Type} (f : Json → Option α) : Json → Option (List α)
  | .arr items => items.mapM f
  | _ => none

/-! ## Writing -/

section Render

variable (esc : Char → List Char)

def quote (text : String) : List Char := '"' :: (text.toList.flatMap esc ++ ['"'])

mutual

def render : Json → List Char
  | .null => ['n', 'u', 'l', 'l']
  | .bool true => ['t', 'r', 'u', 'e']
  | .bool false => ['f', 'a', 'l', 's', 'e']
  | .num lexeme => lexeme
  | .str text => quote esc text
  | .arr items => '[' :: (renderItems items ++ [']'])
  | .obj members => '{' :: (renderMembers members ++ ['}'])

def renderItems : List Json → List Char
  | [] => []
  | [item] => render item
  | item :: items => render item ++ ',' :: renderItems items

def renderMembers : List (String × Json) → List Char
  | [] => []
  | [(name, value)] => quote esc name ++ ':' :: render value
  | (name, value) :: members =>
    quote esc name ++ ':' :: (render value ++ ',' :: renderMembers members)

end

end Render

/-- A natural number. -/
def nat (n : Nat) : Json := .num (Nat.toDigits 10 n)

/-- A value, or null. -/
def orNull {α : Type} (f : α → Json) : Option α → Json
  | none => .null
  | some a => f a

/-- The numbers are naturals in decimal. -/
inductive Natural : Json → Prop where
  | null : Natural .null
  | bool (b : Bool) : Natural (.bool b)
  | nat (n : Nat) : Natural (.nat n)
  | str (text : String) : Natural (.str text)
  | arr {items : List Json} (h : ∀ item ∈ items, Natural item) : Natural (.arr items)
  | obj {members : List (String × Json)} (h : ∀ m ∈ members, Natural m.2) : Natural (.obj members)

/-- The numbers are naturals with `p` in decimal, in at most so many levels of brackets. -/
inductive Fits (p : Nat → Prop) : Nat → Json → Prop where
  | null {d : Nat} : Fits p d .null
  | bool {d : Nat} (b : Bool) : Fits p d (.bool b)
  | nat {d n : Nat} (h : p n) : Fits p d (.nat n)
  | str {d : Nat} (text : String) : Fits p d (.str text)
  | arr {d : Nat} {items : List Json} (h : ∀ item ∈ items, Fits p d item) :
      Fits p (d + 1) (.arr items)
  | obj {d : Nat} {members : List (String × Json)} (h : ∀ m ∈ members, Fits p d m.2) :
      Fits p (d + 1) (.obj members)

namespace Fits

variable {α : Type} {f : α → Json}

variable {p : Nat → Prop} {d : Nat}

theorem orNull : ∀ {a : Option α}, (∀ b ∈ a, Fits p d (f b)) →
    Fits p d (Json.orNull f a)
  | none, _ => .null
  | some a, h => h a rfl

theorem map {as : List α} (h : ∀ a ∈ as, Fits p d (f a)) :
    Fits p (d + 1) (.arr (as.map f)) := by
  refine .arr fun item hitem => ?_
  obtain ⟨a, ha, rfl⟩ := mem_map.1 hitem
  exact h a ha

theorem natural {j : Json} (h : Fits p d j) : Natural j := by
  induction h with
  | null => exact .null
  | bool b => exact .bool b
  | nat => exact .nat _
  | str text => exact .str text
  | arr _ ih => exact .arr ih
  | obj _ ih => exact .obj ih

end Fits

/-! ## Numbers -/

/-- No number goes on here. -/
def Delimited (rest : List Char) : Prop :=
  ∀ c ∈ rest.head?, c.isDigit = false ∧ c ≠ '.' ∧ c ≠ 'e' ∧ c ≠ 'E'

theorem delimited_nil : Delimited [] := fun _ h => by cases h

theorem delimited_cons {c : Char} (cs : List Char)
    (h : c.isDigit = false ∧ c ≠ '.' ∧ c ≠ 'e' ∧ c ≠ 'E') : Delimited (c :: cs) := by
  intro d hd
  obtain rfl : c = d := by simpa using hd
  exact h

theorem isDigit_toDigits {n : Nat} {c : Char} (h : c ∈ Nat.toDigits 10 n) : c.isDigit = true :=
  Nat.isDigit_of_mem_toDigits (by decide) (by decide) h

/-- A decimal does not start with a zero, but for zero itself. -/
theorem toDigits_zero_cons {n : Nat} :
    ∀ {ds : List Char}, Nat.toDigits 10 n = '0' :: ds → ds = [] := by
  induction n using Nat.strong_induction_on with
  | _ n ih =>
  intro ds h
  by_cases hn : n < 10
  · rw [Nat.toDigits_of_lt_base hn] at h
    exact (List.cons.inj h).2.symm
  · rw [Nat.toDigits_of_base_le (by decide) (by omega)] at h
    cases hrest : Nat.toDigits 10 (n / 10) with
    | nil => exact absurd hrest Nat.toDigits_ne_nil
    | cons d more =>
      rw [hrest] at h
      obtain ⟨rfl, -⟩ := List.cons.inj h
      obtain rfl := ih (n / 10) (by omega) hrest
      have hvalue := Str.digitsValue_toDigits (n / 10)
      rw [hrest] at hvalue
      have hzero : n / 10 = 0 := (Option.some.inj hvalue).symm
      omega

section Number

variable {rest : List Char} (h : Delimited rest)

include h

theorem takeWhile_delimited {ds : List Char} (hds : ∀ d ∈ ds, Char.isDigit d = true) :
    (ds ++ rest).takeWhile Char.isDigit = ds ∧ (ds ++ rest).dropWhile Char.isDigit = rest := by
  have hnone : rest.takeWhile Char.isDigit = [] ∧ rest.dropWhile Char.isDigit = rest := by
    cases rest with
    | nil => exact ⟨rfl, rfl⟩
    | cons c cs =>
      have hc : ¬ c.isDigit = true := by simp [(h c rfl).1]
      exact ⟨takeWhile_cons_of_neg hc, dropWhile_cons_of_neg hc⟩
  rw [takeWhile_append_of_pos hds, dropWhile_append_of_pos hds, hnone.1, hnone.2, append_nil]
  exact ⟨rfl, rfl⟩

theorem readFraction_delimited : readFraction rest = some ([], rest) := by
  cases rest with
  | nil => rfl
  | cons c cs =>
    rw [readFraction]
    rintro tail heq
    exact (h c rfl).2.1 (List.cons.inj heq).1

theorem readExponent_delimited : readExponent rest = some ([], rest) := by
  cases rest with
  | nil => rfl
  | cons c cs =>
    obtain ⟨-, -, he, hE⟩ := h c rfl
    simp [readExponent, he, hE]

theorem readInt_toDigits (n : Nat) :
    readInt (Nat.toDigits 10 n ++ rest) = some (Nat.toDigits 10 n, rest) := by
  cases hdigits : Nat.toDigits 10 n with
  | nil => exact absurd hdigits Nat.toDigits_ne_nil
  | cons d ds =>
    have hall : ∀ c ∈ d :: ds, c.isDigit = true := fun c hc => isDigit_toDigits (hdigits ▸ hc)
    rw [cons_append, readInt]
    by_cases hzero : d = '0'
    · obtain rfl := hzero
      rw [if_pos rfl, toDigits_zero_cons hdigits, nil_append]
    · obtain ⟨htake, hdrop⟩ := takeWhile_delimited h fun c hc => hall c (.tail _ hc)
      rw [if_neg hzero, if_pos (hall d (.head _)), htake, hdrop]

theorem readNumber_toDigits (n : Nat) :
    readNumber (Nat.toDigits 10 n ++ rest) = some (Nat.toDigits 10 n, rest) := by
  have hunsigned : readUnsigned (Nat.toDigits 10 n ++ rest) = some (Nat.toDigits 10 n, rest) := by
    simp [readUnsigned, readInt_toDigits h, readFraction_delimited h, readExponent_delimited h]
  rw [← hunsigned, readNumber]
  rintro tail heq
  have hminus : '-' ∈ Nat.toDigits 10 n := by
    cases hdigits : Nat.toDigits 10 n with
    | nil => exact absurd hdigits Nat.toDigits_ne_nil
    | cons d ds =>
      rw [hdigits] at heq
      obtain ⟨rfl, -⟩ := List.cons.inj heq
      exact .head _
  exact absurd (isDigit_toDigits hminus) (by decide)

end Number

/-! ## Strings -/

/-- The reader undoes the escape function. -/
def Undone (esc : Char → List Char) : Prop :=
  ∀ c rest, readChar (esc c ++ rest) = some (c, rest)

section Strings

variable {esc : Char → List Char} (hesc : Undone esc)

include hesc

theorem Undone.cons (c : Char) : ∃ d ds, esc c = d :: ds ∧ d ≠ '"' := by
  have hread := hesc c []
  cases hc : esc c with
  | nil =>
    rw [hc] at hread
    cases hread
  | cons d ds =>
    refine ⟨d, ds, rfl, ?_⟩
    rintro rfl
    rw [hc] at hread
    cases hread

theorem readBody_escaped (rest : List Char) :
    ∀ {cs : List Char} {n : Nat}, cs.length < n →
      readBody n (cs.flatMap esc ++ '"' :: rest) = some (cs, rest)
  | [], n + 1, _ => rfl
  | c :: cs, n + 1, hn => by
    obtain ⟨d, ds, hc, hd⟩ := hesc.cons c
    have hchar := hesc c (cs.flatMap esc ++ '"' :: rest)
    rw [hc, cons_append] at hchar
    rw [flatMap_cons, hc, append_assoc, cons_append, readBody, if_neg hd, hchar]
    have hrest := readBody_escaped rest (Nat.lt_of_succ_lt_succ hn)
    simp [hrest]

theorem length_escaped : ∀ cs : List Char, cs.length ≤ (cs.flatMap esc).length
  | [] => Nat.le_refl 0
  | c :: cs => by
    obtain ⟨d, ds, hc, -⟩ := hesc.cons c
    have hrest := length_escaped cs
    rw [flatMap_cons, hc, length_append, length_cons, length_cons]
    omega

theorem readString_escaped (text : String) (rest : List Char) :
    readString (text.toList.flatMap esc ++ '"' :: rest) = some (text, rest) := by
  have hlen : text.toList.length < (text.toList.flatMap esc ++ '"' :: rest).length := by
    have hescaped := length_escaped hesc text.toList
    rw [length_append, length_cons]
    omega
  rw [readString, readBody_escaped hesc rest hlen, Option.map_some, String.ofList_toList]

end Strings

/-! ## Values -/

theorem skip_of_not_space {c : Char} (h : isSpace c = false) (cs : List Char) :
    skip (c :: cs) = c :: cs := dropWhile_cons_of_neg (by simp [h])

theorem ne_of_isDigit {c d : Char} (hc : c.isDigit = true) (hd : d.isDigit = false) : c ≠ d := by
  rintro rfl
  rw [hc] at hd
  cases hd

theorem isSpace_of_isDigit {c : Char} (h : c.isDigit = true) : isSpace c = false := by
  simp [isSpace, ne_of_isDigit h (d := ' ') rfl, ne_of_isDigit h (d := '\n') rfl,
    ne_of_isDigit h (d := '\r') rfl, ne_of_isDigit h (d := '\t') rfl]

section Values

variable {j : Json} {c : Char} {items : List Json} {members : List (String × Json)} {n : Nat}
  {α β : Type} {f : α → Json} {read : Json → Option β} {g : α → β}

variable {esc : Char → List Char}

variable (esc) in
/-- The first character of a value. -/
theorem render_cons (hj : Natural j) :
    ∃ c cs, render esc j = c :: cs ∧ isSpace c = false ∧ c ≠ ']' := by
  cases hj with
  | null => exact ⟨'n', _, by rw [render], by decide, by decide⟩
  | bool b =>
    cases b with
    | true => exact ⟨'t', _, by rw [render], by decide, by decide⟩
    | false => exact ⟨'f', _, by rw [render], by decide, by decide⟩
  | nat n =>
    cases hdigits : Nat.toDigits 10 n with
    | nil => exact absurd hdigits Nat.toDigits_ne_nil
    | cons d ds =>
      have hmem : d ∈ Nat.toDigits 10 n := by rw [hdigits]; exact .head _
      have hd := isDigit_toDigits hmem
      exact ⟨d, ds, by rw [nat, render, hdigits], isSpace_of_isDigit hd, ne_of_isDigit hd rfl⟩
  | str text => exact ⟨'"', _, by rw [render, quote], by decide, by decide⟩
  | arr h => exact ⟨'[', _, by rw [render], by decide, by decide⟩
  | obj h => exact ⟨'{', _, by rw [render], by decide, by decide⟩

theorem readValue_digit {d : Char} (hd : d.isDigit = true) (n : Nat) (cs : List Char) :
    readValue (n + 1) (d :: cs) = (readNumber (d :: cs)).map fun r => (.num r.1, r.2) := by
  rw [readValue, skip_of_not_space (isSpace_of_isDigit hd)]
  split
  next heq => exact absurd (List.cons.inj heq).1 (ne_of_isDigit hd rfl)
  next heq => exact absurd (List.cons.inj heq).1 (ne_of_isDigit hd rfl)
  next heq => exact absurd (List.cons.inj heq).1 (ne_of_isDigit hd rfl)
  next heq => exact absurd (List.cons.inj heq).1 (ne_of_isDigit hd rfl)
  next heq => exact absurd (List.cons.inj heq).1 (ne_of_isDigit hd rfl)
  next heq => exact absurd (List.cons.inj heq).1 (ne_of_isDigit hd rfl)
  next => rfl

theorem readValue_items (hspace : isSpace c = false) (hc : c ≠ ']') (n : Nat) (cs : List Char) :
    readValue (n + 1) ('[' :: c :: cs) = (readItems n (c :: cs)).map fun r => (.arr r.1, r.2) := by
  show (match skip (c :: cs) with | ']' :: cs => _ | cs => _) = _
  rw [skip_of_not_space hspace]
  split
  next heq => exact absurd (List.cons.inj heq).1 hc
  next => rfl

theorem readValue_members (hspace : isSpace c = false) (hc : c ≠ '}') (n : Nat) (cs : List Char) :
    readValue (n + 1) ('{' :: c :: cs) =
      (readMembers n (c :: cs)).map fun r => (.obj r.1, r.2) := by
  show (match skip (c :: cs) with | '}' :: cs => _ | cs => _) = _
  rw [skip_of_not_space hspace]
  split
  next heq => exact absurd (List.cons.inj heq).1 hc
  next => rfl

/-- The readers read back what is written. -/
structure ReadsBack (esc : Char → List Char) (n : Nat) : Prop where
  value : ∀ {j : Json} {rest : List Char}, Natural j → 2 * (render esc j).length ≤ n →
    Delimited rest → readValue n (render esc j ++ rest) = some (j, rest)
  items : ∀ {items : List Json} {rest : List Char}, items ≠ [] → (∀ item ∈ items, Natural item) →
    2 * (renderItems esc items).length + 1 ≤ n →
    readItems n (renderItems esc items ++ ']' :: rest) = some (items, rest)
  members : ∀ {members : List (String × Json)} {rest : List Char}, members ≠ [] →
    (∀ m ∈ members, Natural m.2) → 2 * (renderMembers esc members).length + 1 ≤ n →
    readMembers n (renderMembers esc members ++ '}' :: rest) = some (members, rest)

theorem renderItems_cons (item : Json) (h : items ≠ []) :
    renderItems esc (item :: items) = render esc item ++ ',' :: renderItems esc items := by
  cases items with
  | nil => exact absurd rfl h
  | cons next items => rw [renderItems]; exact fun heq => by cases heq

theorem renderMembers_cons (name : String) (value : Json) (h : members ≠ []) :
    renderMembers esc ((name, value) :: members) =
      quote esc name ++ ':' :: (render esc value ++ ',' :: renderMembers esc members) := by
  cases members with
  | nil => exact absurd rfl h
  | cons next members => rw [renderMembers]; exact fun heq => by cases heq

variable (esc) in
theorem renderItems_head (h : items ≠ []) (hnatural : ∀ item ∈ items, Natural item) :
    ∃ c cs, renderItems esc items = c :: cs ∧ isSpace c = false ∧ c ≠ ']' := by
  obtain ⟨item, items, rfl⟩ := exists_cons_of_ne_nil h
  obtain ⟨c, cs, hrender, hspace, hc⟩ := render_cons esc (hnatural item (.head _))
  by_cases hlast : items = []
  · obtain rfl := hlast
    exact ⟨c, cs, by rw [renderItems, hrender], hspace, hc⟩
  · exact ⟨c, _, by rw [renderItems_cons item hlast, hrender, cons_append], hspace, hc⟩

variable (esc) in
theorem renderMembers_head (h : members ≠ []) :
    ∃ cs, renderMembers esc members = '"' :: cs := by
  obtain ⟨⟨name, value⟩, members, rfl⟩ := exists_cons_of_ne_nil h
  by_cases hlast : members = []
  · obtain rfl := hlast
    exact ⟨_, by rw [renderMembers, quote, cons_append]⟩
  · exact ⟨_, by rw [renderMembers_cons name value hlast, quote, cons_append]⟩

/-- One turn over the items of an array. -/
theorem ReadsBack.items_succ (h : ReadsBack esc n) {rest : List Char} (hitems : items ≠ [])
    (hnatural : ∀ item ∈ items, Natural item)
    (hn : 2 * (renderItems esc items).length + 1 ≤ n + 1) :
    readItems (n + 1) (renderItems esc items ++ ']' :: rest) = some (items, rest) := by
  obtain ⟨item, items, rfl⟩ := exists_cons_of_ne_nil hitems
  have hitem := hnatural item (.head _)
  by_cases hlast : items = []
  · obtain rfl := hlast
    rw [renderItems] at hn ⊢
    have hvalue := h.value hitem (by omega) (delimited_cons (c := ']') rest (by decide))
    rw [readItems, hvalue]
    rfl
  · rw [renderItems_cons item hlast] at hn ⊢
    rw [length_append, length_cons] at hn
    have hvalue := h.value hitem (by omega)
      (delimited_cons (c := ',') (renderItems esc items ++ ']' :: rest) (by decide))
    have hrest : readItems n (renderItems esc items ++ ']' :: rest) = some (items, rest) :=
      h.items hlast (fun i hi => hnatural i (.tail _ hi)) (by omega)
    rw [append_assoc, cons_append, readItems, hvalue]
    show (readItems n (renderItems esc items ++ ']' :: rest)).map _ = _
    rw [hrest]
    rfl

theorem readName_quote (hesc : Undone esc) (name : String) (cs : List Char) :
    readName (quote esc name ++ ':' :: cs) = some (name, cs) := by
  have hstring :
      readString (name.toList.flatMap esc ++ ['"'] ++ ':' :: cs) = some (name, ':' :: cs) := by
    rw [append_assoc]
    exact readString_escaped hesc name (':' :: cs)
  show (match readString (name.toList.flatMap esc ++ ['"'] ++ ':' :: cs) with
    | none => none
    | some (name, cs) => match skip cs with
        | ':' :: cs => some (name, cs)
        | _ => none) = _
  rw [hstring]
  rfl

/-- One turn over the members of an object. -/
theorem ReadsBack.members_succ (hesc : Undone esc) (h : ReadsBack esc n) {rest : List Char}
    (hmembers : members ≠ []) (hnatural : ∀ m ∈ members, Natural m.2)
    (hn : 2 * (renderMembers esc members).length + 1 ≤ n + 1) :
    readMembers (n + 1) (renderMembers esc members ++ '}' :: rest) = some (members, rest) := by
  obtain ⟨⟨name, value⟩, members, rfl⟩ := exists_cons_of_ne_nil hmembers
  have hnat : Natural value := hnatural (name, value) (.head _)
  by_cases hlast : members = []
  · obtain rfl := hlast
    rw [renderMembers, length_append, length_cons] at hn
    have hvalue := h.value hnat (by omega) (delimited_cons (c := '}') rest (by decide))
    rw [renderMembers, append_assoc, cons_append, readMembers, readName_quote hesc]
    dsimp only
    rw [hvalue]
    rfl
  · rw [renderMembers_cons name value hlast] at hn ⊢
    rw [length_append, length_cons, length_append, length_cons] at hn
    have hvalue := h.value hnat (by omega)
      (delimited_cons (c := ',') (renderMembers esc members ++ '}' :: rest) (by decide))
    have hrest : readMembers n (renderMembers esc members ++ '}' :: rest) = some (members, rest) :=
      h.members hlast (fun m hm => hnatural m (.tail _ hm)) (by omega)
    rw [append_assoc, cons_append, append_assoc, cons_append, readMembers, readName_quote hesc]
    dsimp only
    rw [hvalue]
    show (readMembers n (renderMembers esc members ++ '}' :: rest)).map _ = _
    rw [hrest]
    rfl

/-- A value is read back if what is inside of it is. -/
theorem ReadsBack.value_succ (hesc : Undone esc) (h : ReadsBack esc n) {rest : List Char}
    (hj : Natural j) (hn : 2 * (render esc j).length ≤ n + 1)
    (hrest : Delimited rest) : readValue (n + 1) (render esc j ++ rest) = some (j, rest) := by
  cases hj with
  | null => rw [render]; rfl
  | bool b =>
    cases b with
    | true => rw [render]; rfl
    | false => rw [render]; rfl
  | nat k =>
    have hread := readNumber_toDigits hrest k
    rw [nat, render]
    cases hdigits : Nat.toDigits 10 k with
    | nil => exact absurd hdigits Nat.toDigits_ne_nil
    | cons d ds =>
      have hmem : d ∈ Nat.toDigits 10 k := by rw [hdigits]; exact .head _
      rw [hdigits, cons_append] at hread
      rw [cons_append, readValue_digit (isDigit_toDigits hmem), hread]
      rfl
  | str text =>
    have hread : readString (text.toList.flatMap esc ++ ['"'] ++ rest) = some (text, rest) := by
      rw [append_assoc]
      exact readString_escaped hesc text rest
    rw [render]
    show (readString (text.toList.flatMap esc ++ ['"'] ++ rest)).map _ = _
    rw [hread]
    rfl
  | @arr items hitems =>
    rw [render] at hn ⊢
    by_cases hnil : items = []
    · obtain rfl := hnil
      rw [renderItems]
      rfl
    · obtain ⟨c, cs, hhead, hspace, hc⟩ := renderItems_head esc hnil hitems
      rw [length_cons, length_append, length_singleton] at hn
      have hread : readItems n (renderItems esc items ++ ']' :: rest) = some (items, rest) :=
        h.items hnil hitems (by omega)
      rw [hhead, cons_append] at hread
      have happend : '[' :: (c :: cs ++ [']']) ++ rest = '[' :: c :: (cs ++ ']' :: rest) := by simp
      rw [hhead, happend, readValue_items hspace hc, hread]
      rfl
  | @obj members hmembers =>
    rw [render] at hn ⊢
    by_cases hnil : members = []
    · obtain rfl := hnil
      rw [renderMembers]
      rfl
    · obtain ⟨cs, hhead⟩ := renderMembers_head esc hnil
      rw [length_cons, length_append, length_singleton] at hn
      have hread :
          readMembers n (renderMembers esc members ++ '}' :: rest) = some (members, rest) :=
        h.members hnil hmembers (by omega)
      rw [hhead, cons_append] at hread
      have happend : '{' :: ('"' :: cs ++ ['}']) ++ rest = '{' :: '"' :: (cs ++ '}' :: rest) := by
        simp
      rw [hhead, happend, readValue_members (by decide) (by decide), hread]
      rfl

theorem readsBack (hesc : Undone esc) : ∀ n, ReadsBack esc n
  | 0 => by
    refine ⟨fun hj hn => ?_, fun _ _ hn => absurd hn (by omega), fun _ _ hn => absurd hn (by omega)⟩
    obtain ⟨c, cs, hrender, -⟩ := render_cons esc hj
    rw [hrender, length_cons] at hn
    omega
  | n + 1 => ⟨(readsBack hesc n).value_succ hesc, (readsBack hesc n).items_succ,
      (readsBack hesc n).members_succ hesc⟩

theorem skip_eq_nil : ∀ {cs : List Char}, (∀ c ∈ cs, isSpace c = true) → skip cs = []
  | [], _ => rfl
  | c :: cs, h => by
    rw [skip, dropWhile_cons_of_pos (h c (.head _))]
    exact skip_eq_nil fun d hd => h d (.tail _ hd)

theorem delimited_space {cs : List Char} (h : ∀ c ∈ cs, isSpace c = true) : Delimited cs := by
  cases cs with
  | nil => exact delimited_nil
  | cons c cs =>
    have hc : c = ' ' ∨ c = '\n' ∨ c = '\r' ∨ c = '\t' := by
      simpa [isSpace, or_assoc] using h c (.head _)
    obtain rfl | rfl | rfl | rfl := hc
    all_goals exact delimited_cons cs (by decide)

/-- What is written is read back, with white space after it. -/
theorem parse_render (hesc : Undone esc) (hj : Natural j) {space : List Char}
    (hspace : ∀ c ∈ space, isSpace c = true) :
    parse (String.ofList (render esc j ++ space)) = some j := by
  have hn : 2 * (render esc j).length ≤ 2 * (render esc j ++ space).length := by
    rw [length_append]
    omega
  have hread := (readsBack hesc _).value hj hn (delimited_space hspace)
  rw [parse, String.toList_ofList, hread]
  exact if_pos (skip_eq_nil hspace)

/-- A text that goes on after a value is no JSON text. -/
theorem parse_render_append (hesc : Undone esc) (hj : Natural j) {rest : List Char}
    (hdelimited : Delimited rest) (hrest : skip rest ≠ []) :
    parse (String.ofList (render esc j ++ rest)) = none := by
  have hn : 2 * (render esc j).length ≤ 2 * (render esc j ++ rest).length := by
    rw [length_append]
    omega
  have hread := (readsBack hesc _).value hj hn hdelimited
  rw [parse, String.toList_ofList, hread]
  exact if_neg hrest

/-! ## What is written -/

section Characters

variable {P : Char → Prop} (hmark : ∀ c ∈ "nultrefas\"[]\x7b\x7d:,".toList, P c)
  (hdigit : ∀ c, c.isDigit = true → P c) (hesc : ∀ c, ∀ d ∈ esc c, P d)

include hmark hesc in
theorem forall_mem_quote (text : String) : ∀ c ∈ quote esc text, P c := by
  intro c hc
  rw [quote, mem_cons, mem_append, mem_singleton, mem_flatMap] at hc
  rcases hc with rfl | ⟨d, -, hd⟩ | rfl
  · exact hmark _ (by decide)
  · exact hesc d c hd
  · exact hmark _ (by decide)

include hmark in
theorem forall_mem_renderItems : ∀ {items : List Json},
    (∀ item ∈ items, ∀ c ∈ render esc item, P c) → ∀ c ∈ renderItems esc items, P c
  | [], _, c, hc => by
    rw [renderItems] at hc
    cases hc
  | [item], h, c, hc => by
    rw [renderItems] at hc
    exact h item (.head _) c hc
  | item :: next :: items, h, c, hc => by
    rw [renderItems_cons item (cons_ne_nil next items), mem_append, mem_cons] at hc
    rcases hc with hc | rfl | hc
    · exact h item (.head _) c hc
    · exact hmark _ (by decide)
    · exact forall_mem_renderItems (fun i hi => h i (.tail _ hi)) c hc

include hmark hesc in
theorem forall_mem_renderMembers : ∀ {members : List (String × Json)},
    (∀ m ∈ members, ∀ c ∈ render esc m.2, P c) → ∀ c ∈ renderMembers esc members, P c
  | [], _, c, hc => by
    rw [renderMembers] at hc
    cases hc
  | [(name, value)], h, c, hc => by
    rw [renderMembers, mem_append, mem_cons] at hc
    rcases hc with hc | rfl | hc
    · exact forall_mem_quote hmark hesc name c hc
    · exact hmark _ (by decide)
    · exact h (name, value) (.head _) c hc
  | (name, value) :: next :: members, h, c, hc => by
    rw [renderMembers_cons name value (cons_ne_nil next members), mem_append,
      mem_cons, mem_append, mem_cons] at hc
    rcases hc with hc | rfl | hc | rfl | hc
    · exact forall_mem_quote hmark hesc name c hc
    · exact hmark _ (by decide)
    · exact h (name, value) (.head _) c hc
    · exact hmark _ (by decide)
    · exact forall_mem_renderMembers (fun m hm => h m (.tail _ hm)) c hc

include hmark hdigit hesc in
/-- What holds of the marks, of digits and of escaped characters holds of all that is written. -/
theorem forall_mem_render {j : Json} (hj : Natural j) : ∀ c ∈ render esc j, P c := by
  induction hj with
  | null =>
    have hword : ['n', 'u', 'l', 'l'] ⊆ "nultrefas\"[]\x7b\x7d:,".toList := by simp
    rw [render]
    exact fun c hc => hmark c (hword hc)
  | bool b =>
    cases b with
    | true =>
      have hword : ['t', 'r', 'u', 'e'] ⊆ "nultrefas\"[]\x7b\x7d:,".toList := by simp
      rw [render]
      exact fun c hc => hmark c (hword hc)
    | false =>
      have hword : ['f', 'a', 'l', 's', 'e'] ⊆ "nultrefas\"[]\x7b\x7d:,".toList := by simp
      rw [render]
      exact fun c hc => hmark c (hword hc)
  | nat n =>
    intro c hc
    rw [nat, render] at hc
    exact hdigit c (isDigit_toDigits hc)
  | str text =>
    intro c hc
    rw [render] at hc
    exact forall_mem_quote hmark hesc text c hc
  | arr _ ih =>
    intro c hc
    rw [render, mem_cons, mem_append, mem_singleton] at hc
    rcases hc with rfl | hc | rfl
    · exact hmark _ (by decide)
    · exact forall_mem_renderItems hmark ih c hc
    · exact hmark _ (by decide)
  | obj _ ih =>
    intro c hc
    rw [render, mem_cons, mem_append, mem_singleton] at hc
    rcases hc with rfl | hc | rfl
    · exact hmark _ (by decide)
    · exact forall_mem_renderMembers hmark hesc ih c hc
    · exact hmark _ (by decide)

end Characters

/-! ## Reading parts back -/

@[simp] theorem asStr_str (text : String) : asStr (.str text) = some text := rfl

@[simp] theorem asBool_bool (b : Bool) : asBool (.bool b) = some b := rfl

@[simp] theorem asNat_nat (n : Nat) : asNat (.nat n) = some n := Str.digitsValue_toDigits n

theorem asOption_orNull (h : ∀ a, read (f a) = some (g a)) (hnull : ∀ a, f a ≠ .null) :
    ∀ a : Option α, asOption read (orNull f a) = some (a.map g)
  | none => rfl
  | some a => by
    rw [orNull, asOption, h, Option.map_some, Option.map_some]
    exact hnull a

theorem asOption_str : ∀ text : Option String, asOption asStr (orNull .str text) = some text
  | none => rfl
  | some _ => rfl

theorem asOption_nat (n : Option Nat) : asOption asNat (orNull nat n) = some n := by
  have hread := asOption_orNull (g := fun n => n) asNat_nat (fun _ h => by cases h) n
  rwa [Option.map_id'] at hread

/-- A list is read item by item. -/
theorem mapM_map {γ : Type} {f : α → β} {read : β → Option γ} {g : α → γ} : ∀ {as : List α},
    (∀ a ∈ as, read (f a) = some (g a)) → (as.map f).mapM read = some (as.map g)
  | [], _ => rfl
  | a :: as, h => by
    rw [forall_mem_cons] at h
    rw [map_cons, mapM_cons, h.1, mapM_map h.2]
    rfl

theorem asList_map (h : ∀ a, read (f a) = some (g a)) (as : List α) :
    asList read (.arr (as.map f)) = some (as.map g) :=
  mapM_map fun a _ => h a

end Values

end Json
