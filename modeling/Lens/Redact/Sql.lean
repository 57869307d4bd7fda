import Lens.Text.Search
import Lens.Text.Str

/-!
# SQL literals

`redact_sql_literals` of `lens-redact`: one pass over the text that replaces
string constants, numbers and comments.  The source walks over bytes, compares
only ASCII bytes and cuts only at character boundaries, so the model walks over
characters.

`sqlStep` is one turn of the loop.  It says what is pushed, whether the text
changed and how many characters were taken.  The character before the cursor
decides whether a digit begins a number.
-/

namespace Lens.Redact

/-- The characters of a quoted token after its opening quote, up to and with the
closing one.  A doubled quote does not close. -/
def quotedLength (q : Char) : List Char → Nat
  | [] => 0
  | [_] => 1
  | c :: c' :: cs =>
    if c = q then
      if c' = q then quotedLength q cs + 2 else 1
    else quotedLength q (c' :: cs) + 1

/-- The rest of a delimiter after its first dollar sign, with the last one. -/
def delimiterTail : List Char → Option Nat
  | [] => none
  | c :: cs =>
    if c = '$' then some 1
    else if !c.isAlphanum && c ≠ '_' then none
    else (delimiterTail cs).map (· + 1)

def dollarDelimiterEnd : List Char → Option Nat
  | [] => none
  | c :: cs => if c = '$' then (delimiterTail cs).map (· + 1) else none

/-- A delimiter that stands again later: the delimiter, and the length of the
constant with both copies. -/
def dollarQuote (cs : List Char) : Option (List Char × Nat) :=
  match dollarDelimiterEnd cs with
  | none => none
  | some delimiterEnd =>
    let delimiter := cs.take delimiterEnd
    match Search.find delimiter (cs.drop delimiterEnd) with
    | none => none
    | some contentLen => some (delimiter, delimiterEnd + contentLen + delimiter.length)

/-- A character that glues a digit to a word. -/
def isWordByte (c : Char) : Bool := c.isAlphanum || c = '_' || c = '$'

def isNumberStart (previous : Option Char) : List Char → Bool
  | [] => false
  | c :: next =>
    c.isDigit && !previous.any isWordByte
      && !next.head?.any fun b => b.isAlpha || b = '_' || b = '$'

/-- A character that the scan of a number goes over. -/
def isNumberTail (c : Char) : Bool :=
  c.isDigit || c = '.' || c = 'e' || c = 'E' || c = '+' || c = '-'

def startsLineComment (cs : List Char) : Bool := "--".toList.isPrefixOf cs

def startsBlockComment (cs : List Char) : Bool := "/*".toList.isPrefixOf cs

/-- A comment to the end of its line. -/
def lineComment (cs : List Char) : List Char × Bool × Nat :=
  let line := cs.takeWhile (· ≠ '\n')
  if line.length < cs.length then ("-- [REDACTED]\n".toList, true, line.length + 1)
  else ("-- [REDACTED]".toList, true, line.length)

/-- A comment to the first end mark. -/
def blockComment (cs : List Char) : List Char × Bool × Nat :=
  match Search.find "*/".toList (cs.drop 2) with
  | some offset => ("/* [REDACTED] */".toList, true, 2 + offset + 2)
  | none => ("/* [REDACTED] */".toList, true, cs.length)

/-- One turn: the characters pushed, whether something was replaced, and the
number of characters taken. -/
def sqlStep (previous : Option Char) : List Char → List Char × Bool × Nat
  | [] => ([], false, 0)
  | c :: rest =>
    if c = '"' then
      let taken := quotedLength '"' rest + 1
      ((c :: rest).take taken, false, taken)
    else if c = '\'' then
      ("'?'".toList, true, quotedLength '\'' rest + 1)
    else if startsLineComment (c :: rest) then lineComment (c :: rest)
    else if startsBlockComment (c :: rest) then blockComment (c :: rest)
    else
      match dollarQuote (c :: rest) with
      | some (delimiter, taken) => (delimiter ++ ['?'] ++ delimiter, true, taken)
      | none =>
        if isNumberStart previous (c :: rest) then
          (['?'], true, 1 + (rest.takeWhile isNumberTail).length)
        else ([c], false, 1)

/-- The loop.  Every turn takes a character, so the length bounds the turns. -/
def sqlLoop : Nat → Option Char → List Char → List Char × Bool
  | 0, _, _ => ([], false)
  | n + 1, previous, cs =>
    if cs.isEmpty then ([], false)
    else
      let step := sqlStep previous cs
      let rest := sqlLoop n (cs.take step.2.2).getLast? (cs.drop step.2.2)
      (step.1 ++ rest.1, step.2.1 || rest.2)

/-- The text with its literals replaced, and whether there was one. -/
def redactSqlLiterals (sql : String) : String × Bool :=
  let r := sqlLoop sql.toList.length none sql.toList
  (String.ofList r.1, r.2)

example : redactSqlLiterals
    "SELECT * FROM users_2 WHERE id = 42 AND name = 'Ada' AND ref = $1 -- token abc" =
    ("SELECT * FROM users_2 WHERE id = ? AND name = '?' AND ref = $1 -- [REDACTED]", true) := by
  decide

end Lens.Redact
