import Lens.Redact.Constants

/-!
# The lexical structure of SQL

The tokens of a PostgreSQL text, as its lexer cuts them: what a token looks like
(`Token.valid`) and what may not stand after it, because the lexer takes the
longest token (`Token.follows`).  An operator is a sequence of `plain` characters.
`SqlText` is a text with its tokens.

`Token.shape` forgets the contents of string constants, of numeric constants and of
comments.  Two texts with the same shapes have the same tokens and differ only in
those contents.
-/

namespace Lens.Redact

/-- A character that begins an identifier. -/
def isIdentStart (c : Char) : Bool := c.isAlpha || c == '_' || decide (0x80 ≤ c.toNat)

/-- A character that continues the tag of a dollar-quoted constant. -/
def isTagCont (c : Char) : Bool := isIdentStart c || c.isDigit

/-- A character that continues an identifier. -/
def isIdentCont (c : Char) : Bool := isTagCont c || c == '$'

/-- One part of the content of an escape string. -/
inductive EscapeItem where
  | char (c : Char)
  /-- A backslash and the character it escapes. -/
  | escaped (c : Char)
  /-- A doubled quote. -/
  | quote
deriving DecidableEq, Repr

def EscapeItem.text : EscapeItem → List Char
  | .char c => [c]
  | .escaped c => ['\\', c]
  | .quote => ['\'', '\'']

def EscapeItem.valid : EscapeItem → Bool
  | .char c => c != '\'' && c != '\\'
  | .escaped _ => true
  | .quote => true

inductive Token where
  /-- Space, punctuation, or one character of an operator. -/
  | plain (c : Char)
  /-- A keyword or an identifier. -/
  | word (cs : List Char)
  /-- A parameter, `$1`. -/
  | param (digits : List Char)
  /-- A quoted identifier, by the characters it stands for. -/
  | quoted (cs : List Char)
  /-- A standard string constant, by the characters it stands for. -/
  | string (cs : List Char)
  /-- An escape string constant, with the letter before its quote. -/
  | escape (letter : Char) (items : List EscapeItem)
  | dollar (tag cs : List Char)
  | number (cs : List Char)
  /-- A comment to the end of its line, with the end of the line. -/
  | line (cs eol : List Char)
  /-- A block comment, by what stands between its outer marks. -/
  | block (cs : List Char)
deriving DecidableEq, Repr

/-- Digits of an exponent after its sign. -/
def isExponent (cs : List Char) : Bool :=
  let digits := match cs with
    | '+' :: rest => rest
    | '-' :: rest => rest
    | rest => rest
  !digits.isEmpty && digits.all Char.isDigit

/-- What follows the digits and the fraction of a number. -/
def isNumberEnd : List Char → Bool
  | [] => true
  | c :: rest => (c == 'e' || c == 'E') && isExponent rest

/-- A numeric constant, with an optional fraction and exponent. -/
def isNumeric (cs : List Char) : Bool :=
  let int := cs.takeWhile Char.isDigit
  match cs.dropWhile Char.isDigit with
  | '.' :: rest =>
    (!int.isEmpty || !(rest.takeWhile Char.isDigit).isEmpty)
      && isNumberEnd (rest.dropWhile Char.isDigit)
  | rest => !int.isEmpty && isNumberEnd rest

/-- The end mark that closes `depth` open comments is the last thing in the text. -/
def closesAtEnd : Nat → List Char → Bool
  | depth, '/' :: '*' :: rest => closesAtEnd (depth + 1) rest
  | depth, '*' :: '/' :: rest => if depth ≤ 1 then rest.isEmpty else closesAtEnd (depth - 1) rest
  | depth, _ :: rest => closesAtEnd depth rest
  | _, [] => false

namespace Token

def text : Token → List Char
  | plain c => [c]
  | word cs => cs
  | param digits => '$' :: digits
  | quoted cs => '"' :: (doubled '"' cs ++ ['"'])
  | string cs => '\'' :: (doubled '\'' cs ++ ['\''])
  | escape letter items => letter :: '\'' :: (items.flatMap EscapeItem.text ++ ['\''])
  | dollar tag cs => dollarDelimiter tag ++ cs ++ dollarDelimiter tag
  | number cs => cs
  | line cs eol => '-' :: '-' :: (cs ++ eol)
  | block cs => '/' :: '*' :: (cs ++ ['*', '/'])

def valid : Token → Bool
  | plain c => !(['"', '\'', '$'].contains c) && !isTagCont c
  | word cs => cs.head?.any isIdentStart && cs.all isIdentCont
  | param digits => !digits.isEmpty && digits.all Char.isDigit
  | quoted _ => true
  | string _ => true
  | escape letter items => (letter == 'e' || letter == 'E') && items.all EscapeItem.valid
  | dollar tag cs =>
    tag.head?.all isIdentStart && tag.all isTagCont
      -- The content ends where the delimiter first stands again.
      && Search.find (dollarDelimiter tag) (cs ++ dollarDelimiter tag) == some cs.length
  | number cs => isNumeric cs
  | line cs eol =>
    cs.all (fun c => c != '\n' && c != '\r')
      && ([[], ['\n'], ['\r', '\n'], ['\r']] : List (List Char)).contains eol
  | block cs => closesAtEnd 1 (cs ++ ['*', '/'])

/-- The token ends before `next`. -/
def follows (next : Option Char) : Token → Bool
  | plain c =>
    !(c == '-' && next == some '-') && !(c == '/' && next == some '*')
      && !(c == '.' && next.any Char.isDigit)
  | word cs =>
    !next.any isIdentCont
      -- The letter of an escape string is no word.
      && !((cs == ['e'] || cs == ['E']) && next == some '\'')
  | param _ => !next.any isTagCont
  | quoted _ => next != some '"'
  | string _ => next != some '\''
  | escape _ _ => next != some '\''
  | dollar _ _ => true
  | number _ => !next.any fun c => isTagCont c || c == '.'
  | line _ eol => (eol != [] || next.isNone) && !(eol == ['\r'] && next == some '\n')
  | block _ => true

/-- The token without its content. -/
def shape : Token → Token
  | string _ => string []
  | escape letter _ => escape letter []
  | dollar tag _ => dollar tag []
  | number _ => number []
  | line _ eol => line [] eol
  | block _ => block []
  | token => token

end Token

/-- The text of a token sequence. -/
def textOf (ts : List Token) : List Char := ts.flatMap Token.text

@[simp] theorem textOf_nil : textOf [] = [] := rfl

@[simp] theorem textOf_cons (t : Token) (ts : List Token) :
    textOf (t :: ts) = t.text ++ textOf ts := rfl

@[simp] theorem textOf_append (ts us : List Token) : textOf (ts ++ us) = textOf ts ++ textOf us :=
  List.flatMap_append

/-- The lexer cuts the text of the tokens into these tokens. -/
def Lexed : List Token → Prop
  | [] => True
  | t :: ts => t.valid = true ∧ t.follows (textOf ts).head? = true ∧ Lexed ts

instance Lexed.decidable : (ts : List Token) → Decidable (Lexed ts)
  | [] => .isTrue trivial
  | t :: ts =>
    have := Lexed.decidable ts
    inferInstanceAs (Decidable (t.valid = true ∧ t.follows (textOf ts).head? = true ∧ Lexed ts))

theorem Lexed.valid : ∀ {ts : List Token}, Lexed ts → ∀ t ∈ ts, t.valid = true
  | [], _, _, ht => by cases ht
  | u :: us, h, t, ht => by
    rcases List.mem_cons.mp ht with rfl | hmem
    · exact h.1
    · exact Lexed.valid h.2.2 t hmem

/-- An SQL text with its tokens. -/
structure SqlText where
  tokens : List Token
  lexed : Lexed tokens

namespace SqlText

def text (s : SqlText) : String := String.ofList (textOf s.tokens)

/-- The tokens without their contents. -/
def shape (s : SqlText) : List Token := s.tokens.map Token.shape

end SqlText

/-- The longest token of digits, fraction and exponent. -/
example : (Token.number "1.5e-3".toList).valid = true ∧
    (Token.number "1.5e".toList).valid = false := by decide

example : (Token.block " a /* b */ c ".toList).valid = true ∧
    (Token.block " a /* b ".toList).valid = false := by decide

end Lens.Redact
