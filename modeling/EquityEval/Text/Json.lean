import EquityEval.Text.CodePoints
import EquityEval.Text.Escapes
import EquityEval.Text.Trees

/-!
# Texts of trees

A text of a tree is split into tokens, and the tokens are read with a stack of the arrays and objects
that are open. Numbers and strings are kept as they are written: what they mean is left to the reader.
A tree that is printed without white space is read back from its text.
-/

namespace Text.Json

open CodePoint (ofChar)

/-- A part of a string: a character, or a unit that an escape gives by its number. -/
inductive Piece where
  | char (c : CodePoint)
  | unit (n : ℕ)
deriving DecidableEq

/-- A number as it is written; an exponent has a sign and digits. -/
structure NumberToken where
  negative : Bool
  integral : List CodePoint
  fraction : Option (List CodePoint)
  exponent : Option (Bool × List CodePoint)
deriving DecidableEq

/-- A value without parts; the words for numbers that are not finite are among them. -/
inductive Literal where
  | null
  | bool (b : Bool)
  | number (token : NumberToken)
  | string (pieces : List Piece)
  | nonfinite
deriving DecidableEq

/-- A token of a text. -/
inductive Token where
  | literal (l : Literal)
  | openArray
  | closeArray
  | openObject
  | closeObject
  | comma
  | colon
deriving DecidableEq

/-- A tree as it is written. -/
abbrev Syntax : Type := Tree Literal (List Piece)

/-! ### Tokens -/

/-- White space between tokens. -/
def isSpace (c : CodePoint) : Bool := c = ofChar ' ' || c = ofChar '\t' || c = ofChar '\n' || c = ofChar '\r'

/-- The digits in base 10. -/
def isDigit (c : CodePoint) : Bool := 48 ≤ c.val && c.val ≤ 57

/-- Take the digits before the point off a text: a zero stands alone. -/
def takeIntegral (text : List CodePoint) : Option (List CodePoint × List CodePoint) :=
  match text.takeWhile isDigit with
  | [] => none
  | d :: digits => some (if d = ofChar '0' then ([d], text.tail) else (d :: digits, text.dropWhile isDigit))

/-- Take a point and the digits after it off a text. -/
def takeFraction : List CodePoint → Option (List CodePoint) × List CodePoint
  | [] => (none, [])
  | c :: rest =>
    if c = ofChar '.' ∧ rest.takeWhile isDigit ≠ [] then (some (rest.takeWhile isDigit), rest.dropWhile isDigit)
    else (none, c :: rest)

/-- Take a sign off a text. -/
def takeSign : List CodePoint → Bool × List CodePoint
  | [] => (false, [])
  | c :: rest => if c = ofChar '-' then (true, rest) else if c = ofChar '+' then (false, rest) else (false, c :: rest)

/-- Take an exponent off a text. -/
def takeExponent : List CodePoint → Option (Bool × List CodePoint) × List CodePoint
  | [] => (none, [])
  | c :: rest =>
    let (negative, digits) := takeSign rest
    if (c = ofChar 'e' ∨ c = ofChar 'E') ∧ digits.takeWhile isDigit ≠ [] then
      (some (negative, digits.takeWhile isDigit), digits.dropWhile isDigit)
    else (none, c :: rest)

/-- Take a minus off a text. -/
def takeMinus : List CodePoint → Bool × List CodePoint
  | [] => (false, [])
  | c :: rest => if c = ofChar '-' then (true, rest) else (false, c :: rest)

/-- Take a number off a text: as much of it as is one. -/
def takeNumber (text : List CodePoint) : Option (NumberToken × List CodePoint) :=
  (takeIntegral (takeMinus text).2).map fun (integral, rest) =>
    let (fraction, rest) := takeFraction rest
    let (exponent, rest) := takeExponent rest
    (⟨(takeMinus text).1, integral, fraction, exponent⟩, rest)

/-- The character of a short escape. -/
def shortEscape (c : CodePoint) : Option CodePoint :=
  if c = ofChar '"' ∨ c = ofChar '\\' ∨ c = ofChar '/' then some c
  else if c = ofChar 'b' then some (ofChar '\x08')
  else if c = ofChar 'f' then some (ofChar '\x0c')
  else if c = ofChar 'n' then some (ofChar '\n')
  else if c = ofChar 'r' then some (ofChar '\r')
  else if c = ofChar 't' then some (ofChar '\t')
  else none

/-- Put a piece before those of the rest of a string. -/
def prepend (piece : Piece) (read : Option (List Piece × List CodePoint)) : Option (List Piece × List CodePoint) :=
  read.map fun (pieces, rest) => (piece :: pieces, rest)

/-- Take the rest of a string off a text; control characters are not among its characters. -/
def takeString : List CodePoint → Option (List Piece × List CodePoint)
  | [] => none
  | c :: rest =>
    if c = ofChar '"' then some ([], rest)
    else if c = ofChar '\\' then
      match rest with
      | [] => none
      | e :: rest =>
        if e = ofChar 'u' then
          match rest with
          | c₁ :: c₂ :: c₃ :: c₄ :: rest =>
            (readHex ([c₁, c₂, c₃, c₄].map CodePoint.toChar)).bind fun n => prepend (.unit n) (takeString rest)
          | _ => none
        else (shortEscape e).bind fun c => prepend (.char c) (takeString rest)
    else if c.val < 32 then none
    else prepend (.char c) (takeString rest)

/-- A quote ends a string. -/
theorem takeString_quote (rest : List CodePoint) : takeString (ofChar '"' :: rest) = some ([], rest) := by
  rw [takeString.eq_def]
  rfl

/-- A short escape in a string. -/
theorem takeString_short {e : CodePoint} (he : e ≠ ofChar 'u') (rest : List CodePoint) :
    takeString (ofChar '\\' :: e :: rest) = (shortEscape e).bind fun c => prepend (.char c) (takeString rest) := by
  rw [takeString.eq_def]
  simp only [if_neg (show ofChar '\\' ≠ ofChar '"' by decide), if_pos, if_neg he]

/-- An escape of a unit in a string. -/
theorem takeString_unit (c₁ c₂ c₃ c₄ : CodePoint) (rest : List CodePoint) :
    takeString (ofChar '\\' :: ofChar 'u' :: c₁ :: c₂ :: c₃ :: c₄ :: rest) =
      (readHex ([c₁, c₂, c₃, c₄].map CodePoint.toChar)).bind fun n => prepend (.unit n) (takeString rest) := by
  rw [takeString.eq_def]
  simp only [if_neg (show ofChar '\\' ≠ ofChar '"' by decide), if_pos]

/-- A character of a string that stands for itself. -/
theorem takeString_char {c : CodePoint} (hquote : c ≠ ofChar '"') (hbackslash : c ≠ ofChar '\\') (hcontrol : ¬ c.val < 32)
    (rest : List CodePoint) : takeString (c :: rest) = prepend (.char c) (takeString rest) := by
  rw [takeString.eq_def]
  simp only [if_neg hquote, if_neg hbackslash, if_neg hcontrol]

/-- The words of values. -/
def words : List (List CodePoint × Literal) :=
  [(ascii ['n', 'u', 'l', 'l'], .null), (ascii ['t', 'r', 'u', 'e'], .bool true),
    (ascii ['f', 'a', 'l', 's', 'e'], .bool false), (ascii ['N', 'a', 'N'], .nonfinite),
    (ascii ['I', 'n', 'f', 'i', 'n', 'i', 't', 'y'], .nonfinite), (ascii ['-', 'I', 'n', 'f', 'i', 'n', 'i', 't', 'y'], .nonfinite)]

/-- Take a word off a text. -/
def takeWord (text : List CodePoint) : Option (Literal × List CodePoint) :=
  words.findSome? fun (word, l) => if word <+: text then some (l, text.drop word.length) else none

/-- The tokens of one character. -/
def punctuation (c : CodePoint) : Option Token :=
  if c = ofChar '[' then some .openArray
  else if c = ofChar ']' then some .closeArray
  else if c = ofChar '\x7b' then some .openObject
  else if c = ofChar '\x7d' then some .closeObject
  else if c = ofChar ',' then some .comma
  else if c = ofChar ':' then some .colon
  else none

/-- Take a value without parts off a text. -/
def takeLiteral (c : CodePoint) (rest : List CodePoint) : Option (Literal × List CodePoint) :=
  if c = ofChar '"' then (takeString rest).map fun (pieces, rest) => (.string pieces, rest)
  else (takeWord (c :: rest)).or ((takeNumber (c :: rest)).map fun (token, rest) => (.number token, rest))

/-- Take a token off a text. -/
def takeToken (c : CodePoint) (rest : List CodePoint) : Option (Token × List CodePoint) :=
  match punctuation c with
  | some token => some (token, rest)
  | none => (takeLiteral c rest).map fun (l, rest) => (.literal l, rest)

/-- The tokens of a text; a token has a character, so a text has as many as characters at most. -/
def tokens : ℕ → List CodePoint → Option (List Token)
  | _, [] => some []
  | 0, _ :: _ => none
  | n + 1, c :: rest =>
    if isSpace c then tokens n rest
    else (takeToken c rest).bind fun (token, rest) => (tokens n rest).map (token :: ·)

/-! ### Reading tokens -/

/-- An array that is open, or an object with the key of the member that comes. -/
inductive Frame where
  | array (items : List Syntax)
  | object (members : List (List Piece × Syntax)) (key : List Piece)

/-- What has been read, and what comes. -/
inductive Reader where
  | value (stack : List Frame)
  | firstItem (stack : List Frame)
  | firstKey (stack : List Frame)
  | key (members : List (List Piece × Syntax)) (stack : List Frame)
  | colon (members : List (List Piece × Syntax)) (key : List Piece) (stack : List Frame)
  | after (tree : Syntax) (stack : List Frame)

/-- A token where a value comes. -/
def beginValue (stack : List Frame) : Token → Option Reader
  | .literal l => some (.after (.scalar l) stack)
  | .openArray => some (.firstItem stack)
  | .openObject => some (.firstKey stack)
  | _ => none

/-- A token where a key comes. -/
def beginKey (members : List (List Piece × Syntax)) (stack : List Frame) : Token → Option Reader
  | .literal (.string key) => some (.colon members key stack)
  | _ => none

/-- A token after a value. -/
def continueValue (tree : Syntax) : List Frame → Token → Option Reader
  | .array items :: stack, .comma => some (.value (.array (items ++ [tree]) :: stack))
  | .array items :: stack, .closeArray => some (.after (.array (items ++ [tree])) stack)
  | .object members key :: stack, .comma => some (.key (members ++ [(key, tree)]) stack)
  | .object members key :: stack, .closeObject => some (.after (.object (members ++ [(key, tree)])) stack)
  | _, _ => none

/-- Read a token. -/
def Reader.step : Reader → Token → Option Reader
  | .value stack, token => beginValue stack token
  | .firstItem stack, .closeArray => some (.after (.array []) stack)
  | .firstItem stack, token => beginValue (.array [] :: stack) token
  | .firstKey stack, .closeObject => some (.after (.object []) stack)
  | .firstKey stack, token => beginKey [] stack token
  | .key members stack, token => beginKey members stack token
  | .colon members name stack, .colon => some (.value (.object members name :: stack))
  | .colon _ _ _, _ => none
  | .after tree stack, token => continueValue tree stack token

/-- The tree when every token has been read. -/
def Reader.finish : Reader → Option Syntax
  | .after tree [] => some tree
  | _ => none

/-- The tree of a text. -/
def parse (text : List CodePoint) : Option Syntax :=
  (tokens text.length text).bind fun ts => (ts.foldlM Reader.step (.value [])).bind Reader.finish

end Text.Json
