/-!
# Readers of documents

A document is a JSON text, read and written as `serde_json` does. It is read from left to right, and
reading stops at the first `Fault`: a reader takes the text still to be read and gives a value with
the text after it, or a fault. Whether a value fits what is expected is judged where it stands, so a
text with two faults has the one that comes first.

This module holds the three sorts of fault, the blanks between tokens, and single tokens.
-/

namespace QuantityAlgebra.Document

/-- What is wrong with a text. -/
inductive Fault
  /-- It is no JSON, here (`Syntax`). -/
  | malformed
  /-- It is JSON, but no value of the sort expected here (`Data`). -/
  | mismatch
  /-- It ends too early (`Eof`). -/
  | truncated
  deriving DecidableEq, Inhabited

/-- Takes a value off the front of a text. -/
abbrev Reader := StateT (List Char) (Except Fault)

/-- Whether a character may stand between tokens. -/
def isSpacing (c : Char) : Bool := c == ' ' || c == '\n' || c == '\t' || c == '\r'

/-- The text from its next token on. -/
def skipSpacing (text : List Char) : List Char := text.dropWhile isSpacing

namespace Reader

variable {α : Type}

/-- Reads nothing and fails. -/
def fail (fault : Fault) : Reader α := fun _ => .error fault

/-- Reads the characters of a keyword, or of what is left of it. -/
def keyword : List Char → Reader Unit
  | [], text => .ok ((), text)
  | _ :: _, [] => .error .truncated
  | c :: cs, d :: text => if c = d then keyword cs text else .error .malformed

/-- Reads the next token, which is to be the punctuation mark `mark`. -/
def punctuation (mark : Char) : Reader Unit := fun text =>
  match skipSpacing text with
  | [] => .error .truncated
  | c :: rest => if c = mark then .ok ((), rest) else .error .malformed

/-- The value of a whole text: a value with nothing but spacing after it. -/
def run (reader : Reader α) (text : List Char) : Except Fault α :=
  match reader text with
  | .error fault => .error fault
  | .ok (value, rest) => if skipSpacing rest = [] then .ok value else .error .malformed

end Reader

end QuantityAlgebra.Document
