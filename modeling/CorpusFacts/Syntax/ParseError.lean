import CorpusFacts.Files.Failure
import CorpusFacts.Files.Path

/-!
# Why a file cannot be parsed

Every reason why a source, a script or a properties file yields no syntax tree, and its wording.
-/

namespace CorpusFacts

/-- The three kinds of brackets. -/
inductive Bracket where
  /-- Parentheses. -/
  | round
  /-- Square brackets. -/
  | square
  /-- Braces. -/
  | curly
  deriving DecidableEq, Repr

namespace Bracket

/-- The character that opens a bracket. -/
def opener : Bracket → Char
  | round => '('
  | square => '['
  | curly => '\x7b'

/-- The character that closes a bracket. -/
def closer : Bracket → Char
  | round => ')'
  | square => ']'
  | curly => '\x7d'

/-- The bracket that a character opens. -/
def ofOpener? : Char → Option Bracket
  | '(' => some round
  | '[' => some square
  | '\x7b' => some curly
  | _ => none

/-- The bracket that a character closes. -/
def ofCloser? : Char → Option Bracket
  | ')' => some round
  | ']' => some square
  | '\x7d' => some curly
  | _ => none

end Bracket

/-- A literal or comment that the source ends inside of. -/
inductive Unterminated where
  /-- A block comment. -/
  | blockComment
  /-- A quoted literal. -/
  | string
  /-- An expression embedded in a quoted literal. -/
  | template
  /-- A literal between slashes. -/
  | slashyString
  /-- An identifier between backticks. -/
  | backtick
  deriving DecidableEq, Repr

namespace Unterminated

/-- What is unterminated, in words. -/
def message : Unterminated → String
  | blockComment => "unterminated block comment"
  | string => "unterminated string literal"
  | template => "unterminated string template"
  | slashyString => "unterminated slashy string"
  | backtick => "unterminated backtick identifier"

end Unterminated

/-- Why a file yields no syntax tree. -/
inductive ParseCause where
  /-- No language is known for its extension. -/
  | unknownLanguage
  /-- Its bytes cannot be read. -/
  | unreadable (failure : FileFailure)
  /-- Its bytes are not UTF-8. -/
  | notUtf8
  /-- A literal or comment does not end. -/
  | unterminated (what : Unterminated)
  /-- A bracket is never closed. -/
  | unclosed (bracket : Bracket)
  /-- A bracket is closed that was not opened. -/
  | unexpected (bracket : Bracket)
  /-- A bracket is closed while another one is open. -/
  | mismatched (found expected : Bracket)
  /-- The source is not well-formed for its language. -/
  | malformed
  deriving DecidableEq, Repr

namespace ParseCause

/-- The wording of a cause. -/
def message : ParseCause → String
  | unknownLanguage => "no front-end registered for this file type"
  | unreadable failure => "cannot read file: " ++ failure.message
  | notUtf8 => "source is not valid UTF-8"
  | unterminated what => what.message
  | unclosed bracket => "unclosed '" ++ bracket.opener.toString ++ "'"
  | unexpected bracket => "unexpected '" ++ bracket.closer.toString ++ "'"
  | mismatched found expected =>
    "mismatched '" ++ found.closer.toString ++ "', expected '" ++ expected.closer.toString ++ "'"
  | malformed => "syntax error"

end ParseCause

/-- A file that yields no syntax tree. -/
structure ParseError where
  /-- The path of the file. -/
  path : Path
  /-- The line of the first problem, from 1, where it is known. -/
  line : Option Nat
  /-- What the problem is. -/
  cause : ParseCause
  deriving DecidableEq, Repr

namespace ParseError

/-- The error as one line: the place, then the cause. -/
def text (error : ParseError) : String :=
  match error.line with
  | some line => error.path.text ++ ":" ++ toString line ++ ": " ++ error.cause.message
  | none => error.path.text ++ ": " ++ error.cause.message

end ParseError

end CorpusFacts
