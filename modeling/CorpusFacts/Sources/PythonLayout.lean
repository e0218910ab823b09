import CorpusFacts.Sources.PythonStrings

/-!
# Lines and indentation of Python sources

The end of a logical line, the start of what is indented further and its end are tokens without
characters. Whether one of them stands somewhere depends on the blanks and comments up to the next
character, and on what can follow.
-/

namespace CorpusFacts.Python

/-- What is before the next character of a source. -/
structure Lead where
  /-- Whether there is a line break, or the end of the source. -/
  hasBreak : Bool
  /-- How far the next character is indented. -/
  indent : Nat
  /-- How far the first comment is indented, if there is one on a line of its own. -/
  comment : Option Nat
  /-- The next character and what follows it. -/
  rest : List Char

/-- What is before the next character, after what `lead` says. A backslash at the end of a line
joins it to the next one. With `skipsComments` comments are skipped; there is no answer where one is
on the line at hand, or where a backslash is not at the end of its line. -/
def leadOf (skipsComments inComment : Bool) (lead : Lead) : List Char → Option Lead
  | [] | ['\\'] | ['\\', '\r'] => some { lead with hasBreak := true, indent := 0, rest := [] }
  | c :: rest =>
    if inComment then
      if c == '\n' then leadOf skipsComments false { lead with indent := 0 } rest
      else leadOf skipsComments true lead rest
    else
      match c with
      | '\n' => leadOf skipsComments false { lead with hasBreak := true, indent := 0 } rest
      | ' ' => leadOf skipsComments false { lead with indent := lead.indent + 1 } rest
      | '\t' => leadOf skipsComments false { lead with indent := lead.indent + 8 } rest
      | '\r' | '\x0c' => leadOf skipsComments false { lead with indent := 0 } rest
      | '\\' =>
        match rest with
        | '\n' :: rest => leadOf skipsComments false lead rest
        | '\r' :: '\n' :: rest => leadOf skipsComments false lead rest
        | _ => none
      | '#' =>
        if !skipsComments then some { lead with rest := c :: rest }
        else if !lead.hasBreak then none
        else
          let comment := some (lead.comment.getD lead.indent)
          leadOf skipsComments true { lead with comment } rest
      | _ => some { lead with rest := c :: rest }

/-- The lines and strings that are open at a place. -/
structure Layout where
  /-- How far what is open is indented, the innermost first. -/
  indents : List Nat
  /-- The strings that are open, the innermost first. -/
  quotes : List Quote
  /-- Whether the last string that was opened may hold expressions, and is still open. -/
  inFormat : Bool

namespace Layout

/-- Nothing is open. -/
def start : Layout := ⟨[0], [], false⟩

/-- How far the innermost of what is open is indented. -/
def indent (layout : Layout) : Nat :=
  layout.indents.headD 0

/-- Whether what is open inside of a bracket can end. -/
def canClose (expects : String → Bool) : Bool :=
  expects "\x7d" || expects ")" || expects "]"

/-- Whether a string is next and can follow. -/
def startsString (expects : String → Bool) (lead : Lead) : Bool :=
  expects "<string-start>" && lead.rest.head?.any fun c => c == '"' || c == '\'' || c == '\x60'

/-- Whether what is indented ends here. It also does where its end cannot follow, if nothing that
goes over several lines is open; comments that are indented like it are part of it. -/
def endsIndented (layout : Layout) (expects : String → Bool) (lead : Lead) : Bool :=
  (expects "<dedent>"
      || (!expects "<newline>" && !startsString expects lead && !canClose expects))
    && lead.indent < layout.indent && !layout.inFormat && lead.comment.all (· < layout.indent)

/-- The token for a line or for its indentation. -/
def lineToken (layout : Layout) (expects : String → Bool) (lead : Lead) :
    Option (String × Layout) :=
  if !lead.hasBreak then none
  else if expects "<indent>" && layout.indent < lead.indent then
    some ("<indent>", { layout with indents := lead.indent :: layout.indents })
  else if layout.endsIndented expects lead then
    some ("<dedent>", { layout with indents := layout.indents.tail })
  else if expects "<newline>" then some ("<newline>", layout)
  else none

/-- A string is opened. -/
def openString (layout : Layout) (quote : Quote) : Layout :=
  { layout with quotes := quote :: layout.quotes, inFormat := quote.isFormat }

/-- The innermost string is closed. -/
def closeString (layout : Layout) : Layout :=
  { layout with quotes := layout.quotes.tail, inFormat := false }

end Layout

end CorpusFacts.Python
