import CorpusFacts.Glob.Pattern

/-!
# Matching globs

A path is matched byte by byte, and a slash is a byte like any other. A token matches the start of a
text in one or more ways; each way is told by what it leaves of the text. Since all that is left are
ends of one text, two of them are the same as soon as they have the same length.

A pattern that is decided by the name of a file, or by its extension, matches no path without one.
-/

namespace CorpusFacts.Glob

/-- The ends of a text, from the whole text to the empty one. -/
def ends : List UInt8 → List (List UInt8)
  | [] => [[]]
  | byte :: rest => (byte :: rest) :: ends rest

/-- The slash. -/
def slash : UInt8 := 47

/-- What is left of a text after each of its slashes. -/
def afterSlashes : List UInt8 → List (List UInt8)
  | [] => []
  | byte :: rest => if byte == slash then rest :: afterSlashes rest else afterSlashes rest

/-- The bytes of a character. -/
def charBytes (c : Char) : List UInt8 :=
  (String.ofList [c]).toUTF8.toList

/-- Ranges of bytes for a range of characters. Its ends are spelled out byte by byte, so the range
runs from the last byte of the first character to the first byte of the last one. -/
def byteRanges (first last : Char) : List (UInt8 × UInt8) :=
  if first == last then (charBytes first).map fun byte => (byte, byte)
  else
    let low := charBytes first
    let high := charBytes last
    low.dropLast.map (fun byte => (byte, byte))
      ++ [(low.getLast?.getD 0, high.head?.getD 0)]
      ++ (high.drop 1).map fun byte => (byte, byte)

/-- Whether a byte lies in one of some ranges of characters. -/
def inRanges (ranges : List (Char × Char)) (byte : UInt8) : Bool :=
  ranges.any fun (first, last) =>
    (byteRanges first last).any fun (low, high) => low ≤ byte && byte ≤ high

/-- What is left of a text that starts with some bytes. -/
def afterBytes? : (start text : List UInt8) → Option (List UInt8)
  | [], text => some text
  | _ :: _, [] => none
  | a :: start, b :: text => if a == b then afterBytes? start text else none

/-- Some ends of a text, each length once. -/
def distinctLengths : List (List UInt8) → List (List UInt8)
  | [] => []
  | text :: rest =>
    let others := distinctLengths rest
    if others.any (·.length == text.length) then others else text :: others

mutual

/-- Whether a token matches the empty text and nothing else, whatever the path. -/
def Token.isVoid : Token → Bool
  | .choice branches => branchesAreVoid branches
  | _ => false

/-- Whether all tokens of a branch are void. -/
def branchIsVoid : List Token → Bool
  | [] => true
  | token :: rest => token.isVoid && branchIsVoid rest

/-- Whether all branches of a choice are void. -/
def branchesAreVoid : List (List Token) → Bool
  | [] => true
  | branch :: rest => branchIsVoid branch && branchesAreVoid rest

end

mutual

/-- What a token can leave of a text. -/
def Token.remainders : Token → List UInt8 → List (List UInt8)
  | .literal c, text => (afterBytes? (charBytes c) text).toList
  | .anyByte, text =>
    match text with
    | [] => []
    | _ :: rest => [rest]
  | .anyRun, text => ends text
  | .leading, text => text :: afterSlashes text
  | .trailing, text =>
    match text with
    | [] => []
    | byte :: rest => if byte == slash then ends rest else []
  | .inner, text =>
    match text with
    | [] => []
    | byte :: rest => if byte == slash then rest :: afterSlashes rest else []
  | .oneOf negated ranges, text =>
    match text with
    | [] => []
    | byte :: rest => if inRanges ranges byte != negated then [rest] else []
  | .choice branches, text => choiceRemainders branches text

/-- What a choice can leave of a text. Void branches do not count, but a choice without any other
matches the empty text. -/
def choiceRemainders (branches : List (List Token)) (text : List UInt8) : List (List UInt8) :=
  if branchesAreVoid branches then [text] else branchRemainders branches text

/-- What the branches of a choice that are not void can leave of a text. -/
def branchRemainders : List (List Token) → List UInt8 → List (List UInt8)
  | [], _ => []
  | branch :: rest, text =>
    (if branchIsVoid branch then [] else sequenceRemainders branch [text])
      ++ branchRemainders rest text

/-- What some tokens, one after the other, can leave of some texts. -/
def sequenceRemainders : List Token → List (List UInt8) → List (List UInt8)
  | [], texts => texts
  | token :: rest, texts =>
    sequenceRemainders rest (distinctLengths (texts.flatMap token.remainders))

end

/-- Whether tokens match a whole text. Two stars by themselves match everything. -/
def matchesAll (tokens : List Token) (text : List UInt8) : Bool :=
  match tokens with
  | [.leading] => true
  | _ => (sequenceRemainders tokens [text]).any (·.isEmpty)

/-- A character that stands for itself matches its bytes. -/
theorem matchesAll_literal (c : Char) (text : List UInt8) :
    matchesAll [.literal c] text = (afterBytes? (charBytes c) text).any (·.isEmpty) := by
  have hleft : sequenceRemainders [.literal c] [text] =
      distinctLengths (afterBytes? (charBytes c) text).toList := by
    simp only [sequenceRemainders, List.flatMap_cons, List.flatMap_nil, List.append_nil,
      Token.remainders]
  change (sequenceRemainders [.literal c] [text]).any (·.isEmpty) = _
  rw [hleft]
  cases afterBytes? (charBytes c) text <;> simp [distinctLengths]

/-- Whether a token is a character that stands for itself. -/
def Token.isLiteral : Token → Bool
  | .literal _ => true
  | _ => false

/-- Whether a token is a given character. -/
def Token.isChar (c : Char) : Token → Bool
  | .literal d => d == c
  | _ => false

/-- Whether tokens, given from the last one on, end in a dot and characters of a file name. -/
def endsInExtension : List Token → Bool
  | [] => false
  | token :: before =>
    token.isChar '.' || (token.isLiteral && !token.isChar '/' && endsInExtension before)

/-- Whether characters are an extension: a dot, and no other dot or slash. -/
def isExtension : List Token → Bool
  | [] => false
  | dot :: rest => dot.isChar '.' && !rest.any fun token => token.isChar '.' || token.isChar '/'

/-- Whether tokens match by the name of a file alone, or by its extension first. A path written out
in full, and the end of a path behind a star, are compared as they stand. -/
def needsFileName (tokens : List Token) : Bool :=
  let (isBelow, body) :=
    match tokens with
    | .leading :: rest => (true, rest)
    | _ => (false, tokens)
  if body.all Token.isLiteral then isBelow && !body.isEmpty && !body.any (Token.isChar '/')
  else
    match body with
    | .anyRun :: rest =>
      if rest.all Token.isLiteral then isExtension rest else endsInExtension tokens.reverse
    | _ => endsInExtension tokens.reverse

/-- Whether a path names a file: it neither is empty nor ends in two dots that lead upwards. -/
def hasFileName (path : String) : Bool :=
  let lastName := path.toList.reverse.takeWhile (· != '/')
  !path.isEmpty && lastName != ['.', '.']

/-- Whether tokens match a path. -/
def matchesPath (tokens : List Token) (path : String) : Bool :=
  matchesAll tokens path.toUTF8.toList && (hasFileName path || !needsFileName tokens)

/-- A set of patterns. -/
structure Globs where
  /-- The tokens of each pattern. -/
  patterns : List (List Token)

/-- Whether some pattern of a set matches a path. -/
def Globs.contains (globs : Globs) (path : String) : Bool :=
  globs.patterns.any (matchesPath · path)

end CorpusFacts.Glob
