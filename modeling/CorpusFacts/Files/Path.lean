import CorpusFacts.Text.Words

/-!
# Paths

A path is a text, shown as it was given. What it means is read off its components: runs between
slashes, where empty runs and inner dots count for nothing. Joining, the parent and the file name
are operations on the text, so a path keeps the spelling of the parts it was made of.
-/

namespace CorpusFacts

/-- A path as spelled. -/
structure Path where
  /-- The spelling. -/
  text : String
  deriving DecidableEq, Repr, Inhabited

namespace Path

/-- One step of a path. -/
inductive Component where
  /-- The slash that starts an absolute path. -/
  | root
  /-- A dot at the start of a relative path. -/
  | current
  /-- Two dots. -/
  | parent
  /-- A name. -/
  | name (text : List Char)
  deriving DecidableEq, Repr

/-- The runs of characters between slashes. -/
def segments (path : Path) : List (List Char) :=
  Text.split '/' path.text.toList

/-- Whether a run counts for nothing beyond the first place. -/
def isIdle (segment : List Char) : Bool :=
  segment == [] || segment == ['.']

/-- The component that a run between slashes stands for beyond the first place. -/
def innerComponent (segment : List Char) : Option Component :=
  if isIdle segment then none
  else if segment == ['.', '.'] then some .parent
  else some (.name segment)

/-- The component that the first run stands for; `more` tells whether a slash follows it. -/
def firstComponent (segment : List Char) (more : Bool) : Option Component :=
  if segment == [] then if more then some .root else none
  else if segment == ['.'] then some .current
  else innerComponent segment

/-- The components of a list of runs between slashes. -/
def componentsOf : List (List Char) → List Component
  | [] => []
  | first :: rest => (firstComponent first (!rest.isEmpty)).toList ++ rest.filterMap innerComponent

/-- The components of a path. -/
def components (path : Path) : List Component :=
  componentsOf path.segments

/-- Whether a path starts at the root of the file system. -/
def isAbsolute (path : Path) : Bool :=
  path.text.toList.head? == some '/'

/-- Whether two paths have the same components, however they are spelled. -/
def sameAs (p q : Path) : Bool :=
  p.components == q.components

/-- A path inside another. An absolute path replaces the one it is joined to, and a slash is put
between the two unless the first already ends in one or is empty. -/
def join (base : Path) (inner : String) : Path :=
  if inner.toList.head? == some '/' then ⟨inner⟩
  else
    match base.text.toList.getLast? with
    | none => ⟨inner⟩
    | some '/' => ⟨base.text ++ inner⟩
    | some _ => ⟨base.text ++ "/" ++ inner⟩

/-- The name at the end of a path; none where it ends in two dots, a lone dot or the root. -/
def fileName? (path : Path) : Option (List Char) :=
  match path.components.getLast? with
  | some (.name text) => some text
  | _ => none

/-- What follows the last dot of the file name, unless that dot starts the name. -/
def extension? (path : Path) : Option (List Char) :=
  match path.fileName? with
  | none => none
  | some name =>
    match name.reverse.span (· != '.') with
    | (_, []) => none
    | (_, [_]) => none
    | (after, _ :: _ :: _) => some after.reverse

/-- The runs of a path without the idle ones at its end. -/
def dropIdleEnd (segments : List (List Char)) : List (List Char) :=
  match segments with
  | [] => []
  | first :: rest => first :: (rest.reverse.dropWhile isIdle).reverse

/-- The path spelled by some runs between slashes. -/
def ofSegments : List (List Char) → Path
  | [[]] => ⟨"/"⟩
  | segments => ⟨String.ofList (['/'].intercalate segments)⟩

/-- The path without its last component, spelled as before; none for an empty path and the root. -/
def parent? (path : Path) : Option Path :=
  match dropIdleEnd path.segments with
  | [] => none
  | [[]] => none
  | [_] => some ⟨""⟩
  | first :: rest =>
    some (ofSegments (dropIdleEnd (first :: rest.dropLast)))

/-- The non-empty prefixes of a list, shortest first. -/
def prefixes : List α → List (List α)
  | [] => []
  | a :: rest => [a] :: (prefixes rest).map (a :: ·)

/-- A path and the paths of the directories around it, innermost first. -/
def ancestors (path : Path) : List Path :=
  let around := (prefixes (dropIdleEnd path.segments)).dropLast
  let distinct := around.filter fun segments => dropIdleEnd segments == segments
  path :: (distinct.map ofSegments).reverse

end Path

end CorpusFacts
