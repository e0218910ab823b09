/-!
# Syntax trees

Every language is read into the same kind of tree. A node covers a range of bytes of its source,
starts on a line, and owns its children; the preorder of a tree lists parents before children.
-/

namespace CorpusFacts

/-- What a node of a syntax tree is. -/
inductive NodeKind where
  /-- A whole script or brace-language source. -/
  | script
  /-- A statement of a script. -/
  | statement
  /-- A header with statements between braces. -/
  | block
  /-- The statement that introduces a block. -/
  | blockHeader
  /-- An import of a script language. -/
  | importDirective
  /-- The package of a script language source. -/
  | packageDirective
  /-- A whole properties file. -/
  | properties
  /-- One logical line of a properties file. -/
  | property
  /-- A whole Java source. -/
  | program
  /-- A whole Python source. -/
  | pythonModule
  /-- An import of a Java source. -/
  | importDeclaration
  /-- The package of a Java source. -/
  | packageDeclaration
  /-- An import of modules. -/
  | importStatement
  /-- An import of names from a module. -/
  | importFromStatement
  /-- Identifiers joined by dots. -/
  | dottedName
  /-- An imported name that is given another one. -/
  | aliasedImport
  /-- A module named relative to its own package. -/
  | relativeImport
  /-- All names of a module. -/
  | wildcardImport
  /-- A single name. -/
  | identifier
  deriving DecidableEq, Repr

namespace NodeKind

/-- The name of a node kind. -/
def name : NodeKind → String
  | script => "script"
  | statement => "statement"
  | block => "block"
  | blockHeader => "block_header"
  | importDirective => "import_directive"
  | packageDirective => "package_directive"
  | properties => "properties"
  | property => "property"
  | program => "program"
  | pythonModule => "module"
  | importDeclaration => "import_declaration"
  | packageDeclaration => "package_declaration"
  | importStatement => "import_statement"
  | importFromStatement => "import_from_statement"
  | dottedName => "dotted_name"
  | aliasedImport => "aliased_import"
  | relativeImport => "relative_import"
  | wildcardImport => "wildcard_import"
  | identifier => "identifier"

end NodeKind

/-- The role that a node has in its parent, where the parent gives one. -/
inductive Role where
  /-- The header of a block. -/
  | header
  /-- An imported name. -/
  | name
  /-- The module that names are imported from. -/
  | moduleName
  deriving DecidableEq, Repr

namespace Role

/-- The name of a role. -/
def label : Role → String
  | header => "header"
  | name => "name"
  | moduleName => "module_name"

end Role

/-- A node of a syntax tree. -/
inductive Node where
  /-- A node with its range of bytes, the line it starts on, and its children. -/
  | mk (kind : NodeKind) (role : Option Role) (start stop line : Nat) (children : List Node)

namespace Node

/-- What the node is. -/
def kind : Node → NodeKind
  | mk kind .. => kind

/-- The role of the node in its parent. -/
def role : Node → Option Role
  | mk _ role .. => role

/-- The first byte the node covers. -/
def start : Node → Nat
  | mk _ _ start .. => start

/-- The byte after the last one the node covers. -/
def stop : Node → Nat
  | mk _ _ _ stop .. => stop

/-- The line the node starts on, from 1. -/
def line : Node → Nat
  | mk _ _ _ _ line _ => line

/-- The nodes directly below. -/
def children : Node → List Node
  | mk _ _ _ _ _ children => children

/-- The first child of a kind. -/
def childOfKind? (node : Node) (kind : NodeKind) : Option Node :=
  node.children.find? (·.kind == kind)

/-- The children with a role, in order. -/
def childrenWithRole (node : Node) (role : Role) : List Node :=
  node.children.filter (·.role == some role)

mutual

/-- A node and all nodes below it, parents first, each with its depth counted from `depth`. -/
def preorderFrom (depth : Nat) : Node → List (Nat × Node)
  | node@(mk _ _ _ _ _ children) => (depth, node) :: preorderAll (depth + 1) children

/-- The preorders of some siblings, one after the other. -/
def preorderAll (depth : Nat) : List Node → List (Nat × Node)
  | [] => []
  | node :: siblings => preorderFrom depth node ++ preorderAll depth siblings

end

/-- A node and all nodes below it, parents first, with their depths. -/
def preorder (node : Node) : List (Nat × Node) :=
  node.preorderFrom 0

mutual

/-- The number of nodes of a tree. -/
def count : Node → Nat
  | mk _ _ _ _ _ children => countAll children + 1

/-- The number of nodes of some trees. -/
def countAll : List Node → Nat
  | [] => 0
  | node :: siblings => node.count + countAll siblings

end

theorem countAll_append (first second : List Node) :
    countAll (first ++ second) = countAll first + countAll second := by
  induction first with
  | nil => exact (Nat.zero_add _).symm
  | cons node first ih => rw [List.cons_append, countAll, countAll, ih, Nat.add_assoc]

/-- The nodes of a stack of trees. The node on top is popped, and its children take its place, the
first of them on top. -/
def unstack : List Node → List Node
  | [] => []
  | node@(mk _ _ _ _ _ children) :: stack => node :: unstack (children ++ stack)
termination_by stack => countAll stack
decreasing_by
  rw [countAll_append, countAll, count]
  omega

end Node

end CorpusFacts
