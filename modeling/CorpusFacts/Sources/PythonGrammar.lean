import CorpusFacts.Syntax.Grammar

/-!
# The grammar of Python

A logical line ends with a token of its own, and so do the start and the end of what is indented
further. Statements of older versions of the language, which print and execute, are statements too.
Some words are keywords only where they have a meaning: `match`, `type` and the like are names
elsewhere.
-/

namespace CorpusFacts.Python

/-- Sources, simple statements and imports. -/
def statementRules : List (String × List String) := [
  ("Source", ["Statement*"]),
  ("Statement", ["SimpleLine", "CompoundStatement"]),
  ("SimpleLine", ["SimpleStatements <newline>", "SimpleStatements ; <newline>"]),
  ("SimpleStatements", ["SimpleStatement", "SimpleStatements ; SimpleStatement"]),
  ("SimpleStatement", [
    "FutureImport", "ImportStatement", "ImportFromStatement", "PrintStatement",
    "assert Expression%", "Expressions", "Assignment", "AugmentedAssignment", "Yield",
    "return Expressions?", "del Expressions", "raise Expressions? Cause?", "pass", "break",
    "continue", "global Name%", "nonlocal Name%", "ExecStatement", "type Type = Type"]),
  ("Name", ["<identifier>"]),
  ("FutureImport", [
    "from __future__ import ImportList", "from __future__ import ( ImportList )"]),
  ("ImportStatement", ["import ImportList"]),
  ("ImportFromStatement", [
    "from ImportSource import *", "from ImportSource import ImportList",
    "from ImportSource import ( ImportList )"]),
  ("ImportSource", ["DottedName", "Dot+ DottedName?"]),
  ("Dot", ["."]),
  ("ImportList", ["ImportedName% Comma?"]),
  ("ImportedName", ["DottedName", "DottedName as <identifier>"]),
  ("DottedName", ["<identifier>", "DottedName . <identifier>"]),
  ("Comma", [","]),
  ("PrintStatement", [
    "print >> Expression PrintArgument* Comma?", "print Expression% Comma?"]),
  ("PrintArgument", [", Expression"]),
  ("ExecStatement", ["exec ExecSource", "exec ExecSource in Expression%"]),
  ("ExecSource", ["String", "<identifier>"]),
  ("Cause", ["from Expression"]),
  ("Assignment", [
    "LeftSide = RightSide", "LeftSide : Type", "LeftSide : Type = RightSide"]),
  ("AugmentedAssignment", ["LeftSide AugmentedSign RightSide"]),
  ("AugmentedSign", [
    "+=", "-=", "*=", "/=", "@=", "//=", "%=", "**=", ">>=", "<<=", "&=", "^=", "|="]),
  ("LeftSide", ["Pattern", "PatternList"]),
  ("RightSide", ["Expressions", "Assignment", "AugmentedAssignment", "PatternList", "Yield"]),
  ("Yield", ["yield from Expression", "yield Expressions?"])]

/-- Compound statements. -/
def compoundRules : List (String × List String) := [
  ("CompoundStatement", [
    "if Expression : Suite ElifClause* ElseClause?",
    "Async? for LeftSide in Expressions : Suite ElseClause?",
    "while Expression : Suite ElseClause?",
    "try : Suite ExceptClause+ ElseClause? FinallyClause?",
    "try : Suite ExceptGroupClause+ ElseClause? FinallyClause?",
    "try : Suite FinallyClause",
    "Async? with WithItems : Suite",
    "FunctionDefinition", "ClassDefinition", "Decorator+ FunctionDefinition",
    "Decorator+ ClassDefinition", "match Expression% Comma? : Cases"]),
  ("Suite", ["SimpleLine", "<indent> Block", "<newline>"]),
  ("Block", ["Statement* <dedent>"]),
  ("Async", ["async"]),
  ("ElifClause", ["elif Expression : Suite"]),
  ("ElseClause", ["else : Suite"]),
  ("ExceptClause", [
    "except : Suite", "except Expression : Suite", "except Expression as Expression : Suite",
    "except Expression , Expression : Suite"]),
  ("ExceptGroupClause", [
    "except* Expression : Suite", "except* Expression as Expression : Suite"]),
  ("FinallyClause", ["finally : Suite"]),
  ("WithItems", ["Expression% Comma?", "( Expression% Comma? )"]),
  ("FunctionDefinition", [
    "Async? def <identifier> TypeParameters? ( Parameters? ) ReturnType? : Suite"]),
  ("ReturnType", ["-> Type"]),
  ("ClassDefinition", ["class <identifier> TypeParameters? Arguments? : Suite"]),
  ("Decorator", ["@ Expression <newline>"]),
  ("Parameters", ["Parameter% Comma?"]),
  ("Parameter", ["PlainParameter", "TypedParameter"]),
  ("PlainParameter", [
    "<identifier>", "<identifier> = Expression", "TuplePattern", "TuplePattern = Expression",
    "SplatPattern", "DictionarySplatPattern", "*", "/"]),
  ("TypedParameter", [
    "<identifier> : Type", "<identifier> : Type = Expression", "SplatPattern : Type",
    "DictionarySplatPattern : Type"]),
  ("Cases", ["<indent> Case* <dedent>", "<newline>"]),
  ("Case", ["case CasePatterns IfClause? : Suite"]),
  ("CasePatterns", ["CasePattern% Comma?"]),
  ("CasePattern", [
    "CasePattern as <identifier>", "<identifier> = SimplePattern", "SimplePattern"]),
  ("SimplePattern", [
    "DottedName ( CasePatterns? )", "CaseSplat", "SimplePattern | SimplePattern",
    "[ CasePatterns? ]", "( CasePatterns? )", "\x7b CaseEntries? \x7d", "String+", "True", "False",
    "None", "Minus? Number", "Minus? Number PlusMinus Number", "DottedName", "_"]),
  ("CaseSplat", ["* <identifier>", "* _", "** <identifier>", "** _"]),
  ("CaseEntries", ["CaseEntry% Comma?"]),
  ("CaseEntry", ["SimplePattern : CasePattern", "CaseSplat"]),
  ("Minus", ["-"]),
  ("PlusMinus", ["+", "-"])]

/-- Patterns and types. -/
def patternRules : List (String × List String) := [
  ("Pattern", [
    "Identifier", "Subscript", "Attribute", "SplatPattern", "TuplePattern", "[ Patterns? ]"]),
  ("Patterns", ["Pattern% Comma?"]),
  ("PatternList", ["Pattern ,", "Pattern FurtherPattern+ Comma?"]),
  ("FurtherPattern", [", Pattern"]),
  ("TuplePattern", ["( Patterns? )"]),
  ("SplatPattern", ["* SplatTarget"]),
  ("DictionarySplatPattern", ["** SplatTarget"]),
  ("SplatTarget", ["Identifier", "Subscript", "Attribute"]),
  ("Type", [
    "Expression", "* <identifier>", "** <identifier>", "<identifier> TypeParameters",
    "type TypeParameters", "Type | Type", "Type : Type", "Type . <identifier>"]),
  ("TypeParameters", ["[ Type% Comma? ]"])]

/-- Expressions. -/
def expressionRules : List (String × List String) := [
  ("Identifier", ["<identifier>", "print", "exec", "async", "await", "type", "match"]),
  ("Expressions", ["Expression% Comma?"]),
  ("Expression", ["Chain", "Chain if Expression else Expression"]),
  ("Chain", ["Operand", "Chain and Operand", "Chain or Operand", "Chain as Operand"]),
  ("Operand", [
    "Primary", "Primary Comparison+", "not Operand", "lambda LambdaParameters? : Expression",
    "Identifier := Expression"]),
  ("Comparison", ["ComparisonSign Primary"]),
  ("ComparisonSign", [
    "<", "<=", "==", "!=", ">=", ">", "<>", "in", "not in", "is", "is not"]),
  ("LambdaParameters", ["PlainParameter% Comma?"]),
  ("Primary", ["Signed", "Primary BinarySign Signed"]),
  ("Signed", ["Atom", "UnarySign Signed", "await Signed"]),
  ("Atom", [
    "Identifier", "String+", "Number", "True", "False", "None", "Attribute", "Subscript",
    "Atom Generator", "Atom Arguments", "[ Elements? ]", "[ Expression Comprehension ]",
    "\x7b Elements \x7d", "\x7b Expression Comprehension \x7d", "\x7b Entry%? Comma? \x7d",
    "\x7b Pair Comprehension \x7d", "( Elements? )", "( Expression )", "( Yield )", "Generator",
    "...", "SplatPattern"]),
  ("BinarySign", ["+", "-", "*", "@", "/", "%", "//", "**", "|", "&", "^", "<<", ">>"]),
  ("UnarySign", ["+", "-", "~"]),
  ("Number", ["<integer>", "<float>"]),
  ("Attribute", ["Atom . <identifier>"]),
  ("Subscript", ["Atom [ SubscriptItem% Comma? ]"]),
  ("SubscriptItem", ["Expression", "Expression? : Expression? SliceStep?"]),
  ("SliceStep", [": Expression?"]),
  ("Arguments", ["( Argument%? Comma? )"]),
  ("Argument", [
    "Expression", "Splat", "** Expression", "NestedSplat", "Identifier = Expression"]),
  ("Splat", ["* Expression"]),
  ("NestedSplat", ["( Splat )", "( NestedSplat )"]),
  ("Elements", ["Element% Comma?"]),
  ("Element", ["Expression", "Yield", "Splat", "NestedSplat"]),
  ("Entry", ["Pair", "** Expression"]),
  ("Pair", ["Expression : Expression"]),
  ("Generator", ["( Expression Comprehension )"]),
  ("Comprehension", ["ForClause ComprehensionClause*"]),
  ("ComprehensionClause", ["ForClause", "IfClause"]),
  ("ForClause", ["Async? for LeftSide in IteratedExpression% Comma?"]),
  ("IteratedExpression", ["Chain", "lambda LambdaParameters? : IteratedExpression"]),
  ("IfClause", ["if Expression"]),
  ("String", ["<string-start> StringPart* <string-end>"]),
  ("StringPart", [
    "<string-content>", "<escaped-brace>", "<escape>", "\\", "Interpolation"]),
  ("Interpolation", ["\x7b Interpolated Equals? Conversion? Format? \x7d"]),
  ("Interpolated", ["Expressions", "PatternList", "Yield"]),
  ("Equals", ["="]),
  ("Conversion", ["<conversion>"]),
  ("Format", [": FormatPart*"]),
  ("FormatPart", ["<format-text>", "Interpolation"])]

/-- The grammar of Python sources. -/
def grammar : Grammar :=
  .ofRules (statementRules ++ compoundRules ++ patternRules ++ expressionRules)

end CorpusFacts.Python
