import CorpusFacts.Syntax.Grammar

/-!
# The grammar of Java

Statements and methods may stand at the top level, and imports and packages wherever a statement
may. Some words are keywords only where they have a meaning: `record`, `sealed` and the like are
names elsewhere. A mark with `!` behind it stands directly behind the token before it; so a shift is
written as several brackets that could also close nested type arguments.
-/

namespace CorpusFacts.Java

/-- Sources, names and modules. -/
def sourceRules : List (String × List String) := [
  ("Source", ["TopLevelStatement*"]),
  ("TopLevelStatement", ["Statement", "MethodDeclaration"]),
  ("Identifier", ["<identifier>", "ContextualName"]),
  ("ContextualName", ["open", "module", "record", "with", "sealed", "yield"]),
  ("VariableName", ["Identifier", "_"]),
  ("Name", ["Identifier", "Name . Identifier"]),
  ("PackageDeclaration", ["Annotation* package Name ;"]),
  ("ImportDeclaration", ["import Static? Name StarSelector? ;"]),
  ("Static", ["static"]),
  ("StarSelector", [". *"]),
  ("ModuleDeclaration", ["Annotation* Open? module Name \x7b ModuleDirective* \x7d"]),
  ("Open", ["open"]),
  ("ModuleDirective", [
    "requires RequiresModifier* Name ;",
    "exports Name ExportTarget? ;",
    "opens Name ExportTarget? ;",
    "uses Name ;",
    "provides Name with Name% ;"]),
  ("RequiresModifier", ["transitive", "static"]),
  ("ExportTarget", ["to Name%"])]

/-- Types, their parameters and arguments, and annotations. -/
def typeRules : List (String × List String) := [
  ("Type", ["PlainType", "AnnotatedType"]),
  ("AnnotatedType", ["Annotation+ PlainType"]),
  ("PlainType", ["ElementType", "PlainType Dimensions"]),
  ("ElementType", ["PrimitiveType", "<identifier>", "ScopedType", "GenericType"]),
  ("PrimitiveType", [
    "void", "byte", "short", "int", "long", "char", "float", "double", "boolean"]),
  ("ScopedType", ["TypeScope . Annotation* <identifier>"]),
  ("TypeScope", ["<identifier>", "ScopedType", "GenericType"]),
  ("GenericType", ["<identifier> TypeArguments", "ScopedType TypeArguments"]),
  ("TypeArguments", ["< TypeArgument%? >"]),
  ("TypeArgument", ["Type", "Annotation* ? WildcardBound?"]),
  ("WildcardBound", ["extends Type", "super Type"]),
  ("Dimensions", ["Dimension+"]),
  ("Dimension", ["Annotation* [ ]"]),
  ("TypeParameters", ["< TypeParameter% >"]),
  ("TypeParameter", ["Annotation* <identifier> TypeBound?"]),
  ("TypeBound", ["extends Type FurtherBound*"]),
  ("FurtherBound", ["& Type"]),
  ("Annotation", ["@ Name", "@ Name ( AnnotationArguments )"]),
  ("AnnotationArguments", ["ElementValue", "ElementPair%?"]),
  ("ElementPair", ["Identifier = ElementValue"]),
  ("ElementValue", ["Expression", "\x7b ElementValue%? Comma? \x7d", "Annotation"]),
  ("Comma", [","]),
  ("Modifiers", ["Modifier+"]),
  ("Modifier", [
    "Annotation", "public", "protected", "private", "abstract", "static", "final", "strictfp",
    "default", "synchronized", "native", "transient", "volatile", "sealed", "non-sealed"])]

/-- Declarations of types, and of their members. -/
def declarationRules : List (String × List String) := [
  ("Declaration", [
    "ModuleDeclaration", "PackageDeclaration", "ImportDeclaration", "ClassDeclaration",
    "RecordDeclaration", "InterfaceDeclaration", "AnnotationDeclaration", "EnumDeclaration"]),
  ("ClassDeclaration", [
    "Modifiers? class <identifier> TypeParameters? Superclass? Interfaces? Permits? ClassBody"]),
  ("Superclass", ["extends Type"]),
  ("Interfaces", ["implements Type%"]),
  ("Permits", ["permits Type%"]),
  ("RecordDeclaration", [
    "Modifiers? record <identifier> TypeParameters? Parameters Interfaces? ClassBody"]),
  ("InterfaceDeclaration", [
    "Modifiers? interface <identifier> TypeParameters? Superinterfaces? Permits? InterfaceBody"]),
  ("Superinterfaces", ["extends Type%"]),
  ("EnumDeclaration", ["Modifiers? enum <identifier> Interfaces? EnumBody"]),
  ("EnumBody", ["\x7b EnumConstant%? Comma? EnumMembers? \x7d"]),
  ("EnumMembers", ["; ClassMember*"]),
  ("EnumConstant", ["Modifiers? <identifier> Arguments? ClassBody?"]),
  ("AnnotationDeclaration", ["Modifiers? @interface <identifier> AnnotationBody"]),
  ("AnnotationBody", ["\x7b AnnotationMember* \x7d"]),
  ("AnnotationMember", [
    "AnnotationElement", "VariableDeclaration", "ClassDeclaration", "InterfaceDeclaration",
    "EnumDeclaration", "AnnotationDeclaration", ";"]),
  ("AnnotationElement", ["Modifiers? PlainType Identifier ( ) Dimensions? DefaultValue? ;"]),
  ("DefaultValue", ["default ElementValue"]),
  ("InterfaceBody", ["\x7b InterfaceMember* \x7d"]),
  ("InterfaceMember", [
    "VariableDeclaration", "EnumDeclaration", "MethodDeclaration", "ClassDeclaration",
    "InterfaceDeclaration", "RecordDeclaration", "AnnotationDeclaration", ";"]),
  ("ClassBody", ["\x7b ClassMember* \x7d"]),
  ("ClassMember", [
    "VariableDeclaration", "RecordDeclaration", "MethodDeclaration", "CompactConstructor",
    "ClassDeclaration", "InterfaceDeclaration", "AnnotationDeclaration", "EnumDeclaration", "Block",
    "static Block", "Constructor", ";"]),
  ("CompactConstructor", ["Modifiers? <identifier> Block"]),
  ("Constructor", ["Modifiers? TypeParameters? <identifier> Parameters Throws? ConstructorBody"]),
  ("ConstructorBody", ["\x7b ConstructorCall? Statement* \x7d"]),
  ("ConstructorCall", [
    "TypeArguments? this Arguments ;", "TypeArguments? super Arguments ;",
    "Primary . TypeArguments? super Arguments ;"]),
  ("MethodDeclaration", ["Modifiers? MethodHeader Block", "Modifiers? MethodHeader ;"]),
  ("MethodHeader", ["MethodTypes? PlainType Identifier Parameters Dimensions? Throws?"]),
  ("MethodTypes", ["TypeParameters Annotation*"]),
  ("Throws", ["throws Type%"]),
  ("Parameters", [
    "( Receiver )", "( Parameter%? )", "( Receiver , Parameter%? )"]),
  ("Receiver", ["Annotation* PlainType ReceiverScope* this"]),
  ("ReceiverScope", ["<identifier> ."]),
  ("Parameter", [
    "Modifiers? PlainType VariableId", "Modifiers? PlainType ... Annotation* Variable"]),
  ("VariableDeclaration", ["Modifiers? PlainType Variable% ;"]),
  ("Variable", ["VariableId", "VariableId = VariableValue"]),
  ("VariableId", ["VariableName Dimensions?"]),
  ("VariableValue", ["Expression", "ArrayValue"]),
  ("ArrayValue", ["\x7b VariableValue%? Comma? \x7d"])]

/-- Statements. -/
def statementRules : List (String × List String) := [
  ("Statement", [
    "Declaration", "ExpressionStatement", "<identifier> : Statement", "VariableDeclaration",
    "Block", ";", "Switch",
    "if Condition Statement", "if Condition Statement else Statement",
    "while Condition Statement", "do Statement while Condition ;",
    "for ( VariableDeclaration ForRest", "for ( Expression%? ; ForRest",
    "for ( Modifiers? PlainType VariableId : Expression ) Statement",
    "assert Expression ;", "assert Expression : Expression ;",
    "break <identifier> ;", "break ;", "continue <identifier> ;", "continue ;",
    "return Expression ;", "return ;", "yield Expression ;", "ThrowStatement",
    "synchronized Condition Block",
    "try Block CatchClause+", "try Block CatchClause* FinallyClause",
    "try ( Resources ) Block CatchClause*", "try ( Resources ) Block CatchClause* FinallyClause"]),
  ("Block", ["\x7b Statement* \x7d"]),
  ("ExpressionStatement", ["Expression ;"]),
  ("ThrowStatement", ["throw Expression ;"]),
  ("Condition", ["( Expression )"]),
  ("ForRest", ["; Expression%? ) Statement", "Expression ; Expression%? ) Statement"]),
  ("CatchClause", ["catch ( Modifiers? CaughtTypes VariableId ) Block"]),
  ("CaughtTypes", ["PlainType", "CaughtTypes | PlainType"]),
  ("FinallyClause", ["finally Block"]),
  ("Resources", ["ResourceList", "ResourceList ;"]),
  ("ResourceList", ["Resource", "ResourceList ; Resource"]),
  ("Resource", [
    "Modifiers? PlainType VariableId = Expression", "<identifier>", "FieldAccess"]),
  ("Switch", ["switch Condition \x7b SwitchGroup* \x7d", "switch Condition \x7b SwitchRule* \x7d"]),
  ("SwitchGroup", ["GroupLabel+ Statement*"]),
  ("GroupLabel", ["SwitchLabel :"]),
  ("SwitchRule", [
    "SwitchLabel -> ExpressionStatement", "SwitchLabel -> ThrowStatement", "SwitchLabel -> Block"]),
  ("SwitchLabel", ["case Pattern Guard?", "case Expression% Guard?", "default"]),
  ("Guard", ["when Expression"]),
  ("Pattern", ["PlainType Identifier", "RecordPattern"]),
  ("RecordPattern", ["Identifier PatternBody", "GenericType PatternBody"]),
  ("PatternBody", ["( PatternComponent%? )"]),
  ("PatternComponent", ["_", "PlainType Identifier", "RecordPattern"])]

/-- Expressions. How tightly operators bind makes no difference to what is well-formed. -/
def expressionRules : List (String × List String) := [
  ("Expression", ["Chain", "Chain ? Expression : Expression"]),
  ("Chain", [
    "Operand", "Chain BinarySign Operand", "Chain instanceof Final? InstancePattern"]),
  ("Operand", [
    "Primary", "Lambda", "Switch", "Target AssignmentSign Expression", "UnarySign Operand",
    "Operand UpdateSign", "UpdateSign Operand", "( Type ) Operand", "( CastTypes ) Primary",
    "( CastTypes ) Lambda"]),
  ("Final", ["final"]),
  ("InstancePattern", ["Type", "Type Identifier", "RecordPattern"]),
  ("CastTypes", ["Type", "CastTypes & Type"]),
  ("Target", ["Identifier", "FieldAccess", "ArrayAccess"]),
  ("AssignmentSign", [
    "=", "+=", "-=", "*=", "/=", "&=", "|=", "^=", "%=", "<<=", "> >! =!", "> >! >! =!"]),
  ("BinarySign", [
    "<", "<=", ">", "> =!", "==", "!=", "&&", "||", "+", "-", "*", "/", "%", "&", "|", "^", "<<",
    "> >!", "> >! >!"]),
  ("UnarySign", ["+", "-", "!", "~"]),
  ("UpdateSign", ["++", "--"]),
  ("Lambda", ["LambdaParameters -> Expression", "LambdaParameters -> Block"]),
  ("LambdaParameters", ["Identifier", "Parameters", "( Identifier% )"]),
  ("Primary", [
    "Literal", "PlainType . class", "this", "Identifier", "( Expression )", "Creation",
    "Primary . Creation", "FieldAccess", "ArrayAccess", "Call", "MethodReference", "ArrayCreation",
    "Primary . StringLiteral"]),
  ("Creation", [
    "new Annotation* ElementType Arguments ClassBody?",
    "new Annotation* TypeArguments Annotation* ElementType Arguments ClassBody?"]),
  ("ArrayCreation", [
    "new Annotation* ElementType SizedDimension+ Dimensions?",
    "new Annotation* ElementType Dimensions ArrayValue"]),
  ("SizedDimension", ["Annotation* [ Expression ]"]),
  ("FieldAccess", ["Scope . FieldName", "Scope . super . FieldName"]),
  ("FieldName", ["Identifier", "this"]),
  ("Scope", ["Primary", "super"]),
  ("ArrayAccess", ["Primary [ Expression ]"]),
  ("Call", [
    "Identifier Arguments", "Scope . TypeArguments? Identifier Arguments",
    "Scope . super . TypeArguments? Identifier Arguments"]),
  ("Arguments", ["( Expression%? )"]),
  ("MethodReference", [
    "Type :: TypeArguments? MethodName", "Primary :: TypeArguments? MethodName",
    "super :: TypeArguments? MethodName"]),
  ("MethodName", ["new", "<identifier>"]),
  ("Literal", ["<number>", "true", "false", "<character>", "StringLiteral", "null"]),
  ("StringLiteral", ["\" StringPart* \"", "\"\"\" TextPart* \"\"\""]),
  ("StringPart", ["<characters>", "EmbeddedExpression"]),
  ("TextPart", ["<lines>", "EmbeddedExpression"]),
  ("EmbeddedExpression", ["\\\x7b Expression \x7d"])]

/-- The grammar of Java sources. -/
def grammar : Grammar :=
  .ofRules (sourceRules ++ typeRules ++ declarationRules ++ statementRules ++ expressionRules)

end CorpusFacts.Java
