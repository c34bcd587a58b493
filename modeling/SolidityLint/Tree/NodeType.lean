/-!
# Node types

The syntactic categories a Solidity parser tags its nodes with. A name outside the
list below belongs to no category the linter can dispatch on, and is read as
`NodeType.unknown`; so is the name `Unknown` itself, which is why reading the name of
any category gives that category back.
-/

namespace SolidityLint

/-- The category of a syntax tree node. -/
inductive NodeType where
  | sourceUnit | pragmaDirective | importDirective | contractDefinition
  | inheritanceSpecifier | stateVariableDeclaration | usingForDeclaration
  | structDefinition | modifierDefinition | modifierInvocation | functionDefinition
  | eventDefinition | enumDefinition | enumValue | parameterList | parameter
  | variableDeclaration | variableDeclarationStatement | userDefinedTypeName
  | elementaryTypeName | mapping | arrayTypeName | functionTypeName | block
  | expressionStatement | ifStatement | whileStatement | forStatement
  | doWhileStatement | continueStatement | breakStatement | returnStatement
  | emitStatement | throwStatement | inlineAssemblyStatement | functionCall
  | memberAccess | indexAccess | binaryOperation | unaryOperation | conditional
  | tupleExpression | identifier | numberLiteral | booleanLiteral | stringLiteral
  | hexLiteral
  /-- Whatever the linter has no category for. -/
  | unknown
  deriving DecidableEq, Repr, Inhabited

namespace NodeType

/-- The name a parser writes for a category. -/
def name : NodeType → String
  | sourceUnit => "SourceUnit"
  | pragmaDirective => "PragmaDirective"
  | importDirective => "ImportDirective"
  | contractDefinition => "ContractDefinition"
  | inheritanceSpecifier => "InheritanceSpecifier"
  | stateVariableDeclaration => "StateVariableDeclaration"
  | usingForDeclaration => "UsingForDeclaration"
  | structDefinition => "StructDefinition"
  | modifierDefinition => "ModifierDefinition"
  | modifierInvocation => "ModifierInvocation"
  | functionDefinition => "FunctionDefinition"
  | eventDefinition => "EventDefinition"
  | enumDefinition => "EnumDefinition"
  | enumValue => "EnumValue"
  | parameterList => "ParameterList"
  | parameter => "Parameter"
  | variableDeclaration => "VariableDeclaration"
  | variableDeclarationStatement => "VariableDeclarationStatement"
  | userDefinedTypeName => "UserDefinedTypeName"
  | elementaryTypeName => "ElementaryTypeName"
  | mapping => "Mapping"
  | arrayTypeName => "ArrayTypeName"
  | functionTypeName => "FunctionTypeName"
  | block => "Block"
  | expressionStatement => "ExpressionStatement"
  | ifStatement => "IfStatement"
  | whileStatement => "WhileStatement"
  | forStatement => "ForStatement"
  | doWhileStatement => "DoWhileStatement"
  | continueStatement => "ContinueStatement"
  | breakStatement => "BreakStatement"
  | returnStatement => "ReturnStatement"
  | emitStatement => "EmitStatement"
  | throwStatement => "ThrowStatement"
  | inlineAssemblyStatement => "InlineAssemblyStatement"
  | functionCall => "FunctionCall"
  | memberAccess => "MemberAccess"
  | indexAccess => "IndexAccess"
  | binaryOperation => "BinaryOperation"
  | unaryOperation => "UnaryOperation"
  | conditional => "Conditional"
  | tupleExpression => "TupleExpression"
  | identifier => "Identifier"
  | numberLiteral => "NumberLiteral"
  | booleanLiteral => "BooleanLiteral"
  | stringLiteral => "StringLiteral"
  | hexLiteral => "HexLiteral"
  | unknown => "Unknown"

/-- Every category but `unknown`. -/
def known : List NodeType :=
  [sourceUnit, pragmaDirective, importDirective, contractDefinition,
    inheritanceSpecifier, stateVariableDeclaration, usingForDeclaration,
    structDefinition, modifierDefinition, modifierInvocation, functionDefinition,
    eventDefinition, enumDefinition, enumValue, parameterList, parameter,
    variableDeclaration, variableDeclarationStatement, userDefinedTypeName,
    elementaryTypeName, mapping, arrayTypeName, functionTypeName, block,
    expressionStatement, ifStatement, whileStatement, forStatement,
    doWhileStatement, continueStatement, breakStatement, returnStatement,
    emitStatement, throwStatement, inlineAssemblyStatement, functionCall,
    memberAccess, indexAccess, binaryOperation, unaryOperation, conditional,
    tupleExpression, identifier, numberLiteral, booleanLiteral, stringLiteral,
    hexLiteral]

/-- The category a name stands for; a name of no known category stands for `unknown`. -/
def ofName (s : String) : NodeType :=
  (known.find? fun t => t.name == s).getD unknown

/-- Reading a category's name gives the category back. -/
theorem ofName_name (t : NodeType) : ofName t.name = t := by
  cases t <;> decide +kernel

end NodeType

end SolidityLint
