/-!
# Kinds of syntax nodes

The vocabulary of a parsed TypeScript or JavaScript file. Every node of a syntax tree either has a
`Kind`, or is a bare token (a keyword, an operator, a bracket) known by its text; `Label` holds the
two cases apart. A child may play a named part in its parent, its `Field`.
-/

namespace ScriptAtlas.Syntax

inductive Kind where
  -- modules
  | program | hashBangLine | comment
  | exportStatement | exportClause | exportSpecifier | namespaceExport
  | importStatement | importClause | importSpecifier | namedImports | namespaceImport
  | importRequireClause | importAlias | importAttribute
  -- declarations
  | ambientDeclaration | moduleDeclaration | internalModule
  | functionSignature | functionDeclaration | generatorFunctionDeclaration
  | classDeclaration | abstractClassDeclaration | classExpression | classBody | classHeritage
  | extendsClause | implementsClause | methodDefinition | methodSignature
  | abstractMethodSignature | fieldDefinition | classStaticBlock
  | interfaceDeclaration | interfaceBody | extendsTypeClause | typeAliasDeclaration
  | enumDeclaration | enumBody | enumAssignment
  | lexicalDeclaration | variableDeclaration | variableDeclarator
  | decorator | accessibilityModifier | overrideModifier
  -- statements
  | statementBlock | expressionStatement | ifStatement | elseClause | switchStatement
  | switchBody | switchCase | switchDefault | forStatement | forInStatement | whileStatement
  | doStatement | tryStatement | catchClause | finallyClause | withStatement | breakStatement
  | continueStatement | debuggerStatement | returnStatement | throwStatement | emptyStatement
  | labeledStatement
  -- names
  | identifier | propertyIdentifier | typeIdentifier | privatePropertyIdentifier
  | shorthandPropertyIdentifier | shorthandPropertyIdentifierPattern | statementIdentifier
  | nestedIdentifier | nestedTypeIdentifier | computedPropertyName
  -- literals
  | undefinedLiteral | nullLiteral | trueLiteral | falseLiteral | number | string
  | stringFragment | escapeSequence | templateString | templateSubstitution | regex
  | regexPattern | regexFlags
  -- expressions
  | thisExpression | superExpression | importKeyword | metaProperty | object | pair
  | spreadElement | array | parenthesizedExpression | sequenceExpression
  | assignmentExpression | augmentedAssignmentExpression | awaitExpression | yieldExpression
  | unaryExpression | binaryExpression | ternaryExpression | updateExpression | newExpression
  | callExpression | memberExpression | subscriptExpression | optionalChain | arguments
  | arrowFunction | functionExpression | generatorFunction | nonNullExpression | asExpression
  | satisfiesExpression | typeAssertion | instantiationExpression
  -- patterns and parameters
  | objectPattern | arrayPattern | pairPattern | restPattern | assignmentPattern
  | objectAssignmentPattern | formalParameters | requiredParameter | optionalParameter
  -- types
  | annotatedType | annotatedPredicate | annotatedAsserts | typePredicate | asserts
  | typeArguments | typeParameters | typeParameter | constraint | defaultType | predefinedType
  | genericType | objectType | propertySignature | callSignature | constructSignature
  | indexSignature | mappedTypeClause | omittingType | addingType | optingType | arrayType
  | tupleType | optionalType | restType | unionType | intersectionType | conditionalType
  | functionType | constructorType | readonlyType | inferType | typeQuery | indexTypeQuery
  | lookupType | literalType | templateLiteralType | templateType | parenthesizedType | thisType
  -- markup
  | markupElement | markupOpening | markupClosing | markupSelfClosing | markupAttribute
  | markupExpression | markupText | markupNamespaceName
deriving DecidableEq, Repr, Inhabited

/-- The part a child plays in its parent. -/
inductive Field where
  | name | alias | source | declaration | value | body | parameters | parameter | returnType
  | typeParameters | typeArguments | type | constraint | decorator | condition | consequence
  | alternative | initializer | increment | left | right | operator | kind | label | argument
  | arguments | function | constructor | object | property | index | optionalChain | key
  | pattern | qualifier | handler | finalizer | openTag | closeTag | attribute | indexType
  | sign | flags
deriving DecidableEq, Repr

/-- What a node is: a construct of the language, or a token known by its text. -/
inductive Label where
  | named (kind : Kind)
  | token (text : String)
deriving DecidableEq, Repr, Inhabited

namespace Label

def kind? : Label → Option Kind
  | named k => some k
  | token _ => none

def isNamed : Label → Bool
  | named _ => true
  | token _ => false

end Label

namespace Kind

def isIdentifier : Kind → Bool
  | identifier | typeIdentifier | propertyIdentifier | shorthandPropertyIdentifier
  | shorthandPropertyIdentifierPattern | privatePropertyIdentifier => true
  | _ => false

def isFunctionExpression : Kind → Bool
  | functionExpression | generatorFunction | arrowFunction => true
  | _ => false

def isFunctionLike : Kind → Bool
  | functionDeclaration | generatorFunctionDeclaration | functionSignature | methodDefinition
  | methodSignature | abstractMethodSignature => true
  | k => k.isFunctionExpression

/-- Wrappers that do not change which value an expression denotes: parentheses, `as`,
`satisfies`, `!` and angle-bracket assertions. -/
def isTransparentWrapper : Kind → Bool
  | parenthesizedExpression | asExpression | satisfiesExpression | nonNullExpression
  | typeAssertion => true
  | _ => false

end Kind

end ScriptAtlas.Syntax
