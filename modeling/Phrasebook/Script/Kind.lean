/-!
# Phrasebook — kinds of syntax tree nodes

Every node of a concrete syntax tree has a kind. The kind `token` is shared by all keywords,
operators and punctuation; every other kind is *named*, and its name is what an outline of the
tree shows.
-/

namespace Phrasebook.Script

/-- The kind of a node of a concrete syntax tree. -/
inductive Kind where
  | token
  | comment
  | error
  | program
  | hashBangLine
  | htmlComment
  | expressionStatement
  | emptyStatement
  | statementBlock
  | variableDeclaration
  | lexicalDeclaration
  | variableDeclarator
  | ifStatement
  | elseClause
  | whileStatement
  | doStatement
  | forStatement
  | forInStatement
  | switchStatement
  | switchBody
  | switchCase
  | switchDefault
  | tryStatement
  | catchClause
  | finallyClause
  | returnStatement
  | throwStatement
  | breakStatement
  | continueStatement
  | labeledStatement
  | statementIdentifier
  | debuggerStatement
  | withStatement
  | functionDeclaration
  | generatorFunctionDeclaration
  | classDeclaration
  | classHeritage
  | classBody
  | methodDefinition
  | fieldDefinition
  | classStaticBlock
  | decorator
  | importStatement
  | importClause
  | namespaceImport
  | namedImports
  | importSpecifier
  | importAttribute
  | importKeyword
  | exportStatement
  | exportClause
  | exportSpecifier
  | namespaceExport
  | parenthesizedExpression
  | sequenceExpression
  | assignmentExpression
  | augmentedAssignmentExpression
  | ternaryExpression
  | binaryExpression
  | unaryExpression
  | updateExpression
  | awaitExpression
  | yieldExpression
  | spreadElement
  | arrayLiteral
  | objectLiteral
  | pair
  | shorthandPropertyIdentifier
  | propertyIdentifier
  | privatePropertyIdentifier
  | computedPropertyName
  | functionExpression
  | generatorFunction
  | arrowFunction
  | formalParameters
  | assignmentPattern
  | restPattern
  | arrayPattern
  | objectPattern
  | shorthandPropertyIdentifierPattern
  | objectAssignmentPattern
  | pairPattern
  | classExpression
  | memberExpression
  | subscriptExpression
  | optionalChain
  | callExpression
  | arguments
  | newExpression
  | metaProperty
  | identifier
  | thisKeyword
  | superKeyword
  | undefinedKeyword
  | stringLiteral
  | stringFragment
  | escapeSequence
  | templateString
  | templateSubstitution
  | numberLiteral
  | regexLiteral
  | regexPattern
  | regexFlags
  | trueLiteral
  | falseLiteral
  | nullLiteral
  | jsxElement
  | jsxOpeningElement
  | jsxClosingElement
  | jsxSelfClosingElement
  | jsxAttribute
  | jsxNamespaceName
  | jsxExpression
  | jsxText
  | htmlCharacterReference
deriving DecidableEq

namespace Kind

/-- The name of a kind. -/
def name : Kind → String
  | .token => "token"
  | .comment => "comment"
  | .error => "ERROR"
  | .program => "program"
  | .hashBangLine => "hash_bang_line"
  | .htmlComment => "html_comment"
  | .expressionStatement => "expression_statement"
  | .emptyStatement => "empty_statement"
  | .statementBlock => "statement_block"
  | .variableDeclaration => "variable_declaration"
  | .lexicalDeclaration => "lexical_declaration"
  | .variableDeclarator => "variable_declarator"
  | .ifStatement => "if_statement"
  | .elseClause => "else_clause"
  | .whileStatement => "while_statement"
  | .doStatement => "do_statement"
  | .forStatement => "for_statement"
  | .forInStatement => "for_in_statement"
  | .switchStatement => "switch_statement"
  | .switchBody => "switch_body"
  | .switchCase => "switch_case"
  | .switchDefault => "switch_default"
  | .tryStatement => "try_statement"
  | .catchClause => "catch_clause"
  | .finallyClause => "finally_clause"
  | .returnStatement => "return_statement"
  | .throwStatement => "throw_statement"
  | .breakStatement => "break_statement"
  | .continueStatement => "continue_statement"
  | .labeledStatement => "labeled_statement"
  | .statementIdentifier => "statement_identifier"
  | .debuggerStatement => "debugger_statement"
  | .withStatement => "with_statement"
  | .functionDeclaration => "function_declaration"
  | .generatorFunctionDeclaration => "generator_function_declaration"
  | .classDeclaration => "class_declaration"
  | .classHeritage => "class_heritage"
  | .classBody => "class_body"
  | .methodDefinition => "method_definition"
  | .fieldDefinition => "field_definition"
  | .classStaticBlock => "class_static_block"
  | .decorator => "decorator"
  | .importStatement => "import_statement"
  | .importClause => "import_clause"
  | .namespaceImport => "namespace_import"
  | .namedImports => "named_imports"
  | .importSpecifier => "import_specifier"
  | .importAttribute => "import_attribute"
  | .importKeyword => "import"
  | .exportStatement => "export_statement"
  | .exportClause => "export_clause"
  | .exportSpecifier => "export_specifier"
  | .namespaceExport => "namespace_export"
  | .parenthesizedExpression => "parenthesized_expression"
  | .sequenceExpression => "sequence_expression"
  | .assignmentExpression => "assignment_expression"
  | .augmentedAssignmentExpression => "augmented_assignment_expression"
  | .ternaryExpression => "ternary_expression"
  | .binaryExpression => "binary_expression"
  | .unaryExpression => "unary_expression"
  | .updateExpression => "update_expression"
  | .awaitExpression => "await_expression"
  | .yieldExpression => "yield_expression"
  | .spreadElement => "spread_element"
  | .arrayLiteral => "array"
  | .objectLiteral => "object"
  | .pair => "pair"
  | .shorthandPropertyIdentifier => "shorthand_property_identifier"
  | .propertyIdentifier => "property_identifier"
  | .privatePropertyIdentifier => "private_property_identifier"
  | .computedPropertyName => "computed_property_name"
  | .functionExpression => "function_expression"
  | .generatorFunction => "generator_function"
  | .arrowFunction => "arrow_function"
  | .formalParameters => "formal_parameters"
  | .assignmentPattern => "assignment_pattern"
  | .restPattern => "rest_pattern"
  | .arrayPattern => "array_pattern"
  | .objectPattern => "object_pattern"
  | .shorthandPropertyIdentifierPattern => "shorthand_property_identifier_pattern"
  | .objectAssignmentPattern => "object_assignment_pattern"
  | .pairPattern => "pair_pattern"
  | .classExpression => "class"
  | .memberExpression => "member_expression"
  | .subscriptExpression => "subscript_expression"
  | .optionalChain => "optional_chain"
  | .callExpression => "call_expression"
  | .arguments => "arguments"
  | .newExpression => "new_expression"
  | .metaProperty => "meta_property"
  | .identifier => "identifier"
  | .thisKeyword => "this"
  | .superKeyword => "super"
  | .undefinedKeyword => "undefined"
  | .stringLiteral => "string"
  | .stringFragment => "string_fragment"
  | .escapeSequence => "escape_sequence"
  | .templateString => "template_string"
  | .templateSubstitution => "template_substitution"
  | .numberLiteral => "number"
  | .regexLiteral => "regex"
  | .regexPattern => "regex_pattern"
  | .regexFlags => "regex_flags"
  | .trueLiteral => "true"
  | .falseLiteral => "false"
  | .nullLiteral => "null"
  | .jsxElement => "jsx_element"
  | .jsxOpeningElement => "jsx_opening_element"
  | .jsxClosingElement => "jsx_closing_element"
  | .jsxSelfClosingElement => "jsx_self_closing_element"
  | .jsxAttribute => "jsx_attribute"
  | .jsxNamespaceName => "jsx_namespace_name"
  | .jsxExpression => "jsx_expression"
  | .jsxText => "jsx_text"
  | .htmlCharacterReference => "html_character_reference"

/-- Whether nodes of a kind are more than keywords, operators and punctuation. -/
def isNamed : Kind → Bool
  | .token => false
  | _ => true

/-- Comments in script syntax; comments in page syntax count as nodes of their own. -/
def isComment : Kind → Bool
  | .comment => true
  | _ => false

/-- Kinds that may stand between any two tokens. -/
def isExtra : Kind → Bool
  | .comment | .htmlComment => true
  | _ => false

end Kind

end Phrasebook.Script
