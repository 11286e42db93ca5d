/-!
The kinds of node of a concrete tree.  The comment on a kind lists the fields
of its nodes; `*` marks a field that may repeat and `?` one that may be absent.
Flag fields are empty leaves whose presence is the information.
-/

namespace PhpCheck

/-- The kind of a tree node. -/
inductive NodeKind where
  /-- Root node; children are statements. -/
  | sourceFile
  /-- Text outside `<?php ... ?>` (leaf). -/
  | inlineHtml
  /-- Written `{ ... }` or the body of an alternative-syntax block. -/
  | block
  /-- Written `;`. -/
  | emptyStatement
  /-- Written `echo a, b;` / `<?= a ?>`; children are expressions. -/
  | echoStatement
  /-- Fields: expression, doc?. -/
  | expressionStatement
  /-- Fields: condition, body, alternative* (ElseifClause | ElseClause). -/
  | ifStatement
  /-- Fields: condition, body. -/
  | elseifClause
  /-- Fields: body. -/
  | elseClause
  /-- Fields: condition, body. -/
  | whileStatement
  /-- Fields: body, condition. -/
  | doWhileStatement
  /-- Fields: init (ExpressionList), condition (ExpressionList), update (ExpressionList), body. -/
  | forStatement
  /-- Fields: subject, key?, value, reference?, body. -/
  | foreachStatement
  /-- Fields: subject; children are CaseClause / DefaultClause. -/
  | switchStatement
  /-- Fields: value; remaining children are statements. -/
  | caseClause
  /-- Children are statements. -/
  | defaultClause
  /-- Fields: depth?. -/
  | breakStatement
  /-- Fields: depth?. -/
  | continueStatement
  /-- Fields: value?. -/
  | returnStatement
  /-- Fields: body, catch* (CatchClause), finally? (FinallyClause). -/
  | tryStatement
  /-- Fields: types (NameList), variable?, body. -/
  | catchClause
  /-- Fields: body. -/
  | finallyClause
  /-- Fields: label (Name). -/
  | gotoStatement
  /-- Fields: label (Name). -/
  | labelStatement
  /-- Fields: directive* (ConstElement), body?. -/
  | declareStatement
  /-- Fields: name, parameters, return_type?, body, doc?, reference?. -/
  | functionDefinition
  /-- Children are Parameter. -/
  | parameterList
  /-- Fields: name (Variable), type?, default?, reference?, variadic?, visibility* (Modifier). -/
  | parameter
  /-- Raw type hint text (leaf): `?int`, `int|string`, `\Foo\Bar`. -/
  | typeHint
  /-- Fields: name, extends?, implements? (NameList), modifier*, body (ClassBody), doc?. -/
  | classDeclaration
  /-- Fields: name, extends? (NameList), body, doc?. -/
  | interfaceDeclaration
  /-- Fields: name, body, doc?. -/
  | traitDeclaration
  /-- Children are member declarations. -/
  | classBody
  /-- Fields: modifier*, element* (ConstElement), doc?. -/
  | classConstDeclaration
  /-- Fields: name (Name), value. -/
  | constElement
  /-- Fields: modifier*, type?, element* (PropertyElement), doc?. -/
  | propertyDeclaration
  /-- Fields: name (Variable), default?. -/
  | propertyElement
  /-- Fields: modifier*, name, parameters, return_type?, body?, doc?, reference?. -/
  | methodDeclaration
  /-- Fields: traits (NameList), adaptation* (TraitPrecedence | TraitAlias). -/
  | traitUse
  /-- Fields: trait (Name), method (Name), insteadof (NameList). -/
  | traitPrecedence
  /-- Fields: trait?, method, modifier?, alias?. -/
  | traitAlias
  /-- Written `public`, `static`, `abstract`, ... (leaf). -/
  | modifier
  /-- Fields: name?, body?. -/
  | namespaceDefinition
  /-- Fields: kind? (`function` / `const`), clause* (UseClause). -/
  | useDeclaration
  /-- Fields: name, alias?. -/
  | useClause
  /-- Children are Variable. -/
  | globalDeclaration
  /-- Children are StaticVariable. -/
  | staticDeclaration
  /-- Fields: name (Variable), default?. -/
  | staticVariable
  /-- Children are expressions. -/
  | unsetStatement
  /-- Fields: element* (ConstElement), doc?. -/
  | constDeclaration
  /-- Raw integer text (leaf). -/
  | integerLiteral
  /-- Raw float text (leaf). -/
  | floatLiteral
  /-- Decoded string contents (leaf). -/
  | stringLiteral
  /-- Written `true` / `false` (leaf, lowercased). -/
  | booleanLiteral
  /-- Written `null`. -/
  | nullLiteral
  /-- Double-quoted or heredoc string; children are StringFragment and expressions. -/
  | interpolatedString
  /-- Literal part of an interpolated string (leaf). -/
  | stringFragment
  /-- Written `__DIR__`, `__FILE__`, ... (leaf, uppercased). -/
  | magicConstant
  /-- Children are ArrayElement. -/
  | arrayLiteral
  /-- Fields: key?, value?, reference?, spread?. -/
  | arrayElement
  /-- Written `list(...)`; children are ArrayElement. -/
  | listExpression
  /-- Written `$name` (leaf, text excludes the `$`). -/
  | variableName
  /-- Written `$$x` / `${expr}`: name. -/
  | variableVariable
  /-- Identifier or qualified name, raw text including any leading `\` (leaf). -/
  | name
  /-- Children are Name. -/
  | nameList
  /-- Fields: left, right. -/
  | assignment
  /-- Fields: left, right. -/
  | referenceAssignment
  /-- Fields: left, operator, right. -/
  | compoundAssignment
  /-- Fields: left, operator, right. -/
  | binaryExpression
  /-- Operator, operand. -/
  | unaryExpression
  /-- Operator, operand. -/
  | prefixUpdateExpression
  /-- Fields: operand, operator. -/
  | postfixUpdateExpression
  /-- Fields: type (leaf text, e.g. `int`), operand. -/
  | castExpression
  /-- Fields: operand. -/
  | errorSuppression
  /-- Fields: condition, consequence?, alternative. -/
  | ternaryExpression
  /-- Operator text (leaf). -/
  | operator
  /-- Fields: function, arguments. -/
  | callExpression
  /-- Children are Argument. -/
  | argumentList
  /-- Fields: value, spread?, name?. -/
  | argument
  /-- Fields: object, name, arguments, nullsafe?. -/
  | methodCallExpression
  /-- Fields: object, name, nullsafe?. -/
  | propertyAccess
  /-- Fields: scope, name, arguments. -/
  | staticCallExpression
  /-- Fields: scope, name (Variable). -/
  | staticPropertyAccess
  /-- Fields: scope, name (Name); `Foo::class` included. -/
  | classConstantAccess
  /-- Fields: object, index?. -/
  | subscriptExpression
  /-- Fields: class (Name | expression | AnonymousClass), arguments?. -/
  | newExpression
  /-- Fields: arguments?, extends?, implements?, body. -/
  | anonymousClass
  /-- Fields: value. -/
  | cloneExpression
  /-- Fields: parameters, uses? (ClosureUseList), return_type?, body, static?, reference?. -/
  | anonymousFunction
  /-- Children are ClosureUse. -/
  | closureUseList
  /-- Fields: name (Variable), reference?. -/
  | closureUse
  /-- Fields: parameters, return_type?, body (expression), static?. -/
  | arrowFunction
  /-- Children are expressions. -/
  | issetExpression
  /-- Fields: value. -/
  | emptyExpression
  /-- Fields: value?. -/
  | exitExpression
  /-- Fields: value. -/
  | printExpression
  /-- Fields: kind (leaf: include / include_once / require / require_once), value. -/
  | includeExpression
  /-- Fields: value. -/
  | evalExpression
  /-- Fields: value. -/
  | throwExpression
  /-- Fields: subject, arm* (MatchArm). -/
  | matchExpression
  /-- Fields: condition*, body, default?. -/
  | matchArm
  /-- Fields: key?, value?, from?. -/
  | yieldExpression
  /-- Children are expressions. -/
  | expressionList
  /-- Written `/** ... */` text (leaf). -/
  | docComment
  /-- Empty leaf used for flag fields. -/
  | flag
  /-- Parse error placeholder. -/
  | error
deriving DecidableEq, Inhabited

namespace NodeKind

/-- Every kind with its two names: the one listings use and the one in snake
case.  The order is that of the declaration. -/
def table : List (NodeKind × String × String) :=
  [(.sourceFile, "SourceFile", "source_file"),
   (.inlineHtml, "InlineHtml", "inline_html"),
   (.block, "Block", "block"),
   (.emptyStatement, "EmptyStatement", "empty_statement"),
   (.echoStatement, "EchoStatement", "echo_statement"),
   (.expressionStatement, "ExpressionStatement", "expression_statement"),
   (.ifStatement, "IfStatement", "if_statement"),
   (.elseifClause, "ElseifClause", "elseif_clause"),
   (.elseClause, "ElseClause", "else_clause"),
   (.whileStatement, "WhileStatement", "while_statement"),
   (.doWhileStatement, "DoWhileStatement", "do_while_statement"),
   (.forStatement, "ForStatement", "for_statement"),
   (.foreachStatement, "ForeachStatement", "foreach_statement"),
   (.switchStatement, "SwitchStatement", "switch_statement"),
   (.caseClause, "CaseClause", "case_clause"),
   (.defaultClause, "DefaultClause", "default_clause"),
   (.breakStatement, "BreakStatement", "break_statement"),
   (.continueStatement, "ContinueStatement", "continue_statement"),
   (.returnStatement, "ReturnStatement", "return_statement"),
   (.tryStatement, "TryStatement", "try_statement"),
   (.catchClause, "CatchClause", "catch_clause"),
   (.finallyClause, "FinallyClause", "finally_clause"),
   (.gotoStatement, "GotoStatement", "goto_statement"),
   (.labelStatement, "LabelStatement", "label_statement"),
   (.declareStatement, "DeclareStatement", "declare_statement"),
   (.functionDefinition, "FunctionDefinition", "function_definition"),
   (.parameterList, "ParameterList", "parameter_list"),
   (.parameter, "Parameter", "parameter"),
   (.typeHint, "TypeHint", "type_hint"),
   (.classDeclaration, "ClassDeclaration", "class_declaration"),
   (.interfaceDeclaration, "InterfaceDeclaration", "interface_declaration"),
   (.traitDeclaration, "TraitDeclaration", "trait_declaration"),
   (.classBody, "ClassBody", "class_body"),
   (.classConstDeclaration, "ClassConstDeclaration", "class_const_declaration"),
   (.constElement, "ConstElement", "const_element"),
   (.propertyDeclaration, "PropertyDeclaration", "property_declaration"),
   (.propertyElement, "PropertyElement", "property_element"),
   (.methodDeclaration, "MethodDeclaration", "method_declaration"),
   (.traitUse, "TraitUse", "trait_use"),
   (.traitPrecedence, "TraitPrecedence", "trait_precedence"),
   (.traitAlias, "TraitAlias", "trait_alias"),
   (.modifier, "Modifier", "modifier"),
   (.namespaceDefinition, "NamespaceDefinition", "namespace_definition"),
   (.useDeclaration, "UseDeclaration", "use_declaration"),
   (.useClause, "UseClause", "use_clause"),
   (.globalDeclaration, "GlobalDeclaration", "global_declaration"),
   (.staticDeclaration, "StaticDeclaration", "static_declaration"),
   (.staticVariable, "StaticVariable", "static_variable"),
   (.unsetStatement, "UnsetStatement", "unset_statement"),
   (.constDeclaration, "ConstDeclaration", "const_declaration"),
   (.integerLiteral, "IntegerLiteral", "integer_literal"),
   (.floatLiteral, "FloatLiteral", "float_literal"),
   (.stringLiteral, "StringLiteral", "string_literal"),
   (.booleanLiteral, "BooleanLiteral", "boolean_literal"),
   (.nullLiteral, "NullLiteral", "null_literal"),
   (.interpolatedString, "InterpolatedString", "interpolated_string"),
   (.stringFragment, "StringFragment", "string_fragment"),
   (.magicConstant, "MagicConstant", "magic_constant"),
   (.arrayLiteral, "ArrayLiteral", "array_literal"),
   (.arrayElement, "ArrayElement", "array_element"),
   (.listExpression, "ListExpression", "list_expression"),
   (.variableName, "Variable", "variable"),
   (.variableVariable, "VariableVariable", "variable_variable"),
   (.name, "Name", "name"),
   (.nameList, "NameList", "name_list"),
   (.assignment, "Assignment", "assignment"),
   (.referenceAssignment, "ReferenceAssignment", "reference_assignment"),
   (.compoundAssignment, "CompoundAssignment", "compound_assignment"),
   (.binaryExpression, "BinaryExpression", "binary_expression"),
   (.unaryExpression, "UnaryExpression", "unary_expression"),
   (.prefixUpdateExpression, "PrefixUpdateExpression", "prefix_update_expression"),
   (.postfixUpdateExpression, "PostfixUpdateExpression", "postfix_update_expression"),
   (.castExpression, "CastExpression", "cast_expression"),
   (.errorSuppression, "ErrorSuppression", "error_suppression"),
   (.ternaryExpression, "TernaryExpression", "ternary_expression"),
   (.operator, "Operator", "operator"),
   (.callExpression, "CallExpression", "call_expression"),
   (.argumentList, "ArgumentList", "argument_list"),
   (.argument, "Argument", "argument"),
   (.methodCallExpression, "MethodCallExpression", "method_call_expression"),
   (.propertyAccess, "PropertyAccess", "property_access"),
   (.staticCallExpression, "StaticCallExpression", "static_call_expression"),
   (.staticPropertyAccess, "StaticPropertyAccess", "static_property_access"),
   (.classConstantAccess, "ClassConstantAccess", "class_constant_access"),
   (.subscriptExpression, "SubscriptExpression", "subscript_expression"),
   (.newExpression, "NewExpression", "new_expression"),
   (.anonymousClass, "AnonymousClass", "anonymous_class"),
   (.cloneExpression, "CloneExpression", "clone_expression"),
   (.anonymousFunction, "AnonymousFunction", "anonymous_function"),
   (.closureUseList, "ClosureUseList", "closure_use_list"),
   (.closureUse, "ClosureUse", "closure_use"),
   (.arrowFunction, "ArrowFunction", "arrow_function"),
   (.issetExpression, "IssetExpression", "isset_expression"),
   (.emptyExpression, "EmptyExpression", "empty_expression"),
   (.exitExpression, "ExitExpression", "exit_expression"),
   (.printExpression, "PrintExpression", "print_expression"),
   (.includeExpression, "IncludeExpression", "include_expression"),
   (.evalExpression, "EvalExpression", "eval_expression"),
   (.throwExpression, "ThrowExpression", "throw_expression"),
   (.matchExpression, "MatchExpression", "match_expression"),
   (.matchArm, "MatchArm", "match_arm"),
   (.yieldExpression, "YieldExpression", "yield_expression"),
   (.expressionList, "ExpressionList", "expression_list"),
   (.docComment, "DocComment", "doc_comment"),
   (.flag, "Flag", "flag"),
   (.error, "Error", "error")]

def all : List NodeKind := table.map (·.1)

/-- The name in listings. -/
def debugName (k : NodeKind) : String :=
  match table.find? (·.1 == k) with
  | some (_, listed, _) => listed
  | none => ""

/-- The name in snake case. -/
def spelling (k : NodeKind) : String :=
  match table.find? (·.1 == k) with
  | some (_, _, snake) => snake
  | none => ""

def ofSpelling? (spelling : String) : Option NodeKind :=
  (table.find? (·.2.2 == spelling)).map (·.1)

/-- Flags and doc comments are the anonymous leaves. -/
def isNamed (k : NodeKind) : Bool := k != .flag && k != .docComment

def isClassLike (k : NodeKind) : Bool :=
  [classDeclaration, interfaceDeclaration, traitDeclaration].contains k

/-- Declarations that are known before the statements of a file run. -/
def isDeclaration (k : NodeKind) : Bool := k == .functionDefinition || k.isClassLike

def isLoop (k : NodeKind) : Bool :=
  [whileStatement, doWhileStatement, forStatement, foreachStatement].contains k

def isLiteral (k : NodeKind) : Bool :=
  [integerLiteral, floatLiteral, stringLiteral, booleanLiteral, nullLiteral, interpolatedString,
    magicConstant, arrayLiteral].contains k

/-- Nodes that may stand on the left of an assignment. -/
def isAssignable (k : NodeKind) : Bool :=
  [variableName, variableVariable, propertyAccess, staticPropertyAccess, subscriptExpression,
    listExpression, arrayLiteral].contains k

def isCall (k : NodeKind) : Bool :=
  [callExpression, methodCallExpression, staticCallExpression, newExpression].contains k

/-- Statements that leave the block they stand in. -/
def isJump (k : NodeKind) : Bool :=
  [returnStatement, breakStatement, continueStatement, gotoStatement].contains k

end NodeKind

end PhpCheck
