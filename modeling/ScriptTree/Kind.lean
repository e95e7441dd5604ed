/-!
The kinds of tokens and nodes of a source tree.

A kind's number is its position in the list below and its identifier is a snake-case word; both are
handed to other tools, so a new kind may only be added before `tombstone`.
-/

namespace ScriptTree

inductive Kind where
  -- punctuation
  | leftParen | rightParen | leftBracket | rightBracket | leftBrace | rightBrace | semicolon
  | comma | colon | colon2 | dot | dot2 | ellipsis | question
  -- operators
  | eq | eq2 | neq | approxEq | lt | gt | lteq | gteq | ltgteq | plus | minus | star | star2
  | slash | percent | amp | amp2 | pipe | pipe2 | caret | tilde | bang | shl | shr | ushr | plus2
  | minus2 | plusEq | minusEq | starEq | slashEq | percentEq | shlEq | shrEq | ushrEq | ampEq
  | pipeEq | caretEq
  -- literals and names
  | intNumber | floatNumber | string | nameLiteral | name | sprite | frames
  -- keywords
  | includeKw | classKw | structKw | enumKw | constKw | extendKw | mixinKw | statesKw | defaultKw
  | propertyKw | flagdefKw | replacesKw | nativeKw | abstractKw | finalKw | sealedKw | playKw
  | uiKw | clearscopeKw | virtualscopeKw | staticKw | privateKw | protectedKw | metaKw
  | readonlyKw | transientKw | internalKw | deprecatedKw | versionKw | actionKw | virtualKw
  | overrideKw | varargKw | varKw | inKw | outKw | ifKw | elseKw | switchKw | caseKw | whileKw
  | doKw | untilKw | forKw | foreachKw | returnKw | breakKw | continueKw | trueKw | falseKw
  | nullKw | selfKw | superKw | letKw | sizeofKw | alignofKw | crossKw | dotKw | isKw | newKw
  -- layout, and the two tokens that are no word of the language
  | whitespace | newline | lineComment | blockComment | lineContinuation | unknown | eof
  -- top level
  | sourceFile | includeDirective | versionDirective | classDefinition | structDefinition
  | enumDefinition | constDefinition | mixinClassDefinition | extendClass | extendStruct
  | functionDefinition | fieldDeclaration
  -- class and struct pieces
  | ident | classHeaderFlags | parentClass | replacesClause | classFlag | classBody | structBody
  | declarationModifiers | modifier | versionModifier | deprecatedModifier | actionModifier
  | scopeList | propertyDefinition | flagDefinition | mixinStatement | defaultBlock
  | propertyAssignment | flagSetting | dottedName | statesBlock | statesScope | enumBody
  | enumerator
  -- functions
  | returnTypes | parameterList | parameter | parameterModifier | varargs | constMethod
  -- types
  | namedType | qualifiedType | genericType | classType | readonlyType | typeArguments
  | typeQualifier
  -- declarators
  | variableDeclarator | arrayDeclarator | arraySize | initializerList
  -- statements
  | compoundStatement | expressionStatement | localDeclaration | letDeclaration | ifStatement
  | elseClause | switchStatement | switchBody | caseLabel | defaultLabel | whileStatement
  | untilStatement | doStatement | forStatement | forInitializer | forUpdate | foreachStatement
  | returnStatement | breakStatement | continueStatement | emptyStatement
  | multiAssignmentStatement | assignmentTargets | staticArrayStatement
  -- expressions
  | literal | concatenatedString | nameRef | keywordExpr | parenExpr | vectorLiteral | castExpr
  | classCastExpr | binaryExpr | assignmentExpr | conditionalExpr | prefixExpr | postfixExpr
  | callExpr | memberExpr | indexExpr | scopeExpr | sizeofExpr | newExpr | argumentList
  | namedArgument
  -- states, and the kinds of the parser itself
  | stateLabel | stateLine | stateDuration | randomDuration | stateModifier | stateAction
  | stateFlow | gotoTarget | gotoOffset | error | tombstone
  deriving DecidableEq, Repr, Inhabited

namespace Kind

def all : List Kind :=
  [.leftParen, .rightParen, .leftBracket, .rightBracket, .leftBrace, .rightBrace, .semicolon,
   .comma, .colon, .colon2, .dot, .dot2, .ellipsis, .question, .eq, .eq2, .neq, .approxEq, .lt,
   .gt, .lteq, .gteq, .ltgteq, .plus, .minus, .star, .star2, .slash, .percent, .amp, .amp2, .pipe,
   .pipe2, .caret, .tilde, .bang, .shl, .shr, .ushr, .plus2, .minus2, .plusEq, .minusEq, .starEq,
   .slashEq, .percentEq, .shlEq, .shrEq, .ushrEq, .ampEq, .pipeEq, .caretEq, .intNumber,
   .floatNumber, .string, .nameLiteral, .name, .sprite, .frames, .includeKw, .classKw, .structKw,
   .enumKw, .constKw, .extendKw, .mixinKw, .statesKw, .defaultKw, .propertyKw, .flagdefKw,
   .replacesKw, .nativeKw, .abstractKw, .finalKw, .sealedKw, .playKw, .uiKw, .clearscopeKw,
   .virtualscopeKw, .staticKw, .privateKw, .protectedKw, .metaKw, .readonlyKw, .transientKw,
   .internalKw, .deprecatedKw, .versionKw, .actionKw, .virtualKw, .overrideKw, .varargKw, .varKw,
   .inKw, .outKw, .ifKw, .elseKw, .switchKw, .caseKw, .whileKw, .doKw, .untilKw, .forKw,
   .foreachKw, .returnKw, .breakKw, .continueKw, .trueKw, .falseKw, .nullKw, .selfKw, .superKw,
   .letKw, .sizeofKw, .alignofKw, .crossKw, .dotKw, .isKw, .newKw, .whitespace, .newline,
   .lineComment, .blockComment, .lineContinuation, .unknown, .eof, .sourceFile, .includeDirective,
   .versionDirective, .classDefinition, .structDefinition, .enumDefinition, .constDefinition,
   .mixinClassDefinition, .extendClass, .extendStruct, .functionDefinition, .fieldDeclaration,
   .ident, .classHeaderFlags, .parentClass, .replacesClause, .classFlag, .classBody, .structBody,
   .declarationModifiers, .modifier, .versionModifier, .deprecatedModifier, .actionModifier,
   .scopeList, .propertyDefinition, .flagDefinition, .mixinStatement, .defaultBlock,
   .propertyAssignment, .flagSetting, .dottedName, .statesBlock, .statesScope, .enumBody,
   .enumerator, .returnTypes, .parameterList, .parameter, .parameterModifier, .varargs,
   .constMethod, .namedType, .qualifiedType, .genericType, .classType, .readonlyType,
   .typeArguments, .typeQualifier, .variableDeclarator, .arrayDeclarator, .arraySize,
   .initializerList, .compoundStatement, .expressionStatement, .localDeclaration, .letDeclaration,
   .ifStatement, .elseClause, .switchStatement, .switchBody, .caseLabel, .defaultLabel,
   .whileStatement, .untilStatement, .doStatement, .forStatement, .forInitializer, .forUpdate,
   .foreachStatement, .returnStatement, .breakStatement, .continueStatement, .emptyStatement,
   .multiAssignmentStatement, .assignmentTargets, .staticArrayStatement, .literal,
   .concatenatedString, .nameRef, .keywordExpr, .parenExpr, .vectorLiteral, .castExpr,
   .classCastExpr, .binaryExpr, .assignmentExpr, .conditionalExpr, .prefixExpr, .postfixExpr,
   .callExpr, .memberExpr, .indexExpr, .scopeExpr, .sizeofExpr, .newExpr, .argumentList,
   .namedArgument, .stateLabel, .stateLine, .stateDuration, .randomDuration, .stateModifier,
   .stateAction, .stateFlow, .gotoTarget, .gotoOffset, .error, .tombstone]

def id (kind : Kind) : Nat :=
  kind.ctorIdx

def ofId? (n : Nat) : Option Kind :=
  all[n]?

def identifier : Kind → String
  | .leftParen => "left_paren"
  | .rightParen => "right_paren"
  | .leftBracket => "left_bracket"
  | .rightBracket => "right_bracket"
  | .leftBrace => "left_brace"
  | .rightBrace => "right_brace"
  | .semicolon => "semicolon"
  | .comma => "comma"
  | .colon => "colon"
  | .colon2 => "colon2"
  | .dot => "dot"
  | .dot2 => "dot2"
  | .ellipsis => "ellipsis"
  | .question => "question"
  | .eq => "eq"
  | .eq2 => "eq2"
  | .neq => "neq"
  | .approxEq => "approx_eq"
  | .lt => "lt"
  | .gt => "gt"
  | .lteq => "lteq"
  | .gteq => "gteq"
  | .ltgteq => "ltgteq"
  | .plus => "plus"
  | .minus => "minus"
  | .star => "star"
  | .star2 => "star2"
  | .slash => "slash"
  | .percent => "percent"
  | .amp => "amp"
  | .amp2 => "amp2"
  | .pipe => "pipe"
  | .pipe2 => "pipe2"
  | .caret => "caret"
  | .tilde => "tilde"
  | .bang => "bang"
  | .shl => "shl"
  | .shr => "shr"
  | .ushr => "ushr"
  | .plus2 => "plus2"
  | .minus2 => "minus2"
  | .plusEq => "plus_eq"
  | .minusEq => "minus_eq"
  | .starEq => "star_eq"
  | .slashEq => "slash_eq"
  | .percentEq => "percent_eq"
  | .shlEq => "shl_eq"
  | .shrEq => "shr_eq"
  | .ushrEq => "ushr_eq"
  | .ampEq => "amp_eq"
  | .pipeEq => "pipe_eq"
  | .caretEq => "caret_eq"
  | .intNumber => "int_number"
  | .floatNumber => "float_number"
  | .string => "string"
  | .nameLiteral => "name_literal"
  | .name => "name"
  | .sprite => "sprite"
  | .frames => "frames"
  | .includeKw => "include_kw"
  | .classKw => "class_kw"
  | .structKw => "struct_kw"
  | .enumKw => "enum_kw"
  | .constKw => "const_kw"
  | .extendKw => "extend_kw"
  | .mixinKw => "mixin_kw"
  | .statesKw => "states_kw"
  | .defaultKw => "default_kw"
  | .propertyKw => "property_kw"
  | .flagdefKw => "flagdef_kw"
  | .replacesKw => "replaces_kw"
  | .nativeKw => "native_kw"
  | .abstractKw => "abstract_kw"
  | .finalKw => "final_kw"
  | .sealedKw => "sealed_kw"
  | .playKw => "play_kw"
  | .uiKw => "ui_kw"
  | .clearscopeKw => "clearscope_kw"
  | .virtualscopeKw => "virtualscope_kw"
  | .staticKw => "static_kw"
  | .privateKw => "private_kw"
  | .protectedKw => "protected_kw"
  | .metaKw => "meta_kw"
  | .readonlyKw => "readonly_kw"
  | .transientKw => "transient_kw"
  | .internalKw => "internal_kw"
  | .deprecatedKw => "deprecated_kw"
  | .versionKw => "version_kw"
  | .actionKw => "action_kw"
  | .virtualKw => "virtual_kw"
  | .overrideKw => "override_kw"
  | .varargKw => "vararg_kw"
  | .varKw => "var_kw"
  | .inKw => "in_kw"
  | .outKw => "out_kw"
  | .ifKw => "if_kw"
  | .elseKw => "else_kw"
  | .switchKw => "switch_kw"
  | .caseKw => "case_kw"
  | .whileKw => "while_kw"
  | .doKw => "do_kw"
  | .untilKw => "until_kw"
  | .forKw => "for_kw"
  | .foreachKw => "foreach_kw"
  | .returnKw => "return_kw"
  | .breakKw => "break_kw"
  | .continueKw => "continue_kw"
  | .trueKw => "true_kw"
  | .falseKw => "false_kw"
  | .nullKw => "null_kw"
  | .selfKw => "self_kw"
  | .superKw => "super_kw"
  | .letKw => "let_kw"
  | .sizeofKw => "sizeof_kw"
  | .alignofKw => "alignof_kw"
  | .crossKw => "cross_kw"
  | .dotKw => "dot_kw"
  | .isKw => "is_kw"
  | .newKw => "new_kw"
  | .whitespace => "whitespace"
  | .newline => "newline"
  | .lineComment => "line_comment"
  | .blockComment => "block_comment"
  | .lineContinuation => "line_continuation"
  | .unknown => "unknown"
  | .eof => "eof"
  | .sourceFile => "source_file"
  | .includeDirective => "include_directive"
  | .versionDirective => "version_directive"
  | .classDefinition => "class_definition"
  | .structDefinition => "struct_definition"
  | .enumDefinition => "enum_definition"
  | .constDefinition => "const_definition"
  | .mixinClassDefinition => "mixin_class_definition"
  | .extendClass => "extend_class"
  | .extendStruct => "extend_struct"
  | .functionDefinition => "function_definition"
  | .fieldDeclaration => "field_declaration"
  | .ident => "ident"
  | .classHeaderFlags => "class_header_flags"
  | .parentClass => "parent_class"
  | .replacesClause => "replaces_clause"
  | .classFlag => "class_flag"
  | .classBody => "class_body"
  | .structBody => "struct_body"
  | .declarationModifiers => "declaration_modifiers"
  | .modifier => "modifier"
  | .versionModifier => "version_modifier"
  | .deprecatedModifier => "deprecated_modifier"
  | .actionModifier => "action_modifier"
  | .scopeList => "scope_list"
  | .propertyDefinition => "property_definition"
  | .flagDefinition => "flag_definition"
  | .mixinStatement => "mixin_statement"
  | .defaultBlock => "default_block"
  | .propertyAssignment => "property_assignment"
  | .flagSetting => "flag_setting"
  | .dottedName => "dotted_name"
  | .statesBlock => "states_block"
  | .statesScope => "states_scope"
  | .enumBody => "enum_body"
  | .enumerator => "enumerator"
  | .returnTypes => "return_types"
  | .parameterList => "parameter_list"
  | .parameter => "parameter"
  | .parameterModifier => "parameter_modifier"
  | .varargs => "varargs"
  | .constMethod => "const_method"
  | .namedType => "named_type"
  | .qualifiedType => "qualified_type"
  | .genericType => "generic_type"
  | .classType => "class_type"
  | .readonlyType => "readonly_type"
  | .typeArguments => "type_arguments"
  | .typeQualifier => "type_qualifier"
  | .variableDeclarator => "variable_declarator"
  | .arrayDeclarator => "array_declarator"
  | .arraySize => "array_size"
  | .initializerList => "initializer_list"
  | .compoundStatement => "compound_statement"
  | .expressionStatement => "expression_statement"
  | .localDeclaration => "local_declaration"
  | .letDeclaration => "let_declaration"
  | .ifStatement => "if_statement"
  | .elseClause => "else_clause"
  | .switchStatement => "switch_statement"
  | .switchBody => "switch_body"
  | .caseLabel => "case_label"
  | .defaultLabel => "default_label"
  | .whileStatement => "while_statement"
  | .untilStatement => "until_statement"
  | .doStatement => "do_statement"
  | .forStatement => "for_statement"
  | .forInitializer => "for_initializer"
  | .forUpdate => "for_update"
  | .foreachStatement => "foreach_statement"
  | .returnStatement => "return_statement"
  | .breakStatement => "break_statement"
  | .continueStatement => "continue_statement"
  | .emptyStatement => "empty_statement"
  | .multiAssignmentStatement => "multi_assignment_statement"
  | .assignmentTargets => "assignment_targets"
  | .staticArrayStatement => "static_array_statement"
  | .literal => "literal"
  | .concatenatedString => "concatenated_string"
  | .nameRef => "name_ref"
  | .keywordExpr => "keyword_expr"
  | .parenExpr => "paren_expr"
  | .vectorLiteral => "vector_literal"
  | .castExpr => "cast_expr"
  | .classCastExpr => "class_cast_expr"
  | .binaryExpr => "binary_expr"
  | .assignmentExpr => "assignment_expr"
  | .conditionalExpr => "conditional_expr"
  | .prefixExpr => "prefix_expr"
  | .postfixExpr => "postfix_expr"
  | .callExpr => "call_expr"
  | .memberExpr => "member_expr"
  | .indexExpr => "index_expr"
  | .scopeExpr => "scope_expr"
  | .sizeofExpr => "sizeof_expr"
  | .newExpr => "new_expr"
  | .argumentList => "argument_list"
  | .namedArgument => "named_argument"
  | .stateLabel => "state_label"
  | .stateLine => "state_line"
  | .stateDuration => "state_duration"
  | .randomDuration => "random_duration"
  | .stateModifier => "state_modifier"
  | .stateAction => "state_action"
  | .stateFlow => "state_flow"
  | .gotoTarget => "goto_target"
  | .gotoOffset => "goto_offset"
  | .error => "error"
  | .tombstone => "tombstone"

def label (kind : Kind) : String :=
  String.ofList (kind.identifier.toList.map Char.toUpper)

def ofLabel? (label : String) : Option Kind :=
  all.find? fun kind => kind.label == label

end Kind

end ScriptTree
