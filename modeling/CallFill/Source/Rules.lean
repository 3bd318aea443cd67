import CallFill.Source.Grammar
import CallFill.Source.Lexer

/-!
# The grammar of source files

The rules of the language whose calls are filled, from modules down to atoms. Operators are layered
by how tightly they bind. A bracketed form is read up to the point where its kind shows, and only
then is the kind decided, so that no part is read twice however deep the brackets nest.

Only some words are reserved, and each only where it could begin something: everywhere else any word
is an identifier.
-/

namespace CallFill.Source

/-- The rules of the language. -/
inductive Rule where
  -- statements
  | statement
  | compoundStatement
  | simpleLine
  | simpleStatement
  | expressionStatement
  | assignment
  | assigned
  | suite
  | ifStatement
  | elseClause
  | tryStatement
  | withStatement
  | forStatement
  | whileStatement
  | functionDefinition
  | classDefinition
  | decorated
  | matchStatement
  | caseToken
  -- parameters and types
  | parameter
  | lambdaParameter
  | type
  | typeParameter
  -- patterns
  | pattern
  | target
  -- expressions
  | expression
  | expressions
  | conditional
  | disjunction
  | conjunction
  | inversion
  | comparison
  /-- Binary operators, from the loosest level to the tightest. -/
  | binary (level : Nat)
  | unary
  | power
  | awaited
  | primary
  | atom
  | element
  | clauses
  | yield
  | argument
  | arguments
  | subscripts
  | parenthesis
  | bracket
  | brace
  | strings
  | string
  | hole

namespace Rule

open Grammar

/-- A grammar over these rules. -/
abbrev G := Grammar Rule

/-- Any word but these. -/
def wordBut (reserved : List String) : G :=
  leaf .identifier fun t => t.kind = .word && !reserved.contains t.text

/-- An identifier. -/
def identifier : G :=
  wordBut ["None", "True", "False"]

/-- Any word as an identifier. -/
def anyName : G :=
  leaf .identifier fun t => t.kind = .word

/-- Where a simple statement may end. -/
def endOfStatement : G :=
  oneOf [mark ";", kinded .newline]

/-- The words that begin a statement and nothing else. -/
def statementWords : List String := [
  "import", "from", "assert", "return", "del", "raise", "pass", "break", "continue", "global",
  "nonlocal", "if", "for", "while", "try", "with", "def", "class"]

/-- The words that begin an expression and nothing else. -/
def expressionWords : List String := ["lambda", "not", "yield"]

/-- What an import statement consists of is read from its text. -/
def importWords : G :=
  many1 (token fun t =>
    t.kind = .word || (t.kind = .mark && [".", "...", ",", "(", ")", "*"].contains t.text))

/-- A statement that is a word and what follows it. -/
def wordStatement (w : String) (rest : G) : G :=
  node .statement (seq (word w) rest)

/-- A block, in the role of its statement's body. -/
def body : G :=
  seq (mark ":") (role .body (rule suite))

/-- The operators of each level of binary operators, with the kind of the tree. -/
def binaryOperators : Nat → List String
  | 0 => ["|"]
  | 1 => ["^"]
  | 2 => ["&"]
  | 3 => ["<<", ">>"]
  | 4 => ["+", "-"]
  | _ => ["*", "@", "/", "%", "//"]

/-- The marks that assign with an operation. -/
def augmentedMarks : List String := [
  "+=", "-=", "*=", "/=", "@=", "//=", "%=", "**=", ">>=", "<<=", "&=", "^=", "|="]

/-- One of these marks. -/
def oneMark (marks : List String) : G :=
  token fun t => t.kind = .mark && marks.contains t.text

/-- The comparisons written as marks. -/
def comparisonMarks : List String := ["<", "<=", "==", "!=", ">=", ">", "<>"]

/-- An operator that compares. -/
def comparisonOperator : G :=
  oneOf [oneMark comparisonMarks, word "in", seq (word "not") (word "in"),
    seq (word "is") (word "not"), word "is"]

/-- What may be assigned to among the trees of expressions. -/
def isTarget (k : Kind) : Bool :=
  k = .identifier || k = .access || k = .subscript

/-- Subscripts and calls below a closing mark. -/
def listTail (close : String) (item : G) : G :=
  oneOf [mark close, all [mark ",", oneOf [mark close, all [commaList item, mark close]]]]

/-- A type annotation after a mark. -/
def typed (m : String) : G :=
  seq (mark m) (role .type (rule type))

/-- A default value. -/
def defaultValue : G :=
  seq (mark "=") (role .value (rule expression))

/-- What may follow an expression that is called. -/
def callTail : G :=
  seq (role .arguments (rule arguments)) (takesIn .call .function)

/-- What may follow an expression to make it a target. -/
def targetTail : G :=
  choice (all [mark ".", role .member anyName, takesIn .access .object])
    (seq (rule subscripts) (takesIn .subscript .value))

/-- A target after one or two stars: as much of what follows as is a target. Calls belong to it only
where a member or a subscript of their result is taken. -/
def starred (kind : Kind) (stars : String) : G :=
  node kind (seq (mark stars) (ofKind isTarget
    (extend (rule atom) (seq (ahead (seq (many callTail) targetTail))
      (choice targetTail callTail)) true)))

/-- A target among the tokens of a case, up to its colon or guard. -/
def bracketed (opening closing : String) : G :=
  all [mark opening, many (choice (rule caseToken) (oneOf [mark ":", word "if"])), mark closing]

/-- A statement header's block, after a newline and an indent, around such items. -/
def indented (item : G) : G :=
  all [kinded .newline, kinded .indent, many item, kinded .dedent]

/-- A token that cannot be read as part of a statement. -/
def stray : G :=
  node .error (token fun t => t.kind != .dedent)

/-- The rules of the language. -/
def definition : Rule → G
  | statement => choice (rule compoundStatement) (rule simpleLine)
  | compoundStatement => oneOf [
      rule ifStatement, rule forStatement, rule whileStatement, rule tryStatement,
      rule withStatement, rule functionDefinition, rule classDefinition, rule decorated,
      rule matchStatement]
  | simpleLine => all [
      rule simpleStatement, many (seq (mark ";") (rule simpleStatement)), optional (mark ";"),
      kinded .newline]
  | simpleStatement => oneOf [
      node .importStatement (seq (word "import") importWords),
      node .futureImport (all [word "from", word "__future__", word "import", importWords]),
      node .fromImport (seq (word "from") importWords),
      wordStatement "assert" (commaSeparated (rule expression)),
      wordStatement "return" (optional (rule expressions)),
      wordStatement "del" (rule expressions),
      wordStatement "raise" (all [optional (rule expressions),
        optional (seq (word "from") (rule expression))]),
      wordStatement "pass" empty,
      wordStatement "break" empty,
      wordStatement "continue" empty,
      wordStatement "global" (commaSeparated anyName),
      wordStatement "nonlocal" (commaSeparated anyName),
      all [node .typeAlias (all [word "type", role .left (rule type), mark "=",
        role .right (rule type)]), ahead endOfStatement],
      wordStatement "print" (all [mark ">>", rule expression,
        many (seq (mark ",") (rule expression)), optional (mark ",")]),
      all [absent (token fun t => t.kind = .word && statementWords.contains t.text),
        rule expressionStatement, ahead endOfStatement],
      wordStatement "print" (commaList (rule expression)),
      wordStatement "exec" (seq (choice (rule string) anyName)
        (optional (seq (word "in") (commaSeparated (rule expression)))))]
  | expressionStatement => node .expressionStatement (oneOf [
      rule assignment, rule yield, commaList (rule expression)])
  | assignment => node .assignment (all [
      absent (token fun t => t.kind = .word && expressionWords.contains t.text),
      role .left (rule target),
      oneOf [
        seq (mark "=") (role .right (rule assigned)),
        all [typed ":", optional (seq (mark "=") (role .right (rule assigned)))],
        all [oneMark augmentedMarks, role .right (rule assigned), becomes .augmentedAssignment]]])
  | assigned => oneOf [rule assignment, rule yield, rule expressions]
  | suite => node .block (oneOf [
      indented (choice (rule statement) stray), rule simpleLine, kinded .newline])
  | ifStatement => node .ifStatement (all [
      word "if", rule expression, body,
      many (node .elifClause (all [word "elif", rule expression, body])),
      optional (rule elseClause)])
  | elseClause => node .elseClause (seq (word "else") body)
  | tryStatement => node .tryStatement (all [
      word "try", body,
      many (node .exceptClause (all [
        word "except", optional (seq (mark "*") (becomes .exceptGroupClause)),
        optional (seq (rule expression) (optional (seq (mark ",") (rule expression)))),
        body])),
      optional (rule elseClause),
      optional (node .finallyClause (seq (word "finally") body))])
  | withStatement => node .withStatement (all [
      optional (word "async"), word "with",
      node .withClause (choice
        (all [mark "(", commaList (rule expression), mark ")", ahead (mark ":")])
        (commaList (rule expression))),
      body])
  | forStatement => node .forStatement (all [
      optional (word "async"), word "for", role .left (rule target), word "in",
      role .right (rule expressions), body, optional (rule elseClause)])
  | whileStatement => node .statement (all [
      word "while", rule expression, body, optional (rule elseClause)])
  | functionDefinition => node .functionDefinition (all [
      optional (word "async"), word "def", role .name anyName, optional (rule typeParameter),
      role .parameters (node .parameters (all [
        mark "(", optional (commaList (rule parameter)), mark ")"])),
      optional (seq (mark "->") (rule type)), body])
  | classDefinition => node .classDefinition (all [
      word "class", role .name anyName, optional (rule typeParameter),
      optional (role .superclasses (ofKind (· = .argumentList) (rule arguments))), body])
  | decorated => node .decoratedDefinition (all [
      many1 (node .decorator (all [mark "@", rule expression, kinded .newline])),
      role .definition (choice (rule classDefinition) (rule functionDefinition))])
  | matchStatement => node .matchStatement (all [
      word "match", commaList (rule expression), mark ":",
      role .body (node .block (indented (node .caseClause (all [
        word "case", node .casePattern (many1 (rule caseToken)),
        optional (node .ifClause (seq (word "if") (rule expression))), body]))))])
  | caseToken => oneOf [
      bracketed "(" ")", bracketed "[" "]", bracketed "\x7b" "\x7d",
      token fun t =>
        t.isSolid && !t.isWord "if" && !(t.kind = .mark &&
          [":", "(", ")", "[", "]", "\x7b", "\x7d"].contains t.text)]
  | parameter => oneOf [
      extend (starred .dictionarySplatPattern "**")
        (seq (typed ":") (takesIn .typedParameter .name)) false,
      extend (starred .listSplatPattern "*")
        (seq (typed ":") (takesIn .typedParameter .name)) false,
      leaf .keywordSeparator (Token.isMark "*"),
      leaf .positionalSeparator (Token.isMark "/"),
      extend identifier (oneOf [
        seq (typed ":") (choice
          (seq defaultValue (takesIn .typedDefaultParameter .name))
          (takesIn .typedParameter .name)),
        seq defaultValue (takesIn .defaultParameter .name)]) false,
      extend (ofKind (· = .tuplePattern) (rule pattern))
        (seq defaultValue (takesIn .defaultParameter .name)) false]
  | lambdaParameter => oneOf [
      starred .dictionarySplatPattern "**",
      starred .listSplatPattern "*",
      leaf .keywordSeparator (Token.isMark "*"),
      leaf .positionalSeparator (Token.isMark "/"),
      extend identifier (seq defaultValue (takesIn .defaultParameter .name)) false,
      extend (ofKind (· = .tuplePattern) (rule pattern))
        (seq defaultValue (takesIn .defaultParameter .name)) false]
  | type => extend
      (node .type (oneOf [
        all [ahead (seq identifier (mark "[")), node .genericType (seq identifier
          (rule typeParameter))],
        all [node .splatType (seq (oneMark ["*", "**"]) identifier),
          ahead (oneMark [",", "]", "=", ")"])],
        rule expression]))
      (oneOf [
        all [mark "|", rule type, becomes .unionType],
        all [mark ".", anyName, becomes .memberType]]) true
  | typeParameter => node .typeParameter (all [
      mark "[", commaList (extend (rule type)
        (all [mark ":", rule type, becomes .constrainedType]) false),
      mark "]"])
  | pattern => oneOf [
      ofKind isTarget (rule primary),
      starred .listSplatPattern "*",
      node .tuplePattern (all [mark "(", optional (commaList (rule pattern)), mark ")"]),
      node .listPattern (all [mark "[", optional (commaList (rule pattern)), mark "]"])]
  | target => extend (rule pattern)
      (all [mark ",", optional (commaList (rule pattern)), becomes .patternList]) false
  | expression => extend (rule conditional)
      (all [word "as", role .asName (node .asPatternTarget (rule conditional)),
        becomes .asPattern]) true
  | expressions => extend (rule expression)
      (all [mark ",", optional (commaList (rule expression)), becomes .expressionList]) false
  | conditional => extend (rule disjunction)
      (all [word "if", rule expression, word "else", rule conditional, becomes .conditional]) false
  | disjunction => extend (rule conjunction)
      (all [word "or", rule conjunction, becomes .booleanOperator]) true
  | conjunction => extend (rule inversion)
      (all [word "and", rule inversion, becomes .booleanOperator]) true
  | inversion => oneOf [
      node .notOperator (seq (word "not") (rule inversion)),
      node .lambda (all [word "lambda",
        optional (node .parameters (commaList (rule lambdaParameter))), mark ":",
        rule conditional]),
      node .namedExpression (all [role .name identifier, mark ":=", rule conditional]),
      all [absent (choice (word "not") (word "lambda")), rule comparison]]
  | comparison => extend (rule (binary 0))
      (all [comparisonOperator, rule (binary 0), becomes .comparison]) true
  | binary level =>
    if level < 6 then
      extend (rule (binary (level + 1)))
        (all [oneMark (binaryOperators level), role .right (rule (binary (level + 1))),
          takesIn (if level = 0 then .alternation else .binaryOperator) .left]) true
    else rule unary
  | unary => choice
      (node .unaryOperator (seq (oneMark ["+", "-", "~"]) (role .argument (rule unary))))
      (rule power)
  | power => extend (rule awaited)
      (all [mark "**", role .right (rule unary), takesIn .binaryOperator .left]) false
  | awaited => choice (node .await (seq (word "await") (rule awaited))) (rule primary)
  | primary => extend (rule atom) (choice targetTail callTail) true
  | atom => oneOf [
      leaf .none (Token.isWord "None"),
      leaf .true (Token.isWord "True"),
      leaf .false (Token.isWord "False"),
      identifier,
      leaf .integer fun t => t.kind = .integer,
      leaf .float fun t => t.kind = .float,
      leaf .ellipsis (Token.isMark "..."),
      rule strings,
      rule parenthesis,
      rule bracket,
      rule brace,
      starred .listSplatPattern "*"]
  | element => choice spread (rule expression)
  | clauses => many1 (choice
      (node .forInClause (all [
        optional (word "async"), word "for", role .left (rule target), word "in",
        commaList (rule disjunction)]))
      (node .ifClause (seq (word "if") (rule disjunction))))
  | yield => node .yield (seq (word "yield") (optional (choice
      (seq (word "from") (rule expression)) (rule expressions))))
  | argument => oneOf [
      node .dictionarySplat (seq (mark "**") (rule expression)),
      node .listSplat (seq (mark "*") (rule expression)),
      all [ahead (seq anyName (mark "=")), node .keywordArgument (all [
        role .name anyName, mark "=", role .value (rule expression)])],
      rule expression]
  | arguments => node .argumentList (seq (mark "(") (choice (mark ")") (seq (rule argument)
      (choice (listTail ")" (rule argument))
        (all [rule clauses, mark ")", becomes .generatorExpression])))))
  | subscripts => all [mark "[", role .subscript (commaList (choice
      (node .slice (seq (mark ":") (sliceRest)))
      (extend (rule expression) (all [mark ":", sliceRest, becomes .slice]) false))), mark "]"]
  | parenthesis => node .parenthesized (seq (mark "(") (choice
      (seq (mark ")") (becomes .tuple))
      (seq (rule element) (oneOf [
        mark ")",
        seq (listTail ")" (rule element)) (becomes .tuple),
        all [rule clauses, mark ")", becomes .generatorExpression]]))))
  | bracket => node .list (seq (mark "[") (choice (mark "]") (seq (rule element) (choice
      (listTail "]" (rule element))
      (all [rule clauses, mark "]", becomes .display])))))
  | brace => node .display (seq (mark "\x7b") (choice (mark "\x7d")
      (byKind (fun k => k = .pair || k = .dictionarySplat)
        (oneOf [mapping, spread,
          extend (rule expression) (all [mark ":", rule expression, becomes .pair]) false])
        (braceTail entry) (braceTail (rule element)))))
  | strings => extend (rule string) (all [many1 (rule string), becomes .concatenatedString]) false
  | string => node .string (all [
      kinded .stringStart,
      many (choice (leaf .stringContent fun t => t.kind = .stringContent) (rule hole)),
      kinded .stringEnd])
  | hole => node .interpolation (all [
      kinded .holeStart, choice (rule yield) (rule expressions), optional (mark "="),
      optional (kinded .conversion),
      optional (node .formatSpecifier (seq (kinded .formatStart)
        (many (choice (kinded .formatText) (rule hole))))),
      kinded .holeEnd])
where
  /-- What follows the first colon of a slice. -/
  sliceRest : G :=
    all [optional (rule expression), optional (seq (mark ":") (optional (rule expression)))]
  /-- An element that is no expression. -/
  spread : G :=
    choice (rule yield) (node .listSplat (seq (mark "*") (rule expression)))
  /-- The entries of another dictionary. -/
  mapping : G :=
    node .dictionarySplat (seq (mark "**") (rule expression))
  /-- An entry of a dictionary. -/
  entry : G :=
    choice mapping (node .pair (all [rule expression, mark ":", rule expression]))
  /-- What follows the first item between braces. -/
  braceTail (item : G) : G :=
    choice (listTail "\x7d" item) (seq (rule clauses) (mark "\x7d"))

end Rule

/-- Where a source file is read: statements, and tokens that form none. -/
def moduleGrammar : Grammar Rule :=
  .many (.choice (.rule .statement) (.node .error (.token fun _ => true)))

/-- The tree of a source text. Each token is reached through a bounded number of rules and forms. -/
def parse (text : List Char) : SyntaxTree :=
  let (tokens, joints) := lex text
  let fuel := 400 * (tokens.length + 2)
  let trees := match moduleGrammar.run Rule.definition fuel ⟨0, tokens⟩ with
    | some reading => reading.trees
    | none => []
  joints.foldl (fun t s => t.insertJoint s) (.node .module none 0 (Text.byteLength text) trees)

end CallFill.Source
