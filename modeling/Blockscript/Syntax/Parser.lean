import Blockscript.Decimal.Reader
import Blockscript.Syntax.Node
import Blockscript.Text.Escape
import Blockscript.Text.Integer
import Blockscript.Token.Lexer

/-!
# Parsing

Tokens are read from left to right, and the next one alone decides how to go on.
Expressions are a ladder of operators that associate to the left:

    logical         &&  ||
    comparison      <  <=  >  >=  ==  !=
    additive        +  -
    multiplicative  *  /
    secondary       receiver.field  receiver.method(arguments)
    primary         literals, (group), name, name(arguments)

A `Parser` takes tokens off the front of those that remain; where it fails, they
are left as they were at that point, and the first of them is the one that cannot
be there. A rule is given the parsers of its parts, and a round of a loop the one
of the rounds after it. Where a rule contains itself, `expressionWithin n` and
`statementWithin n` parse constructs nested up to `n` deep, and no construct nests
deeper than there are tokens; nor does a loop have more rounds.

Nothing here is up to a host: constructs nest to any depth, and an integer has any
number of digits. A host that reads integers only up to some number of digits, or does
not go as deep as a program nests, refuses it before or instead; that is told by
`parseWithin`.

* `Parser.declarationRule`, `Parser.itemRound`, …: rules and rounds, given their parts;
* `Parser.expression`, `Parser.statement`, `Parser.program`: the main rules;
* `parse`: the tree of a whole list of tokens;
* `parseSource`: the tree of a program.
-/

namespace Blockscript

open Text

/-- What a token may be asked to be: of a class, or of an exact text. -/
inductive Token.Pattern where
  | ofKind (kind : Token.Kind)
  | ofText (text : String)
  deriving DecidableEq, Repr

/-- Whether a token is as asked. -/
def Token.fits (t : Token) : Token.Pattern → Bool
  | .ofKind kind => t.kind == kind
  | .ofText text => t.text == text

/-- The ways in which tokens fail to be a program. -/
inductive ParseError.Cause where
  | missingIdentifier
  | missingExpression
  | missingText (text : String)
  | missingMethod
  /-- A token is missing, in the words of the one who asked for it. -/
  | missing (message : String)
  /-- A backslash before a character that it does not escape. -/
  | unknownEscape (c : Char)
  | unreadableInteger
  | unreadableDecimal
  deriving DecidableEq, Repr

/-- The wording of an error. -/
def ParseError.Cause.message : ParseError.Cause → String
  | .missingIdentifier => "expected identifier"
  | .missingExpression => "expected expression"
  | .missingText text => "expected '" ++ text ++ "'"
  | .missingMethod => "expected 'DEF' or end of input"
  | .missing message => message
  | .unknownEscape c => String.singleton c
  | .unreadableInteger => "unreadable integer"
  | .unreadableDecimal => "unreadable decimal"

/-- A failure to parse: its cause, and the offset of the token that cannot be
    there, or of the end of the last one. -/
structure ParseError where
  cause : ParseError.Cause
  offset : Nat
  deriving DecidableEq, Repr

/-- The wording of an error, without its place. -/
def ParseError.message (e : ParseError) : String :=
  e.cause.message

/-- A rule of the grammar: it takes tokens off the front of those that remain. -/
abbrev Parser := EStateM ParseError.Cause (List Token)

namespace Parser

/-- Whether the tokens that remain start with tokens as asked, one after the
    other. -/
def startsWith : List Token.Pattern → List Token → Bool
  | [], _ => true
  | _ :: _, [] => false
  | p :: ps, t :: ts => t.fits p && startsWith ps ts

/-- Whether the next token has the given text. -/
def nextIs (text : String) : Parser Bool :=
  return startsWith [.ofText text] (← get)

/-- Takes the next tokens if they are as asked, and tells whether they were. -/
def acceptAll (ps : List Token.Pattern) : Parser Bool := do
  if startsWith ps (← get) then
    modify (·.drop ps.length)
    return true
  else
    return false

/-- Takes the next token if it has the given text, and tells whether it had. -/
def accept (text : String) : Parser Bool :=
  acceptAll [.ofText text]

/-- Takes the next token, which has to be as asked. -/
def expect (p : Token.Pattern) (cause : ParseError.Cause) : Parser Token := do
  match ← get with
  | t :: rest =>
    if t.fits p then
      set rest
      return t
    else
      throw cause
  | [] => throw cause

/-- Takes the next token, which has to have the given text. -/
def expectText (text : String) : Parser Unit := do
  let _ ← expect (.ofText text) (.missingText text)

/-- Takes the next token, which has to be an identifier, and gives its name. -/
def identifier : Parser String :=
  return (← expect (.ofKind .identifier) .missingIdentifier).text

/-- What the inside of a quoted token denotes. -/
def unquote (t : Token) : Parser String :=
  match Escape.decode (t.text.toList.drop 1).dropLast with
  | .ok s => return String.ofList s
  | .error c => throw (.unknownEscape c)

/-- Gives a loop as many rounds as there are tokens, which is as many as it can use:
    every round takes a token. -/
def unlimited {α : Type} (loop : Nat → Parser α) : Parser α := do
  loop (← get).length

/-- Goes on with a comma and one more item, if there is a comma, and then with
    `more`. -/
def itemRound {α : Type} (item : Parser α) (more : Parser (List α)) : Parser (List α) := do
  if ← accept "," then
    let a ← item
    return a :: (← more)
  else
    return []

/-- Goes on with a comma and one more item as long as there is a comma. At most
    `fuel` items are read. -/
def moreItems {α : Type} (item : Parser α) : (fuel : Nat) → Parser (List α)
  | 0 => return []
  | fuel + 1 => itemRound item (moreItems item fuel)

/-- Items up to a closing parenthesis, which is taken too, where `more` parses all
    but the first one. -/
def itemsRule {α : Type} (item : Parser α) (more : Parser (List α)) : Parser (List α) := do
  if ← nextIs ")" then
    expectText ")"
    return []
  else
    let first ← item
    let rest ← more
    expectText ")"
    return first :: rest

/-- Items between commas, up to a closing parenthesis, which is taken too. -/
def items {α : Type} (item : Parser α) : Parser (List α) :=
  itemsRule item (unlimited (moreItems item))

/-! ### Expressions -/

/-- The operators of each step of the ladder. -/
def logicalOperators : List String :=
  ["&&", "||"]

@[inherit_doc logicalOperators]
def comparisonOperators : List String :=
  ["<", "<=", ">", ">=", "==", "!="]

@[inherit_doc logicalOperators]
def additiveOperators : List String :=
  ["+", "-"]

@[inherit_doc logicalOperators]
def multiplicativeOperators : List String :=
  ["*", "/"]

/-- Goes on with an operator and one more operand, if there is such an operator, and
    then with `more`. -/
def operandRound (operators : List String) (operand : Parser Node) (more : Node → Parser Node)
    (left : Node) : Parser Node := do
  match ← get with
  | t :: rest =>
    if operators.contains t.text then
      set rest
      let right ← operand
      more (.binary (.text t.text) left right)
    else
      return left
  | [] => return left

/-- Goes on with an operator and one more operand as long as there is such an
    operator. At most `fuel` operands are read. -/
def moreOperands (operators : List String) (operand : Parser Node) :
    (fuel : Nat) → Node → Parser Node
  | 0, left => return left
  | fuel + 1, left => operandRound operators operand (moreOperands operators operand fuel) left

/-- A step of the ladder: operands of the next step between operators of this
    one, grouped from the left. -/
def chain (operators : List String) (operand : Parser Node) : Parser Node := do
  let left ← operand
  unlimited (moreOperands operators operand · left)

/-- A literal, a group, a variable or a function call, where `inner` parses the
    expressions inside a group, and `arguments` what follows the opening parenthesis
    of a call. -/
def primaryRule (inner : Parser Node) (arguments : Parser (List Node)) : Parser Node := do
  if ← accept "NIL" then
    return .nil
  else if ← accept "TRUE" then
    return .boolean true
  else if ← accept "FALSE" then
    return .boolean false
  else
    match ← get with
    | [] => throw .missingExpression
    | t :: rest =>
      match t.kind with
      | .integer => do
        set rest
        match readInteger? t.text.toList with
        | some i => return .integer i
        | none => throw .unreadableInteger
      | .decimal => do
        set rest
        match Decimal.read? t.text.toList with
        | some d => return .decimal d
        | none => throw .unreadableDecimal
      | .character => do
        set rest
        return .character (← unquote t)
      | .string => do
        set rest
        return .string (← unquote t)
      | kind =>
        if ← accept "(" then
          let e ← inner
          expectText ")"
          return .group e
        else if kind = .identifier then
          let name ← identifier
          if ← accept "(" then
            return .call .absent (.text name) (← arguments)
          else
            return .access .absent (.text name)
        else
          throw .missingExpression

/-- A literal, a group, a variable or a function call, where `inner` parses the
    expressions inside. -/
def primaryWith (inner : Parser Node) : Parser Node :=
  primaryRule inner (items inner)

/-- Goes on with a point and a member, if there is a point, and then with `more`. -/
def memberRound (arguments : Parser (List Node)) (more : Node → Parser Node) (receiver : Node) :
    Parser Node := do
  if ← accept "." then
    let name ← identifier
    if ← accept "(" then
      more (.call receiver (.text name) (← arguments))
    else
      more (.access receiver (.text name))
  else
    return receiver

/-- Goes on with a point and a member as long as there is a point. At most `fuel`
    members are read. -/
def moreMembers (inner : Parser Node) : (fuel : Nat) → Node → Parser Node
  | 0, receiver => return receiver
  | fuel + 1, receiver => memberRound (items inner) (moreMembers inner fuel) receiver

/-- A primary expression with the members that follow it. -/
def secondaryWith (inner : Parser Node) : Parser Node := do
  let receiver ← primaryWith inner
  unlimited (moreMembers inner · receiver)

@[inherit_doc chain]
def multiplicativeWith (inner : Parser Node) : Parser Node :=
  chain multiplicativeOperators (secondaryWith inner)

@[inherit_doc chain]
def additiveWith (inner : Parser Node) : Parser Node :=
  chain additiveOperators (multiplicativeWith inner)

@[inherit_doc chain]
def comparisonWith (inner : Parser Node) : Parser Node :=
  chain comparisonOperators (additiveWith inner)

@[inherit_doc chain]
def logicalWith (inner : Parser Node) : Parser Node :=
  chain logicalOperators (comparisonWith inner)

/-- An expression whose parentheses nest less than `depth` deep. -/
def expressionWithin : (depth : Nat) → Parser Node
  | 0 => throw .missingExpression
  | depth + 1 => logicalWith (expressionWithin depth)

/-- Gives a rule as much depth as there are tokens, which is more than it can
    use: every level of nesting takes a token of its own. -/
def unbounded {α : Type} (rule : Nat → Parser α) : Parser α := do
  rule ((← get).length + 1)

/-- An expression. -/
def expression : Parser Node :=
  unbounded expressionWithin

/-- The rules of the ladder on their own. -/
def logical : Parser Node :=
  logicalWith expression

@[inherit_doc logical]
def comparison : Parser Node :=
  comparisonWith expression

@[inherit_doc logical]
def additive : Parser Node :=
  additiveWith expression

@[inherit_doc logical]
def multiplicative : Parser Node :=
  multiplicativeWith expression

@[inherit_doc logical]
def secondary : Parser Node :=
  secondaryWith expression

@[inherit_doc logical]
def primary : Parser Node :=
  primaryWith expression

/-- The arguments of a call, after the opening parenthesis. -/
def arguments : Parser (List Node) :=
  items expression

/-! ### Statements -/

/-- An initializer after an equals sign, if there is one. -/
def initializerRule (expression : Parser Node) : Parser Node := do
  if ← accept "=" then expression else return .absent

@[inherit_doc initializerRule]
def initializer : Parser Node :=
  initializerRule expression

/-- Whether the next token has one of the given texts. -/
def nextIsAny (texts : List String) : Parser Bool := do
  let ts ← get
  return texts.any fun text => startsWith [.ofText text] ts

/-- One more statement, and then `more`, unless one of the terminators is next. -/
def statementRound (terminators : List String) (inner : Parser Node)
    (more : Parser (List Node)) : Parser (List Node) := do
  if ← nextIsAny terminators then
    return []
  else
    let s ← inner
    return s :: (← more)

/-- Statements up to one of the terminators, which is not taken. At most `fuel`
    statements are read. -/
def statementsUntil (terminators : List String) (inner : Parser Node) :
    (fuel : Nat) → Parser (List Node)
  | 0 => throw .missingExpression
  | fuel + 1 => statementRound terminators inner (statementsUntil terminators inner fuel)

/-- A list of statements up to one of the terminators, which is not taken. -/
def blockWith (inner : Parser Node) (terminators : List String) : Parser (List Node) := do
  statementsUntil terminators inner ((← get).length + 1)

/-- `LET name = value;`, inside a method. -/
def declarationRule (initializer : Parser Node) : Parser Node := do
  expectText "LET"
  let name ← identifier
  let value ← initializer
  expectText ";"
  return .declaration (.text name) value

@[inherit_doc declarationRule]
def declaration : Parser Node :=
  declarationRule initializer

/-- `IF condition DO … ELSE … END`. -/
def choiceRule (expression : Parser Node) (block : List String → Parser (List Node)) :
    Parser Node := do
  expectText "IF"
  let condition ← expression
  expectText "DO"
  let thenStatements ← block ["ELSE", "END"]
  let elseStatements ← if ← accept "ELSE" then block ["END"] else pure []
  expectText "END"
  return .choice condition thenStatements elseStatements

@[inherit_doc choiceRule]
def choiceWith (inner : Parser Node) : Parser Node :=
  choiceRule expression (blockWith inner)

/-- The initializer of a `FOR`, before its semicolon. -/
def forInitializerRule (expression : Parser Node) : Parser Node := do
  if ← nextIs ";" then
    return .absent
  else
    let name ← identifier
    expectText "="
    return .declaration (.text name) (← expression)

@[inherit_doc forInitializerRule]
def forInitializer : Parser Node :=
  forInitializerRule expression

/-- The increment of a `FOR`, before its closing parenthesis. -/
def forIncrementRule (expression : Parser Node) : Parser Node := do
  if ← nextIs ")" then
    return .absent
  else
    let receiver ← expression
    expectText "="
    return .assignment receiver (← expression)

@[inherit_doc forIncrementRule]
def forIncrement : Parser Node :=
  forIncrementRule expression

/-- `FOR (initializer; condition; increment) … END`. -/
def forLoopRule (initializer expression increment : Parser Node) (body : Parser (List Node)) :
    Parser Node := do
  expectText "FOR"
  expectText "("
  let first ← initializer
  expectText ";"
  let condition ← expression
  expectText ";"
  let last ← increment
  expectText ")"
  let statements ← body
  expectText "END"
  return .forLoop first condition last statements

@[inherit_doc forLoopRule]
def forLoopWith (inner : Parser Node) : Parser Node :=
  forLoopRule forInitializer expression forIncrement (blockWith inner ["END"])

/-- `WHILE condition DO … END`. -/
def whileLoopRule (expression : Parser Node) (body : Parser (List Node)) : Parser Node := do
  expectText "WHILE"
  let condition ← expression
  expectText "DO"
  let statements ← body
  expectText "END"
  return .whileLoop condition statements

@[inherit_doc whileLoopRule]
def whileLoopWith (inner : Parser Node) : Parser Node :=
  whileLoopRule expression (blockWith inner ["END"])

/-- `RETURN value;`. -/
def answerRule (expression : Parser Node) : Parser Node := do
  expectText "RETURN"
  let value ← expression
  expectText ";"
  return .answer value

@[inherit_doc answerRule]
def answer : Parser Node :=
  answerRule expression

/-- An expression, or an assignment to one, as a statement. -/
def simpleStatementRule (expression : Parser Node) : Parser Node := do
  let e ← expression
  if ← accept "=" then
    let value ← expression
    expectText ";"
    return .assignment e value
  else
    expectText ";"
    return .discard e

@[inherit_doc simpleStatementRule]
def simpleStatement : Parser Node :=
  simpleStatementRule expression

/-- A statement of any kind; its first word tells which. -/
def statementRule (declaration choice forLoop whileLoop answer simple : Parser Node) :
    Parser Node := do
  if ← nextIs "LET" then declaration
  else if ← nextIs "IF" then choice
  else if ← nextIs "FOR" then forLoop
  else if ← nextIs "WHILE" then whileLoop
  else if ← nextIs "RETURN" then answer
  else simple

/-- A statement, where `inner` parses the statements inside. -/
def statementWith (inner : Parser Node) : Parser Node :=
  statementRule declaration (choiceWith inner) (forLoopWith inner) (whileLoopWith inner) answer
    simpleStatement

/-- A statement whose blocks nest less than `depth` deep. -/
def statementWithin : (depth : Nat) → Parser Node
  | 0 => throw .missingExpression
  | depth + 1 => statementWith (statementWithin depth)

/-- A statement. -/
def statement : Parser Node :=
  unbounded statementWithin

/-- A list of statements up to one of the terminators, which is not taken. -/
def block (terminators : List String) : Parser (List Node) :=
  blockWith statement terminators

/-- The statements with blocks on their own. -/
def choice : Parser Node :=
  choiceWith statement

@[inherit_doc choice]
def forLoop : Parser Node :=
  forLoopWith statement

@[inherit_doc choice]
def whileLoop : Parser Node :=
  whileLoopWith statement

/-! ### Programs -/

/-- `LET CONST name = value;`, outside methods. -/
def fieldRule (initializer : Parser Node) : Parser Node := do
  expectText "LET"
  let isConstant ← accept "CONST"
  let name ← identifier
  let value ← initializer
  expectText ";"
  return .field (.text name) isConstant value

@[inherit_doc fieldRule]
def field : Parser Node :=
  fieldRule initializer

/-- `DEF name(parameters) DO … END`. -/
def methodRule (parameters : Parser (List String)) (body : Parser (List Node)) :
    Parser Node := do
  expectText "DEF"
  let name ← identifier
  expectText "("
  let parameters ← parameters
  expectText "DO"
  let statements ← body
  expectText "END"
  return .method (.text name) (parameters.map .text) statements

@[inherit_doc methodRule]
def method : Parser Node :=
  methodRule (items identifier) (block ["END"])

/-- What a rule gives, and then `more`, if the next token has a text. -/
def whileRound (text : String) (rule : Parser Node) (more : Parser (List Node)) :
    Parser (List Node) := do
  if ← nextIs text then
    let n ← rule
    return n :: (← more)
  else
    return []

/-- What a rule gives as long as the next token has a text. At most `fuel` times. -/
def whileNextIs (text : String) (rule : Parser Node) : (fuel : Nat) → Parser (List Node)
  | 0 => return []
  | fuel + 1 => whileRound text rule (whileNextIs text rule fuel)

/-- A program: fields, then methods, then nothing. -/
def programRule (fields methods : Parser (List Node)) : Parser Node := do
  let fields ← fields
  let methods ← methods
  match ← get with
  | [] => return .program fields methods
  | _ :: _ => throw .missingMethod

@[inherit_doc programRule]
def program : Parser Node :=
  programRule (unlimited (whileNextIs "LET" field)) (unlimited (whileNextIs "DEF" method))

end Parser

/-- The offset of the next of some tokens, where the first of all tokens that
    cannot be there is reported, or the end of all of them. -/
def Token.nextOffset (all rest : List Token) : Nat :=
  match rest with
  | t :: _ => t.offset
  | [] => Token.endOffsetOfAll all

/-- The tree of a list of tokens. -/
def parse (tokens : List Token) : Except ParseError Node :=
  match Parser.program.run tokens with
  | .ok node _ => .ok node
  | .error cause rest => .error ⟨cause, Token.nextOffset tokens rest⟩

/-- A failure to read a program. -/
inductive SourceError where
  | lex (e : LexError)
  | parse (e : ParseError)
  deriving DecidableEq, Repr

/-- The tree of a program. -/
def parseSource (source : String) : Except SourceError Node :=
  match lex source with
  | .error e => .error (.lex e)
  | .ok tokens => (parse tokens).mapError .parse

end Blockscript
