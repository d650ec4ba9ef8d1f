import ApiCerberus.Lib.Parsing
import ApiCerberus.Lib.Text

/-!
# The parser of queries

`internal/graphql/parser.go`, from its types (16-157) to the functions that pass over white space and words (676-745).

`input` and `pos` are what is left of the input. Only ASCII means something to the parser: the bytes of another
character, or of none, are passed one by one, here in one step. `peek` gives `none` where the code's gives the byte 0,
which it compares with no more than the end.

The loops have `gas` rounds, and calls of `parseSelections` and `parseValue` are nested at most `stack` deep. The two
call each other through the functions in between; those get the call as a parameter. `currentDepth` goes up by one in
`parseSelections` and down on all its ways out, so it is a parameter too.
-/

namespace GraphQL

open Parsing

/-! ## Syntax trees -/

/-- Scalars are kept as they are written. -/
inductive Value
  | scalar (value : Text)
  | list (values : List Value)
  | object (fields : List (Text × Value))

structure Argument where
  name : Text
  value : Value

/-- The syntax tree, as the parser builds it. -/
inductive Selection
  | field (name fieldAlias : Text) (arguments : List Argument) (selections : List Selection)
  | fragmentSpread (name : Text)
  | inlineFragment (typeCondition : Text) (selections : List Selection)

inductive OperationType
  | query
  | mutation
  | subscription
  deriving DecidableEq

inductive Definition
  | operation (type : OperationType) (name : Text) (selections : List Selection)
  | fragmentDefinition (name type : Text) (selections : List Selection)

structure Document where
  definitions : List Definition

/-- The errors of the parser. -/
inductive ParseError
  | empty
  | operationBrace
  | fragmentName
  | fragmentOn
  | fragmentType
  | fragmentBrace
  | brace
  | tooDeep (currentDepth : Nat)
  | selectionsOpen
  | inlineType
  | inlineBrace
  | fieldName
  | aliasedName
  | argumentName
  | argumentColon
  | argumentsOpen
  deriving DecidableEq

def defaultMaxDepth : Nat := 50

def ParseError.text : ParseError → String
  | empty => "empty query"
  | operationBrace => "expected '\x7b' to start operation"
  | fragmentName => "expected fragment name"
  | fragmentOn => "expected 'on' in fragment definition"
  | fragmentType => "expected type condition in fragment definition"
  | fragmentBrace => "expected '\x7b' in fragment definition"
  | brace => "expected '\x7b'"
  | tooDeep currentDepth => s!"query depth {currentDepth} exceeds maximum allowed depth {defaultMaxDepth}"
  | selectionsOpen => "expected '\x7d' to close selection set"
  | inlineType => "expected type condition in inline fragment"
  | inlineBrace => "expected '\x7b' in inline fragment"
  | fieldName => "expected field name"
  | aliasedName => "expected field name after alias"
  | argumentName => "expected argument name"
  | argumentColon => "expected ':' in argument"
  | argumentsOpen => "expected ')' to close arguments"

/-- A method of `queryParser`. -/
abbrev QueryParser := Parser Char ParseError

/-! ## Characters and words -/

/-- Commas are white space. -/
def isWhitespace (c : Char) : Bool := c = ' ' || c = '\t' || c = '\n' || c = '\r' || c = ','

def isLetter (c : Char) : Bool := ('a' ≤ c && c ≤ 'z') || ('A' ≤ c && c ≤ 'Z')

def isDigit (c : Char) : Bool := '0' ≤ c && c ≤ '9'

def isNameChar (c : Char) : Bool := isLetter c || isDigit c || c = '_'

def peek : QueryParser (Option Char) := do
  let t ← rest
  return t.head?

/-- The letters ahead; the cursor goes back. -/
def peekWord : QueryParser Text := do
  let t ← rest
  tick ((t.takeWhile isLetter).length + 1)
  return t.takeWhile isLetter

def skipWhitespace : QueryParser Unit := do
  let _ ← scan isWhitespace

/-- Everything before the character is passed over. -/
def skipUntil (char : Char) : QueryParser Unit := do
  let _ ← scan fun c => c ≠ char

def parseName : QueryParser Text := scan isNameChar

/-- `peek() == '.' && peekN(1) == '.' && peekN(2) == '.'`. -/
def dots (t : Text) : Bool := t.take 3 = ['.', '.', '.']

/-- The end of the input, or the character that ends a loop. -/
def endsAt (char : Char) (t : Text) : Bool := t = [] || t.head? = some char

/-- After an item of a list. -/
def skipComma : QueryParser Unit := do
  skipWhitespace
  when ((← peek) = some ',') do
    advance 1
    skipWhitespace

/-! ## Values -/

/-- The characters up to the closing quote; one after a backslash is passed with it. -/
def stringLength : Text → Nat
  | [] => 0
  | '"' :: _ => 0
  | '\\' :: _ :: t => stringLength t + 2
  | _ :: t => stringLength t + 1

/-- Without the quotes; the closing one may be missing. -/
def parseStringValue : QueryParser Value := do
  advance 1
  let value ← take stringLength
  when ((← peek) = some '"') (advance 1)
  return .scalar value

def endsScalar (c : Char) : Bool := isWhitespace c || c = ',' || c = ')' || c = '}' || c = ']'

def parseScalarValue : QueryParser Value := do
  if (← peek) = some '"' then parseStringValue
  else
    let value ← scan fun c => !endsScalar c
    return .scalar value

/-- `obj.Fields[name] = value`. -/
def setField (fields : List (Text × Value)) (name : Text) (value : Value) : List (Text × Value) :=
  if fields.any (fun f => f.1 = name) then fields.map fun f => if f.1 = name then (name, value) else f
  else fields ++ [(name, value)]

section

variable {κ σ : Type} (close : Char) (key : QueryParser κ) (put : σ → κ → Value → σ) (gas : Nat)
  (parseValue : QueryParser Value)

/-- An item of a list or an object: `key` reads what stands before its value. -/
def parseItem (items : σ) : QueryParser σ := do
  let k ← key
  let value ← parseValue
  skipComma
  return put items k value

/-- The items from an opening bracket to the closing one. -/
def parseItems (items : σ) : QueryParser σ := do
  advance 1
  skipWhitespace
  let items ← loop (endsAt close) (parseItem key put parseValue) gas items
  when ((← peek) = some close) (advance 1)
  return items

def parseListValue : QueryParser Value := do
  let values ← parseItems ']' (pure ()) (fun values _ value => values ++ [value]) gas parseValue []
  return .list values

/-- The name of a field of an object, and its colon if there is one. -/
def parseFieldKey : QueryParser Text := do
  let name ← parseName
  skipWhitespace
  when ((← peek) = some ':') do
    advance 1
    skipWhitespace
  return name

def parseObjectValue : QueryParser Value := do
  let fields ← parseItems '}' parseFieldKey setField gas parseValue []
  return .object fields

end

/-- The body of `parseValue`, with what it calls for lists and objects. -/
def parseValueWith (parseListValue parseObjectValue : QueryParser Value) : QueryParser Value := do
  skipWhitespace
  let char ← peek
  if char = some '[' then parseListValue
  else if char = some '{' then parseObjectValue
  else parseScalarValue

/-- `stack` bounds how deep the calls nest. -/
def parseValue (gas : Nat) : (stack : Nat) → QueryParser Value
  | 0 => halt .overflow
  | stack + 1 =>
    parseValueWith (parseListValue gas (parseValue gas stack)) (parseObjectValue gas (parseValue gas stack))

/-! ## Selections -/

section

variable (gas : Nat) (parseValue : QueryParser Value) (parseSelections : QueryParser (List Selection))

def parseArgument (args : List Argument) : QueryParser (List Argument) := do
  let name ← parseName
  if name = [] then fail .argumentName
  else
    skipWhitespace
    if (← peek) ≠ some ':' then fail .argumentColon
    else
      advance 1
      skipWhitespace
      let value ← parseValue
      skipComma
      return args ++ [⟨name, value⟩]

def parseArguments : QueryParser (List Argument) := do
  if (← peek) ≠ some '(' then return []
  else
    advance 1
    skipWhitespace
    let args ← loop (endsAt ')') (parseArgument parseValue) gas []
    if (← rest) = [] then fail .argumentsOpen
    else
      when ((← peek) = some ')') (advance 1)
      return args

/-- The alias, if there is one, and the name. -/
def parseFieldName : QueryParser (Text × Text) := do
  let name ← parseName
  skipWhitespace
  if name = [] then fail .fieldName
  else if (← peek) = some ':' then
    advance 1
    skipWhitespace
    let field ← parseName
    skipWhitespace
    if field = [] then fail .aliasedName
    else return (name, field)
  else return ([], name)

def parseFieldArguments : QueryParser (List Argument) := do
  if (← peek) = some '(' then
    let args ← parseArguments gas parseValue
    skipWhitespace
    return args
  else return []

/-- Directives are passed over up to the next brace. -/
def parseField : QueryParser Selection := do
  let (fieldAlias, name) ← parseFieldName
  let args ← parseFieldArguments gas parseValue
  when ((← peek) = some '@') (skipUntil '{')
  if (← peek) = some '{' then
    let selections ← parseSelections
    return .field name fieldAlias args selections
  else return .field name fieldAlias args []

def typeCondition : QueryParser Text := do
  if (← peekWord) = "on".toList then
    advance 2
    skipWhitespace
    let type ← parseName
    if type = [] then fail .inlineType
    else
      skipWhitespace
      return type
  else return []

def parseInlineFragment : QueryParser Selection := do
  when (dots (← rest)) do
    advance 3
    skipWhitespace
  let type ← typeCondition
  when ((← peek) = some '@') (skipUntil '{')
  skipWhitespace
  if (← peek) ≠ some '{' then fail .inlineBrace
  else
    let selections ← parseSelections
    return .inlineFragment type selections

def parseSpread : QueryParser Selection := do
  let name ← parseName
  return .fragmentSpread name

/-- A field, a spread or an inline fragment. -/
def parseSelection : QueryParser Selection := do
  skipWhitespace
  let t ← rest
  if dots t then
    advance 3
    skipWhitespace
    if t[3]? = some ' ' then
      if (← peekWord) = "on".toList then parseInlineFragment parseSelections
      else parseSpread
    else parseSpread
  else parseField gas parseValue parseSelections

def parseSelectionItem (selections : List Selection) : QueryParser (List Selection) := do
  let sel ← parseSelection gas parseValue parseSelections
  skipWhitespace
  return selections ++ [sel]

/-- The body of `parseSelections`, with what it calls. -/
def parseSelectionsWith (currentDepth : Nat) : QueryParser (List Selection) := do
  if (← peek) ≠ some '{' then fail .brace
  else
    advance 1
    skipWhitespace
    if defaultMaxDepth < currentDepth + 1 then fail (.tooDeep currentDepth)
    else
      let selections ← loop (endsAt '}') (parseSelectionItem gas parseValue parseSelections) gas []
      if (← rest) = [] then fail .selectionsOpen
      else
        when ((← peek) = some '}') (advance 1)
        return selections

end

section

variable (gas : Nat)

/-- `values` are what a call of `parseValue` does with as much of the stack. -/
def parseSelections (values : Nat → QueryParser Value) : (stack currentDepth : Nat) → QueryParser (List Selection)
  | 0, _ => halt .overflow
  | stack + 1, currentDepth =>
    parseSelectionsWith gas (values stack) (parseSelections values stack (currentDepth + 1)) currentDepth

/-! ## Documents -/

variable (parseSelections : QueryParser (List Selection))

def parseOperationType : QueryParser OperationType := do
  let word ← peekWord
  if word = "query".toList then
    advance 5
    return .query
  else if word = "mutation".toList then
    advance 8
    return .mutation
  else if word = "subscription".toList then
    advance 12
    return .subscription
  else return .query

def parseOperationName : QueryParser Text := do
  let t ← rest
  if t.head? ≠ some '{' ∧ t ≠ [] then parseName
  else return []

def parseOperation : QueryParser Definition := do
  skipWhitespace
  let type ← parseOperationType
  skipWhitespace
  let name ← parseOperationName
  skipWhitespace
  when ((← peek) = some '(') (skipUntil '{')
  skipWhitespace
  if (← peek) ≠ some '{' then fail .operationBrace
  else
    let selections ← parseSelections
    return .operation type name selections

/-- Behind the word `fragment`. -/
def parseFragmentDefinition : QueryParser Definition := do
  advance 8
  skipWhitespace
  let name ← parseName
  if name = [] then fail .fragmentName
  else
    skipWhitespace
    if (← peekWord) ≠ "on".toList then fail .fragmentOn
    else
      advance 2
      skipWhitespace
      let type ← parseName
      if type = [] then fail .fragmentType
      else
        skipWhitespace
        when ((← peek) = some '@') (skipUntil '{')
        skipWhitespace
        if (← peek) ≠ some '{' then fail .fragmentBrace
        else
          let selections ← parseSelections
          return .fragmentDefinition name type selections

def isFragment : QueryParser Bool := do
  if (← peek) = some 'f' then
    let word ← peekWord
    return word = "fragment".toList
  else return false

/-- A fragment, or an operation. -/
def parseDefinition (definitions : List Definition) : QueryParser (List Definition) := do
  skipWhitespace
  if (← rest) = [] then return definitions
  else if ← isFragment then
    let frag ← parseFragmentDefinition parseSelections
    return definitions ++ [frag]
  else
    let op ← parseOperation parseSelections
    return definitions ++ [op]

def parseDocument : QueryParser Document := do
  let definitions ← loop (fun t => t = []) (parseDefinition parseSelections) gas []
  return ⟨definitions⟩

end

/-- `ParseQuery`, with the reader of values. -/
def parseQueryWith (gas stack : Nat) (values : Nat → QueryParser Value)
    (query : Text) : Outcome Char ParseError Document :=
  let query := Text.trimSpace query
  if query = [] then .fail .empty ⟨[], 0⟩
  else (parseDocument gas (parseSelections gas values stack 0)).run ⟨query, 0⟩

/-- From the text to the tree, with bounds on rounds and calls. -/
def parseQuery (gas stack : Nat) (query : Text) : Outcome Char ParseError Document :=
  parseQueryWith gas stack (parseValue gas) query

end GraphQL
