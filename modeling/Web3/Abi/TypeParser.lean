import Web3.Foundations.Programs
import Web3.Abi.Calls
import Web3.Abi.Lexer

/-! # The parser of type descriptions

`readType` and `decodeSimpleType` of `abi/type.go`, and the texts that `NewTypeFromArgument` gives them. The parser
runs on the tokens of the input, `ahead` being those that `nextToken` has not returned yet; behind the last one it
reads the end of the input for ever. An error keeps the state, because `readType` looks at the token where a failed
call stopped. A parsed type comes with the `raw` name that the parser puts together. -/

namespace Web3.Abi
open Prog

/-! ## Elementary types -/

def isAlpha (ch : Char) : Bool := 'a' ≤ ch && ch ≤ 'z' || 'A' ≤ ch && ch ≤ 'Z'

def decimal (digits : Text) : ℕ := Nat.ofDigitChars 10 digits 0

def rangeError (fn : String) (digits : Text) : String :=
  "strconv." ++ fn ++ ": parsing \"" ++ String.ofList digits ++ "\": value out of range"

def atoi (digits : Text) : Outcome ℕ :=
  if decimal digits < 2 ^ 63 then .ok (decimal digits)
  else .err ("failed to parse bytes '" ++ String.ofList digits ++ "': " ++ rangeError "Atoi" digits)

/-- The panic of an integer type whose size is not a multiple of 8. -/
def sizePanic : String := "number of bytes has to be M mod 8"

def elementaryType (t : Text) (bytes : ℕ) (ok : Bool) : Outcome (Typ × String) :=
  if (t = "int".toList ∨ t = "uint".toList) ∧ ok = false then .err "int and uint expect bytes"
  else if ¬ (t = "int".toList ∨ t = "uint".toList) ∧ t ≠ "bytes".toList ∧ ok = true then
    .err ("type " ++ String.ofList t ++ " does not expect bytes")
  else if t = "uint".toList then
    if bytes % 8 ≠ 0 then .panic sizePanic else .ok (.uint bytes, "uint" ++ toString bytes)
  else if t = "int".toList then
    if bytes % 8 ≠ 0 then .panic sizePanic else .ok (.int bytes, "int" ++ toString bytes)
  else if t = "byte".toList then .ok (.fixedBytes 1, "bytes1")
  else if t = "bytes".toList then
    if bytes = 0 then .ok (.bytes, "bytes") else .ok (.fixedBytes bytes, "bytes" ++ toString bytes)
  else if t = "string".toList then .ok (.string, "string")
  else if t = "bool".toList then .ok (.bool, "bool")
  else if t = "address".toList then .ok (.address, "address")
  else if t = "function".toList then .ok (.function, "function")
  else .err ("unknown type '" ++ String.ofList t ++ "'")

/-- The regular expression splits the name into letters and digits. -/
def decodeSimpleType (str : Text) : Outcome (Typ × String) :=
  let t := str.takeWhile isAlpha
  let bytesStr := str.dropWhile isAlpha
  if t = [] ∨ bytesStr.all isDigit = false then
    .err ("type format is incorrect. Expected 'type''bytes' but found '" ++ String.ofList str ++ "'")
  else if bytesStr = [] then elementaryType t 0 false
  else do
    let bytes ← atoi bytesStr
    elementaryType t bytes true

/-! ## Array types

`reflect.ArrayOf` panics if the array would be larger than the address space. -/

def ExceedsAddressSpace (size : ℕ) (elem : GoType) : Prop := 0 < goSize elem ∧ (2 ^ 64 - 1) / goSize elem < size

instance (size : ℕ) (elem : GoType) : Decidable (ExceedsAddressSpace size elem) :=
  inferInstanceAs (Decidable (_ ∧ _))

def arrayPanic : String := "reflect.ArrayOf: array size would exceed virtual address space"

/-! ## The parser -/

structure Stream where
  current : Token
  ahead : List Token

def Stream.peek (l : Stream) : Token := l.ahead.headD .eof

abbrev Parser := Prog Stream String String

def nextToken : Parser Token := fun l => .ok l.peek { current := l.peek, ahead := l.ahead.tail }

def expectedToken (t : Token) : String := "expected token " ++ t.typ

def notExpectedToken (t : Token) : String := "token '" ++ t.typ ++ "' not expected"

def expect (t : Token) : Parser Unit := do
  let n ← nextToken
  if n = t then pure () else throw (expectedToken t)

/-- The panic of a model that ran out of fuel. -/
def fuelPanic : String := "out of fuel"

def ofOutcome {α : Type} : Outcome α → Parser α
  | .ok a => pure a
  | .err e => throw e
  | .panic p => halt p

def skipNameBrackets : Parser Unit := do
  let p ← read Stream.peek
  if p = .lbracket then
    let _ ← nextToken
    let n ← nextToken
    match n with
    | .number _ => expect .rbracket
    | _ => pure ()
  else pure ()

def readTupleName : Parser Text := do
  let p ← read Stream.peek
  match p with
  | .str literal =>
    let _ ← nextToken
    skipNameBrackets
    pure literal
  | _ => pure []

def readElemName : Parser (Bool × Text) := do
  let p ← read Stream.peek
  match p with
  | .str literal =>
    let _ ← nextToken
    pure (false, literal)
  | .indexed =>
    let _ ← nextToken
    let p ← read Stream.peek
    match p with
    | .str literal =>
      let _ ← nextToken
      pure (true, literal)
    | _ => pure (true, [])
  | _ => pure (false, [])

def parseSize (literal : Text) : Parser ℕ :=
  if decimal literal < 2 ^ 32 then pure (decimal literal)
  else throw ("failed to read array size '" ++ String.ofList literal ++ "': " ++ rangeError "ParseUint" literal)

def arrayOf (size : ℕ) (tt : Typ × String) : Parser (Typ × String) :=
  if ExceedsAddressSpace size (goType tt.1) then halt arrayPanic
  else pure (.array size tt.1, tt.2 ++ "[" ++ toString size ++ "]")

def readSuffixes : ℕ → Typ × String → Parser (Typ × String)
  | 0, _ => halt fuelPanic
  | fuel + 1, tt => do
    let p ← read Stream.peek
    if p = .lbracket then
      let _ ← nextToken
      let n ← nextToken
      match n with
      | .rbracket => readSuffixes fuel (.slice tt.1, tt.2 ++ "[]")
      | .number literal =>
        let size ← parseSize literal
        let tAux ← arrayOf size tt
        expect .rbracket
        readSuffixes fuel tAux
      | n => throw (notExpectedToken n)
    else pure tt

structure ParsedElem where
  Name : String
  Elem : Typ
  raw : String
  Indexed : Bool

def tupleElems : List ParsedElem → TupleElems
  | [] => .nil
  | e :: es => .cons e.Name e.Elem e.Indexed (tupleElems es)

def tupleOf (internalName : Text) (elems : List ParsedElem) : Typ × String :=
  (.tuple (String.ofList internalName) (tupleElems elems), "(" ++ ",".intercalate (elems.map ParsedElem.raw) ++ ")")

mutual
def readType : ℕ → Parser (Typ × String)
  | 0 => halt fuelPanic
  | fuel + 1 => do
    let tok ← nextToken
    match tok with
    | .tuple =>
      let internalName ← readTupleName
      expect .lparen
      let elems ← readElems fuel []
      readSuffixes fuel (tupleOf internalName elems)
    | .str literal =>
      let tt ← ofOutcome (decodeSimpleType literal)
      readSuffixes fuel tt
    | _ => throw (expectedToken (.str []))

/-- The loop over the components of a tuple. A first component that fails at a closing parenthesis makes an
empty tuple. -/
def readElems : ℕ → List ParsedElem → Parser (List ParsedElem)
  | 0, _ => halt fuelPanic
  | fuel + 1, elems => do
    let r ← attempt (readType fuel)
    match r with
    | .error err =>
      let c ← read Stream.current
      if c = .rparen ∧ elems.length = 0 then pure elems else throw ("failed to decode type: " ++ err)
    | .ok tt =>
      let (indexed, name) ← readElemName
      let elems := elems ++ [{ Name := String.ofList name, Elem := tt.1, raw := tt.2, Indexed := indexed }]
      let next ← nextToken
      match next with
      | .comma => readElems fuel elems
      | .rparen => pure elems
      | next => throw (notExpectedToken next)
end

def outcome {α : Type} : Ending Stream String String α → Outcome α
  | .ok a _ => .ok a
  | .error e _ => .err e
  | .stop p => .panic p

def newType (s : Text) : Outcome (Typ × String) :=
  outcome (readType ((lex s).length + 1) { current := .eof, ahead := lex s })

/-! ## Arguments -/

mutual
inductive ArgumentStr where
  | mk (Name typ InternalType : Text) (Indexed : Bool) (Components : Arguments)

inductive Arguments where
  | nil
  | cons (head : ArgumentStr) (tail : Arguments)
end

def ArgumentStr.name : ArgumentStr → Text
  | .mk Name _ _ _ _ => Name

def ArgumentStr.indexed : ArgumentStr → Bool
  | .mk _ _ _ Indexed _ => Indexed

/-- The characters behind which `strings.Title` does not start a word. Hints are ASCII, as Solidity's identifiers are. -/
def isTitleChar (ch : Char) : Bool := isWordChar ch || 128 ≤ ch.toNat

def titleFrom (prev : Char) : Text → Text
  | [] => []
  | ch :: rest => (if isTitleChar prev then ch else ch.toUpper) :: titleFrom ch rest

def title (s : Text) : Text := titleFrom ' ' s

def internalTypeToArg (internalType : Text) : Text :=
  let internalName := (internalType.splitOn '.').getLastD []
  ' ' :: (title internalName).takeWhile (· ≠ '[')

def joinCommas : List Text → Text
  | [] => []
  | [s] => s
  | s :: t :: rest => s ++ ',' :: joinCommas (t :: rest)

def nameText (indexed : Bool) (name : Text) : Text :=
  if indexed then ' ' :: indexedWord ++ ' ' :: name else ' ' :: name

mutual
/-- The text of an argument; `parseType` never returns an error. -/
def parseType : ArgumentStr → Text
  | .mk _ typ InternalType _ Components =>
    if tupleWord.isPrefixOf typ then
      match Components with
      | .nil => tupleWord ++ ['(', ')']
      | .cons head tail =>
        tupleWord ++ internalTypeToArg InternalType ++
          '(' :: joinCommas ((parseType head ++ nameText head.indexed head.name) :: componentTexts tail) ++
          ')' :: typ.drop 5
    else typ

def componentTexts : Arguments → List Text
  | .nil => []
  | .cons head tail => (parseType head ++ nameText head.indexed head.name) :: componentTexts tail
end

def newTypeFromArgument (arg : ArgumentStr) : Outcome (Typ × String) := newType (parseType arg)

end Web3.Abi
