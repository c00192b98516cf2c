import BlockLang.Fault
import BlockLang.Text.Letter

/-!
# Procedures that compute

Most procedures compute an answer from their arguments alone. The number of the
arguments is checked before their types, types from left to right, and values
last. Positions in strings count characters, so a stray byte has a position of
its own.
-/

namespace BlockLang

/-- The answer of a procedure: a value that exists already, or a list to be
made. -/
inductive Answer where
  | value (v : Node)
  | newList (elements : List Node)

namespace Procedure

/-- The arguments by their positions. Refuses any other number of them. -/
def exactly (p : Procedure) (args : List Node) (want : Nat) : Except Fault (Fin want → Node) :=
  if h : args.length = want then .ok fun i => args.get (i.cast h.symm)
  else .error (.arity p args.length want)

/-- Refuses a smaller number of arguments. -/
def atLeast (p : Procedure) (args : List Node) (want : Nat) : Except Fault Unit :=
  if want ≤ args.length then .ok () else .error (.arityAtLeast p args.length want)

/-- An argument that must be an integer. -/
def integerArgument (p : Procedure) : Node → Except Fault Int64
  | .integer n => .ok n
  | v => .error (.argumentType p "INTEGER" v.typeName)

/-- An argument that must be a Boolean. -/
def booleanArgument (p : Procedure) : Node → Except Fault Bool
  | .boolean b => .ok b
  | v => .error (.argumentType p "BOOLEAN" v.typeName)

/-- An argument that must be a string. -/
def stringArgument (p : Procedure) : Node → Except Fault Text
  | .string s => .ok s
  | v => .error (.argumentType p "STRING" v.typeName)

/-- An argument that must be a list. -/
def listArgument (p : Procedure) : Node → Except Fault (List Node)
  | .list _ elements => .ok elements
  | v => .error (.argumentType p "LIST" v.typeName)

/-- An argument that must be a function. -/
def functionArgument (p : Procedure) : Node → Except Fault Node
  | .procedure i name wired => .ok (.procedure i name wired)
  | .lambda i xs body => .ok (.lambda i xs body)
  | v => .error (.argumentType p "PROCEDURE or LAMBDA" v.typeName)

/-- A string as the only argument. -/
def oneString (p : Procedure) (args : List Node) : Except Fault Text := do
  let arg ← exactly p args 1
  stringArgument p (arg 0)

/-- A function and the elements of a list as the two arguments. -/
def functionAndList (p : Procedure) (args : List Node) : Except Fault (Node × List Node) := do
  let arg ← exactly p args 2
  return (← functionArgument p (arg 0), ← listArgument p (arg 1))

/-- Two integer arguments. -/
def twoIntegers (p : Procedure) (args : List Node) : Except Fault (Int64 × Int64) := do
  let arg ← exactly p args 2
  return (← integerArgument p (arg 0), ← integerArgument p (arg 1))

/-- The answer of an arithmetic procedure that may overflow. -/
def checked (p : Procedure) (op : Int64 → Int64 → Option Int64) (args : List Node) :
    Except Fault Answer := do
  let (a, b) ← twoIntegers p args
  match op a b with
  | some n => return .value (.integer n)
  | none => throw (.overflow p a b)

/-- The answer of an arithmetic procedure that divides. -/
def divided (p : Procedure) (op : Int64 → Int64 → Option Int64) (args : List Node) :
    Except Fault Answer := do
  let (a, b) ← twoIntegers p args
  if b = 0 then throw (.divisionByZero p)
  match op a b with
  | some n => return .value (.integer n)
  | none => throw (.overflow p a b)

/-- The answer of a comparison. -/
def compared (p : Procedure) (op : Int64 → Int64 → Bool) (args : List Node) :
    Except Fault Answer := do
  let (a, b) ← twoIntegers p args
  return .value (.boolean (op a b))

/-- The character of a string that has exactly one. -/
def oneCharacter (p : Procedure) (args : List Node) : Except Fault Char := do
  let s ← oneString p args
  match s.chars with
  | [c] => return c
  | _ => throw (.notOneCharacter s)

/-- The character of a string at an index. -/
def characterAt (s : Text) (index : Int64) : Except Fault Text :=
  let chars := s.chars
  if index < 0 ∨ (chars.length : Int) ≤ index.toInt then .error (.indexOutOfBounds index s)
  else .ok (Text.ofChars ((chars.drop index.toInt.toNat).take 1))

/-- The characters of a string from `first` up to, but not including, `last`. -/
def slice (s : Text) (first last : Int64) : Except Fault Text :=
  let chars := s.chars
  if first < 0 ∨ (chars.length : Int) < last.toInt ∨ last < first then
    .error (.invalidSubstring first last s)
  else
    .ok (Text.ofChars ((chars.take last.toInt.toNat).drop first.toInt.toNat))

/-- Strings without quotes and everything else in its inspection text, all in
one line. -/
def display (args : List Node) : Text :=
  args.flatMap fun
    | .string s => s
    | v => v.inspect

/-- The answer of a procedure that needs nothing but its arguments. The
procedures that read, write or call others have no such answer. -/
def compute? (p : Procedure) (args : List Node) : Option (Except Fault Answer) :=
  match p with
  | add => some (checked p Integer.add? args)
  | sub => some (checked p Integer.sub? args)
  | mul => some (checked p Integer.mul? args)
  | div => some (divided p Integer.div? args)
  | mod => some (divided p Integer.mod? args)
  | greaterThan => some (compared p (fun a b => b < a) args)
  | lessThan => some (compared p (fun a b => a < b) args)
  | equals => some do
    let arg ← exactly p args 2
    return .value (.boolean ((arg 0).same (arg 1)))
  | zero => some do
    let arg ← exactly p args 1
    return .value (.boolean ((← integerArgument p (arg 0)) == 0))
  | or => some do
    atLeast p args 2
    return .value (.boolean ((← args.mapM (booleanArgument p)).any id))
  | and => some do
    atLeast p args 2
    return .value (.boolean ((← args.mapM (booleanArgument p)).all id))
  | not => some do
    let arg ← exactly p args 1
    return .value (.boolean (!(← booleanArgument p (arg 0))))
  | fail => some do
    if args.isEmpty then throw (.failed "fail called") else throw (.failed (display args))
  | concat => some do
    atLeast p args 2
    return .value (.string (← args.mapM (stringArgument p)).flatten)
  | charAt => some do
    let arg ← exactly p args 2
    let s ← stringArgument p (arg 0)
    return .value (.string (← characterAt s (← integerArgument p (arg 1))))
  | substring => some do
    let arg ← exactly p args 3
    let s ← stringArgument p (arg 0)
    let first ← integerArgument p (arg 1)
    return .value (.string (← slice s first (← integerArgument p (arg 2))))
  | length => some do return .value (.integer (Int64.ofNat (← oneString p args).charCount))
  | isDigit => some do return .value (.boolean (Text.isDigit (← oneCharacter p args)))
  | isLetter => some do return .value (.boolean (Text.isLetter (← oneCharacter p args)))
  | parseInt => some do
    match Integer.read (← oneString p args) with
    | .ok n => return .value (.integer n)
    | .error _ => return .value (.boolean false)
  | cons => some do
    if args.isEmpty then return .newList []
    let arg ← exactly p args 2
    return .newList (arg 0 :: (← listArgument p (arg 1)))
  | head => some do
    let arg ← exactly p args 1
    match ← listArgument p (arg 0) with
    | [] => throw (.emptyList p)
    | v :: _ => return .value v
  | tail => some do
    let arg ← exactly p args 1
    match ← listArgument p (arg 0) with
    | [] => throw (.emptyList p)
    | _ :: rest => return .newList rest
  | isEmpty => some do
    let arg ← exactly p args 1
    return .value (.boolean (← listArgument p (arg 0)).isEmpty)
  | reverse => some do
    let arg ← exactly p args 1
    return .newList (← listArgument p (arg 0)).reverse
  | append => some do
    let arg ← exactly p args 2
    let front ← listArgument p (arg 0)
    return .newList (front ++ (← listArgument p (arg 1)))
  | type => some do
    let arg ← exactly p args 1
    return .value (.string (arg 0).typeName)
  | print | readInput | readLine | readFile | map => none

end Procedure

end BlockLang
