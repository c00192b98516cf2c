import BlockLang.Numeral
import BlockLang.Text.Quoted

/-!
# Options of the command

Options stand before the name of a file. An option begins with one or two
hyphens. A switch is turned on by its name alone; any other option takes a value,
which is joined to its name by an equals sign or is the next argument. Two
hyphens alone end the options.
-/

namespace BlockLang

/-- The options that were given. -/
structure Flags where
  help : Bool
  version : Bool
  trace : Option Bool
  dynamic : Option Bool
  noPrint : Option Bool
  maxDepth : Option Int
  config : Text
  history : Option Text
  noHistory : Option Bool
  debugTree : Bool
  treeFormat : Text
  repl : Bool
  logLevel : Option Text
  logFile : Option Text

/-- What is wrong with the options. -/
inductive FlagError where
  | badSyntax (argument : Text)
  | undefined (name : Text)
  | badSwitch (value name : Text)
  | missingValue (name : Text)
  | badValue (value name : Text) (flaw : Integer.Flaw)

/-- The words for a number that cannot be used. -/
def numberComplaint : Integer.Flaw → Text
  | .outOfRange => "value out of range"
  | .malformed => "parse error"

/-- The message about options that are wrong. -/
def FlagError.message : FlagError → Text
  | badSyntax argument => "bad flag syntax: " ++ argument
  | undefined name => "flag provided but not defined: -" ++ name
  | badSwitch value name =>
    "invalid boolean value " ++ value.quoted ++ " for -" ++ name ++ ": parse error"
  | missingValue name => "flag needs an argument: -" ++ name
  | badValue value name flaw =>
    "invalid value " ++ value.quoted ++ " for flag -" ++ name ++ ": " ++ numberComplaint flaw

namespace Flags

/-- The options when none is given. -/
def standard : Flags :=
  ⟨false, false, none, none, none, none, "", none, none, false, "json", false, none, none⟩

/-- What an option does. -/
inductive Effect where
  | switch (set : Bool → Flags → Flags)
  | number (set : Int → Flags → Flags)
  | text (set : Text → Flags → Flags)

/-- The options and what they do. -/
def effects : List (Text × Effect) :=
  [("help", .switch fun b f => { f with help := b }),
   ("h", .switch fun b f => { f with help := b }),
   ("version", .switch fun b f => { f with version := b }),
   ("v", .switch fun b f => { f with version := b }),
   ("t", .switch fun b f => { f with trace := some b }),
   ("d", .switch fun b f => { f with dynamic := some b }),
   ("np", .switch fun b f => { f with noPrint := some b }),
   ("max-depth", .number fun n f => { f with maxDepth := some n }),
   ("config", .text fun s f => { f with config := s }),
   ("history", .text fun s f => { f with history := some s }),
   ("no-history", .switch fun b f => { f with noHistory := some b }),
   ("debug-ast", .switch fun b f => { f with debugTree := b }),
   ("ast-format", .text fun s f => { f with treeFormat := s }),
   ("repl", .switch fun b f => { f with repl := b }),
   ("log-level", .text fun s f => { f with logLevel := some s }),
   ("log-file", .text fun s f => { f with logFile := some s })]

/-- The truth value that a word stands for. -/
def switchValue? (s : Text) : Option Bool :=
  if [("1" : Text), "t", "T", "TRUE", "true", "True"].contains s then some true
  else if [("0" : Text), "f", "F", "FALSE", "false", "False"].contains s then some false
  else none

/-- What an argument is. -/
inductive Argument where
  | operand
  | stop
  | bad
  | flag (name : Text) (value : Option Text)

/-- The name of an option and the value joined to it. -/
def nameAndValue (s : Text) : Argument :=
  match s with
  | [] => .bad
  | b :: rest =>
    if b == 0x2D || b == 0x3D then .bad
    else
      match rest.dropWhile (· != 0x3D) with
      | [] => .flag s none
      | _ :: value => .flag (b :: rest.takeWhile (· != 0x3D)) (some value)

/-- Tells what an argument is. -/
def Argument.read : Text → Argument
  | [] | [_] => operand
  | b :: c :: s =>
    if b == 0x2D then
      if c == 0x2D then if s.isEmpty then stop else nameAndValue s
      else nameAndValue (c :: s)
    else operand

/-- Gives an option that is no switch its value. -/
def setValue (f : Flags) (name value : Text) : Effect → Except FlagError Flags
  | .switch _ => .ok f
  | .text set => .ok (set value f)
  | .number set =>
    match Numeral.read value with
    | .ok n => .ok (set n.toInt f)
    | .error flaw => .error (.badValue value name flaw)

/-- Turns a switch on or off. -/
def setSwitch (f : Flags) (name : Text) (value : Option Text) (set : Bool → Flags → Flags) :
    Except FlagError Flags :=
  match value with
  | none => .ok (set true f)
  | some value =>
    match switchValue? value with
    | some b => .ok (set b f)
    | none => .error (.badSwitch value name)

/-- Reads options on top of others. The arguments after them are left. -/
def readFrom (f : Flags) : List Text → Except FlagError (Flags × List Text)
  | [] => .ok (f, [])
  | argument :: rest =>
    match Argument.read argument with
    | .operand => .ok (f, argument :: rest)
    | .stop => .ok (f, rest)
    | .bad => .error (.badSyntax argument)
    | .flag name value =>
      match effects.lookup name, value with
      | none, _ => .error (.undefined name)
      | some (.switch set), value =>
        match setSwitch f name value set with
        | .ok f => readFrom f rest
        | .error e => .error e
      | some effect, some value =>
        match setValue f name value effect with
        | .ok f => readFrom f rest
        | .error e => .error e
      | some effect, none =>
        match rest with
        | [] => .error (.missingValue name)
        | value :: rest =>
          match setValue f name value effect with
          | .ok f => readFrom f rest
          | .error e => .error e

/-- Reads the options at the front of the arguments. -/
def read (arguments : List Text) : Except FlagError (Flags × List Text) :=
  readFrom standard arguments

end Flags

end BlockLang
