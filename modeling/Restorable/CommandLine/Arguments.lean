-- SUMMARY: The arguments of the command line: options before a command, its operands and options.

/-!
# Arguments

Options of the whole run come first, then the name of a command with its own options
and operands in any order. An option is given at most once. A value stands behind an
equals sign, right behind a short option, or in the next argument; an argument that
looks like an option is no value. Everything behind two dashes is an operand.
-/
namespace Restorable

/-- What to do, with paths as they are given. -/
inductive Command
  | logical (schema : String) (json : Bool)
  | publish (logical : String) (name : Option String)
  | snapshot (schema output : String)
  | check (snapshot schema : String) (strict : Bool)
  deriving DecidableEq, Repr

/-- A command with the options of the whole run. -/
structure Invocation where
  settings : Option String
  modern : Bool
  command : Command
  deriving DecidableEq, Repr

/-- Why arguments are no invocation: they ask for help, or they are refused. -/
inductive NoInvocation
  | help
  | refused
  deriving DecidableEq, Repr

namespace Arguments

/-! ## Options -/

/-- The options at one level: switches by name, and options with a value by name and
letter. -/
structure Level where
  switches : List String
  valued : List (String × Char)

/-- What stands at one level: switches, values by option, and operands. -/
structure Given where
  switches : List String
  values : List (String × String)
  operands : List String

/-- What one argument is. -/
inductive Kind
  | operand
  | endOfOptions
  | switch (name : String)
  | value (name text : String)
  | needsValue (name : String)
  | help
  | unknown

/-- A text up to an equals sign, and what follows it. -/
def splitEquals (cs : List Char) : String × Option String :=
  let name := String.ofList (cs.takeWhile (· ≠ '='))
  match cs.dropWhile (· ≠ '=') with
  | _ :: text => (name, some (String.ofList text))
  | [] => (name, none)

def longOption (level : Level) (cs : List Char) : Kind :=
  match splitEquals cs with
  | ("help", none) => .help
  | (name, value) =>
    if name ∈ level.switches then if value.isNone then .switch name else .unknown
    else if (level.valued.lookup name).isSome then
      match value with
      | some text => .value name text
      | none => .needsValue name
    else .unknown

def shortOption (level : Level) (letter : Char) (cs : List Char) : Kind :=
  match level.valued.find? fun (_, l) => l = letter, cs with
  | some (name, _), [] => .needsValue name
  | some (name, _), '=' :: text => .value name (String.ofList text)
  | some (name, _), text => .value name (String.ofList text)
  | none, _ => if letter = 'h' then .help else .unknown

def kind (level : Level) (argument : String) : Kind :=
  match argument.toList with
  | ['-', '-'] => .endOfOptions
  | '-' :: '-' :: cs => longOption level cs
  | '-' :: letter :: cs => shortOption level letter cs
  | _ => .operand

/-! ## Levels -/

/-- A value of an option that has none yet. Only names may be empty, paths may not. -/
def Given.setValue (g : Given) (name text : String) : Except NoInvocation Given :=
  if (g.values.lookup name).isSome ∨ (text.isEmpty ∧ name ≠ "name") then .error .refused
  else .ok { g with values := (name, text) :: g.values }

def Given.setSwitch (g : Given) (name : String) : Except NoInvocation Given :=
  if name ∈ g.switches then .error .refused else .ok { g with switches := name :: g.switches }

/-- One more operand, of at most `most`. -/
def Given.addOperand (g : Given) (most : Nat) (operand : String) : Except NoInvocation Given :=
  if g.operands.length < most then .ok { g with operands := g.operands ++ [operand] }
  else .error .refused

/-- Read the arguments of a level up to the first operand where none is taken, or all of
them, with at most `most` operands. The first fault decides. -/
def scan (level : Level) (most : Nat) :
    List String → Given → Except NoInvocation (Given × List String)
  | [], g => .ok (g, [])
  | argument :: rest, g =>
    match kind level argument with
    | .operand =>
      if most = 0 then .ok (g, argument :: rest)
      else do scan level most rest (← g.addOperand most argument)
    | .endOfOptions => do
      return (← rest.foldlM (fun g operand => g.addOperand most operand) g, [])
    | .switch name => do scan level most rest (← g.setSwitch name)
    | .value name text => do scan level most rest (← g.setValue name text)
    | .needsValue name =>
      match rest with
      | text :: rest =>
        match kind level text with
        | .operand => do scan level most rest (← g.setValue name text)
        | _ => .error .refused
      | [] => .error .refused
    | .help => .error .help
    | .unknown => .error .refused

/-- Read all arguments of a command with so many operands, none of them empty. -/
def scanAll (level : Level) (operands : Nat) (arguments : List String) :
    Except NoInvocation Given := do
  let (given, _) ← scan level operands arguments ⟨[], [], []⟩
  if given.operands.any String.isEmpty then .error .refused else return given

/-! ## Commands -/

def commandNames : List String := ["logical", "export", "snapshot", "check", "help"]

/-- Help is asked for on the whole program or on one command. -/
def helpOn (arguments : List String) : NoInvocation :=
  match arguments with
  | [] => .help
  | [name] => if name ∈ commandNames then .help else .refused
  | _ => .refused

/-- The command with a name. -/
def command (name : String) (arguments : List String) : Except NoInvocation Command := do
  match name with
  | "logical" =>
    let given ← scanAll ⟨["json"], []⟩ 1 arguments
    match given.operands with
    | [schema] => return .logical schema ("json" ∈ given.switches)
    | _ => .error .refused
  | "export" =>
    let given ← scanAll ⟨[], [("name", 'n')]⟩ 1 arguments
    match given.operands with
    | [logical] => return .publish logical (given.values.lookup "name")
    | _ => .error .refused
  | "snapshot" =>
    let given ← scanAll ⟨[], [("output", 'o')]⟩ 1 arguments
    match given.operands, given.values.lookup "output" with
    | [schema], some output => return .snapshot schema output
    | _, _ => .error .refused
  | "check" =>
    let given ← scanAll ⟨["strict"], []⟩ 2 arguments
    match given.operands with
    | [snapshot, schema] => return .check snapshot schema ("strict" ∈ given.switches)
    | _ => .error .refused
  | "help" => .error (helpOn arguments)
  | _ => .error .refused

/-- The invocation that arguments write. -/
def invocation (arguments : List String) : Except NoInvocation Invocation := do
  let (given, rest) ← scan ⟨["modern-timestamps"], [("config", 'c')]⟩ 0 arguments ⟨[], [], []⟩
  match rest with
  | name :: arguments =>
    let command ← command name arguments
    return ⟨given.values.lookup "config", "modern-timestamps" ∈ given.switches, command⟩
  | [] => .error .refused

end Arguments
end Restorable
