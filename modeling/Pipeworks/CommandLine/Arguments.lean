import Pipeworks.Config
import Pipeworks.Text.Signed
/-!
The arguments of the command line: a command with its options, of which some may also come before the command
and some may be given by variables of the environment.
-/
namespace Pipeworks.CommandLine

inductive OptionName where
  | verbose
  | config
  | bind
  | store
  | endpoint
  | gracePeriod
  | pollMax
  | json
  | help
  | version
deriving DecidableEq, Repr

namespace OptionName

def long : OptionName → String
  | verbose => "verbose"
  | config => "config"
  | bind => "bind"
  | store => "store"
  | endpoint => "event-endpoint"
  | gracePeriod => "grace-period"
  | pollMax => "poll-max"
  | json => "json"
  | help => "help"
  | version => "version"

def short? : OptionName → Option Char
  | verbose => some 'v'
  | config => some 'c'
  | bind => some 'b'
  | store => some 's'
  | help => some 'h'
  | version => some 'V'
  | _ => none

def takesValue : OptionName → Bool
  | verbose => false
  | json => false
  | help => false
  | version => false
  | _ => true

/-- The variable that gives the value of an option that is not given. -/
def inherited? : OptionName → Option String
  | config => some "FLOWGATE_CONFIG"
  | bind => some "FLOWGATE_BIND"
  | store => some "FLOWGATE_STORE"
  | endpoint => some "FLOWGATE_EVENT_ENDPOINT"
  | _ => none

/-- Whether an option takes a value: a path is not empty, and a length of time must be one. -/
def accepts (o : OptionName) (value : String) : Bool :=
  match o with
  | config => !value.isEmpty
  | store => !value.isEmpty
  | gracePeriod => (Duration.parse value).isOk
  | pollMax => (Duration.parse value).isOk
  | _ => true

end OptionName

/-- Why arguments are no command that could be carried out. -/
inductive Halt where
  | usage
  | help
  | version
deriving DecidableEq, Repr

/-- Arguments that were read: the options, and the words between them. -/
structure Given where
  options : List (OptionName × String) := []
  words : List String := []
deriving DecidableEq, Repr

namespace Given

def value? (g : Given) (o : OptionName) : Option String := (g.options.find? (·.1 = o)).map (·.2)

def has (g : Given) (o : OptionName) : Bool := g.options.any (·.1 = o)

/-- Takes in an option; none is given twice. -/
def add (g : Given) (o : OptionName) (value : String) : Except Halt Given :=
  if o = .help then .error .help
  else if o = .version then .error .version
  else if g.has o ∨ ¬o.accepts value then .error .usage
  else .ok { g with options := g.options ++ [(o, value)] }

end Given

/-! ### Reading -/

/-- Whether an argument is no word: it begins with a dash and goes on. -/
def isDashed (arg : String) : Bool :=
  match arg.toList with
  | '-' :: _ :: _ => true
  | _ => false

/-- Takes the value of an option from the next argument. -/
def takeNext (o : OptionName) (rest : List String) (g : Given) : Except Halt (Given × List String) :=
  match rest with
  | [] => .error .usage
  | v :: rest => if isDashed v then .error .usage else do return (← g.add o v, rest)

/-- Reads an option by its long name; a value may stand after an equals sign. -/
def readLong (known : List OptionName) (cs : List Char) (rest : List String) (g : Given) :
    Except Halt (Given × List String) :=
  let name := String.ofList (cs.takeWhile (· ≠ '='))
  match known.find? (·.long = name), cs.dropWhile (· ≠ '=') with
  | none, _ => .error .usage
  | some o, [] => if o.takesValue then takeNext o rest g else do return (← g.add o "", rest)
  | some o, _ :: value =>
    if o.takesValue then do return (← g.add o (String.ofList value), rest) else .error .usage

/-- Reads options by their letters; what follows the letter of an option with a value is the value. -/
def readLetters (known : List OptionName) : List Char → List String → Given → Except Halt (Given × List String)
  | [], rest, g => .ok (g, rest)
  | c :: cs, rest, g =>
    match known.find? (·.short? = some c) with
    | none => .error .usage
    | some o =>
      if o.takesValue then
        match cs with
        | [] => takeNext o rest g
        | '=' :: value => do return (← g.add o (String.ofList value), rest)
        | value => do return (← g.add o (String.ofList value), rest)
      else do readLetters known cs rest (← g.add o "")

/-- Reads arguments. After two dashes all are words. With `untilWord`, reading ends before the first word. The
first argument bounds the number of arguments. -/
def read (known : List OptionName) (untilWord : Bool) : Nat → List String → Given →
    Except Halt (Given × List String)
  | _, [], g => .ok (g, [])
  | 0, rest, g => .ok (g, rest)
  | n + 1, arg :: rest, g =>
    match arg.toList with
    | ['-', '-'] => if untilWord then .error .usage else .ok ({ g with words := g.words ++ rest }, [])
    | '-' :: '-' :: cs => do
      let (g, rest) ← readLong known cs rest g
      read known untilWord n rest g
    | '-' :: c :: cs => do
      let (g, rest) ← readLetters known (c :: cs) rest g
      read known untilWord n rest g
    | _ =>
      if untilWord then .ok (g, arg :: rest)
      else read known untilWord n rest { g with words := g.words ++ [arg] }

/-! ### Commands -/

inductive Command where
  | serve (bind store : String) (o : Config.Overrides)
  | worker
  | validate (id : PipelineId) (store : String)
  | plan (id : PipelineId) (store : String) (json : Bool)
deriving Inhabited

/-- A command and the options that all commands share. -/
structure Invocation where
  command : Command
  verbose : Bool
  config : Option String
deriving Inhabited

/-- The options that may stand before or after a command. -/
def shared : List OptionName := [.verbose, .config, .help]

/-- The options of a command; there are none for what is no command. -/
def optionsOf? : String → Option (List OptionName)
  | "serve" => some [.bind, .store, .endpoint, .gracePeriod, .pollMax]
  | "worker" => some []
  | "validate" => some [.store]
  | "plan" => some [.store, .json]
  | _ => none

/-- The value of an option, or else that of its variable. -/
def valueOf (getVar : String → Option String) (g : Given) (o : OptionName) : Except Halt (Option String) :=
  match g.value? o, o.inherited?.bind getVar with
  | some v, _ => .ok (some v)
  | none, none => .ok none
  | none, some v => if o.accepts v then .ok (some v) else .error .usage

def durationOf (g : Given) (o : OptionName) : Option Duration :=
  (g.value? o).bind fun v => (Duration.parse v).toOption

/-- The number of a pipeline, which is the only word. -/
def idOf (g : Given) : Except Halt PipelineId :=
  match g.words with
  | [w] =>
    match Text.readSigned? w.toList with
    | some id => .ok id
    | none => .error .usage
  | _ => .error .usage

/-- The command of a name with its arguments. -/
def commandOf (getVar : String → Option String) (name : String) (g : Given) : Except Halt Command := do
  let store : Except Halt String := do return (← valueOf getVar g .store).getD "pipelines"
  match name with
  | "serve" =>
    if g.words.isEmpty then
      let bind := (← valueOf getVar g .bind).getD "127.0.0.1:8000"
      let overrides : Config.Overrides :=
        { endpoint := ← valueOf getVar g .endpoint
          gracePeriod := durationOf g .gracePeriod
          pollMax := durationOf g .pollMax }
      return .serve bind (← store) overrides
    else throw .usage
  | "worker" => if g.words.isEmpty then return .worker else throw .usage
  | "validate" => return .validate (← idOf g) (← store)
  | "plan" => return .plan (← idOf g) (← store) (g.has .json)
  | _ => throw .usage

/-- Reads the arguments of the program. An option that all commands share is taken from behind the command
rather than from before it, and from the environment last. -/
def parse (getVar : String → Option String) (args : List String) : Except Halt Invocation := do
  let (before, rest) ← read (.version :: shared) true args.length args {}
  match rest with
  | [] => throw .usage
  | name :: rest =>
    if name = "help" then throw .help
    match optionsOf? name with
    | none => throw .usage
    | some own =>
      let (after, _) ← read (shared ++ own) false rest.length rest {}
      let command ← commandOf getVar name after
      let config ← valueOf getVar after .config
      let outer ← valueOf getVar before .config
      return {
        command
        verbose := before.has .verbose || after.has .verbose
        config := (after.value? .config).or ((before.value? .config).or (config.or outer)) }

end Pipeworks.CommandLine
