/-!
The command line: options, commands and what they are given. Options may stand anywhere after the
command they belong to, in a long form or a short one; short ones may be written together. An option
other than `exclude` may be given once on each level.
-/

namespace ResourceLint.Command

inductive OutputFormat where
  | text
  | json
  | compact
  deriving DecidableEq, Repr

def OutputFormat.ofName? : String → Option OutputFormat
  | "text" => some .text
  | "json" => some .json
  | "compact" => some .compact
  | _ => none

structure CheckRequest where
  /-- An assembly file, or a directory of them. -/
  path : String
  schema : String
  format : OutputFormat
  /-- The codes of the rules to run, with commas between them. -/
  rules : Option String
  exclude : List String
  deriving DecidableEq, Repr

inductive Action where
  | check (request : CheckRequest)
  | listRules
  | init (force : Bool)
  deriving DecidableEq, Repr

structure Invocation where
  verbose : Bool
  config : Option String
  action : Action
  deriving DecidableEq, Repr

inductive Refusal where
  | misuse
  | helpAsked
  | versionAsked
  deriving DecidableEq, Repr

inductive Level where
  | top
  | check
  | listRules
  | init
  deriving DecidableEq, Repr

inductive Switch where
  | verbose
  | config
  | schema
  | format
  | rules
  | exclude
  | force
  | help
  | version
  deriving DecidableEq, Repr

namespace Switch

def takesValue : Switch → Bool
  | .config => true
  | .schema => true
  | .format => true
  | .rules => true
  | .exclude => true
  | _ => false

def longName : Switch → String
  | .verbose => "verbose"
  | .config => "config"
  | .schema => "schema"
  | .format => "format"
  | .rules => "rules"
  | .exclude => "exclude"
  | .force => "force"
  | .help => "help"
  | .version => "version"

def shortName? : Switch → Option Char
  | .verbose => some 'v'
  | .config => some 'c'
  | .schema => some 's'
  | .format => some 'f'
  | .exclude => some 'e'
  | .help => some 'h'
  | .version => some 'V'
  | .rules => none
  | .force => none

end Switch

namespace Level

def switches : Level → List Switch
  | .top => [.verbose, .config, .help, .version]
  | .check => [.verbose, .config, .help, .schema, .format, .rules, .exclude]
  | .listRules => [.verbose, .config, .help]
  | .init => [.verbose, .config, .help, .force]

def long? (l : Level) (name : String) : Option Switch :=
  l.switches.find? (·.longName = name)

def short? (l : Level) (c : Char) : Option Switch :=
  l.switches.find? (·.shortName? = some c)

def ofCommand? : String → Option Level
  | "check" => some .check
  | "list-rules" => some .listRules
  | "init" => some .init
  | _ => none

end Level

structure Given where
  verbose : Bool := false
  config : Option String := none
  schema : Option String := none
  format : Option OutputFormat := none
  rules : Option String := none
  exclude : List String := []
  force : Bool := false
  path : Option String := none

namespace Given

def once {α : Type} (old : Option α) (new : α) : Except Refusal (Option α) :=
  match old with
  | none => .ok (some new)
  | some _ => .error .misuse

/-- A path that is given for the first time. An empty one is no path. -/
def oncePath (old : Option String) (new : String) : Except Refusal (Option String) :=
  if new = "" then .error .misuse else once old new

def turnOn (g : Given) : Switch → Except Refusal Given
  | .verbose => if g.verbose then .error .misuse else .ok { g with verbose := true }
  | .force => if g.force then .error .misuse else .ok { g with force := true }
  | .help => .error .helpAsked
  | .version => .error .versionAsked
  | _ => .error .misuse

def assign (g : Given) (o : Switch) (value : String) : Except Refusal Given :=
  match o with
  | .config => (oncePath g.config value).map ({ g with config := · })
  | .schema => (oncePath g.schema value).map ({ g with schema := · })
  | .rules => (once g.rules value).map ({ g with rules := · })
  | .exclude => .ok { g with exclude := g.exclude ++ [value] }
  | .format =>
    match OutputFormat.ofName? value with
    | none => .error .misuse
    | some format => (once g.format format).map ({ g with format := · })
  | _ => .error .misuse

def takePath (g : Given) (l : Level) (value : String) : Except Refusal Given :=
  match l with
  | .check => (oncePath g.path value).map ({ g with path := · })
  | _ => .error .misuse

end Given

inductive Argument where
  /-- Two dashes alone: no option follows. -/
  | separator
  | long (name : String) (value : Option String)
  | short (letters : List Char)
  | plain (value : String)

def Argument.ofString (s : String) : Argument :=
  match s.toList with
  | ['-', '-'] => .separator
  | '-' :: '-' :: cs =>
    .long (String.ofList (cs.takeWhile (· != '=')))
      (match cs.dropWhile (· != '=') with
        | [] => none
        | _ :: value => some (String.ofList value))
  | '-' :: c :: cs => .short (c :: cs)
  | _ => .plain s

/-- Takes short options that are written together. One that takes a value takes the rest of the
letters, after an equals sign if there is one; if there are no more it is returned. -/
def takeLetters (l : Level) (g : Given) : List Char → Except Refusal (Given × Option Switch)
  | [] => .ok (g, none)
  | c :: cs =>
    match l.short? c with
    | none => .error .misuse
    | some o =>
      if o.takesValue then
        match cs with
        | [] => .ok (g, some o)
        | '=' :: value => (g.assign o (String.ofList value)).map (·, none)
        | value => (g.assign o (String.ofList value)).map (·, none)
      else do takeLetters l (← g.turnOn o) cs

/-- Takes one option, by its long name or its letters. An option that still needs a value is
returned. -/
def takeOption (l : Level) (g : Given) : Argument → Except Refusal (Given × Option Switch)
  | .long name value =>
    match l.long? name with
    | none => .error .misuse
    | some o =>
      match value with
      | some v => (g.assign o v).map (·, none)
      | none => if o.takesValue then .ok (g, some o) else (g.turnOn o).map (·, none)
  | .short letters => takeLetters l g letters
  | _ => .error .misuse

def takePaths (l : Level) (g : Given) (args : List String) : Except Refusal Given :=
  args.foldlM (·.takePath l ·) g

/-- Takes arguments up to the command, which is left with those after it. On the level of a command
there is none, and all of them are taken. `waiting` is an option that still needs a value; no value
has the form of an option. -/
def takeArguments (l : Level) (g : Given) (waiting : Option Switch) :
    List String → Except Refusal (Given × List String)
  | [] => if waiting.isSome then .error .misuse else .ok (g, [])
  | arg :: args =>
    match Argument.ofString arg, waiting with
    | .plain value, some o => do takeArguments l (← g.assign o value) none args
    | _, some _ => .error .misuse
    | .separator, none => (takePaths l g args).map (·, [])
    | .plain value, none =>
      if l = .top then .ok (g, arg :: args)
      else do takeArguments l (← g.takePath l value) none args
    | option, none => do
      let (g, waiting) ← takeOption l g option
      takeArguments l g waiting args

def schemaVariable : String := "CONSTRUCT_LINT_SCHEMA"

abbrev Environment := List (String × String)

def schemaOf (env : Environment) (g : Given) : Except Refusal String :=
  match g.schema with
  | some path => .ok path
  | none =>
    match env.lookup schemaVariable with
    | none => .error .misuse
    | some path => if path = "" then .error .misuse else .ok path

def actionOf (env : Environment) (l : Level) (g : Given) : Except Refusal Action :=
  match l with
  | .top => .error .misuse
  | .listRules => .ok .listRules
  | .init => .ok (.init g.force)
  | .check => do
    let schema ← schemaOf env g
    return .check {
      path := g.path.getD "."
      schema := schema
      format := g.format.getD .text
      rules := g.rules
      exclude := g.exclude }

/-- Whether help can be given on what follows the word `help`: on one command, or on all. -/
def isHelpTopic : List String → Bool
  | [] => true
  | [name] => name = "help" || (Level.ofCommand? name).isSome
  | _ => false

/-- Reads a command line. What is given after the command goes before what is given ahead of it. -/
def Invocation.ofArguments (env : Environment) (args : List String) :
    Except Refusal Invocation := do
  let (outer, rest) ← takeArguments .top {} none args
  match rest with
  | [] => .error .misuse
  | command :: rest =>
    if command = "help" then .error (if isHelpTopic rest then .helpAsked else .misuse)
    else
      match Level.ofCommand? command with
      | none => .error .misuse
      | some l => do
        let (inner, _) ← takeArguments l {} none rest
        return {
          verbose := outer.verbose || inner.verbose
          config := inner.config <|> outer.config
          action := ← actionOf env l inner }

end ResourceLint.Command
