import BootTrust.Path
/-
The arguments of the command line. The options stand before or after the name of the command, which
divides the line into two levels. At each level an option may be given once; one that is given at
both counts as given at the inner level, one that is given at neither may come from the environment.

`Invocation.parse` says what a line asks for, or that it is no line this program understands.
-/

set_option autoImplicit false

namespace BootTrust.Command

/-! ## Pieces -/

/-- One argument by its form. -/
inductive Token where
  /-- `--`: everything behind it is taken as it is. -/
  | divider
  /-- `--name`, or `--name=value`. -/
  | long (name : String) (value : Option String)
  /-- `-` and some letters. -/
  | short (letters : List Char)
  /-- Anything else, also a single `-`. -/
  | plain (text : String)

/-- The form of an argument. -/
def Token.ofText (text : String) : Token :=
  match text.toList with
  | ['-', '-'] => .divider
  | '-' :: '-' :: cs =>
    let name := cs.takeWhile (· ≠ '=')
    match cs.drop name.length with
    | [] => .long (String.ofList name) none
    | _ :: value => .long (String.ofList name) (some (String.ofList value))
  | '-' :: c :: cs => .short (c :: cs)
  | _ => .plain text

/-- The options with a value. -/
inductive Setting where
  | config
  | state
  | signEndpoint
  | seedPath
  | label
  deriving DecidableEq

namespace Setting

def ofName? (name : String) : Option Setting :=
  if name = "config" then some .config
  else if name = "state" then some .state
  else if name = "sign-endpoint" then some .signEndpoint
  else if name = "seed-path" then some .seedPath
  else if name = "label" then some .label
  else none

/-- Whether the value of an option is a path; a path must not be empty. -/
def isPath : Setting → Bool
  | .config | .state | .seedPath => true
  | .signEndpoint | .label => false

/-- Whether an option may have a value. -/
def accepts (setting : Setting) (value : String) : Bool :=
  !(setting.isPath && value.isEmpty)

/-- The variable of the environment that stands in for an option. -/
def inEnvironment? : Setting → Option String
  | .config => some "TRUSTCTL_CONFIG"
  | .state => some "TRUSTCTL_STATE"
  | .signEndpoint => some "TRUSTCTL_SIGN_ENDPOINT"
  | .seedPath | .label => none

end Setting

/-- The options without a value that may be given once. -/
inductive Switch where
  | json
  | useSignedUrl
  deriving DecidableEq

def Switch.ofName? (name : String) : Option Switch :=
  if name = "json" then some .json
  else if name = "use-signed-url" then some .useSignedUrl
  else none

/-! ## Levels -/

/-- What is given at one level. -/
structure Level where
  settings : List (Setting × String)
  switches : List Switch
  /-- The arguments that are no options. -/
  operands : List String

namespace Level

def empty : Level := ⟨[], [], []⟩

def value? (level : Level) (setting : Setting) : Option String :=
  level.settings.lookup setting

/-- Adds an option with its value, which must be acceptable and the first one. -/
def addSetting (level : Level) (setting : Setting) (value : String) : Option Level :=
  if setting.accepts value && (level.value? setting).isNone then
    some { level with settings := (setting, value) :: level.settings }
  else none

/-- Adds a switch that has not been given. -/
def addSwitch (level : Level) (switch : Switch) : Option Level :=
  if level.switches.contains switch then none
  else some { level with switches := switch :: level.switches }

/-- Whether an argument can be the value of the option in front of it. -/
def isValue (text : String) : Bool :=
  match Token.ofText text with
  | .plain _ => true
  | _ => false

/-- Reads the arguments of a level. The outer level ends at its first operand, the name of the
command, and the arguments from there on are given back; the inner one goes to the end. -/
def read (inner : Bool) (known : Setting → Bool) :
    Level → List String → Option (Level × List String)
  | level, [] => some (level, [])
  | level, text :: more =>
    match Token.ofText text with
    | .divider =>
      if inner then some ({ level with operands := level.operands ++ more }, []) else none
    | .plain operand =>
      if inner then read inner known { level with operands := level.operands ++ [operand] } more
      else some (level, text :: more)
    | .short letters =>
      if letters.all (· = 'v') then read inner known level more else none
    | .long name (some value) => do
      let setting ← Setting.ofName? name
      if known setting then read inner known (← level.addSetting setting value) more else none
    | .long name none =>
      if name = "verbose" then read inner known level more
      else
        match Switch.ofName? name with
        | some switch => do read inner known (← level.addSwitch switch) more
        | none =>
          match more with
          | [] => none
          | value :: more => do
            let setting ← Setting.ofName? name
            if known setting && isValue value then
              read inner known (← level.addSetting setting value) more
            else none

end Level

/-! ## Invocations -/

/-- What is to be done. -/
inductive Action where
  /-- Say whether signed URLs are required. -/
  | check
  /-- Get a signed URL for a resource. -/
  | sign (resource : String)
  | hash (file : Path)
  | volume (label : Option String)

/-- What a command line asks for. -/
structure Invocation where
  config : Option Path
  state : Path
  json : Bool
  useSignedUrl : Bool
  signEndpoint : Option String
  seedPath : Option Path
  action : Action

/-- Where the state is kept unless another place is given. -/
def defaultState : String := "trustctl-state.json"

namespace Invocation

/-- The value of an option: from the inner level, the outer one, or the environment. -/
def value? (environment : List (String × String)) (outer inner : Level) (setting : Setting) :
    Option String :=
  (inner.value? setting) <|> (outer.value? setting)
    <|> (setting.inEnvironment?.bind fun name => environment.lookup name)

/-- Whether the environment has an acceptable value for an option. A value is looked at as soon as
one of the levels does not have the option itself. -/
def environmentAccepted (environment : List (String × String)) (outer inner : Level)
    (setting : Setting) : Bool :=
  match setting.inEnvironment?.bind fun name => environment.lookup name with
  | none => true
  | some value =>
    setting.accepts value
      || ((outer.value? setting).isSome && (inner.value? setting).isSome)

/-- The action with a name, from what the inner level has. -/
def action? (name : String) (inner : Level) : Option Action :=
  match inner.operands with
  | [] =>
    if name = "check" then some .check
    else if name = "volume" then some (.volume (inner.value? .label))
    else none
  | [operand] =>
    if name = "sign" then some (.sign operand)
    else if name = "hash" && !operand.isEmpty then some (.hash ⟨operand⟩)
    else none
  | _ => none

/-- What a command line asks for in an environment. -/
def parse (environment : List (String × String)) (arguments : List String) : Option Invocation := do
  let (outer, more) ← Level.read false (· ≠ .label) .empty arguments
  match more with
  | [] => none
  | name :: more =>
    let (inner, _) ← Level.read true (fun s => s ≠ .label || name = "volume") .empty more
    let action ← action? name inner
    let value := value? environment outer inner
    if [.config, .state, .signEndpoint].all (environmentAccepted environment outer inner) then
      return {
        config := (value .config).map Path.mk
        state := ⟨(value .state).getD defaultState⟩
        json := (outer.switches ++ inner.switches).contains .json
        useSignedUrl := (outer.switches ++ inner.switches).contains .useSignedUrl
        signEndpoint := value .signEndpoint
        seedPath := (value .seedPath).map Path.mk
        action := action }
    else none

end Invocation

end BootTrust.Command
