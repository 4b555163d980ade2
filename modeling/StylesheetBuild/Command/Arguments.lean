/-
The arguments of the command line.

Options are written long (`--out-dir PATH`, `--out-dir=PATH`) or short (`-o PATH`, `-oPATH`,
`-o=PATH`), short flags may be put together, and behind `--` there are only files.  An option may
be given once, and its value may neither be missing nor empty.
-/
import StylesheetBuild.Path.Basic

namespace StylesheetBuild.Command

/-- One argument, as bytes. -/
abbrev Argument := List UInt8

inductive UsageError where
  | missingCommand
  | unknownCommand (name : Argument)
  | unknownOption (name : Argument)
  -- an option is given more than once
  | repeatedOption
  | missingValue
  | emptyValue
  | unexpectedValue
  | missingFiles
deriving Repr, DecidableEq

def UsageError.message : UsageError → Text
  | missingCommand => "error: a command is required".toList
  | unknownCommand name => "error: unknown command: ".toList ++ Utf8.decodeLossy name
  | unknownOption name => "error: unknown option: ".toList ++ Utf8.decodeLossy name
  | repeatedOption => "error: an option is given more than once".toList
  | missingValue => "error: an option needs a value".toList
  | emptyValue => "error: a value is empty".toList
  | unexpectedValue => "error: a flag takes no value".toList
  | missingFiles => "error: no files are named".toList

inductive Valued where
  | config
  | applicationRoot
  | outDir
deriving Repr, DecidableEq

inductive Flag where
  | development
  | verbose
  | help
deriving Repr, DecidableEq

inductive Kind where
  | valued (option : Valued)
  | flag (flag : Flag)
deriving Repr, DecidableEq

/-- What is to be built, and how. -/
structure BuildRequest where
  files : List Path
  -- the configuration file, if one is named
  config : Option Path
  -- whether the build is for local work whatever the configuration says
  development : Bool
  -- the root directory of the application, if it is named
  applicationRoot : Option Path
  -- the directory for the output, if it is named
  outDir : Option Path
  verbose : Bool
deriving Repr, DecidableEq

inductive Request where
  | build (request : BuildRequest)
  | version
  -- to show how the command line is used
  | help
deriving Repr, DecidableEq

/-- The request before any argument is looked at. -/
def BuildRequest.initial : BuildRequest :=
  ⟨[], none, false, none, none, false⟩

def ascii (s : String) : Argument :=
  Utf8.encode s.toList

def hyphen : UInt8 := 0x2D

def equals : UInt8 := 0x3D

def longOption? (name : Argument) : Option Kind :=
  if name = ascii "config" then some (.valued .config)
  else if name = ascii "application-root" then some (.valued .applicationRoot)
  else if name = ascii "out-dir" then some (.valued .outDir)
  else if name = ascii "development" then some (.flag .development)
  else if name = ascii "verbose" then some (.flag .verbose)
  else if name = ascii "help" then some (.flag .help)
  else none

def shortOption? (name : UInt8) : Option Kind :=
  if [name] = ascii "c" then some (.valued .config)
  else if [name] = ascii "o" then some (.valued .outDir)
  else if [name] = ascii "v" then some (.flag .verbose)
  else if [name] = ascii "h" then some (.flag .help)
  else none

inductive Shape where
  | terminator
  -- a long name, and the value behind an equals sign
  | long (name : Argument) (value : Option Argument)
  -- short names, perhaps with a value behind them
  | short (names : Argument)
  | plain (text : Argument)
deriving Repr, DecidableEq

def shape (argument : Argument) : Shape :=
  match argument with
  | a :: b :: rest =>
    if a = hyphen && b = hyphen then
      if rest = [] then .terminator
      else match rest.dropWhile (· != equals) with
      | [] => .long rest none
      | _ :: value => .long (rest.takeWhile (· != equals)) (some value)
    else if a = hyphen then .short (b :: rest)
    else .plain argument
  | _ => .plain argument

def BuildRequest.setValue (request : BuildRequest) (option : Valued) (value : Argument) :
    Except UsageError BuildRequest :=
  if value = [] then .error .emptyValue
  else match option with
  | .config =>
    if request.config.isSome then .error .repeatedOption
    else .ok { request with config := some ⟨value⟩ }
  | .applicationRoot =>
    if request.applicationRoot.isSome then .error .repeatedOption
    else .ok { request with applicationRoot := some ⟨value⟩ }
  | .outDir =>
    if request.outDir.isSome then .error .repeatedOption
    else .ok { request with outDir := some ⟨value⟩ }

/-- Sets a flag other than the one that asks for help. -/
def BuildRequest.setFlag (request : BuildRequest) (flag : Flag) :
    Except UsageError BuildRequest :=
  match flag with
  | .development =>
    if request.development then .error .repeatedOption
    else .ok { request with development := true }
  | .verbose =>
    if request.verbose then .error .repeatedOption else .ok { request with verbose := true }
  | .help => .ok request

def BuildRequest.addFile (request : BuildRequest) (file : Argument) :
    Except UsageError BuildRequest :=
  if file = [] then .error .emptyValue
  else .ok { request with files := request.files ++ [⟨file⟩] }

/-- What comes after some of the arguments have been looked at. -/
inductive Progress where
  | going (request : BuildRequest)
  -- the value of an option, as the next argument
  | waiting (request : BuildRequest) (option : Valued)
  | helping
deriving Repr, DecidableEq

def shortNames (request : BuildRequest) : Argument → Except UsageError Progress
  | [] => .ok (.going request)
  | name :: rest =>
    match shortOption? name with
    | none => .error (.unknownOption [hyphen, name])
    | some (.flag .help) => .ok .helping
    | some (.flag flag) => do shortNames (← request.setFlag flag) rest
    | some (.valued option) =>
      match rest with
      | [] => .ok (.waiting request option)
      | a :: value => do
        let value := if a = equals then value else a :: value
        .ok (.going (← request.setValue option value))

def longName (request : BuildRequest) (name : Argument) (value : Option Argument) :
    Except UsageError Progress :=
  match longOption? name, value with
  | none, _ => .error (.unknownOption (hyphen :: hyphen :: name))
  | some (.flag _), some _ => .error .unexpectedValue
  | some (.flag .help), none => .ok .helping
  | some (.flag flag), none => (request.setFlag flag).map .going
  | some (.valued option), none => .ok (.waiting request option)
  | some (.valued option), some value => (request.setValue option value).map .going

/-- Looks at one argument in front of the end of the options; nothing for that end itself. -/
def argument (request : BuildRequest) : Shape → Except UsageError Progress
  | .terminator => .ok (.going request)
  | .long name value => longName request name value
  | .short names => shortNames request names
  | .plain text => (request.addFile text).map .going

/-- Looks at the arguments of the command `build`; nothing is left of the request if help is
asked for. -/
def buildArguments : Progress → List Argument → Except UsageError (Option BuildRequest)
  | .helping, _ => .ok none
  | .going request, [] => .ok (some request)
  | .waiting _ _, [] => .error .missingValue
  | .waiting request option, a :: rest =>
    match shape a with
    | .plain value => do
      let request ← request.setValue option value
      buildArguments (.going request) rest
    | _ => .error .missingValue
  | .going request, a :: rest =>
    if shape a = .terminator then
      (rest.foldlM BuildRequest.addFile request).map some
    else do
      let progress ← argument request (shape a)
      buildArguments progress rest

/-- The request with the configuration file that the environment names, unless the arguments
name one. -/
def withVariable (named? : Option Argument) (request : BuildRequest) :
    Except UsageError BuildRequest :=
  match request.config, named? with
  | none, some value => request.setValue .config value
  | _, _ => .ok request

/-- What the arguments behind the command `build` ask for. -/
def buildRequest (named? : Option Argument) (arguments : List Argument) :
    Except UsageError Request := do
  match ← buildArguments (.going .initial) arguments with
  | none => .ok .help
  | some request =>
    let request ← withVariable named? request
    if request.files = [] then .error .missingFiles else .ok (.build request)

/-- What the arguments ask for, where the environment may name a configuration file. -/
def parse (named? : Option Argument) : List Argument → Except UsageError Request
  | [] => .error .missingCommand
  | first :: rest =>
    match shape first with
    | .plain name =>
      if name = ascii "build" then buildRequest named? rest
      else if name = ascii "help" then
        if rest = [] || rest = [ascii "build"] || rest = [ascii "help"] then .ok .help
        else .error (.unknownCommand (rest.headD []))
      else .error (.unknownCommand name)
    | .long name none =>
      if name = ascii "version" then .ok .version
      else if name = ascii "help" then .ok .help
      else .error (.unknownOption first)
    | .short (name :: _) =>
      if [name] = ascii "V" then .ok .version
      else if [name] = ascii "h" then .ok .help
      else .error (.unknownOption first)
    | _ => .error (.unknownOption first)

end StylesheetBuild.Command
