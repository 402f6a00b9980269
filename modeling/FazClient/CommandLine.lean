import FazClient.Command
import FazClient.Config

/-!
# FazClient.CommandLine

The command line: options of the program, a subcommand, and the options and the
operand of the subcommand.

An argument `--name=value`, `-nvalue` or `-n=value` brings its value along; after
`--name` or `-n` the next argument is the value unless it looks like an option
itself.  After `--` nothing is an option or a subcommand.  A value is checked
when the next option or operand comes, at the latest after the subcommand.
-/

namespace FazClient.CommandLine

/-! ## Options and subcommands -/

/-- The options, of the program and of subcommands. -/
inductive Opt where
  | faz
  | user
  | format
  | deadlineSecs
  | connectTimeoutSecs
  | reply
  | help
  | version
  deriving DecidableEq

namespace Opt

/-- The name after two dashes. -/
def long : Opt → String
  | faz => "faz"
  | user => "user"
  | format => "format"
  | deadlineSecs => "deadline-secs"
  | connectTimeoutSecs => "connect-timeout-secs"
  | reply => "reply"
  | help => "help"
  | version => "version"

/-- The letter after one dash, if there is one. -/
def short? : Opt → Option Char
  | user => some 'u'
  | format => some 'f'
  | reply => some 'r'
  | help => some 'h'
  | version => some 'V'
  | _ => none

/-- The environment variable that stands in for the option, if there is one. -/
def environmentName? : Opt → Option String
  | faz => some "CAW_FAZ_ADDR"
  | user => some "CAW_USER"
  | deadlineSecs => some "CAW_DEADLINE_SECS"
  | _ => none

end Opt

/-- The subcommands. -/
inductive Subcommand where
  | hookAll
  | unhookAll
  | register
  | follow
  | profile
  | caw
  | read
  | help
  deriving DecidableEq

namespace Subcommand

/-- All subcommands. -/
def all : List Subcommand := [hookAll, unhookAll, register, follow, profile, caw, read, help]

/-- The name of a subcommand. -/
def name : Subcommand → String
  | hookAll => "hook-all"
  | unhookAll => "unhook-all"
  | register => "register"
  | follow => "follow"
  | profile => "profile"
  | caw => "caw"
  | read => "read"
  | help => "help"

/-- The subcommand with this name. -/
def ofName? (s : String) : Option Subcommand := all.find? (·.name = s)

/-- Whether there is an operand, which is then required. -/
def hasOperand : Subcommand → Bool
  | register | follow | caw | read => true
  | _ => false

end Subcommand

/-- Where an argument stands: before the subcommand or after it. -/
inductive Scope where
  | program
  | subcommand (s : Subcommand)
  deriving DecidableEq

namespace Scope

/-- The options that are known in a place. -/
def options : Scope → List Opt
  | program => [.faz, .user, .format, .deadlineSecs, .connectTimeoutSecs, .help, .version]
  | subcommand .caw => [.reply, .help]
  | subcommand _ => [.help]

/-- The option with this long name. -/
def long? (s : Scope) (name : String) : Option Opt := s.options.find? (·.long = name)

/-- The option with this letter. -/
def short? (s : Scope) (c : Char) : Option Opt := s.options.find? (·.short? = some c)

/-- Whether an operand may stand there. -/
def hasOperand : Scope → Bool
  | program => false
  | subcommand s => s.hasOperand

end Scope

/-! ## Refusals -/

/-- Why a command line is not carried out. -/
inductive Refusal where
  | help
  | version
  /-- There is nothing at all, which calls for help, too. -/
  | helpOnMissing
  | missingSubcommand
  | invalidSubcommand
  | unknownArgument
  | missingArgument
  /-- An option is given twice. -/
  | conflict
  /-- An option has no value, or none of those it may have. -/
  | invalidValue
  /-- A value is no number. -/
  | notANumber
  /-- An option that has no value is given one. -/
  | unexpectedValue
  deriving DecidableEq

/-! ## Values -/

/-- The number that a text of digits stands for. -/
def digitsValue? (digits : List Char) : Option Nat :=
  if digits ≠ [] ∧ digits.all Char.isDigit then
    some (digits.foldl (fun n d => 10 * n + (d.toNat - 48)) 0)
  else
    none

/-- A whole number below `2 ^ 64`, perhaps with a plus sign. -/
def number? (text : String) : Option Nat :=
  let digits := match text.toList with
    | '+' :: rest => rest
    | cs => cs
  (digitsValue? digits).filter (· < UInt64.size)

/-- The format with this name. -/
def format? (text : String) : Option Format :=
  if text = "table" then some .table else if text = "json" then some .json else none

/-- Whether a value is one that the option may have. -/
def Opt.check (o : Opt) (value : String) : Except Refusal Unit :=
  match o with
  | format => if (format? value).isSome then .ok () else .error .invalidValue
  | deadlineSecs | connectTimeoutSecs =>
    if (number? value).isSome then .ok () else .error .notANumber
  | _ => .ok ()

/-! ## Arguments -/

/-- What an argument looks like. -/
inductive Shape where
  /-- Two dashes alone. -/
  | escape
  | long (name : String) (value : Option String)
  | short (letters : List Char)
  | plain
  deriving DecidableEq

/-- Cuts a text at its first equals sign. -/
def splitEquals (cs : List Char) : String × Option String :=
  (String.ofList (cs.takeWhile (· ≠ '=')),
    match cs.dropWhile (· ≠ '=') with
    | [] => none
    | _ :: value => some (String.ofList value))

/-- What an argument looks like.  A dash alone is plain. -/
def shape (arg : String) : Shape :=
  match arg.toList with
  | ['-', '-'] => .escape
  | '-' :: '-' :: cs => let (name, value) := splitEquals cs; .long name value
  | ['-'] => .plain
  | '-' :: cs => .short cs
  | _ => .plain

/-- What was read in one place: the options with their values in order, an option
whose value is still to be taken in, and the operand. -/
structure Reading where
  given : List (Opt × String) := []
  pending : Option (Opt × Option String) := none
  operand : Option String := none
  /-- Two dashes alone were seen. -/
  escaped : Bool := false

namespace Reading

/-- Whether the next argument may be the value of an option. -/
def wantsValue (r : Reading) : Bool :=
  match r.pending with
  | some (_, none) => true
  | _ => false

/-- Takes in an option with its value: there has to be one, the option must not
have been given before, and the value has to be one it may have. -/
def accept (r : Reading) (o : Opt) (value : Option String) : Except Refusal Reading :=
  match value with
  | none => .error .invalidValue
  | some v =>
    if r.given.any (·.1 = o) then .error .conflict
    else
      match o.check v with
      | .error e => .error e
      | .ok () => .ok { r with given := r.given ++ [(o, v)] }

/-- Takes in the option that is still to be taken in. -/
def settle (r : Reading) : Except Refusal Reading :=
  match r.pending with
  | none => .ok r
  | some (o, value) => { r with pending := none }.accept o value

/-- Goes on after an option that was named, perhaps with its value. -/
def option (r : Reading) (o : Opt) (attached : Option String) : Except Refusal Reading := do
  match o, attached with
  | .help, none =>
    let _ ← r.settle
    throw .help
  | .version, none =>
    let _ ← r.settle
    throw .version
  | .help, some _ => throw .unexpectedValue
  | .version, some _ => throw .unexpectedValue
  | o, some v => (← r.settle).accept o (some v)
  | o, none => return { ← r.settle with pending := some (o, none) }

/-- Goes on after an argument with one dash.  Letters that take no value end the
reading, so only the first letter matters. -/
def letters (r : Reading) (s : Scope) : List Char → Except Refusal Reading
  | [] => .ok r
  | c :: rest =>
    match s.short? c with
    | none => .error .unknownArgument
    | some .help => r.option .help none
    | some .version => r.option .version none
    | some o =>
      match rest with
      | [] => r.option o none
      | '=' :: value => r.option o (some (String.ofList value))
      | value => r.option o (some (String.ofList value))

end Reading

/-! ## Reading one place -/

/-- What comes of one argument: the reading goes on, or a subcommand begins. -/
inductive Step where
  | next (r : Reading)
  | begins (s : Subcommand)

/-- Why an argument that is no option has no place. -/
def misplaced (s : Scope) (r : Reading) (arg : String) : Refusal :=
  match s with
  | .subcommand _ => .unknownArgument
  | .program =>
    if r.escaped && (Subcommand.ofName? arg).isSome then .unknownArgument else .invalidSubcommand

/-- Goes on after an argument that is no option and no value of one. -/
def operandStep (s : Scope) (r : Reading) (arg : String) : Except Refusal Step :=
  if s.hasOperand && r.operand.isNone then
    match r.settle with
    | .error e => .error e
    | .ok r => .ok (.next { r with operand := some arg })
  else
    .error (misplaced s r arg)

/-- Goes on after one argument. -/
def step (s : Scope) (r : Reading) (arg : String) : Except Refusal Step :=
  if r.escaped then operandStep s r arg
  else
    match if s = .program ∧ !r.wantsValue then Subcommand.ofName? arg else none with
    | some sub => .ok (.begins sub)
    | none =>
      match shape arg with
      | .escape => .ok (.next { r with escaped := true })
      | .long name value =>
        match s.long? name with
        | none => .error .unknownArgument
        | some o => (r.option o value).map .next
      | .short letters => (r.letters s letters).map .next
      | .plain =>
        match r.pending with
        | some (o, none) => .ok (.next { r with pending := some (o, some arg) })
        | _ => operandStep s r arg

/-- Reads the arguments of one place; gives back the subcommand that begins and
the arguments after it. -/
def scan (s : Scope) (r : Reading) :
    List String → Except Refusal (Reading × Option (Subcommand × List String))
  | [] => .ok (r, none)
  | arg :: args =>
    match step s r arg with
    | .error e => .error e
    | .ok (.begins sub) => .ok (r, some (sub, args))
    | .ok (.next r) => scan s r args

/-! ## The whole command line -/

/-- The environment: variables and their values. -/
abbrev Environment : Type := List (String × String)

/-- A command line that was understood. -/
structure Parsed where
  faz : String
  user : Option String
  format : Format
  deadlineSecs : Nat
  connectTimeoutSecs : Nat
  command : Command
  deriving DecidableEq

/-- The value that was given for an option. -/
def Reading.value? (r : Reading) (o : Opt) : Option String :=
  (r.given.find? (·.1 = o)).map (·.2)

/-- Takes in the variables that stand in for options that are not given. -/
def addEnvironment (env : Environment) (r : Reading) : Except Refusal Reading :=
  Scope.program.options.foldlM (fun r o =>
    if r.given.any (·.1 = o) then .ok r
    else
      match o.environmentName?.bind fun name => List.lookup name env with
      | none => .ok r
      | some v => r.accept o (some v)) r

/-- Help on a subcommand, if it is one. -/
def helpOn : List String → Refusal
  | [] => .help
  | [name] => if (Subcommand.ofName? name).isSome then .help else .invalidSubcommand
  | _ => .invalidSubcommand

/-- The command of a subcommand. -/
def toCommand (s : Subcommand) (r : Reading) : Except Refusal Command :=
  match s, r.operand with
  | .hookAll, _ => .ok .hookAll
  | .unhookAll, _ => .ok .unhookAll
  | .profile, _ => .ok .profile
  | .register, some username => .ok (.register username)
  | .follow, some username => .ok (.follow username)
  | .caw, some text => .ok (.caw text (r.value? .reply))
  | .read, some id => .ok (.read id)
  | .help, _ => .error .help
  | _, none => .error .missingArgument

/-- Reads a subcommand and what belongs to it. -/
def readSubcommand (s : Subcommand) (args : List String) : Except Refusal Command := do
  if s = .help then
    throw (helpOn args)
  let (r, _) ← scan (.subcommand s) {} args
  toCommand s (← r.settle)

/-- The result of a reading of the program's options, with defaults for what is
not given. -/
def assemble (r : Reading) (command : Command) : Parsed where
  faz := (r.value? .faz).getD Config.defaultUrl
  user := r.value? .user
  format := ((r.value? .format).bind format?).getD .default
  deadlineSecs := ((r.value? .deadlineSecs).bind number?).getD 10
  connectTimeoutSecs := ((r.value? .connectTimeoutSecs).bind number?).getD 10
  command := command

/-- Reads a command line, the name of the program apart. -/
def parse (env : Environment) (args : List String) : Except Refusal Parsed := do
  let (r, rest) ← scan .program {} args
  let command? ← match rest with
    | none => pure none
    | some (s, args) => some <$> readSubcommand s args
  let r ← addEnvironment env (← r.settle)
  match command? with
  | some command => return assemble r command
  | none => throw (if r.given = [] then .helpOnMissing else .missingSubcommand)

/-- The settings of a session, checked. -/
def Parsed.config (p : Parsed) : Except Failure Config :=
  Config.validate ⟨p.faz, p.connectTimeoutSecs * 1000, p.deadlineSecs * 1000⟩

end FazClient.CommandLine
