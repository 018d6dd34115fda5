import Reflash.Tool.Number
import Reflash.Message
/-! # The command line

  A command line names a subcommand, its arguments and options, and perhaps the
  port that the device is on, which may stand before or behind the subcommand.

  Arguments are read from left to right. An option and its value, or a
  positional argument, is *pending* until the next argument is looked at: only
  then is its value checked. This settles which of several errors is reported. A
  word that cannot be placed at all is reported before a pending value.
-/

namespace Reflash

/-! ### What a command line says -/

/-- What the tool is asked to do. -/
inductive Action where
  | pack (input output : String) (base family : UInt32)
  | info (file : String)
  | status
  | flash (file : String)
  | read (addr len : UInt32) (output : Option String)
  | write (addr : UInt32) (file : String)
  | erase (addr len : UInt32)
  | exclusive (mode : AccessMode)
  | exec (addr : UInt32)
  | reboot (request : RebootRequest)
deriving DecidableEq, Inhabited

/-- A command line that makes sense. -/
structure Invocation where
  port : Option String
  action : Action
deriving DecidableEq, Inhabited

/-- Why a command line is not carried out. -/
inductive UsageError where
  /-- Help was asked for. -/
  | displayHelp
  /-- There are no arguments, so help is due. -/
  | helpForNothing
  | unknownArgument
  | invalidSubcommand
  | missingSubcommand
  | missingArgument
  /-- A value is missing, or is not one of those that are allowed. -/
  | invalidValue
  /-- An option was given twice. -/
  | repeated
  /-- A flag was given a value. -/
  | unexpectedValue
  /-- A value is not of its type, for this reason. -/
  | badValue (reason : String)
deriving DecidableEq, Inhabited

/-- Whether the error is no more than a wish for help. -/
def UsageError.isHelp (e : UsageError) : Bool := e = .displayHelp

namespace Arguments

/-! ### Values -/

/-- The types of arguments. -/
inductive Kind where
  | text
  /-- The name of a file; it is not empty. -/
  | path
  | number
  | delay
  | mode
deriving DecidableEq, Inhabited

/-- The value of an argument. -/
inductive Value where
  | text (s : String)
  | number (w : UInt32)
  | mode (m : AccessMode)
deriving DecidableEq, Inhabited

/-- The mode that a word on the command line stands for. -/
def modeOfWord? : String → Option AccessMode
  | "shared" => some .shared
  | "exclusive" => some .exclusive
  | "eject" => some .exclusiveAndEject
  | _ => none

/-- The value of a word. -/
def Kind.value (kind : Kind) (raw : String) : Except UsageError Value :=
  match kind with
  | .text => .ok (.text raw)
  | .path => if raw.isEmpty then .error .invalidValue else .ok (.text raw)
  | .number => ((Number.parse raw).map Value.number).mapError .badValue
  | .delay => ((Number.parseDelay raw).map Value.number).mapError .badValue
  | .mode =>
    match modeOfWord? raw with
    | some m => .ok (.mode m)
    | none => .error .invalidValue

/-! ### What a subcommand takes -/

/-- The names of arguments. -/
inductive Name where
  | port | input | output | base | family | file | addr | len | mode | pc | sp | delay
deriving DecidableEq, Inhabited

/-- An option with a value. -/
structure OptionSpec where
  name : Name
  kind : Kind
  long : String
  short : Option Char
deriving DecidableEq, Inhabited

/-- What a subcommand takes: positional arguments, all of them required, and
    options. -/
structure Spec where
  positionals : List (Name × Kind)
  options : List OptionSpec
deriving DecidableEq, Inhabited

/-- The port of the device can be given anywhere. -/
def portOption : OptionSpec := ⟨.port, .text, "port", some 'p'⟩

/-- What stands before the subcommand. -/
def topSpec : Spec := ⟨[], [portOption]⟩

/-- The subcommands and what they take. -/
def subcommands : List (String × Spec) :=
  [ ("pack", ⟨[(.input, .path), (.output, .path)],
      [⟨.base, .number, "base", some 'b'⟩, ⟨.family, .number, "family", some 'f'⟩, portOption]⟩),
    ("info", ⟨[(.file, .path)], [portOption]⟩),
    ("status", ⟨[], [portOption]⟩),
    ("flash", ⟨[(.file, .path)], [portOption]⟩),
    ("read", ⟨[(.addr, .number), (.len, .number)],
      [⟨.output, .path, "output", some 'o'⟩, portOption]⟩),
    ("write", ⟨[(.addr, .number), (.file, .path)], [portOption]⟩),
    ("erase", ⟨[(.addr, .number), (.len, .number)], [portOption]⟩),
    ("exclusive", ⟨[(.mode, .mode)], [portOption]⟩),
    ("exec", ⟨[(.addr, .number)], [portOption]⟩),
    ("reboot", ⟨[], [⟨.pc, .number, "pc", none⟩, ⟨.sp, .number, "sp", none⟩,
      ⟨.delay, .delay, "delay-ms", none⟩, portOption]⟩) ]

/-- What a subcommand takes. -/
def spec? (subcommand : String) : Option Spec :=
  (subcommands.find? fun s => s.1 = subcommand).map Prod.snd

/-- Whether a word is a subcommand; asking for help counts as one. -/
def isSubcommand (word : String) : Bool := word = "help" || (spec? word).isSome

/-! ### Reading one level -/

/-- An argument whose value has not been checked. -/
structure Pending where
  name : Name
  kind : Kind
  /-- Its value, unless that is still to come. -/
  raw : Option String
deriving DecidableEq, Inhabited

/-- How far a level of the command line has been read. -/
structure Level where
  /-- The values that have been checked. -/
  matched : List (Name × Value)
  pending : Option Pending
  /-- The positional arguments that are still to come. -/
  positionals : List (Name × Kind)
  /-- Whether two dashes have ended the options. -/
  trailing : Bool
deriving DecidableEq, Inhabited

namespace Level

/-- The value of an argument, if it was given. -/
def value? (l : Level) (name : Name) : Option Value :=
  (l.matched.find? fun m => m.1 = name).map Prod.snd

/-- Take in a value of an argument. No argument is given twice. -/
def assign (l : Level) (name : Name) (kind : Kind) (raw : Option String) :
    Except UsageError Level :=
  match raw with
  | none => .error .invalidValue
  | some raw =>
    if (l.value? name).isSome then .error .repeated
    else do return { l with matched := l.matched ++ [(name, ← kind.value raw)] }

/-- Check the pending argument. -/
def resolve (l : Level) : Except UsageError Level :=
  match l.pending with
  | none => .ok l
  | some p => { l with pending := none }.assign p.name p.kind p.raw

/-- Whether the next word is the value of an option. -/
def wantsValue (l : Level) : Bool := l.pending.any fun p => p.raw.isNone

/-- Start an option. A value that is attached to it is checked at once. -/
def startOption (l : Level) (o : OptionSpec) (attached : Option String) :
    Except UsageError Level := do
  let l ← l.resolve
  match attached with
  | some raw => l.assign o.name o.kind (some raw)
  | none => return { l with pending := some ⟨o.name, o.kind, none⟩ }

/-- Help is shown once the pending argument is in order. -/
def help (l : Level) : Except UsageError Level := do
  let _ ← l.resolve
  throw .displayHelp

/-- Take in a positional argument. -/
def positional (l : Level) (raw : String) (unplaced : UsageError) : Except UsageError Level :=
  match l.positionals with
  | [] => .error unplaced
  | (name, kind) :: rest => do
    let l ← l.resolve
    return { l with pending := some ⟨name, kind, some raw⟩, positionals := rest }

/-- Take in a long option, given what follows its two dashes. -/
def longOption (l : Level) (spec : Spec) (body : List Char) : Except UsageError Level :=
  let flag := String.ofList (body.takeWhile (· != '='))
  let attached := match body.dropWhile (· != '=') with
    | [] => none
    | _ :: value => some (String.ofList value)
  if flag = "help" then
    if attached.isSome then .error .unexpectedValue else l.help
  else match spec.options.find? fun o => o.long = flag with
    | some o => l.startOption o attached
    | none => .error .unknownArgument

/-- Take in a short option, given what follows its dash. An equals sign before
    an attached value is left out. -/
def shortOption (l : Level) (spec : Spec) (flag : Char) (rest : List Char) :
    Except UsageError Level :=
  if flag = 'h' then l.help
  else match spec.options.find? fun o => o.short = some flag with
    | some o =>
      l.startOption o (match rest with
        | [] => none
        | '=' :: value => some (String.ofList value)
        | value => some (String.ofList value))
    | none => .error .unknownArgument

/-- Take in a word that is not an option. -/
def plainWord (l : Level) (word : String) (unplaced : UsageError) : Except UsageError Level :=
  match l.pending with
  | some ⟨name, kind, none⟩ => .ok { l with pending := some ⟨name, kind, some word⟩ }
  | _ => l.positional word unplaced

/-- Take in a word. The complaint about a word without a place is up to the
    level. -/
def step (l : Level) (spec : Spec) (word : String) (unplaced : UsageError) :
    Except UsageError Level :=
  if l.trailing then l.positional word unplaced
  else match word.toList with
    | ['-', '-'] => .ok { l with trailing := true }
    | '-' :: '-' :: body => l.longOption spec body
    | '-' :: flag :: rest => l.shortOption spec flag rest
    | _ => l.plainWord word unplaced

end Level

/-- The state before the first word. -/
def Spec.start (s : Spec) : Level :=
  { matched := [], pending := none, positionals := s.positionals, trailing := false }

/-- Read the words of a subcommand. A positional argument that is still to come
    at the end is missed. -/
def readLevel (spec : Spec) : Level → List String → Except UsageError Level
  | l, [] => do
    let l ← l.resolve
    if l.positionals.isEmpty then return l else throw .missingArgument
  | l, word :: rest => do readLevel spec (← l.step spec word .unknownArgument) rest

/-! ### The whole command line -/

/-- Help about a subcommand. There is no help about anything else. -/
def helpAbout : List String → UsageError
  | [] => .displayHelp
  | word :: rest => if isSubcommand word && rest.isEmpty then .displayHelp else .invalidSubcommand

/-- The words before the subcommand, the subcommand and its own words. -/
structure Split where
  level : Level
  subcommand : String
  spec : Spec
  words : List String
deriving DecidableEq, Inhabited

/-- Read up to the subcommand. -/
def readTop : Level → List String → Except UsageError Split
  | l, [] => do
    let l ← l.resolve
    throw (if l.matched.isEmpty then .helpForNothing else .missingSubcommand)
  | l, word :: rest =>
    if !l.trailing && !l.wantsValue && word = "help" then .error (helpAbout rest)
    else match if l.trailing || l.wantsValue then none else spec? word with
      | some spec => .ok ⟨l, word, spec, rest⟩
      | none => do
        let unplaced : UsageError :=
          if l.trailing && isSubcommand word then .unknownArgument else .invalidSubcommand
        readTop (← l.step topSpec word unplaced) rest

/-! ### Making sense of it -/

namespace Level

/-- The text of an argument, if it was given. -/
def text? (l : Level) (name : Name) : Option String :=
  match l.value? name with
  | some (.text s) => some s
  | _ => none

/-- The text of a required argument. -/
def text (l : Level) (name : Name) : String := (l.text? name).getD ""

/-- The number of an argument, or the number that holds where it was not
    given. -/
def number (l : Level) (name : Name) (otherwise : UInt32) : UInt32 :=
  match l.value? name with
  | some (.number w) => w
  | _ => otherwise

/-- The mode of an argument. -/
def mode (l : Level) : AccessMode :=
  match l.value? .mode with
  | some (.mode m) => m
  | _ => .shared

/-- The action that a subcommand and its arguments stand for. -/
def action (l : Level) (subcommand : String) : Action :=
  match subcommand with
  | "pack" => .pack (l.text .input) (l.text .output) (l.number .base 0x10010000)
      (l.number .family 0xE48BFF56)
  | "info" => .info (l.text .file)
  | "flash" => .flash (l.text .file)
  | "read" => .read (l.number .addr 0) (l.number .len 0) (l.text? .output)
  | "write" => .write (l.number .addr 0) (l.text .file)
  | "erase" => .erase (l.number .addr 0) (l.number .len 0)
  | "exclusive" => .exclusive l.mode
  | "exec" => .exec (l.number .addr 0)
  | "reboot" =>
    .reboot ⟨l.number .pc 0, l.number .sp 0x20042000, l.number .delay 100⟩
  | _ => .status

end Level

/-- What a command line says. The words of the subcommand are looked at before
    what is pending in front of it, and a port behind it counts for more. -/
def parse (words : List String) : Except UsageError Invocation := do
  let split ← readTop topSpec.start words
  let level ← readLevel split.spec split.spec.start split.words
  let top ← split.level.resolve
  return {
    port := (level.text? .port).or (top.text? .port)
    action := level.action split.subcommand }

end Arguments

end Reflash
