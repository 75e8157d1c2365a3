import DocStream.Convert.Settings
import DocStream.Number.Digits

/-!
# Command line arguments

Four subcommands, each with options of its own, and two options that may stand anywhere.

Arguments are looked at one after the other. An option that takes a value waits for it until the
next option or the end (`Options.settle`); a value attached to the option is taken at once. Only
when all arguments have been looked at is it checked which options exclude each other and which are
missing.

* `Command` — a subcommand with its options;
* `Invocation.ofArgs?` — what the arguments ask for, or why they cannot be understood.
-/

namespace DocStream

/-- **Why arguments do not lead to a command.** Asking for help or for the version is among the
reasons, though it is no mistake; to give no arguments at all is one. -/
inductive Usage where
  /-- An argument that no option and no place takes. -/
  | unknownArgument
  /-- Options that exclude each other, or one given twice. -/
  | argumentConflict
  | missingArgument
  | unknownSubcommand
  | missingSubcommand
  /-- A value that its option does not take. -/
  | invalidValue
  | missingValue
  | unneededValue
  | help
  | version
  /-- There are no arguments at all. -/
  | nothing
deriving DecidableEq, Repr

/-- What an option takes: nothing at all, or a value of a kind. -/
inductive OptionKind where
  | flag
  /-- The path of a file, which must not be empty. -/
  | path
  | text
  /-- A number that 64 bits hold. -/
  | size
deriving DecidableEq, Repr

/-- An option: its long name, its letter if it has one, and what it takes. -/
structure OptionSpec where
  name : String
  letter : Option Char
  kind : OptionKind
deriving DecidableEq, Repr

namespace OptionSpec

/-- Options that may stand before and after the subcommand. -/
def everywhere : List OptionSpec := [⟨"pretty", some 'p', .flag⟩, ⟨"verbose", some 'v', .flag⟩]

/-- The path of the documents or of the envelope, instead of the standard input. -/
def input : OptionSpec := ⟨"input", some 'i', .path⟩

def config : OptionSpec := ⟨"config", some 'c', .path⟩

/-- The options of each subcommand, and none for a name that is no subcommand. -/
def ofSubcommand? : String → Option (List OptionSpec)
  | "infer" => some [input, ⟨"flatten", none, .flag⟩, ⟨"schemaless", none, .flag⟩,
      ⟨"max-depth", none, .size⟩]
  | "to-document" => some [input, ⟨"id", none, .text⟩]
  | "validate" => some [config]
  | "replay" => some [config, input]
  | _ => none

end OptionSpec

/-- **Options as far as they have been seen.** A value that has come is looked at only at the next
option or the end, so another mistake may be reported before one in it. -/
structure Options where
  /-- Those that are complete, with their values. -/
  seen : List (String × String) := []
  /-- One that waits for its value, and the value if it has come. -/
  waiting : Option (OptionSpec × Option String) := none

namespace Options

def has (o : Options) (name : String) : Bool := o.seen.any (·.1 == name)

def value? (o : Options) (name : String) : Option String := o.seen.lookup name

/-- An option with its value, which has to be one that it takes; no option may be given twice. A
path must not be empty, and a size has to be a number that 64 bits hold. -/
def record (o : Options) (spec : OptionSpec) (value : String) : Except Usage Options :=
  if o.has spec.name then .error .argumentConflict
  else
    let ok : Except Usage Options := .ok { o with seen := (spec.name, value) :: o.seen }
    match spec.kind with
    | .flag | .text => ok
    | .path => if value.isEmpty then .error .missingValue else ok
    | .size => if (Digits.unsigned64? value).isNone then .error .invalidValue else ok

/-- **Nothing waits any more**: what was waiting has its value, or that is missing. -/
def settle (o : Options) : Except Usage Options :=
  match o.waiting with
  | none => .ok o
  | some (_, none) => .error .missingValue
  | some (spec, some value) => { o with waiting := none }.record spec value

/-- An option found among the arguments, with the value attached to it, if any. A flag takes none;
an option that takes a value waits for it if none is attached. -/
def found (o : Options) (spec : OptionSpec) (attached : Option String) : Except Usage Options :=
  match spec.kind, attached with
  | .flag, some _ => .error .unneededValue
  | .flag, none => do (← o.settle).record spec ""
  | _, some value => do (← o.settle).record spec value
  | _, none => do return { (← o.settle) with waiting := some (spec, none) }

/-- Letters after a dash, each an option. An option that takes a value takes the letters after it;
an equals sign in front of them is dropped. The root of the command line knows the version. -/
def letters (specs : List OptionSpec) (atRoot : Bool) :
    Options → List Char → Except Usage Options
  | o, [] => .ok o
  | o, c :: rest =>
    match specs.find? fun s => s.letter == some c with
    | some spec =>
      if spec.kind = .flag then do letters specs atRoot (← o.found spec none) rest
      else
        match rest with
        | [] => o.found spec none
        | '=' :: value => o.found spec (some (String.ofList value))
        | value => o.found spec (some (String.ofList value))
    | none =>
      if c = 'h' then do
        let _ ← o.settle
        .error .help
      else if c = 'V' ∧ atRoot then do
        let _ ← o.settle
        .error .version
      else .error .unknownArgument

/-- A name after two dashes, with the value behind an equals sign, if there is one. Names cannot be
cut short. -/
def long (specs : List OptionSpec) (atRoot : Bool) (o : Options) (cs : List Char) :
    Except Usage Options :=
  let name := String.ofList (cs.takeWhile (· ≠ '='))
  let attached := match cs.dropWhile (· ≠ '=') with
    | _ :: value => some (String.ofList value)
    | [] => none
  match specs.find? fun s => s.name == name with
  | some spec => o.found spec attached
  | none =>
    if name = "help" ∨ (name = "version" ∧ atRoot) then
      if attached.isSome then .error .unneededValue
      else do
        let _ ← o.settle
        .error (if name = "help" then .help else .version)
    else .error .unknownArgument

/-- **The options of a subcommand**, from the arguments after its name. No subcommand takes
arguments other than options and their values. -/
def ofArgs (specs : List OptionSpec) : Options → List String → Except Usage Options
  | o, [] => o.settle
  | o, arg :: rest =>
    match arg.toList with
    -- Nothing is an option after two dashes, and no subcommand takes anything else.
    | ['-', '-'] => if rest.isEmpty then o.settle else .error .unknownArgument
    | '-' :: '-' :: cs => do ofArgs specs (← o.long specs false cs) rest
    | '-' :: c :: cs => do ofArgs specs (← o.letters specs false (c :: cs)) rest
    -- A single dash counts as a value.
    | _ =>
      match o.waiting with
      | some (spec, none) => ofArgs specs { o with waiting := some (spec, some arg) } rest
      | _ => .error .unknownArgument

end Options

/-- **A subcommand** with its options. Without a path, input comes from the standard one. -/
inductive Command where
  /-- Convert one document and show its record. -/
  | infer (input : Option String) (settings : ConversionSettings)
  /-- Show the document that an envelope would be written as. -/
  | toDocument (input id : Option String)
  /-- Check a configuration. -/
  | validate (config : String)
  /-- Run documents through both tasks. -/
  | replay (config : String) (input : Option String)
deriving DecidableEq, Repr

/-- **What the arguments ask for**: a subcommand, and how its result is to be laid out. -/
structure Invocation where
  command : Command
  pretty : Bool

namespace Invocation

/-- The subcommand of a name, from its options. Only here is it asked which options exclude each
other and which are missing. -/
def command? (name : String) (o : Options) : Except Usage Command :=
  let config : Except Usage String :=
    match o.value? "config" with
    | some path => .ok path
    | none => .error .missingArgument
  match name with
  | "infer" =>
    if o.has "flatten" && o.has "schemaless" then .error .argumentConflict
    else
      let default : ConversionSettings := {}
      let maxDepth := ((o.value? "max-depth").bind Digits.unsigned64?).getD default.maxDepth
      .ok (.infer (o.value? "input")
        { structured := !o.has "schemaless", flatten := o.has "flatten", maxDepth })
  | "to-document" => .ok (.toDocument (o.value? "input") (o.value? "id"))
  | "validate" => do return .validate (← config)
  | _ => do return .replay (← config) (o.value? "input")

/-- The names after the subcommand that asks for help: none, or one subcommand. -/
def helpOn : List String → Usage
  | [] => .help
  | [name] => if (OptionSpec.ofSubcommand? name).isSome || name = "help" then .help
      else .unknownSubcommand
  | "help" :: rest => helpOn rest
  | _ => .unknownSubcommand

/-- **What the arguments ask for**, given the options seen before the subcommand. The first argument
that is no option names the subcommand, and all that follow are its own. -/
def ofRest? : Options → List String → Except Usage Invocation
  | o, [] => if o.seen.isEmpty then .error .nothing else .error .missingSubcommand
  | o, arg :: rest =>
    match arg.toList with
    | ['-', '-'] =>
      match rest with
      | [] => if o.seen.isEmpty then .error .nothing else .error .missingSubcommand
      | name :: _ =>
        if (OptionSpec.ofSubcommand? name).isSome || name = "help" then .error .unknownArgument
        else .error .unknownSubcommand
    | '-' :: '-' :: cs => do ofRest? (← o.long OptionSpec.everywhere true cs) rest
    | '-' :: c :: cs => do ofRest? (← o.letters OptionSpec.everywhere true (c :: cs)) rest
    | _ =>
      if arg = "help" then .error (helpOn rest)
      else
        match OptionSpec.ofSubcommand? arg with
        | none => .error .unknownSubcommand
        | some specs => do
          let own ← Options.ofArgs (specs ++ OptionSpec.everywhere) {} rest
          let command ← command? arg own
          return { command, pretty := o.has "pretty" || own.has "pretty" }

/-- **What the arguments ask for.** -/
def ofArgs? (args : List String) : Except Usage Invocation := ofRest? {} args

end Invocation
end DocStream
