import Chip8.CommandLine.Options
import Chip8.Text.Numeral

/-!
# Reading arguments

`parse` reads a command line. Every argument is first classified on its own
(`Token.ofArgument`): an option by its exact name, by `name=value`, by an
unambiguous beginning of a long name, or as a cluster of one-letter switches;
a value otherwise, which includes whatever looks like a negative number or holds
a space. After `--` all arguments are values. The tokens are then taken from
left to right, so that the first wrong value, `--help` or `--version` decides.
Unknown options and values to spare are counted and refused at the end. A value
that is attached with `=` is none at all if it is `--`.
-/

namespace Chip8.CommandLine

/-! ## The options -/

/-- Options that stand alone. -/
inductive Switch where
  | help
  | version
  | trace
  | realtime
  | verbose
  | quiet
  deriving DecidableEq, Repr

inductive Flag where
  | switch (s : Switch)
  | setting (s : Setting)
  deriving DecidableEq, Repr

/-- The long names, without their two dashes. -/
def longNames : List (String × Flag) :=
  [("help", .switch .help), ("steps", .setting .steps), ("cpu-hz", .setting .cpuHz),
   ("timer-hz", .setting .timerHz), ("seed", .setting .seed), ("key", .setting .key),
   ("break", .setting .breakAt), ("trace", .switch .trace), ("realtime", .switch .realtime),
   ("on", .setting .on), ("off", .setting .off), ("verbose", .switch .verbose),
   ("quiet", .switch .quiet), ("log-file", .setting .logFile), ("version", .switch .version)]

/-- The letters after one dash. -/
def letters : List (Char × Switch) :=
  [('h', .help), ('v', .verbose), ('q', .quiet)]

/-! ## Tokens -/

inductive Token where
  | value (text : String)
  /-- The argument `--`. -/
  | separator
  | long (flag : Flag) (attached : Option String)
  /-- Letters after one dash, of which the first is a switch, and the text after it. -/
  | cluster (first : Switch) (rest : List Char)
  | unknown
  deriving DecidableEq, Repr

/-- Reasons to refuse a command line. -/
inductive Usage where
  | ambiguous (argument : String)
  | valueMissing (setting : Setting)
  | valueUnwanted
  | badValue (setting : Setting) (value : String)
  | romMissing
  | unrecognised
  deriving DecidableEq, Repr

def isDigits (cs : List Char) : Bool :=
  !cs.isEmpty && cs.all fun c => (Digit.decimal? c).isSome

/-- Digits, or digits around a point of which those before it may be missing. -/
def isDecimal (cs : List Char) : Bool :=
  isDigits cs ||
    match cs.span (fun c => (Digit.decimal? c).isSome) with
    | (_, '.' :: after) => isDigits after
    | _ => false

/-- What follows the dash is a number; one line feed may end it. -/
def looksNegative (cs : List Char) : Bool :=
  isDecimal cs || (cs.getLast? == some '\n' && isDecimal cs.dropLast)

/-- The text before the first `=` and the text after it. -/
def splitAttached (cs : List Char) : List Char × Option String :=
  match cs.span (· ≠ '=') with
  | (name, _ :: text) => (name, some (String.ofList text))
  | (name, []) => (name, none)

/-- Dashed arguments that name no option. -/
def unnamed (arg : String) (afterDash : List Char) : Token :=
  if looksNegative afterDash || arg.toList.contains ' ' then .value arg else .unknown

namespace Token

/-- An argument that starts with two dashes. -/
def ofLong (arg : String) (name : List Char) : Except Usage Token :=
  let (stem, attached) := splitAttached name
  match longNames.find? (·.1.toList == name) with
  | some (_, flag) => .ok (.long flag none)
  | none =>
    match longNames.find? (·.1.toList == stem) with
    | some (_, flag) => .ok (.long flag attached)
    | none =>
      match longNames.filter (fun p => stem.isPrefixOf p.1.toList) with
      | [] => .ok (unnamed arg ('-' :: name))
      | [(_, flag)] => .ok (.long flag attached)
      | _ => .error (.ambiguous arg)

def ofArgument (arg : String) : Except Usage Token :=
  match arg.toList with
  | '-' :: '-' :: name => ofLong arg name
  | '-' :: c :: rest =>
    match letters.lookup c with
    | some s => .ok (.cluster s rest)
    | none => .ok (unnamed arg (c :: rest))
  | _ => .ok (.value arg)

/-- The tokens of a command line. -/
def ofArguments : List String → Except Usage (List Token)
  | [] => .ok []
  | "--" :: args => .ok (separator :: args.map value)
  | arg :: args => do
    let t ← ofArgument arg
    return t :: (← ofArguments args)

end Token

/-! ## Taking tokens -/

/-- What the tokens so far have settled. -/
structure Reading where
  options : Options
  rom : Option String
  /-- The setting that waits for its value. -/
  waiting : Option Setting
  /-- The last token was the program image. -/
  justRom : Bool
  /-- Something was met that is no option and has no place as a value. -/
  surplus : Bool
  deriving DecidableEq, Repr

/-- Reading stops with an answer other than options. -/
inductive Stop where
  | help
  | version
  | usage (u : Usage)
  deriving DecidableEq, Repr

def number (s : Setting) (value : String) (n : Except Numeral.Invalid Int) : Except Stop Int :=
  n.mapError fun _ => .usage (.badValue s value)

def applySetting (o : Options) (s : Setting) (value : String) : Except Stop Options :=
  let o := o.fill s
  match s with
  | .steps => do return { o with steps := ← number s value (Numeral.parse value) }
  | .cpuHz => do return { o with cpuHz := ← number s value (Numeral.read 10 value) }
  | .timerHz => do return { o with timerHz := ← number s value (Numeral.read 10 value) }
  | .seed => do return { o with seed := some (← number s value (Numeral.parse value)) }
  | .key => .ok { o with key := some (.text value) }
  | .breakAt => do
    return { o with breakpoints := o.breakpoints ++ [← number s value (Numeral.parse value)] }
  | .on => .ok { o with on := value }
  | .off => .ok { o with off := value }
  | .logFile => .ok { o with logFile := some value }

/-- A setting with its value, or without one. -/
def applyAttached (o : Options) (s : Setting) (value : String) : Except Stop Options :=
  if value = "--" then .ok (o.empty s) else applySetting o s value

def applySwitch (o : Options) (s : Switch) : Except Stop Options :=
  match s with
  | .help => .error .help
  | .version => .error .version
  | .trace => .ok { o with trace := true }
  | .realtime => .ok { o with realtime := true }
  | .verbose => .ok { o with verbosity := o.verbosity + 1 }
  | .quiet => .ok { o with quiet := true }

/-- The switches after the first of a cluster, from which an `=` may part them. -/
def clusterSwitches (rest : List Char) : Except Usage (List Switch) :=
  match rest with
  | ['='] => .error .valueUnwanted
  | '=' :: cs => cs.mapM switch
  | cs => cs.mapM switch
where
  switch (c : Char) : Except Usage Switch :=
    match letters.lookup c with
    | some s => .ok s
    | none => .error .valueUnwanted

namespace Reading

def start : Reading where
  options := { rom := "" }
  rom := none
  waiting := none
  justRom := false
  surplus := false

def withOptions (r : Reading) (o : Options) : Reading :=
  { r with options := o, waiting := none, justRom := false }

def takeCluster (r : Reading) (first : Switch) (rest : List Char) : Except Stop Reading := do
  let more ← (clusterSwitches rest).mapError .usage
  return r.withOptions (← (first :: more).foldlM applySwitch r.options)

/-- A token when no setting waits. A separator belongs to the image that it stands next to. -/
def takeFree (r : Reading) : Token → Except Stop Reading
  | .value v =>
    match r.rom with
    | none => .ok { r with rom := some v, justRom := true }
    | some _ => .ok { r with surplus := true, justRom := false }
  | .separator =>
    .ok { r with surplus := r.surplus || (r.rom.isSome && !r.justRom), justRom := false }
  | .long (.switch s) none => do return r.withOptions (← applySwitch r.options s)
  | .long (.switch _) (some _) => .error (.usage .valueUnwanted)
  | .long (.setting s) (some v) => do return r.withOptions (← applyAttached r.options s v)
  | .long (.setting s) none => .ok { r with waiting := some s, justRom := false }
  | .cluster first rest => r.takeCluster first rest
  | .unknown => .ok { r with surplus := true, justRom := false }

def take (r : Reading) (t : Token) : Except Stop Reading :=
  match r.waiting with
  | none => r.takeFree t
  | some s =>
    match t with
    | .value v => do return r.withOptions (← applySetting r.options s v)
    | _ => .error (.usage (.valueMissing s))

/-- The options, when nothing is missing and nothing is to spare. -/
def finish (r : Reading) : Except Stop Options :=
  match r.waiting, r.rom with
  | some s, _ => .error (.usage (.valueMissing s))
  | none, none => .error (.usage .romMissing)
  | none, some rom =>
    if r.surplus then .error (.usage .unrecognised) else .ok { r.options with rom := rom }

end Reading

def parse (argv : List String) : Except Stop Options := do
  let ts ← (Token.ofArguments argv).mapError .usage
  let r ← ts.foldlM Reading.take .start
  r.finish

end Chip8.CommandLine
