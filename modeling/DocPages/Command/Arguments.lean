/-
The command line. Arguments are taken in order: the first one that is wrong
refuses the whole line, and a request for help that comes before it ends the
reading.
-/

namespace DocPages.Command

/-! ## Options -/

structure Options where
  output? : Option String
  format? : Option String
  print : Bool
  strict : Bool
  verbose : Bool
  /-- Files, folders and patterns, in the order given. -/
  inputs : List String
deriving DecidableEq, Repr

namespace Options

def none : Options := ⟨.none, .none, false, false, false, []⟩

/-- The name of the output format. -/
def format (o : Options) : String :=
  o.format?.getD "markdown"

end Options

/-- What a command line asks for. -/
inductive Invocation where
  | run (o : Options)
  | help
  /-- The line is refused. -/
  | refused
deriving DecidableEq, Repr

/-! ## Flags and values -/

inductive Flag where
  | print | strict | verbose
deriving DecidableEq, Repr

inductive Setting where
  | output | format
deriving DecidableEq, Repr

/-- An option by its name. -/
inductive OptionKind where
  | flag (f : Flag)
  | setting (s : Setting)
  | help
deriving DecidableEq, Repr

def OptionKind.ofLong : String → Option OptionKind
  | "output" => some (.setting .output)
  | "format" => some (.setting .format)
  | "print" => some (.flag .print)
  | "strict" => some (.flag .strict)
  | "verbose" => some (.flag .verbose)
  | "help" => some .help
  | _ => none

def OptionKind.ofShort : Char → Option OptionKind
  | 'o' => some (.setting .output)
  | 'f' => some (.setting .format)
  | 'v' => some (.flag .verbose)
  | 'h' => some .help
  | _ => none

namespace Options

/-- Sets a flag. No flag may be given twice. -/
def raise (o : Options) : Flag → Option Options
  | .print => if o.print then .none else some { o with print := true }
  | .strict => if o.strict then .none else some { o with strict := true }
  | .verbose => if o.verbose then .none else some { o with verbose := true }

/-- Sets a value. None may be given twice, and the output folder needs a name. -/
def set (o : Options) (value : String) : Setting → Option Options
  | .output =>
    if o.output?.isSome || value.isEmpty then .none else some { o with output? := some value }
  | .format => if o.format?.isSome then .none else some { o with format? := some value }

def addInput (o : Options) (input : String) : Options :=
  { o with inputs := o.inputs ++ [input] }

end Options

/-! ## Reading arguments -/

/-- Whether an argument can only be an option. A hyphen alone is an input. -/
def looksLikeOption (arg : String) : Bool :=
  match arg.toList with
  | '-' :: _ :: _ => true
  | _ => false

/-- How an argument or a part of it has been taken. -/
inductive Taken where
  | options (o : Options)
  /-- The value of a setting is in the next argument. -/
  | awaiting (o : Options) (s : Setting)
  | help
  | refused

def Taken.ofOption : Option Options → Taken
  | some o => .options o
  | none => .refused

/-- The text before the first equals sign, and the text after it if there is one. -/
def splitValue (s : List Char) : List Char × Option String :=
  let name := s.takeWhile (· ≠ '=')
  match s.drop name.length with
  | _ :: value => (name, some (String.ofList value))
  | [] => (name, none)

/-- An option by its long name, after the two hyphens. -/
def takeLong (o : Options) (s : List Char) : Taken :=
  let (name, value?) := splitValue s
  match OptionKind.ofLong (String.ofList name), value? with
  | some (.setting k), some v => .ofOption (o.set v k)
  | some (.setting k), none => .awaiting o k
  | some (.flag f), none => .ofOption (o.raise f)
  | some .help, none => .help
  | _, _ => .refused

/-- Options by their short names, after the hyphen. A value may follow its option at once, also behind an
equals sign. -/
def takeShort (o : Options) : List Char → Taken
  | [] => .options o
  | c :: rest =>
    match OptionKind.ofShort c with
    | some (.flag f) =>
      match o.raise f with
      | some o' => takeShort o' rest
      | none => .refused
    | some .help => .help
    | some (.setting k) =>
      match rest with
      | [] => .awaiting o k
      | '=' :: value => .ofOption (o.set (String.ofList value) k)
      | value => .ofOption (o.set (String.ofList value) k)
    | none => .refused

/-- The invocation that the arguments make, after the options already taken. -/
def readArguments (o : Options) : List String → Invocation
  | [] => .run o
  | arg :: rest =>
    if arg = "--" then .run (rest.foldl Options.addInput o)
    else
      let taken :=
        if looksLikeOption arg then
          match arg.toList.drop 1 with
          | '-' :: s => takeLong o s
          | s => takeShort o s
        else .options (o.addInput arg)
      match taken with
      | .options o' => readArguments o' rest
      | .help => .help
      | .refused => .refused
      | .awaiting o' k =>
        match rest with
        | [] => .refused
        | value :: rest' =>
          if looksLikeOption value then .refused
          else match o'.set value k with
            | some o'' => readArguments o'' rest'
            | none => .refused

def Invocation.ofArguments (args : List String) : Invocation :=
  readArguments .none args

/-! ## Help -/

def helpText : String :=
  "Generate Markdown or HTML reference pages from C# documentation comments\n" ++
  "\n" ++
  "Usage: csdoc [OPTIONS] [INPUTS]...\n" ++
  "\n" ++
  "Arguments:\n" ++
  "  [INPUTS]...  Input files, directories or glob patterns. If omitted, reads from stdin\n" ++
  "\n" ++
  "Options:\n" ++
  "  -o, --output <OUTPUT>  Output directory (required when inputs are given, unless --print)\n" ++
  "  -f, --format <FORMAT>  Output format: markdown (default), html [default: markdown]\n" ++
  "      --print            Write every page to stdout instead of the output directory\n" ++
  "      --strict           Fail a source file on the first malformed documentation comment\n" ++
  "  -v, --verbose          Log progress (overridden by CSDOC_LOG)\n" ++
  "  -h, --help             Print help\n"

end DocPages.Command
