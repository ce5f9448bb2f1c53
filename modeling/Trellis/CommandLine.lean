import Trellis.Compile
import Trellis.Json.Printer

/-!
The command line: reading arguments, and running a command in surroundings that can read and write
texts. A run ends with an exit code: 0 for success, 1 for a failure, 2 for arguments that make no
command.
-/

namespace Trellis

inductive Command where
  /-- Writes the visualization of a specification to a file or to standard output. -/
  | compile (file : String) (output : Option String) (compact verbose : Bool)
  /-- Only tells whether a specification compiles. -/
  | validate (file : String)
  | version
deriving DecidableEq, Repr, Inhabited

namespace Command

/-- Options of a command as far as they have been read. -/
structure Options where
  file : Option String
  output : Option String
  compact : Bool
  verbose : Bool
deriving DecidableEq, Repr

namespace Options

def none : Options := ⟨Option.none, Option.none, false, false⟩

/-- The one file, which is not without a name. -/
def withFile? (o : Options) (file : String) : Option Options :=
  if o.file.isSome || file.isEmpty then .none else some { o with file := some file }

def withOutput? (o : Options) (output : String) : Option Options :=
  if o.output.isSome || output.isEmpty then .none else some { o with output := some output }

def withCompact? (o : Options) : Option Options :=
  if o.compact then .none else some { o with compact := true }

def withVerbose? (o : Options) : Option Options :=
  if o.verbose then .none else some { o with verbose := true }

end Options

/-- An argument that names an option; a dash by itself stands for standard input. -/
def isOption (arg : String) : Bool := arg.startsWith "-" && arg ≠ "-"

/-- Every argument is a file. -/
def readFiles (o : Options) : List String → Option Options
  | [] => some o
  | arg :: rest => (o.withFile? arg).bind (fun o => readFiles o rest)

/-- The arguments of `compile`. Options stand anywhere, each once; what follows two dashes is no
option. -/
def readCompile (o : Options) : List String → Option Options
  | [] => some o
  | "--" :: rest => readFiles o rest
  | "--compact" :: rest => o.withCompact?.bind (fun o => readCompile o rest)
  | "--verbose" :: rest => o.withVerbose?.bind (fun o => readCompile o rest)
  | "-v" :: rest => o.withVerbose?.bind (fun o => readCompile o rest)
  | "--output" :: value :: rest =>
    if isOption value then none else (o.withOutput? value).bind (fun o => readCompile o rest)
  -- behind an equals sign even a value with a dash is a file
  | arg :: rest =>
    if arg.startsWith "--output=" then
      (o.withOutput? (arg.drop "--output=".length).toString).bind (fun o => readCompile o rest)
    else if isOption arg then none
    else (o.withFile? arg).bind (fun o => readCompile o rest)

/-- The arguments of `validate`, which has no options. -/
def readValidate (o : Options) : List String → Option Options
  | [] => some o
  | "--" :: rest => readFiles o rest
  | arg :: rest =>
    if isOption arg then none else (o.withFile? arg).bind (fun o => readValidate o rest)

/-- The command that arguments make; none if they make no command. -/
def ofArgs? : List String → Option Command
  | "compile" :: rest => do
    let o ← readCompile .none rest
    return .compile (← o.file) o.output o.compact o.verbose
  | "validate" :: rest => do
    let o ← readValidate .none rest
    return .validate (← o.file)
  | arg :: _ => if arg = "--version" || arg.startsWith "-V" then some version else none
  | [] => none

def usage : String :=
  "usage: vlcompile compile FILE [--output FILE] [--compact] [-v]\n" ++
  "       vlcompile validate FILE\n" ++
  "       vlcompile --version"

/-- What a command line is run in. -/
structure Terminal (m : Type → Type) where
  inputText : m (Option String)
  fileText : String → m (Option String)
  /-- Tells whether the text was written. -/
  save : String → String → m Bool
  print : String → m Unit
  /-- Prints a line beside the output. -/
  note : String → m Unit

/-- Whether a path is a lone dash, slashes behind it aside. -/
def isStandardInput (path : String) : Bool :=
  match path.splitOn "/" with
  | first :: rest => first = "-" && rest.all (fun part => part.isEmpty || part = ".")
  | [] => false

section
variable {m : Type → Type} [Monad m] (t : Terminal m)

/-- Ends a run with an error. -/
def fail (message : String) : m Nat := do
  t.note ("Error: " ++ message)
  return 1

/-- Reads a specification and goes on with it. -/
def withText (file : String) (next : String → m Nat) : m Nat := do
  if isStandardInput file then
    match ← t.inputText with
    | some text => next text
    | none => fail t "Failed to read specification from stdin"
  else
    match ← t.fileText file with
    | some text => next text
    | none => fail t ("Failed to read file " ++ file)

/-- Compiles a text, prints what was reported, and goes on with the result. -/
def withCompiled (text failure : String) (next : Compiled → m Nat) : m Nat := do
  match compileText text with
  | .ok c =>
    c.diagnostics.forM (fun d => t.note ("warning: " ++ d.message))
    next c
  | .error e => fail t (failure ++ "\n\nCaused by:\n    " ++ e.message)

def runCompile (file : String) (output : Option String) (isCompact verbose : Bool) : m Nat := do
  if verbose then t.note ("Compiling specification: " ++ file)
  withText t file (fun text => withCompiled t text "Failed to compile specification" (fun c => do
    let json := c.visualization.toJson
    let text := if isCompact then json.compact else json.pretty
    match output with
    | none =>
      t.print (text ++ "\n")
      return 0
    | some path =>
      if ← t.save path text then
        if verbose then t.note ("Vega JSON written to: " ++ path)
        return 0
      else fail t ("Failed to write to output file " ++ path)))

def runValidate (file : String) : m Nat :=
  withText t file (fun text => withCompiled t text "Specification does not compile" (fun c => do
    t.print (if c.diagnostics.isEmpty then "OK\n"
      else "OK with " ++ toString c.diagnostics.length ++ " warning(s)\n")
    return 0))

/-- Runs a command. -/
def run : Command → m Nat
  | compile file output isCompact verbose => runCompile t file output isCompact verbose
  | validate file => runValidate t file
  | version => do
    t.print "vlcompile 0.1.0\n"
    return 0

/-- Runs the command that arguments make, or tells how to use it. -/
def runArgs (args : List String) : m Nat :=
  match ofArgs? args with
  | some c => run t c
  | none => do
    t.note usage
    return 2

end

end Command
end Trellis
