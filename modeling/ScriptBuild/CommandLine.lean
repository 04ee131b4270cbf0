import ScriptBuild.Configuration

/-!
# The command line

The words of a command line are read one after the other: options in their short and long forms, the
values that some of them take, and the name of one script. After `--` no word is an option.
-/

namespace ScriptBuild.CommandLine

/-- An option that takes a value. -/
inductive ValueOption where
  | output
  | includeDirectory
  | libraryDirectory
  | library
  | moduleDirectory
  | depfile
  | depfileRoot
  deriving DecidableEq, Repr

/-- An option that takes no value. -/
inductive FlagOption where
  | noDefaultModuleDirectories
  | verbose
  | debug
  | help
  deriving DecidableEq, Repr

/-- An option. -/
inductive CommandOption where
  | value (o : ValueOption)
  | flag (o : FlagOption)
  deriving DecidableEq, Repr

/-- What is wrong with a command line. -/
inductive UsageError where
  | unknownOption (text : String)
  | missingValue (o : ValueOption)
  | unwantedValue (text : String)
  | repeatedOption (o : ValueOption)
  | missingScript
  | secondScript (text : String)
  deriving DecidableEq, Repr

/-- The long name of an option. -/
def ValueOption.name : ValueOption → String
  | output => "--output"
  | includeDirectory => "--include-dir"
  | libraryDirectory => "--lib-dir"
  | library => "--lib"
  | moduleDirectory => "--module-dir"
  | depfile => "--depfile"
  | depfileRoot => "--depfile-root"

/-- The wording of a usage error. -/
def UsageError.message : UsageError → String
  | unknownOption text => s!"unexpected argument '{text}'"
  | missingValue o => s!"a value is required for '{o.name}'"
  | unwantedValue text => s!"unexpected value in '{text}'"
  | repeatedOption o => s!"the argument '{o.name}' cannot be used multiple times"
  | missingScript => "the script to compile is missing"
  | secondScript text => s!"unexpected argument '{text}'"

/-- The option of a long name. -/
def optionOfName? : String → Option CommandOption
  | "output" => some (.value .output)
  | "include-dir" => some (.value .includeDirectory)
  | "lib-dir" => some (.value .libraryDirectory)
  | "lib" => some (.value .library)
  | "module-dir" => some (.value .moduleDirectory)
  | "depfile" => some (.value .depfile)
  | "depfile-root" => some (.value .depfileRoot)
  | "no-default-module-dirs" => some (.flag .noDefaultModuleDirectories)
  | "verbose" => some (.flag .verbose)
  | "debug" => some (.flag .debug)
  | "help" => some (.flag .help)
  | _ => none

/-- The option of a letter. -/
def optionOfLetter? : Char → Option CommandOption
  | 'o' => some (.value .output)
  | 'I' => some (.value .includeDirectory)
  | 'L' => some (.value .libraryDirectory)
  | 'l' => some (.value .library)
  | 'M' => some (.value .moduleDirectory)
  | 'D' => some (.value .depfile)
  | 'P' => some (.value .depfileRoot)
  | 'v' => some (.flag .verbose)
  | 'g' => some (.flag .debug)
  | 'h' => some (.flag .help)
  | _ => none

/-- What the words read so far say. -/
structure Reading where
  configuration : Configuration := { filename := ⟨""⟩ }
  script : Option Path := none
  verbosity : Nat := 0
  help : Bool := false
  /-- The option whose value comes next. -/
  awaiting : Option ValueOption := none
  /-- The word `--` was read, so no option follows. -/
  literal : Bool := false
  deriving DecidableEq, Repr

namespace Reading

/-- The reading with the value of an option. -/
def setValue (r : Reading) (o : ValueOption) (value : String) : Except UsageError Reading :=
  let c := r.configuration
  let one (old : Option Path) (changed : Configuration) : Except UsageError Reading :=
    if old.isSome then .error (.repeatedOption o)
    else .ok { r with configuration := changed, awaiting := none }
  match o with
  | .output => one c.output { c with output := some ⟨value⟩ }
  | .depfile => one c.depfile { c with depfile := some ⟨value⟩ }
  | .depfileRoot => one c.depfileRoot { c with depfileRoot := some ⟨value⟩ }
  | .includeDirectory =>
    one none { c with includeDirectories := c.includeDirectories ++ [.ofText value] }
  | .libraryDirectory =>
    one none { c with libraryDirectories := c.libraryDirectories ++ [.ofText value] }
  | .library => one none { c with libraries := c.libraries ++ [value] }
  | .moduleDirectory => one none { c with moduleDirectories := c.moduleDirectories ++ [⟨value⟩] }

/-- The reading with an option that takes no value. -/
def setFlag (r : Reading) : FlagOption → Reading
  | .noDefaultModuleDirectories =>
    { r with configuration := { r.configuration with noDefaultModuleDirectories := true } }
  | .verbose => { r with verbosity := r.verbosity + 1 }
  | .debug => { r with configuration := { r.configuration with debug := true } }
  | .help => { r with help := true }

/-- The reading after the letters behind one dash. What follows the letter of an option with a value
is that value. -/
def letters (r : Reading) : List Char → Except UsageError Reading
  | [] => .ok r
  | c :: cs =>
    match optionOfLetter? c with
    | none => .error (.unknownOption (String.ofList ['-', c]))
    | some (.flag o) => (r.setFlag o).letters cs
    | some (.value o) =>
      match cs with
      | [] => .ok { r with awaiting := some o }
      | '=' :: value => r.setValue o (String.ofList value)
      | value => r.setValue o (String.ofList value)

/-- The reading after a long name and perhaps a value behind an equals sign. -/
def longName (r : Reading) (text : List Char) : Except UsageError Reading :=
  let name := String.ofList (text.takeWhile (· ≠ '='))
  let value := (text.dropWhile (· ≠ '=')).tail?
  match optionOfName? name, value with
  | none, _ => .error (.unknownOption ("--" ++ String.ofList text))
  | some (.flag o), none => .ok (r.setFlag o)
  | some (.flag _), some _ => .error (.unwantedValue ("--" ++ String.ofList text))
  | some (.value o), none => .ok { r with awaiting := some o }
  | some (.value o), some value => r.setValue o (String.ofList value)

/-- The reading after the name of a script. -/
def setScript (r : Reading) (word : String) : Except UsageError Reading :=
  if r.script.isSome then .error (.secondScript word) else .ok { r with script := some ⟨word⟩ }

/-- The reading after one more word. -/
def word (r : Reading) (w : String) : Except UsageError Reading :=
  match r.awaiting with
  | some o => r.setValue o w
  | none =>
    if r.literal then r.setScript w
    else match w.toList with
      | ['-', '-'] => .ok { r with literal := true }
      | '-' :: '-' :: text => r.longName text
      | '-' :: c :: text => r.letters (c :: text)
      | _ => r.setScript w

/-- The reading after more words. -/
def words (r : Reading) (ws : List String) : Except UsageError Reading :=
  ws.foldlM word r

end Reading

/-- What a command line asks for. -/
inductive Command where
  | help
  | compile (configuration : Configuration) (verbosity : Nat)
  deriving DecidableEq, Repr

/-- What a reading of all words asks for. -/
def Reading.command (r : Reading) : Except UsageError Command :=
  if r.help then .ok .help
  else match r.awaiting, r.script with
    | some o, _ => .error (.missingValue o)
    | none, none => .error .missingScript
    | none, some script => .ok (.compile { r.configuration with filename := script } r.verbosity)

/-- What the words of a command line ask for. -/
def ofWords (ws : List String) : Except UsageError Command :=
  (({} : Reading).words ws).bind Reading.command

/-- The help text. -/
def usage : String :=
  "\n".intercalate
    ["Compile a .t script to native code", "",
     "Usage: scriptc [OPTIONS] <FILE>", "",
     "Options:",
     "  -o, --output <OUT>            Output file; the extension picks object, library or executable",
     "  -I, --include-dir <DIR>       Add a C include directory",
     "  -L, --lib-dir <DIR>           Add a library search directory",
     "  -l, --lib <NAME>              Link against a library",
     "  -M, --module-dir <DIR>        Add a module search directory",
     "      --no-default-module-dirs  Do not search the built-in module directories",
     "  -D, --depfile <DEPFILE>       Write a depfile listing every module read",
     "  -P, --depfile-root <ROOT>     Make every depfile path relative to this directory",
     "  -v, --verbose                 Say what is read and loaded",
     "  -g, --debug                   Emit unoptimized code",
     "  -h, --help                    Print help"]

end ScriptBuild.CommandLine
