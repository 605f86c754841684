import WordMachine.Text.DecimalDigit

/-!
# Arguments of the command

The command takes one or more source files and a few switches.  Every switch
has a long spelling behind two dashes, which may be shortened as long as it
stays unambiguous; some have a short one behind a single dash, and short
switches may share one dash.  What is attached to a spelling may stand behind
`=`.  The only switch with a value is the output file; its value is attached
or is the next argument.  Source files stand together, and `--` ends the
switches.
-/

namespace WordMachine

namespace Command

/-- The switches of the command. -/
inductive Switch where
  | help
  | outfile
  | verbose
  | dumpLabels
  | disasm
  | noWarnings
deriving DecidableEq

/-- Whether a switch has a value. -/
def Switch.takesValue : Switch → Bool
  | .outfile => true
  | _ => false

/-- The long spellings, without their dashes. -/
def longNames : List (String × Switch) :=
  [ ("help", .help), ("outfile", .outfile), ("verbose", .verbose),
    ("dump-labels", .dumpLabels), ("disasm", .disasm), ("no-warnings", .noWarnings) ]

/-- The switch with a short spelling. -/
def shortSwitch? : Char → Option Switch
  | 'h' => some .help
  | 'o' => some .outfile
  | 'v' => some .verbose
  | 'W' => some .noWarnings
  | _ => none

/-- What the arguments ask for. -/
structure Settings where
  infiles : List String
  /-- The name of the output file; empty means that the default is used. -/
  outfile : String
  verbose : Bool
  dumpLabels : Bool
  disasm : Bool
  noWarnings : Bool
deriving DecidableEq

/-- The settings without any argument. -/
def Settings.default : Settings := ⟨[], "", false, false, false, false⟩

/-- Why the command stops before it starts. -/
inductive Stop where
  | help
  | usage
deriving DecidableEq

/-- The exit code of a command that stops before it starts. -/
def Stop.exitCode : Stop → Nat
  | .help => 0
  | .usage => 2

/-! ## Marking arguments -/

/-- What a single argument is. -/
inductive Mark where
  /-- A source file or a value. -/
  | plain (text : String)
  /-- The end of the switches. -/
  | separator
  /-- A switch behind a single dash, with the characters attached to its letter. -/
  | short (switch : Switch) (attached? : Option (List Char))
  /-- A switch behind two dashes, with the characters behind `=`. -/
  | long (switch : Switch) (attached? : Option (List Char))
  /-- A switch that does not exist. -/
  | unknown
deriving DecidableEq

/-- Split at the first `=`. -/
def splitEquals (characters : List Char) : List Char × Option (List Char) :=
  match characters.dropWhile (fun character => character != '=') with
  | [] => (characters, none)
  | _ :: value => (characters.takeWhile (fun character => character != '='), some value)

/-- What is attached to the first letter behind a single dash, without one leading `=`. -/
def attachedToLetter? : List Char → Option (List Char)
  | [] => none
  | '=' :: tail => some tail
  | tail => some tail

/-- The switches that a long spelling, possibly shortened, may mean. -/
def longCandidates (name : List Char) : List Switch :=
  match longNames.find? (fun entry => entry.1.toList == name) with
  | some entry => [entry.2]
  | none => (longNames.filter (fun entry => name.isPrefixOf entry.1.toList)).map Prod.snd

/-- Whether the characters behind a dash make it look like a negative number. -/
def looksNumeric (characters : List Char) : Bool :=
  let body := if characters.getLast? = some '\n' then characters.dropLast else characters
  match body.dropWhile Text.isDigit with
  | [] => !body.isEmpty
  | '.' :: fraction => !fraction.isEmpty && fraction.all Text.isDigit
  | _ => false

/-- The mark of an argument that looks like a switch but is none. -/
def markUnmatched (text : String) (tail : List Char) : Mark :=
  if looksNumeric tail || tail.contains ' ' then .plain text else .unknown

/-- Mark an argument in front of the separator. -/
def markArgument (text : String) : Except Stop Mark :=
  match text.toList with
  | '-' :: '-' :: tail =>
      let (name, attached?) := splitEquals tail
      match longCandidates name with
      | [switch] => .ok (.long switch attached?)
      | [] => .ok (markUnmatched text ('-' :: tail))
      | _ => .error .usage
  | '-' :: letter :: tail =>
      match shortSwitch? letter with
      | some switch => .ok (.short switch (attachedToLetter? tail))
      | none => .ok (markUnmatched text (letter :: tail))
  | _ => .ok (.plain text)

/-- Mark all arguments. -/
def markArguments : List String → Except Stop (List Mark)
  | [] => .ok []
  | text :: rest =>
      if text = "--" then
        .ok (.separator :: rest.map .plain)
      else do
        let mark ← markArgument text
        let marks ← markArguments rest
        return mark :: marks

/-! ## Taking arguments in -/

/-- How a switch argument ends. -/
inductive Ending where
  /-- Nothing is left to do. -/
  | complete
  /-- The output file is attached. -/
  | value (text : String)
  /-- The output file is the next argument. -/
  | awaiting
deriving DecidableEq

/-- The switches without value in one argument, and how the argument ends. -/
structure Cluster where
  flags : List Switch
  ending : Ending
deriving DecidableEq

/-- A switch without attached characters. -/
def bareSwitch (flags : List Switch) (switch : Switch) : Cluster :=
  if switch.takesValue then ⟨flags, .awaiting⟩ else ⟨flags ++ [switch], .complete⟩

/-- The output file that is attached to its switch; `--` stands for none. -/
def attachedValue (characters : List Char) : String :=
  if characters = ['-', '-'] then "" else String.ofList characters

/--
The switches behind a single dash: one switch, and the letters that follow.
The letters behind a switch without value are switches themselves; those
behind the output file are its name.
-/
def letterCluster (flags : List Switch) (switch : Switch) : List Char → Except Stop Cluster
  | [] => .ok (bareSwitch flags switch)
  | letter :: tail =>
      if switch.takesValue then
        .ok ⟨flags, .value (attachedValue (letter :: tail))⟩
      else
        match shortSwitch? letter with
        | none => .error .usage
        | some next => letterCluster (flags ++ [switch]) next tail

/-- A switch with an attached value, which only the output file has. -/
def valueCluster (switch : Switch) (value : List Char) : Except Stop Cluster :=
  if switch.takesValue then .ok ⟨[], .value (attachedValue value)⟩ else .error .usage

/-- The switches behind a single dash.  Nothing behind `=` is an empty value. -/
def shortCluster (switch : Switch) : Option (List Char) → Except Stop Cluster
  | none => .ok (bareSwitch [] switch)
  | some [] => valueCluster switch []
  | some letters => letterCluster [] switch letters

/-- The switch behind two dashes. -/
def longCluster (switch : Switch) : Option (List Char) → Except Stop Cluster
  | none => .ok (bareSwitch [] switch)
  | some value => valueCluster switch value

/-- Where the source files stand among the arguments taken in so far. -/
inductive Phase where
  | before
  | within
  | after
deriving DecidableEq

/-- The arguments taken in so far. -/
structure Progress where
  settings : Settings
  phase : Phase
  /-- Whether some argument has no meaning. -/
  stray : Bool
  /-- The flags in front of an output file that has to be the next argument. -/
  waiting? : Option (List Switch)
deriving DecidableEq

namespace Progress

/-- Nothing taken in. -/
def start : Progress := ⟨Settings.default, .before, false, none⟩

/-- Take in a source file. -/
def addFile (progress : Progress) (name : String) : Progress :=
  match progress.phase with
  | .after => { progress with stray := true }
  | _ =>
      { progress with
        phase := .within
        settings := { progress.settings with infiles := progress.settings.infiles ++ [name] } }

/-- Take in the separator, which may stand among the source files but not apart from them. -/
def addSeparator (progress : Progress) : Progress :=
  match progress.phase with
  | .after => { progress with stray := true }
  | _ => progress

/-- A switch ends the row of source files. -/
def endFiles (progress : Progress) : Progress :=
  match progress.phase with
  | .within => { progress with phase := .after }
  | _ => progress

/-- Note an argument without meaning. -/
def addStray (progress : Progress) : Progress :=
  { progress with stray := true }

/-- Set the output file. -/
def setOutfile (progress : Progress) (name : String) : Progress :=
  { progress with settings := { progress.settings with outfile := name } }

/-- Set a switch without value. -/
def setFlag (progress : Progress) : Switch → Except Stop Progress
  | .help => .error .help
  | .outfile => .ok progress
  | .verbose => .ok { progress with settings := { progress.settings with verbose := true } }
  | .dumpLabels => .ok { progress with settings := { progress.settings with dumpLabels := true } }
  | .disasm => .ok { progress with settings := { progress.settings with disasm := true } }
  | .noWarnings => .ok { progress with settings := { progress.settings with noWarnings := true } }

/-- Set switches from left to right. -/
def setFlags (progress : Progress) : List Switch → Except Stop Progress
  | [] => .ok progress
  | flag :: rest =>
      match progress.setFlag flag with
      | .error stop => .error stop
      | .ok next => setFlags next rest

end Progress

/-- Take in the switches of one argument. -/
def takeCluster (progress : Progress) (cluster : Cluster) : Except Stop Progress :=
  match cluster.ending with
  | .awaiting => .ok { progress with waiting? := some cluster.flags }
  | .complete => progress.setFlags cluster.flags
  | .value text => (progress.setFlags cluster.flags).map (fun next => next.setOutfile text)

/-- Take in an argument that is not a value. -/
def takeFree (progress : Progress) : Mark → Except Stop Progress
  | .plain text => .ok (progress.addFile text)
  | .separator => .ok progress.addSeparator
  | .unknown => .ok progress.endFiles.addStray
  | .short switch attached? => do
      let cluster ← shortCluster switch attached?
      takeCluster progress.endFiles cluster
  | .long switch attached? => do
      let cluster ← longCluster switch attached?
      takeCluster progress.endFiles cluster

/-- Take in an argument that has to be the output file. -/
def takeValue (progress : Progress) (flags : List Switch) : Mark → Except Stop Progress
  | .plain text =>
      (progress.setFlags flags).map (fun next => { next.setOutfile text with waiting? := none })
  | _ => .error .usage

/-- Take in a marked argument. -/
def takeMark (progress : Progress) (mark : Mark) : Except Stop Progress :=
  match progress.waiting? with
  | none => takeFree progress mark
  | some flags => takeValue progress flags mark

/-- Take in marked arguments from left to right. -/
def takeMarks (progress : Progress) : List Mark → Except Stop Progress
  | [] => if progress.waiting?.isSome then .error .usage else .ok progress
  | mark :: rest =>
      match takeMark progress mark with
      | .error stop => .error stop
      | .ok next => takeMarks next rest

/-- The settings that the arguments ask for. -/
def parseArguments (arguments : List String) : Except Stop Settings := do
  let marks ← markArguments arguments
  let progress ← takeMarks Progress.start marks
  if progress.stray || progress.settings.infiles.isEmpty then
    .error .usage
  else
    return progress.settings

end Command

end WordMachine
