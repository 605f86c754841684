/-!
# The default name of the output file

The output goes beside the first source file, with the extension replaced by
`.bin`.  The extension starts at the last dot of the last component; dots at
the start of that component belong to its name.
-/

namespace WordMachine

namespace Command

/-- The last component of a name, and what stands in front of it. -/
def splitComponent (name : List Char) : List Char × List Char :=
  let backwards := name.reverse
  ((backwards.dropWhile (fun character => character != '/')).reverse,
    (backwards.takeWhile (fun character => character != '/')).reverse)

/-- The characters in front of the last dot, if there is a dot. -/
def beforeLastDot? (characters : List Char) : Option (List Char) :=
  match characters.reverse.dropWhile (fun character => character != '.') with
  | [] => none
  | _ :: front => some front.reverse

/-- A component without its extension. -/
def dropExtension (component : List Char) : List Char :=
  let dots := component.takeWhile (fun character => character == '.')
  match beforeLastDot? (component.dropWhile (fun character => character == '.')) with
  | none => component
  | some stem => dots ++ stem

/-- The name of the output file for a first source file. -/
def defaultOutput (infile : String) : String :=
  let (directory, component) := splitComponent infile.toList
  String.ofList (directory ++ dropExtension component ++ ".bin".toList)

end Command

end WordMachine
