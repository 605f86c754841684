import WordMachine.FileSystem
import WordMachine.Proofs.Tables

/-!
# Writing and reading back

A name is written at one path, and every other path keeps what it held.  That
path did not hold a directory, so whoever walks along directories gets as far
as before, and the name that was written reads back what was written there.

All paths above a path that a walk reaches are directories (`IsGrounded`), so a
walk that ends at a file ends with a step to a child.
-/

namespace WordMachine

namespace FileSystem

variable {files : FileSystem} {name : String} {path : Path}

/-! ## What stands at a path -/

theorem node?_writeFile
    (files : FileSystem) (content : List UInt8) (below : path.names ≠ []) (other : Path) :
    (files.writeFile path content).node? other =
      if other = path then some (.file content) else files.node? other := by
  simp only [node?, writeFile, put, Roster.get?_insert]
  by_cases same : other = path
  · rw [same, if_neg below, if_pos rfl, if_pos rfl]
  · rw [if_neg same, if_neg same]

theorem content?_eq_some_iff {content : List UInt8} :
    files.content? path = some content ↔ files.node? path = some (.file content) := by
  simp only [content?]
  split
  case h_1 _ _ found => simp [found]
  case h_2 _ noFile =>
    simp only [reduceCtorEq, false_iff]
    exact noFile content

/-- A path holds a directory before and after a file was written elsewhere than at a directory. -/
theorem isDirectory_writeFile
    {content : List UInt8} {directory : Path} (below : path.names ≠ [])
    (free : files.node? path ≠ some .directory)
    (found : files.node? directory = some .directory) :
    (files.writeFile path content).node? directory = some .directory := by
  have elsewhere : directory ≠ path := fun same => free (same ▸ found)
  rw [node?_writeFile files content below, if_neg elsewhere, found]

/-! ## Walking along directories -/

theorem checkDirectory_bind_eq_ok_iff
    {α : Type} {next : Unit → Except FileFault α} {result : α} :
    (files.checkDirectory path >>= next) = .ok result ↔
      files.node? path = some .directory ∧ next () = .ok result := by
  simp only [checkDirectory]
  split
  case h_1 found => simp [found, bind, Except.bind]
  case h_2 _ found => simp [found, bind, Except.bind]
  case h_3 found => simp [found, bind, Except.bind]

theorem step_eq_ok_iff {component : String} {reached : Path} :
    files.step path component = .ok reached ↔
      files.node? path = some .directory ∧
        if component = "." then reached = path
        else if component = ".." then reached = path.parent
        else
          isTooLong component = false ∧ files.node? (path.child component) ≠ none ∧
            reached = path.child component := by
  rw [step, checkDirectory_bind_eq_ok_iff]
  apply and_congr_right
  intro _
  split
  · simp [eq_comm]
  · split
    · simp [eq_comm]
    · split
      case isTrue tooLong => simp [tooLong]
      case isFalse short =>
        split
        case h_1 absent => simp [absent]
        case h_2 _ present => simp [short, present, eq_comm]

theorem step_writeFile
    {content : List UInt8} {start reached : Path} {component : String}
    (below : path.names ≠ []) (free : files.node? path ≠ some .directory)
    (stepped : files.step start component = .ok reached) :
    (files.writeFile path content).step start component = .ok reached := by
  rw [step_eq_ok_iff] at stepped ⊢
  refine ⟨isDirectory_writeFile below free stepped.1, ?_⟩
  have goes := stepped.2
  split
  case isTrue stays => rwa [if_pos stays] at goes
  case isFalse notStays =>
    rw [if_neg notStays] at goes
    split
    case isTrue climbs => rwa [if_pos climbs] at goes
    case isFalse notClimbs =>
      rw [if_neg notClimbs] at goes
      refine ⟨goes.1, ?_, goes.2.2⟩
      rw [node?_writeFile files content below]
      split
      · exact Option.some_ne_none _
      · exact goes.2.1

/-- A walk that got somewhere still gets there after a file was written. -/
theorem walk_writeFile
    {content : List UInt8} (below : path.names ≠ [])
    (free : files.node? path ≠ some .directory) {start reached : Path} {names : List String}
    (walked : files.walk start names = .ok reached) :
    (files.writeFile path content).walk start names = .ok reached := by
  induction names generalizing start with
  | nil => exact walked
  | cons component rest tailHolds =>
      rw [walk] at walked ⊢
      cases stepped : files.step start component with
      | error fault =>
          rw [stepped] at walked
          cases walked
      | ok next =>
          rw [stepped] at walked
          rw [step_writeFile below free stepped]
          exact tailHolds walked

theorem walk_concat_eq_ok_iff {start reached : Path} {front : List String} {component : String} :
    files.walk start (front ++ [component]) = .ok reached ↔
      ∃ directory,
        files.walk start front = .ok directory ∧
          files.step directory component = .ok reached := by
  induction front generalizing start with
  | nil =>
      rw [List.nil_append, walk]
      cases stepped : files.step start component with
      | error fault => simp [walk, stepped]
      | ok next => simp [walk, stepped]
  | cons first rest tailHolds =>
      rw [List.cons_append, walk, walk]
      cases files.step start first with
      | error fault => simp
      | ok next => exact tailHolds

/-! ## Directories above a path -/

/-- All paths above the path are directories. -/
def IsGrounded (files : FileSystem) (path : Path) : Prop :=
  ∀ names, names <+: path.names → names ≠ path.names →
    files.node? { path with names } = some .directory

theorem isGrounded_of_names_eq_nil (top : path.names = []) : files.IsGrounded path := by
  intro names above proper
  rw [top] at above proper
  exact absurd (List.prefix_nil.mp above) proper

theorem names_parent (path : Path) : path.parent.names = path.names.dropLast := by
  rcases path with ⟨anchor, names⟩
  cases names with
  | nil =>
      cases anchor with
      | ancestor levels => rfl
      | root => rfl
  | cons first rest => rfl

theorem parent_of_names_ne_nil (below : path.names ≠ []) :
    path.parent = { path with names := path.names.dropLast } := by
  rcases path with ⟨anchor, names⟩
  cases names with
  | nil => exact absurd rfl below
  | cons first rest => rfl

theorem IsGrounded.parent (grounded : files.IsGrounded path) : files.IsGrounded path.parent := by
  by_cases top : path.names = []
  · exact isGrounded_of_names_eq_nil (by rw [names_parent, top]; rfl)
  · rw [parent_of_names_ne_nil top]
    intro names above proper
    apply grounded names (above.trans path.names.dropLast_prefix)
    rintro rfl
    exact proper (above.eq_of_length_le (by simp))

theorem IsGrounded.child
    (grounded : files.IsGrounded path) (isDirectory : files.node? path = some .directory)
    (component : String) :
    files.IsGrounded (path.child component) := by
  intro names above proper
  rcases List.prefix_concat_iff.mp above with same | inside
  · exact absurd same proper
  · by_cases whole : names = path.names
    · rw [whole]
      exact isDirectory
    · exact grounded names inside whole

theorem IsGrounded.step
    {component : String} {reached : Path} (grounded : files.IsGrounded path)
    (stepped : files.step path component = .ok reached) :
    files.IsGrounded reached := by
  rcases step_eq_ok_iff.mp stepped with ⟨isDirectory, goes⟩
  split at goes
  case isTrue =>
    rw [goes]
    exact grounded
  case isFalse =>
    split at goes
    case isTrue =>
      rw [goes]
      exact grounded.parent
    case isFalse =>
      rw [goes.2.2]
      exact grounded.child isDirectory component

theorem IsGrounded.walk
    {start reached : Path} {names : List String} (grounded : files.IsGrounded start)
    (walked : files.walk start names = .ok reached) :
    files.IsGrounded reached := by
  induction names generalizing start with
  | nil =>
      cases walked
      exact grounded
  | cons component rest tailHolds =>
      rw [FileSystem.walk] at walked
      cases stepped : files.step start component with
      | error fault =>
          rw [stepped] at walked
          cases walked
      | ok next =>
          rw [stepped] at walked
          exact tailHolds (grounded.step stepped) walked

/-- A file of this name may be written at the path, as a component of the directory. -/
structure IsWriteTarget (files : FileSystem) (name component : String)
    (directory path : Path) : Prop where
  isDirectory : files.node? directory = some .directory
  ne_dot : component ≠ "."
  ne_dots : component ≠ ".."
  open_end : endsInSlash name = false
  short : isTooLong component = false
  free : files.node? path ≠ some .directory
  path_eq : path = directory.child component

theorem childToWrite_eq_ok_iff {component : String} {directory : Path} :
    files.childToWrite directory name component = .ok path ↔
      files.IsWriteTarget name component directory path := by
  rw [childToWrite, checkDirectory_bind_eq_ok_iff]
  constructor
  · rintro ⟨isDirectory, chosen⟩
    split at chosen
    case isTrue => cases chosen
    case isFalse proper =>
      simp only [not_or, Bool.not_eq_true] at proper
      split at chosen
      case isTrue => cases chosen
      case isFalse short =>
        split at chosen
        case h_1 => cases chosen
        case h_2 free =>
          cases chosen
          exact ⟨isDirectory, proper.1, proper.2.1, proper.2.2, Bool.not_eq_true _ ▸ short, free,
            rfl⟩
  · rintro ⟨isDirectory, notDot, notDots, openEnd, short, free, rfl⟩
    refine ⟨isDirectory, ?_⟩
    simp [notDot, notDots, openEnd, short]

theorem names_child_ne_nil (directory : Path) (component : String) :
    (directory.child component).names ≠ [] := by
  simp [Path.child]

/-- A name is written in the directory that its components but the last lead to. -/
theorem pathToWrite_eq_ok_iff :
    files.pathToWrite name = .ok path ↔
      checkName name = .ok () ∧
        ∃ front component directory,
          components name = front ++ [component] ∧
            files.walk (startOf name) front = .ok directory ∧
              files.IsWriteTarget name component directory path := by
  simp only [pathToWrite]
  cases named : checkName name with
  | error fault => simp [bind, Except.bind]
  | ok _ =>
      constructor
      · intro located
        refine ⟨rfl, ?_⟩
        cases last : (components name).getLast? with
        | none =>
            rw [last] at located
            cases located
        | some component =>
            rcases List.getLast?_eq_some_iff.mp last with ⟨front, split⟩
            rw [last, split, List.dropLast_concat] at located
            cases walked : files.walk (startOf name) front with
            | error fault =>
                rw [walked] at located
                cases located
            | ok directory =>
                rw [walked] at located
                exact ⟨front, component, directory, split, walked,
                  childToWrite_eq_ok_iff.mp located⟩
      · rintro ⟨_, front, component, directory, split, walked, target⟩
        rw [split, List.getLast?_concat, List.dropLast_concat, walked]
        exact childToWrite_eq_ok_iff.mpr target

theorem names_ne_nil_of_pathToWrite (located : files.pathToWrite name = .ok path) :
    path.names ≠ [] := by
  rcases pathToWrite_eq_ok_iff.mp located with ⟨_, _, component, directory, _, _, target⟩
  rw [target.path_eq]
  exact names_child_ne_nil directory component

theorem free_of_pathToWrite (located : files.pathToWrite name = .ok path) :
    files.node? path ≠ some .directory := by
  rcases pathToWrite_eq_ok_iff.mp located with ⟨_, _, _, _, _, _, target⟩
  exact target.free

/-! ## Reading -/

/-- The name leads to the path, and may be the name of a file. -/
structure LeadsTo (files : FileSystem) (name : String) (path : Path) : Prop where
  named : checkName name = .ok ()
  walked : files.walk (startOf name) (components name) = .ok path
  open_end : endsInSlash name = false

/-- A name reads the file that it leads to. -/
theorem read_eq_ok_iff {content : List UInt8} :
    files.read name = .ok content ↔
      ∃ path, files.LeadsTo name path ∧ files.node? path = some (.file content) := by
  simp only [read]
  cases named : checkName name with
  | error fault =>
      simp only [bind, Except.bind, reduceCtorEq, false_iff]
      rintro ⟨path, leads, _⟩
      rw [leads.named] at named
      cases named
  | ok _ =>
      cases walked : files.walk (startOf name) (components name) with
      | error fault =>
          simp only [bind, Except.bind, reduceCtorEq, false_iff]
          rintro ⟨path, leads, _⟩
          rw [leads.walked] at walked
          cases walked
      | ok path =>
          simp only [bind, Except.bind]
          constructor
          · intro taken
            split at taken
            case h_1 => cases taken
            case h_2 => cases taken
            case h_3 old found =>
              split at taken
              case isTrue => cases taken
              case isFalse open_end =>
                cases taken
                exact ⟨path, ⟨named, walked, Bool.not_eq_true _ ▸ open_end⟩, found⟩
          · rintro ⟨other, leads, found⟩
            have same := leads.walked
            rw [walked, Except.ok.injEq] at same
            subst same
            simp [found, leads.open_end]

/-- Names lead where they led before a file was written. -/
theorem LeadsTo.writeFile
    {content : List UInt8} {other : Path} (leads : files.LeadsTo name other)
    (below : path.names ≠ []) (free : files.node? path ≠ some .directory) :
    (files.writeFile path content).LeadsTo name other :=
  ⟨leads.named, walk_writeFile below free leads.walked, leads.open_end⟩

/-- A name that leads to the written path reads what was written; any other reads as before. -/
theorem LeadsTo.read_writeFile
    {output : String} {other : Path} {content old : List UInt8}
    (leads : files.LeadsTo name other) (located : files.pathToWrite output = .ok path)
    (found : files.node? other = some (.file old)) :
    (files.writeFile path content).read name = .ok (if other = path then content else old) := by
  have below := names_ne_nil_of_pathToWrite located
  apply read_eq_ok_iff.mpr
  refine ⟨other, leads.writeFile below (free_of_pathToWrite located), ?_⟩
  rw [node?_writeFile files content below]
  split
  · rfl
  · exact found

/-- What was written under a name is read under it. -/
theorem read_writeFile
    (located : files.pathToWrite name = .ok path) (content : List UInt8) :
    (files.writeFile path content).read name = .ok content := by
  have below := names_ne_nil_of_pathToWrite located
  rcases pathToWrite_eq_ok_iff.mp located with
    ⟨named, front, component, directory, split, walked, target⟩
  have written : (files.writeFile path content).node? path = some (.file content) := by
    rw [node?_writeFile files content below, if_pos rfl]
  have stepped : (files.writeFile path content).step directory component = .ok path := by
    rw [step_eq_ok_iff, if_neg target.ne_dot, if_neg target.ne_dots, ← target.path_eq, written]
    exact ⟨isDirectory_writeFile below target.free target.isDirectory, target.short,
      Option.some_ne_none _, rfl⟩
  have reached :
      (files.writeFile path content).walk (startOf name) (components name) = .ok path := by
    rw [split]
    exact walk_concat_eq_ok_iff.mpr ⟨directory, walk_writeFile below target.free walked, stepped⟩
  exact read_eq_ok_iff.mpr ⟨path, ⟨named, reached, target.open_end⟩, written⟩

end FileSystem

end WordMachine
