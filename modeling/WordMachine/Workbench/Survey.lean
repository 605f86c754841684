import WordMachine.Image
import WordMachine.Token

/-!
# The first pass

The first pass reads source lines.  Definitions and the entry point take the
address of the next retained token, so that every address is fixed by the
number of retained tokens before it, before any word is emitted.  Each line
that is not blank is recorded with the addresses of its tokens.
-/

namespace WordMachine

/-- A program being assembled: the retained tokens and the image under construction. -/
structure Workbench where
  tokens : TokenStream
  image : Image

namespace Workbench

/-- The workbench for an image of the given capacity, without any label. -/
def blank (capacity : Int) : Workbench :=
  ⟨TokenStream.empty codeStart, Image.blank capacity⟩

/-- The address of the next retained token. -/
def nextAddress (bench : Workbench) : Int :=
  bench.tokens.nextAddress

/-- Bind a label. -/
def register (bench : Workbench) (spelling : String) (address : Int) : Workbench :=
  { bench with image := { bench.image with labels := bench.image.labels.register spelling address } }

/-- Record a reading of a source line. -/
def record (bench : Workbench) (entry : LineRecord) : Workbench :=
  { bench with image := { bench.image with lines := bench.image.lines.record entry } }

/-- The workbench that a load starts from: a blank image that knows the registers. -/
def initial (capacity : Int) : Workbench :=
  ⟨TokenStream.empty codeStart, { Image.blank capacity with labels := .withRegisters }⟩

/-- Take in one raw token. -/
def absorb (bench : Workbench) (token : String) : Workbench :=
  match Token.role token with
  | .definition => bench.register token bench.nextAddress
  | .entry => { bench with image := { bench.image with entry := bench.tokens.nextAddress } }
  | .retained => { bench with tokens := bench.tokens.append token }

/-- Take in the tokens of a line. -/
def tokenize (bench : Workbench) (line : List Char) : Workbench :=
  (Token.raw line).foldl absorb bench

/-- Whether a line has no character that is not blank. -/
def isBlankLine (line : List Char) : Bool :=
  line.all Text.isBlank

/--
Take in a numbered line.  The records of the lines read so far are collected
beside the workbench.
-/
def surveyLine (filename : String) (surveyed : Workbench × Array LineRecord)
    (numbered : List Char × Nat) : Workbench × Array LineRecord :=
  if isBlankLine numbered.1 then
    surveyed
  else
    let (bench, entries) := surveyed
    let start := bench.nextAddress
    let bench := bench.tokenize numbered.1
    let stop := bench.nextAddress
    (bench, entries.push ⟨⟨filename, numbered.2⟩, ⟨start, stop⟩⟩)

/-- Take in the text of a source file and record its lines. -/
def survey (bench : Workbench) (filename : String) (text : List Char) : Workbench :=
  let (bench, entries) := ((Text.lines text).zipIdx 1).foldl (surveyLine filename) (bench, #[])
  { bench with
    image := { bench.image with lines := bench.image.lines.recordAll entries.toList } }

end Workbench

end WordMachine
