import WordMachine.Label
import WordMachine.SignedIndex
import WordMachine.Text.Lines

/-!
# Tokens

The raw tokens of a line are its words before the first `~`, which starts a
comment.  A token that starts with `$` defines a label and the token `entry`
sets the entry point; all others are retained.  Retained tokens are addressed
from a fixed base, one address each.
-/

namespace WordMachine

namespace Token

/-- The character that starts a comment. -/
def commentMarker : Char := '~'

/-- The token that sets the entry point. -/
def entryKeyword : String := "entry"

/-- The raw tokens of a line. -/
def raw (line : List Char) : List String :=
  Text.words (line.takeWhile (fun character => character != commentMarker))

/-- What a marked operand asks for. -/
inductive Shape where
  /-- `*name`: the word whose address is stored at the label. -/
  | reference (name : String)
  /-- `&name`: the address of the label. -/
  | address (name : String)
  /-- Any other token. -/
  | plain
deriving DecidableEq

/-- The shape of a token by its first character. -/
def shape (token : String) : Shape :=
  match token.toList with
  | '*' :: name => .reference (String.ofList name)
  | '&' :: name => .address (String.ofList name)
  | _ => .plain

/-- What a raw token does in the first pass. -/
inductive Role where
  | definition
  | entry
  | retained
deriving DecidableEq

/-- The role of a raw token. -/
def role (token : String) : Role :=
  if token.toList.head? = some Label.marker then .definition
  else if token = entryKeyword then .entry
  else .retained

end Token

/-- Retained tokens, addressed from a base. -/
structure TokenStream where
  base : Int
  tokens : Array String

namespace TokenStream

/-- The stream without tokens. -/
def empty (base : Int) : TokenStream := ⟨base, #[]⟩

/-- The address of the next token to be appended. -/
def nextAddress (stream : TokenStream) : Int :=
  stream.base + stream.tokens.size

/-- Append a token. -/
def append (stream : TokenStream) (token : String) : TokenStream :=
  { stream with tokens := stream.tokens.push token }

/-- The token at an address; addresses below the base count from the end. -/
def get? (stream : TokenStream) (address : Int) : Option String :=
  match SignedIndex.resolve? stream.tokens.size (address - stream.base) with
  | none => none
  | some position => stream.tokens[position]?

@[simp]
theorem nextAddress_append (stream : TokenStream) (token : String) :
    (stream.append token).nextAddress = stream.nextAddress + 1 := by
  simp [nextAddress, append]
  omega

end TokenStream

end WordMachine
