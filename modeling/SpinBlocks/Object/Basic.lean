import SpinBlocks.Character
import SpinBlocks.Keyword
import SpinBlocks.Source

namespace SpinBlocks

/-! What a file declares.

An object is one file: a row of blocks. Only the constants are looked into; of
any other block no more is kept than where it stands.
-/

/-- A number as written, without its sigil, and its value. -/
structure Literal where
  radix : Radix
  digits : String
  value : Nat
deriving Repr, DecidableEq

def Literal.render (literal : Literal) : String :=
  literal.radix.sigil ++ literal.digits

/-- A constant. The span runs from the name to the end of the value. -/
structure Declaration where
  name : String
  value : Literal
  span : Span
deriving Repr, DecidableEq

def Declaration.render (declaration : Declaration) : String :=
  declaration.name ++ " = " ++ declaration.value.render

inductive Block where
  | constants (declarations : List Declaration) (span : Span)
  | raw (kind : BlockKind) (unread : kind ≠ .con) (span : Span)
deriving Repr, DecidableEq

namespace Block

def kind : Block → BlockKind
  | .constants _ _ => .con
  | .raw kind _ _ => kind

def region (block : Block) : Region :=
  block.kind.region

/-- From the block keyword to the end of the last thing in the block. -/
def span : Block → Span
  | .constants _ span => span
  | .raw _ _ span => span

def declarations : Block → List Declaration
  | .constants declarations _ => declarations
  | .raw _ _ _ => []

end Block

structure Object where
  blocks : List Block
deriving Repr, DecidableEq

namespace Object

def empty : Object := ⟨[]⟩

def add (object : Object) (block : Block) : Object :=
  ⟨object.blocks ++ [block]⟩

def constants (object : Object) : List Declaration :=
  object.blocks.flatMap (·.declarations)

/-- Two names are the same constant's if they differ in case only. -/
def sameName (first second : String) : Bool :=
  first.toList.map Char.toLower == second.toList.map Char.toLower

def find? (object : Object) (name : String) : Option Declaration :=
  object.constants.find? (sameName ·.name name)

end Object

end SpinBlocks
