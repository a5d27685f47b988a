namespace SpinBlocks

/-! A source file is a sequence of blocks, and each block opens a region.
Methods, whether private or public, share one. -/

/-- The part of a file that a token belongs to. -/
inductive Region where
  | outside
  | constants
  | data
  | objects
  | methods
  | variables
deriving Repr, DecidableEq

namespace Region

def all : List Region := [.outside, .constants, .data, .objects, .methods, .variables]

def name : Region → String
  | .outside => "DEFAULT"
  | .constants => "CONSTANT"
  | .data => "DATA"
  | .objects => "OBJECT"
  | .methods => "FUNCTION"
  | .variables => "VARIABLE"

def abbreviation (region : Region) : String :=
  String.ofList (region.name.toList.take 3)

end Region

inductive BlockKind where
  | con
  | dat
  | obj
  | pri
  | pub
  | var
deriving Repr, DecidableEq

namespace BlockKind

def all : List BlockKind := [.con, .dat, .obj, .pri, .pub, .var]

def spelling : BlockKind → String
  | .con => "CON"
  | .dat => "DAT"
  | .obj => "OBJ"
  | .pri => "PRI"
  | .pub => "PUB"
  | .var => "VAR"

def region : BlockKind → Region
  | .con => .constants
  | .dat => .data
  | .obj => .objects
  | .pri => .methods
  | .pub => .methods
  | .var => .variables

end BlockKind

/-! The reserved words.

Six of them open blocks. The others mean nothing to the front end beyond being
reserved, so they are told apart by their spelling alone, which has to be one
of `vocabulary`.
-/

namespace Vocabulary

def namedValues : List String :=
  ["TRUE", "FALSE", "POSX", "NEGX", "PI", "RCFAST", "RCSLOW", "XINPUT", "XTAL1", "XTAL2",
   "XTAL3", "PLL1X", "PLL2X", "PLL4X", "PLL8X", "PLL16X", "RESULT"]

def flowControl : List String :=
  ["ABORT", "CASE", "IF", "IFNOT", "ELSEIF", "ELSE", "NEXT", "QUIT", "REPEAT", "FROM", "TO",
   "STEP", "WHILE", "UNTIL", "RETURN"]

def memoryAccess : List String :=
  ["BYTE", "WORD", "LONG", "BYTEFILL", "WORDFILL", "LONGFILL", "BYTEMOVE", "WORDMOVE",
   "LONGMOVE", "LOOKUP", "LOOKUPZ", "LOOKDOWN", "LOOKDOWNZ", "STRSIZE", "STRCOMP"]

def directives : List String :=
  ["STRING", "CONSTANT", "FLOAT", "ROUND", "TRUNC", "FILE"]

def locks : List String :=
  ["LOCKNEW", "LOCKRET", "LOCKCLR", "LOCKSET"]

def chipSetup : List String :=
  ["CHIPVER", "CLKMODE", "_CLKMODE", "CLKFREQ", "_CLKFREQ", "CLKSET", "_XINFREQ", "_STACK",
   "_FREE"]

def registers : List String :=
  ["CNT", "CTRA", "CTRB", "DIRA", "DIRB", "INA", "INB", "OUTA", "OUTB", "FRQA", "FRQB", "PHSA",
   "PHSB", "VCFG", "VSCL", "PAR", "SPR"]

def processControl : List String :=
  ["WAITCNT", "WAITPEQ", "WAITPNE", "WAITVID", "COGID", "COGNEW", "COGINIT", "COGSTOP",
   "REBOOT"]

def logic : List String :=
  ["NOT", "AND", "OR"]

end Vocabulary

open Vocabulary in
/-- The reserved words that open no block, in upper case. -/
def vocabulary : List String :=
  namedValues ++ flowControl ++ memoryAccess ++ directives ++ locks ++ chipSetup ++ registers ++
    processControl ++ logic

inductive Keyword where
  | block (kind : BlockKind)
  | word (spelling : String) (reserved : spelling ∈ vocabulary)
deriving Repr, DecidableEq

namespace Keyword

def spelling : Keyword → String
  | .block kind => kind.spelling
  | .word spelling _ => spelling

/-- The keyword that is spelled exactly like `text`. -/
def ofSpelling? (text : String) : Option Keyword :=
  match BlockKind.all.find? (·.spelling == text) with
  | some kind => some (.block kind)
  | none => if reserved : text ∈ vocabulary then some (.word text reserved) else none

def region? : Keyword → Option Region
  | .block kind => some kind.region
  | .word _ _ => none

def isBlock : Keyword → Bool
  | .block _ => true
  | .word _ _ => false

end Keyword

end SpinBlocks
