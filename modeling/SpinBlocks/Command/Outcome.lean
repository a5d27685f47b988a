import SpinBlocks.Command.Folder
import SpinBlocks.Command.Help
import SpinBlocks.Object.Parse
import SpinBlocks.Reindent
import SpinBlocks.Text

namespace SpinBlocks.Command

/-! What a command prints, and its exit code: 0 if all went well, 1 for a fault
in the source, 2 for a mistake in the arguments, 3 for a file that cannot be
read, and 101 if it breaks off. -/

/-- How a command ends. One that breaks off has a report to give that cannot be set
out; what it printed before stays printed. -/
inductive Outcome where
  | ended (code : Nat) (stdout stderr : String)
  | brokenOff (stdout : String)
deriving Repr, DecidableEq

namespace Outcome

def code : Outcome → Nat
  | ended code _ _ => code
  | brokenOff _ => 101

def stdout : Outcome → String
  | ended _ stdout _ => stdout
  | brokenOff stdout => stdout

/-- What a command says about how it went. What is said when it breaks off is not its
own. -/
def stderr? : Outcome → Option String
  | ended _ _ stderr => some stderr
  | brokenOff _ => none

/-- Ends with the report of an error, behind what is printed already. -/
def ofError (error : ParseError) (path source printed : String) : Outcome :=
  match error.diagnostic.render? source (some (displayName path)) with
  | some report => ended 1 printed report
  | none => brokenOff printed

end Outcome

/-- One line of a listing: region, kind, line and column from one, and the text,
which is indented along with the tokens. -/
def listingLine (token : Token) (depth : Nat) : String :=
  Text.padRight 3 token.region.abbreviation ++ " " ++
  Text.padRight 16 token.kind.name ++ " (" ++
  Text.padLeft 4 (token.line + 1).repr ++ ", " ++
  Text.padLeft 4 (token.column + 1).repr ++ "): " ++
  Text.blanks (2 * depth) ++
  "'" ++ String.ofList (Text.escape token.text.toList) ++ "'\n"

/-- The lines for some tokens, up to the first fault, and that fault. -/
def listing (depth : Nat) : List Token → List String × Option ParseError
  | [] => ([], none)
  | token :: rest =>
      let here := if token.kind = .dedent then depth - 1 else depth
      let line := listingLine token here
      match token.fault? with
      | some error => ([line], some error)
      | none =>
          let (lines, fault?) := listing (if token.kind = .indent then here + 1 else here) rest
          (line :: lines, fault?)

/-- Lists the tokens of a file. A faulty one is still listed. -/
def listTokens (path source : String) : Outcome :=
  let (lines, fault?) := listing 0 (tokens source)
  match fault? with
  | some error => .ofError error path source (String.join lines)
  | none => .ended 0 (String.join lines) ""

def blockLines (source : String) (block : Block) : List String :=
  let location := Location.ofOffset source.toList block.span.start
  (block.kind.spelling ++ " (line " ++ location.line.repr ++ ")\n") ::
    block.declarations.map fun declaration =>
      "  " ++ declaration.render ++ " (" ++ declaration.value.value.repr ++ ")\n"

def listBlocks (path source : String) : Outcome :=
  match Object.parse source with
  | .ok object => .ended 0 (String.join (object.blocks.flatMap (blockLines source))) ""
  | .error error => .ofError error path source ""

def printReindented (path source : String) : Outcome :=
  match reindent source with
  | .ok text => .ended 0 text ""
  | .error error => .ofError error path source ""

def Action.perform (action : Action) (path source : String) : Outcome :=
  match action with
  | .tokens => listTokens path source
  | .parse => listBlocks path source
  | .fmt => printReindented path source

/-- Performs an action on what reading the file at `path` gave. -/
def Action.run (action : Action) (path : String) (content : Except ReadFailure String) : Outcome :=
  match content with
  | .ok source => action.perform path source
  | .error failure =>
      .ended 3 "" ("Error: Cannot read " ++ path ++ ": " ++ failure.reason ++ "\n")

/-- What a command line does in a folder. -/
def run (arguments : List String) (folder : Folder) : Outcome :=
  match Request.ofArguments arguments with
  | .run action path _ => action.run path (folder.read path)
  | .version => .ended 0 (commandName ++ " " ++ version ++ "\n") ""
  | .help topic => .ended 0 topic.page.render ""
  | .mistake => .ended 2 "" summaryPage.usage

end SpinBlocks.Command
