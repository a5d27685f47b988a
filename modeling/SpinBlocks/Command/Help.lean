import SpinBlocks.Command.Request
import SpinBlocks.Text

namespace SpinBlocks.Command

/-! What the command says about itself: its name, its version, and a page of help
for every topic. -/

def productName : String := "Lame"

def commandName : String := "lame"

def version : String := "0.1.0"

structure Entry where
  term : String
  meaning : String
deriving Repr, DecidableEq

/-- Entries on a line each. The meanings stand below each other, two blanks behind
the widest term. -/
def Entry.columns (entries : List Entry) : String :=
  let width := (entries.map (·.term.length)).foldl max 0
  String.join (entries.map fun entry =>
    "  " ++ Text.padRight width entry.term ++ "  " ++ entry.meaning ++ "\n")

/-- Entries with the meaning below the term, and an empty line between two of them. -/
def Entry.paragraphs (entries : List Entry) : String :=
  "\n".intercalate (entries.map fun entry =>
    "  " ++ entry.term ++ "\n" ++ Text.blanks 10 ++ entry.meaning ++ "\n")

structure Section where
  title : String
  body : String
deriving Repr, DecidableEq

def Section.render (part : Section) : String :=
  "\n" ++ part.title ++ ":\n" ++ part.body

/-- A page: what its topic is for, how it is called, and its sections. -/
structure Page where
  purpose : String
  call : String
  sections : List Section
deriving Repr, DecidableEq

def Page.usage (page : Page) : String :=
  "Usage: " ++ page.call ++ "\n"

def Page.render (page : Page) : String :=
  page.purpose ++ "\n\n" ++ page.usage ++ String.join (page.sections.map Section.render)

def Action.purpose : Action → String
  | .tokens => "Print one line per token: region, kind, line/column and literal"
  | .parse => "Parse the file and print its blocks and constants"
  | .fmt => "Print the file with PRI/PUB bodies re-indented"

def Action.verb : Action → String
  | .tokens => "tokenize"
  | .parse => "parse"
  | .fmt => "format"

def helpPurpose : String := "Print this message or the help of the given subcommand(s)"

def verboseEntry : Entry := ⟨"-v, --verbose", "Enable verbose output"⟩

/-- The option for help, with a hint at the other page, if there is one. -/
def helpEntry (hint : String) : Entry := ⟨"-h, --help", "Print help" ++ hint⟩

def versionEntry : Entry := ⟨"-V, --version", "Print version"⟩

/-- How the command is called, and what can stand for the name of an action. -/
def commandPage (purpose options : String) : Page where
  purpose := purpose
  call := commandName ++ " [OPTIONS] <COMMAND>"
  sections :=
    [ ⟨"Commands", Entry.columns
        (Action.all.map (fun action => ⟨action.name, action.purpose⟩) ++ [⟨"help", helpPurpose⟩])⟩,
      ⟨"Options", options⟩ ]

def summaryPage : Page :=
  commandPage "Tokenize and parse CON/DAT/OBJ/PRI/PUB/VAR source files"
    (Entry.columns [verboseEntry, helpEntry " (see more with '--help')", versionEntry])

/-- What the command is for, with examples, and with an empty line at the end. -/
def manualPurpose : String :=
  "Lame reads source files made of CON, DAT, OBJ, PRI, PUB and VAR blocks and\n" ++
  "prints what the front end sees in them.\n" ++
  "\n" ++
  "Example usage:\n" ++
  "  lame tokens blink.spin\n" ++
  "  lame parse blink.spin\n" ++
  "  lame fmt blink.spin > formatted.spin\n" ++
  "  lame --verbose tokens blink.spin\n" ++
  "\n" ++
  "Set RUST_LOG (e.g. RUST_LOG=lame=trace) to control log output.\n"

def manualPage : Page :=
  commandPage manualPurpose
    (Entry.paragraphs [verboseEntry, helpEntry " (see a summary with '-h')", versionEntry])

def Action.page (action : Action) : Page where
  purpose := action.purpose
  call := commandName ++ " " ++ action.name ++ " [OPTIONS] <FILE>"
  sections :=
    [ ⟨"Arguments", Entry.columns [⟨"<FILE>", "Source file to " ++ action.verb⟩]⟩,
      ⟨"Options", Entry.columns [verboseEntry, helpEntry ""]⟩ ]

def helpPage : Page where
  purpose := helpPurpose
  call := commandName ++ " help [COMMAND]..."
  sections :=
    [ ⟨"Arguments", Entry.columns [⟨"[COMMAND]...", "Print help for the subcommand(s)"⟩]⟩ ]

def Topic.page : Topic → Page
  | .summary => summaryPage
  | .manual => manualPage
  | .action chosen => chosen.page
  | .help => helpPage

end SpinBlocks.Command
