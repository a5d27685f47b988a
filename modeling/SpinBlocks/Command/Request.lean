namespace SpinBlocks.Command

/-! What the arguments of the command line ask for.

Arguments are read from the left, and the first one that settles the matter
does: an argument that fits nowhere is a mistake, but one behind `--version` is
never looked at. `-v` may stand before or after the name of the action, once in
either place. Behind `--`, no argument is an option.
-/

inductive Action where
  | tokens
  | parse
  | fmt
deriving Repr, DecidableEq

def Action.all : List Action := [.tokens, .parse, .fmt]

def Action.name : Action → String
  | .tokens => "tokens"
  | .parse => "parse"
  | .fmt => "fmt"

def Action.ofName? (name : String) : Option Action :=
  Action.all.find? (·.name == name)

/-- What a page of help is about. There are two pages about the command as a whole,
a short and a full one. -/
inductive Topic where
  | summary
  | manual
  | action (action : Action)
  | help
deriving Repr, DecidableEq

/-- A request to run an action on a file, or one that needs no file. Being
`verbose` changes nothing that an action prints. -/
inductive Request where
  | run (action : Action) (path : String) (verbose : Bool)
  | version
  | help (topic : Topic)
  | mistake
deriving Repr, DecidableEq

/-- How an argument reads. A lone dash is a word. -/
inductive Argument where
  | separator
  | long (name : String)
  | short (letters : List Char)
  | word (text : String)
deriving Repr, DecidableEq

def Argument.ofString (text : String) : Argument :=
  match text.toList with
  | ['-', '-'] => .separator
  | '-' :: '-' :: name => .long (String.ofList name)
  | '-' :: letter :: letters => .short (letter :: letters)
  | _ => .word text

inductive Flag where
  | verbose
  | version
  | summary
  | manual
deriving Repr, DecidableEq

def Flag.ofName? : String → Option Flag
  | "verbose" => some .verbose
  | "version" => some .version
  | "help" => some .manual
  | _ => none

def Flag.ofLetter? : Char → Option Flag
  | 'v' => some .verbose
  | 'V' => some .version
  | 'h' => some .summary
  | _ => none

/-- Where a flag stands: before the name of an action, or after it. -/
inductive Level where
  | command
  | action (action : Action)
deriving Repr, DecidableEq

/-- The topic of the help asked for at a level. An action has only one page. -/
def Level.topic (level : Level) (page : Topic) : Topic :=
  match level with
  | .command => page
  | .action chosen => .action chosen

/-- Reads a flag: the verbosity that results, or the request that the flag
settles. An action has no version of its own. -/
def readFlag (level : Level) (verbose : Bool) (flag? : Option Flag) : Except Request Bool :=
  match flag? with
  | some .verbose => if verbose then .error .mistake else .ok true
  | some .version => .error (if level = .command then .version else .mistake)
  | some .summary => .error (.help (level.topic .summary))
  | some .manual => .error (.help (level.topic .manual))
  | none => .error .mistake

def readLetters (level : Level) (verbose : Bool) : List Char → Except Request Bool
  | [] => .ok verbose
  | letter :: rest =>
      match readFlag level verbose (Flag.ofLetter? letter) with
      | .error request => .error request
      | .ok verbose => readLetters level verbose rest

/-- The request for `action`, once all arguments are read. An action needs one
path, which is not empty. -/
def actionRequest (action : Action) (verbose : Bool) : List String → Request
  | [path] => if path.isEmpty then .mistake else .run action path verbose
  | _ => .mistake

/-- The arguments behind the name of an action. `path?` is the path, if it was read
already, and `outer` the verbosity asked for before the name. -/
def actionArguments (action : Action) (outer : Bool) (path? : Option String) (verbose : Bool) :
    List String → Request
  | [] => actionRequest action (outer || verbose) path?.toList
  | argument :: rest =>
      match Argument.ofString argument with
      | .separator => actionRequest action (outer || verbose) (path?.toList ++ rest)
      | .word path =>
          if path?.isSome || path.isEmpty then .mistake
          else actionArguments action outer (some path) verbose rest
      | .long name =>
          match readFlag (.action action) verbose (Flag.ofName? name) with
          | .error request => request
          | .ok verbose => actionArguments action outer path? verbose rest
      | .short letters =>
          match readLetters (.action action) verbose letters with
          | .error request => request
          | .ok verbose => actionArguments action outer path? verbose rest

/-- The arguments behind `help`, which may name one thing to explain. -/
def helpArguments : List String → Request
  | [] => .help .manual
  | [name] =>
      match Action.ofName? name with
      | some action => .help (.action action)
      | none => if name = "help" then .help .help else .mistake
  | _ => .mistake

/-- The arguments from the first one on that is not a flag read already. -/
def requestFrom (verbose : Bool) : List String → Request
  | [] => .mistake
  | argument :: rest =>
      match Argument.ofString argument with
      | .separator => .mistake
      | .word name =>
          match Action.ofName? name with
          | some action => actionArguments action verbose none false rest
          | none => if name = "help" then helpArguments rest else .mistake
      | .long name =>
          match readFlag .command verbose (Flag.ofName? name) with
          | .error request => request
          | .ok verbose => requestFrom verbose rest
      | .short letters =>
          match readLetters .command verbose letters with
          | .error request => request
          | .ok verbose => requestFrom verbose rest

def Request.ofArguments (arguments : List String) : Request :=
  requestFrom false arguments

end SpinBlocks.Command
