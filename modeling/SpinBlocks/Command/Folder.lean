namespace SpinBlocks.Command

/-! The files a command can see: those of the folder it runs in. -/

inductive ReadFailure where
  | notFound
  | isFolder
  | notAFolder
  | nameTooLong
  | notText
deriving Repr, DecidableEq

def ReadFailure.reason : ReadFailure → String
  | .notFound => "No such file or directory (os error 2)"
  | .isFolder => "Is a directory (os error 21)"
  | .notAFolder => "Not a directory (os error 20)"
  | .nameTooLong => "File name too long (os error 36)"
  | .notText => "stream did not contain valid UTF-8"

/-- The text in a file, which has to be UTF-8. -/
def decode (bytes : ByteArray) : Except ReadFailure String :=
  match String.fromUTF8? bytes with
  | some text => .ok text
  | none => .error .notText

structure File where
  name : String
  content : ByteArray

structure Folder where
  files : List File

def pathParts (path : String) : List String :=
  (path.splitOn "/").filter fun part => part != "" && part != "."

/-- The last part of a path, under which reports name the file. -/
def displayName (path : String) : String :=
  match (pathParts path).getLast? with
  | some name => if name = ".." then "<input>" else name
  | none => "<input>"

def nameLimit : Nat := 255

def pathLimit : Nat := 4095

/-- What a path has led to so far. Beyond the folder there are other folders only,
and nothing in them has a name. -/
inductive Place where
  | home
  | beyond
  | file (content : ByteArray)

def Place.start (path : String) : Place :=
  if path.startsWith "/" then .beyond else .home

namespace Folder

def file? (folder : Folder) (name : String) : Option File :=
  folder.files.find? (·.name == name)

/-- What has the given name at a place. Only the folder itself has named files, and
a name that no file could have is refused before it is looked for. -/
def lookup (folder : Folder) (place : Place) (name : String) : Except ReadFailure Place :=
  if nameLimit < name.utf8ByteSize then .error .nameTooLong
  else
    match place, folder.file? name with
    | .home, some file => .ok (.file file.content)
    | _, _ => .error .notFound

/-- Follows one part of a path. Nothing leads on from a file, not even a part that
stays where it is. -/
def follow (folder : Folder) (place : Place) (part : String) : Except ReadFailure Place :=
  match place with
  | .file _ => .error .notAFolder
  | .home | .beyond =>
      if part = "" || part = "." then .ok place
      else if part = ".." then .ok .beyond
      else folder.lookup place part

/-- What the parts of a path lead to, followed from the left up to the first one that
leads nowhere. -/
def walk (folder : Folder) (place : Place) : List String → Except ReadFailure Place
  | [] => .ok place
  | part :: rest =>
      match folder.follow place part with
      | .ok next => folder.walk next rest
      | .error failure => .error failure

/-- The text under a path, which has to lead to a file. -/
def read (folder : Folder) (path : String) : Except ReadFailure String :=
  if pathLimit < path.utf8ByteSize then .error .nameTooLong
  else
    match folder.walk (.start path) (path.splitOn "/") with
    | .ok (.file content) => decode content
    | .ok .home | .ok .beyond => .error .isFolder
    | .error failure => .error failure

end Folder

end SpinBlocks.Command
