namespace LinProg

inductive ReadFailure where
  | notFound
  | denied
  | notADirectory
  | isDirectory
  | nameTooLong
  | notText
  | other (description : String)
  deriving Repr, DecidableEq

def ReadFailure.message : ReadFailure → String
  | notFound => "No such file or directory (os error 2)"
  | denied => "Permission denied (os error 13)"
  | notADirectory => "Not a directory (os error 20)"
  | isDirectory => "Is a directory (os error 21)"
  | nameTooLong => "File name too long (os error 36)"
  | notText => "stream did not contain valid UTF-8"
  | other description => description

def textOfBytes (bytes : ByteArray) : Except ReadFailure String :=
  match String.fromUTF8? bytes with
  | some text => .ok text
  | none => .error .notText

inductive FileTree where
  | file (bytes : ByteArray)
  | directory (entries : List (String × FileTree))

namespace FileTree

def staysPut (name : String) : Bool := name == "" || name == "."

def nameLimit : Nat := 255

/-- What lies at the end of the names, from a tree with the trees above it, the nearest first. A
name is judged only where all names before it lead to a directory. -/
def walk (above : List FileTree) : FileTree → List String → Except ReadFailure FileTree
  | tree, [] => .ok tree
  | file _, _ :: _ => .error .notADirectory
  | directory entries, name :: names =>
    if staysPut name then walk above (directory entries) names
    else if name = ".." then
      match above with
      | [] => walk [] (directory entries) names
      | parent :: above => walk above parent names
    else if nameLimit < name.utf8ByteSize then .error .nameTooLong
    else
      match entries.lookup name with
      | some tree => walk (directory entries :: above) tree names
      | none => .error .notFound

def text : FileTree → Except ReadFailure String
  | file bytes => textOfBytes bytes
  | directory _ => .error .isDirectory

end FileTree

structure FileSystem where
  root : FileTree
  workingDirectory : List String

namespace FileSystem

def pathLimit : Nat := 4095

def names (fs : FileSystem) (path : String) : List String :=
  let given := path.splitOn "/"
  if path.startsWith "/" then given else fs.workingDirectory ++ given

def read (fs : FileSystem) (path : String) : Except ReadFailure String :=
  if path.isEmpty then .error .notFound
  else if pathLimit < path.utf8ByteSize then .error .nameTooLong
  else (fs.root.walk [] (fs.names path)).bind FileTree.text

end FileSystem

end LinProg
