import ArrowLang.Text

/-!
# Files in folders

A folder holds files and folders by name. A path is followed one name at a time, and the first name
that leads nowhere decides the error: it is too long, there is nothing of that name, or it names a
file although the path goes on. A slash at the end of a path counts as going on.
-/

namespace ArrowLang

/-- Why a file cannot be read. -/
inductive FileError where
  | notFound
  | isDirectory
  | notDirectory
  | nameTooLong
  | notText
  | other (message : String)
deriving DecidableEq

def FileError.message : FileError → String
  | .notFound => "No such file or directory (os error 2)"
  | .isDirectory => "Is a directory (os error 21)"
  | .notDirectory => "Not a directory (os error 20)"
  | .nameTooLong => "File name too long (os error 36)"
  | .notText => "stream did not contain valid UTF-8"
  | .other message => message

/-- What a name stands for in a folder. -/
inductive Folder.Entry where
  | file (bytes : ByteArray)
  | folder (entries : List (String × Folder.Entry))

abbrev Folder := List (String × Folder.Entry)

namespace Folder

/-- The text that the bytes of a file encode. -/
def decode (bytes : ByteArray) : Except FileError Text :=
  match String.fromUTF8? bytes with
  | some text => .ok text.toList
  | none => .error .notText

def Entry.read : Entry → Except FileError Text
  | .file bytes => decode bytes
  | .folder _ => .error .isDirectory

/-- A name that keeps a path where it is. -/
def isStay (name : String) : Bool := name == "" || name == "."

def set (f : Folder) (name : String) (entry : Entry) : Folder :=
  (name, entry) :: f.filter (·.1 != name)

/-- Puts an entry under a list of names, with the folders that lead to it. -/
def put (f : Folder) (entry : Entry) : List String → Folder
  | [] => f
  | [name] => f.set name entry
  | name :: names =>
    let inner := match f.lookup name with
      | some (.folder entries) => entries
      | _ => []
    f.set name (.folder (put inner entry names))

/-- The folder that holds the given entries, each under its path. A folder comes before what it
holds. -/
def ofList (entries : List (String × Entry)) : Folder :=
  entries.foldl (fun f (path, entry) => f.put entry ((path.splitOn "/").filter (!isStay ·))) []

/-- Most bytes that a name has. -/
def maxNameSize : Nat := 255

/-- Most bytes that a path has. -/
def maxPathSize : Nat := 4095

end Folder

/-- Where paths start: a folder, and the folders around it from the inside out. -/
structure Place where
  here : Folder
  around : List Folder

namespace Place

/-- The folder around this one. The outermost folder is around itself. -/
def up : Place → Place
  | ⟨_, folder :: around⟩ => ⟨folder, around⟩
  | ⟨here, []⟩ => ⟨here, []⟩

def outermost (p : Place) : Place := ⟨p.around.getLastD p.here, []⟩

def enter (p : Place) (folder : Folder) : Place := ⟨folder, p.here :: p.around⟩

/-- What a list of names leads to. -/
def follow (p : Place) : List String → Except FileError Folder.Entry
  | [] => .ok (.folder p.here)
  | name :: names =>
    if Folder.isStay name then p.follow names
    else if name = ".." then p.up.follow names
    else if Folder.maxNameSize < name.utf8ByteSize then .error .nameTooLong
    else match p.here.lookup name with
      | none => .error .notFound
      | some (.folder entries) => (p.enter entries).follow names
      | some (.file bytes) => if names.isEmpty then .ok (.file bytes) else .error .notDirectory

/-- What a path leads to. One that begins with a slash starts at the outermost folder. -/
def find (p : Place) (path : String) : Except FileError Folder.Entry :=
  if path = "" then .error .notFound
  else if Folder.maxPathSize < path.utf8ByteSize then .error .nameTooLong
  else
    let start := if path.toList.head? = some '/' then p.outermost else p
    start.follow (path.splitOn "/")

/-- The text of the file that a path leads to. -/
def read (p : Place) (path : String) : Except FileError Text := do (← p.find path).read

end Place

end ArrowLang
