import Pipeworks.Keyed
/-!
Files, as far as a store of graphs meets them: a name is that of a file, of a directory, or of nothing.
-/
namespace Pipeworks

inductive FileError where
  | notFound
  | isDirectory
  | notDirectory
  | alreadyThere
  | denied
deriving DecidableEq, Repr, Inhabited

namespace FileError

def code : FileError → Nat
  | notFound => 2
  | alreadyThere => 17
  | notDirectory => 20
  | isDirectory => 21
  | denied => 13

def text : FileError → String
  | notFound => "No such file or directory"
  | alreadyThere => "File exists"
  | notDirectory => "Not a directory"
  | isDirectory => "Is a directory"
  | denied => "Permission denied"

def message (e : FileError) : String := s!"{e.text} (os error {e.code})"

end FileError

/-- What a name in a directory stands for. -/
inductive FileEntry where
  | file (content : ByteArray)
  | directory
deriving Inhabited

/-- One directory: it may not be there, or be a file itself. -/
inductive Folder where
  | absent
  | blocked
  | entries (es : List (String × FileEntry))
deriving Inhabited

namespace Folder

def entry? (f : Folder) (name : String) : Option FileEntry :=
  match f with
  | entries es => es.lookup name
  | _ => none

def create : Folder → Except FileError Folder
  | absent => .ok (entries [])
  | blocked => .error .alreadyThere
  | entries es => .ok (entries es)

def read (f : Folder) (name : String) : Except FileError ByteArray :=
  match f with
  | absent => .error .notFound
  | blocked => .error .notDirectory
  | entries es =>
    match es.lookup name with
    | none => .error .notFound
    | some .directory => .error .isDirectory
    | some (.file content) => .ok content

def write (f : Folder) (name : String) (content : ByteArray) : Except FileError Folder :=
  match f with
  | absent => .error .notFound
  | blocked => .error .notDirectory
  | entries es =>
    match f.entry? name with
    | some .directory => .error .isDirectory
    | _ => .ok (entries (Keyed.put name (.file content) es))

def makeDirectory (f : Folder) (name : String) : Except FileError Folder :=
  match f with
  | absent => .error .notFound
  | blocked => .error .notDirectory
  | entries es => if (f.entry? name).isSome then .error .alreadyThere else .ok (entries (Keyed.put name .directory es))

end Folder

/-- Files below one directory, each with the names that lead to it. -/
structure FileTree where
  files : List (List String × ByteArray) := []
deriving Inhabited

namespace FileTree

/-- The names that a path leads through: a dot stays where it is, and two dots lead back. -/
def route (path : String) : List String :=
  ((path.splitOn "/").foldl (fun (out : List String) part =>
    if part = "" ∨ part = "." then out else if part = ".." then out.drop 1 else part :: out) []).reverse

def ofFiles (files : List (String × ByteArray)) : FileTree := ⟨files.map fun (path, content) => (route path, content)⟩

/-- The content of the file at a path. What files lie below is a directory. -/
def read (t : FileTree) (path : String) : Except FileError ByteArray :=
  let names := route path
  match t.files.find? (·.1 = names) with
  | some (_, content) => .ok content
  | none =>
    if names.isEmpty ∨ t.files.any fun f => names.isPrefixOf f.1 then .error .isDirectory
    else if t.files.any fun f => f.1.isPrefixOf names then .error .notDirectory
    else .error .notFound

end FileTree

end Pipeworks
