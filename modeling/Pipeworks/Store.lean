import Pipeworks.FileSystem
import Pipeworks.Error
import Pipeworks.Json.Printer
/-!
Stores of graphs: in memory, and in a directory with one file for each pipeline.
-/
namespace Pipeworks

/-- Graphs in memory, each under the number of its pipeline. -/
structure MemoryStore where
  graphs : List (PipelineId × Graph) := []
deriving Inhabited

namespace MemoryStore

def put (s : MemoryStore) (g : Graph) : MemoryStore := ⟨Keyed.put g.pipeline g s.graphs⟩

def fetch (s : MemoryStore) (id : PipelineId) : Option Graph := s.graphs.lookup id

end MemoryStore

namespace GraphFile

def name (id : PipelineId) : String := toString id ++ ".json"

def path (directory : String) (id : PipelineId) : String :=
  if directory.isEmpty ∨ directory.endsWith "/" then directory ++ name id else directory ++ "/" ++ name id

def content (g : Graph) : ByteArray := g.json.pretty.toUTF8

/-- The graph in the file of a pipeline. The name of the file decides about the number of the pipeline. -/
def decode (directory : String) (id : PipelineId) (content : ByteArray) : Except Error Graph :=
  match Json.decodeBytes Graph.decoder content with
  | .ok g => .ok { g with pipeline := id }
  | .error e => .error (.store s!"{path directory id}: {e.message}")

/-- What became of reading the file of a pipeline: a file that is not there is no error. -/
def fetched (directory : String) (id : PipelineId) (r : Except FileError ByteArray) :
    Except Error (Option Graph) :=
  match r with
  | .ok content => (decode directory id content).map some
  | .error .notFound => .ok none
  | .error e => .error (.io e.message)

end GraphFile

structure FolderStore where
  path : String
  folder : Folder := .absent
deriving Inhabited

namespace FolderStore

/-- Writes the file of a graph; the directory is made if it is not there. -/
def save (s : FolderStore) (g : Graph) : Except Error FolderStore := do
  let folder ← (s.folder.create.bind fun f => f.write (GraphFile.name g.pipeline) (GraphFile.content g)).mapError
    fun e => .io e.message
  return { s with folder }

def fetch (s : FolderStore) (id : PipelineId) : Except Error (Option Graph) :=
  GraphFile.fetched s.path id (s.folder.read (GraphFile.name id))

end FolderStore

end Pipeworks
