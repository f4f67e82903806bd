import Pipeworks.Store
import Pipeworks.Proofs.Graph.Format

/-!
The two stores of graphs. A store in a directory answers like one in memory, and both give the graph that was saved
last under a number; for this a graph must be restored from its file, and no two numbers may share a file.
-/

namespace Pipeworks

theorem MemoryStore.fetch_put (s : MemoryStore) (g : Graph) (id : PipelineId) :
    (s.put g).fetch id = if id = g.pipeline then some g else s.fetch id :=
  Keyed.lookup_put g.pipeline id g s.graphs

namespace Folder

variable {f f' : Folder} {name name' : String} {content : ByteArray}

theorem create_of_read (h : f.read name ≠ .error .notDirectory) :
    ∃ es, f.create = .ok (.entries es) ∧ ∀ name, (entries es).read name = f.read name := by
  cases f with
  | absent => exact ⟨[], rfl, fun _ => rfl⟩
  | blocked => exact absurd rfl h
  | entries es => exact ⟨es, rfl, fun _ => rfl⟩

theorem read_entries (es : List (String × FileEntry)) (name : String) :
    (entries es).read name = match es.lookup name with
      | none => .error .notFound
      | some .directory => .error .isDirectory
      | some (.file content) => .ok content := rfl

/-- A file can be written where no directory is, and the others stay as they are. -/
theorem write_of_read {es : List (String × FileEntry)} (h : (entries es).read name ≠ .error .isDirectory)
    (content : ByteArray) :
    ∃ f', (entries es).write name content = .ok f' ∧
      ∀ name', f'.read name' = if name' = name then .ok content else (entries es).read name' := by
  refine ⟨entries (Keyed.put name (.file content) es), ?_, fun name' => ?_⟩
  · rw [write]
    split
    · rename_i hdir
      rw [read_entries] at h
      exact absurd (by rw [show es.lookup name = some .directory from hdir]) h
    · rfl
  · rw [read_entries, read_entries, Keyed.lookup_put]
    split_ifs <;> rfl

end Folder

namespace GraphFile

theorem name_injective : Function.Injective name := by
  intro id id' h
  have hchars : (toString id).toList ++ ".json".toList = (toString id').toList ++ ".json".toList := by
    simpa [name] using congrArg String.toList h
  exact Json.Number.chars_int_inj (List.append_cancel_right hchars)

theorem decode_content {g : Graph} (h : g.Proper) (directory : String) :
    decode directory g.pipeline (content g) = .ok g := by
  rw [decode, content, h.restores.decodeBytes_pretty]

/-- Whatever the file of a pipeline holds, reading it fails with an error of the store or gives a graph with the
number of that pipeline. -/
theorem decode_cases (directory : String) (id : PipelineId) (content : ByteArray) :
    (∃ text, decode directory id content = .error (.store text)) ∨
      ∃ g : Graph, decode directory id content = .ok g ∧ g.pipeline = id := by
  rw [decode]
  split
  · exact .inr ⟨_, rfl, rfl⟩
  · exact .inl ⟨_, rfl⟩

end GraphFile

/-! ### Requests and answers -/

inductive StoreCall where
  | save (g : Graph)
  | fetch (id : PipelineId)

inductive StoreAnswer where
  | saved
  | found (g : Option Graph)

def MemoryStore.answers (s : MemoryStore) : List StoreCall → List StoreAnswer
  | [] => []
  | .save g :: calls => .saved :: answers (s.put g) calls
  | .fetch id :: calls => .found (s.fetch id) :: answers s calls

/-- What a store in a directory answers; a graph that could not be saved leaves it as it was. -/
def FolderStore.answers (s : FolderStore) : List StoreCall → List (Except Error StoreAnswer)
  | [] => []
  | .save g :: calls =>
    match s.save g with
    | .ok s' => .ok .saved :: answers s' calls
    | .error e => .error e :: answers s calls
  | .fetch id :: calls => (s.fetch id).map .found :: answers s calls

/-- The answers by which a fetch gives the graph that was saved last under its number; the graphs saved so far stand
with the newest first. -/
def latestAnswers (saved : List Graph) : List StoreCall → List StoreAnswer
  | [] => []
  | .save g :: calls => .saved :: latestAnswers (g :: saved) calls
  | .fetch id :: calls => .found (saved.find? (·.pipeline = id)) :: latestAnswers saved calls

/-- A store in memory holds the newest graph of every number. -/
theorem MemoryStore.answers_eq {s : MemoryStore} {saved : List Graph}
    (h : ∀ id, s.fetch id = saved.find? (·.pipeline = id)) (calls : List StoreCall) :
    s.answers calls = latestAnswers saved calls := by
  induction calls generalizing s saved with
  | nil => rfl
  | cons call calls ih =>
      cases call with
      | save g =>
          rw [answers, latestAnswers, ih fun id => ?_]
          rw [fetch_put, List.find?_cons, h id]
          by_cases hid : id = g.pipeline
          · simp [hid]
          · have hid' : ¬g.pipeline = id := fun heq => hid heq.symm
            simp [hid, hid']
      | fetch id => rw [answers, latestAnswers, ih h, h id]

namespace FolderStore

variable {s s' : FolderStore} {saved : List Graph} {g : Graph}

/-- The directory holds the file of the newest graph of every number, and no file under any other number. -/
def Holds (s : FolderStore) (saved : List Graph) : Prop :=
  ∀ id, s.folder.read (GraphFile.name id) =
    match saved.find? (·.pipeline = id) with
    | some g => .ok (GraphFile.content g)
    | none => .error .notFound

theorem Holds.read_ne {e : FileError} (h : s.Holds saved) (he : e ≠ .notFound) (id : PipelineId) :
    s.folder.read (GraphFile.name id) ≠ .error e := by
  rw [h id]
  cases saved.find? (·.pipeline = id) with
  | none => simpa using he.symm
  | some g => simp

theorem Holds.save (h : s.Holds saved) (g : Graph) : ∃ s', s.save g = .ok s' ∧ s'.Holds (g :: saved) := by
  obtain ⟨es, hcreate, hes⟩ := Folder.create_of_read (h.read_ne (by decide) g.pipeline)
  have hfree := h.read_ne (e := .isDirectory) (by decide) g.pipeline
  rw [← hes] at hfree
  obtain ⟨f', hwrite, hread⟩ := Folder.write_of_read hfree (GraphFile.content g)
  refine ⟨{ s with folder := f' }, ?_, fun id => ?_⟩
  · simp only [FolderStore.save, hcreate, Except.bind, hwrite, Except.mapError]
    rfl
  · rw [hread, hes, h id, List.find?_cons]
    by_cases hid : id = g.pipeline
    · simp [hid]
    · have hname : GraphFile.name id ≠ GraphFile.name g.pipeline := fun heq => hid (GraphFile.name_injective heq)
      have hid' : ¬g.pipeline = id := fun heq => hid heq.symm
      simp [hname, hid']

theorem Holds.fetch (h : s.Holds saved) (hproper : ∀ g ∈ saved, g.Proper) (id : PipelineId) :
    s.fetch id = .ok (saved.find? (·.pipeline = id)) := by
  rw [FolderStore.fetch, h id]
  cases hfind : saved.find? (·.pipeline = id) with
  | none => rfl
  | some g =>
      have hid : g.pipeline = id := by simpa using List.find?_some hfind
      subst hid
      simp only [GraphFile.fetched, GraphFile.decode_content (hproper g (List.mem_of_find?_eq_some hfind))]
      rfl

theorem Holds.answers_eq (h : s.Holds saved) {calls : List StoreCall} (hproper : ∀ g ∈ saved, g.Proper)
    (hcalls : ∀ g, .save g ∈ calls → g.Proper) : s.answers calls = (latestAnswers saved calls).map .ok := by
  induction calls generalizing s saved with
  | nil => rfl
  | cons call calls ih =>
      have hrest : ∀ g, .save g ∈ calls → g.Proper := fun g hg => hcalls g (List.mem_cons_of_mem _ hg)
      cases call with
      | save g =>
          obtain ⟨s', hs', hholds⟩ := h.save g
          have hsaved : ∀ g' ∈ g :: saved, g'.Proper := by
            rw [List.forall_mem_cons]
            exact ⟨hcalls g List.mem_cons_self, hproper⟩
          simp only [answers, hs', latestAnswers, List.map_cons]
          rw [ih hholds hsaved hrest]
      | fetch id =>
          simp only [answers, h.fetch hproper, latestAnswers, List.map_cons]
          rw [ih h hproper hrest]
          rfl

/-- Saving and fetching graphs in a directory that has no file under the number of a pipeline gives the same answers
as in a new store in memory: each fetch finds the graph that was saved last under its number. No two numbers share a
file. And whatever a file holds, fetching it fails with an error of the store or gives a graph of the number asked
for. -/
theorem folder_refines_memory (s : FolderStore) (calls : List StoreCall)
    (hnew : ∀ id, s.folder.read (GraphFile.name id) = .error .notFound)
    (hcalls : ∀ g, .save g ∈ calls → g.Proper) :
    s.answers calls = (MemoryStore.answers {} calls).map .ok ∧
    MemoryStore.answers {} calls = latestAnswers [] calls ∧
    Function.Injective GraphFile.name ∧
    ∀ (s' : FolderStore) (id : PipelineId) (content : ByteArray),
      s'.folder.read (GraphFile.name id) = .ok content →
        (∃ text, s'.fetch id = .error (.store text)) ∨ ∃ g : Graph, s'.fetch id = .ok (some g) ∧ g.pipeline = id := by
  have hmemory : MemoryStore.answers {} calls = latestAnswers [] calls := MemoryStore.answers_eq (fun _ => rfl) calls
  have hholds : s.Holds [] := hnew
  refine ⟨?_, hmemory, GraphFile.name_injective, fun s' id content hread => ?_⟩
  · rw [hmemory, hholds.answers_eq (by simp) hcalls]
  · rw [FolderStore.fetch, hread]
    rcases GraphFile.decode_cases s'.path id content with ⟨text, htext⟩ | ⟨g, hg, hid⟩
    · exact .inl ⟨text, by simp only [GraphFile.fetched, htext]; rfl⟩
    · exact .inr ⟨g, by simp only [GraphFile.fetched, hg]; rfl, hid⟩

def sampleGraph (id : PipelineId) (name : String) : Graph :=
  ⟨id, name, [⟨-1, some "quo\"te\n", "t", "b", some [("a", "int"), ("é", "text")]⟩], [], [],
    [⟨none, .input (-1), .output 2⟩]⟩

theorem sampleGraph_proper {id : PipelineId} (hid : Json.Decoder.Signed64 id) (name : String) :
    (sampleGraph id name).Proper := by
  refine ⟨hid, ?_, by simp [sampleGraph], by simp [sampleGraph], ?_⟩
  · intro e he
    obtain rfl := List.mem_singleton.mp he
    refine ⟨by decide, fun s hs => ?_⟩
    cases hs
    have hlt : "a" < "é" := String.lt_iff_toList_lt.mpr (by decide)
    simpa [Json.Ascending] using hlt
  · intro f hf
    obtain rfl := List.mem_singleton.mp hf
    exact ⟨(fun i hi => nomatch hi), by decide, by decide⟩

/-- A graph that is saved twice, one with the opposite number, and a number that was never saved. -/
def sampleCalls : List StoreCall :=
  [.save (sampleGraph (-3) "old"), .save (sampleGraph 3 "other"), .save (sampleGraph (-3) "new"), .fetch (-3),
    .fetch 3, .fetch 7]

theorem folder_gives_newest_sample :
    (∀ id, Folder.absent.read (GraphFile.name id) = .error .notFound) ∧
    (∀ g, .save g ∈ sampleCalls → g.Proper) ∧
    answers ⟨"graphs", .absent⟩ sampleCalls =
      [.ok .saved, .ok .saved, .ok .saved, .ok (.found (some (sampleGraph (-3) "new"))),
        .ok (.found (some (sampleGraph 3 "other"))), .ok (.found none)] := by
  have hnew : ∀ id, Folder.absent.read (GraphFile.name id) = .error .notFound := fun _ => rfl
  have hcalls : ∀ g, .save g ∈ sampleCalls → g.Proper := by
    intro g hg
    simp only [sampleCalls, List.mem_cons, StoreCall.save.injEq, reduceCtorEq, List.not_mem_nil, or_false] at hg
    rcases hg with rfl | rfl | rfl <;> exact sampleGraph_proper (by decide) _
  exact ⟨hnew, hcalls, (folder_refines_memory ⟨"graphs", .absent⟩ sampleCalls hnew hcalls).1.trans rfl⟩

end FolderStore

end Pipeworks
