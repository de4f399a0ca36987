import Zos.Indexer.Index

/-!
# Scans of a tree that stays as it is

`run_task` of `apps/indexer/src/scanner.rs` for a recursive task on a directory, when every
directory below it could be opened and listed and the source was found unchanged. Each future of
`process_file` reads and writes the row of its own path, so that the order in which they come to
their end stands for their interleaving.
-/

namespace Zos.Indexer.StaticScan

open Zos.Lib (segments)

/-- The status of a root in `index_content_state`. -/
inductive ContentStatus where
  | legacy
  | copying
  | rebuilding
  | ready
  | failed
  deriving DecidableEq, Repr

structure State where
  index : Index
  status : String → ContentStatus

mutual

/-- The paths of the regular files that the traversal of a directory comes to. -/
def filesOf (directory : String) : List (String × Node) → List String
  | [] => []
  | (name, node) :: rest => filesAt (joinPath directory name) name node ++ filesOf directory rest

def filesAt (path name : String) : Node → List String
  | .file _ => [displayPath path]
  | .directory _ entries => if name ∈ ignoredDirectories then [] else filesOf path entries
  | .symlink | .other => []

end

/-- What becomes of a file: an error of an access to it or of the database, or the answer of the
extractor. -/
inductive Answer where
  | unread (error : IndexerError)
  | extracted (result : Except IndexerError ExtractedFile)

/-- The row of the file has its identity and content. -/
def unchanged (index : Index) (rootId path : String) (identity : FileIdentity) : Bool :=
  (existingFile index rootId path).any fun existing =>
    existing.identity = some identity ∧ existing.hasContent

/-- The future of one path, and its failure. -/
def processFile (root : Node) (task : QueueTask) (generation : Nat) (answers : String → Answer)
    (index : Index) (path : String) : Index × Option (String × String) :=
  match answers path, openFile root path with
  | .unread error, _ | .extracted _, .error error => (index, some (path, stableReason error))
  | .extracted result, .ok identity =>
    if unchanged index task.rootId path identity then
      (touchGeneration index task.rootId path generation, none)
    else
      let record : IndexedFileRecord :=
        ⟨task.rootId, task.storagePoolId, path, identity, some generation⟩
      match result with
      | .ok extracted => (publishFile index record extracted, none)
      | .error error =>
        (recordExtractionError index record error, some (path, stableReason error))

def scanFiles (root : Node) (task : QueueTask) (generation : Nat) (answers : String → Answer) :
    List String → Index → Index × List (String × String)
  | [], index => (index, [])
  | path :: rest, index =>
    let (index, failure) := processFile root task generation answers index path
    let (index, failures) := scanFiles root task generation answers rest index
    (index, failure.toList ++ failures)

def setStatus (status : String → ContentStatus) (rootId : String) (value : ContentStatus) :
    String → ContentStatus :=
  fun other => if other = rootId then value else status other

/-- `begin_generation`: a root that is ready stays so. -/
def beginGeneration (state : State) (task : QueueTask) : State where
  index := { state.index with nextId := state.index.nextId + 1 }
  status :=
    if task.path = "." ∧ state.status task.rootId ≠ .ready then
      setStatus state.status task.rootId .rebuilding
    else state.status

def runTask (root : Node) (task : QueueTask) (answers : String → Answer) (order : List String)
    (state : State) : State × Except IndexerError Unit :=
  let generation := state.index.nextId
  let state := beginGeneration state task
  let (index, failures) := scanFiles root task generation answers order state.index
  if failures ≠ [] then
    (⟨index, state.status⟩,
      .error (.new "STORAGE_UNAVAILABLE" "One or more files failed" true))
  else
    (⟨(cleanupGeneration index task.rootId task.path generation).2,
      if task.path = "." then setStatus state.status task.rootId .ready else state.status⟩,
      .ok ())

/-- A complete traversal for a task. -/
structure Traversal (root : Node) (task : QueueTask) where
  entries : List (String × Node)
  recursive : task.recursive = true
  considered : ignoredAncestor task.path = none
  opened : openDirectory root task.path = .ok entries
  /-- The order in which the futures come to their end. -/
  order : List String
  perm : order.Perm (filesOf task.path entries)

/-- A text belongs to the row of its path: it is written and deleted together with it. -/
def Linked (index : Index) : Prop :=
  ∀ text ∈ index.content, ∃ row ∈ index.files,
    row.id = text.fileId ∧ row.isAt text.rootId text.path

/-- What earlier tasks have left. -/
structure Prior extends State where
  valid : index.Valid
  linked : Linked index

def Present (root : Node) (path : String) : Prop := ∃ node, root.walk (segments path) = .ok node

/-- What a task is to leave at and below its path. -/
structure Clean (root : Node) (task : QueueTask) (state : State) : Prop where
  files : ∀ row ∈ state.index.files, row.rootId = task.rootId →
    atOrBelow task.path row.path → Present root row.path
  content : ∀ text ∈ state.index.content, text.rootId = task.rootId →
    atOrBelow task.path text.path → Present root text.path
  ready : task.path = "." → state.status task.rootId = .ready

/-- The file cannot be read, or it is not as it was and cannot be extracted. -/
def Fails (root : Node) (task : QueueTask) (answers : String → Answer) (index : Index)
    (path : String) : Prop :=
  match answers path, openFile root path with
  | .unread _, _ | .extracted _, .error _ => True
  | .extracted (.error _), .ok identity => unchanged index task.rootId path identity = false
  | .extracted (.ok _), .ok _ => False

end Zos.Indexer.StaticScan
