import Zos.Indexer.ProcessFile

/-!
# The versions of one file and the tasks that cover it

One file, at a path of a root as the index spells it, and the worker that runs one task after
another. Every access of `process_file` to the file is a step; what a task does to other rows comes
as a new index that agrees about this file. A future reads from an open file and compares the
identity at the end, so that a text that gets to `publish_file` was extracted from the version that
was opened: `source` notes it. `failures` notes the versions that could not be extracted.
-/

namespace Zos.Indexer.TextVersions

/-- The version of the file, if it is a regular one. -/
def version (root : Node) (path : String) : Option FileIdentity := (openFile root path).toOption

structure Claim where
  context : FileContext
  target : String
  recursive : Bool

inductive Pc where
  | idle
  | claimed (claim : Claim)
  | file (claim : Claim) (pc : FilePc)
  /-- The future of the file has come to its end without a failure. -/
  | dealt (claim : Claim)
  /-- The task came by, and there was no regular file. -/
  | passed (claim : Claim)
  /-- The task has ended with `Ok`. -/
  | finished

structure State where
  root : Node
  index : Index
  /-- The version from which the stored text of the file was extracted. -/
  source : Option FileIdentity
  /-- The versions for which `extract_file` has answered with an error. -/
  failures : List FileIdentity
  pc : Pc
  /-- The file has changed since the task was claimed. -/
  changed : Bool

/-- A publication is noted. -/
def sourceAfter (source : Option FileIdentity) : FilePc → FileMove → Option FileIdentity
  | .publishing identity _, .next => some identity
  | _, _ => source

/-- So is an extraction that fails. -/
def failuresAfter (failures : List FileIdentity) : FilePc → FileMove → List FileIdentity
  | .extracting identity, .extracted (.error _) => identity :: failures
  | _, _ => failures

inductive Action where
  | change (root : Node)
  | claim (storagePoolId : Option String) (target : String) (recursive isDirectory : Bool)
  | meet
  | pass
  | file (move : FileMove)
  | elsewhere (index : Index) (valid : index.Valid)
  /-- The target was missing, or not. -/
  | finish (missing : Bool)
  /-- The task ends with an error, or the worker does. -/
  | abort
  | copyLegacy (body : String)

section

variable (rootId path : String)

def rowsAt (index : Index) : List FileRow := index.files.filter (·.isAt rootId path)

/-- Nothing happens to the file. -/
def agrees (index index' : Index) : Bool :=
  rowsAt rootId path index' = rowsAt rootId path index &&
    (rowsAt rootId path index).all fun row => index'.hasContent row.id = index.hasContent row.id

/-- Rows may be deleted: a text that is gone was not extracted from anything. -/
def State.delete (s : State) (index : Index) : State :=
  { s with
    index := index
    source := if (index.find rootId path).isSome then s.source else none }

/-- `copy_legacy_batch` at the file: a text of no known version. -/
def State.copyLegacy (s : State) (body : String) : State :=
  match s.index.find rootId path with
  | some row =>
    if s.index.hasContent row.id then s
    else
      { s with
        index := { s.index with content := s.index.content ++ [⟨row.id, rootId, path, body⟩] }
        source := none }
  | none => s

/-- Behind the source check: the cleanup of a recursive task, or the removal of a target that was
missing. -/
def State.finish (s : State) (claim : Claim) (remove : Bool) : State :=
  match claim.context.generation with
  | some generation =>
    s.delete rootId path (cleanupGeneration s.index rootId claim.target generation).2
  | none =>
    if remove then
      s.delete rootId path (removePath s.index rootId claim.target claim.recursive).2
    else s

def step (s : State) : Action → Option State
  | .change root =>
    some { s with
      root := root
      changed := s.changed || version root path ≠ version s.root path }
  | .claim storagePoolId target recursive isDirectory =>
    match s.pc, openRoot s.root with
    | .idle, .ok identity | .finished, .ok identity =>
      if atOrBelow target path then
        let generation := if recursive && isDirectory then some s.index.nextId else none
        some { s with
          index := { s.index with nextId := s.index.nextId + 1 }
          pc := .claimed ⟨⟨rootId, storagePoolId, identity, generation⟩, target, recursive⟩
          changed := false }
      else none
    | _, _ => none
  | .meet =>
    match s.pc, version s.root path with
    | .claimed claim, some _ => some { s with pc := .file claim .fresh }
    | _, _ => none
  | .pass =>
    match s.pc, version s.root path with
    | .claimed claim, none => some { s with pc := .passed claim }
    | _, _ => none
  | .file move =>
    match s.pc with
    | .file claim pc =>
      match processFile s.root s.index claim.context path pc move with
      | some (index, .more pc') =>
        some { s with
          index := index
          failures := failuresAfter s.failures pc move
          pc := .file claim pc' }
      | some (index, .done outcome) =>
        some { s with
          index := index
          source := sourceAfter s.source pc move
          failures := failuresAfter s.failures pc move
          pc := if outcome.failure.isSome then .idle else .dealt claim }
      | none => none
    | _ => none
  | .elsewhere index _ =>
    if agrees rootId path s.index index ∧ s.index.nextId ≤ index.nextId then
      some { s with index := index }
    else none
  | .finish missing =>
    match s.pc with
    | .dealt claim => some { s.finish rootId path claim false with pc := .finished }
    | .passed claim => some { s.finish rootId path claim missing with pc := .finished }
    | _ => none
  | .abort => some { s with pc := .idle }
  | .copyLegacy body =>
    match s.pc with
    | .idle => some (s.copyLegacy rootId path body)
    | _ => none

/-- After the migration: the row of the file, if there is one, knows no identity, and the new text
table is empty. -/
structure Init (s : State) : Prop where
  valid : s.index.Valid
  rows : ∀ row ∈ rowsAt rootId path s.index, row.identity = none
  content : s.index.content = []
  source : s.source = none
  failures : s.failures = []
  pc : s.pc = .idle

end

/-- A task has ended with `Ok`, and the file is as it was when the task was claimed. -/
structure Checked (rootId path : String) where
  state : State
  reached : Zos.Lib.Reach (step rootId path) Zos.Lib.anyStep (Init rootId path) state
  finished : state.pc = .finished
  unchanged : state.changed = false
  current : FileIdentity
  regular : version state.root path = some current

/-- The text of the file was extracted from the version it has. -/
def Checked.TextOfCurrent {rootId path : String} (c : Checked rootId path) : Prop :=
  (∃ row ∈ rowsAt rootId path c.state.index, c.state.index.hasContent row.id = true) ∧
    c.state.source = some c.current

end Zos.Indexer.TextVersions
