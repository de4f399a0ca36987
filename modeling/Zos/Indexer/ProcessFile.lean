import Zos.Indexer.Index

/-!
# One file of a scan

`process_file` of `apps/indexer/src/scanner.rs`, one access at a time. What the environment
decides comes with the move: an error that is not of the tree, and the text that was extracted.
-/

namespace Zos.Indexer

structure FileOutcome where
  indexed : Bool
  unchanged : Bool
  bytes : Nat
  textFile : Bool
  failure : Option (String × String)
  deriving DecidableEq, Repr

inductive FilePc where
  | fresh
  | opened (identity : FileIdentity)
  /-- The row of the file has its identity and content. -/
  | matched (identity : FileIdentity)
  | touching (identity : FileIdentity) (generation : Nat)
  | extracting (identity : FileIdentity)
  | publishing (identity : FileIdentity) (extracted : ExtractedFile)
  | erring (identity : FileIdentity) (error : IndexerError)
  deriving DecidableEq, Repr

inductive FileMove where
  | next
  | fault (fault : Fault)
  /-- `extract_file` answers. -/
  | extracted (result : Except IndexerError ExtractedFile)

/-- What the futures of one scan share. -/
structure FileContext where
  rootId : String
  storagePoolId : Option String
  /-- Of the root, when it was opened. -/
  root : FileIdentity
  generation : Option Nat

inductive FileStep where
  | more (pc : FilePc)
  | done (outcome : FileOutcome)

def FileStep.failed (path : String) (error : IndexerError) : FileStep :=
  .done ⟨false, false, 0, false, some (path, stableReason error)⟩

def FileContext.record (c : FileContext) (path : String) (identity : FileIdentity) :
    IndexedFileRecord :=
  ⟨c.rootId, c.storagePoolId, path, identity, c.generation⟩

/-- One access of the future for `path`. -/
def processFile (root : Node) (index : Index) (c : FileContext) (path : String) :
    FilePc → FileMove → Option (Index × FileStep)
  | .fresh, .next =>
      match openFile root path with
      | .ok identity => some (index, .more (.opened identity))
      | .error error => some (index, .failed path error)
  | .opened identity, .next =>
      match existingFile index c.rootId path with
      | some existing =>
          if existing.identity = some identity ∧ existing.hasContent then
            some (index, .more (.matched identity))
          else some (index, .more (.extracting identity))
      | none => some (index, .more (.extracting identity))
  | .matched identity, .next =>
      match verifyFileUnchanged root path identity with
      | .ok () =>
          match c.generation with
          | some generation => some (index, .more (.touching identity generation))
          | none => some (index, .done ⟨false, true, identity.size, false, none⟩)
      | .error error => some (index, .failed path error)
  | .touching identity generation, .next =>
      some (touchGeneration index c.rootId path generation,
        .done ⟨false, true, identity.size, false, none⟩)
  | .extracting identity, .extracted result =>
      match verifyFileUnchanged root path identity with
      | .error error => some (index, .failed path error)
      | .ok () =>
          match result with
          | .error error => some (index, .more (.erring identity error))
          | .ok extracted =>
              match verifyUnchanged root c.root with
              | .ok () => some (index, .more (.publishing identity extracted))
              | .error error => some (index, .failed path error)
  | .publishing identity extracted, .next =>
      some (publishFile index (c.record path identity) extracted,
        .done ⟨true, false, identity.size, extracted.status = .ready, none⟩)
  | .erring identity error, .next =>
      some (recordExtractionError index (c.record path identity) error,
        .done ⟨false, false, identity.size, false, some (path, stableReason error)⟩)
  | _, .fault fault => some (index, .failed path fault.error)
  | _, _ => none

end Zos.Indexer
