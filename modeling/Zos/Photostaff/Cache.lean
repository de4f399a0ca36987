import Mathlib.Logic.Function.Iterate
import Zos.Photostaff.Db

/-!
# The derivative cache

The files under the cache root and what `apps/photostaff/src/publish.rs` does to
them. A published derivative is named by its key, so that assets with the same
content share it; before that it is a temporary file next to its target. Nothing
but the service writes here.
-/

namespace Zos.Photostaff

inductive CachePath where
  /-- `{purpose}/{digest}.webp`. -/
  | derivative (key : Key)
  /-- `{purpose}/.{digest}.webp.{uuid}.tmp`. -/
  | temp (key : Key) (uuid : Nat)
  | scratch (uuid : Nat)
  deriving DecidableEq, Repr

structure CacheFile where
  identity : FileIdentity
  content : List UInt8
  deriving DecidableEq, Repr

def Cache := CachePath → Option CacheFile

def Cache.empty : Cache := fun _ => none

def Cache.write (cache : Cache) (path : CachePath) (file : CacheFile) : Cache :=
  fun p => if p = path then some file else cache p

def Cache.remove (cache : Cache) (path : CachePath) : Cache :=
  fun p => if p = path then none else cache p

def Derivative.target (d : Derivative) : CachePath := .derivative d.key

def Derivative.source (d : Derivative) : CachePath := .temp d.key d.temp

/-! ## Publication -/

/-- Where `publish_one` stands; each point is one access to the file system. -/
inductive PublishPoint where
  | check
  | openSource
  | rename
  | verify
  deriving DecidableEq, Repr

inductive PublishResult where
  | next (point : PublishPoint)
  | ok
  | error (retryable : Bool)
  deriving DecidableEq, Repr

def targetMatches (cache : Cache) (d : Derivative) : Bool :=
  (cache d.target).any (·.identity = d.identity)

/-- `none` when the source cannot be opened. -/
def filesEqual (cache : Cache) (d : Derivative) : Option Bool :=
  (cache d.source).map fun source => (cache d.target).any (·.content = source.content)

/-- The rename leaves all of the identity but the change time, which is the file
system's. -/
def publishOne (cache : Cache) (d : Derivative) (point : PublishPoint) (ctimeNs : Int) :
    Cache × PublishResult :=
  match point with
  | .check =>
      if (cache d.target).isNone then (cache, .next .openSource)
      else if targetMatches cache d then (cache.remove d.source, .ok)
      else
        match filesEqual cache d with
        | none => (cache, .error true)
        | some true => (cache, .ok)
        | some false => (cache, .error false)
  | .openSource =>
      match cache d.source with
      | none => (cache, .error true)
      | some file =>
          if file.identity = d.identity then (cache, .next .rename) else (cache, .error false)
  | .rename =>
      if (cache d.target).isSome then (cache, .error false)
      else
        match cache d.source with
        | none => (cache, .error true)
        | some file =>
            let moved := { file with identity := { file.identity with ctimeNs := ctimeNs } }
            ((cache.remove d.source).write d.target moved, .next .verify)
  | .verify => if targetMatches cache d then (cache, .ok) else (cache, .error false)

/-- Where `publish_derivatives` stands. -/
inductive Publication where
  | running (purpose : Purpose) (point : PublishPoint)
  | done
  | failed (retryable : Bool)
  deriving DecidableEq, Repr

def Publication.after (purpose : Purpose) : PublishResult → Publication
  | .next point => .running purpose point
  | .ok =>
      match purpose with
      | .thumbnail => .running .preview .check
      | .preview => .done
  | .error retryable => .failed retryable

def publishNext (record : PublishRecord) (ctimeNs : Purpose → Int) :
    Cache × Publication → Cache × Publication
  | (cache, .running purpose point) =>
      let (cache, result) := publishOne cache (record.derivative purpose) point (ctimeNs purpose)
      (cache, .after purpose result)
  | settled => settled

/-- The first `n` accesses of `publish_derivatives`. -/
def publishAccesses (record : PublishRecord) (ctimeNs : Purpose → Int) (n : Nat) (cache : Cache) :
    Cache × Publication :=
  (publishNext record ctimeNs)^[n] (cache, .running .thumbnail .check)

/-- All of them: four for each derivative at most. -/
def publishDerivatives (record : PublishRecord) (ctimeNs : Purpose → Int) (cache : Cache) :
    Cache × Publication :=
  publishAccesses record ctimeNs 8 cache

end Zos.Photostaff
