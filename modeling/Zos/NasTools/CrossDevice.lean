import Mathlib.Logic.Basic

/-!
# Moving across devices

`movePath` of `packages/nas-tools/src/mutation-tools.ts` after `rename` has failed with `EXDEV`:
the tree is copied to a temporary name next to the target, renamed to the target and then removed
at its source, with clean-up handlers around it. Each call may fail, a recursive one after any of
its files. Only regular files are followed, by their path in the tree.
-/

namespace Zos.NasTools.CrossDevice

/-- The regular files of a tree. -/
abbrev Files (Content : Type) := List String → Option Content

structure Places (Content : Type) where
  source : Files Content
  target : Files Content
  temporary : Files Content

inductive MoveError where
  | io
  | aggregate
  deriving DecidableEq

abbrev Move (Content : Type) : Type → Type := EStateM MoveError (Places Content)

/-- A recursive call that failed, with the files it had dealt with. -/
abbrev Fault := Option (List String → Bool)

structure Faults where
  cp : Fault
  rename : Bool
  rmSource : Fault
  rmTarget : Fault
  rmTemporary : Fault

variable {Content : Type}

def Files.without (files : Files Content) (gone : List String → Bool) : Files Content :=
  fun path => if gone path then none else files path

def cp (fault : Fault) : Move Content Unit := fun places =>
  match fault with
  | none => .ok () { places with temporary := places.source }
  | some copied => .error .io { places with temporary := places.source.without (!copied ·) }

def renameTemporary (fails : Bool) : Move Content Unit := fun places =>
  if fails then .error .io places
  else .ok () { places with temporary := fun _ => none, target := places.temporary }

/-- What `rm` leaves, and whether it throws. -/
def rm (fault : Fault) (set : Places Content → (Files Content → Files Content) → Places Content) :
    Move Content Unit := fun places =>
  match fault with
  | none => .ok () (set places fun _ _ => none)
  | some gone => .error .io (set places (·.without gone))

def movePath (faults : Faults) : Move Content Unit :=
  tryCatch
    (do
      cp faults.cp
      renameTemporary faults.rename
      tryCatch (rm faults.rmSource fun places f => { places with source := f places.source })
        fun sourceRemovalError => do
          tryCatch (rm faults.rmTarget fun places f => { places with target := f places.target })
            fun _ => throw .aggregate
          throw sourceRemovalError)
    fun error => do
      rm faults.rmTemporary fun places f => { places with temporary := f places.temporary }
      throw error

/-- Before the move there is the source alone. -/
def before (tree : Files Content) : Places Content := ⟨tree, fun _ => none, fun _ => none⟩

end Zos.NasTools.CrossDevice
