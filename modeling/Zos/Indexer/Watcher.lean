import Zos.Lib.Path
import Zos.Lib.ByteOrder

/-!
# Pending watch paths

Changes are collected as a list of paths below a root until they are handed to the indexer. A
path whose ancestor is pending is not added (`merge_ancestor`).
-/

namespace Zos.Indexer.Watcher

open Zos.Lib Zos.Lib.Utf8

def isSameOrAncestor (ancestor path : List Char) : Bool :=
  ancestor = ['.'] || ancestor = path || (ancestor ++ ['/']).isPrefixOf path

def mergeAncestor (paths : List (List Char)) (candidate : List Char) : List (List Char) :=
  if paths.any fun existing => isSameOrAncestor existing candidate then paths
  else
    ((paths.filter fun existing => !isSameOrAncestor candidate existing) ++ [candidate]).mergeSort
      (ByteOrder · ·)

/-- The list after some changes. -/
def pending (fed : List (List Char)) : List (List Char) := fed.foldl mergeAncestor []

/-! ## Purpose -/

/-- A normalised path below a root. -/
structure RelativePath where
  names : List (List Char)
  proper : ∀ name ∈ names, ValidName (.ofList name)

namespace RelativePath

def text (p : RelativePath) : List Char := if p.names = [] then ['.'] else joinText p.names

/-- The same path, or an ancestor of it. -/
def Above (p q : RelativePath) : Prop := p.names <+: q.names

end RelativePath

end Zos.Indexer.Watcher
