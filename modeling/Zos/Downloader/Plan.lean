import Zos.Downloader.Db

/-!
# Segment plans

How `download_segmented` cuts a file into segments, and the check it makes on
the segments it finds in the database before it goes on with them.
-/

namespace Zos.Downloader

/-- `MIN_SEGMENT_BYTES`. -/
def minSegmentBytes : Nat := 16 * 1024 * 1024

/-- `MAX_SEGMENTS`. -/
def maxSegments : Nat := 4096

def divCeil (a b : Nat) : Nat := (a + b - 1) / b

/-- The length of a segment, in whole MiB. -/
def planChunk (total kept : Nat) : Nat :=
  let keptSegments := if 0 < kept then 1 else 0
  let slots := max (maxSegments - keptSegments) 1
  let dynamic := divCeil (total - kept) slots
  divCeil (max dynamic minSegmentBytes) (1024 * 1024) * 1024 * 1024

/-- The `while` loop of `plan_segments`; every round of it moves `start`. -/
def planFrom (chunk total : Nat) : Nat → Nat → List Segment
  | 0, _ => []
  | fuel + 1, start =>
      if start < total then
        let stop := min (start + chunk) total
        ⟨start, stop, start⟩ :: planFrom chunk total fuel stop
      else []

/-- `kept` bytes at the beginning are there already. -/
def planSegments (total kept : Nat) : List Segment :=
  let kept := min kept total
  (if 0 < kept then [⟨0, kept, kept⟩] else []) ++
    planFrom (planChunk total kept) total (total - kept) kept

/-- The end of adjacent segments that begin at `expected`. -/
def coverFrom (expected : Nat) : List Segment → Option Nat
  | [] => some expected
  | segment :: rest =>
      if segment.start ≠ expected ∨ segment.next < segment.start ∨
          segment.next > segment.stop then
        none
      else coverFrom segment.stop rest

def segmentsCoverTotal (segments : List Segment) (total : Nat) : Bool :=
  coverFrom 0 segments = some total

/-! ## In words of 64 bits -/

/-- A product that is too large is an overflow. -/
def checkedMul (a b : Nat) : Option Nat := if a * b < 2 ^ 64 then some (a * b) else none

def saturatingAdd (a b : Nat) : Nat := min (a + b) (2 ^ 64 - 1)

/-- The other operations of the plan cannot overflow: they saturate, divide or compare. -/
def planChunk64 (total kept : Nat) : Option Nat := do
  let keptSegments := if 0 < kept then 1 else 0
  let slots := max (maxSegments - keptSegments) 1
  let dynamic := divCeil (total - kept) slots
  let kibibytes ← checkedMul (divCeil (max dynamic minSegmentBytes) (1024 * 1024)) 1024
  checkedMul kibibytes 1024

def planFrom64 (chunk total : Nat) : Nat → Nat → List Segment
  | 0, _ => []
  | fuel + 1, start =>
      if start < total then
        let stop := min (saturatingAdd start chunk) total
        ⟨start, stop, start⟩ :: planFrom64 chunk total fuel stop
      else []

def planSegments64 (total kept : Nat) : Option (List Segment) :=
  let kept := min kept total
  (planChunk64 total kept).map fun chunk =>
    (if 0 < kept then [⟨0, kept, kept⟩] else []) ++ planFrom64 chunk total (total - kept) kept

/-! ## Purpose -/

/-- The segments follow each other from `lo` to `hi`. -/
def Tiles : Nat → Nat → List Segment → Prop
  | lo, hi, [] => lo = hi
  | lo, hi, q :: rest => q.start = lo ∧ Tiles q.stop hi rest

/-- Segments from zero to the total, each with the bytes that were received at its start. -/
structure Covers (total : Nat) (segments : List Segment) : Prop where
  tiles : Tiles 0 total segments
  exact : ∀ byte, (∃ q ∈ segments, q.start ≤ byte ∧ byte < q.stop) ↔ byte < total
  inside : ∀ q ∈ segments, q.start ≤ q.next ∧ q.next ≤ q.stop

structure Partition (total received : Nat) (segments : List Segment) : Prop
    extends Covers total segments where
  nonempty : ∀ q ∈ segments, q.start < q.stop
  count : segments.length ≤ maxSegments
  marked : ∀ byte, (∃ q ∈ segments, q.start ≤ byte ∧ byte < q.next) ↔ byte < received
  accepted : segmentsCoverTotal segments total = true

end Zos.Downloader
