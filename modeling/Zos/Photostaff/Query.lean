import Mathlib.Algebra.Order.Ring.Rat
import Mathlib.Data.Char
import Mathlib.Data.List.Lex
import Mathlib.Data.Prod.Lex
import Mathlib.Data.Sum.Order
import Mathlib.Order.WithBot
import Zos.Lib.Paging

/-!
# Photo queries

`POST /api/photos/query` of `apps/api/src/routes/photos.ts` and `queryPhotostaffAssets` of
`packages/db/src/repositories/photostaff-metadata.ts`. The filters are one predicate, the distance
to the place of a nearby filter is a function of the asset. Texts compare as their bytes do. A
cursor stands for the JSON text that carries it; its fingerprint leaves out limit and cursor, so
that it is the same in all requests of one query.
-/

namespace Zos.Photostaff.Query

open Zos.Lib

/-- A double that is not NaN, which SQLite stores as NULL. -/
abbrev Number := WithBot (WithTop ℚ)

/-- A value that is not NULL: numbers come before texts. -/
abbrev Datum := Number ⊕ₗ List Char

def Datum.finite (value : ℚ) : Datum := Sum.inlₗ ((value : WithTop ℚ) : Number)

def Datum.text (value : List Char) : Datum := Sum.inrₗ value

structure Metadata where
  capturedAt : Option (List Char)
  capturedAtLocal : Option (List Char)
  rating : Option Number

structure Asset where
  id : List Char
  name : List Char
  sizeBytes : Nat
  takenAt : List Char
  indexedAt : List Char
  metadata : Option Metadata
  named : id ≠ []
  /-- The limit on the size of a file is a safe integer. -/
  safe : sizeBytes < 2 ^ 53

/-- The ready assets of the current library. -/
structure Library where
  assets : List Asset
  distinct : (assets.map Asset.id).Nodup

inductive SortField where
  | capturedAt
  | indexedAt
  | name
  | sizeBytes
  | rating
  | distance
  deriving DecidableEq, Repr

inductive Direction where
  | asc
  | desc
  deriving DecidableEq, Repr

/-- A validated request without its limit and cursor. -/
structure Request where
  /-- The conditions of `candidates`. -/
  isCandidate : Asset → Bool
  distance : Asset → Option ℚ
  /-- `radiusMeters` of a filter for what is near. -/
  radius : Option ℚ
  field : SortField
  direction : Direction

/-! ## SQL -/

/-- `lower`, which knows ASCII only. -/
def lower (text : List Char) : List Char := text.map Char.toLower

/-- `sort_value`. -/
def Request.sortValue (request : Request) (asset : Asset) : Option Datum :=
  match request.field with
  | .indexedAt => some (.text asset.indexedAt)
  | .name => some (.text (lower asset.name))
  | .sizeBytes => some (.finite asset.sizeBytes)
  | .rating => (asset.metadata.bind Metadata.rating).map Sum.inlₗ
  | .distance => (request.distance asset).map Datum.finite
  | .capturedAt =>
      (((asset.metadata.bind Metadata.capturedAt).or
        (asset.metadata.bind Metadata.capturedAtLocal)).or (some asset.takenAt)).map Datum.text

/-- A column that is ordered in the direction of the query. -/
def Directed (direction : Direction) (α : Type) : Type :=
  match direction with
  | .asc => α
  | .desc => αᵒᵈ

instance {α : Type} [LinearOrder α] : (direction : Direction) → LinearOrder (Directed direction α)
  | .asc => inferInstanceAs (LinearOrder α)
  | .desc => inferInstanceAs (LinearOrder αᵒᵈ)

def directed {α : Type} : (direction : Direction) → α → Directed direction α
  | .asc, a => a
  | .desc, a => OrderDual.toDual a

/-- A column with NULLs. -/
def column (value : Option Datum) : WithBot Datum := value.elim ⊥ (↑)

/-- `(sort_value IS NULL) ASC, sort_value ?, id ?`. -/
def Request.key (request : Request) (asset : Asset) :
    Bool ×ₗ Directed request.direction (WithBot Datum) ×ₗ Directed request.direction (List Char) :=
  toLex ((request.sortValue asset).isNone,
    toLex (directed _ (column (request.sortValue asset)), directed _ asset.id))

/-- `distance_m <= ?`, which is not true of NULL. -/
def Request.postWhere (request : Request) (asset : Asset) : Bool :=
  request.radius.all fun radius => (request.distance asset).any (· ≤ radius)

def Library.candidates (library : Library) (request : Request) : List Asset :=
  library.assets.filter request.isCandidate

def Library.matches (library : Library) (request : Request) : List Asset :=
  (library.candidates request).filter request.postWhere

def Library.ordered (library : Library) (request : Request) : List Asset :=
  (library.matches request).mergeSort fun left right => request.key left ≤ request.key right

def Library.total (library : Library) (request : Request) : Nat :=
  (library.candidates request).countP request.postWhere

/-! ## Cursors -/

structure Cursor where
  sortValue : Option Datum
  id : List Char

def sqliteLower (text : List Char) : List Char :=
  text.map fun c => if 'A' ≤ c ∧ c ≤ 'Z' then c.toLower else c

/-- The value of the last photo of a page, from the record that is sent. -/
def Request.photoSortValue (request : Request) (photo : Asset) : Option Datum :=
  match request.field with
  | .indexedAt => some (.text photo.indexedAt)
  | .name => some (.text (sqliteLower photo.name))
  | .sizeBytes => some (.finite photo.sizeBytes)
  | .rating => (photo.metadata.bind Metadata.rating).map Sum.inlₗ
  | .distance => (request.distance photo).map Datum.finite
  | .capturedAt => match photo.metadata.bind Metadata.capturedAt with
    | some capturedAt => some (.text capturedAt)
    | none => match photo.metadata.bind Metadata.capturedAtLocal with
      | some capturedAtLocal => some (.text capturedAtLocal)
      | none => some (.text photo.takenAt)

/-- `JSON.stringify` writes `null` for a number that is not finite. -/
def jsonValue (value : Option Datum) : Option Datum :=
  value.filter fun datum => datum ≠ Sum.inlₗ ⊥ ∧ datum ≠ Sum.inlₗ ⊤

/-- `<` or `>`. -/
def operator {α : Type} [LinearOrder α] (direction : Direction) (bound value : α) : Bool :=
  match direction with
  | .asc => bound < value
  | .desc => value < bound

/-- The condition that `buildCursorSql` adds. -/
def Request.cursorSql (request : Request) (cursor : Cursor) (asset : Asset) : Bool :=
  match cursor.sortValue, request.sortValue asset with
  | none, value => value.isNone && operator request.direction cursor.id asset.id
  | some _, none => true
  | some bound, some value => operator request.direction bound value ||
      value = bound && operator request.direction cursor.id asset.id

def Request.pager (request : Request) : Pager Asset Cursor where
  cursorOf photo := ⟨jsonValue (request.photoSortValue photo), photo.id⟩
  accepts cursor := cursor.id ≠ []
  after := request.cursorSql

def queryLimit (requested : Option Int) : Nat := (max 1 (min (requested.getD 60) 100)).toNat

end Zos.Photostaff.Query
