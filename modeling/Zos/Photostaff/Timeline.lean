import Mathlib.Data.Prod.Lex
import Zos.Lib.Paging
import Zos.Photostaff.CaptureDate

/-!
# The photo timeline

`GET /api/photos` of `apps/api/src/routes/photos.ts` and `listPhotostaffAssets` of
`packages/db/src/repositories/photostaff.ts`. Texts compare as their bytes do. A cursor stands for
the JSON text that carries it; whether `Date.parse` finds a date in its `takenAt` is a parameter.
-/

namespace Zos.Photostaff.Timeline

open Zos.Lib

/-- A ready asset, with what `taken_at` was computed from. -/
structure Asset where
  id : List Char
  candidates : List (List Char)
  mtimeNs : Int
  named : id ≠ []

structure Env extends TimeCrate where
  isoFromNs : Int → List Char
  isFiniteDate : List Char → Bool

/-- The ready assets of the current library. -/
structure Library where
  assets : List Asset
  distinct : (assets.map Asset.id).Nodup

structure Cursor where
  takenAt : List Char
  id : List Char

variable (env : Env)

def Asset.takenAt (asset : Asset) : List Char :=
  Photostaff.takenAt env.toTimeCrate env.isoFromNs asset.candidates asset.mtimeNs

/-- `taken_at DESC, id DESC`. -/
def Asset.key (asset : Asset) : (List Char ×ₗ List Char)ᵒᵈ :=
  .toDual (toLex (asset.takenAt env, asset.id))

def Library.ordered (library : Library) : List Asset :=
  library.assets.mergeSort fun left right => left.key env ≤ right.key env

def decodeCursor (cursor : Cursor) : Bool := env.isFiniteDate cursor.takenAt && cursor.id ≠ []

/-- `taken_at < ? OR (taken_at = ? AND id < ?)`. -/
def Asset.after (cursor : Cursor) (asset : Asset) : Bool :=
  asset.takenAt env < cursor.takenAt ∨ asset.takenAt env = cursor.takenAt ∧ asset.id < cursor.id

def pager : Pager Asset Cursor where
  cursorOf asset := ⟨asset.takenAt env, asset.id⟩
  accepts := decodeCursor env
  after := Asset.after env

/-- The limit of a page, from `Number(request.query.limit)` if that is an integer. -/
def pageLimit (requested : Option Int) : Nat :=
  (max 1 (min (requested.getD 60) 100)).toNat

end Zos.Photostaff.Timeline
