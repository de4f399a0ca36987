import Mathlib.Algebra.Group.Int.Defs
import Mathlib.Algebra.Group.Nat.Defs
import Mathlib.Data.Char
import Mathlib.Data.Int.Order.Basic
import Mathlib.Data.List.Lex
import Mathlib.Data.Prod.Lex
import Mathlib.Data.Sum.Order
import Mathlib.Order.WithBot
import Zos.Lib.ScopedPaging

/-!
# Advanced search

`queryIndexAdvanced` of `packages/db/src/repositories/index-search.ts` and `POST /api/search` of
`apps/api/src/routes/files.ts`. The filters are conditions on a single file, here one predicate;
what the text search finds is a table of file ids and scores. Texts compare as their bytes do. A
number that SQLite returns is a double, so that the cursor of a page carries the double nearest to
the value the rows are ordered by; SQLite compares integers with doubles exactly. The signature in a
cursor leaves out limit and cursor, so that it is the same in all requests of one search.
-/

namespace Zos.Indexer.AdvancedSearch

open Zos.Lib

structure File where
  id : List Char
  name : List Char
  sizeBytes : Int
  mtimeMs : Int
  deriving DecidableEq

inductive SortField where
  | relevance
  | name
  | mtime
  | size
  deriving DecidableEq, Repr

inductive Direction where
  | asc
  | desc
  deriving DecidableEq, Repr

section

variable {σ : Type}

/-- A row of `matches`. -/
structure Match (σ : Type) where
  fileId : List Char
  score : σ

structure Content (σ : Type) where
  files : List File
  distinct : (files.map File.id).Nodup
  found : List (Match σ)

/-- A request without its limit and cursor. -/
structure Request where
  accepts : File → Bool
  /-- There is a query. -/
  queried : Bool
  field : SortField
  direction : Direction

/-- Without a query there is no relevance to sort by. -/
def Request.sortField (request : Request) : SortField :=
  if !request.queried && request.field = .relevance then .name else request.field

/-- A row of the result: a file, and its score if there is a query. -/
structure Row (σ : Type) where
  file : File
  score : WithBot σ

/-- `indexed_files f JOIN matches m ON m.file_id = f.id`, with the conditions on files. -/
def Content.rows (content : Content σ) (request : Request) : List (Row σ) :=
  (content.files.filter request.accepts).flatMap fun file =>
    if request.queried then
      (content.found.filter (·.fileId = file.id)).map fun found => ⟨file, found.score⟩
    else [⟨file, ⊥⟩]

/-- The values of the sort expressions: scores, texts and integers. -/
abbrev Value (σ : Type) := WithBot σ ⊕ₗ List Char ⊕ₗ ℤ

def Value.integer (n : Int) : Value σ := Sum.inrₗ (Sum.inrₗ n)

/-- `lower`, which knows ASCII only. -/
def lower (text : List Char) : List Char := text.map Char.toLower

def searchSortExpression (field : SortField) (row : Row σ) : Value σ :=
  match field with
  | .relevance => Sum.inlₗ row.score
  | .name => Sum.inrₗ (Sum.inlₗ (lower row.file.name))
  | .mtime => .integer row.file.mtimeMs
  | .size => .integer row.file.sizeBytes

/-- The double nearest to an integer, the even one of two. -/
def toDouble (n : Int) : Int :=
  let unit := 2 ^ (n.natAbs.log2 - 52)
  let quotient := n.natAbs / unit
  let remainder := n.natAbs % unit
  let up := unit < 2 * remainder ∨ (unit = 2 * remainder ∧ quotient % 2 = 1)
  n.sign * ((if up then quotient + 1 else quotient) * unit : Nat)

/-- A value as JavaScript sees it. -/
def Value.returned (value : Value σ) : Value σ :=
  match ofLex value with
  | .inl score => Sum.inlₗ score
  | .inr rest =>
    match ofLex rest with
    | .inl text => Sum.inrₗ (Sum.inlₗ text)
    | .inr n => .integer (toDouble n)

structure SearchCursor (σ : Type) where
  sortValue : Value σ
  fileId : List Char

variable [LinearOrder σ]

def operator {α : Type} [LT α] [DecidableLT α] (direction : Direction) (value bound : α) : Bool :=
  match direction with
  | .asc => bound < value
  | .desc => value < bound

def Request.pager (request : Request) : Pager (Row σ) (SearchCursor σ) where
  cursorOf row := ⟨(searchSortExpression request.sortField row).returned, row.file.id⟩
  accepts _ := true
  after cursor row :=
    let value := searchSortExpression request.sortField row
    operator request.direction value cursor.sortValue ||
      (value = cursor.sortValue && operator request.direction row.file.id cursor.fileId)

/-- What the rows are ordered by. -/
def Request.key (request : Request) (row : Row σ) : Value σ ×ₗ List Char :=
  toLex (searchSortExpression request.sortField row, row.file.id)

/-- What the cursor of a row is compared as. -/
def Request.bound (request : Request) (row : Row σ) : Value σ ×ₗ List Char :=
  toLex ((searchSortExpression request.sortField row).returned, row.file.id)

def Content.ordered (content : Content σ) (request : Request) : List (Row σ) :=
  match request.direction with
  | .asc => (content.rows request).mergeSort fun a b => request.key a ≤ request.key b
  | .desc => (content.rows request).mergeSort fun a b => request.key b ≤ request.key a

def Request.Before (request : Request) (a b : Row σ) : Prop :=
  match request.direction with
  | .asc => request.key a < request.key b
  | .desc => request.key b < request.key a

/-- The cursor of `a` is not before `a`, and it is before `b`. -/
def Request.Between (request : Request) (a b : Row σ) : Prop :=
  match request.direction with
  | .asc => request.key a ≤ request.bound a ∧ request.bound a < request.key b
  | .desc => request.bound a ≤ request.key a ∧ request.key b < request.bound a

def maxAdvancedSearchScopePages : Nat := 20

/-- Following the cursors of the search, or of the route, gives every file that matches once, in
the order of the request. -/
structure PagedCompletely (content : Content σ) (request : Request) (inPool : File → Bool) :
    Prop where
  matching : ∀ file, file ∈ (content.ordered request).map Row.file ↔
    file ∈ content.files ∧ request.accepts file = true ∧
      (request.queried = true → ∃ found ∈ content.found, found.fileId = file.id)
  once : ((content.ordered request).map (·.file.id)).Nodup
  inOrder : (content.ordered request).Pairwise request.Before
  pages : request.pager.Complete (content.ordered request) fun limit => 1 ≤ limit ∧ limit ≤ 100
  answers : request.pager.GatheredComplete (content.ordered request) (inPool ·.file)
    maxAdvancedSearchScopePages fun limit => 1 ≤ limit ∧ limit ≤ 100

/-- No file is found twice. -/
def FoundOnce (content : Content σ) (request : Request) : Prop :=
  request.queried = true → ∀ file ∈ content.files, request.accepts file = true →
    (content.found.filter (·.fileId = file.id)).length ≤ 1

end

end Zos.Indexer.AdvancedSearch
