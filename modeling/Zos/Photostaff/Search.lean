import Mathlib.Data.List.Dedup
import Zos.Photostaff.Metadata

/-!
# Keywords and values of an asset in the index

What `complete_publish_transaction` of `apps/photostaff/src/db.rs` writes to the tables of
keywords and values, with `metadata_strings` of `media.rs`, and the conditions that `buildQuery`
and `buildMetadataCondition` of `packages/db/src/repositories/photostaff-metadata.ts` put on them.
The operations on texts of the two languages are parameters.
-/

namespace Zos.Photostaff.Search

structure Env where
  /-- `str::trim` and `str::to_lowercase`. -/
  rustTrim : String → String
  toLowercase : String → String
  /-- `normalize("NFKC")`, `trim()` and `toLocaleLowerCase("und")`. -/
  nfkc : String → String
  trim : String → String
  toLocaleLowerCase : String → String

variable (env : Env)

/-! ## The daemon -/

/-- A text that is not blank. -/
def keywordText : Scalar → Option String
  | .text value => some (env.rustTrim value) |>.filter fun text => text ≠ ""
  | _ => none

def metadataStrings (groups : Groups) : List String → List String
  | [] => []
  | key :: keys => match splitOnce key with
    | none => metadataStrings groups keys
    | some (source, field) =>
        let values := (groups.values (.ofList (asciiLowercase source)) field).filterMap
          (keywordText env)
        if values.isEmpty then metadataStrings groups keys else values

/-- The keywords of a record, which go through a `BTreeSet`. -/
def keywordsOf (groups : Groups) : List String :=
  (metadataStrings env groups ["XMP:Subject", "IPTC:Keywords", "sidecar_xmp:XMP:Subject"]).dedup
    |>.mergeSort (· ≤ ·)

structure AssetRow where
  id : String
  libraryUpdatedAt : String
  isReady : Bool
  schemaVersion : Option Nat
  deriving DecidableEq, Repr

structure KeywordRow where
  assetId : String
  keyword : String
  normalizedKeyword : String
  deriving DecidableEq, Repr

structure ValueRow where
  assetId : String
  key : String
  textValue : Option String
  normalizedTextValue : Option String
  dateValue : Option String
  sensitive : Bool
  deriving DecidableEq, Repr

structure Db where
  assets : List AssetRow
  keywords : List KeywordRow
  values : List ValueRow

def metadataSchemaVersion : Nat := 2

/-- `INSERT OR IGNORE`; the primary key is the asset and the normalised keyword. -/
def insertOrIgnore (rows : List KeywordRow) (row : KeywordRow) : List KeywordRow :=
  if rows.any fun other =>
    other.assetId = row.assetId && other.normalizedKeyword = row.normalizedKeyword then rows
  else rows ++ [row]

def keywordRow (assetId keyword : String) : KeywordRow :=
  ⟨assetId, keyword, env.toLowercase keyword⟩

/-- The rows of one asset; those it had before are deleted. -/
def keywordRows (assetId : String) (keywords : List String) : List KeywordRow :=
  (keywords.map (keywordRow env assetId)).foldl insertOrIgnore []

def valueRow (assetId : String) (value : MetadataValue) : ValueRow where
  assetId := assetId
  key := value.key
  textValue := match value.value with
    | .text text => some text
    | _ => none
  normalizedTextValue := match value.value with
    | .text text => some (env.toLowercase text)
    | _ => none
  dateValue := none
  sensitive := value.sensitive

def Db.completePublish (db : Db) (assetId libraryUpdatedAt : String) (metadata : Flattened) :
    Db where
  assets := db.assets.filter (·.id ≠ assetId) ++
    [⟨assetId, libraryUpdatedAt, true, some metadataSchemaVersion⟩]
  keywords := db.keywords.filter (·.assetId ≠ assetId) ++
    keywordRows env assetId (keywordsOf env metadata.groups)
  values := db.values.filter (·.assetId ≠ assetId) ++ metadata.values.map (valueRow env assetId)

/-! ## Queries -/

def normalizeText (value : String) : String :=
  env.toLocaleLowerCase (env.trim (env.nfkc value))

/-- An advanced condition with the operator `eq` and a text. -/
structure EqCondition where
  key : String
  value : String

structure Filters where
  keywords : List String
  conditions : List EqCondition

def Db.hasKeyword (db : Db) (assetId : String) (keywords : List String) : Bool :=
  db.keywords.any fun row =>
    row.assetId = assetId && (keywords.map (normalizeText env)).contains row.normalizedKeyword

/-- `COALESCE(v.date_value, v.normalized_text_value) = ?`. -/
def Db.hasValue (db : Db) (assetId : String) (condition : EqCondition) : Bool :=
  db.values.any fun row => row.assetId = assetId && !row.sensitive && row.key = condition.key &&
    row.dateValue.or row.normalizedTextValue = some (normalizeText env condition.value)

def Db.isMatch (db : Db) (libraryUpdatedAt : String) (filters : Filters) (asset : AssetRow) :
    Bool :=
  asset.libraryUpdatedAt = libraryUpdatedAt && asset.isReady &&
    (filters.keywords.isEmpty || db.hasKeyword env asset.id filters.keywords) &&
    (filters.conditions.take 25).all (db.hasValue env asset.id) &&
    (filters.keywords.isEmpty && filters.conditions.isEmpty ||
      asset.schemaVersion = some metadataSchemaVersion)

/-- The ids that a query is about. -/
def Db.matchingIds (db : Db) (libraryUpdatedAt : String) (filters : Filters) : List String :=
  (db.assets.filter (db.isMatch env libraryUpdatedAt filters)).map AssetRow.id

end Zos.Photostaff.Search
