import Mathlib.Algebra.GroupWithZero.Nat

/-!
# Photo metadata, from the tools to the API

`apps/photostaff/src/media.rs` flattens what exiftool and ffprobe report into
groups of lists of scalars, and beside them writes one row for each scalar,
with a flag that says whether its key is sensitive. `complete_publish`
stores both. `getPhotostaffMetadataDetail` in the API reads them back and
leaves out the keys that are flagged.

A map from names is the list of its entries here, and a number is its JSON
text.
-/

namespace Zos.Photostaff

inductive Scalar where
  | bool (value : Bool)
  | number (text : String)
  | text (value : String)
  deriving DecidableEq, Repr

inductive Value where
  | null
  | scalar (value : Scalar)
  | array (items : List Value)
  | object (fields : List (String × Value))

/-! ## Maps -/

/-- `map.entry(key).or_default()`, changed by `f`. -/
def alter {β : Type} (f : Option β → β) (key : String) :
    List (String × β) → List (String × β)
  | [] => [(key, f none)]
  | (k, v) :: rest => if k = key then (k, f (some v)) :: rest else (k, v) :: alter f key rest

abbrev Groups := List (String × List (String × List Scalar))

def Groups.values (groups : Groups) (source path : String) : List Scalar :=
  ((groups.lookup source).bind fun entries => entries.lookup path).getD []

def Groups.push (groups : Groups) (source path : String) (value : Scalar) : Groups :=
  alter (fun entries => alter (fun values => values.getD [] ++ [value]) path
    (entries.getD [])) source groups

/-- `(target[source] ??= {})[key] = values`. -/
def Groups.assign (target : Groups) (source key : String) (values : List Scalar) : Groups :=
  alter (fun entries => alter (fun _ => values) key (entries.getD [])) source target

/-! ## Lengths of JSON texts -/

def charBytes (c : Char) : Nat :=
  if c = '"' ∨ c = '\\' then 2
  else if c.toNat ∈ [0x08, 0x09, 0x0a, 0x0c, 0x0d] then 2
  else if c.toNat < 0x20 then 6
  else c.utf8Size

def stringBytes (s : String) : Nat := 2 + (s.toList.map charBytes).sum

def scalarBytes : Scalar → Nat
  | .bool true => 4
  | .bool false => 5
  | .number text => text.utf8ByteSize
  | .text value => stringBytes value

/-- Brackets, the parts and the commas between them. -/
def listBytes (parts : List Nat) : Nat := 2 + parts.sum + (parts.length - 1)

def groupsBytes (groups : Groups) : Nat :=
  listBytes (groups.map fun group => stringBytes group.1 + 1 +
    listBytes (group.2.map fun entry => stringBytes entry.1 + 1 +
      listBytes (entry.2.map scalarBytes)))

/-! ## Keys -/

def contains (part : List Char) : List Char → Bool
  | [] => part.isEmpty
  | c :: rest => part.isPrefixOf (c :: rest) || contains part rest

def asciiLowercase (s : String) : List Char := s.toList.map Char.toLower

def omittedKey (key : String) : Bool :=
  ["makernote", "thumbnail", "preview", "imagesourcedata", "stripoffsets",
    "stripbytecounts", "jpeginterchangeformat"].any fun part =>
      contains part.toList (asciiLowercase key)

def sensitiveKey (key : String) : Bool :=
  ["gps", "latitude", "longitude", "location", "serial", "owner", "contact", "person",
    "people", "face", "region"].any fun part =>
      contains part.toList (asciiLowercase key)

/-! ## Flattening -/

inductive ValueType where
  | boolean
  | number
  | text
  deriving DecidableEq, Repr

/-- A row of `photostaff_metadata_values`; the typed value columns are one. -/
structure MetadataValue where
  source : String
  key : String
  valueType : ValueType
  value : Scalar
  sensitive : Bool
  ordinal : Nat
  deriving DecidableEq, Repr

def metadataValue (source key : String) (value : Scalar) (sensitive : Bool) (ordinal : Nat) :
    MetadataValue where
  source := source
  key := key
  valueType := match value with
    | .bool _ => .boolean
    | .number _ => .number
    | .text _ => .text
  value := value
  sensitive := sensitive
  ordinal := ordinal

def maxMetadataLeaves : Nat := 4096
def maxMetadataScalarBytes : Nat := 64 * 1024
def maxMetadataJsonBytes : Nat := 512 * 1024
def maxMetadataDepth : Nat := 16

/-- What `sanitize_object` and `flatten_value` write to. -/
structure Flattened where
  groups : Groups
  values : List MetadataValue
  warnings : List String
  leaves : Nat
  bytes : Nat
  deriving DecidableEq, Repr

def Flattened.full (acc : Flattened) : Bool :=
  maxMetadataLeaves ≤ acc.leaves || maxMetadataJsonBytes ≤ acc.bytes

def Flattened.truncated (acc : Flattened) : Flattened :=
  if acc.warnings.contains "Metadata was truncated" then acc
  else { acc with warnings := acc.warnings ++ ["Metadata was truncated"] }

/-- A text that is too long is cut, with a warning. -/
def truncateScalar (value : Scalar) (acc : Flattened) : Scalar × Flattened :=
  match value with
  | .text text =>
      if maxMetadataScalarBytes < text.utf8ByteSize then
        (.text (.ofList (text.toList.take maxMetadataScalarBytes)),
          { acc with warnings := acc.warnings ++ ["Metadata scalar was truncated"] })
      else (value, acc)
  | _ => (value, acc)

def flattenedKey (source path : String) : String := source ++ ":" ++ path

def storeScalar (source path : String) (value : Scalar) (acc : Flattened) : Flattened :=
  if maxMetadataJsonBytes < acc.bytes + scalarBytes value then acc
  else
    let key := flattenedKey source path
    { acc with
      groups := acc.groups.push source path value
      values := acc.values ++ [metadataValue source key value (sensitiveKey key)
        (acc.groups.values source path).length]
      leaves := acc.leaves + 1
      bytes := acc.bytes + scalarBytes value }

mutual

def flattenValue (source path : String) (depth : Nat) (value : Value) (acc : Flattened) :
    Flattened :=
  if maxMetadataDepth < depth || acc.full then acc.truncated
  else match value with
    | .array items => flattenItems source path (depth + 1) items acc
    | .object fields => flattenFields source path (depth + 1) fields acc
    | .null => acc
    | .scalar value =>
        let (value, acc) := truncateScalar value acc
        storeScalar source path value acc

def flattenItems (source path : String) (depth : Nat) (items : List Value)
    (acc : Flattened) : Flattened :=
  match items with
  | [] => acc
  | item :: rest =>
      flattenItems source path depth rest (flattenValue source path depth item acc)

def flattenFields (source path : String) (depth : Nat) (fields : List (String × Value))
    (acc : Flattened) : Flattened :=
  match fields with
  | [] => acc
  | (key, item) :: rest =>
      flattenFields source path depth rest
        (if omittedKey key then acc
          else flattenValue source (path ++ "." ++ key) depth item acc)

end

/-- `key.split_once(':')`. -/
def splitOnce (key : String) : Option (String × String) :=
  let chars := key.toList
  if ':' ∈ chars then
    some (.ofList (chars.takeWhile (· ≠ ':')), .ofList ((chars.dropWhile (· ≠ ':')).drop 1))
  else none

def groupAndField (sourceOverride : Option String) (key : String) : String × String :=
  match sourceOverride with
  | some source => (source, key)
  | none => match splitOnce key with
    | some (group, field) => (.ofList (asciiLowercase group), field)
    | none => ("file", key)

/-- The loop of `sanitize_object` over the fields. -/
def sanitizeFields (sourceOverride : Option String) (fields : List (String × Value))
    (acc : Flattened) : Flattened :=
  match fields with
  | [] => acc
  | (key, value) :: rest =>
      if key = "SourceFile" || omittedKey key then sanitizeFields sourceOverride rest acc
      else
        let (group, field) := groupAndField sourceOverride key
        let acc := flattenValue group field 0 value acc
        if acc.full then acc else sanitizeFields sourceOverride rest acc

/-- `leaves` and `bytes` start from what was collected before. -/
def sanitizeObject (sourceOverride : Option String) (value : Value) (acc : Flattened) :
    Flattened :=
  match value with
  | .object fields =>
      sanitizeFields sourceOverride fields
        { acc with leaves := acc.values.length, bytes := groupsBytes acc.groups }
  | _ => acc

/-- What the tools report about one file. -/
structure ToolOutput where
  embedded : Value
  sidecar : Option Value
  probe : Option Value

/-- The part of `normalize_metadata` that collects groups and values. -/
def normalizeMetadata (output : ToolOutput) (warnings : List String) : Flattened :=
  let acc := sanitizeObject none output.embedded ⟨[], [], warnings, 0, 0⟩
  let acc := match output.sidecar with
    | some sidecar => sanitizeObject (some "sidecar_xmp") sidecar acc
    | none => acc
  match output.probe with
  | some probe => sanitizeObject (some "video") probe acc
  | none => acc

/-! ## Storing and reading -/

structure MetadataDb where
  /-- `raw_metadata_json` and `warnings_json` by asset. -/
  raw : String → Option (Groups × List String)
  values : List (String × MetadataValue)

/-- The metadata statements of `complete_publish_transaction`. -/
def MetadataDb.completePublish (db : MetadataDb) (assetId : String) (metadata : Flattened) :
    MetadataDb where
  raw := fun id => if id = assetId then some (metadata.groups, metadata.warnings) else db.raw id
  values := db.values.filter (fun row => row.1 ≠ assetId) ++
    metadata.values.map fun value => (assetId, value)

structure MetadataDetail where
  groups : Groups
  sensitiveGroups : Option Groups
  sensitiveOmitted : Bool
  warnings : List String
  deriving DecidableEq, Repr

def MetadataDb.sensitiveKeys (db : MetadataDb) (assetId : String) : List String :=
  (db.values.filter fun row => row.1 = assetId && row.2.sensitive).map (·.2.key)

/-- The two loops over the entries of `raw`. -/
def splitGroups (sensitiveSet : List String) (raw : Groups) : Groups × Groups :=
  (raw.flatMap fun group => group.2.map fun entry => (group.1, entry.1, entry.2)).foldl
    (fun (groups, sensitiveGroups) (source, key, values) =>
      if sensitiveSet.contains (source ++ "." ++ key) then
        (groups, Groups.assign sensitiveGroups source key values)
      else (Groups.assign groups source key values, sensitiveGroups)) ([], [])

def getPhotostaffMetadataDetail (db : MetadataDb) (assetId : String)
    (includeSensitive : Bool) : MetadataDetail :=
  let raw := (db.raw assetId).getD ([], [])
  let (groups, sensitiveGroups) := splitGroups (db.sensitiveKeys assetId) raw.1
  { groups := groups
    sensitiveGroups := if includeSensitive then some sensitiveGroups else none
    sensitiveOmitted := !includeSensitive && !sensitiveGroups.isEmpty
    warnings := raw.2 }

end Zos.Photostaff
