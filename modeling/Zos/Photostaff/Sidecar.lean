import Zos.Lib.Like

/-!
# Sidecars of photos

The file with the metadata of a photo beside it: `sidecar_for` of `apps/photostaff/src/db.rs`
asks the entries of a scan, `sidecar_associations` of `media.rs` a list of names, and
`resolveAssociatedSidecar` of `apps/api/src/routes/photos.ts` the directory. The regular files of
one directory are a list of names here, and the entries of the scan are those files. Rust and
JavaScript lower texts alike; it is known that a slash is a border. SQLite lowers letters of ASCII.
-/

namespace Zos.Photostaff.Sidecar

open Zos.Lib.Like

abbrev Text := List Char

def asciiLower (text : Text) : Text := text.map Char.toLower

structure Env where
  lower : Text → Text
  trim : Text → Text
  lower_join : ∀ directory name, lower (directory ++ '/' :: name) =
    lower directory ++ '/' :: lower name

inductive MediaKind where
  | image
  | video
  | raw
  deriving DecidableEq, Repr

/-! ## Names -/

/-- What comes before and after the last dot. -/
def splitAtDot (name : Text) : Option (Text × Text) :=
  let reversed := name.reverse
  if '.' ∈ name then
    some ((reversed.dropWhile (· ≠ '.')).drop 1 |>.reverse, (reversed.takeWhile (· ≠ '.')).reverse)
  else none

/-- `Path::file_stem` and `path.parse(name).name`. -/
def fileStem (name : Text) : Text :=
  match splitAtDot name with
  | some (stem, _) => if stem.isEmpty then name else stem
  | none => name

-- The lists of extensions are searched with it.
local instance : LawfulBEq Text := inferInstance

def kindOfExtension (extension : Text) : Option MediaKind :=
  if extension ∈ ["jpg", "jpeg", "png", "webp", "gif", "heic", "heif"].map String.toList then
    some .image
  else if extension ∈ ["mp4", "mov", "m4v", "avi", "mkv", "webm", "mpeg", "mpg"].map
      String.toList then some .video
  else if extension ∈ ["cr2", "cr3", "crw", "nef", "nrw", "arw", "srf", "sr2", "dng", "raf", "orf",
      "rw2", "pef", "rwl", "3fr", "x3f", "erf", "kdc", "mos", "mrw", "bay"].map String.toList then
    some .raw
  else none

/-- A name that begins with its only dot has no extension. -/
def candidateKind (name : Text) : Option MediaKind :=
  match splitAtDot name with
  | some (stem, extension) =>
      if stem.isEmpty then none else kindOfExtension (asciiLower extension)
  | none => none

def photostaffMediaKind (env : Env) (name : Text) : Option MediaKind :=
  (splitAtDot (env.lower (env.trim name))).bind fun parts => kindOfExtension parts.2

def xmp : Text := ".xmp".toList

def isSidecar (name : Text) : Bool :=
  (candidateKind name).isNone && xmp.isSuffixOf (asciiLower name)

/-! ## The daemon -/

def join (parent name : Text) : Text := if parent.isEmpty then name else parent ++ '/' :: name

/-- The pattern for the entries of a directory: wildcards in its path are escaped. -/
def siblingLike (parent : Text) : Text :=
  (if parent.isEmpty then [] else
    (parent ++ ['/']).flatMap fun c => if c = '%' ∨ c = '_' then ['\\', c] else [c]) ++ ['%']

def ambiguousName : String := "Ambiguous XMP sidecar name"
def notAttached : String := "Ambiguous XMP sidecar was not attached"

variable (env : Env) (parent : Text) (names : List Text)

/-- The sidecar entries with one of the two names, in the case of ASCII letters or another. -/
def candidates (media : Text) : List Text :=
  (names.filter isSidecar).filter fun name =>
    asciiLower (join parent name) = asciiLower (join parent (media ++ xmp)) ∨
      asciiLower (join parent name) = asciiLower (join parent (fileStem media ++ xmp))

def candidatesNamed (media expected : Text) : List Text :=
  (candidates parent names media).filter fun name =>
    env.lower (join parent name) = env.lower (join parent expected)

def sameStem (media : Text) : List Text :=
  ((names.filter fun name => (candidateKind name).isSome).filter fun name =>
    like (tokens (siblingLike parent)) (join parent name)).filter fun name =>
      env.lower (fileStem name) = env.lower (fileStem media)

def sidecarFor (media : Text) : Except String (Option Text) :=
  match candidatesNamed env parent names media (media ++ xmp) with
  | [name] => .ok (some name)
  | _ :: _ :: _ => .error ambiguousName
  | [] => match candidatesNamed env parent names media (fileStem media ++ xmp) with
    | [] => .ok none
    | _ :: _ :: _ => .error ambiguousName
    | [name] =>
        let same := sameStem env parent names media
        let rawMatches := (same.filter fun name => candidateKind name = some .raw).length
        if same.length = 1 ∨ candidateKind media = some .raw ∧ rawMatches = 1 then
          .ok (some name)
        else .error notAttached

/-! ## The reference -/

/-- The names with this key. -/
def actual (key : Text) : List Text := names.filter fun name => env.lower name = key

def siblings (kind : Text → Option MediaKind) (media : Text) : List Text :=
  names.filter fun name =>
    (kind name).isSome && env.lower (fileStem name) = env.lower (fileStem media)

def sidecarAssociations (media : Text) : Except String (Option Text) :=
  match actual env names (env.lower (media ++ xmp)) with
  | [name] => .ok (some name)
  | _ :: _ :: _ => .error ambiguousName
  | [] => match actual env names (env.lower (fileStem media) ++ xmp) with
    | [] => .ok none
    | first :: others =>
        let same := siblings env names candidateKind media
        let raw := same.filter fun name => candidateKind name = some .raw
        if others.length ≠ 0 ∨ 1 < same.length ∧ raw ≠ [media] then .error notAttached
        else .ok (some first)

/-! ## The API -/

/-- Of names with the same key the map has the last. -/
def resolveAssociatedSidecar (media : Text) : Option Text :=
  match (actual env names (env.lower (media ++ xmp))).getLast? with
  | some name => some name
  | none =>
      let same := siblings env names (photostaffMediaKind env) media
      let raw := same.filter fun name => photostaffMediaKind env name = some .raw
      if same.length = 1 ∨ raw = [media] then
        (actual env names (env.lower (fileStem media) ++ xmp)).getLast?
      else none

/-- The sidecar that was found, if one was. -/
def selected (result : Except String (Option Text)) : Option Text := result.toOption.join

end Zos.Photostaff.Sidecar
