import Mathlib.Algebra.Group.Nat.Defs
import Mathlib.Data.List.Basic
import Zos.Lib.Replace

/-!
# The mount of a pool

Three copies of one look-up go through `/proc/self/mountinfo`: `find_mountpoint` of
`apps/downloader/src/storage.rs` and `find_mountpoint_in` of `apps/photostaff/src/storage.rs` and
`apps/vod-player/src/storage.rs`. The second part is the kernel's: how it writes a mount as a line.
Names are texts; a table with bytes that are no UTF-8 is not read at all.
-/

namespace Zos.Storage.Mounts

open Zos.Lib

abbrev Text := List Char

/-! ## Texts as Rust takes them -/

/-- `char::is_whitespace`. -/
def whitespace (c : Char) : Bool :=
  [0x20, 0x85, 0xa0, 0x1680, 0x2028, 0x2029, 0x202f, 0x205f, 0x3000].contains c.toNat ||
    (0x09 ≤ c.toNat && c.toNat ≤ 0x0d) || (0x2000 ≤ c.toNat && c.toNat ≤ 0x200a)

def splitWhitespace (text : Text) : List Text := (text.splitOnP whitespace).filter (· ≠ [])

def splitOnce (pattern : Text) : Text → Option (Text × Text)
  | [] => if pattern = [] then some ([], []) else none
  | c :: rest =>
      if pattern.isPrefixOf (c :: rest) then some ([], (c :: rest).drop pattern.length)
      else (splitOnce pattern rest).map fun (before, after) => (c :: before, after)

/-- A carriage return belongs to the end of its line. -/
def stripReturn (line : Text) : Text :=
  if line.getLast? = some '\r' then line.dropLast else line

/-- What follows the last line feed is a line of its own unless it is empty. -/
def lines (text : Text) : List Text :=
  let pieces := text.splitOn '\n'
  pieces.dropLast.map stripReturn ++ pieces.getLast?.toList.filter (· ≠ [])

def parseU64 (text : Text) : Option Nat :=
  let digits := if text.head? = some '+' then text.tail else text
  if digits = [] ∨ digits.any (! Char.isDigit ·) then none
  else
    let value := digits.foldl (fun n c => 10 * n + (c.toNat - '0'.toNat)) 0
    if value < 2 ^ 64 then some value else none

inductive Component where
  | rootDir
  | curDir
  | parentDir
  | normal (name : Text)
  deriving DecidableEq, Repr

/-- `Path::components`: two paths are equal, or one starts with the other, by these. -/
def components (path : Text) : List Component :=
  let segments := path.splitOn '/'
  let front := if path.head? = some '/' then [.rootDir]
    else if segments.head? = some ['.'] then [.curDir] else []
  front ++ (segments.filter fun s => s ≠ [] ∧ s ≠ ['.']).map fun s =>
    if s = ['.', '.'] then .parentDir else .normal s

def samePath (first second : Text) : Bool := components first = components second

def startsWith (path root : Text) : Bool := (components root).isPrefixOf (components path)

/-! ## The look-ups -/

def unescapeMountField (value : Text) : Text :=
  replaceAll "\\134".toList ['\\'] (replaceAll "\\012".toList ['\n']
    (replaceAll "\\011".toList ['\t'] (replaceAll "\\040".toList [' '] value)))

/-- What all three take from a line: the mount id, the mount point and the source. -/
def mountFields (line : Text) : Option (Text × Text × Text) :=
  (splitOnce " - ".toList line).bind fun (left, right) =>
    match splitWhitespace left, splitWhitespace right with
    | id :: _ :: _ :: _ :: mountpoint :: _, _ :: source :: _ => some (id, mountpoint, source)
    | _, _ => none

/-- The pool that is asked for, and what `canonicalize` answers. -/
structure Query where
  storagePoolId : Text
  root : Text
  canonicalize : Text → Option Text

namespace Query

variable (query : Query)

def requested : Option Text := query.canonicalize query.storagePoolId

def sourceMatches (source : Text) : Bool :=
  source = query.storagePoolId ||
    query.requested.any fun requested => (query.canonicalize source).any (samePath · requested)

def atOrBelowRoot (mountpoint : Text) : Bool :=
  samePath mountpoint query.root || startsWith mountpoint query.root

end Query

structure MountLocation where
  path : Text
  mountId : Option Nat
  deriving DecidableEq, Repr

/-- The downloader's: the first mount of the source. -/
def findMountpoint (query : Query) (mountinfo : Text) : Option Text :=
  ((lines mountinfo).findSome? fun line =>
    (mountFields line).bind fun (_, mountpoint, source) =>
      if query.sourceMatches (unescapeMountField source) then some (unescapeMountField mountpoint)
      else none) <|>
  if query.requested.any (samePath · query.root) then some query.root else none

def rootLocation (query : Query) : Option MountLocation :=
  if query.requested.any (samePath · query.root) || samePath query.storagePoolId query.root then
    some ⟨query.root, none⟩
  else none

namespace Photostaff

def findMountpointIn (query : Query) (mountinfo : Text) : Option MountLocation :=
  ((lines mountinfo).findSome? fun line =>
    (mountFields line).bind fun (id, mountpoint, source) =>
      let mountpoint := unescapeMountField mountpoint
      if query.sourceMatches (unescapeMountField source) && query.atOrBelowRoot mountpoint then
        (parseU64 id).map fun mountId => ⟨mountpoint, some mountId⟩
      else none) <|>
  rootLocation query

end Photostaff

namespace VodPlayer

def findMountpointIn (query : Query) (mountinfo : Text) : Option MountLocation :=
  ((lines mountinfo).findSome? fun line =>
    (mountFields line).bind fun (id, mountpoint, source) =>
      if ! query.sourceMatches (unescapeMountField source) then none
      else (parseU64 id).bind fun mountId =>
        let mountpoint := unescapeMountField mountpoint
        if query.atOrBelowRoot mountpoint then some ⟨mountpoint, some mountId⟩ else none) <|>
  rootLocation query

end VodPlayer

/-! ## The kernel's table -/

/-- A field that is one word, and not the separator. -/
structure Field where
  text : Text
  nonempty : text ≠ []
  solid : ∀ c ∈ text, whitespace c = false
  notDash : text ≠ ['-']

structure Mount where
  id : Field
  numbered : (parseU64 id.text).isSome
  parent : Field
  device : Field
  root : Text
  rootAbsolute : root.head? = some '/'
  point : Text
  pointAbsolute : point.head? = some '/'
  options : Field
  optional : List Field
  fsType : Field
  source : Text
  superOptions : Field

def octal (c : Char) : Option Text :=
  if c = ' ' then some "040".toList
  else if c = '\t' then some "011".toList
  else if c = '\n' then some "012".toList
  else if c = '\\' then some "134".toList
  else none

def escapeChar (c : Char) : Text :=
  match octal c with
  | some digits => '\\' :: digits
  | none => [c]

def escape (name : Text) : Text := name.flatMap escapeChar

def joinFields (fields : List Text) : Text := [' '].intercalate fields

def Mount.left (m : Mount) : List Text :=
  [m.id.text, m.parent.text, m.device.text, escape m.root, escape m.point, m.options.text] ++
    m.optional.map Field.text

def Mount.right (m : Mount) : List Text :=
  [m.fsType.text, escape m.source, m.superOptions.text]

def Mount.line (m : Mount) : Text := joinFields m.left ++ " - ".toList ++ joinFields m.right

def mountinfo (table : List Mount) : Text := table.flatMap fun m => m.line ++ ['\n']

/-! ## Purpose -/

/-- The pool's source is mounted here, at or below the root. -/
def Query.Finds (query : Query) (m : Mount) : Prop :=
  query.sourceMatches m.source ∧ query.atOrBelowRoot m.point

instance (query : Query) : DecidablePred query.Finds :=
  fun _ => inferInstanceAs (Decidable (_ ∧ _))

/-- A table in which `first` is the first mount the pool asks for. -/
structure Lookup where
  query : Query
  before : List Mount
  first : Mount
  after : List Mount
  found : query.Finds first
  unfound : ∀ m ∈ before, ¬ query.Finds m

def Lookup.table (lookup : Lookup) : List Mount := lookup.before ++ lookup.first :: lookup.after

structure Lookup.Right (lookup : Lookup) : Prop where
  downloader : findMountpoint lookup.query (mountinfo lookup.table) = some lookup.first.point
  photostaff : (Photostaff.findMountpointIn lookup.query (mountinfo lookup.table)).map (·.path) =
    some lookup.first.point
  vodPlayer : (VodPlayer.findMountpointIn lookup.query (mountinfo lookup.table)).map (·.path) =
    some lookup.first.point

/-! ## What a look-up sees -/

/-- White space that the kernel does not escape. -/
def bare (c : Char) : Bool := whitespace c && (octal c).isNone

/-- The pieces into which bare white space cuts a name. -/
def words (name : Text) : List Text := (name.splitOnP bare).filter (· ≠ [])

/-- The second word of what stands from the mount's root on. -/
def Mount.seenPoint (m : Mount) : Text :=
  match words m.root with
  | _ :: second :: _ => second
  | _ => (words m.point).headD []

/-- The first word of what stands behind the type. -/
def Mount.seenSource (m : Mount) : Text :=
  (words m.source).headD (unescapeMountField m.superOptions.text)

/-- The mount point seen of the first mount that `taken` takes. -/
def seen (table : List Mount) (taken : Mount → Bool) (fallback : Option Text) : Option Text :=
  ((table.find? taken).map Mount.seenPoint) <|> fallback

/-- As the names are seen, the first mount of the source is the one that is asked for, and so is
the first one of the source at or below the root. -/
def Lookup.WellSeen (lookup : Lookup) : Prop :=
  seen lookup.table (fun m => lookup.query.sourceMatches m.seenSource)
      (if lookup.query.requested.any (samePath · lookup.query.root) then some lookup.query.root
        else none) = some lookup.first.point ∧
    seen lookup.table (fun m => lookup.query.sourceMatches m.seenSource &&
        lookup.query.atOrBelowRoot m.seenPoint)
      ((rootLocation lookup.query).map (·.path)) = some lookup.first.point

end Zos.Storage.Mounts
