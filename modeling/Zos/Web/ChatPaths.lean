import Mathlib.Data.List.Basic
import Zos.Lib.Js

/-!
# Paths in chat messages

`splitWorkspaceMessagePaths` of `apps/web/src/lib/chat-paths.ts` cuts a message into plain text and
paths below the root of a workspace. Strings are sequences of UTF-16 code units; which of them are
letters or digits is a parameter.
-/

namespace Zos.Web.ChatPaths

abbrev CodeUnit := UInt16

abbrev Text := List CodeUnit

/-- A character of the basic plane. -/
def unit (c : Char) : CodeUnit := UInt16.ofNat c.toNat

def slash : CodeUnit := unit '/'
def backslash : CodeUnit := unit '\\'
def dot : CodeUnit := unit '.'
def newline : CodeUnit := unit '\n'
def carriageReturn : CodeUnit := unit '\r'
def colon : CodeUnit := unit ':'

def whiteSpace (c : CodeUnit) : Bool := Lib.whiteSpaceCode c.toNat

def trim (text : Text) : Text := Lib.trimBy whiteSpace text

/-- `replace(/\\/gu, "/")`. -/
def forwardSlashes (text : Text) : Text := text.map fun c => if c = backslash then slash else c

def slice (text : Text) (first last : Nat) : Text := (text.drop first).take (last - first)

/-- The first place from `start` on where the pattern is found. -/
def indexOf (pattern text : Text) (start : Nat) : Option Nat :=
  (List.range' start (text.length + 1 - start)).find? fun i => pattern.isPrefixOf (text.drop i)

/-! ## Normalisation -/

/-- The loop over the segments of a path. -/
def resolveSegments : List Text → List Text → Option (List Text)
  | stack, [] => some stack
  | stack, segment :: rest =>
      if segment = [] ∨ segment = [dot] then resolveSegments stack rest
      else if segment = [dot, dot] then
        if stack = [] then none else resolveSegments stack.dropLast rest
      else resolveSegments (stack ++ [segment]) rest

def join (segments : List Text) : Text := [slash].intercalate segments

def normalizeAbsolutePosixPath (rawPath : Text) : Option Text :=
  let normalized := trim (forwardSlashes rawPath)
  if [slash].isPrefixOf normalized then
    (resolveSegments [] (normalized.splitOn slash)).map fun segments => slash :: join segments
  else none

/-- One of the two is the other or an ancestor of it. -/
def matchesRootPrefix (root stack : List Text) : Bool :=
  if stack.length ≤ root.length then stack.isPrefixOf root else root.isPrefixOf stack

/-- The loop of `pathTraversalStaysInsideRoot`. -/
def staysInside (root : List Text) : Bool → List Text → List Text → Bool
  | _, _, [] => true
  | entered, stack, segment :: rest =>
      if segment = [] ∨ segment = [dot] then staysInside root entered stack rest
      else if segment = [dot, dot] ∧ stack = [] then false
      else
        let stack := if segment = [dot, dot] then stack.dropLast else stack ++ [segment]
        if !matchesRootPrefix root stack || (entered && stack.length < root.length) then false
        else
          staysInside root
            (entered || (stack.length = root.length && matchesRootPrefix root stack)) stack rest

def rootSegments (root : Text) : List Text := ((root.drop 1).splitOn slash).filter (· ≠ [])

def pathTraversalStaysInsideRoot (candidate root : Text) : Bool :=
  root = [slash] || staysInside (rootSegments root) false [] (candidate.splitOn slash)

structure WorkspaceMessagePath where
  displayPath : Text
  workspacePath : Text
  deriving DecidableEq

def rootPrefix (root : Text) : Text := if root = [slash] then [slash] else root ++ [slash]

/-- What comes after the root. -/
def afterRoot (root candidate : Text) : Text :=
  if root = [slash] then if candidate.drop 1 = [] then [dot] else candidate.drop 1
  else candidate.drop (rootPrefix root).length

def resolveWorkspaceMessagePath (candidatePath rootPath : Text) : Option WorkspaceMessagePath :=
  let rawCandidate := trim (forwardSlashes candidatePath)
  if [slash, slash].isPrefixOf rawCandidate then none
  else
    match normalizeAbsolutePosixPath rootPath, normalizeAbsolutePosixPath rawCandidate with
    | some root, some candidate =>
        if !pathTraversalStaysInsideRoot rawCandidate root then none
        else if candidate = root then some ⟨candidatePath, [dot]⟩
        else if !(rootPrefix root).isPrefixOf candidate then none
        else some ⟨candidatePath, afterRoot root candidate⟩
    | _, _ => none

def workspaceAbsolutePath (rootPath workspacePath : Text) : Text :=
  let stripped := ((forwardSlashes rootPath).reverse.dropWhile (· = slash)).reverse
  let root := if stripped = [] then [slash] else stripped
  let workspace := (((forwardSlashes workspacePath).dropWhile (· = slash)).reverse.dropWhile
    (· = slash)).reverse
  if workspace = [] ∨ workspace = [dot] then root
  else if root = [slash] then slash :: workspace
  else root ++ slash :: workspace

/-! ## Where a path begins and ends -/

/-- Three kinds of quotes. -/
def quoteCharacters : List CodeUnit := [0x22, 0x27, 0x60]

/-- `UNQUOTED_PATH_TERMINATOR`: the ASCII part of it, and the Chinese one. -/
def pathTerminator (c : CodeUnit) : Bool :=
  whiteSpace c || ("<>|,;:!?()[]\x7b\x7d".toList.map unit).contains c ||
    quoteCharacters.contains c ||
    [0x3001, 0xff0c, 0x3002, 0xff1b, 0xff1a, 0xff01, 0xff1f, 0xff08, 0xff09, 0x3010, 0x3011,
      0x3008, 0x3009, 0x300a, 0x300b].contains c

/-- `[.…]`. -/
def sentencePunctuation (c : CodeUnit) : Bool := c = dot || c = 0x2026

def dropTrailingPunctuation (text : Text) : Text :=
  (text.reverse.dropWhile sentencePunctuation).reverse

/-- `[a-z]` without regard to case: two more characters fold to letters. -/
def schemeLetter (c : CodeUnit) : Bool :=
  (0x61 ≤ c.toNat && c.toNat ≤ 0x7a) || (0x41 ≤ c.toNat && c.toNat ≤ 0x5a) ||
    c = 0x17f || c = 0x212a

def schemeCharacter (c : CodeUnit) : Bool :=
  schemeLetter c || (0x30 ≤ c.toNat && c.toNat ≤ 0x39) || c = unit '+' || c = dot || c = unit '-'

/-- `URI_SCHEME_SUFFIX`, on a text that comes last unit first. -/
def uriSchemeSuffix : Text → Bool
  | c :: before => c = colon && (before.takeWhile schemeCharacter).any schemeLetter
  | [] => false

def unquotedPathEnd (text : Text) (pathStart : Nat) : Nat :=
  pathStart + ((text.drop pathStart).takeWhile (!pathTerminator ·)).length

/-- Where the line ends, before `\n` or `\r\n`. -/
def lineBreakOffset : Text → Option Nat
  | [] => none
  | c :: rest =>
      if c = newline ∨ c = carriageReturn ∧ rest.head? = some newline then some 0
      else (lineBreakOffset rest).map (· + 1)

def unquotedLineEnd (text : Text) (pathStart : Nat) : Nat :=
  match lineBreakOffset (text.drop pathStart) with
  | none => text.length
  | some offset => pathStart + offset

section

-- The letters and digits, `\p{L}` and `\p{N}`.
variable (letterOrNumber : CodeUnit → Bool)

def canStartPath (text : Text) (pathStart : Nat) : Bool :=
  match (text.take pathStart).reverse with
  | [] => true
  | previous :: before =>
      !(letterOrNumber previous || previous = unit '_' || previous = dot || previous = slash ||
          previous = unit '-') &&
        !uriSchemeSuffix (previous :: before)

/-- The line has nothing but white space before the path. -/
def standaloneLinePath (text : Text) (pathStart : Nat) : Bool :=
  ((text.take pathStart).reverse.takeWhile (· ≠ newline)).all whiteSpace

def quotedEnd (text : Text) (pathStart : Nat) : Option Nat :=
  match (text.take pathStart).getLast? with
  | some quote => if quoteCharacters.contains quote then indexOf [quote] text pathStart else none
  | none => none

def pathEndOf (text : Text) (pathStart : Nat) : Nat :=
  match quotedEnd text pathStart with
  | some quotedEnd => quotedEnd
  | none =>
      let pathEnd :=
        if standaloneLinePath text pathStart then unquotedLineEnd text pathStart
        else unquotedPathEnd text pathStart
      let candidate := slice text pathStart pathEnd
      pathEnd - (candidate.length - (dropTrailingPunctuation candidate).length)

inductive Segment where
  | text (value : Text)
  | path (value : Text) (found : WorkspaceMessagePath)
  deriving DecidableEq

/-- The text before a path, if there is any. -/
def textBefore (text : Text) (textStart pathStart : Nat) : List Segment :=
  if textStart < pathStart then [.text (slice text textStart pathStart)] else []

theorem le_of_indexOf {pattern text : Text} {start i : Nat}
    (h : indexOf pattern text start = some i) : start ≤ i :=
  (List.mem_range'_1.mp (List.mem_of_find?_eq_some h)).1

/-- The loop; the root is not empty, so that every round moves the cursor. -/
def splitFrom (first : CodeUnit) (rootTail text : Text) (cursor textStart : Nat)
    (segments : List Segment) : List Segment × Nat :=
  if _hcursor : cursor < text.length then
    match hfound : indexOf (first :: rootTail) text cursor with
    | none => (segments, textStart)
    | some pathStart =>
        have _hstart : cursor ≤ pathStart := le_of_indexOf hfound
        if canStartPath letterOrNumber text pathStart then
          let pathEnd := pathEndOf text pathStart
          let candidate := slice text pathStart pathEnd
          match resolveWorkspaceMessagePath candidate (first :: rootTail) with
          | none =>
              splitFrom first rootTail text (pathStart + (first :: rootTail).length) textStart
                segments
          | some resolved =>
              splitFrom first rootTail text (max pathEnd (pathStart + (first :: rootTail).length))
                pathEnd (segments ++ textBefore text textStart pathStart ++
                  [.path candidate resolved])
        else
          splitFrom first rootTail text (pathStart + (first :: rootTail).length) textStart segments
  else (segments, textStart)
termination_by text.length - cursor
decreasing_by
  all_goals
    simp only [List.length_cons]
    omega

def splitWorkspaceMessagePaths (text rootPath : Text) : List Segment :=
  match normalizeAbsolutePosixPath rootPath with
  | none | some [] => [.text text]
  | some (first :: rootTail) =>
      if text = [] then [.text text]
      else
        let (segments, textStart) := splitFrom letterOrNumber first rootTail text 0 0 []
        if segments = [] then [.text text]
        else if textStart < text.length then
          segments ++ [.text (slice text textStart text.length)]
        else segments

end

/-! ## Purpose -/

/-- A root that normalisation leaves as it is. -/
structure Root where
  path : Text
  normalized : normalizeAbsolutePosixPath path = some path

def Segment.value : Segment → Text
  | .text value | .path value _ => value

/-- The names in a path as it stands. -/
def names (path : Text) : List Text := (trim (forwardSlashes path)).splitOn slash

/-- The directory that a name leads to. -/
def move (directory : List Text) (name : Text) : List Text :=
  if name = [] ∨ name = [dot] then directory
  else if name = [dot, dot] then directory.dropLast
  else directory ++ [name]

/-- The directories on the way. -/
def visited : List Text → List Text → List (List Text)
  | directory, [] => [directory]
  | directory, name :: rest => directory :: visited (move directory name) rest

/-- What a path in a message says about itself. -/
structure Resolves (root : Root) (value : Text) (found : WorkspaceMessagePath) : Prop where
  display : found.displayPath = value
  inside : ∃ below, (names value).foldl move [] = rootSegments root.path ++ below
  stays : (visited [] (names value)).Pairwise fun earlier later =>
    rootSegments root.path <+: earlier → rootSegments root.path <+: later
  clean : found.workspacePath = [dot] ∨ ∀ name ∈ found.workspacePath.splitOn slash,
    name ≠ [] ∧ name ≠ [dot] ∧ name ≠ [dot, dot]
  absolute : normalizeAbsolutePosixPath value =
    some (workspaceAbsolutePath root.path found.workspacePath)

structure FaithfulCut (root : Root) (text : Text) (segments : List Segment) : Prop where
  whole : segments.flatMap Segment.value = text
  paths : ∀ value found, .path value found ∈ segments → Resolves root value found

end Zos.Web.ChatPaths
