import Mathlib.Data.List.Basic

/-!
# The edit tool of the agent

`buildEditPreview` and `editTool.execute` of `packages/agent/src/pi-agent.ts`. A text is its UTF-16
code units. `String.prototype.replace` takes its second argument as a template: a dollar sign
before another one, an ampersand, a backquote or a quote is not itself but a dollar sign, the
match, or the text on one of its sides.
-/

namespace Zos.Agent

abbrev Text := List UInt16

def dollar : UInt16 := 0x24

/-- `GetSubstitution` for a search string, which has no groups. -/
def getSubstitution (before matched after : Text) : Text → Text
  | unit :: next :: template =>
      if unit ≠ dollar then unit :: getSubstitution before matched after (next :: template)
      else if next = dollar then dollar :: getSubstitution before matched after template
      else if next = 0x26 then matched ++ getSubstitution before matched after template
      else if next = 0x60 then before ++ getSubstitution before matched after template
      else if next = 0x27 then after ++ getSubstitution before matched after template
      else unit :: getSubstitution before matched after (next :: template)
  | template => template

def includes (content oldText : Text) : Bool := (content.dropInfix? oldText).isSome

/-- `content.replace(oldText, newText)`. -/
def replace (content oldText newText : Text) : Text :=
  match content.dropInfix? oldText with
  | none => content
  | some (before, after) => before ++ getSubstitution before oldText after newText ++ after

structure Edit where
  oldText : Text
  newText : Text

def applyEdit (relativePath : String) (content : Text) (edit : Edit) : Except String Text := do
  if edit.oldText = [] then throw "edit oldText cannot be empty"
  if !includes content edit.oldText then
    throw s!"edit oldText was not found in {relativePath}"
  return replace content edit.oldText edit.newText

/-- The content that the edits make of a file. -/
def buildEditPreview (relativePath : String) (content : Text) (edits : List Edit) :
    Except String Text :=
  edits.foldlM (applyEdit relativePath) content

/-- What the tool writes, if anything: the file is read again after the approval. -/
def execute (relativePath : String) (approved : Bool) (shown fresh : Text) (edits : List Edit) :
    Except String (Option Text) := do
  if edits.isEmpty then return none
  let _ ← buildEditPreview relativePath shown edits
  if !approved then return none
  return some (← buildEditPreview relativePath fresh edits)

end Zos.Agent
