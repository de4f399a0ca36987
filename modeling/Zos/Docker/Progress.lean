import Zos.Lib.Js
import Zos.Lib.Json
import Zos.Lib.StringDecoder

/-!
# The progress stream of the Docker daemon

A pull or a push is answered with one JSON text a line. `requestNdjson` reads the lines as they
arrive and rejects at the first one that reports an error. What `JSON.parse` does with a line is
a parameter: `none` is a `SyntaxError`.
-/

namespace Zos.Docker.Progress

open Zos.Lib

abbrev Line := List Char

inductive Failure where
  | syntaxError (line : Line)
  /-- The property of `null` that was asked for. -/
  | typeError
  /-- `DockerRequestError`. -/
  | request (message : Json)
  | response

/-- `split(/\r?\n/u)`. -/
def splitLines : List Char → List Line
  | [] => [[]]
  | '\n' :: text => [] :: splitLines text
  | '\r' :: '\n' :: text => [] :: splitLines text
  | c :: text => (splitLines text).modifyHead (c :: ·)

def blank (line : Line) : Bool := line.all whiteSpace

def detailMessage (progress : Json) : Option Json :=
  (progress.fields.lookup "errorDetail").bind fun detail => detail.fields.lookup "message"

/-- `progress.errorDetail?.message ?? progress.error`. -/
def message (progress : Json) : Option Json :=
  match detailMessage progress with
  | none | some .null => progress.fields.lookup "error"
  | some message => some message

section

variable (parse : Line → Option Json)

/-- What is thrown at a line. -/
def parseLine (line : Line) : Option Failure :=
  if blank line then none
  else
    match parse line with
    | none => some (.syntaxError line)
    | some .null => some .typeError
    | some progress => ((message progress).filter Json.truthy).map .request

/-- What is thrown, if anything, and the pending line after that. -/
def consume (pending text : List Char) (complete : Bool) : Option Failure × List Char :=
  let lines := splitLines (pending ++ text)
  let pending := if complete then [] else lines.getLast?.getD []
  let lines := if complete then lines else lines.dropLast
  let failure := lines.findSome? (parseLine parse)
  let last := if complete && !blank pending then parseLine parse pending else none
  (failure.or last, pending)

end

inductive Outcome where
  | resolved
  | rejected (failure : Failure)

/-- The variables of the response handler, and the calls of `resolve` and `reject`. -/
structure Reader where
  decoder : StringDecoder
  pending : List Char
  settled : Bool
  outcomes : List Outcome

def Reader.initial : Reader := ⟨.empty, [], false, []⟩

def Reader.fail (r : Reader) (failure : Failure) : Reader :=
  if r.settled then r
  else { r with settled := true, outcomes := r.outcomes ++ [.rejected failure] }

inductive Event where
  | data (chunk : List Nat)
  | finish
  | error

def Reader.on (parse : Line → Option Json) (r : Reader) : Event → Reader
  | .data chunk =>
      if r.settled then r
      else
        let written := r.decoder.write chunk
        let consumed := consume parse r.pending written.1 false
        let r := { r with decoder := written.2, pending := consumed.2 }
        match consumed.1 with
        | some failure => r.fail failure
        | none => r
  | .finish =>
      if r.settled then r
      else
        let consumed := consume parse r.pending r.decoder.finish true
        let r := { r with decoder := .empty, pending := consumed.2 }
        match consumed.1 with
        | some failure => r.fail failure
        | none => { r with settled := true, outcomes := r.outcomes ++ [.resolved] }
  | .error => r.fail .response

/-- The outcomes of a response that arrives in these chunks; other events may come after it. -/
def requestNdjson (parse : Line → Option Json) (chunks : List (List Nat)) (later : List Event) :
    List Outcome :=
  ((chunks.map Event.data ++ Event.finish :: later).foldl (Reader.on parse) .initial).outcomes

/-! ## Purpose -/

section

variable (parse : Line → Option Json)

/-- Why a line is refused: it is not JSON, or it has a message that is not empty. -/
def refusal (line : Line) : Option Failure :=
  if blank line then none
  else
    match parse line with
    | none => some (.syntaxError line)
    | some progress =>
        (((detailMessage progress).filter Json.truthy).or
          ((progress.fields.lookup "error").filter Json.truthy)).map .request

def Outcome.ofFailure : Option Failure → Outcome
  | none => .resolved
  | some failure => .rejected failure

def expected (bytes : List Nat) : Outcome :=
  .ofFailure ((splitLines (Utf8.decode bytes)).findSome? (refusal parse))

structure Settles (chunks : List (List Nat)) (later : List Event) : Prop where
  once : (requestNdjson parse chunks later).length = 1
  uncut : requestNdjson parse chunks later = requestNdjson parse [chunks.flatten] later
  outcome : requestNdjson parse chunks later = [expected parse chunks.flatten]

def IsNull (line : Line) : Prop := blank line = false ∧ parse line = some .null

/-- The line has an `errorDetail.message` that is falsy and not nullish. -/
def Masked (line : Line) : Prop :=
  blank line = false ∧ ∃ progress text, parse line = some progress ∧
    detailMessage progress = some text ∧ text ≠ .null ∧ text.truthy = false

/-- After lines without an error of their own to show comes one with this error. -/
def Echoed (failure : Failure) : List Line → Prop
  | [] => False
  | line :: lines => ¬ IsNull parse line ∧
      ((refusal parse line = none ∨ Masked parse line) ∧ Echoed failure lines ∨
        refusal parse line = some failure ∧ ¬ Masked parse line)

/-- No line before the first refused one is `null`, and that one does not mask its error, or a
later line has the very same error. -/
def Unmasked : List Line → Prop
  | [] => True
  | line :: lines =>
      match refusal parse line with
      | none => ¬ IsNull parse line ∧ Unmasked lines
      | some failure => Masked parse line → Echoed parse failure lines

end

end Zos.Docker.Progress
