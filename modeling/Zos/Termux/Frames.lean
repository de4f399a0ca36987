import Mathlib.Data.List.Basic

/-!
# Frames on the socket of the terminal broker

`FrameReader` of `apps/termux/src/server.rs`: lines of JSON, taken off a buffer that grows by
whatever a read of the socket returns. Clients send what `encodeTermuxFrame` of
`packages/shared/src/termux-protocol.ts` makes.
-/

namespace Zos.Termux.Frames

abbrev Bytes := List UInt8

def newline : UInt8 := 10

def carriageReturn : UInt8 := 13

def maxFrameBytes : Nat := 256 * 1024

/-- What one read returns, which is not the end of the stream. -/
structure Chunk where
  bytes : Bytes
  nonempty : bytes ≠ []
  fits : bytes.length ≤ 8192

/-- What happens at the `await`: the read returns, or the call is dropped and made again. -/
inductive Poll where
  | read (chunk : Chunk)
  | cancelled

inductive Rejection where
  /-- `Invalid Termux JSONL frame size`. -/
  | frameSize
  /-- `Termux frame is too large`. -/
  | tooLarge
  /-- `Termux JSONL frame ended before newline`. -/
  | unfinished
  deriving DecidableEq, Repr

inductive Ending where
  | clean
  | rejected (reason : Rejection)
  deriving DecidableEq, Repr

structure Reading where
  frames : List Bytes
  ending : Ending
  deriving DecidableEq, Repr

/-- What stands before the first newline, and what behind. -/
def splitLine : Bytes → Option (Bytes × Bytes)
  | [] => none
  | byte :: rest =>
      if byte = newline then some ([], rest)
      else (splitLine rest).map fun (line, rest) => (byte :: line, rest)

theorem length_splitLine {bytes line rest : Bytes} (h : splitLine bytes = some (line, rest)) :
    rest.length < bytes.length := by
  induction bytes generalizing line with
  | nil => cases h
  | cons byte bytes ih =>
      unfold splitLine at h
      split at h
      · cases h
        exact Nat.lt_succ_self _
      · obtain ⟨⟨line', rest'⟩, hsplit, heq⟩ := Option.map_eq_some_iff.mp h
        cases heq
        exact Nat.lt_succ_of_lt (ih hsplit)

def dropReturn (line : Bytes) : Bytes :=
  if line.getLast? = some carriageReturn then line.dropLast else line

/-- The calls of `read_next`, one after the other until there is no frame. -/
def readAll (buffer : Bytes) (polls : List Poll) : Reading :=
  match _h : splitLine buffer with
  | some (line, rest) =>
      let frame := dropReturn line
      if frame.isEmpty ∨ frame.length > maxFrameBytes then ⟨[], .rejected .frameSize⟩
      else
        let reading := readAll rest polls
        { reading with frames := frame :: reading.frames }
  | none =>
      if buffer.length > maxFrameBytes then ⟨[], .rejected .tooLarge⟩
      else
        match polls with
        | [] => ⟨[], if buffer.isEmpty then .clean else .rejected .unfinished⟩
        | .cancelled :: polls => readAll buffer polls
        | .read chunk :: polls => readAll (buffer ++ chunk.bytes) polls
termination_by (polls.length, buffer.length)
decreasing_by
  · exact Prod.Lex.right _ (length_splitLine _h)
  · exact Prod.Lex.left _ _ (Nat.lt_succ_self _)
  · exact Prod.Lex.left _ _ (Nat.lt_succ_self _)

/-- `encodeTermuxFrame`: the JSON text of an object has no line break and ends in a brace. -/
structure Encoded where
  json : Bytes
  oneLine : newline ∉ json
  closed : json.getLast? = some 125

def Encoded.bytes (frame : Encoded) : Bytes := frame.json ++ [newline]

end Zos.Termux.Frames
