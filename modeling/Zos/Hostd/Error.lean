import Mathlib.Logic.Basic

/-!
# Errors of the host daemon

`apps/hostd/src/error.rs`. The texts used here hold none of the words whose values
`sanitize_message` takes out, and are shorter than it allows.
-/

namespace Zos.Hostd

inductive ErrorCode where
  | validation
  | notFound
  | conflict
  | unavailable
  | operationFailed
  | restartFailed
  deriving DecidableEq, Repr

structure HostdError where
  status : Nat
  code : ErrorCode
  message : String
  deriving DecidableEq, Repr

def HostdError.validation (message : String) : HostdError := ⟨400, .validation, message⟩

def HostdError.notFound (message : String) : HostdError := ⟨404, .notFound, message⟩

def HostdError.conflict (message : String) : HostdError := ⟨409, .conflict, message⟩

def HostdError.unavailable (message : String) : HostdError := ⟨503, .unavailable, message⟩

def HostdError.operationFailed (message : String) : HostdError :=
  ⟨502, .operationFailed, message⟩

end Zos.Hostd
