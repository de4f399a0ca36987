import Mathlib.Data.List.Infix

/-!
# LIKE with an escape character

The operator `LIKE ? ESCAPE '\'` of SQLite, where letters of ASCII match in both cases. Single
characters before a wildcard find the texts that begin with them.
-/

namespace Zos.Lib.Like

inductive Token where
  | any
  | single (c : Option Char)
  deriving DecidableEq

def tokens : List Char → List Token
  | [] => []
  | '\\' :: c :: rest => .single (some c) :: tokens rest
  | '%' :: rest => .any :: tokens rest
  | '_' :: rest => .single none :: tokens rest
  | c :: rest => .single (some c) :: tokens rest

def takes (c : Option Char) (x : Char) : Bool := c.all fun c => c.toLower = x.toLower

def like : List Token → List Char → Bool
  | [], text => text.isEmpty
  | .any :: pattern, text => text.tails.any (like pattern)
  | .single _ :: _, [] => false
  | .single c :: pattern, x :: rest => takes c x && like pattern rest

theorem like_any (text : List Char) : like [.any] text = true := by
  rw [like, List.any_eq_true]
  exact ⟨[], (List.mem_tails ..).mpr List.nil_suffix, rfl⟩

theorem like_literal (front rest : List Char) (pattern : List Token) :
    like (front.map (fun c => .single (some c)) ++ pattern) (front ++ rest) =
      like pattern rest := by
  induction front with
  | nil => rfl
  | cons c front ih => simpa [like, takes] using ih

end Zos.Lib.Like
