import Mathlib.Algebra.GroupWithZero.Nat
import Mathlib.Data.List.DropRight

/-!
# Strings as scripts treat them
-/

namespace Zos.Lib

/-- The codes of the white space of `String.prototype.trim` and of `\s`. -/
def whiteSpaceCode (code : Nat) : Bool :=
  [0x09, 0x0a, 0x0b, 0x0c, 0x0d, 0x20, 0xa0, 0x1680, 0x2028, 0x2029, 0x202f, 0x205f,
    0x3000, 0xfeff].contains code || (0x2000 ≤ code && code ≤ 0x200a)

def whiteSpace (c : Char) : Bool := whiteSpaceCode c.toNat

/-- `trim` of characters or of code units. -/
def trimBy {α : Type} (space : α → Bool) (text : List α) : List α :=
  (text.dropWhile space).rdropWhile space

theorem trimBy_trimBy {α : Type} (space : α → Bool) (text : List α) :
    trimBy space (trimBy space text) = trimBy space text := by
  have hfront : (trimBy space text).dropWhile space = trimBy space text := by
    cases htrim : trimBy space text with
    | nil => rfl
    | cons c rest =>
        obtain ⟨back, hback⟩ := List.rdropWhile_prefix space (text.dropWhile space)
        rw [← trimBy, htrim] at hback
        have hfirst := List.head?_dropWhile_not space text
        rw [← hback, List.cons_append, List.head?_cons] at hfirst
        exact List.dropWhile_cons_of_neg (by simpa using hfirst)
  have hback : (trimBy space text).rdropWhile space = trimBy space text :=
    List.rdropWhile_idempotent ..
  rw [trimBy, hfront, hback]

def trim (s : String) : String := .ofList (trimBy whiteSpace s.toList)

/-- The length of a text in UTF-16 code units. -/
def utf16Length (s : String) : Nat :=
  (s.toList.map fun c => if c.toNat < 0x10000 then 1 else 2).sum

theorem utf16Length_append (s t : String) :
    utf16Length (s ++ t) = utf16Length s + utf16Length t := by
  simp [utf16Length, String.toList_append]

theorem utf16Length_pos {s : String} (h : s ≠ "") : 0 < utf16Length s := by
  obtain ⟨c, rest, hs⟩ := List.exists_cons_of_ne_nil (mt String.toList_eq_nil_iff.mp h)
  rw [utf16Length, hs, List.map_cons, List.sum_cons]
  split <;> omega

end Zos.Lib
