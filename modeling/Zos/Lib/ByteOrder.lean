import Zos.Lib.Utf8
import Mathlib.Data.List.Lex

/-!
# The order of texts
-/

namespace Zos.Lib.Utf8

/-- Texts are compared byte by byte. -/
def ByteOrder (a b : List Char) : Prop := encode a ≤ encode b

instance : DecidableRel ByteOrder := fun a b => inferInstanceAs (Decidable (encode a ≤ encode b))

theorem encode_injective : Function.Injective encode :=
  Function.LeftInverse.injective decode_encode

instance : Std.Antisymm ByteOrder := ⟨fun _ _ h h' => encode_injective (le_antisymm h h')⟩

instance : IsTrans (List Char) ByteOrder := ⟨fun _ _ _ => le_trans⟩

instance : Std.Total ByteOrder := ⟨fun _ _ => le_total _ _⟩

end Zos.Lib.Utf8
