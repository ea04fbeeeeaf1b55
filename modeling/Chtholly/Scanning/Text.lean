import Mathlib.Data.List.Basic

/-!
# Texts

The texts of the models are lists of characters, compared character by character.
-/

set_option autoImplicit false

namespace Chtholly

/-- The comparison of texts is lawful; the membership tests of the models go through here. -/
instance lawfulBEq_text : LawfulBEq (List Char) := inferInstance

end Chtholly
