import Grizol.Model.DeviceId

/-!
# What the text of a device id is for

Ids are compared as bytes but written and configured as text. The text is the RFC 4648
encoding of the id with check digits and dashes; what is read may also use lower case,
blanks, other dashes and the digits 0, 1 and 8 for the letters they look like.
`normalForm` undoes these liberties.
-/

set_option autoImplicit false

namespace Grizol.Interface

open Grizol.Library
open Grizol.Model

/-- `BASE32` is the strict base 32 of RFC 4648: it decodes the encodings and nothing
else. -/
structure StrictRfc4648 (base32 : Model.Base32) : Prop where
  encode_eq : ∀ bytes, base32.encode bytes = Library.Base32.encode bytes
  decode_iff : ∀ text bytes,
    base32.decode text = .ok bytes ↔ Library.Base32.encode bytes = text

/-- The letter a digit outside the alphabet is a typo for. -/
def correctTypo (c : Char) : Char :=
  if c = '0' then 'O' else if c = '1' then 'I' else if c = '8' then 'B' else c

/-- The text in upper case, without dashes and blanks, with the typos corrected. -/
def normalForm (s : String) : String :=
  String.ofList (((s.toList.map Char.toUpper).filter fun c => c ≠ '-' ∧ c ≠ ' ').map correctTypo)

/-- The text without its dashes. -/
def withoutDashes (s : String) : String := String.ofList (s.toList.filter (· ≠ '-'))

/-- The base 32 of the library, as `BASE32`. -/
def rfc4648 : Model.Base32 := ⟨Library.Base32.encode, Library.Base32.decode⟩

/-- The codec by the RFC is strict. -/
theorem strict_rfc4648 : StrictRfc4648 rfc4648 where
  encode_eq _ := rfl
  decode_iff _ _ := Library.Base32.decode_eq_ok_iff

end Grizol.Interface
