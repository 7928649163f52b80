import Grizol.Model.DeviceId

/-!
# What the check digits of a device id are for

Ids are typed in by hand. A text with one wrong character, or with two neighbours exchanged,
should be refused, whatever the rest of it is.
-/

set_option autoImplicit false

namespace Grizol.Interface

open Grizol.Model

/-- `unluhnify` returns an error. -/
def Refused (s : List Char) : Prop := ∃ e, unluhnify s = .ok (.error e)

/-- **A wrong character is noticed**: with another symbol at any one position the text is
refused. -/
def NoticesReplaced (s : List Char) : Prop :=
  ∀ i < s.length, ∀ c ∈ luhnBase32, s[i]? ≠ some c → Refused (s.set i c)

/-- **Exchanged characters are noticed**: with two different neighbours exchanged, both data of one
group and not `A` and `7`, the text is refused. -/
def NoticesExchanged (s : List Char) : Prop :=
  ∀ i a b, i % 14 + 1 < 13 → s[i]? = some a → s[i + 1]? = some b → a ≠ b →
    ¬ (a = 'A' ∧ b = '7') → ¬ (a = '7' ∧ b = 'A') → Refused ((s.set i b).set (i + 1) a)

end Grizol.Interface
