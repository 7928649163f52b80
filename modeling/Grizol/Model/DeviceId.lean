import Mathlib.Data.List.DropRight
import Grizol.Library.Base32
import Grizol.Model.Syncthing

/-!
# The text form of a device id

`device_id.rs`: `Display`, which writes an id in base 32 with a check digit after
every 13 symbols and a dash after every 7 characters, and `TryFrom<&str>`, which reads
it back. A `&str` is the list of its characters; its `len` is in bytes.

`data_encoding` is not part of the repository: `Base32` stands for its constant
`BASE32`.
-/

set_option autoImplicit false

namespace Grizol.Model

open Grizol.Library

/-- `BASE32`: `encode`, and `decode` with the text of a decoding error. -/
structure Base32 where
  encode : Bytes → List Char
  decode : List Char → Except String Bytes

/-- `str::len`. -/
def byteLen (s : List Char) : ℕ := (s.map Char.utf8Size).sum

/-- The alphabet of the check digits. -/
def luhnBase32 : List Char :=
  ['A', 'B', 'C', 'D', 'E', 'F', 'G', 'H', 'I', 'J', 'K', 'L', 'M', 'N', 'O', 'P', 'Q', 'R', 'S',
    'T', 'U', 'V', 'W', 'X', 'Y', 'Z', '2', '3', '4', '5', '6', '7']

/-- The number of a character; the error shows the alphabet. -/
def codepoint32 (b : Char) : Except String ℕ :=
  if 'A' ≤ b ∧ b ≤ 'Z' then .ok (b.toNat - 'A'.toNat)
  else if '2' ≤ b ∧ b ≤ '7' then .ok (b.toNat + 26 - '2'.toNat)
  else .error ("Invalid char " ++ String.ofList [b] ++ " in alphabet [" ++
    ", ".intercalate (luhnBase32.map fun c => "'" ++ String.ofList [c] ++ "'") ++ "]")

/-- The loop of `luhn32`, on a `u32` sum. -/
def luhnSum : ℕ → ℕ → List Char → Rust (Except String ℕ)
  | _, sum, [] => pure (.ok sum)
  | factor, sum, c :: s =>
      match codepoint32 c with
      | .error e => pure (.error e)
      | .ok codepoint => do
          let addend := factor * codepoint
          let factor := if factor = 2 then 1 else 2
          let addend := addend / 32 + addend % 32
          let sum ← Rust.add 32 sum addend
          luhnSum factor sum s

/-- `luhn32`. -/
def luhn32 (s : List Char) : Rust (Except String Char) := do
  match ← luhnSum 1 0 s with
  | .error e => pure (.error e)
  | .ok sum => do
      let remainder := sum % 32
      let checkCodepoint := (32 - remainder) % 32
      let digit ← Rust.index luhnBase32 checkCodepoint
      pure (.ok digit)

/-- The loop of `luhnify` over the indices that are left. -/
def luhnifyLoop (s : List Char) : List ℕ → List Char → Rust (Except String (List Char))
  | [], res => pure (.ok res)
  | i :: is, res => do
      let p ← Rust.slice s (i * 13) ((i + 1) * 13)
      let res ← Rust.copyFromSlice res (i * 14) ((i + 1) * 14 - 1) p
      match ← luhn32 p with
      | .error e => pure (.error e)
      | .ok l => do
          let res ← Rust.assign res ((i + 1) * 14 - 1) l
          luhnifyLoop s is res

/-- Puts a check digit behind each of the four groups of thirteen characters. -/
def luhnify (s : List Char) : Rust (Except String (List Char)) :=
  if byteLen s ≠ 52 then
    pure (.error (String.ofList s ++ ": unsupported string length " ++ toString (byteLen s)))
  else luhnifyLoop s (List.range 4) (List.replicate 56 '0')

/-- The loop of `unluhnify` over the indices that are left. -/
def unluhnifyLoop (s : List Char) : List ℕ → List Char → Rust (Except String (List Char))
  | [], res => pure (.ok res)
  | i :: is, res => do
      let p ← Rust.slice s (i * (13 + 1)) ((i + 1) * (13 + 1) - 1)
      let res ← Rust.copyFromSlice res (i * 13) ((i + 1) * 13) p
      match ← luhn32 p with
      | .error e => pure (.error e)
      | .ok l => do
          let checkPos := (i + 1) * 14 - 1
          let digit ← Rust.index s checkPos
          if digit ≠ l then
            pure (.error ("Incorrect check digit at position " ++ toString checkPos ++ ". Was " ++
              String.ofList [digit] ++ ", expected " ++ String.ofList [l] ++ "."))
          else unluhnifyLoop s is res

/-- Takes the check digits out, after it has compared them. -/
def unluhnify (s : List Char) : Rust (Except String (List Char)) :=
  if byteLen s ≠ 56 then
    pure (.error (String.ofList s ++ ": unsupported string length " ++ toString (byteLen s)))
  else unluhnifyLoop s (List.range 4) (List.replicate 52 '0')

/-- The loop of `chunkify` over the indices that are left. -/
def chunkifyLoop (s : List Char) : List ℕ → List Char → Rust (List Char)
  | [], res => pure res
  | i :: is, res => do
      let res ← if 0 < i then Rust.assign res (i * 8 - 1) '-' else pure res
      let chunkEnd := min ((i + 1) * 7) s.length
      let chunk ← Rust.slice s (i * 7) chunkEnd
      let res ← Rust.copyFromSlice res (i * 8) (i * 8 + chunk.length) chunk
      chunkifyLoop s is res

/-- Puts a dash between groups of seven characters. -/
def chunkify (s : List Char) : Rust (List Char) := do
  let chunks := byteLen s / 7
  let len ← Rust.sub (chunks * 8) 1
  chunkifyLoop s (List.range chunks) (List.replicate len '0')

namespace DeviceId

variable (base32 : Base32)

/-- `fmt` of `Display`. -/
def display (deviceId : DeviceId) : Rust String := do
  let res := base32.encode deviceId.id.toList
  let res := res.rdropWhile (· == '=')
  match ← luhnify res with
  | .error _ => throw (.expect "It must always be possible to lunhify")
  | .ok res => do
      let text ← chunkify res
      pure (String.ofList text)

/-- `id[..].copy_from_slice(&dec[..])` on an array of 32 zeros. -/
def copyFrom (dec : Bytes) : Rust DeviceId :=
  if h : dec.length = 32 then .ok ⟨⟨dec.toArray, h⟩⟩
  else .error (.explicit "copy_from_slice: source slice length does not match destination")

/-- `try_from(value: &str)`; `to_uppercase` is reached by ASCII text only. -/
def tryFrom (value : String) : Rust (Except String DeviceId) :=
  if ¬ value.toList.all (·.toNat < 128) then
    pure (.error "Invalid string provided, only ASCII characters allowed")
  else do
    let value := value.toList.map Char.toUpper
    let value := value.filter fun c => ¬ (c = '-' ∨ c = ' ')
    let value := value.map fun c => if c = '0' then 'O' else c
    let value := value.map fun c => if c = '1' then 'I' else c
    let value := value.map fun c => if c = '8' then 'B' else c
    match ← unluhnify value with
    | .error e => pure (.error e)
    | .ok value =>
        match base32.decode (value ++ "====".toList) with
        | .error e => pure (.error e)
        | .ok dec => do
            let id ← copyFrom dec
            pure (.ok id)

end DeviceId

end Grizol.Model
