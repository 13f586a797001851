/-!
# Numbers as text

Diagnostics print addresses and offsets in hexadecimal.  Two spellings occur: the short one,
lower-case digits without leading zeros, and the address form, exactly sixteen upper-case digits.
-/

namespace KernelMemory.Text

/-- Fill `text` with copies of `c` on the left until it is `width` characters long. -/
def padLeft (width : Nat) (c : Char) (text : String) : String :=
  String.ofList (List.leftpad width c text.toList)

/-- Lower-case hexadecimal digits without leading zeros; zero is the single digit `0`. -/
def hexDigits (n : Nat) : String :=
  String.ofList (Nat.toDigits 16 n)

/-- The short hexadecimal form: `0x` and the digits of `hexDigits`. -/
def hex (n : Nat) : String :=
  "0x" ++ hexDigits n

/-- The value of a hexadecimal digit in either letter case. -/
def hexValue? (c : Char) : Option Nat :=
  if '0' ≤ c ∧ c ≤ '9' then some (c.toNat - '0'.toNat)
  else if 'a' ≤ c ∧ c ≤ 'f' then some (c.toNat - 'a'.toNat + 10)
  else if 'A' ≤ c ∧ c ≤ 'F' then some (c.toNat - 'A'.toNat + 10)
  else none

/-- The number that `0x` and at least one hexadecimal digit stand for. -/
def ofHex? (text : String) : Option Nat :=
  match text.toList with
  | '0' :: 'x' :: digit :: digits =>
    (digit :: digits).foldlM (fun n c => (hexValue? c).map fun v => 16 * n + v) 0
  | _ => none

/-- The short hexadecimal form filled with zeros behind the `0x` to `width` characters in all. -/
def hexPadded (width : Nat) (n : Nat) : String :=
  "0x" ++ padLeft (width - 2) '0' (hexDigits n)

/-- The address form: `0x` and sixteen upper-case digits. -/
def hexAddress (n : Nat) : String :=
  "0x" ++ padLeft 16 '0' (String.ofList ((Nat.toDigits 16 n).map Char.toUpper))

/-- Two lower-case hexadecimal digits for a byte. -/
def hexByte (b : UInt8) : String :=
  padLeft 2 '0' (hexDigits b.toNat)

/-- A record shown as `name { first: 1, second: 2 }`, its fields in the given order. -/
def record (name : String) (fields : List (String × String)) : String :=
  name ++ " \x7b " ++ ", ".intercalate (fields.map fun (label, value) => label ++ ": " ++ value)
    ++ " \x7d"

end KernelMemory.Text
