import Mathlib.Logic.Function.Basic

/-! # Bytes as hexadecimal digits -/

open List

namespace Base.Hex

def hexDigit (n : Nat) : Char := "0123456789abcdef".toList.getD n '0'

def hexEncode (bytes : List UInt8) : String :=
  String.ofList (bytes.flatMap fun b => [hexDigit (b.toNat / 16), hexDigit (b.toNat % 16)])

end Base.Hex
