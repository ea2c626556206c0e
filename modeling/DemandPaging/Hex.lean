/-!
Lower-case hexadecimal text, in which addresses, flags and error codes are written.
-/

namespace DemandPaging.Hex

/-- The hexadecimal digits of `n`, without leading zeros. -/
def digits (n : Nat) : String :=
  String.ofList (Nat.toDigits 16 n)

/-- `n` with the marker `0x` in front. -/
def marked (n : Nat) : String :=
  "0x" ++ digits n

/-- `n` with the marker `0x`, filled with zeros up to sixteen digits. -/
def padded (n : Nat) : String :=
  let ds := Nat.toDigits 16 n
  "0x" ++ String.ofList (List.replicate (16 - ds.length) '0' ++ ds)

end DemandPaging.Hex
