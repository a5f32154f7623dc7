/-!
# Shortest decimals

A finite number in binary is written with the fewest decimal digits that no other such number is
nearer to, and among those with the digits nearest to it. Everything is exact arithmetic on natural
numbers.

A positive number is `m * 2 ^ q`, with `m` below `2 ^ 53`. The numbers that round to it reach
halfway to its neighbours; the one below is only half as far when `m` is a power of two, and the
ends count as rounding to it when `m` is even.
-/

namespace XfsVolume

/-- A positive binary number `m * 2 ^ q`. -/
structure Dyadic where
  m : Nat
  q : Int
  deriving DecidableEq

/-- `digits * 10 ^ exponent`. -/
structure Decimal where
  digits : Nat
  exponent : Int
  deriving DecidableEq

/-- Numerator and denominator of `n * 2 ^ a * 10 ^ b`. -/
def scaledRatio (n : Nat) (a b : Int) : Nat × Nat :=
  ((n <<< a.toNat) * Nat.pow 10 b.toNat, Nat.pow 10 (-b).toNat <<< (-a).toNat)

/-- The multiple of `10 ^ exponent` that rounds to `x` and is nearest to it, the even one of two as
near. Only the two multiples next to `x` need be tried. -/
def Dyadic.nearest? (x : Dyadic) (exponent : Int) : Option Decimal :=
  let (num, den) := scaledRatio x.m x.q (-exponent)
  -- spacing of the numbers about `x`, over the same denominator
  let (unit, _) := scaledRatio 1 x.q (-exponent)
  let above := 4 * num + 2 * unit
  let below := 4 * num - (if x.m = 1 <<< 52 && x.q > -1074 then unit else 2 * unit)
  let fits (n : Nat) : Bool :=
    let value := 4 * (n * den)
    if x.m % 2 == 0 then below ≤ value && value ≤ above else below < value && value < above
  let low := num / den
  let lowFirst := 2 * (num % den) < den || (2 * (num % den) = den && low % 2 = 0)
  let tries := if lowFirst then [low, low + 1] else [low + 1, low]
  (tries.find? fun n => 0 < n && fits n).map (⟨·, exponent⟩)

/-- The shortest decimal that rounds to `x`, tried from `exponent` down in at most `fuel` steps. -/
def Dyadic.shortestFrom (x : Dyadic) : (fuel : Nat) → (exponent : Int) → Decimal
  | 0, exponent => ⟨0, exponent⟩
  | fuel + 1, exponent =>
    match x.nearest? exponent with
    | some d => d
    | none => x.shortestFrom fuel (exponent - 1)

/-- The shortest decimal that rounds to `x`. Its exponent lies between those of the largest and the
smallest binary numbers. -/
def Dyadic.shortest (x : Dyadic) : Decimal := x.shortestFrom 700 310

/-- The finite positive number with these bits. -/
def Dyadic.ofBits (bits : Nat) : Dyadic :=
  let e : Nat := (bits >>> 52) % (1 <<< 11)
  let f : Nat := bits % (1 <<< 52)
  if e = 0 then ⟨f, -1074⟩ else ⟨(1 <<< 52) + f, (e : Int) - 1075⟩

/-- Text of a decimal: positional from `0.00001` to below `10 ^ 16`, with a mark of the exponent and
its sign otherwise. -/
def Decimal.text (d : Decimal) : String :=
  let ds := Nat.toDigits 10 d.digits
  let point : Int := ds.length + d.exponent
  if 0 ≤ d.exponent && point ≤ 16 then
    String.ofList (ds ++ List.replicate d.exponent.toNat '0' ++ ['.', '0'])
  else if 0 < point && point ≤ 16 then
    String.ofList (ds.take point.toNat ++ '.' :: ds.drop point.toNat)
  else if -5 < point && point ≤ 0 then
    String.ofList (['0', '.'] ++ List.replicate (-point).toNat '0' ++ ds)
  else
    let mantissa := ds.take 1 ++ (if ds.length = 1 then [] else '.' :: ds.drop 1)
    String.ofList mantissa ++ (if 0 < point then "e+" else "e") ++ toString (point - 1)

/-- Text of the finite number with the bits `bits`. -/
def floatText (bits : UInt64) : String :=
  let n := bits.toNat % (1 <<< 63)
  (if bits.toNat >>> 63 = 1 then "-" else "") ++
    (if n = 0 then "0.0" else (Dyadic.ofBits n).shortest.text)

end XfsVolume
