import TypeAtlas.Word

/-! Spelled numbers and their size.  Such a number is held as the leading digits that fit a word
and a power of ten, each rounded to 53 significant bits, and their product may round to no more
than the largest value of that kind below `2 ^ 1024`. -/

namespace TypeAtlas.Json.Number

def digits (cs : List Char) : List Nat :=
  (cs.filter Char.isDigit).map fun c => c.toNat - '0'.toNat

def value (ds : List Nat) : Nat := ds.foldl (fun n d => 10 * n + d) 0

def fill : Nat → List Nat → Nat × Nat
  | n, [] => (n, 0)
  | n, d :: ds => if 10 * n + d < Word.bound then fill (10 * n + d) ds else (n, ds.length + 1)

/-- The nearest number of 53 significant bits; a half goes to the even neighbour. -/
def nearest (n : Nat) : Nat :=
  let unit := 1 <<< (n.log2 + 1 - 53)
  let up := unit < 2 * (n % unit) || (2 * (n % unit) = unit && n / unit % 2 = 1)
  (n / unit + if up then 1 else 0) * unit

def limit : Nat := (1 <<< 1024) - (1 <<< 970)

def scaledTooLarge (significand : Nat) (exponent : Int) : Bool :=
  significand ≠ 0 && 0 ≤ exponent
    && (308 < exponent || limit ≤ nearest significand * nearest (Nat.pow 10 exponent.toNat))

def tooLarge (spelling : String) : Bool :=
  let isMark (c : Char) : Bool := c == 'e' || c == 'E'
  let mantissa := spelling.toList.takeWhile (!isMark ·)
  let exponent := spelling.toList.dropWhile (!isMark ·)
  let whole := digits (mantissa.takeWhile (· != '.'))
  let fraction := digits (mantissa.dropWhile (· != '.'))
  let (n, left) := fill 0 whole
  let (significand, unused) := fill n fraction
  let e : Int := value (digits exponent)
  scaledTooLarge significand
    (left - (fraction.length - unused : Nat) + if exponent.contains '-' then -e else e)

end TypeAtlas.Json.Number
