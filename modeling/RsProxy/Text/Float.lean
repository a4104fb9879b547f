import RsProxy.Text.Net

/-!
# Floating-point numbers in text

`parseF64` follows `str::parse::<f64>`: an optional sign, then `inf`, `infinity` or `nan` in any
case, or a decimal number with at least one digit, an optional fraction and an optional exponent.
-/

namespace RsProxy.Text

/-- Digits, an optional fraction and an optional exponent; nothing else. -/
def parseDecimal (s : Str) : Option Float :=
  let (whole, rest) := spanDigits 10 s
  let (fraction, rest) := match rest with
    | '.' :: rest => spanDigits 10 rest
    | rest => ([], rest)
  if whole.isEmpty && fraction.isEmpty then none
  else
    let exponent : Option Int := match rest with
      | [] => some 0
      | c :: rest =>
        if c = 'e' ∨ c = 'E' then
          match rest with
          | '-' :: ds => (parseDigits ds).map fun n => -(n : Int)
          | '+' :: ds => (parseDigits ds).map fun n => (n : Int)
          | ds => (parseDigits ds).map fun n => (n : Int)
        else none
    exponent.map fun e =>
      let e : Int := e - fraction.length
      Float.ofScientific (ofDigits 10 (whole ++ fraction)) (e < 0) e.natAbs

def parseUnsignedF64 (s : Str) : Option Float :=
  let lower := toAsciiLowercase s
  if lower = "inf" ∨ lower = "infinity" then some (1.0 / 0.0)
  else if lower = "nan" then some (0.0 / 0.0)
  else parseDecimal s

def parseF64 (s : Str) : Option Float :=
  match s with
  | '-' :: s => (parseUnsignedF64 s).map fun x => -x
  | '+' :: s => parseUnsignedF64 s
  | s => parseUnsignedF64 s

def isSignNegative (x : Float) : Bool := x.toBits >>> 63 == 1

end RsProxy.Text
