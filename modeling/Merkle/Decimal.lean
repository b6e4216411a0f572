/-!
# Decimals: the shortest one for a double, and its layout

A double stands for every real that rounds to it. Of the decimals among these, one on the coarsest
grid of powers of ten is chosen, and of two the nearer; all comparisons are between naturals. A
`Layout` holds the decisions of one format: where the point stands, and when an exponent is written.
-/
namespace Merkle.Decimal

/-! ## Shortest decimals -/

/-- A finite positive double: `significand * 2 ^ exponent`. -/
structure Dyadic where
  significand : Nat
  exponent : Int
  /-- The value is the least with its exponent, so the gap below it is half the gap above. -/
  narrowBelow : Bool
  deriving DecidableEq, Repr

/-- A decimal: `digits * 10 ^ exponent`. -/
structure Scientific where
  digits : Nat
  exponent : Int
  deriving DecidableEq, Repr

/-- The magnitude of a finite double with the given bits; the sign bit is not looked at. -/
def Dyadic.ofBits (bits : UInt64) : Dyadic :=
  let biased := ((bits >>> 52) &&& 0x7ff).toNat
  let fraction := (bits &&& 0xfffffffffffff).toNat
  if biased = 0 then ⟨fraction, -1074, false⟩
  else ⟨0x10000000000000 + fraction, (biased : Int) - 1075, fraction = 0 ∧ 1 < biased⟩

namespace Dyadic

/-- With the unit chosen so that all are naturals: a quarter of the value's last place, and one step
of the grid of multiples of `10 ^ e`. -/
def scale (x : Dyadic) (e : Int) : Nat × Nat :=
  (Nat.pow 2 (x.exponent - 2).toNat * Nat.pow 10 (-e).toNat,
    Nat.pow 2 (2 - x.exponent).toNat * Nat.pow 10 e.toNat)

/-- Whether `d * 10 ^ e` rounds to the value: it lies between the midpoints to both neighbours,
where the midpoints themselves belong to an even significand. -/
def readsBack (x : Dyadic) (d : Nat) (e : Int) : Bool :=
  let (quarter, step) := x.scale e
  let low := (4 * x.significand - if x.narrowBelow then 1 else 2) * quarter
  let high := (4 * x.significand + 2) * quarter
  if x.significand % 2 = 0 then low ≤ d * step && d * step ≤ high
  else low < d * step && d * step < high

/-- On the grid of multiples of `10 ^ e`: the neighbour of the value that reads back, of two the
nearer, of two at equal distance the even one. -/
def onGrid? (x : Dyadic) (e : Int) : Option Nat :=
  let (quarter, step) := x.scale e
  let value := 4 * x.significand * quarter
  let below := value / step
  match x.readsBack below e, x.readsBack (below + 1) e with
  | true, true =>
    match compare (2 * value) ((2 * below + 1) * step) with
    | .lt => some below
    | .gt => some (below + 1)
    | .eq => some (below + below % 2)
  | true, false => some below
  | false, true => some (below + 1)
  | false, false => none

/-- An exponent of ten above the value. -/
def coarsest (x : Dyadic) : Int := (x.significand.log2 + 1 + x.exponent) * 30103 / 100000 + 2

/-- The value itself, in as many digits as it takes. -/
def exact (x : Dyadic) : Scientific :=
  ⟨x.significand * Nat.pow 2 x.exponent.toNat * Nat.pow 5 (-x.exponent).toNat, min x.exponent 0⟩

/-- The decimal on the coarsest grid that has one; twenty-four grids reach past seventeen digits. -/
def shortest (x : Dyadic) : Scientific :=
  let grids := (List.range 24).map fun (i : Nat) => x.coarsest - i
  (grids.findSome? fun e => (x.onGrid? e).map fun d => ⟨d, e⟩).getD x.exact

end Dyadic

/-! ## Layout -/

/-- How a format writes decimals. Values with a point always have a digit on both sides of it. -/
structure Layout where
  /-- Least exponent of the leading digit that is written without an exponent. -/
  plainFrom : Int
  /-- Greatest exponent of the leading digit that is written without an exponent. -/
  plainTo : Int
  /-- Mark before the exponent. -/
  mark : String
  deriving DecidableEq, Repr

namespace Layout

/-- Digits with a point behind the first and an exponent; a lone digit has no point. -/
def marked (layout : Layout) (digits : String) (lead : Int) : String :=
  let rest := digits.drop 1
  let point := if rest.isEmpty then "" else "."
  let sign := if lead < 0 then "-" else "+"
  (digits.take 1).toString ++ point ++ rest.toString ++ layout.mark ++ sign
    ++ toString lead.natAbs

/-- Digits with the point where it belongs, zeros filling the places without a digit. -/
def plain (digits : String) (lead : Int) : String :=
  let whole := lead.toNat + 1
  if lead < 0 then "0." ++ "".pushn '0' (-lead - 1).toNat ++ digits
  else if digits.length ≤ whole then digits ++ "".pushn '0' (whole - digits.length) ++ ".0"
  else (digits.take whole).toString ++ "." ++ (digits.drop whole).toString

/-- A positive decimal. -/
def render (layout : Layout) (value : Scientific) : String :=
  let digits := toString value.digits
  let lead := value.exponent + digits.length - 1
  if layout.plainFrom ≤ lead ∧ lead ≤ layout.plainTo then plain digits lead
  else layout.marked digits lead

/-- A finite double given by its bits: the sign, also that of zero, then the shortest decimal. -/
def renderBits (layout : Layout) (bits : UInt64) : String :=
  let sign := if bits >>> 63 = 1 then "-" else ""
  let value := Dyadic.ofBits bits
  if value.significand = 0 then sign ++ "0.0" else sign ++ layout.render value.shortest

end Layout

end Merkle.Decimal
