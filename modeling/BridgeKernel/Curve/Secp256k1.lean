/-!
# The curve secp256k1

Points of `y² = x³ + 7` over the field of `fieldOrder` elements, with scalar multiplication by
Jacobian double-and-add. Field elements are naturals below the field order.
-/

namespace BridgeKernel.Secp256k1

/-- The number of field elements. -/
def fieldOrder : Nat := 0xfffffffffffffffffffffffffffffffffffffffffffffffffffffffefffffc2f

/-- The number of points. -/
def groupOrder : Nat := 0xfffffffffffffffffffffffffffffffebaaedce6af48a03bbfd25e8cd0364141

/-- A point: the neutral element, or a pair of coordinates. -/
inductive Point where
  /-- The neutral element. -/
  | infinity
  /-- A point with coordinates. -/
  | affine (x y : Nat)
deriving DecidableEq, Repr

/-- The point that signatures are made over. -/
def generator : Point :=
  .affine 0x79be667ef9dcbbac55a06295ce870b07029bfcdb2dce28d959f2815b16f81798
    0x483ada7726a3c4655da4fbfc0e1108a8fd17b448a68554199c47d08ffb10d4b8

/-! ## Modular arithmetic -/

/-- The low `width` bits of a number, most significant first. -/
def bits : (width : Nat) → Nat → List Bool
  | 0, _ => []
  | width + 1, n => n.testBit width :: bits width n

/-- A power modulo `m` of an exponent below 2²⁵⁶. -/
def powMod (m base exponent : Nat) : Nat :=
  (bits 256 exponent).foldl
    (fun acc bit => let square := acc * acc % m; if bit then square * base % m else square) 1

/-- The inverse modulo a prime, and zero for zero. -/
def invMod (m a : Nat) : Nat := powMod m a (m - 2)

/-- A difference of two residues modulo `m`. -/
def subMod (m a b : Nat) : Nat := (a + (m - b)) % m

/-! ## Jacobian coordinates -/

/-- The point `(x / z², y / z³)`, or the neutral element when `z` is zero. -/
structure Jacobian where
  /-- Scaled first coordinate. -/
  x : Nat
  /-- Scaled second coordinate. -/
  y : Nat
  /-- Scale. -/
  z : Nat

/-- The neutral element. -/
def Jacobian.infinity : Jacobian := ⟨1, 1, 0⟩

/-- A point with scale one. -/
def Point.toJacobian : Point → Jacobian
  | .infinity => Jacobian.infinity
  | .affine x y => ⟨x, y, 1⟩

/-- The point with its scale divided out. -/
def Jacobian.toPoint (p : Jacobian) : Point :=
  if p.z = 0 then .infinity
  else
    let zi := invMod fieldOrder p.z
    let zi2 := zi * zi % fieldOrder
    .affine (p.x * zi2 % fieldOrder) (p.y * (zi2 * zi % fieldOrder) % fieldOrder)

/-- Twice a point. -/
def Jacobian.double (p : Jacobian) : Jacobian :=
  if p.z = 0 then p
  else
    let m := fieldOrder
    let a := p.x * p.x % m
    let b := p.y * p.y % m
    let c := b * b % m
    let xb := (p.x + b) % m
    let d := 2 * subMod m (subMod m (xb * xb % m) a) c % m
    let e := 3 * a % m
    let x₃ := subMod m (e * e % m) (2 * d % m)
    ⟨x₃, subMod m (e * subMod m d x₃ % m) (8 * c % m), 2 * p.y * p.z % m⟩

/-- The sum of two points. -/
def Jacobian.add (p q : Jacobian) : Jacobian :=
  if p.z = 0 then q
  else if q.z = 0 then p
  else
    let m := fieldOrder
    let z₁z₁ := p.z * p.z % m
    let z₂z₂ := q.z * q.z % m
    let u₁ := p.x * z₂z₂ % m
    let u₂ := q.x * z₁z₁ % m
    let s₁ := p.y * (q.z * z₂z₂ % m) % m
    let s₂ := q.y * (p.z * z₁z₁ % m) % m
    if u₁ = u₂ then
      if s₁ = s₂ then p.double else Jacobian.infinity
    else
      let h := subMod m u₂ u₁
      let r := subMod m s₂ s₁
      let hh := h * h % m
      let hhh := h * hh % m
      let v := u₁ * hh % m
      let x₃ := subMod m (subMod m (r * r % m) hhh) (2 * v % m)
      ⟨x₃, subMod m (r * subMod m v x₃ % m) (s₁ * hhh % m), p.z * q.z % m * h % m⟩

/-- The sum `a • p + b • q` of two multiples, with one doubling a bit. -/
def combine (a : Nat) (p : Point) (b : Nat) (q : Point) : Point :=
  let p := p.toJacobian
  let q := q.toJacobian
  let pq := p.add q
  let sum := ((bits 256 a).zip (bits 256 b)).foldl
    (fun acc step =>
      let twice := acc.double
      match step with
      | (true, true) => twice.add pq
      | (true, false) => twice.add p
      | (false, true) => twice.add q
      | (false, false) => twice)
    Jacobian.infinity
  sum.toPoint

/-- A multiple of the generator. -/
def mulGenerator (k : Nat) : Point := combine k generator 0 .infinity

/-! ## Membership -/

/-- The right-hand side of the curve equation. -/
def curveRhs (x : Nat) : Nat := (x * x % fieldOrder * x + 7) % fieldOrder

/-- Whether coordinates in range satisfy the curve equation. -/
def onCurve (x y : Nat) : Bool :=
  decide (x < fieldOrder) && decide (y < fieldOrder) && y * y % fieldOrder == curveRhs x

/-- The point with a given first coordinate whose second coordinate has the given parity. -/
def lift? (x : Nat) (odd : Bool) : Option Point :=
  if x < fieldOrder then
    let rhs := curveRhs x
    let root := powMod fieldOrder rhs ((fieldOrder + 1) / 4)
    if root * root % fieldOrder = rhs then
      some (.affine x (if (root % 2 == 1) == odd then root else fieldOrder - root))
    else none
  else none

end BridgeKernel.Secp256k1
