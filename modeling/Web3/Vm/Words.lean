import Web3.Storage.Codec

/-! # Machine words

The functions of the packages `uint256` and `math` that the EVM uses. A `uint256.Int` is a bit vector
of length 256; limbs are not modelled. A Go panic is the error of an `Except String`. -/

namespace Web3.Vm
open Storage (U256)

/-! ## `uint256` -/

namespace U256

def setBytes (bs : Bytes) : U256 := BitVec.ofNat 256 (ofBytes bs)

def setUint64 (n : UInt64) : U256 := BitVec.ofNat 256 n.toNat

def setAllOne : U256 := BitVec.allOnes 256

variable (x : U256)

def toBig : ℤ := x.toNat

def bytes32 : Hash := ⟨beBytes 32 x.toNat, length_beBytes 32 _⟩

def bytes20 : Address := ⟨beBytes 20 x.toNat, length_beBytes 20 _⟩

def uint64 : UInt64 := UInt64.ofNat x.toNat

def isUint64 : Bool := x.toNat < 2 ^ 64

def uint64WithOverflow : UInt64 × Bool := (uint64 x, !isUint64 x)

def isZero : Bool := x == 0

def sign : ℤ := if x = 0 then 0 else if x.msb then -1 else 1

def bitLen : ℕ := Web3.bitLen x.toNat

def div (x y : U256) : U256 := if y = 0 then 0 else x / y

def mod (x y : U256) : U256 := if y = 0 then 0 else x % y

def sDiv (n d : U256) : U256 :=
  if sign n > 0 then
    if sign d > 0 then div n d else -div n (-d)
  else if sign d < 0 then div (-n) (-d)
  else -div (-n) d

def sMod (x y : U256) : U256 :=
  let ax := if sign x = -1 then -x else x
  let ay := if sign y = -1 then -y else y
  let z := mod ax ay
  if sign x = -1 then -z else z

def addMod (x y m : U256) : U256 :=
  if m = 0 then 0 else BitVec.ofNat 256 ((x.toNat + y.toNat) % m.toNat)

def mulMod (x y m : U256) : U256 :=
  if x = 0 ∨ y = 0 ∨ m = 0 then 0 else BitVec.ofNat 256 (x.toNat * y.toNat % m.toNat)

def exp (base exponent : U256) : U256 :=
  ((List.range (bitLen exponent)).foldl (fun (res, multiplier) bit =>
    (if exponent.getLsbD bit then res * multiplier else res, multiplier * multiplier)) (1, base)).1

def extendSign (x byteNum : U256) : U256 :=
  if byteNum.toNat > 31 then x
  else
    let bit := byteNum.toNat * 8 + 7
    let mask := (1 <<< bit : U256) - 1
    if x.getLsbD bit then x ||| ~~~mask else x &&& mask

def byte (z n : U256) : U256 :=
  if n.toNat < 32 then (z >>> (8 * (31 - n.toNat))) &&& 0xff else 0

def slt (z x : U256) : Bool :=
  if sign z ≥ 0 ∧ sign x < 0 then false
  else if sign z < 0 ∧ sign x ≥ 0 then true
  else z < x

def sgt (z x : U256) : Bool :=
  if sign z ≥ 0 ∧ sign x < 0 then true
  else if sign z < 0 ∧ sign x ≥ 0 then false
  else z > x

def sRsh (n : ℕ) : U256 := x.sshiftRight n

def ofBool (b : Bool) : U256 := if b then 1 else 0

theorem sign_eq_zero {x : U256} : sign x = 0 ↔ x = 0 := by
  rw [sign]
  split
  next h => simp [h]
  next h =>
    simp only [h, iff_false]
    split <;> decide

end U256

/-! ## `math` -/

def safeAdd (x y : UInt64) : UInt64 × Bool := (x + y, decide (2 ^ 64 ≤ x.toNat + y.toNat))

def safeMul (x y : UInt64) : UInt64 × Bool := (x * y, decide (2 ^ 64 ≤ x.toNat * y.toNat))

variable {x y : UInt64}

theorem toNat_safeAdd (h : (safeAdd x y).2 = false) : (safeAdd x y).1.toNat = x.toNat + y.toNat := by
  rw [safeAdd, decide_eq_false_iff_not, Nat.not_le] at h
  rw [safeAdd, UInt64.toNat_add, Nat.mod_eq_of_lt h]

theorem toNat_safeMul (h : (safeMul x y).2 = false) : (safeMul x y).1.toNat = x.toNat * y.toNat := by
  rw [safeMul, decide_eq_false_iff_not, Nat.not_le] at h
  rw [safeMul, UInt64.toNat_mul, Nat.mod_eq_of_lt h]

/-! ## Go's conversions and slices -/

def toInt (x : UInt64) : ℤ := x.toBitVec.toInt

def slice (bs : Bytes) (lo hi : ℤ) : Except String Bytes :=
  if 0 ≤ lo ∧ lo ≤ hi ∧ hi ≤ bs.length then
    .ok ((bs.drop lo.toNat).take (hi - lo).toNat)
  else .error "slice bounds out of range"

def rightPadBytes (bs : Bytes) (l : ℤ) : Bytes :=
  if l ≤ bs.length then bs else bs ++ List.replicate (l.toNat - bs.length) 0

end Web3.Vm
