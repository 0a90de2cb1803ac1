import BridgeKernel.Bytes
import BridgeKernel.Hash.Sha256
import BridgeKernel.Hash.Keccak256
import BridgeKernel.Curve.Secp256k1

/-!
# Signatures over secp256k1

Verification, recovery of the signer, and deterministic signing, all over a 32-byte digest chosen by
the caller. A signature counts only in its low-`s` form, of the two that a signer can derive from
each other.
-/

namespace BridgeKernel

open Secp256k1

/-- Why a key or signature was refused. -/
inductive SignatureError where
  /-- A signature's numbers are out of range. -/
  | invalidSignatureFormat
  /-- The recovery byte is none of 0, 1, 27 and 28. -/
  | invalidRecoveryId (v : UInt8)
  /-- The second number lies in the upper half of the group order. -/
  | highS
  /-- No key matches the signature. -/
  | recoveryFailed
  /-- The bytes are no public key. -/
  | invalidPublicKey
  /-- The bytes are no private key. -/
  | invalidPrivateKey
  /-- The signature does not fit the key and digest. -/
  | verificationFailed
deriving DecidableEq, Repr

/-- The wording of a refusal. -/
def SignatureError.message : SignatureError → String
  | .invalidSignatureFormat => "Invalid signature format"
  | .invalidRecoveryId v => "Invalid recovery id: " ++ toString v.toNat
  | .highS => "Signature S value is not normalized (EIP-2)"
  | .recoveryFailed => "Public key recovery failed"
  | .invalidPublicKey => "Invalid public key"
  | .invalidPrivateKey => "Invalid private key"
  | .verificationFailed => "Signature verification failed"

namespace Ecdsa

/-- A signature's two numbers. -/
structure Signature where
  /-- First coordinate of the nonce point, modulo the group order. -/
  r : Nat
  /-- Proof that the signer knew the key and the nonce. -/
  s : Nat
deriving DecidableEq

/-- Whether both numbers lie strictly between zero and the group order. -/
def Signature.inRange (sig : Signature) : Bool :=
  decide (0 < sig.r) && decide (sig.r < groupOrder) && decide (0 < sig.s) &&
    decide (sig.s < groupOrder)

/-- Whether the second number lies in the upper half of the group order. -/
def Signature.isHigh (sig : Signature) : Bool := decide (groupOrder / 2 < sig.s)

/-- The numbers of a signature written as two 32-byte halves. -/
def Signature.ofHalves (bytes : Bytes) : Signature :=
  ⟨Bytes.toNatBE (bytes.take 32), Bytes.toNatBE ((bytes.drop 32).take 32)⟩

/-- The two halves of a signature. -/
def Signature.toBytes (sig : Signature) : FixedBytes 64 :=
  (FixedBytes.ofNatBE 32 sig.r).append (FixedBytes.ofNatBE 32 sig.s)

/-- The digest as a number modulo the group order. -/
def digestScalar (digest : Hash) : Nat := digest.toNatBE % groupOrder

/-- Whether a low-`s` signature fits a key and a digest. -/
def verifies (key : Point) (digest : Hash) (sig : Signature) : Bool :=
  if sig.inRange && !sig.isHigh then
    let w := invMod groupOrder sig.s
    let u₁ := digestScalar digest * w % groupOrder
    let u₂ := sig.r * w % groupOrder
    match combine u₁ generator u₂ key with
    | .infinity => false
    | .affine x _ => x % groupOrder == sig.r
  else false

/-- The key under which a signature fits a digest, given the parity of the nonce point. -/
def recoverPoint? (digest : Hash) (sig : Signature) (odd : Bool) : Option Point :=
  match lift? sig.r odd with
  | none => none
  | some nonce =>
    let w := invMod groupOrder sig.r
    let u₁ := (groupOrder - digestScalar digest * w % groupOrder) % groupOrder
    let u₂ := sig.s * w % groupOrder
    match combine u₁ generator u₂ nonce with
    | .infinity => none
    | key => some key

/-! ## Deterministic signing -/

/-- The nonce for a secret and a digest: the first candidate in range of the keyed-digest
generator seeded by both. Each refused candidate, of which there is practically none, uses one unit
of fuel. -/
def nonce (secret : Nat) (digest : Hash) : Nat :=
  let seed := Bytes.ofNatBE 32 secret ++ digest.toBytes
  let v₀ := List.replicate 32 1
  let k₁ := (Sha256.hmac (List.replicate 32 0) (v₀ ++ 0 :: seed)).toBytes
  let v₁ := (Sha256.hmac k₁ v₀).toBytes
  let k₂ := (Sha256.hmac k₁ (v₁ ++ 1 :: seed)).toBytes
  search 64 k₂ (Sha256.hmac k₂ v₁).toBytes
where
  /-- The first candidate in range. -/
  search : Nat → Bytes → Bytes → Nat
    | 0, _, _ => 1
    | fuel + 1, k, v =>
      let v' := (Sha256.hmac k v).toBytes
      let candidate := Bytes.toNatBE v'
      if 0 < candidate ∧ candidate < groupOrder then candidate
      else
        let k' := (Sha256.hmac k (v' ++ [0])).toBytes
        search fuel k' (Sha256.hmac k' v').toBytes

/-- The low-`s` signature of a digest under a secret, and the parity bit for recovering the key. -/
def sign (secret : Nat) (digest : Hash) : Signature × Bool :=
  let k := nonce secret digest
  match mulGenerator k with
  | .infinity => (⟨0, 0⟩, false)
  | .affine x y =>
    let r := x % groupOrder
    let s := invMod groupOrder k * ((digestScalar digest + r * secret) % groupOrder) % groupOrder
    if groupOrder / 2 < s then (⟨r, groupOrder - s⟩, !(y % 2 == 1))
    else (⟨r, s⟩, y % 2 == 1)

end Ecdsa

/-! ## Keys and addresses -/

/-- The coordinates of a point, sixty-four bytes. -/
def Secp256k1.Point.coordinateBytes : Point → Bytes
  | .infinity => []
  | .affine x y => Bytes.ofNatBE 32 x ++ Bytes.ofNatBE 32 y

/-- The account address of a key: the last twenty bytes of the digest of its coordinates. -/
def Secp256k1.Point.address (key : Point) : Address :=
  let digest := Keccak256.hash key.coordinateBytes
  ⟨digest.toBytes.drop 12, by simp [digest.length_toBytes]⟩

/-- The point that a 33-byte key spells: tags 2 and 3 give the parity of the second coordinate, and
the compact tag 5 stands for an even one. -/
def Secp256k1.decodeCompressed? (bytes : FixedBytes 33) : Option Point :=
  match bytes.toBytes with
  | 2 :: x => lift? (Bytes.toNatBE x) false
  | 3 :: x => lift? (Bytes.toNatBE x) true
  | 5 :: x => lift? (Bytes.toNatBE x) false
  | _ => none

/-- The 33-byte form of a point with tag 2 or 3. -/
def Secp256k1.Point.compressed : Point → FixedBytes 33
  | .infinity => FixedBytes.zero 33
  | .affine x y => ⟨(if y % 2 = 1 then 3 else 2) :: Bytes.ofNatBE 32 x, by simp⟩

/-- A public key, kept in the 33 bytes that it was read from. -/
structure PublicKey where
  /-- The bytes as read. -/
  bytes : FixedBytes 33
  /-- They spell a point. -/
  readable : (decodeCompressed? bytes).isSome
deriving DecidableEq

namespace PublicKey

/-- The point that the key spells. -/
def point (key : PublicKey) : Point := (decodeCompressed? key.bytes).get key.readable

/-- The key spelled by exactly 33 bytes. -/
def ofBytes (bytes : Bytes) : Except SignatureError PublicKey :=
  match FixedBytes.ofBytes? 33 bytes with
  | none => .error .invalidPublicKey
  | some b => if h : (decodeCompressed? b).isSome then .ok ⟨b, h⟩ else .error .invalidPublicKey

/-- The account address of the key. -/
def address (key : PublicKey) : Address := key.point.address

/-- Accepts a 64-byte signature that fits the key and digest. -/
def verify (key : PublicKey) (digest : Hash) (signature : FixedBytes 64) :
    Except SignatureError Unit :=
  let sig := Ecdsa.Signature.ofHalves signature.toBytes
  if !sig.inRange then .error .invalidSignatureFormat
  else if Ecdsa.verifies key.point digest sig then .ok ()
  else .error .verificationFailed

end PublicKey

/-- The address whose key made a 65-byte signature `r ‖ s ‖ v` over a digest. The recovery byte is
checked first, then the range of the numbers, then that `s` is low. -/
def recoverSigner (digest : Hash) (signature : FixedBytes 65) : Except SignatureError Address :=
  let v := signature.toBytes.getD 64 0
  let sig := Ecdsa.Signature.ofHalves signature.toBytes
  if v ∉ [0, 1, 27, 28] then .error (.invalidRecoveryId v)
  else if !sig.inRange then .error .invalidSignatureFormat
  else if sig.isHigh then .error .highS
  else
    match Ecdsa.recoverPoint? digest sig (v == 1 || v == 28) with
    | none => .error .recoveryFailed
    | some key => .ok key.address

/-- A secret number between zero and the group order, with its public point. -/
structure KeyPair where
  /-- The secret. -/
  secret : Nat
  /-- It is a valid scalar. -/
  inRange : 0 < secret ∧ secret < groupOrder

namespace KeyPair

/-- The key pair of a 32-byte secret. -/
def ofBytes (bytes : FixedBytes 32) : Except SignatureError KeyPair :=
  if h : 0 < bytes.toNatBE ∧ bytes.toNatBE < groupOrder then .ok ⟨bytes.toNatBE, h⟩
  else .error .invalidPrivateKey

/-- The public point. -/
def point (pair : KeyPair) : Point := mulGenerator pair.secret

/-- The public key in compressed form. -/
def publicKey (pair : KeyPair) : FixedBytes 33 := pair.point.compressed

/-- The account address. -/
def address (pair : KeyPair) : Address := pair.point.address

/-- The signature of a digest, sixty-four bytes. -/
def sign (pair : KeyPair) (digest : Hash) : FixedBytes 64 :=
  (Ecdsa.sign pair.secret digest).1.toBytes

/-- The signature of a digest followed by its recovery byte. -/
def signRecoverable (pair : KeyPair) (digest : Hash) : FixedBytes 65 :=
  let signed := Ecdsa.sign pair.secret digest
  signed.1.toBytes.append (FixedBytes.ofNatBE 1 (if signed.2 then 1 else 0))

/-- A text that names the pair by its address and keeps the secret out. -/
def describe (pair : KeyPair) : String :=
  "Secp256k1KeyPair \x7b address: \"" ++ pair.address.toHex ++ "\", .. \x7d"

end KeyPair

end BridgeKernel
