import SynergyNode.Signature.Scheme
import SynergyNode.Signature.Falcon
import SynergyNode.Signature.Dilithium.Scheme

/-!
# Signing and verifying

The rules of the chain use signatures only through a `SignatureSuite`: whether a signature is
valid, and which signature a secret key makes.  `lattice` is the suite of the running node.

`Scheme.verify` adds the checks on lengths that come before any arithmetic.  A `Keypair` holds
a pair of keys whose lengths are those of its scheme.
-/

namespace SynergyNode

/-- How signatures are made and checked; keys and signatures given to it have their scheme's
lengths. -/
class SignatureSuite where
  valid : Scheme → (publicKey message signature : Bytes) → Bool
  sign : Scheme → (secretKey message : Bytes) → Bytes

namespace SignatureSuite

/-- The lattice schemes.  A Falcon key that holds no usable secret signs with the empty
signature, which never verifies; making Falcon signatures is left to the holder of the key. -/
instance lattice : SignatureSuite where
  valid
    | .falcon512 => Signature.Falcon.verify Signature.Falcon.size512
    | .falcon1024 => Signature.Falcon.verify Signature.Falcon.size1024
    | .dilithium2 => Signature.Dilithium.verify Signature.Dilithium.level2
    | .dilithium3 => Signature.Dilithium.verify Signature.Dilithium.level3
    | .dilithium5 => Signature.Dilithium.verify Signature.Dilithium.level5
  sign
    | .falcon512 => fun _ _ => []
    | .falcon1024 => fun _ _ => []
    | .dilithium2 => Signature.Dilithium.sign Signature.Dilithium.level2
    | .dilithium3 => Signature.Dilithium.sign Signature.Dilithium.level3
    | .dilithium5 => Signature.Dilithium.sign Signature.Dilithium.level5

end SignatureSuite

/-- Whether a signature is valid; keys and signatures of a wrong length never are. -/
def Scheme.verify [SignatureSuite] (s : Scheme) (publicKey message signature : Bytes) : Bool :=
  !signature.isEmpty && decide (signature.length ≤ s.signatureLength) &&
    decide (publicKey.length = s.publicKeyLength) &&
    SignatureSuite.valid s publicKey message signature

/-- A pair of keys of one scheme. -/
structure Keypair where
  scheme : Scheme
  publicKey : Bytes
  secretKey : Bytes
  length_publicKey : publicKey.length = scheme.publicKeyLength
  length_secretKey : secretKey.length = scheme.secretKeyLength
deriving DecidableEq

namespace Keypair

/-- The pair with the given halves; the public half is looked at first. -/
def ofBytes (scheme : Scheme) (publicKey secretKey : Bytes) : Except KeyError Keypair :=
  if hp : publicKey.length = scheme.publicKeyLength then
    if hs : secretKey.length = scheme.secretKeyLength then
      .ok ⟨scheme, publicKey, secretKey, hp, hs⟩
    else .error (.malformedKey .secretHalf)
  else .error (.malformedKey .publicHalf)

/-- The signature on a message. -/
def sign [SignatureSuite] (k : Keypair) (message : Bytes) : Bytes :=
  SignatureSuite.sign k.scheme k.secretKey message

end Keypair

end SynergyNode
