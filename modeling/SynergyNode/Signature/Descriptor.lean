import SynergyNode.Slot
import SynergyNode.Text.Utf8
import SynergyNode.Signature.Scheme

/-!
# Scheme descriptors

A block header and a vote name a scheme by a descriptor of 33 bytes: the name filled up with
zeros to twenty bytes, three signed lengths of four bytes, and whether the slot is paused.
Reading accepts only descriptors of known schemes with their own lengths.
-/

namespace SynergyNode

/-- A scheme as declared in a header or vote. -/
structure Descriptor where
  name : String
  publicKeyLen : Int32
  secretKeyLen : Int32
  signatureLen : Int32
  paused : Bool
deriving DecidableEq

/-- Why a scheme, or a signature under it, is refused. -/
inductive SchemeError where
  /-- A descriptor of this many bytes. -/
  | tooShort (size : Nat)
  | key (cause : KeyError)
  /-- The declared lengths are not those of the scheme. -/
  | lengthMismatch (scheme : Scheme)
  /-- The slot takes no signatures. -/
  | paused (slot : Slot)
  | badSignature (scheme : Scheme)
deriving DecidableEq

/-- The text of an error. -/
def SchemeError.message : SchemeError → String
  | .tooShort n => "encryption config too short: " ++ toString n ++ " bytes"
  | .key e => e.message
  | .lengthMismatch s => "declared lengths do not match " ++ s.name
  | .paused slot => slot.name ++ " slot is paused"
  | .badSignature s => "signature rejected by " ++ s.name

/-- The cause of an error under a fixed name, followed by that of the error it wraps. -/
def SchemeError.code : SchemeError → String
  | .tooShort _ => "TooShort"
  | .key e => "Key/" ++ e.code
  | .lengthMismatch _ => "LengthMismatch"
  | .paused _ => "Paused"
  | .badSignature _ => "BadSignature"

namespace Descriptor

/-- Bytes of the name field. -/
def nameLength : Nat := 20

/-- Bytes of a descriptor. -/
def encodedLength : Nat := 33

/-- The descriptor of a known scheme. -/
def ofScheme (s : Scheme) (paused : Bool) : Descriptor where
  name := s.name
  publicKeyLen := Int32.ofNat s.publicKeyLength
  secretKeyLen := Int32.ofNat s.secretKeyLength
  signatureLen := Int32.ofNat s.signatureLength
  paused := paused

/-- The scheme a descriptor names. -/
def scheme (d : Descriptor) : Except KeyError Scheme := Scheme.ofName d.name

/-- The same scheme with the same lengths, whether paused or not. -/
def sameScheme (d e : Descriptor) : Bool :=
  d.name == e.name && d.publicKeyLen == e.publicKeyLen && d.secretKeyLen == e.secretKeyLen &&
    d.signatureLen == e.signatureLen

/-- The scheme, if it is known and the lengths are its own. -/
def validate (d : Descriptor) : Except SchemeError Scheme :=
  match d.scheme with
  | .error e => .error (.key e)
  | .ok s =>
    if d.sameScheme (ofScheme s d.paused) then .ok s else .error (.lengthMismatch s)

/-- The name field: at most twenty bytes of the name, then zeros. -/
def nameField (name : String) : Bytes :=
  let b := (Text.Utf8.encode name).take nameLength
  b ++ List.replicate (nameLength - b.length) 0

/-- A signed word of four bytes. -/
def intBytes (n : Int32) : Bytes := leBytes 4 n.toUInt32.toNat

/-- The signed word that four bytes denote. -/
def intOfBytes (b : Bytes) : Int32 := (UInt32.ofNat (ofLe b)).toInt32

/-- The 33 bytes of a descriptor. -/
def toBytes (d : Descriptor) : Bytes :=
  nameField d.name ++ intBytes d.publicKeyLen ++ intBytes d.secretKeyLen ++
    intBytes d.signatureLen ++ [if d.paused then 1 else 0]

/-- The fields at the front of at least 33 bytes, before they are checked. -/
def readFields (b : Bytes) : Descriptor where
  name := Text.Utf8.decodeLossy ((b.take nameLength).takeWhile (· != 0))
  publicKeyLen := intOfBytes ((b.drop 20).take 4)
  secretKeyLen := intOfBytes ((b.drop 24).take 4)
  signatureLen := intOfBytes ((b.drop 28).take 4)
  paused := (b.drop 32).headD 0 != 0

/-- Reads a descriptor and checks it; what follows the 33 bytes is ignored. -/
def ofBytes (b : Bytes) : Except SchemeError Descriptor :=
  if b.length < encodedLength then .error (.tooShort b.length)
  else
    match (readFields b).validate with
    | .error e => .error e
    | .ok _ => .ok (readFields b)

end Descriptor

end SynergyNode
