import SynergyNode.Text.Quoted

/-!
# The known signature schemes

Five schemes, each with its name and the lengths of its keys and signatures.  A name selects at
most one scheme (`Scheme.ofName?_name`).
-/

namespace SynergyNode

/-- A signature scheme the node knows. -/
inductive Scheme where
  | falcon512
  | falcon1024
  | dilithium2
  | dilithium3
  | dilithium5
deriving DecidableEq, Repr

namespace Scheme

/-- Every known scheme. -/
def all : List Scheme := [falcon512, falcon1024, dilithium2, dilithium3, dilithium5]

/-- The name a scheme is announced under. -/
def name : Scheme → String
  | falcon512 => "Falcon-512"
  | falcon1024 => "Falcon-1024"
  | dilithium2 => "Dilithium2"
  | dilithium3 => "Dilithium3"
  | dilithium5 => "Dilithium5"

/-- Bytes of a public key. -/
def publicKeyLength : Scheme → Nat
  | falcon512 => 897
  | falcon1024 => 1793
  | dilithium2 => 1312
  | dilithium3 => 1952
  | dilithium5 => 2592

/-- Bytes of a secret key. -/
def secretKeyLength : Scheme → Nat
  | falcon512 => 1281
  | falcon1024 => 2305
  | dilithium2 => 2560
  | dilithium3 => 4032
  | dilithium5 => 4896

/-- Most bytes of a signature; those of Falcon may be shorter. -/
def signatureLength : Scheme → Nat
  | falcon512 => 666
  | falcon1024 => 1280
  | dilithium2 => 2420
  | dilithium3 => 3309
  | dilithium5 => 4627

/-- The scheme with a given name. -/
def ofName? (name : String) : Option Scheme :=
  all.find? fun s => s.name == name

theorem mem_all (s : Scheme) : s ∈ all := by
  cases s <;> simp [all]

@[simp] theorem ofName?_name (s : Scheme) : ofName? s.name = some s := by
  cases s <;> decide

/-- Only its own name selects a scheme. -/
theorem name_eq_of_ofName? {n : String} {s : Scheme} (h : ofName? n = some s) : s.name = n := by
  have := List.find?_some h
  simpa using this

end Scheme

/-- The two halves of a key pair. -/
inductive KeyPart where
  | publicHalf
  | secretHalf
deriving DecidableEq

/-- What can be wrong with a key. -/
inductive KeyError where
  /-- No scheme has this name. -/
  | unknownScheme (name : String)
  /-- This half of the pair has the wrong length. -/
  | malformedKey (part : KeyPart)
deriving DecidableEq

namespace KeyError

/-- The text of an error. -/
def message : KeyError → String
  | unknownScheme name => "unknown signature scheme " ++ Text.Quoted.encode name
  | malformedKey .publicHalf => "malformed public key"
  | malformedKey .secretHalf => "malformed secret key"

/-- The cause of an error under a fixed name, followed by that of the error it wraps. -/
def code : KeyError → String
  | unknownScheme _ => "UnknownScheme"
  | malformedKey _ => "MalformedKey"

end KeyError

namespace Scheme

/-- The scheme with a given name, or the error that there is none. -/
def ofName (name : String) : Except KeyError Scheme :=
  match ofName? name with
  | some s => .ok s
  | none => .error (.unknownScheme name)

end Scheme

end SynergyNode
