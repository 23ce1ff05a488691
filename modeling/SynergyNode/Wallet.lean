import SynergyNode.Address
import SynergyNode.Signature.Live

/-!
# The wallet

A node holds one key pair for each slot, of the scheme that is live there.  A key pair is kept
in a file:

`name length (1) ++ scheme name ++ public length (4) ++ public key ++ secret key`

Key files that are missing or of another scheme are replaced by fresh keys; fresh keys come
from a `KeySource`.
-/

namespace SynergyNode

/-- Where the reading of a key file breaks off. -/
inductive KeyFileFault where
  | empty
  | header
  /-- The name of the scheme is no text. -/
  | schemeName
  | publicKey
deriving DecidableEq

/-- The text for a fault. -/
def KeyFileFault.text : KeyFileFault → String
  | .empty => "empty"
  | .header => "truncated header"
  | .schemeName => "scheme name"
  | .publicKey => "truncated public key"

/-- Why a wallet cannot be had. -/
inductive WalletError where
  | io (reason : String)
  | invalidKeyFile (file : String) (fault : KeyFileFault)
  | key (cause : KeyError)
deriving DecidableEq

/-- The text of an error. -/
def WalletError.message : WalletError → String
  | .io reason => "I/O error: " ++ reason
  | .invalidKeyFile file fault => "invalid key file " ++ file ++ ": " ++ fault.text
  | .key e => e.message

/-- The cause of an error under a fixed name, followed by that of the error it wraps. -/
def WalletError.code : WalletError → String
  | .io _ => "Io"
  | .invalidKeyFile _ _ => "InvalidKeyFile"
  | .key e => "Key/" ++ e.code

/-- A fresh key pair of every scheme for each slot. -/
abbrev KeySource := Slot → (s : Scheme) → { k : Keypair // k.scheme = s }

/-! ## 1. Key files -/

namespace KeyFile

/-- The file that holds the key of a slot. -/
def name : Slot → String
  | .primary => "wallet_primary.key"
  | .secondary => "wallet_secondary.key"

/-- The content of a file with two keys of a named scheme. -/
def layout (scheme : String) (publicKey secretKey : Bytes) : Bytes :=
  let name := Text.Utf8.encode scheme
  UInt8.ofNat name.length :: (name ++ (leBytes 4 publicKey.length ++ (publicKey ++ secretKey)))

/-- The content of the file of a key pair. -/
def encode (k : Keypair) : Bytes := layout k.scheme.name k.publicKey k.secretKey

/-- Reads the two keys of a known scheme. -/
def decodeKeys (file : String) (s : Scheme) (b : Bytes) : Except WalletError Keypair :=
  let length := ofLe (b.take 4)
  let keys := b.drop 4
  if keys.length < length then .error (.invalidKeyFile file .publicKey)
  else
    match Keypair.ofBytes s (keys.take length) (keys.drop length) with
    | .error e => .error (.key e)
    | .ok k => .ok k

/-- Reads the content of a key file. -/
def decode (file : String) : Bytes → Except WalletError Keypair
  | [] => .error (.invalidKeyFile file .empty)
  | n :: rest =>
    if rest.length < n.toNat + 4 then .error (.invalidKeyFile file .header)
    else
      match Text.Utf8.decode? (rest.take n.toNat) with
      | none => .error (.invalidKeyFile file .schemeName)
      | some name =>
        match Scheme.ofName name with
        | .error e => .error (.key e)
        | .ok s => decodeKeys file s (rest.drop n.toNat)

end KeyFile

/-- The contents of the key files that exist. -/
abbrev KeyFiles := PerSlot (Option Bytes)

/-! ## 2. Wallets -/

/-- The key pairs of a node, and the files they are kept in, if they are kept. -/
structure Wallet where
  keys : PerSlot Keypair
  files : Option KeyFiles

namespace Wallet

/-- The scheme that is live in a slot. -/
def wantedScheme (live : LiveSchemes) (slot : Slot) : Except WalletError Scheme :=
  match (live.get slot).scheme with
  | .error e => .error (.key e)
  | .ok s => .ok s

/-- The key pair in the file of a slot, if there is a file. -/
def storedKey (files : KeyFiles) (slot : Slot) : Except WalletError (Option Keypair) :=
  match files.get slot with
  | none => .ok none
  | some b =>
    match KeyFile.decode (KeyFile.name slot) b with
    | .error e => .error e
    | .ok k => .ok (some k)

/-- The stored key pair of a slot if it is of the live scheme, else a fresh one, which is
stored. -/
def loadSlot (source : KeySource) (live : LiveSchemes) (slot : Slot) (files : KeyFiles) :
    Except WalletError Keypair × KeyFiles :=
  match wantedScheme live slot with
  | .error e => (.error e, files)
  | .ok s =>
    match storedKey files slot with
    | .error e => (.error e, files)
    | .ok stored =>
      match stored.filter fun k => k.scheme == s with
      | some k => (.ok k, files)
      | none =>
        let k := (source slot s).1
        (.ok k, files.set slot (some (KeyFile.encode k)))

/-- The wallet kept in the given files, and the files as they are then. -/
def load (source : KeySource) (live : LiveSchemes) (files : KeyFiles) :
    Except WalletError Wallet × KeyFiles :=
  match loadSlot source live .primary files with
  | (.error e, files) => (.error e, files)
  | (.ok primary, files) =>
    match loadSlot source live .secondary files with
    | (.error e, files) => (.error e, files)
    | (.ok secondary, files) => (.ok ⟨⟨primary, secondary⟩, some files⟩, files)

/-- A wallet of fresh keys that is not kept. -/
def ephemeral (source : KeySource) (live : LiveSchemes) : Except WalletError Wallet :=
  match wantedScheme live .primary with
  | .error e => .error e
  | .ok p =>
    match wantedScheme live .secondary with
    | .error e => .error e
    | .ok s => .ok ⟨⟨(source .primary p).1, (source .secondary s).1⟩, none⟩

/-- The key pair of a slot. -/
def key (w : Wallet) (slot : Slot) : Keypair := w.keys.get slot

/-- The address that belongs to the key of a slot. -/
def address (w : Wallet) (slot : Slot) : Address := Address.ofPublicKey (w.key slot).publicKey

/-- Puts a fresh key of a scheme into a slot, unless the key there is of that scheme already;
says whether it did. -/
def rotate (w : Wallet) (source : KeySource) (slot : Slot) (s : Scheme) : Bool × Wallet :=
  if (w.key slot).scheme = s then (false, w)
  else
    let k := (source slot s).1
    (true, ⟨w.keys.set slot k, w.files.map fun f => f.set slot (some (KeyFile.encode k))⟩)

end Wallet

end SynergyNode
