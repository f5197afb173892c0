import LedgerQrl.App.Retrieval

namespace LedgerQrl.App

open Foundation Mldsa87 Display Transaction

/-! # The client

The functions by which the tests of the app talk to it. An exchange ends with the
response to its command. -/

abbrev Payload (maxSize : ℕ) : Type := { bytes : List UInt8 // bytes.length ≤ maxSize }

namespace Payload

def empty (maxSize : ℕ) : Payload maxSize := ⟨[], Nat.zero_le maxSize⟩

def slice (message : List UInt8) (x maxSize : ℕ) : Payload maxSize :=
  ⟨(message.drop x).take maxSize, List.length_take_le _ _⟩

/-- The data pointer of a command is null without data. -/
def pointer {maxSize : ℕ} (payload : Payload maxSize) : Option (List UInt8) :=
  if payload.val = [] then none else some payload.val

@[simp] theorem getD_pointer {maxSize : ℕ} (payload : Payload maxSize) :
    payload.pointer.getD [] = payload.val := by
  rw [pointer]
  split
  · rename_i empty
    exact empty.symm
  · rfl

theorem pointer_short {maxSize : ℕ} (payload : Payload maxSize) (small : maxSize ≤ 255) :
    (payload.pointer.getD []).length ≤ 255 := by
  rw [getD_pointer]
  exact payload.property.trans small

end Payload

def maxApduLen : ℕ := 255

theorem maxApduLen_le : maxApduLen ≤ 255 := le_rfl

def splitMessage (message : List UInt8) (maxSize : ℕ) : List (Payload maxSize) :=
  (List.range ((message.length + maxSize - 1) / maxSize)).map fun index =>
    Payload.slice message (index * maxSize) maxSize

@[simps cla ins p1 p2 data]
def apdu (ins p1 p2 : UInt8) (data : Payload maxApduLen) : Command where
  cla := 0xE0
  ins := ins
  p1 := p1
  p2 := p2
  data := data.pointer
  short := data.pointer_short maxApduLen_le

/-! ## Exchanges -/

def Response.bytes : Response → List UInt8
  | .status _ => []
  | .constant bytes => bytes
  | .address bytes => bytes
  | .signature _ bytes => bytes
  | .publicKey _ bytes => bytes

def responseTo : List Entry → Option Response
  | [] => none
  | .received _ :: _ => none
  | .answered response :: _ => some response
  | _ :: rest => responseTo rest

/-- What surrounds an exchange: what the calls out of the app return, and how the user
answers the review that the command shows. -/
structure Around where
  serving : Environment
  confirm : Bool
  answering : Environment

inductive Failure where
  /-- `ExceptionRAPDU`. -/
  | rapdu (status : StatusWord)
  | indexError
  | assertionError
  /-- The command has not been answered. -/
  | waiting
deriving DecidableEq, Repr

/-- The app, and how many exchanges it has been through. -/
structure Host where
  world : World
  exchanges : ℕ

abbrev Client := EStateM Failure Host

section Client

variable (platform : Platform) (around : ℕ → Around)

/-- The world after a command, and after the answer to the review that it shows. -/
def exchanged (around : Around) (command : Command) (world : World) : World :=
  let served := (apduDispatcher platform around.serving command).finish world
  if (responseTo served.journal).isSome then served
  else (chooseReview platform around.answering around.confirm).finish served

/-- `exchange` of the backend, which raises unless the status is `SW_OK`. -/
def exchange (command : Command) : Client (List UInt8) := fun host =>
  let world := exchanged platform (around host.exchanges) command host.world
  let next : Host := { world := world, exchanges := host.exchanges + 1 }
  match responseTo world.journal with
  | none => .error .waiting next
  | some response =>
      if response.statusWord.code = StatusWord.ok.code then .ok response.bytes next
      else .error (.rapdu response.statusWord) next

/-! ## The functions of the command sender -/

/-- `get_public_key`, of a path as `pack_derivation_path` packs it. -/
def getPublicKey (packed : Payload maxApduLen) : Client (List UInt8) :=
  exchange platform around (apdu 5 0 0 packed)

def getPublicKeyWithConfirmation (packed : Payload maxApduLen) : Client (List UInt8) :=
  exchange platform around (apdu 5 1 0 packed)

def exchangeAll (p1 : UInt8) : List (Payload maxApduLen) → Client Unit
  | [] => pure ()
  | msg :: rest => do
      let _ ← exchange platform around (apdu 6 p1 0 msg)
      exchangeAll p1 rest

/-- `sign_tx`: the response that it yields. -/
def signTx (packed : Payload maxApduLen) (transaction : List UInt8) :
    Client (List UInt8) := do
  let _ ← exchange platform around (apdu 6 0 0 packed)
  let messages := splitMessage transaction maxApduLen
  exchangeAll platform around 1 messages.dropLast
  match messages.getLast? with
  | none => throw .indexError
  | some msg => exchange platform around (apdu 6 2 0 msg)

/-! ## The functions of the tests -/

def pkLen : ℕ := 2592

def sigLen : ℕ := 4627

/-- Append the responses for `p2` in `range(first, first + count)`. -/
def collect (ins p1 : UInt8) : (first count : ℕ) → (bytes : List UInt8) → Client (List UInt8)
  | _, 0, bytes => pure bytes
  | first, count + 1, bytes => do
      let data ← exchange platform around (apdu ins p1 (UInt8.ofNat first) (.empty _))
      collect ins p1 (first + 1) count (bytes ++ data)

def getPublicKeyChunks : Client (List UInt8) := do
  let pk ← collect platform around 5 0 1 11 []
  pure (pk.take pkLen)

def getSignatureChunks (firstChunk : List UInt8) : Client (List UInt8) := do
  let sig ← collect platform around 6 2 1 17 firstChunk
  pure (sig.take sigLen)

def ensure (condition : Prop) [Decidable condition] : Client Unit :=
  if condition then pure () else throw .assertionError

/-- What `test_e2e_device_sign` dumps. -/
structure Dump where
  address : List UInt8
  publicKey : List UInt8
  signature : List UInt8
deriving DecidableEq

/-- `test_e2e_device_sign`. -/
def e2eDeviceSign (packed : Payload maxApduLen) (preimage : List UInt8) : Client Dump := do
  let response ← getPublicKey platform around packed
  ensure (response.take 1 = [zondAddressPrefix] ∧ response.length = 65)
  let pk ← getPublicKeyChunks platform around
  ensure (pk.length = pkLen)
  let first ← signTx platform around packed preimage
  let sig ← getSignatureChunks platform around first
  ensure (sig.length = sigLen)
  pure { address := response.drop 1, publicKey := pk, signature := sig }

end Client

end LedgerQrl.App
