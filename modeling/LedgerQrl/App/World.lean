import LedgerQrl.Display.Review
import LedgerQrl.Mldsa87.Keccak256
import LedgerQrl.Mldsa87.Sign

namespace LedgerQrl.App

open Foundation Mldsa87 Display Transaction

/-! # The app and what it has been asked and has answered

The context in RAM, the storage, the review on the screen, and a journal of
everything that reached the app or left it. -/

/-- `state_e`. -/
inductive State where
  | none
  | parsed
  | approved
deriving DecidableEq, Repr

/-- `request_type_e`. -/
inductive RequestType where
  | confirmAddress
  | confirmTransaction
deriving DecidableEq, Repr

def maxBip32Path : ℕ := 10

/-- `global_ctx_t`. -/
structure GlobalCtx where
  state : State
  rawTx : Vector UInt8 maxTransactionLen
  rawTxLen : ℕ
  mHash : Vector UInt8 32
  reqType : RequestType
  bip32Path : Vector UInt32 maxBip32Path
  bip32PathLen : UInt8
  address : Vector UInt8 addressSize

namespace GlobalCtx

def zero : GlobalCtx where
  state := .none
  rawTx := Vector.replicate maxTransactionLen 0
  rawTxLen := 0
  mHash := Vector.replicate 32 0
  reqType := .confirmAddress
  bip32Path := Vector.replicate maxBip32Path 0
  bip32PathLen := 0
  address := Vector.replicate addressSize 0

/-- `raw_tx[0..raw_tx_len)`. -/
def transaction (ctx : GlobalCtx) : List UInt8 := ctx.rawTx.toList.take ctx.rawTxLen

def path (ctx : GlobalCtx) : List UInt32 :=
  ctx.bip32Path.toList.take ctx.bip32PathLen.toNat

end GlobalCtx

def isValidZondBip32Path : List UInt32 → Bool
  | [purpose, coinType, account, change, index] =>
      purpose == 0x8000002C && coinType == 0x800000EE &&
        (account &&& 0x80000000) != 0 && (change &&& 0x80000000) == 0 &&
        (index &&& 0x80000000) == 0
  | _ => false

/-! ## Commands -/

/-- `command_t`. A null pointer as data comes with the length zero. -/
structure Command where
  cla : UInt8
  ins : UInt8
  p1 : UInt8
  p2 : UInt8
  data : Option (List UInt8)
  short : (data.getD []).length ≤ 255
deriving DecidableEq

def Command.bytes (command : Command) : List UInt8 := command.data.getD []

/-- `os_derive_bip32_no_throw`: a `cx_err_t`, or the raw seed. -/
abbrev Derive := List UInt32 → Except ℕ (Vector UInt8 64)

/-- What the calls out of the app return during one command or callback: the
derivations, the random bytes, and what static buffers still hold. -/
structure Environment where
  addressSeed : Derive
  signSeed : Derive
  verifySeed : Derive
  rnd : Vector UInt8 32
  buffers : ReviewBuffers

/-- The SDK functions that read the data of a command, with what the handlers
rely on. A read that fails may have written anything. -/
structure Sdk where
  /-- `buffer_read_u8`: the result, the byte, and the unread bytes. -/
  readU8 : List UInt8 → Bool × UInt8 × List UInt8
  /-- `buffer_read_bip32_path` of a length into an array with a content. -/
  readBip32Path : List UInt8 → UInt8 → Vector UInt32 maxBip32Path →
    Bool × Vector UInt32 maxBip32Path
  /-- `buffer_move` of the unread bytes into a room. -/
  move : List UInt8 → ℕ → Option (List UInt8)
  readU8_cons : ∀ byte rest, readU8 (byte :: rest) = (true, byte, rest)
  readU8_nil : (readU8 []).1 = false
  readBip32Path_iff : ∀ bytes length before,
    (readBip32Path bytes length before).1 = true ↔
      0 < length.toNat ∧ length.toNat ≤ maxBip32Path ∧ 4 * length.toNat ≤ bytes.length
  readBip32Path_word : ∀ bytes length before,
    (readBip32Path bytes length before).1 = true → ∀ index : Fin maxBip32Path,
      index.val < length.toNat →
        (readBip32Path bytes length before).2[index].toNat =
          bigEndian ((bytes.drop (4 * index)).take 4)
  move_eq : ∀ bytes room, bytes.length ≤ room → move bytes room = some bytes

namespace Sdk

/-- `buffer_read_u8` that writes a zero when it fails. -/
def readByte : List UInt8 → Bool × UInt8 × List UInt8
  | [] => (false, 0, [])
  | byte :: rest => (true, byte, rest)

theorem readByte_cons (byte : UInt8) (rest : List UInt8) :
    readByte (byte :: rest) = (true, byte, rest) := rfl

theorem readByte_nil : (readByte []).1 = false := rfl

/-- `buffer_read_bip32_path` that leaves the array alone when it fails. -/
def readWords (bytes : List UInt8) (length : UInt8) (before : Vector UInt32 maxBip32Path) :
    Bool × Vector UInt32 maxBip32Path :=
  if 0 < length.toNat ∧ length.toNat ≤ maxBip32Path ∧ 4 * length.toNat ≤ bytes.length then
    (true, Vector.ofFn fun index =>
      if index.val < length.toNat then
        UInt32.ofNat (bigEndian ((bytes.drop (4 * index)).take 4))
      else before[index])
  else (false, before)

theorem readWords_iff (bytes : List UInt8) (length : UInt8)
    (before : Vector UInt32 maxBip32Path) :
    (readWords bytes length before).1 = true ↔
      0 < length.toNat ∧ length.toNat ≤ maxBip32Path ∧ 4 * length.toNat ≤ bytes.length := by
  rw [readWords]
  split
  · rename_i fits
    exact ⟨fun _ => fits, fun _ => rfl⟩
  · rename_i short
    exact ⟨fun read => absurd read Bool.false_ne_true, fun fits => absurd fits short⟩

/-- Reads as they are documented; one that fails writes nothing. -/
def standard : Sdk where
  readU8 := readByte
  readBip32Path := readWords
  move bytes room := if bytes.length ≤ room then some bytes else none
  readU8_cons := readByte_cons
  readU8_nil := readByte_nil
  readBip32Path_iff := readWords_iff
  readBip32Path_word bytes length before read index within := by
    have fits := (readWords_iff bytes length before).mp read
    have small : bigEndian ((bytes.drop (4 * index.val)).take 4) < UInt32.size := by
      have bound := bigEndian_lt ((bytes.drop (4 * index.val)).take 4)
      have count : ((bytes.drop (4 * index.val)).take 4).length = 4 := by
        rw [List.length_take, List.length_drop]
        omega
      rw [count] at bound
      exact bound.trans_le (by norm_num [UInt32.size])
    rw [readWords, if_pos fits, getElem_index, Vector.getElem_ofFn, if_pos within,
      UInt32.toNat_ofNat_of_lt' small]
  move_eq _ _ fits := if_pos fits

end Sdk

/-- What the app is linked with: hash functions, the width of `size_t`, and the
SDK. -/
structure Platform where
  shake : Shake
  permutation : Permutation
  sizeWidth : ℕ
  sdk : Sdk

/-! ## Reviews and answers -/

/-- What a transaction review was made from. -/
structure Origin where
  transaction : List UInt8
  path : List UInt32
  address : Vector UInt8 addressSize
  blind : Bool
  blindSigning : Bool
deriving DecidableEq

inductive Review where
  | address (text : List Char)
  | transaction (pairs : List Pair) (origin : Origin)
deriving DecidableEq

/-- What is sent to the host; all but a status word carry `SW_OK`. -/
inductive Response where
  | status (status : StatusWord)
  | constant (bytes : List UInt8)
  | address (bytes : List UInt8)
  | signature (index : ℕ) (bytes : List UInt8)
  | publicKey (index : ℕ) (bytes : List UInt8)
deriving DecidableEq

def Response.statusWord : Response → StatusWord
  | .status code => code
  | _ => .ok

inductive Entry where
  /-- `app_main` has been entered. -/
  | started
  | received (command : Command)
  /-- The user has answered a review. -/
  | chose (review : Review) (confirm : Bool)
  /-- `buffer_move` has copied a chunk; `final` for `P1 = 2`. -/
  | copied (bytes : List UInt8) (final : Bool)
  /-- `enable_blind_signing` where the policy has been checked. -/
  | checked (blindSigning : Bool)
  /-- A call of `os_derive_bip32_no_throw`. -/
  | derives (path : List UInt32) (outcome : Except ℕ (Vector UInt8 64))
  | displayed (review : Review)
  /-- A call of `crypto_sign_optimized`. -/
  | signs (path : List UInt32) (message : Vector UInt8 32)
  /-- A write has changed `N_storage.sig`. -/
  | sigWritten
  /-- `crypto_verify_optimized` has returned `is_verified` for the signature. -/
  | verified (sig : Vector UInt8 4627) (isVerified : Bool)
  | answered (response : Response)

/-- The journal lists the latest entry first. -/
structure World where
  running : Bool
  ctx : GlobalCtx
  nvm : InternalStorage
  review : Option Review
  journal : List Entry

namespace World

/-- A device on which the app has just been installed. -/
def installed : World where
  running := false
  ctx := .zero
  nvm := .zeroed
  review := none
  journal := []

/-- Loss of power: only the storage remains, and what has happened. -/
def powerOff (world : World) : World :=
  { world with running := false, ctx := .zero, review := none }

@[simps running ctx nvm review journal]
def record (entry : Entry) (world : World) : World :=
  { world with journal := entry :: world.journal }

def store (nvm : InternalStorage) (world : World) : World :=
  { world with
    nvm := nvm
    journal := if nvm.sig = world.nvm.sig then world.journal
      else .sigWritten :: world.journal }

end World

abbrev AppProgram := Program World

def onNvm {Result : Type} (program : NvmProgram Result) : AppProgram Result :=
  Program.within World.nvm World.store program

def record (entry : Entry) : AppProgram Unit := Program.update (World.record entry)

/-- `io_send_response_pointer` and `io_send_sw`. -/
def answer (response : Response) : AppProgram Unit := record (.answered response)

def ioSendSw (status : StatusWord) : AppProgram Unit := answer (.status status)

def setCtx (change : GlobalCtx → GlobalCtx) : AppProgram Unit :=
  Program.update fun world => { world with ctx := change world.ctx }

def getCtx : AppProgram GlobalCtx := do
  let world ← Program.read
  pure world.ctx

def display (review : Review) : AppProgram Unit :=
  Program.update fun world =>
    { world with review := some review, journal := .displayed review :: world.journal }

end LedgerQrl.App
