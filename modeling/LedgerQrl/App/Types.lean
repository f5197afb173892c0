import LedgerQrl.Transaction.Acceptance

namespace LedgerQrl.App

open Transaction

/-! # Status words and the context of a request

`sw.h`, `types.h` and `globals.h`. The member `pk_info` of the union in the
context is used nowhere. -/

inductive StatusWord where
  | ok
  | deny
  | wrongP1P2
  | wrongDataLength
  | insNotSupported
  | claNotSupported
  | displayAddressFail
  | displayAmountFail
  | wrongTxLength
  | txParsingFail
  | badState
  | signatureFail
  /-- A `cx_err_t` that is sent as it is. -/
  | internal (error : ℕ)
deriving DecidableEq, Repr

def StatusWord.code : StatusWord → ℕ
  | .ok => 0x9000
  | .deny => 0x6985
  | .wrongP1P2 => 0x6a86
  | .wrongDataLength => 0x6a87
  | .insNotSupported => 0x6d00
  | .claNotSupported => 0x6e00
  | .displayAddressFail => 0xb002
  | .displayAmountFail => 0xb003
  | .wrongTxLength => 0xb004
  | .txParsingFail => 0xb005
  | .badState => 0xb007
  | .signatureFail => 0xb008
  | .internal error => error % 2 ^ 16

end LedgerQrl.App
