import LedgerQrl.Foundation.Text
import LedgerQrl.Transaction.RlpDecode

namespace LedgerQrl.Display

open Foundation Transaction

/-! # Numbers for the screen

`tx_format.c`. A buffer is passed with its size; a function that returns `false`
gives the buffer back. -/

/-- `TX_FORMAT_MAX_INTEGER_BYTES`. -/
def maxIntegerBytes : ℕ := 40

/-- `TX_FORMAT_MAX_DECIMAL_DIGITS`. -/
def maxDecimalDigits : ℕ := 97

/-- `TX_FORMAT_MAX_AMOUNT_LEN`. -/
def maxAmountLen : ℕ := 100

section Memory

variable {size : ℕ}

/-- `memcpy` of characters to `buffer + pos`. -/
def storeText (buffer : Buffer size) (pos : ℕ) (text : List Char) :
    Checked (Buffer size) :=
  match buffer.store pos text with
  | some stored => .ok stored
  | none => .error .outOfBounds

/-- `buffer[pos]`. -/
def readChar (buffer : Buffer size) (pos : ℕ) : Checked Char :=
  match buffer[pos]? with
  | some character => .ok character
  | none => .error .outOfBounds

/-- The characters from `start` on that `memcpy` reads. -/
def readText (buffer : Buffer size) (start count : ℕ) : Checked (List Char) :=
  if start + count ≤ size then .ok ((buffer.toList.drop start).take count)
  else .error .outOfBounds

def strlen (buffer : Buffer size) : Checked ℕ :=
  match buffer.string with
  | some text => .ok text.length
  | none => .error .outOfBounds

end Memory

/-! ## Base 10 -/

/-- The inner loop: the quotient by ten, the remainder, and whether the quotient
is zero. -/
def divideByTen : (remainder : ℕ) → List UInt8 → List UInt8 × ℕ × Bool
  | remainder, [] => ([], remainder, true)
  | remainder, byte :: rest =>
      let val := (remainder <<< 8) ||| byte.toNat
      let quotient := UInt8.ofNat (val / 10)
      let (temp, last, zero) := divideByTen (val % 10) rest
      (quotient :: temp, last, (quotient == 0) && zero)

/-- The outer loop. `result` is what the buffer holds from `index` on. -/
def decimalLoop : (index : ℕ) → (temp : List UInt8) → (result : List Char) →
    Option (List Char)
  | 0, _, _ => none
  | index + 1, temp, result =>
      let (temp, remainder, zero) := divideByTen 0 temp
      let result := Char.ofNat ('0'.toNat + remainder) :: result
      if zero then some result else decimalLoop index temp result

def uint8ArrayToDecimal {size : ℕ} (bytes : List UInt8) (out : Buffer size) :
    Checked (Bool × Buffer size) :=
  if size = 0 ∨ bytes.length > maxIntegerBytes then .ok (false, out)
  else
    match decimalLoop maxDecimalDigits bytes [nul] with
    | none => .ok (false, out)
    | some result =>
        if result.length > size then .ok (false, out)
        else do
          let out ← storeText out 0 result
          .ok (true, out)

/-! ## The point -/

section Point

variable {length size : ℕ}

/-- The digits of `raw` with the point, and the position behind them. -/
def placeDigits (raw : Buffer length) (len decimals leading : ℕ) (out : Buffer size) :
    Checked (Buffer size × ℕ) :=
  if len ≤ decimals then do
    let out ← storeText out 0 ['0']
    let out ← storeText out 1 ['.']
    let out ← storeText out 2 (List.replicate leading '0')
    let digits ← readText raw 0 len
    let out ← storeText out (2 + leading) digits
    .ok (out, 2 + leading + len)
  else do
    let integerLen := len - decimals
    let whole ← readText raw 0 integerLen
    let out ← storeText out 0 whole
    let out ← storeText out integerLen ['.']
    let fraction ← readText raw integerLen decimals
    let out ← storeText out (integerLen + 1) fraction
    .ok (out, integerLen + 1 + decimals)

/-- `while (pos && out[pos - 1] == '0') out[--pos] = '\0'`. -/
def dropZeros (out : Buffer size) : (pos : ℕ) → Checked (Buffer size × ℕ)
  | 0 => .ok (out, 0)
  | pos + 1 => do
      let last ← readChar out pos
      if last = '0' then do
        let out ← storeText out pos [nul]
        dropZeros out pos
      else .ok (out, pos + 1)

/-- `if (pos && out[pos - 1] == '.') out[--pos] = '\0'`. -/
def dropPoint (out : Buffer size) : (pos : ℕ) → Checked (Buffer size)
  | 0 => .ok out
  | pos + 1 => do
      let last ← readChar out pos
      if last = '.' then storeText out pos [nul] else .ok out

def formatWithDecimals (raw : Buffer length) (decimals : ℕ) (out : Buffer size) :
    Checked (Bool × Buffer size) :=
  if size = 0 then .ok (false, out)
  else do
    let len ← strlen raw
    if decimals = 0 then
      if len + 1 > size then .ok (false, out)
      else do
        let text ← readText raw 0 (len + 1)
        let out ← storeText out 0 text
        .ok (true, out)
    else
      let leading := if len < decimals then decimals - len else 0
      let needed := (if len > decimals then len - decimals else 1) + 1 + leading +
        (if len > decimals then decimals else len) + 1
      if needed > size then .ok (false, out)
      else do
        let (out, pos) ← placeDigits raw len decimals leading out
        let out ← storeText out pos [nul]
        let (out, pos) ← dropZeros out pos
        let out ← dropPoint out pos
        .ok (true, out)

/-- `decimal` is not read before it is written. -/
def formatQrlAmount (amount : List UInt8) (out : Buffer size) :
    Checked (Bool × Buffer size) := do
  let (converted, decimal) ←
    uint8ArrayToDecimal amount (Vector.replicate (maxDecimalDigits + 1) nul)
  if converted then formatWithDecimals decimal 18 out else .ok (false, out)

end Point

/-! ## Products -/

/-- `accum[index] = value` for a word of 32 bits. -/
def storeWord (accum : List ℕ) (index value : ℕ) : Checked (List ℕ) :=
  if index < accum.length then .ok (accum.set index (value % 2 ^ 32))
  else .error .outOfBounds

def readWord (accum : List ℕ) (index : ℕ) : Checked ℕ :=
  match accum[index]? with
  | some value => .ok value
  | none => .error .outOfBounds

def accumulate (a b : List UInt8) (i j : ℕ) (accum : List ℕ) : Checked (List ℕ) := do
  let fullLen := a.length + b.length
  let left ← readByte a (a.length - 1 - i)
  let right ← readByte b (b.length - 1 - j)
  let index ← sizeSub (fullLen - 1) (i + j)
  let sum ← readWord accum index
  storeWord accum index (sum + left * right)

/-- The inner loop: `j` from 0 to `count - 1`. -/
def accumulateRow (a b : List UInt8) (i : ℕ) : (count : ℕ) → List ℕ → Checked (List ℕ)
  | 0, accum => .ok accum
  | count + 1, accum => do
      let accum ← accumulateRow a b i count accum
      accumulate a b i count accum

/-- The outer loop: `i` from 0 to `count - 1`. -/
def accumulateRows (a b : List UInt8) : (count : ℕ) → List ℕ → Checked (List ℕ)
  | 0, accum => .ok accum
  | count + 1, accum => do
      let accum ← accumulateRows a b count accum
      accumulateRow a b count b.length accum

/-- `for (i = ...; i > 0; i--)`: the carries. -/
def carry : (i : ℕ) → List ℕ → Checked (List ℕ)
  | 0, accum => .ok accum
  | i + 1, accum => do
      let low ← readWord accum (i + 1)
      let high ← readWord accum i
      let accum ← storeWord accum i (high + (low >>> 8))
      let accum ← storeWord accum (i + 1) (low &&& 0xff)
      carry i accum

/-- `while (first + 1 < full_len && accum[first] == 0) first++`, `left` rounds
before the end. -/
def firstSignificant (accum : List ℕ) : (left first : ℕ) → Checked ℕ
  | 0, first => .ok first
  | left + 1, first => do
      let value ← readWord accum first
      if value = 0 then firstSignificant accum left (first + 1) else .ok first

/-- `out` and `*out_len`: the bytes of the buffer, and how many of them count. -/
structure Product where
  out : List UInt8
  outLen : ℕ

/-- `out[i] = (uint8_t) accum[first + i]` for `count` bytes. -/
def storeSignificant (accum : List ℕ) (first : ℕ) (out : List UInt8) :
    (count : ℕ) → Checked (List UInt8)
  | 0 => .ok out
  | count + 1 => do
      let out ← storeSignificant accum first out count
      let value ← readWord accum (first + count)
      if count < out.length then .ok (out.set count (UInt8.ofNat value))
      else .error .outOfBounds

def multiplyUint8Arrays (a b : List UInt8) (product : Product) :
    Checked (Bool × Product) :=
  if a.length + b.length > maxIntegerBytes then .ok (false, product)
  else
    let fullLen := a.length + b.length
    if fullLen = 0 then
      if product.outLen < 1 then .ok (false, product)
      else if 0 < product.out.length then
        .ok (true, { out := product.out.set 0 0, outLen := 1 })
      else .error .outOfBounds
    else do
      let accum ← accumulateRows a b a.length (List.replicate maxIntegerBytes 0)
      let accum ← carry (fullLen - 1) accum
      let first ← firstSignificant accum (fullLen - 1) 0
      let significant := fullLen - first
      if significant > product.outLen then .ok (false, product)
      else do
        let out ← storeSignificant accum first product.out significant
        .ok (true, { out := out, outLen := significant })

end LedgerQrl.Display
