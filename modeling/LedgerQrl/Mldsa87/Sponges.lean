import LedgerQrl.Foundation.Sponge
import LedgerQrl.Mldsa87.Keccak256
import LedgerQrl.Mldsa87.Sampling
import Mathlib.Data.Nat.Digits.Lemmas

namespace LedgerQrl.Mldsa87

open Foundation

/-! # Streaming sponges

`shake128.c`, `shake256.c` and `keccak256.c` are the same loops over different rates and
suffixes. However the message and the output are cut into calls, the bytes are those of
the padded message in one shot. -/

/-- `shake128_ctx` and `shake256_ctx`. -/
structure SpongeCtx where
  s : Vector UInt64 25
  pos : ℕ
  squeezing : Bool

namespace SpongeCtx

def init : SpongeCtx where
  s := Vector.replicate 25 0
  pos := 0
  squeezing := false

section Calls

variable (permutation : Permutation) (rate : ℕ) (suffix : UInt8)

def wrap (ctx : SpongeCtx) : SpongeCtx :=
  if ctx.pos = rate then { ctx with s := permutation ctx.s, pos := 0 } else ctx

def absorb : List UInt8 → SpongeCtx → SpongeCtx
  | [], ctx => ctx
  | byte :: rest, ctx =>
      absorb rest
        (wrap permutation rate
          { ctx with s := Keccak256Ctx.xorByte ctx.s ctx.pos byte, pos := ctx.pos + 1 })

def finalize (ctx : SpongeCtx) : SpongeCtx where
  s := permutation
    (Keccak256Ctx.xorByte (Keccak256Ctx.xorByte ctx.s ctx.pos suffix) (rate - 1) 0x80)
  pos := 0
  squeezing := true

def squeezeBytes : (outlen : ℕ) → SpongeCtx → List UInt8 × SpongeCtx
  | 0, ctx => ([], ctx)
  | outlen + 1, ctx =>
      let rest := squeezeBytes outlen (wrap permutation rate { ctx with pos := ctx.pos + 1 })
      (Keccak256Ctx.stateByte ctx.s ctx.pos :: rest.1, rest.2)

def squeeze (ctx : SpongeCtx) (outlen : ℕ) : List UInt8 × SpongeCtx :=
  squeezeBytes permutation rate outlen
    (if ctx.squeezing then ctx else ctx.finalize permutation rate suffix)

end Calls

end SpongeCtx

section Members

variable (permutation : Permutation)

def shake128Init : SpongeCtx := .init

def shake128Absorb (ctx : SpongeCtx) (bytes : List UInt8) : SpongeCtx :=
  ctx.absorb permutation shake128Rate bytes

def shake128Finalize (ctx : SpongeCtx) : SpongeCtx :=
  ctx.finalize permutation shake128Rate 0x1F

def shake128Squeeze (ctx : SpongeCtx) (outlen : ℕ) : List UInt8 × SpongeCtx :=
  ctx.squeeze permutation shake128Rate 0x1F outlen

def shake256Init : SpongeCtx := .init

def shake256Absorb (ctx : SpongeCtx) (bytes : List UInt8) : SpongeCtx :=
  ctx.absorb permutation shake256Rate bytes

def shake256Finalize (ctx : SpongeCtx) : SpongeCtx :=
  ctx.finalize permutation shake256Rate 0x1F

def shake256Squeeze (ctx : SpongeCtx) (outlen : ℕ) : List UInt8 × SpongeCtx :=
  ctx.squeeze permutation shake256Rate 0x1F outlen

end Members

/-! ## The sponge of a message -/

/-- The suffix, zeros and the final bit; in one byte they coincide. -/
def padding (suffix : UInt8) : (free : ℕ) → List UInt8
  | 0 => []
  | 1 => [suffix ^^^ 0x80]
  | free + 2 => suffix :: (List.replicate free 0 ++ [0x80])

theorem length_padding (suffix : UInt8) : ∀ free, (padding suffix free).length = free
  | 0 => rfl
  | 1 => rfl
  | free + 2 => by
      rw [padding, List.length_cons, List.length_append, List.length_replicate,
        List.length_singleton]

def padded (rate : ℕ) (suffix : UInt8) (message : List UInt8) : List UInt8 :=
  message ++ padding suffix (rate - message.length % rate)

/-! ### The bytes of a state

The words of a state are its bytes, low byte first; the source works on the words. -/

/-- Byte `n` of the words, the low bytes of each word first. -/
def byteOfWords (s : Vector UInt64 25) (n : ℕ) : UInt8 :=
  UInt8.ofNat ((s[n / 8]?.getD 0).toNat / 256 ^ (n % 8))

def wordsOfBytes (bytes : ℕ → UInt8) : Vector UInt64 25 :=
  Vector.ofFn fun word => UInt64.ofNat
    (Nat.ofDigits 256 ((List.range 8).map fun k => (bytes (8 * word + k)).toNat))

/-- The words with a byte added to byte `pos` by exclusive or. -/
def addByte (s : Vector UInt64 25) (pos : ℕ) (byte : UInt8) : Vector UInt64 25 :=
  wordsOfBytes fun n => if n = pos then byteOfWords s n ^^^ byte else byteOfWords s n

/-- Bytes are added to the bytes of the state, and read from them. -/
def keccakSponge (permutation : Permutation) (rate : ℕ) (positive : 0 < rate) :
    Sponge (Vector UInt64 25) UInt8 where
  permute := permutation
  mix := addByte
  readAt := byteOfWords
  rate := rate
  positive := positive

/-- The output for a message, byte by byte. -/
def spongeStream (permutation : Permutation) (rate : ℕ) (positive : 0 < rate)
    (suffix : UInt8) (message : List UInt8) : ℕ → UInt8 :=
  (keccakSponge permutation rate positive).output
    ((keccakSponge permutation rate positive).absorbAll (Vector.replicate 25 0)
      (padded rate suffix message))

section Bytes

theorem toNat_byteOfWords (s : Vector UInt64 25) (n : ℕ) :
    (byteOfWords s n).toNat = (s[n / 8]?.getD 0).toNat / 256 ^ (n % 8) % 256 := by
  rw [byteOfWords, UInt8.toNat_ofNat']

/-- The source reads the bytes of the words. -/
theorem byteOfWords_eq : byteOfWords = Keccak256Ctx.stateByte := by
  funext s n
  apply UInt8.toNat_inj.mp
  have small : 8 * (n % 8) < 2 ^ 64 := by omega
  have shift : (UInt64.ofNat (8 * (n % 8))).toNat % 64 = 8 * (n % 8) := by
    rw [UInt64.toNat_ofNat', Nat.mod_eq_of_lt small]
    omega
  have power : 256 ^ (n % 8) = 2 ^ (8 * (n % 8)) := (pow_mul 2 8 _).symm
  have mask : (0xFF : UInt64).toNat = 2 ^ 8 - 1 := rfl
  rw [toNat_byteOfWords, Keccak256Ctx.stateByte, UInt64.toNat_toUInt8, UInt64.toNat_and, mask,
    UInt64.toNat_shiftRight, shift, Nat.and_two_pow_sub_one_eq_mod, Nat.shiftRight_eq_div_pow,
    power, Nat.mod_mod]

theorem byteOfWords_wordsOfBytes (bytes : ℕ → UInt8) {n : ℕ} (bound : n < 200) :
    byteOfWords (wordsOfBytes bytes) n = bytes n := by
  have digits : ∀ digit ∈ (List.range 8).map fun k => (bytes (8 * (n / 8) + k)).toNat,
      digit < 256 := by
    intro digit member
    rcases List.mem_map.mp member with ⟨k, _, rfl⟩
    exact UInt8.toNat_lt _
  have whole := Nat.ofDigits_lt_base_pow_length (by norm_num : 1 < 256) digits
  rw [List.length_map, List.length_range] at whole
  have word : ((wordsOfBytes bytes)[n / 8]?.getD 0).toNat =
      Nat.ofDigits 256 ((List.range 8).map fun k => (bytes (8 * (n / 8) + k)).toNat) := by
    rw [wordsOfBytes, Vector.getElem?_ofFn, dif_pos (by omega), Option.getD_some,
      UInt64.toNat_ofNat', Nat.mod_eq_of_lt (by simpa using whole)]
  have place : 8 * (n / 8) + n % 8 = n := Nat.div_add_mod n 8
  have last : n % 8 < 8 := Nat.mod_lt n (by norm_num)
  have rest : ((List.range 8).map fun k => (bytes (8 * (n / 8) + k)).toNat).drop (n % 8) =
      (bytes n).toNat :: ((List.range 8).map fun k =>
        (bytes (8 * (n / 8) + k)).toNat).drop (n % 8 + 1) := by
    rw [List.drop_eq_getElem_cons (by simpa using last), List.getElem_map, List.getElem_range,
      place]
  apply UInt8.toNat_inj.mp
  rw [toNat_byteOfWords, word, Nat.ofDigits_div_pow_eq_ofDigits_drop _ (by norm_num) _ digits,
    rest, Nat.ofDigits_cons, Nat.add_mul_mod_self_left, Nat.mod_eq_of_lt (UInt8.toNat_lt _)]

theorem ext_byteOfWords {s t : Vector UInt64 25}
    (same : ∀ n < 200, byteOfWords s n = byteOfWords t n) : s = t := by
  ext index bound
  apply Nat.eq_of_testBit_eq
  intro i
  rcases Nat.lt_or_ge i 64 with inside | beyond
  · have bytes := congrArg UInt8.toNat (same (8 * index + i / 8) (by omega))
    have word : (8 * index + i / 8) / 8 = index := by omega
    have offset : (8 * index + i / 8) % 8 = i / 8 := by omega
    have power : 256 ^ (i / 8) = 2 ^ (8 * (i / 8)) := (pow_mul 2 8 _).symm
    rw [toNat_byteOfWords, toNat_byteOfWords, word, offset, power,
      Vector.getElem?_eq_getElem bound, Vector.getElem?_eq_getElem bound, Option.getD_some,
      Option.getD_some] at bytes
    have bit := congrArg (fun byte => byte.testBit (i % 8)) bytes
    have place : i % 8 + 8 * (i / 8) = i := Nat.mod_add_div i 8
    have last : i % 8 < 8 := Nat.mod_lt i (by norm_num)
    simpa only [show 256 = 2 ^ 8 from rfl, Nat.testBit_mod_two_pow, Nat.testBit_div_two_pow,
      place, last, decide_true, Bool.true_and] using bit
  · have large : 2 ^ 64 ≤ 2 ^ i := Nat.pow_le_pow_right (by norm_num) beyond
    rw [Nat.testBit_eq_false_of_lt (s[index].toNat_lt.trans_le large),
      Nat.testBit_eq_false_of_lt (t[index].toNat_lt.trans_le large)]

/-- A byte that is shifted to one place is zero at the others. -/
theorem shifted_byte {byte : ℕ} (small : byte < 2 ^ 8) (place other : ℕ) :
    byte * 2 ^ (8 * place) / 2 ^ (8 * other) % 2 ^ 8 = if other = place then byte else 0 := by
  rcases Nat.lt_trichotomy other place with before | same | behind
  · have split : byte * 2 ^ (8 * place) =
        byte * 2 ^ (8 * (place - other - 1)) * 2 ^ 8 * 2 ^ (8 * other) := by
      rw [Nat.mul_assoc, Nat.mul_assoc, ← Nat.pow_add, ← Nat.pow_add]
      congr 2
      omega
    rw [if_neg (Nat.ne_of_lt before), split, Nat.mul_div_cancel _ (by positivity),
      Nat.mul_mod_left]
  · rw [if_pos same, same, Nat.mul_div_cancel _ (by positivity), Nat.mod_eq_of_lt small]
  · have below : byte * 2 ^ (8 * place) < 2 ^ (8 * other) := by
      calc byte * 2 ^ (8 * place) < 2 ^ 8 * 2 ^ (8 * place) :=
            Nat.mul_lt_mul_of_pos_right small (by positivity)
        _ = 2 ^ (8 + 8 * place) := (Nat.pow_add _ _ _).symm
        _ ≤ 2 ^ (8 * other) := Nat.pow_le_pow_right (by norm_num) (by omega)
    rw [if_neg (Nat.ne_of_gt behind), Nat.div_eq_of_lt below, Nat.zero_mod]

theorem byteOfWords_xorByte (s : Vector UInt64 25) (pos : ℕ) (byte : UInt8) {n : ℕ}
    (bound : n < 200) :
    byteOfWords (Keccak256Ctx.xorByte s pos byte) n =
      if n = pos then byteOfWords s n ^^^ byte else byteOfWords s n := by
  have word : ((Keccak256Ctx.xorByte s pos byte)[n / 8]?.getD 0).toNat =
      if n / 8 = pos / 8 then
        (s[n / 8]?.getD 0).toNat ^^^ (byte.toNat * 2 ^ (8 * (pos % 8)))
      else (s[n / 8]?.getD 0).toNat := by
    have inside : n / 8 < 25 := by omega
    have shift : (UInt64.ofNat (8 * (pos % 8))).toNat % 64 = 8 * (pos % 8) := by
      rw [UInt64.toNat_ofNat', Nat.mod_eq_of_lt (by omega)]
      omega
    have fits : byte.toNat * 2 ^ (8 * (pos % 8)) < 2 ^ 64 := by
      have few : 2 ^ (8 * (pos % 8)) ≤ 2 ^ 56 := Nat.pow_le_pow_right (by norm_num) (by omega)
      have small := byte.toNat_lt
      calc byte.toNat * 2 ^ (8 * (pos % 8)) < 2 ^ 8 * 2 ^ (8 * (pos % 8)) :=
            Nat.mul_lt_mul_of_pos_right small (by positivity)
        _ ≤ 2 ^ 8 * 2 ^ 56 := Nat.mul_le_mul_left _ few
        _ = 2 ^ 64 := by norm_num
    rw [Keccak256Ctx.xorByte, Vector.getElem?_ofFn, dif_pos inside, Option.getD_some,
      Vector.getElem?_eq_getElem inside, Option.getD_some]
    dsimp only
    split
    · rw [UInt64.toNat_xor, UInt64.toNat_shiftLeft, shift, UInt8.toNat_toUInt64,
        Nat.shiftLeft_eq, Nat.mod_eq_of_lt fits]
      rfl
    · rfl
  apply UInt8.toNat_inj.mp
  rw [apply_ite UInt8.toNat, UInt8.toNat_xor, toNat_byteOfWords, toNat_byteOfWords, word]
  have power : 256 ^ (n % 8) = 2 ^ (8 * (n % 8)) := (pow_mul 2 8 _).symm
  have modulus : 256 = 2 ^ 8 := rfl
  rw [power, modulus]
  by_cases lane : n / 8 = pos / 8
  · have same : n = pos ↔ n % 8 = pos % 8 := by omega
    rw [if_pos lane, Nat.xor_div_two_pow, Nat.xor_mod_two_pow, shifted_byte byte.toNat_lt]
    by_cases here : n % 8 = pos % 8
    · rw [if_pos here, if_pos (same.mpr here)]
    · rw [if_neg here, if_neg (mt same.mp here), Nat.xor_zero]
  · have other : n ≠ pos := fun same => lane (congrArg (· / 8) same)
    rw [if_neg lane, if_neg other]

theorem addByte_eq : addByte = Keccak256Ctx.xorByte := by
  funext s pos byte
  apply ext_byteOfWords
  intro n bound
  rw [addByte, byteOfWords_wordsOfBytes _ bound, byteOfWords_xorByte s pos byte bound]

end Bytes

section Padding

variable {permutation : Permutation} {rate : ℕ} {positive : 0 < rate}

theorem keccakSponge_mix :
    (keccakSponge permutation rate positive).mix = Keccak256Ctx.xorByte := addByte_eq

theorem keccakSponge_readAt :
    (keccakSponge permutation rate positive).readAt = Keccak256Ctx.stateByte := byteOfWords_eq

theorem xorByte_zero (s : Vector UInt64 25) (pos : ℕ) : Keccak256Ctx.xorByte s pos 0 = s := by
  ext index bound
  rw [Keccak256Ctx.xorByte, Vector.getElem_ofFn]
  split
  · simp
  · rfl

theorem xorByte_xorByte (s : Vector UInt64 25) (pos : ℕ) (first second : UInt8) :
    Keccak256Ctx.xorByte (Keccak256Ctx.xorByte s pos first) pos second =
      Keccak256Ctx.xorByte s pos (first ^^^ second) := by
  have combined : ∀ word shift : UInt64,
      word ^^^ first.toUInt64 <<< shift ^^^ second.toUInt64 <<< shift =
        word ^^^ (first ^^^ second).toUInt64 <<< shift := by
    intro word shift
    rw [UInt8.toUInt64_xor, UInt64.shiftLeft_xor, UInt64.xor_assoc]
  ext index bound
  simp only [Keccak256Ctx.xorByte, getElem_index, Vector.getElem_ofFn]
  by_cases here : index = pos / 8
  · simp only [if_pos here, combined]
  · simp only [if_neg here]

theorem mixFrom_zeros (s : Vector UInt64 25) (count : ℕ) : ∀ pos,
    (keccakSponge permutation rate positive).mixFrom s pos (List.replicate count 0) = s := by
  induction count with
  | zero => exact fun _ => rfl
  | succ count induction =>
      intro pos
      rw [List.replicate_succ, Sponge.mixFrom, keccakSponge_mix, xorByte_zero, induction]

theorem mixFrom_padding (s : Vector UInt64 25) (suffix : UInt8) {pos : ℕ} (free : pos < rate) :
    (keccakSponge permutation rate positive).mixFrom s pos (padding suffix (rate - pos)) =
      Keccak256Ctx.xorByte (Keccak256Ctx.xorByte s pos suffix) (rate - 1) 0x80 := by
  rcases Nat.lt_or_ge (pos + 1) rate with room | last
  · obtain ⟨zeros, count⟩ : ∃ zeros, rate - pos = zeros + 2 := ⟨rate - pos - 2, by omega⟩
    have final : pos + 1 + zeros = rate - 1 := by omega
    rw [count, padding, Sponge.mixFrom, Sponge.mixFrom_append, mixFrom_zeros,
      List.length_replicate, final, Sponge.mixFrom, Sponge.mixFrom, keccakSponge_mix]
  · have one : rate - pos = 1 := by omega
    have here : rate - 1 = pos := by omega
    rw [one, padding, here, xorByte_xorByte, Sponge.mixFrom, Sponge.mixFrom,
      keccakSponge_mix]

end Padding

/-! ## Calls -/

def squeezeCalls {Ctx : Type} (squeeze : Ctx → ℕ → List UInt8 × Ctx) :
    (lengths : List ℕ) → Ctx → List (List UInt8) × Ctx
  | [], ctx => ([], ctx)
  | outlen :: rest, ctx =>
      let piece := squeeze ctx outlen
      let later := squeezeCalls squeeze rest piece.2
      (piece.1 :: later.1, later.2)

def pieces (stream : ℕ → UInt8) : (position : ℕ) → (lengths : List ℕ) → List (List UInt8)
  | _, [] => []
  | position, outlen :: rest =>
      ShakeCtx.bytesFrom stream position outlen :: pieces stream (position + outlen) rest

namespace SpongeCtx

section Phases

variable {permutation : Permutation} {rate : ℕ} (positive : 0 < rate) {suffix : UInt8}
  {message : List UInt8} {ctx : SpongeCtx}

/-- A context that has absorbed a message. -/
structure Absorbing (permutation : Permutation) (positive : 0 < rate)
    (message : List UInt8) (ctx : SpongeCtx) : Prop where
  absorbed : (keccakSponge permutation rate positive).Absorbed (Vector.replicate 25 0) message
    ctx.s ctx.pos
  phase : ctx.squeezing = false

/-- A context that has squeezed `n` bytes of a state. -/
structure Squeezing (permutation : Permutation) (positive : 0 < rate)
    (start : Vector UInt64 25) (n : ℕ) (ctx : SpongeCtx) : Prop where
  squeezed : (keccakSponge permutation rate positive).Squeezed start n ctx.s ctx.pos
  phase : ctx.squeezing = true

theorem absorbing_init : Absorbing permutation positive [] init where
  absorbed := Sponge.absorbed_nil _ _
  phase := rfl

variable {positive}

theorem Absorbing.byte (absorbing : Absorbing permutation positive message ctx) (byte : UInt8) :
    Absorbing permutation positive (message ++ [byte])
      (wrap permutation rate
        { ctx with s := Keccak256Ctx.xorByte ctx.s ctx.pos byte, pos := ctx.pos + 1 }) := by
  rw [← @keccakSponge_mix permutation rate positive, wrap]
  split
  · rename_i full
    exact ⟨absorbing.absorbed.fill byte full, absorbing.phase⟩
  · rename_i notFull
    have free : ctx.pos < rate := absorbing.absorbed.free
    exact ⟨absorbing.absorbed.mix byte (Nat.lt_of_le_of_ne free notFull), absorbing.phase⟩

theorem Absorbing.absorb (bytes : List UInt8) : ∀ {message : List UInt8} {ctx : SpongeCtx},
    Absorbing permutation positive message ctx →
      Absorbing permutation positive (message ++ bytes)
        (ctx.absorb permutation rate bytes) := by
  induction bytes with
  | nil =>
      intro message ctx absorbing
      rw [List.append_nil]
      exact absorbing
  | cons byte rest induction =>
      intro message ctx absorbing
      have later := induction (absorbing.byte byte)
      rw [List.append_assoc, List.singleton_append] at later
      exact later

theorem Absorbing.calls (messages : List (List UInt8)) :
    ∀ {message : List UInt8} {ctx : SpongeCtx}, Absorbing permutation positive message ctx →
      Absorbing permutation positive (message ++ messages.flatten)
        (messages.foldl (fun ctx bytes => ctx.absorb permutation rate bytes) ctx) := by
  induction messages with
  | nil =>
      intro message ctx absorbing
      rw [List.flatten_nil, List.append_nil]
      exact absorbing
  | cons bytes rest induction =>
      intro message ctx absorbing
      have later := induction (Absorbing.absorb bytes absorbing)
      rw [List.append_assoc] at later
      exact later

theorem Absorbing.finalize (absorbing : Absorbing permutation positive message ctx)
    (suffix : UInt8) :
    Squeezing permutation positive
      ((keccakSponge permutation rate positive).absorbAll (Vector.replicate 25 0)
        (padded rate suffix message)) 0 (ctx.finalize permutation rate suffix) := by
  have free : ctx.pos < rate := absorbing.absorbed.free
  have position : ctx.pos = message.length % rate := absorbing.absorbed.position_eq
  have fills : ctx.pos + (padding suffix (rate - ctx.pos)).length = rate := by
    rw [length_padding]
    omega
  have state : (ctx.finalize permutation rate suffix).s =
      (keccakSponge permutation rate positive).absorbAll (Vector.replicate 25 0)
        (padded rate suffix message) := by
    rw [padded, ← position, absorbing.absorbed.pad fills, mixFrom_padding ctx.s suffix free]
    rfl
  refine ⟨?_, rfl⟩
  rw [state]
  exact Sponge.squeezed_zero _

theorem Squeezing.byte {start : Vector UInt64 25} {n : ℕ}
    (squeezing : Squeezing permutation positive start n ctx) :
    Squeezing permutation positive start (n + 1)
      (wrap permutation rate { ctx with pos := ctx.pos + 1 }) := by
  rw [wrap]
  split
  · rename_i full
    exact ⟨squeezing.squeezed.wrap full, squeezing.phase⟩
  · rename_i notFull
    have free : ctx.pos < rate := squeezing.squeezed.free
    exact ⟨squeezing.squeezed.next (Nat.lt_of_le_of_ne free notFull), squeezing.phase⟩

theorem Squeezing.bytes {start : Vector UInt64 25} (outlen : ℕ) :
    ∀ {n : ℕ} {ctx : SpongeCtx}, Squeezing permutation positive start n ctx →
      (squeezeBytes permutation rate outlen ctx).1 =
          ShakeCtx.bytesFrom ((keccakSponge permutation rate positive).output start) n outlen ∧
        Squeezing permutation positive start (n + outlen)
          (squeezeBytes permutation rate outlen ctx).2 := by
  induction outlen with
  | zero => exact fun squeezing => ⟨rfl, squeezing⟩
  | succ outlen induction =>
      intro n ctx squeezing
      have later := induction squeezing.byte
      have first : Keccak256Ctx.stateByte ctx.s ctx.pos =
          (keccakSponge permutation rate positive).output start n := by
        rw [← @keccakSponge_readAt permutation rate positive]
        exact squeezing.squeezed.read
      rw [squeezeBytes, ShakeCtx.bytesFrom, Nat.add_comm outlen, ← Nat.add_assoc]
      exact ⟨by rw [later.1, first], later.2⟩

theorem Squeezing.calls {start : Vector UInt64 25} (suffix : UInt8) (lengths : List ℕ) :
    ∀ {n : ℕ} {ctx : SpongeCtx}, Squeezing permutation positive start n ctx →
      (squeezeCalls (squeeze permutation rate suffix) lengths ctx).1 =
          pieces ((keccakSponge permutation rate positive).output start) n lengths ∧
        ∃ later, Squeezing permutation positive start later
          (squeezeCalls (squeeze permutation rate suffix) lengths ctx).2 := by
  induction lengths with
  | nil => exact fun squeezing => ⟨rfl, _, squeezing⟩
  | cons outlen rest induction =>
      intro n ctx squeezing
      have bytes := Squeezing.bytes outlen squeezing
      have piece : ctx.squeeze permutation rate suffix outlen =
          squeezeBytes permutation rate outlen ctx := by
        rw [squeeze, if_pos squeezing.phase]
      have later := induction bytes.2
      rw [squeezeCalls, piece, pieces]
      exact ⟨by rw [bytes.1, later.1], later.2⟩

/-- The first squeeze finalizes by itself. -/
theorem squeezeCalls_finalize (unfinished : ctx.squeezing = false) (lengths : List ℕ) :
    (squeezeCalls (squeeze permutation rate suffix) lengths ctx).1 =
      (squeezeCalls (squeeze permutation rate suffix) lengths
        (ctx.finalize permutation rate suffix)).1 := by
  cases lengths with
  | nil => rfl
  | cons outlen rest =>
      have same : ctx.squeeze permutation rate suffix outlen =
          (ctx.finalize permutation rate suffix).squeeze permutation rate suffix outlen := by
        rw [squeeze, squeeze, if_neg (by rw [unfinished]; exact Bool.false_ne_true)]
        rfl
      rw [squeezeCalls, squeezeCalls, same]

end Phases

end SpongeCtx

/-! ## The three files -/

/-- The functions of one file, whose squeeze loop is `loop`, write the output of the sponge.
Before each byte a loop is in the context that the call with the bytes before it leaves, so
that the position is below the rate at every access. -/
structure WritesStream {Ctx : Type} (rate : ℕ) (stream : List UInt8 → ℕ → UInt8) (init : Ctx)
    (absorb : Ctx → List UInt8 → Ctx) (finalize : Ctx → Ctx)
    (squeeze : Ctx → ℕ → List UInt8 × Ctx) (loop : ℕ → Ctx → List UInt8 × Ctx)
    (pos : Ctx → ℕ) (lengths : List ℕ → Prop) : Prop where
  finalized : ∀ (messages : List (List UInt8)) (outlens : List ℕ), lengths outlens →
    (squeezeCalls squeeze outlens (finalize (messages.foldl absorb init))).1 =
      pieces (stream messages.flatten) 0 outlens
  unfinalized : ∀ (messages : List (List UInt8)) (outlens : List ℕ), lengths outlens →
    (squeezeCalls squeeze outlens (messages.foldl absorb init)).1 =
      pieces (stream messages.flatten) 0 outlens
  absorbInside : ∀ (messages : List (List UInt8)) (bytes : List UInt8),
    pos (absorb (messages.foldl absorb init) bytes) < rate
  squeezeInside : ∀ (messages : List (List UInt8)) (outlens : List ℕ), lengths outlens →
    ∀ outlen, pos (loop outlen
      (squeezeCalls squeeze outlens (finalize (messages.foldl absorb init))).2).2 < rate

namespace SpongeCtx

theorem writesStream (permutation : Permutation) {rate : ℕ} (positive : 0 < rate)
    (suffix : UInt8) :
    WritesStream rate (spongeStream permutation rate positive suffix) init
      (fun ctx bytes => ctx.absorb permutation rate bytes)
      (finalize permutation rate suffix) (squeeze permutation rate suffix)
      (squeezeBytes permutation rate) pos fun _ => True := by
  have absorbed : ∀ messages : List (List UInt8),
      Absorbing permutation positive messages.flatten
        (messages.foldl (fun ctx bytes => ctx.absorb permutation rate bytes) init) :=
    fun messages => Absorbing.calls messages (absorbing_init positive)
  have finalized := fun messages outlens =>
    Squeezing.calls suffix outlens ((absorbed messages).finalize suffix)
  constructor
  · exact fun messages outlens _ => (finalized messages outlens).1
  · intro messages outlens _
    rw [squeezeCalls_finalize (absorbed messages).phase]
    exact (finalized messages outlens).1
  · intro messages bytes
    exact (Absorbing.absorb bytes (absorbed messages)).absorbed.free
  · intro messages outlens _ outlen
    rcases (finalized messages outlens).2 with ⟨later, squeezing⟩
    exact (Squeezing.bytes outlen squeezing).2.squeezed.free

end SpongeCtx

theorem shake128Rate_positive : 0 < shake128Rate := by decide

theorem shake256Rate_positive : 0 < shake256Rate := by decide

theorem keccak256Rate_positive : 0 < keccak256Rate := by decide

/-! ## Keccak-256 -/

namespace Keccak256Ctx

variable (permutation : Permutation)

def toSponge (ctx : Keccak256Ctx) : SpongeCtx where
  s := ctx.s
  pos := ctx.pos
  squeezing := ctx.squeezing

theorem toSponge_wrap (ctx : Keccak256Ctx) :
    (wrap permutation ctx).toSponge = ctx.toSponge.wrap permutation keccak256Rate := by
  have position : ctx.toSponge.pos = ctx.pos := rfl
  rw [wrap, SpongeCtx.wrap, position]
  split
  · rfl
  · rfl

theorem toSponge_absorb (bytes : List UInt8) : ∀ ctx : Keccak256Ctx,
    (absorb permutation bytes ctx).toSponge =
      ctx.toSponge.absorb permutation keccak256Rate bytes := by
  induction bytes with
  | nil => exact fun _ => rfl
  | cons byte rest induction =>
      intro ctx
      rw [absorb, induction, toSponge_wrap]
      rfl

theorem toSponge_absorbs (messages : List (List UInt8)) : ∀ ctx : Keccak256Ctx,
    (messages.foldl (fun ctx bytes => absorb permutation bytes ctx) ctx).toSponge =
      messages.foldl (fun ctx bytes => ctx.absorb permutation keccak256Rate bytes)
        ctx.toSponge := by
  induction messages with
  | nil => exact fun _ => rfl
  | cons bytes rest induction =>
      intro ctx
      rw [List.foldl_cons, List.foldl_cons, induction, toSponge_absorb]

theorem toSponge_finalize (ctx : Keccak256Ctx) :
    (ctx.finalize permutation).toSponge =
      ctx.toSponge.finalize permutation keccak256Rate 0x01 := rfl

theorem toSponge_squeezeBytes (outlen : ℕ) : ∀ ctx : Keccak256Ctx,
    (squeezeBytes permutation outlen ctx).1 =
        (ctx.toSponge.squeezeBytes permutation keccak256Rate outlen).1 ∧
      (squeezeBytes permutation outlen ctx).2.toSponge =
        (ctx.toSponge.squeezeBytes permutation keccak256Rate outlen).2 := by
  induction outlen with
  | zero => exact fun _ => ⟨rfl, rfl⟩
  | succ outlen induction =>
      intro ctx
      have later := induction (wrap permutation { ctx with pos := ctx.pos + 1 })
      rw [toSponge_wrap] at later
      rw [squeezeBytes, SpongeCtx.squeezeBytes]
      exact ⟨congrArg _ later.1, later.2⟩

theorem toSponge_squeeze (ctx : Keccak256Ctx) :
    (squeeze permutation ctx).1 =
        (ctx.toSponge.squeeze permutation keccak256Rate 0x01 32).1 ∧
      (squeeze permutation ctx).2.toSponge =
        (ctx.toSponge.squeeze permutation keccak256Rate 0x01 32).2 := by
  rw [squeeze, SpongeCtx.squeeze]
  have phase : ctx.toSponge.squeezing = ctx.squeezing := rfl
  rw [phase]
  split
  · exact toSponge_squeezeBytes permutation 32 ctx
  · exact toSponge_squeezeBytes permutation 32 _

theorem toSponge_squeezeCalls (outlens : List ℕ) : ∀ ctx : Keccak256Ctx,
    (∀ outlen ∈ outlens, outlen = 32) →
      (squeezeCalls (fun ctx _ => squeeze permutation ctx) outlens ctx).1 =
          (squeezeCalls (SpongeCtx.squeeze permutation keccak256Rate 0x01) outlens
            ctx.toSponge).1 ∧
        (squeezeCalls (fun ctx _ => squeeze permutation ctx) outlens ctx).2.toSponge =
          (squeezeCalls (SpongeCtx.squeeze permutation keccak256Rate 0x01) outlens
            ctx.toSponge).2 := by
  induction outlens with
  | nil => exact fun _ _ => ⟨rfl, rfl⟩
  | cons outlen rest induction =>
      intro ctx digests
      obtain rfl := digests outlen List.mem_cons_self
      have first := toSponge_squeeze permutation ctx
      have later := induction (squeeze permutation ctx).2
        fun other member => digests other (List.mem_cons_of_mem _ member)
      rw [first.2] at later
      rw [squeezeCalls, squeezeCalls, first.1]
      exact ⟨congrArg _ later.1, later.2⟩

theorem writesStream :
    WritesStream keccak256Rate
      (spongeStream permutation keccak256Rate keccak256Rate_positive 0x01) init
      (fun ctx bytes => absorb permutation bytes ctx) (finalize permutation)
      (fun ctx _ => squeeze permutation ctx) (squeezeBytes permutation) pos
      fun outlens => ∀ outlen ∈ outlens, outlen = 32 := by
  have sponge := SpongeCtx.writesStream permutation keccak256Rate_positive 0x01
  have absorbed := fun messages => toSponge_absorbs permutation messages init
  constructor
  · intro messages outlens digests
    rw [(toSponge_squeezeCalls permutation outlens _ digests).1, toSponge_finalize, absorbed]
    exact sponge.finalized messages outlens trivial
  · intro messages outlens digests
    rw [(toSponge_squeezeCalls permutation outlens _ digests).1, absorbed]
    exact sponge.unfinalized messages outlens trivial
  · intro messages bytes
    have inside := sponge.absorbInside messages bytes
    have same := toSponge_absorb permutation bytes
      (messages.foldl (fun ctx bytes => absorb permutation bytes ctx) init)
    rw [absorbed] at same
    exact (congrArg SpongeCtx.pos same).trans_lt inside
  · intro messages outlens digests outlen
    have inside := sponge.squeezeInside messages outlens trivial outlen
    have calls := (toSponge_squeezeCalls permutation outlens (finalize permutation
      (messages.foldl (fun ctx bytes => absorb permutation bytes ctx) init)) digests).2
    have same := (toSponge_squeezeBytes permutation outlen (squeezeCalls
      (fun ctx _ => squeeze permutation ctx) outlens (finalize permutation
        (messages.foldl (fun ctx bytes => absorb permutation bytes ctx) init))).2).2
    rw [calls, toSponge_finalize, absorbed] at same
    exact (congrArg SpongeCtx.pos same).trans_lt inside

end Keccak256Ctx

/-- The three files, for any function in the place of `keccakf`. -/
theorem sponges_writeStream (permutation : Permutation) :
    WritesStream 168 (spongeStream permutation 168 shake128Rate_positive 0x1F) shake128Init
        (shake128Absorb permutation) (shake128Finalize permutation)
        (shake128Squeeze permutation) (SpongeCtx.squeezeBytes permutation shake128Rate)
        SpongeCtx.pos (fun _ => True) ∧
      WritesStream 136 (spongeStream permutation 136 shake256Rate_positive 0x1F) shake256Init
        (shake256Absorb permutation) (shake256Finalize permutation)
        (shake256Squeeze permutation) (SpongeCtx.squeezeBytes permutation shake256Rate)
        SpongeCtx.pos (fun _ => True) ∧
      WritesStream 136 (spongeStream permutation 136 keccak256Rate_positive 0x01)
        Keccak256Ctx.init (fun ctx bytes => Keccak256Ctx.absorb permutation bytes ctx)
        (Keccak256Ctx.finalize permutation)
        (fun ctx _ => Keccak256Ctx.squeeze permutation ctx)
        (Keccak256Ctx.squeezeBytes permutation) Keccak256Ctx.pos
        fun outlens => ∀ outlen ∈ outlens, outlen = 32 :=
  ⟨SpongeCtx.writesStream permutation shake128Rate_positive 0x1F,
    SpongeCtx.writesStream permutation shake256Rate_positive 0x1F,
    Keccak256Ctx.writesStream permutation⟩

end LedgerQrl.Mldsa87
