import BootTrust.Text.Utf8
/-
SHA-256. The message is padded to whole blocks of 64 bytes and the blocks are compressed one after
the other into a chain of eight words.

There are two ways to the digest. `digest` pads the whole message first; a `Context` takes the
message in pieces and keeps only the bytes of the block that is still open. `Context.finish_absorb`
is the law that makes the second usable: it does not matter how a message is cut into pieces.
-/

set_option autoImplicit false

namespace BootTrust.Sha256

/-! ## The compression function -/

/-- The chaining value: eight words, updated by each block. -/
structure Chain where
  a : UInt32
  b : UInt32
  c : UInt32
  d : UInt32
  e : UInt32
  f : UInt32
  g : UInt32
  h : UInt32
  deriving DecidableEq, Repr

/-- The chaining value before the first block: the first 32 bits of the fractional parts of the
square roots of the first eight primes. -/
def Chain.start : Chain :=
  ⟨0x6a09e667, 0xbb67ae85, 0x3c6ef372, 0xa54ff53a, 0x510e527f, 0x9b05688c, 0x1f83d9ab, 0x5be0cd19⟩

/-- One constant a round: the first 32 bits of the fractional parts of the cube roots of the first
64 primes. -/
def roundConstants : List UInt32 := [
  0x428a2f98, 0x71374491, 0xb5c0fbcf, 0xe9b5dba5, 0x3956c25b, 0x59f111f1, 0x923f82a4, 0xab1c5ed5,
  0xd807aa98, 0x12835b01, 0x243185be, 0x550c7dc3, 0x72be5d74, 0x80deb1fe, 0x9bdc06a7, 0xc19bf174,
  0xe49b69c1, 0xefbe4786, 0x0fc19dc6, 0x240ca1cc, 0x2de92c6f, 0x4a7484aa, 0x5cb0a9dc, 0x76f988da,
  0x983e5152, 0xa831c66d, 0xb00327c8, 0xbf597fc7, 0xc6e00bf3, 0xd5a79147, 0x06ca6351, 0x14292967,
  0x27b70a85, 0x2e1b2138, 0x4d2c6dfc, 0x53380d13, 0x650a7354, 0x766a0abb, 0x81c2c92e, 0x92722c85,
  0xa2bfe8a1, 0xa81a664b, 0xc24b8b70, 0xc76c51a3, 0xd192e819, 0xd6990624, 0xf40e3585, 0x106aa070,
  0x19a4c116, 0x1e376c08, 0x2748774c, 0x34b0bcb5, 0x391c0cb3, 0x4ed8aa4a, 0x5b9cca4f, 0x682e6ff3,
  0x748f82ee, 0x78a5636f, 0x84c87814, 0x8cc70208, 0x90befffa, 0xa4506ceb, 0xbef9a3f7, 0xc67178f2
]

/-- Rotation to the right. -/
def rotr (x n : UInt32) : UInt32 :=
  x >>> n ||| x <<< (32 - n)

/-- Four bytes as a word, the highest first. -/
def word (b₀ b₁ b₂ b₃ : UInt8) : UInt32 :=
  b₀.toUInt32 <<< 24 ||| b₁.toUInt32 <<< 16 ||| b₂.toUInt32 <<< 8 ||| b₃.toUInt32

def words : Bytes → List UInt32
  | b₀ :: b₁ :: b₂ :: b₃ :: rest => word b₀ b₁ b₂ b₃ :: words rest
  | _ => []

/-- The next word of the message schedule, from the words so far, the latest at the head. -/
def nextWord (latest : List UInt32) : UInt32 :=
  let w₂ := latest.getD 1 0
  let w₁₅ := latest.getD 14 0
  (rotr w₂ 17 ^^^ rotr w₂ 19 ^^^ w₂ >>> 10) + latest.getD 6 0
    + (rotr w₁₅ 7 ^^^ rotr w₁₅ 18 ^^^ w₁₅ >>> 3) + latest.getD 15 0

/-- Adds `count` words to the schedule. -/
def extend : (count : Nat) → List UInt32 → List UInt32
  | 0, latest => latest
  | count + 1, latest => extend count (nextWord latest :: latest)

/-- The 64 words that the rounds use. -/
def schedule (block : Bytes) : List UInt32 :=
  (extend 48 (words block).reverse).reverse

/-- One round, with its constant `k` and its word `w`. -/
def Chain.round (x : Chain) (k w : UInt32) : Chain :=
  let s₁ := rotr x.e 6 ^^^ rotr x.e 11 ^^^ rotr x.e 25
  let choice := (x.e &&& x.f) ^^^ (~~~x.e &&& x.g)
  let t₁ := x.h + s₁ + choice + k + w
  let s₀ := rotr x.a 2 ^^^ rotr x.a 13 ^^^ rotr x.a 22
  let majority := (x.a &&& x.b) ^^^ (x.a &&& x.c) ^^^ (x.b &&& x.c)
  ⟨t₁ + (s₀ + majority), x.a, x.b, x.c, x.d + t₁, x.e, x.f, x.g⟩

/-- The chaining value after one more block of 64 bytes. -/
def compress (x : Chain) (block : Bytes) : Chain :=
  let y := (roundConstants.zip (schedule block)).foldl (fun y (k, w) => y.round k w) x
  ⟨x.a + y.a, x.b + y.b, x.c + y.c, x.d + y.d, x.e + y.e, x.f + y.f, x.g + y.g, x.h + y.h⟩

/-! ## Blocks -/

/-- Compresses all whole blocks at the front of `bytes`: the chaining value after them, and the
bytes of the block that is not full yet. -/
def absorb (x : Chain) (bytes : Bytes) : Chain × Bytes :=
  if (bytes.take 64).length < 64 then (x, bytes)
  else absorb (compress x (bytes.take 64)) (bytes.drop 64)
termination_by bytes.length
decreasing_by grind

def wordBytes (w : UInt32) : Bytes :=
  [(w >>> 24).toUInt8, (w >>> 16).toUInt8, (w >>> 8).toUInt8, w.toUInt8]

/-- The digest of a chaining value. -/
def Chain.toBytes (x : Chain) : Bytes :=
  [x.a, x.b, x.c, x.d, x.e, x.f, x.g, x.h].flatMap wordBytes

/-- What is put behind a message of `length` bytes: a one bit, zeros up to eight bytes before the
end of a block, and the number of bits of the message. -/
def padding (length : Nat) : Bytes :=
  let bits := UInt64.ofNat (8 * length)
  0x80 :: List.replicate ((119 - length % 64) % 64) (0 : UInt8)
    ++ wordBytes (bits >>> 32).toUInt32 ++ wordBytes bits.toUInt32

def digest (message : Bytes) : Bytes :=
  (absorb .start (message ++ padding message.length)).1.toBytes

/-- The digest of the three letters `abc`. -/
example : digest [0x61, 0x62, 0x63] = [
    0xba, 0x78, 0x16, 0xbf, 0x8f, 0x01, 0xcf, 0xea, 0x41, 0x41, 0x40, 0xde, 0x5d, 0xae, 0x22, 0x23,
    0xb0, 0x03, 0x61, 0xa3, 0x96, 0x17, 0x7a, 0x9c, 0xb4, 0x10, 0xff, 0x61, 0xf2, 0x00, 0x15, 0xad
  ] := by
  cbv

/-! ## Messages in pieces -/

/-- A digest under way. -/
structure Context where
  /-- The chaining value after the whole blocks so far. -/
  chain : Chain
  pending : Bytes
  /-- How many bytes there have been. -/
  length : Nat

namespace Context

/-- Before the first piece. -/
def empty : Context := ⟨.start, [], 0⟩

/-- Takes the next piece. -/
def absorb (ctx : Context) (piece : Bytes) : Context :=
  let (chain, pending) := Sha256.absorb ctx.chain (ctx.pending ++ piece)
  ⟨chain, pending, ctx.length + piece.length⟩

def finish (ctx : Context) : Bytes :=
  (Sha256.absorb ctx.chain (ctx.pending ++ padding ctx.length)).1.toBytes

end Context

/-! ## Cutting a message does not matter -/

/-- Compressing the whole blocks of a front part first changes nothing. -/
theorem absorb_append (x : Chain) (front back : Bytes) :
    absorb x (front ++ back) = absorb (absorb x front).1 ((absorb x front).2 ++ back) := by
  fun_induction absorb x front with
  | case1 x front hshort => rfl
  | case2 x front hfull ih =>
    have hlen : 64 ≤ front.length := by grind
    rw [absorb, if_neg (by grind), List.take_append_of_le_length hlen,
      List.drop_append_of_le_length hlen]
    exact ih

/-- After any pieces the context stands for the message they make up. -/
theorem Context.finish_absorb (message piece : Bytes) (ctx : Context)
    (hlen : ctx.length = message.length)
    (h : Sha256.absorb .start message = (ctx.chain, ctx.pending)) :
    (ctx.absorb piece).length = (message ++ piece).length
      ∧ Sha256.absorb .start (message ++ piece)
        = ((ctx.absorb piece).chain, (ctx.absorb piece).pending) := by
  constructor
  · simp [Context.absorb, hlen]
  · rw [absorb_append, h]
    rfl

/-- Finishing gives the digest of the message the context stands for. -/
theorem Context.finish_eq_digest (message : Bytes) (ctx : Context)
    (hlen : ctx.length = message.length)
    (h : Sha256.absorb .start message = (ctx.chain, ctx.pending)) :
    ctx.finish = digest message := by
  rw [digest, absorb_append, h, Context.finish, hlen]

end BootTrust.Sha256
