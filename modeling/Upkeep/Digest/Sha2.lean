import Upkeep.Text.Chars

/-!
# SHA-2 digests

The two digests repositories publish for their packages, over any sequence of bytes and in
pieces of any size. A hasher takes one byte at a time: it keeps the chaining value, the bytes of
the block being filled, and the count of bytes taken. Taking a piece is a left fold over its
bytes, so taking two pieces in turn is taking their concatenation.

## Main definitions

* `Digest.Variant`: the parameters that differ between the two digests.
* `Digest.Hasher`, `Digest.Hasher.take`, `Digest.Hasher.finish`: digesting in pieces.
* `Digest.hex`: the lower-case hexadecimal digest of some bytes.
-/

namespace Upkeep.Digest

/-- The two digests. -/
inductive Variant where
  /-- 256 bits: words of 32 bits, blocks of 64 bytes. -/
  | sha256
  /-- 512 bits: words of 64 bits, blocks of 128 bytes. -/
  | sha512
  deriving DecidableEq, Repr

/-! ### Words of 32 bits -/

/-- Fractions of the cube roots of the first 64 primes. -/
def roundWords32 : Array UInt32 :=
  #[
    0x428a2f98, 0x71374491, 0xb5c0fbcf, 0xe9b5dba5, 0x3956c25b, 0x59f111f1,
    0x923f82a4, 0xab1c5ed5, 0xd807aa98, 0x12835b01, 0x243185be, 0x550c7dc3,
    0x72be5d74, 0x80deb1fe, 0x9bdc06a7, 0xc19bf174, 0xe49b69c1, 0xefbe4786,
    0x0fc19dc6, 0x240ca1cc, 0x2de92c6f, 0x4a7484aa, 0x5cb0a9dc, 0x76f988da,
    0x983e5152, 0xa831c66d, 0xb00327c8, 0xbf597fc7, 0xc6e00bf3, 0xd5a79147,
    0x06ca6351, 0x14292967, 0x27b70a85, 0x2e1b2138, 0x4d2c6dfc, 0x53380d13,
    0x650a7354, 0x766a0abb, 0x81c2c92e, 0x92722c85, 0xa2bfe8a1, 0xa81a664b,
    0xc24b8b70, 0xc76c51a3, 0xd192e819, 0xd6990624, 0xf40e3585, 0x106aa070,
    0x19a4c116, 0x1e376c08, 0x2748774c, 0x34b0bcb5, 0x391c0cb3, 0x4ed8aa4a,
    0x5b9cca4f, 0x682e6ff3, 0x748f82ee, 0x78a5636f, 0x84c87814, 0x8cc70208,
    0x90befffa, 0xa4506ceb, 0xbef9a3f7, 0xc67178f2]

/-- Fractions of the square roots of the first eight primes. -/
def startWords32 : Array UInt32 :=
  #[
    0x6a09e667, 0xbb67ae85, 0x3c6ef372, 0xa54ff53a,
    0x510e527f, 0x9b05688c, 0x1f83d9ab, 0x5be0cd19]

/-- Rotation to the right. -/
def rotate32 (x : UInt32) (n : UInt32) : UInt32 := (x >>> n) ||| (x <<< (32 - n))

/-- The word at a position, zero past the end. -/
def word32 (ws : Array UInt32) (i : Nat) : UInt32 := ws.getD i 0

/-- The big-endian words of a block. -/
def blockWords32 (block : Array UInt8) : Array UInt32 :=
  (Array.range 16).map (fun i =>
    let byte (k : Nat) : UInt32 := (block.getD (4 * i + k) 0).toUInt32
    (byte 0 <<< 24) ||| (byte 1 <<< 16) ||| (byte 2 <<< 8) ||| byte 3)

/-- One more word of the schedule, from the ones before it. -/
def nextWord32 (ws : Array UInt32) (_ : Nat) : Array UInt32 :=
  let n := ws.size
  let w15 := word32 ws (n - 15)
  let w2 := word32 ws (n - 2)
  let s0 := rotate32 w15 7 ^^^ rotate32 w15 18 ^^^ (w15 >>> 3)
  let s1 := rotate32 w2 17 ^^^ rotate32 w2 19 ^^^ (w2 >>> 10)
  ws.push (word32 ws (n - 16) + s0 + word32 ws (n - 7) + s1)

/-- The eight working words. -/
structure Working (W : Type) where
  /-- First word. -/
  a : W
  /-- Second word. -/
  b : W
  /-- Third word. -/
  c : W
  /-- Fourth word. -/
  d : W
  /-- Fifth word. -/
  e : W
  /-- Sixth word. -/
  f : W
  /-- Seventh word. -/
  g : W
  /-- Eighth word. -/
  h : W

/-- The working words of a chaining value. -/
def Working.ofArray {W : Type} (zero : W) (v : Array W) : Working W :=
  ⟨v.getD 0 zero, v.getD 1 zero, v.getD 2 zero, v.getD 3 zero,
    v.getD 4 zero, v.getD 5 zero, v.getD 6 zero, v.getD 7 zero⟩

/-- The working words as an array. -/
def Working.toArray {W : Type} (x : Working W) : Array W :=
  #[x.a, x.b, x.c, x.d, x.e, x.f, x.g, x.h]

/-- One round. -/
def round32 (schedule : Array UInt32) (x : Working UInt32) (i : Nat) : Working UInt32 :=
  let s1 := rotate32 x.e 6 ^^^ rotate32 x.e 11 ^^^ rotate32 x.e 25
  let choice := (x.e &&& x.f) ^^^ ((~~~x.e) &&& x.g)
  let t1 := x.h + s1 + choice + word32 roundWords32 i + word32 schedule i
  let s0 := rotate32 x.a 2 ^^^ rotate32 x.a 13 ^^^ rotate32 x.a 22
  let majority := (x.a &&& x.b) ^^^ (x.a &&& x.c) ^^^ (x.b &&& x.c)
  ⟨t1 + (s0 + majority), x.a, x.b, x.c, x.d + t1, x.e, x.f, x.g⟩

/-- The chaining value after one block. -/
def compress32 (chain : Array UInt32) (block : Array UInt8) : Array UInt32 :=
  let schedule := (List.range 48).foldl nextWord32 (blockWords32 block)
  let out := (List.range 64).foldl (round32 schedule) (Working.ofArray 0 chain)
  Array.zipWith (fun x y => x + y) chain out.toArray

/-- The bytes of a word, most significant first. -/
def wordBytes32 (w : UInt32) : List UInt8 :=
  [(w >>> 24).toUInt8, (w >>> 16).toUInt8, (w >>> 8).toUInt8, w.toUInt8]

/-! ### Words of 64 bits -/

/-- Fractions of the cube roots of the first 80 primes. -/
def roundWords64 : Array UInt64 :=
  #[
    0x428a2f98d728ae22, 0x7137449123ef65cd, 0xb5c0fbcfec4d3b2f, 0xe9b5dba58189dbbc,
    0x3956c25bf348b538, 0x59f111f1b605d019, 0x923f82a4af194f9b, 0xab1c5ed5da6d8118,
    0xd807aa98a3030242, 0x12835b0145706fbe, 0x243185be4ee4b28c, 0x550c7dc3d5ffb4e2,
    0x72be5d74f27b896f, 0x80deb1fe3b1696b1, 0x9bdc06a725c71235, 0xc19bf174cf692694,
    0xe49b69c19ef14ad2, 0xefbe4786384f25e3, 0x0fc19dc68b8cd5b5, 0x240ca1cc77ac9c65,
    0x2de92c6f592b0275, 0x4a7484aa6ea6e483, 0x5cb0a9dcbd41fbd4, 0x76f988da831153b5,
    0x983e5152ee66dfab, 0xa831c66d2db43210, 0xb00327c898fb213f, 0xbf597fc7beef0ee4,
    0xc6e00bf33da88fc2, 0xd5a79147930aa725, 0x06ca6351e003826f, 0x142929670a0e6e70,
    0x27b70a8546d22ffc, 0x2e1b21385c26c926, 0x4d2c6dfc5ac42aed, 0x53380d139d95b3df,
    0x650a73548baf63de, 0x766a0abb3c77b2a8, 0x81c2c92e47edaee6, 0x92722c851482353b,
    0xa2bfe8a14cf10364, 0xa81a664bbc423001, 0xc24b8b70d0f89791, 0xc76c51a30654be30,
    0xd192e819d6ef5218, 0xd69906245565a910, 0xf40e35855771202a, 0x106aa07032bbd1b8,
    0x19a4c116b8d2d0c8, 0x1e376c085141ab53, 0x2748774cdf8eeb99, 0x34b0bcb5e19b48a8,
    0x391c0cb3c5c95a63, 0x4ed8aa4ae3418acb, 0x5b9cca4f7763e373, 0x682e6ff3d6b2b8a3,
    0x748f82ee5defb2fc, 0x78a5636f43172f60, 0x84c87814a1f0ab72, 0x8cc702081a6439ec,
    0x90befffa23631e28, 0xa4506cebde82bde9, 0xbef9a3f7b2c67915, 0xc67178f2e372532b,
    0xca273eceea26619c, 0xd186b8c721c0c207, 0xeada7dd6cde0eb1e, 0xf57d4f7fee6ed178,
    0x06f067aa72176fba, 0x0a637dc5a2c898a6, 0x113f9804bef90dae, 0x1b710b35131c471b,
    0x28db77f523047d84, 0x32caab7b40c72493, 0x3c9ebe0a15c9bebc, 0x431d67c49c100d4c,
    0x4cc5d4becb3e42b6, 0x597f299cfc657e2a, 0x5fcb6fab3ad6faec, 0x6c44198c4a475817]

/-- Fractions of the square roots of the first eight primes. -/
def startWords64 : Array UInt64 :=
  #[
    0x6a09e667f3bcc908, 0xbb67ae8584caa73b, 0x3c6ef372fe94f82b, 0xa54ff53a5f1d36f1,
    0x510e527fade682d1, 0x9b05688c2b3e6c1f, 0x1f83d9abfb41bd6b, 0x5be0cd19137e2179]

/-- Rotation to the right. -/
def rotate64 (x : UInt64) (n : UInt64) : UInt64 := (x >>> n) ||| (x <<< (64 - n))

/-- The word at a position, zero past the end. -/
def word64 (ws : Array UInt64) (i : Nat) : UInt64 := ws.getD i 0

/-- The big-endian words of a block. -/
def blockWords64 (block : Array UInt8) : Array UInt64 :=
  (Array.range 16).map (fun i =>
    (List.range 8).foldl (fun w k => (w <<< 8) ||| (block.getD (8 * i + k) 0).toUInt64) 0)

/-- One more word of the schedule, from the ones before it. -/
def nextWord64 (ws : Array UInt64) (_ : Nat) : Array UInt64 :=
  let n := ws.size
  let w15 := word64 ws (n - 15)
  let w2 := word64 ws (n - 2)
  let s0 := rotate64 w15 1 ^^^ rotate64 w15 8 ^^^ (w15 >>> 7)
  let s1 := rotate64 w2 19 ^^^ rotate64 w2 61 ^^^ (w2 >>> 6)
  ws.push (word64 ws (n - 16) + s0 + word64 ws (n - 7) + s1)

/-- One round. -/
def round64 (schedule : Array UInt64) (x : Working UInt64) (i : Nat) : Working UInt64 :=
  let s1 := rotate64 x.e 14 ^^^ rotate64 x.e 18 ^^^ rotate64 x.e 41
  let choice := (x.e &&& x.f) ^^^ ((~~~x.e) &&& x.g)
  let t1 := x.h + s1 + choice + word64 roundWords64 i + word64 schedule i
  let s0 := rotate64 x.a 28 ^^^ rotate64 x.a 34 ^^^ rotate64 x.a 39
  let majority := (x.a &&& x.b) ^^^ (x.a &&& x.c) ^^^ (x.b &&& x.c)
  ⟨t1 + (s0 + majority), x.a, x.b, x.c, x.d + t1, x.e, x.f, x.g⟩

/-- The chaining value after one block. -/
def compress64 (chain : Array UInt64) (block : Array UInt8) : Array UInt64 :=
  let schedule := (List.range 64).foldl nextWord64 (blockWords64 block)
  let out := (List.range 80).foldl (round64 schedule) (Working.ofArray 0 chain)
  Array.zipWith (fun x y => x + y) chain out.toArray

/-- The bytes of a word, most significant first. -/
def wordBytes64 (w : UInt64) : List UInt8 :=
  wordBytes32 (w >>> 32).toUInt32 ++ wordBytes32 w.toUInt32

/-! ### Hashers -/

/-- A chaining value of either digest. -/
inductive Chain where
  /-- Eight words of 32 bits. -/
  | words32 (ws : Array UInt32)
  /-- Eight words of 64 bits. -/
  | words64 (ws : Array UInt64)

/-- The chaining value before the first block. -/
def Chain.start : Variant → Chain
  | .sha256 => .words32 startWords32
  | .sha512 => .words64 startWords64

/-- Bytes in a block. -/
def Chain.blockSize : Chain → Nat
  | .words32 _ => 64
  | .words64 _ => 128

/-- Bytes of the message length at the end of the last block. -/
def Chain.lengthSize : Chain → Nat
  | .words32 _ => 8
  | .words64 _ => 16

/-- The chaining value after one block. -/
def Chain.compress (block : Array UInt8) : Chain → Chain
  | .words32 ws => .words32 (compress32 ws block)
  | .words64 ws => .words64 (compress64 ws block)

/-- The bytes of a chaining value. -/
def Chain.bytes : Chain → List UInt8
  | .words32 ws => ws.toList.flatMap wordBytes32
  | .words64 ws => ws.toList.flatMap wordBytes64

/-- A digest in progress. -/
structure Hasher where
  /-- The chaining value after the full blocks. -/
  chain : Chain
  /-- The bytes of the block being filled. -/
  pending : Array UInt8
  /-- Bytes taken so far. -/
  taken : Nat

namespace Hasher

/-- Before any byte. -/
def start (v : Variant) : Hasher := ⟨Chain.start v, #[], 0⟩

/-- Takes one byte. -/
def absorb (h : Hasher) (b : UInt8) : Hasher :=
  let pending := h.pending.push b
  if pending.size == h.chain.blockSize then ⟨h.chain.compress pending, #[], h.taken + 1⟩
  else ⟨h.chain, pending, h.taken + 1⟩

/-- Takes a piece of any size. -/
def take (h : Hasher) (bytes : ByteArray) : Hasher := bytes.data.foldl absorb h

/-- The bytes that complete the last block after a message: a one bit, zeros, and the length of
the message in bits. -/
def padding (h : Hasher) : List UInt8 :=
  let block := h.chain.blockSize
  let lengthSize := h.chain.lengthSize
  let used := (h.pending.size + 1 + lengthSize) % block
  let zeros := (block - used) % block
  let bits := h.taken * 8
  0x80 :: List.replicate zeros 0 ++
    (List.range lengthSize).map (fun i => UInt8.ofNat (bits / Nat.pow 256 (lengthSize - 1 - i)))

/-- The digest of the bytes taken. -/
def finish (h : Hasher) : List UInt8 := (h.padding.foldl absorb h).chain.bytes

/-- The digest of the bytes taken, in lower-case hexadecimal. -/
def finishHex (h : Hasher) : String := String.ofList (h.finish.flatMap Text.hexByte)

end Hasher

/-- The digest of some bytes, in lower-case hexadecimal. -/
def hex (v : Variant) (bytes : ByteArray) : String :=
  ((Hasher.start v).take bytes).finishHex

end Upkeep.Digest
