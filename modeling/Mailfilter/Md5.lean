import Mailfilter.Account

/-!
# The message digest

`md5c.c`, and `get_hash` of `apop.cc`, which uses it on the timestamp and the password.

* the types `State`, `Block` and `Context` (`MD5_CTX`);
* `decode` and `encode`, `memcpy`;
* `md5Transform`, which reads a block in four rounds of sixteen operations;
* `md5Init`, `md5Update` and `md5Final`;
* `getHash`.

The results are `none` when an array is accessed outside of its bounds.
-/

namespace Mailfilter

namespace Md5

/-- The four words of the `state`. -/
structure State where
  a : UInt32
  b : UInt32
  c : UInt32
  d : UInt32
  deriving DecidableEq

/-- An array of 64 bytes. -/
structure Block where
  bytes : Bytes
  length_bytes : bytes.length = 64

namespace Block

def get (b : Block) (i : Fin 64) : UInt8 := b.bytes.get (i.cast b.length_bytes.symm)

def set (b : Block) (i : Fin 64) (c : UInt8) : Block :=
  ⟨b.bytes.set i c, List.length_set.trans b.length_bytes⟩

end Block

/-- `MD5_CTX`: the state, the number of bits (modulo `2 ^ 64`, the lower word first) and the input
buffer. -/
structure Context where
  state : State
  count0 : UInt32
  count1 : UInt32
  buffer : Block

/-! ### Words and bytes -/

/-- `Encode` -/
def encode (input : List UInt32) : Bytes :=
  input.flatMap fun x : UInt32 =>
    [(x &&& 0xff).toUInt8, (x >>> 8 &&& 0xff).toUInt8, (x >>> 16 &&& 0xff).toUInt8,
      (x >>> 24 &&& 0xff).toUInt8]

/-- A word of the output of `Decode`. -/
def decode (input : Block) (i : Fin 16) : UInt32 :=
  (input.get ⟨4 * i, by omega⟩).toUInt32 ||| (input.get ⟨4 * i + 1, by omega⟩).toUInt32 <<< 8 |||
    (input.get ⟨4 * i + 2, by omega⟩).toUInt32 <<< 16 |||
    (input.get ⟨4 * i + 3, by omega⟩).toUInt32 <<< 24

/-- `MD5_memcpy (&output[index], &input[start], len)` -/
def memcpy (output : Block) (index : ℕ) (input : Bytes) (start : ℕ) : ℕ → Option Block
  | 0 => some output
  | len + 1 =>
    match input[start]? with
    | none => none
    | some c =>
      if h : index < 64 then memcpy (output.set ⟨index, h⟩ c) (index + 1) input (start + 1) len
      else none

/-- `&input[start]`, for the 64 bytes that `MD5Transform` reads there. -/
def blockAt (input : Bytes) (start : ℕ) : Option Block :=
  if h : ((input.drop start).take 64).length = 64 then some ⟨_, h⟩ else none

/-! ### The basic transformation -/

def basicF (x y z : UInt32) : UInt32 := x &&& y ||| ~~~x &&& z

def basicG (x y z : UInt32) : UInt32 := x &&& z ||| y &&& ~~~z

def basicH (x y z : UInt32) : UInt32 := x ^^^ y ^^^ z

def basicI (x y z : UInt32) : UInt32 := y ^^^ (x ||| ~~~z)

/-- `ROTATE_LEFT` -/
def rotateLeft (x n : UInt32) : UInt32 := x <<< n ||| x >>> (32 - n)

/-- `FF`, `GG`, `HH` and `II` for their basic function: the new value of `a`. -/
def operation (basic : UInt32 → UInt32 → UInt32 → UInt32) (a b c d x s ac : UInt32) : UInt32 :=
  rotateLeft (a + (basic b c d + x + ac)) s + b

def ff : (a b c d x s ac : UInt32) → UInt32 := operation basicF

def gg : (a b c d x s ac : UInt32) → UInt32 := operation basicG

def hh : (a b c d x s ac : UInt32) → UInt32 := operation basicH

def ii : (a b c d x s ac : UInt32) → UInt32 := operation basicI

/-- Round 1 -/
def round1 (x : Fin 16 → UInt32) : State → State := fun ⟨a, b, c, d⟩ =>
  let a := ff a b c d (x 0) 7 0xd76aa478
  let d := ff d a b c (x 1) 12 0xe8c7b756
  let c := ff c d a b (x 2) 17 0x242070db
  let b := ff b c d a (x 3) 22 0xc1bdceee
  let a := ff a b c d (x 4) 7 0xf57c0faf
  let d := ff d a b c (x 5) 12 0x4787c62a
  let c := ff c d a b (x 6) 17 0xa8304613
  let b := ff b c d a (x 7) 22 0xfd469501
  let a := ff a b c d (x 8) 7 0x698098d8
  let d := ff d a b c (x 9) 12 0x8b44f7af
  let c := ff c d a b (x 10) 17 0xffff5bb1
  let b := ff b c d a (x 11) 22 0x895cd7be
  let a := ff a b c d (x 12) 7 0x6b901122
  let d := ff d a b c (x 13) 12 0xfd987193
  let c := ff c d a b (x 14) 17 0xa679438e
  let b := ff b c d a (x 15) 22 0x49b40821
  ⟨a, b, c, d⟩

/-- Round 2 -/
def round2 (x : Fin 16 → UInt32) : State → State := fun ⟨a, b, c, d⟩ =>
  let a := gg a b c d (x 1) 5 0xf61e2562
  let d := gg d a b c (x 6) 9 0xc040b340
  let c := gg c d a b (x 11) 14 0x265e5a51
  let b := gg b c d a (x 0) 20 0xe9b6c7aa
  let a := gg a b c d (x 5) 5 0xd62f105d
  let d := gg d a b c (x 10) 9 0x2441453
  let c := gg c d a b (x 15) 14 0xd8a1e681
  let b := gg b c d a (x 4) 20 0xe7d3fbc8
  let a := gg a b c d (x 9) 5 0x21e1cde6
  let d := gg d a b c (x 14) 9 0xc33707d6
  let c := gg c d a b (x 3) 14 0xf4d50d87
  let b := gg b c d a (x 8) 20 0x455a14ed
  let a := gg a b c d (x 13) 5 0xa9e3e905
  let d := gg d a b c (x 2) 9 0xfcefa3f8
  let c := gg c d a b (x 7) 14 0x676f02d9
  let b := gg b c d a (x 12) 20 0x8d2a4c8a
  ⟨a, b, c, d⟩

/-- Round 3 -/
def round3 (x : Fin 16 → UInt32) : State → State := fun ⟨a, b, c, d⟩ =>
  let a := hh a b c d (x 5) 4 0xfffa3942
  let d := hh d a b c (x 8) 11 0x8771f681
  let c := hh c d a b (x 11) 16 0x6d9d6122
  let b := hh b c d a (x 14) 23 0xfde5380c
  let a := hh a b c d (x 1) 4 0xa4beea44
  let d := hh d a b c (x 4) 11 0x4bdecfa9
  let c := hh c d a b (x 7) 16 0xf6bb4b60
  let b := hh b c d a (x 10) 23 0xbebfbc70
  let a := hh a b c d (x 13) 4 0x289b7ec6
  let d := hh d a b c (x 0) 11 0xeaa127fa
  let c := hh c d a b (x 3) 16 0xd4ef3085
  let b := hh b c d a (x 6) 23 0x4881d05
  let a := hh a b c d (x 9) 4 0xd9d4d039
  let d := hh d a b c (x 12) 11 0xe6db99e5
  let c := hh c d a b (x 15) 16 0x1fa27cf8
  let b := hh b c d a (x 2) 23 0xc4ac5665
  ⟨a, b, c, d⟩

/-- Round 4 -/
def round4 (x : Fin 16 → UInt32) : State → State := fun ⟨a, b, c, d⟩ =>
  let a := ii a b c d (x 0) 6 0xf4292244
  let d := ii d a b c (x 7) 10 0x432aff97
  let c := ii c d a b (x 14) 15 0xab9423a7
  let b := ii b c d a (x 5) 21 0xfc93a039
  let a := ii a b c d (x 12) 6 0x655b59c3
  let d := ii d a b c (x 3) 10 0x8f0ccc92
  let c := ii c d a b (x 10) 15 0xffeff47d
  let b := ii b c d a (x 1) 21 0x85845dd1
  let a := ii a b c d (x 8) 6 0x6fa87e4f
  let d := ii d a b c (x 15) 10 0xfe2ce6e0
  let c := ii c d a b (x 6) 15 0xa3014314
  let b := ii b c d a (x 13) 21 0x4e0811a1
  let a := ii a b c d (x 4) 6 0xf7537e82
  let d := ii d a b c (x 11) 10 0xbd3af235
  let c := ii c d a b (x 2) 15 0x2ad7d2bb
  let b := ii b c d a (x 9) 21 0xeb86d391
  ⟨a, b, c, d⟩

instance : Add State := ⟨fun s t => ⟨s.a + t.a, s.b + t.b, s.c + t.c, s.d + t.d⟩⟩

/-- `MD5Transform` -/
def md5Transform (state : State) (block : Block) : State :=
  let x := decode block
  state + round4 x (round3 x (round2 x (round1 x state)))

/-! ### Contexts -/

/-- `MD5Init`, which leaves the buffer as it is. -/
def md5Init (context : Context) : Context :=
  { context with
    count0 := 0, count1 := 0, state := ⟨0x67452301, 0xefcdab89, 0x98badcfe, 0x10325476⟩ }

/-- `for (i = ..; i + 63 < inputLen; i += 64)`, with the last value of `i`. -/
def transformWhile (input : Bytes) (inputLen : UInt32) :
    ℕ → UInt32 → State → Option (State × UInt32)
  | 0, _, _ => none
  | fuel + 1, i, state =>
    if i + 63 < inputLen then
      match blockAt input i.toNat with
      | none => none
      | some block => transformWhile input inputLen fuel (i + 64) (md5Transform state block)
    else some (state, i)

/-- `MD5Update`, for an input in an array of bytes. -/
def md5Update (context : Context) (input : Bytes) (inputLen : UInt32) : Option Context := do
  let index := context.count0 >>> 3 &&& 0x3f
  let count0 := context.count0 + inputLen <<< 3
  let carried := if count0 < inputLen <<< 3 then context.count1 + 1 else context.count1
  let count1 := carried + inputLen >>> 29
  let partLen := 64 - index
  if partLen ≤ inputLen then
    let buffer ← memcpy context.buffer index.toNat input 0 partLen.toNat
    let (state, i) ←
      transformWhile input inputLen (inputLen.toNat + 1) partLen (md5Transform context.state buffer)
    let buffer ← memcpy buffer 0 input i.toNat (inputLen - i).toNat
    pure ⟨state, count0, count1, buffer⟩
  else
    let buffer ← memcpy context.buffer index.toNat input 0 inputLen.toNat
    pure ⟨context.state, count0, count1, buffer⟩

/-- `PADDING` -/
def padding : Bytes := 0x80 :: List.replicate 63 0

/-- A context after `MD5_memset (context, 0, sizeof (*context))`. -/
def zeroized : Context := ⟨⟨0, 0, 0, 0⟩, 0, 0, ⟨List.replicate 64 0, rfl⟩⟩

/-- `MD5Final`: the digest, and what is left in the context. -/
def md5Final (context : Context) : Option (Bytes × Context) := do
  let bits := encode [context.count0, context.count1]
  let index := context.count0 >>> 3 &&& 0x3f
  let padLen := if index < 56 then 56 - index else 120 - index
  let context ← md5Update context padding padLen
  let context ← md5Update context bits 8
  let s := context.state
  pure (encode [s.a, s.b, s.c, s.d], zeroized)

end Md5

/-! ### The hash of `APOP` -/

namespace Apop

/-- `strlen`: reads past the end of an array without a NUL. -/
def strlen (s : Bytes) : Option ℕ := if 0 ∈ s then some (cstr s).length else none

/-- `for (..) sprintf (hash + 2 * i, "%02x", digest[i])`, which writes a NUL each time. -/
def printDigest (hash : Bytes) (i : ℕ) : Bytes → Option Bytes
  | [] => some hash
  | c :: digest =>
    if 2 * i + 3 ≤ hash.length then
      printDigest (hash.take (2 * i) ++ hexByte c ++ 0 :: hash.drop (2 * i + 3)) (i + 1) digest
    else none

/-- `get_hash`, from the first contents of its `mdContext` and of `hash`. -/
def getHashOf (mdContext : Md5.Context) (hash stamp pass : Bytes) : Option Bytes := do
  let mdContext := Md5.md5Init mdContext
  let mdContext ← Md5.md5Update mdContext stamp (UInt32.ofNat (← strlen stamp))
  let mdContext ← Md5.md5Update mdContext pass (UInt32.ofNat (← strlen pass))
  let (digest, _) ← Md5.md5Final mdContext
  printDigest hash 0 digest

end Apop

end Mailfilter
