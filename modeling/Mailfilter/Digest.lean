import Mailfilter.Absorption
import Mailfilter.Md5
import Mailfilter.Numbers

/-!
# The message digest as a function of the message

The digest of a message is defined here once more, from the whole message and with one formula for
the 64 operations on a block, and the contexts of `md5c.c` are shown to compute it, in whatever
pieces the message comes.

* `littleEndian`, `word`, `step` and `compress`; `pad` and `digest`;
* `md5Transform_eq`: the four rounds are the 64 steps;
* `Context.Represents`: what a context knows of the message so far;
* `md5Update_represents` and `md5Final_eq`.
-/

namespace Mailfilter

namespace Md5

open Absorption

/-! ### The digest -/

/-- A number in `k` bytes, the lowest first. -/
def littleEndian (k n : ℕ) : Bytes := (List.range k).map fun i => UInt8.ofNat (n / 256 ^ i)

/-- The `k`-th word of a block. -/
def word (b : Bytes) (k : ℕ) : UInt32 :=
  UInt32.ofNat (Nat.ofDigits 256 (((b.drop (4 * k)).take 4).map UInt8.toNat))

/-- The constants of the 64 steps. -/
def sines : List UInt32 :=
  [0xd76aa478, 0xe8c7b756, 0x242070db, 0xc1bdceee, 0xf57c0faf, 0x4787c62a, 0xa8304613, 0xfd469501,
    0x698098d8, 0x8b44f7af, 0xffff5bb1, 0x895cd7be, 0x6b901122, 0xfd987193, 0xa679438e, 0x49b40821,
    0xf61e2562, 0xc040b340, 0x265e5a51, 0xe9b6c7aa, 0xd62f105d, 0x02441453, 0xd8a1e681, 0xe7d3fbc8,
    0x21e1cde6, 0xc33707d6, 0xf4d50d87, 0x455a14ed, 0xa9e3e905, 0xfcefa3f8, 0x676f02d9, 0x8d2a4c8a,
    0xfffa3942, 0x8771f681, 0x6d9d6122, 0xfde5380c, 0xa4beea44, 0x4bdecfa9, 0xf6bb4b60, 0xbebfbc70,
    0x289b7ec6, 0xeaa127fa, 0xd4ef3085, 0x04881d05, 0xd9d4d039, 0xe6db99e5, 0x1fa27cf8, 0xc4ac5665,
    0xf4292244, 0x432aff97, 0xab9423a7, 0xfc93a039, 0x655b59c3, 0x8f0ccc92, 0xffeff47d, 0x85845dd1,
    0x6fa87e4f, 0xfe2ce6e0, 0xa3014314, 0x4e0811a1, 0xf7537e82, 0xbd3af235, 0x2ad7d2bb, 0xeb86d391]

/-- The basic function of a round, and which word its steps read. -/
def schedule : ℕ → (UInt32 → UInt32 → UInt32 → UInt32) × (ℕ → ℕ)
  | 0 => (basicF, fun i => i)
  | 1 => (basicG, fun i => 5 * i + 1)
  | 2 => (basicH, fun i => 3 * i + 5)
  | _ => (basicI, fun i => 7 * i)

/-- The rotations of a round; each takes its turn four times. -/
def rotations : ℕ → List UInt32
  | 0 => [7, 12, 17, 22]
  | 1 => [5, 9, 14, 20]
  | 2 => [4, 11, 16, 23]
  | _ => [6, 10, 15, 21]

/-- One of the 64 steps on the words `x` of a block: the registers move on by one. -/
def step (x : ℕ → UInt32) (s : State) (i : ℕ) : State :=
  let (basic, k) := schedule (i / 16)
  let sum := s.a + (basic s.b s.c s.d + x (k i % 16) + sines.getD i 0)
  ⟨s.d, rotateLeft sum ((rotations (i / 16)).getD (i % 4) 0) + s.b, s.b, s.c⟩

/-- The state after a block. -/
def compress (s : State) (b : Bytes) : State := s + (List.range 64).foldl (step (word b)) s

def initial : State := ⟨0x67452301, 0xefcdab89, 0x98badcfe, 0x10325476⟩

/-- The padding of a message of `n` bytes: a single bit, zeros, and the number of bits. -/
def pad (n : ℕ) : Bytes :=
  0x80 :: List.replicate ((119 - n % 64) % 64) 0 ++ littleEndian 8 (8 * n)

/-- The words of a state, one after the other. -/
def State.bytes (s : State) : Bytes :=
  [s.a, s.b, s.c, s.d].flatMap fun x => littleEndian 4 x.toNat

/-- The digest of a message. -/
def digest (m : Bytes) : Bytes := (absorb 64 compress initial (m ++ pad m.length)).bytes

/-! ### The rounds -/

/-- Four steps give every register a new value. -/
theorem foldl_step_four {x : ℕ → UInt32} {i : ℕ} {a b c d a' b' c' d' : UInt32}
    (ha : (step x ⟨a, b, c, d⟩ i).b = a') (hd : (step x ⟨d, a', b, c⟩ (i + 1)).b = d')
    (hc : (step x ⟨c, d', a', b⟩ (i + 2)).b = c') (hb : (step x ⟨b, c', d', a'⟩ (i + 3)).b = b') :
    (List.range' i 4).foldl (step x) ⟨a, b, c, d⟩ = ⟨a', b', c', d'⟩ := by
  subst ha hd hc hb
  rfl

/-- A round goes through the registers four times. -/
theorem foldl_step_sixteen {f : State → ℕ → State} {i : ℕ} {s t : State} (s1 s2 s3 : State)
    (h1 : (List.range' i 4).foldl f s = s1) (h2 : (List.range' (i + 4) 4).foldl f s1 = s2)
    (h3 : (List.range' (i + 8) 4).foldl f s2 = s3) (h4 : (List.range' (i + 12) 4).foldl f s3 = t) :
    t = (List.range' i 16).foldl f s := by
  subst h1 h2 h3 h4
  rfl

theorem round1_eq (x : ℕ → UInt32) (s : State) :
    round1 (fun k => x k) s = (List.range' 0 16).foldl (step x) s := by
  obtain ⟨a, b, c, d⟩ := s
  delta round1
  dsimp -zeta only
  extract_lets a1 d1 c1 b1 a2 d2 c2 b2 a3 d3 c3 b3 a4 d4 c4 b4
  exact foldl_step_sixteen ⟨a1, b1, c1, d1⟩ ⟨a2, b2, c2, d2⟩ ⟨a3, b3, c3, d3⟩
    (foldl_step_four rfl rfl rfl rfl) (foldl_step_four rfl rfl rfl rfl)
    (foldl_step_four rfl rfl rfl rfl) (foldl_step_four rfl rfl rfl rfl)

theorem round2_eq (x : ℕ → UInt32) (s : State) :
    round2 (fun k => x k) s = (List.range' 16 16).foldl (step x) s := by
  obtain ⟨a, b, c, d⟩ := s
  delta round2
  dsimp -zeta only
  extract_lets a1 d1 c1 b1 a2 d2 c2 b2 a3 d3 c3 b3 a4 d4 c4 b4
  exact foldl_step_sixteen ⟨a1, b1, c1, d1⟩ ⟨a2, b2, c2, d2⟩ ⟨a3, b3, c3, d3⟩
    (foldl_step_four rfl rfl rfl rfl) (foldl_step_four rfl rfl rfl rfl)
    (foldl_step_four rfl rfl rfl rfl) (foldl_step_four rfl rfl rfl rfl)

theorem round3_eq (x : ℕ → UInt32) (s : State) :
    round3 (fun k => x k) s = (List.range' 32 16).foldl (step x) s := by
  obtain ⟨a, b, c, d⟩ := s
  delta round3
  dsimp -zeta only
  extract_lets a1 d1 c1 b1 a2 d2 c2 b2 a3 d3 c3 b3 a4 d4 c4 b4
  exact foldl_step_sixteen ⟨a1, b1, c1, d1⟩ ⟨a2, b2, c2, d2⟩ ⟨a3, b3, c3, d3⟩
    (foldl_step_four rfl rfl rfl rfl) (foldl_step_four rfl rfl rfl rfl)
    (foldl_step_four rfl rfl rfl rfl) (foldl_step_four rfl rfl rfl rfl)

theorem round4_eq (x : ℕ → UInt32) (s : State) :
    round4 (fun k => x k) s = (List.range' 48 16).foldl (step x) s := by
  obtain ⟨a, b, c, d⟩ := s
  delta round4
  dsimp -zeta only
  extract_lets a1 d1 c1 b1 a2 d2 c2 b2 a3 d3 c3 b3 a4 d4 c4 b4
  exact foldl_step_sixteen ⟨a1, b1, c1, d1⟩ ⟨a2, b2, c2, d2⟩ ⟨a3, b3, c3, d3⟩
    (foldl_step_four rfl rfl rfl rfl) (foldl_step_four rfl rfl rfl rfl)
    (foldl_step_four rfl rfl rfl rfl) (foldl_step_four rfl rfl rfl rfl)

/-! ### Words and bytes -/

theorem toNat_or_shiftLeft {n : ℕ} (hn : n < 32) {x y : UInt32} (hx : x.toNat < 2 ^ n)
    (hy : y.toNat * 2 ^ n < 2 ^ 32) :
    (x ||| y <<< UInt32.ofNat n).toNat = x.toNat + 2 ^ n * y.toNat := by
  have hshift : (UInt32.ofNat n).toNat % 32 = n := by
    rw [UInt32.toNat_ofNat_of_lt' (by simp [UInt32.size]; omega), Nat.mod_eq_of_lt hn]
  rw [UInt32.toNat_or, UInt32.toNat_shiftLeft, hshift, Nat.shiftLeft_eq, Nat.mod_eq_of_lt hy,
    Nat.or_comm, Nat.mul_comm, ← Nat.two_pow_add_eq_or_of_lt hx, Nat.add_comm]

/-- Four bytes make a word, the lowest first. -/
theorem or_bytes_eq (c0 c1 c2 c3 : UInt8) :
    c0.toUInt32 ||| c1.toUInt32 <<< 8 ||| c2.toUInt32 <<< 16 ||| c3.toUInt32 <<< 24 =
      UInt32.ofNat (Nat.ofDigits 256 ([c0, c1, c2, c3].map UInt8.toNat)) := by
  have h0 := c0.toNat_lt
  have h1 := c1.toNat_lt
  have h2 := c2.toNat_lt
  have h3 := c3.toNat_lt
  have e1 : (c0.toUInt32 ||| c1.toUInt32 <<< 8).toNat = c0.toNat + 2 ^ 8 * c1.toNat :=
    toNat_or_shiftLeft (n := 8) (by omega) (by simpa using h0) (by simp; omega)
  have e2 : (c0.toUInt32 ||| c1.toUInt32 <<< 8 ||| c2.toUInt32 <<< 16).toNat =
      c0.toNat + 2 ^ 8 * c1.toNat + 2 ^ 16 * c2.toNat := by
    rw [← e1]
    exact toNat_or_shiftLeft (n := 16) (by omega) (by omega) (by simp; omega)
  have e3 : (c0.toUInt32 ||| c1.toUInt32 <<< 8 ||| c2.toUInt32 <<< 16 |||
      c3.toUInt32 <<< 24).toNat =
        c0.toNat + 2 ^ 8 * c1.toNat + 2 ^ 16 * c2.toNat + 2 ^ 24 * c3.toNat := by
    rw [← e2]
    exact toNat_or_shiftLeft (n := 24) (by omega) (by omega) (by simp; omega)
  have hsum : Nat.ofDigits 256 ([c0, c1, c2, c3].map UInt8.toNat) =
      c0.toNat + 2 ^ 8 * c1.toNat + 2 ^ 16 * c2.toNat + 2 ^ 24 * c3.toNat := by
    simp [Nat.ofDigits_cons]
    ring
  rw [hsum, ← e3, UInt32.ofNat_toNat]

/-- The words of a block, as `Decode` puts them together. -/
theorem decode_eq (b : Block) (k : Fin 16) : decode b k = word b.bytes k := by
  obtain ⟨l, hl⟩ := b
  have hk := k.isLt
  have htake : (l.drop (4 * k)).take 4 =
      [l[4 * k.1], l[4 * k.1 + 1], l[4 * k.1 + 2], l[4 * k.1 + 3]] := by
    rw [List.drop_eq_getElem_cons, List.drop_eq_getElem_cons, List.drop_eq_getElem_cons,
      List.drop_eq_getElem_cons]
    rfl
  rw [word, htake, ← or_bytes_eq]
  rfl

/-- What `Encode` makes of a word. -/
theorem encode_cons (x : UInt32) (l : List UInt32) :
    encode (x :: l) = littleEndian 4 x.toNat ++ encode l := by
  have hlow (y : UInt32) : (y &&& 0xff).toUInt8 = UInt8.ofNat y.toNat := by
    apply UInt8.toNat.inj
    have hmod : (y &&& 0xff).toNat = y.toNat % 2 ^ 8 := by
      rw [UInt32.toNat_and]
      exact Nat.and_two_pow_sub_one_eq_mod y.toNat 8
    rw [UInt32.toNat_toUInt8, hmod, Nat.mod_mod, UInt8.toNat_ofNat']
  have hshift (n : ℕ) (hn : n < 32) : (x >>> UInt32.ofNat n).toNat = x.toNat / 2 ^ n := by
    rw [UInt32.toNat_shiftRight, UInt32.toNat_ofNat_of_lt' (by simp [UInt32.size]; omega),
      Nat.mod_eq_of_lt hn, Nat.shiftRight_eq_div_pow]
  have h8 : (x >>> 8).toNat = x.toNat / 256 := hshift 8 (by omega)
  have h16 : (x >>> 16).toNat = x.toNat / 65536 := hshift 16 (by omega)
  have h24 : (x >>> 24).toNat = x.toNat / 16777216 := hshift 24 (by omega)
  rw [encode, List.flatMap_cons, ← encode]
  simp [hlow, h8, h16, h24, littleEndian, List.range_succ]

theorem ofNat_eq_of_mod_eq {a b : ℕ} (h : a % 256 = b % 256) : UInt8.ofNat a = UInt8.ofNat b := by
  apply UInt8.toNat.inj
  simpa [UInt8.toNat_ofNat'] using h

theorem littleEndian_mod (n : ℕ) : littleEndian 8 (n % 2 ^ 64) = littleEndian 8 n := by
  refine List.map_congr_left fun i hi => ofNat_eq_of_mod_eq ?_
  have hi8 : i < 8 := List.mem_range.mp hi
  have hpow : 2 ^ 64 = 256 ^ i * 256 ^ (8 - i) := by
    rw [← pow_add, Nat.add_sub_cancel' hi8.le]
    norm_num
  rw [hpow, Nat.mod_mul_right_div_self,
    Nat.mod_mod_of_dvd _ (dvd_pow_self 256 (Nat.sub_pos_of_lt hi8).ne')]

/-- A number of two words, from its bytes. -/
theorem littleEndian_eight (n m : ℕ) (hm : m < 2 ^ 32) :
    littleEndian 4 m ++ littleEndian 4 n = littleEndian 8 (n * 2 ^ 32 + m) := by
  simp only [littleEndian, List.range_succ, List.range_zero, List.nil_append,
    List.map_cons, List.map_nil, List.cons_append, List.cons.injEq, and_true]
  refine ⟨?_, ?_, ?_, ?_, ?_, ?_, ?_, ?_⟩ <;> refine ofNat_eq_of_mod_eq ?_ <;> omega

theorem md5Transform_eq (s : State) (b : Block) : md5Transform s b = compress s b.bytes := by
  have hdecode : decode b = fun k : Fin 16 => word b.bytes k := funext (decode_eq b)
  have hrange : List.range 64 =
      List.range' 0 16 ++ List.range' 16 16 ++ List.range' 32 16 ++ List.range' 48 16 := by
    decide
  simp only [md5Transform, hdecode, round1_eq, round2_eq, round3_eq, round4_eq]
  rw [compress, hrange, List.foldl_append, List.foldl_append, List.foldl_append]

/-! ### Copies -/

theorem memcpy_eq (buffer : Block) (index : ℕ) (input : Bytes) (start len : ℕ)
    (hi : index + len ≤ 64) (hs : start + len ≤ input.length) :
    ∃ out, memcpy buffer index input start len = some out ∧
      out.bytes = buffer.bytes.take index ++ (input.drop start).take len ++
        buffer.bytes.drop (index + len) := by
  induction len generalizing buffer index start with
  | zero => exact ⟨buffer, rfl, by simp⟩
  | succ len ih =>
    have hstart : start < input.length := by omega
    have hindex : index < 64 := by omega
    have hlen : index < buffer.bytes.length := by rw [buffer.length_bytes]; exact hindex
    obtain ⟨out, hout, heq⟩ := ih (buffer.set ⟨index, hindex⟩ input[start])
      (index + 1) (start + 1) (by omega) (by omega)
    refine ⟨out, ?_, ?_⟩
    · rw [memcpy, List.getElem?_eq_getElem hstart]
      simp only [hindex, dif_pos, hout]
    · have hfront : (buffer.bytes.set index input[start]).take (index + 1) =
          buffer.bytes.take index ++ [input[start]] := by
        rw [List.take_succ_eq_append_getElem (by simpa using hlen), List.take_set_of_le le_rfl]
        simp
      have hback : (buffer.bytes.set index input[start]).drop (index + 1 + len) =
          buffer.bytes.drop (index + (len + 1)) := by
        rw [List.drop_set_of_lt (by omega)]
        congr 1
        omega
      rw [heq, Block.set, hfront, hback, List.drop_eq_getElem_cons hstart, List.take_succ_cons]
      simp

/-! ### Contexts -/

/-- Adding `n` bytes to a number of bits in two words. -/
theorem add_bits {c0 c1 k n : ℕ} (hcount : c1 * 2 ^ 32 + c0 = 8 * k % 2 ^ 64) (h0 : c0 < 2 ^ 32) :
    ((if 2 ^ 32 ≤ c0 + n * 8 % 2 ^ 32 then (c1 + 1) % 2 ^ 32 else c1) + n / 2 ^ 29) % 2 ^ 32 *
      2 ^ 32 + (c0 + n * 8 % 2 ^ 32) % 2 ^ 32 = 8 * (k + n) % 2 ^ 64 := by
  have htotal : 8 * (k + n) % 2 ^ 64 = (c1 * 2 ^ 32 + c0 + 8 * n) % (2 ^ 32 * 2 ^ 32) := by
    rw [hcount, Nat.mul_add]
    exact (Nat.mod_add_mod _ _ _).symm
  have hlow : (c1 * 2 ^ 32 + c0 + 8 * n) % 2 ^ 32 = (c0 + n * 8 % 2 ^ 32) % 2 ^ 32 := by omega
  have hhigh : (c1 * 2 ^ 32 + c0 + 8 * n) / 2 ^ 32 =
      (if 2 ^ 32 ≤ c0 + n * 8 % 2 ^ 32 then c1 + 1 else c1) + n / 2 ^ 29 := by
    split <;> omega
  rw [htotal, Nat.mod_mul, hlow, hhigh, Nat.add_comm, Nat.mul_comm (2 ^ 32)]
  congr 2
  split
  · exact Nat.mod_add_mod _ _ _
  · rfl

/-- What a context knows of a message that it has read: the state after the whole blocks, the number
of bits, and the bytes behind the whole blocks. -/
structure Context.Represents (context : Context) (m : Bytes) : Prop where
  state : context.state = absorb 64 compress initial m
  count : context.count1.toNat * 2 ^ 32 + context.count0.toNat = 8 * m.length % 2 ^ 64
  buffer : context.buffer.bytes.take (m.length % 64) = residue 64 m

theorem md5Init_represents (context : Context) : (md5Init context).Represents [] where
  state := rfl
  count := by simp [md5Init]
  buffer := rfl

namespace Context.Represents

variable {context : Context} {m : Bytes}

/-- The place in the buffer. -/
theorem index_eq (h : context.Represents m) :
    (context.count0 >>> 3 &&& 0x3f).toNat = m.length % 64 := by
  have hcount := h.count
  have hlt := context.count0.toNat_lt
  have hand : (context.count0 >>> 3 &&& 0x3f).toNat = context.count0.toNat / 8 % 64 := by
    rw [UInt32.toNat_and, UInt32.toNat_shiftRight]
    exact (Nat.and_two_pow_sub_one_eq_mod _ 6).trans
      (congrArg (· % 64) (Nat.shiftRight_eq_div_pow _ 3))
  omega

/-- The number of bits after `n` more bytes. -/
theorem count_add (h : context.Represents m) (n : UInt32) :
    ((if context.count0 + n <<< 3 < n <<< 3 then context.count1 + 1 else context.count1) +
        n >>> 29).toNat * 2 ^ 32 + (context.count0 + n <<< 3).toNat =
      8 * (m.length + n.toNat) % 2 ^ 64 := by
  have h0 := context.count0.toNat_lt
  have hlow : (n <<< 3).toNat = n.toNat * 8 % 2 ^ 32 := by
    rw [UInt32.toNat_shiftLeft]
    exact congrArg (· % 2 ^ 32) (Nat.shiftLeft_eq _ 3)
  have hhigh : (n >>> 29).toNat = n.toNat / 2 ^ 29 := by
    rw [UInt32.toNat_shiftRight]
    exact Nat.shiftRight_eq_div_pow _ 29
  have hsum : (context.count0 + n <<< 3).toNat =
      (context.count0.toNat + n.toNat * 8 % 2 ^ 32) % 2 ^ 32 := by rw [UInt32.toNat_add, hlow]
  have hcarry : context.count0 + n <<< 3 < n <<< 3 ↔
      2 ^ 32 ≤ context.count0.toNat + n.toNat * 8 % 2 ^ 32 := by
    rw [UInt32.lt_iff_toNat_lt, hsum, hlow]
    omega
  have hone : (context.count1 + 1).toNat = (context.count1.toNat + 1) % 2 ^ 32 :=
    UInt32.toNat_add _ _
  rw [UInt32.toNat_add, hhigh, hsum, ← add_bits h.count h0]
  simp only [hcarry]
  split_ifs <;> simp only [hone]

end Context.Represents

/-- The loop of `MD5Update` absorbs what is left of the input. -/
theorem transformWhile_eq {input : Bytes} {n : UInt32} (hn : n.toNat + 64 ≤ 2 ^ 32)
    (hle : n.toNat ≤ input.length) {fuel : ℕ} {i : UInt32} (hi : i.toNat ≤ n.toNat)
    (hfuel : n.toNat - i.toNat < fuel) (s : State) :
    ∃ i', transformWhile input n fuel i s =
        some (absorb 64 compress s ((input.take n.toNat).drop i.toNat), i') ∧
      i'.toNat ≤ n.toNat ∧
      (input.take n.toNat).drop i'.toNat = residue 64 ((input.take n.toNat).drop i.toNat) := by
  induction fuel generalizing i s with
  | zero => omega
  | succ fuel ih =>
    have h63 : (i + 63).toNat = i.toNat + 63 := by
      rw [UInt32.toNat_add]
      exact Nat.mod_eq_of_lt (by simp; omega)
    rw [transformWhile]
    simp only [UInt32.lt_iff_toNat_lt, h63]
    split_ifs with hlt
    · have h64 : (i + 64).toNat = i.toNat + 64 := by
        rw [UInt32.toNat_add]
        exact Nat.mod_eq_of_lt (by simp; omega)
      have hlen : ((input.drop i.toNat).take 64).length = 64 := by simp; omega
      have hsplit : (input.take n.toNat).drop i.toNat =
          (input.drop i.toNat).take 64 ++ (input.take n.toNat).drop (i + 64).toNat := by
        rw [h64, List.drop_take, List.drop_take, ← List.drop_drop, Nat.sub_add_eq,
          ← List.take_add]
        congr 1
        omega
      obtain ⟨i', hrun, hi', hdrop⟩ := ih (i := i + 64) (by omega) (by omega)
        (compress s ((input.drop i.toNat).take 64))
      refine ⟨i', ?_, hi', ?_⟩
      · rw [blockAt, dif_pos hlen]
        simp only [md5Transform_eq, hrun]
        rw [hsplit, absorb_block _ _ (by omega) hlen]
      · rw [hsplit, residue_block (by omega) hlen, hdrop]
    · have hshort : ((input.take n.toNat).drop i.toNat).length < 64 := by simp; omega
      exact ⟨i, by rw [absorb_short _ _ hshort], hi, (residue_short hshort).symm⟩

/-- `MD5Update` reads on in the message, when the counter of its loop cannot wrap around. -/
theorem md5Update_represents {context : Context} {m : Bytes} (h : context.Represents m)
    (input : Bytes) (n : UInt32) (hn : n.toNat + 64 ≤ 2 ^ 32) (hle : n.toNat ≤ input.length) :
    ∃ context', md5Update context input n = some context' ∧
      context'.Represents (m ++ input.take n.toNat) := by
  have hindex := h.index_eq
  have hlt : m.length % 64 < 64 := Nat.mod_lt _ (by omega)
  have hpart : ((64 : UInt32) - (context.count0 >>> 3 &&& 0x3f)).toNat = 64 - m.length % 64 := by
    rw [UInt32.toNat_sub_of_le _ _ (by rw [UInt32.le_iff_toNat_le, hindex]; exact hlt.le), hindex]
    rfl
  have hcount := h.count_add n
  have hlength : (m ++ input.take n.toNat).length = m.length + n.toNat := by
    rw [List.length_append, List.length_take_of_le hle]
  rw [← hlength] at hcount
  unfold md5Update
  simp only [UInt32.le_iff_toNat_le, hpart, hindex]
  by_cases hlong : 64 - m.length % 64 ≤ n.toNat
  · -- the buffer is filled up and transformed
    obtain ⟨buffer, hcopy, hbuffer⟩ := memcpy_eq context.buffer (m.length % 64) input 0
      (64 - m.length % 64) (by omega) (by omega)
    obtain ⟨i, hrun, hi, hrest⟩ := transformWhile_eq hn hle (by rw [hpart]; exact hlong)
      (show _ < n.toNat + 1 by omega) (md5Transform context.state buffer)
    rw [hpart] at hrun hrest
    have hfull : buffer.bytes = residue 64 m ++ input.take (64 - m.length % 64) := by
      rw [hbuffer, h.buffer, List.drop_zero, Nat.add_sub_cancel' hlt.le,
        List.drop_of_length_le context.buffer.length_bytes.le, List.append_nil]
    have hsplit : residue 64 m ++ input.take n.toNat =
        buffer.bytes ++ (input.take n.toNat).drop (64 - m.length % 64) := by
      rw [hfull, List.append_assoc]
      conv_lhs => rw [← List.take_append_drop (64 - m.length % 64) (input.take n.toNat)]
      rw [List.take_take, Nat.min_eq_left hlong]
    have hresidue : residue 64 (m ++ input.take n.toNat) =
        (input.drop i.toNat).take (n - i).toNat := by
      rw [residue_append (by omega), hsplit, residue_block (by omega) buffer.length_bytes, ← hrest,
        List.drop_take, UInt32.toNat_sub_of_le _ _ (UInt32.le_iff_toNat_le.mpr hi)]
    have hleft : (n - i).toNat = n.toNat - i.toNat :=
      UInt32.toNat_sub_of_le _ _ (UInt32.le_iff_toNat_le.mpr hi)
    have hless : n.toNat - i.toNat < 64 := by
      have := length_residue_lt (n := 64) (by omega) (m ++ input.take n.toNat)
      rw [hresidue, hleft, List.length_take, List.length_drop] at this
      omega
    obtain ⟨buffer', hcopy', hbuffer'⟩ := memcpy_eq buffer 0 input i.toNat (n - i).toNat
      (by omega) (by omega)
    rw [if_pos hlong, hcopy]
    simp only [Option.bind_eq_bind, Option.bind_some, hrun, hcopy']
    refine ⟨_, rfl, ?_, hcount, ?_⟩
    · rw [absorb_append _ _ (by omega), hsplit, absorb_block _ _ (by omega) buffer.length_bytes,
        md5Transform_eq, h.state]
    · rw [hbuffer', ← length_residue, hresidue]
      simp
  · -- the input does not fill the buffer
    obtain ⟨buffer, hcopy, hbuffer⟩ := memcpy_eq context.buffer (m.length % 64) input 0 n.toNat
      (by omega) (by omega)
    have hshort : (residue 64 m ++ input.take n.toNat).length < 64 := by
      rw [List.length_append, length_residue, List.length_take_of_le hle]
      omega
    have hresidue : residue 64 (m ++ input.take n.toNat) = residue 64 m ++ input.take n.toNat := by
      rw [residue_append (by omega), residue_short hshort]
    rw [if_neg hlong, hcopy]
    refine ⟨_, rfl, ?_, hcount, ?_⟩
    · rw [h.state, absorb_append _ _ (by omega), absorb_short _ _ hshort]
    · rw [hbuffer, h.buffer, ← length_residue, hresidue, List.drop_zero, List.take_left]

/-- How far `MD5Final` pads. -/
theorem padLen_eq {context : Context} {m : Bytes} (h : context.Represents m) :
    (if context.count0 >>> 3 &&& 0x3f < 56 then (56 : UInt32) - (context.count0 >>> 3 &&& 0x3f)
      else (120 : UInt32) - (context.count0 >>> 3 &&& 0x3f)).toNat =
        (119 - m.length % 64) % 64 + 1 := by
  have hindex := h.index_eq
  have hlt : m.length % 64 < 64 := Nat.mod_lt _ (by omega)
  rw [← hindex] at hlt ⊢
  generalize context.count0 >>> 3 &&& 0x3f = index at hlt ⊢
  have hiff : index < 56 ↔ index.toNat < 56 := UInt32.lt_iff_toNat_lt
  split_ifs with hc
  · rw [hiff] at hc
    rw [UInt32.toNat_sub_of_le _ _ (UInt32.le_iff_toNat_le.mpr hc.le)]
    change 56 - index.toNat = _
    omega
  · rw [hiff] at hc
    have hle : index ≤ 120 := UInt32.le_iff_toNat_le.mpr (by change _ ≤ 120; omega)
    rw [UInt32.toNat_sub_of_le _ _ hle]
    change 120 - index.toNat = _
    omega

theorem encode_state (s : State) : encode [s.a, s.b, s.c, s.d] = s.bytes := by
  simp only [encode_cons, State.bytes, List.flatMap_cons, List.flatMap_nil]
  rfl

theorem toNat_ofNat_length {l : Bytes} (h : l.length + 64 ≤ 2 ^ 32) :
    (UInt32.ofNat l.length).toNat = l.length :=
  UInt32.toNat_ofNat_of_lt' (show l.length < 2 ^ 32 by omega)

/-- `MD5Final` has the digest of the message. -/
theorem md5Final_eq {context : Context} {m : Bytes} (h : context.Represents m) :
    md5Final context = some (digest m, zeroized) := by
  have hpad := padLen_eq h
  have hbits : encode [context.count0, context.count1] = littleEndian 8 (8 * m.length) := by
    rw [encode_cons, encode_cons, encode, List.flatMap_nil, List.append_nil,
      littleEndian_eight _ _ context.count0.toNat_lt, h.count, littleEndian_mod]
  have hone : padding.take ((119 - m.length % 64) % 64 + 1) =
      0x80 :: List.replicate ((119 - m.length % 64) % 64) 0 := by
    rw [padding, List.take_succ_cons, List.take_replicate, Nat.min_eq_left (by omega)]
  obtain ⟨padded, hrun, hpadded⟩ := md5Update_represents h padding _ (by rw [hpad]; omega)
    (by rw [hpad]; simp [padding]; omega)
  obtain ⟨finished, hrun', hfinished⟩ := md5Update_represents hpadded
    (littleEndian 8 (8 * m.length)) 8 (by decide) (by simp [littleEndian])
  have hstate : finished.state = absorb 64 compress initial (m ++ pad m.length) := by
    rw [hfinished.state, hpad, hone, List.append_assoc, pad]
    rfl
  unfold md5Final
  simp only [hbits, hrun, hrun', Option.bind_eq_bind, Option.bind_some, encode_state]
  rw [digest, ← hstate]
  rfl

/-- A message can be handed over in any number of pieces, in a context with anything in it. -/
theorem md5Final_pieces (context : Context) {pieces : List Bytes}
    (hp : ∀ p ∈ pieces, p.length + 64 ≤ 2 ^ 32) :
    ((pieces.foldlM (fun c p => md5Update c p (UInt32.ofNat p.length)) (md5Init context)).bind
      md5Final) = some (digest pieces.flatten, zeroized) := by
  suffices hrun : ∀ (c : Context) (m : Bytes), c.Represents m →
      ((pieces.foldlM (fun c p => md5Update c p (UInt32.ofNat p.length)) c).bind md5Final) =
        some (digest (m ++ pieces.flatten), zeroized) from
    hrun _ [] (md5Init_represents context)
  induction pieces with
  | nil =>
    intro c m hc
    rw [List.flatten_nil, List.append_nil]
    exact md5Final_eq hc
  | cons p pieces ih =>
    intro c m hc
    have hlen := hp p List.mem_cons_self
    have htoNat : (UInt32.ofNat p.length).toNat = p.length := toNat_ofNat_length hlen
    obtain ⟨c', hrun, hc'⟩ := md5Update_represents hc p (UInt32.ofNat p.length)
      (by rw [htoNat]; exact hlen) htoNat.le
    rw [htoNat, List.take_length] at hc'
    rw [List.foldlM_cons, hrun, List.flatten_cons, ← List.append_assoc]
    exact ih (fun q hq => hp q (List.mem_cons_of_mem p hq)) c' _ hc'

theorem md5Final_two_pieces :
    (([bytes "a", bytes "bc"].foldlM (fun c p => md5Update c p (UInt32.ofNat p.length))
      (md5Init zeroized)).bind md5Final) =
        some (digest [bytes "a", bytes "bc"].flatten, zeroized) :=
  md5Final_pieces zeroized (by decide)

example :
    (digest (bytes "abc")).flatMap Apop.hexByte = bytes "900150983cd24fb0d6963f7d28e17f72" := by
  decide +kernel

/-- The 16 bytes of the digest. -/
theorem length_digest (m : Bytes) : (digest m).length = 16 := rfl

/-- `md5` as the model of the session takes it. -/
def md5 (m : Bytes) (i : Fin 16) : UInt8 := (digest m).get (i.cast (length_digest m).symm)

theorem digest_ne_nil (m : Bytes) : digest m ≠ [] :=
  List.ne_nil_of_length_pos (by rw [length_digest]; omega)

theorem ofFn_md5 (m : Bytes) : List.ofFn (md5 m) = digest m := by
  refine List.ext_getElem (by rw [List.length_ofFn, length_digest]) fun i hi hi' => ?_
  simp only [List.getElem_ofFn, md5, List.get_eq_getElem, Fin.val_cast]

end Md5

/-! ### The hash of `APOP` -/

namespace Apop

open Md5

theorem strlen_eq {s : Bytes} (hs : 0 ∉ s) (r : Bytes) : strlen (s ++ 0 :: r) = some s.length := by
  have hcstr : cstr (s ++ 0 :: r) = s := by
    rw [cstr_append hs]
    exact List.append_nil s
  rw [strlen, if_pos (List.mem_append_right s List.mem_cons_self), hcstr]

/-- Every byte of the digest is printed over the NUL that ends what is there. -/
theorem printDigest_eq (digest : Bytes) (front back : Bytes) (i : ℕ) (c : UInt8)
    (hfront : front.length = 2 * i) (hback : back.length = 2 * digest.length) :
    printDigest (front ++ c :: back) i digest =
      some (front ++ digest.flatMap hexByte ++ [if digest = [] then c else 0]) := by
  induction digest generalizing front back i c with
  | nil =>
    have hnil : back = [] := List.length_eq_zero_iff.mp hback
    simp [printDigest, hnil]
  | cons d digest ih =>
    have htwo : 2 ≤ back.length := by rw [hback, List.length_cons]; omega
    have hroom : 2 * i + 3 ≤ (front ++ c :: back).length := by
      rw [List.length_append, List.length_cons, hfront]
      omega
    have hdrop : (front ++ c :: back).drop (2 * i + 3) = back.drop 2 := by
      rw [← hfront, ← List.drop_drop, List.drop_left]
      rfl
    have hnext := ih (front ++ hexByte d) (back.drop 2) (i + 1) 0
      (by simp [hexByte, hfront]; omega) (by rw [List.length_drop, hback, List.length_cons]; omega)
    rw [printDigest, if_pos hroom, hdrop, ← hfront, List.take_left, hnext]
    simp

/-- `get_hash` has the digest of the timestamp and the password, whatever was in its context and in
the array for the result before, and it stays within their bounds. -/
theorem getHashOf_eq (env : Env) (mdContext : Context) {hash stamp pass : Bytes}
    (hhash : hash.length = 33) (hstamp : 0 ∉ stamp) (hpass : 0 ∉ pass)
    (hs : stamp.length + 64 ≤ 2 ^ 32) (hp : pass.length + 64 ≤ 2 ^ 32) (r r' : Bytes) :
    getHashOf mdContext hash (stamp ++ 0 :: r) (pass ++ 0 :: r') =
      some (getHash { env with md5 := Md5.md5 } stamp pass ++ [0]) := by
  have hs' := toNat_ofNat_length hs
  have hp' := toNat_ofNat_length hp
  obtain ⟨c1, hrun1, hc1⟩ := md5Update_represents (md5Init_represents mdContext)
    (stamp ++ 0 :: r) (UInt32.ofNat stamp.length) (by omega) (by simp [hs'])
  obtain ⟨c2, hrun2, hc2⟩ := md5Update_represents hc1
    (pass ++ 0 :: r') (UInt32.ofNat pass.length) (by omega) (by simp [hp'])
  rw [hs', hp', List.take_left, List.take_left, List.nil_append] at hc2
  obtain ⟨c, back, rfl⟩ := List.exists_cons_of_length_pos (by omega : 0 < hash.length)
  have hprint := printDigest_eq (digest (stamp ++ pass)) [] back 0 c rfl
    (by rw [length_digest]; simpa using hhash)
  simp only [getHashOf, strlen_eq hstamp, strlen_eq hpass, Option.bind_eq_bind, Option.bind_some,
    hrun1, hrun2, md5Final_eq hc2]
  rw [if_neg (digest_ne_nil _)] at hprint
  rw [getHash, ofFn_md5]
  exact hprint

/-- The digest is the only part of the environment that matters. -/
theorem getHashOf_tanstaaf :
    getHashOf zeroized (List.replicate 33 0xff) (bytes "<1@b>" ++ 0 :: bytes " hi")
        (bytes "tanstaaf" ++ [0]) =
      some (getHash ⟨Preferences.new ⟨0, 0⟩ 0, fun _ _ => 1, fun _ _ => true, Md5.md5⟩
        (bytes "<1@b>") (bytes "tanstaaf") ++ [0]) :=
  getHashOf_eq ⟨Preferences.new ⟨0, 0⟩ 0, fun _ _ => 1, fun _ _ => true, Md5.md5⟩ zeroized
    (by decide) (by decide) (by decide) (by decide) (by decide) _ _

end Apop

end Mailfilter
