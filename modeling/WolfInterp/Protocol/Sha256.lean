import Mathlib.Data.List.Forall2
import WolfInterp.Lib.Digits

/-!
# SHA-256

The digest of a text as the source computes it, on bytes and with the message schedule and the
working variables in place, and as FIPS 180-4 defines it: on bits, with a recursive schedule, and
with constants that are roots of primes.
-/

namespace WolfInterp.Sha256

open Digits

abbrev Byte := BitVec 8

abbrev Word := BitVec 32

/-! ## The source's digest -/

/-- `K`. -/
def k : List Word :=
  [0x428a2f98, 0x71374491, 0xb5c0fbcf, 0xe9b5dba5, 0x3956c25b, 0x59f111f1, 0x923f82a4, 0xab1c5ed5,
   0xd807aa98, 0x12835b01, 0x243185be, 0x550c7dc3, 0x72be5d74, 0x80deb1fe, 0x9bdc06a7, 0xc19bf174,
   0xe49b69c1, 0xefbe4786, 0x0fc19dc6, 0x240ca1cc, 0x2de92c6f, 0x4a7484aa, 0x5cb0a9dc, 0x76f988da,
   0x983e5152, 0xa831c66d, 0xb00327c8, 0xbf597fc7, 0xc6e00bf3, 0xd5a79147, 0x06ca6351, 0x14292967,
   0x27b70a85, 0x2e1b2138, 0x4d2c6dfc, 0x53380d13, 0x650a7354, 0x766a0abb, 0x81c2c92e, 0x92722c85,
   0xa2bfe8a1, 0xa81a664b, 0xc24b8b70, 0xc76c51a3, 0xd192e819, 0xd6990624, 0xf40e3585, 0x106aa070,
   0x19a4c116, 0x1e376c08, 0x2748774c, 0x34b0bcb5, 0x391c0cb3, 0x4ed8aa4a, 0x5b9cca4f, 0x682e6ff3,
   0x748f82ee, 0x78a5636f, 0x84c87814, 0x8cc70208, 0x90befffa, 0xa4506ceb, 0xbef9a3f7, 0xc67178f2]

/-- Eight words: the state, and the working variables. -/
@[ext]
structure Working where
  (a b c d e f g h : Word)

def initial : Working :=
  ⟨0x6a09e667, 0xbb67ae85, 0x3c6ef372, 0xa54ff53a, 0x510e527f, 0x9b05688c, 0x1f83d9ab, 0x5be0cd19⟩

/-- `slice::chunks_exact`. -/
def chunksExact {α : Type} (size : Nat) (items : List α) : List (List α) :=
  (List.range (items.length / size)).map fun i => (items.drop (size * i)).take size

/-- `u32::from_be_bytes`. -/
def fromBeBytes (bytes : List Byte) : Word := BitVec.ofNat 32 (value 256 (bytes.map BitVec.toNat))

/-- Zeros up to the place of the length. -/
def pushZeros (message : List Byte) : List Byte :=
  if message.length % 64 = 56 then message else pushZeros (message ++ [0])
termination_by (120 - message.length % 64) % 64
decreasing_by
  rw [List.length_append, List.length_singleton]
  omega

/-- The padded message: 0x80, zeros, and the length in bits as a big-endian `u64`. -/
def padded (bytes : List Byte) : List Byte :=
  pushZeros (bytes ++ [0x80]) ++ (digits 256 8 (bytes.length * 8 % 2 ^ 64)).map (BitVec.ofNat 8)

def load (chunk : List Byte) (i : Nat) : Word := ((chunksExact 4 chunk)[i]?).elim 0 fromBeBytes

/-- One word of the message schedule. -/
def extend (w : Nat → Word) (i : Nat) : Nat → Word :=
  let s0 := (w (i - 15)).rotateRight 7 ^^^ (w (i - 15)).rotateRight 18 ^^^ w (i - 15) >>> 3
  let s1 := (w (i - 2)).rotateRight 17 ^^^ (w (i - 2)).rotateRight 19 ^^^ w (i - 2) >>> 10
  Function.update w i (w (i - 16) + s0 + w (i - 7) + s1)

/-- One round of the compression. -/
def round (w : Nat → Word) (v : Working) (i : Nat) : Working :=
  let s1 := v.e.rotateRight 6 ^^^ v.e.rotateRight 11 ^^^ v.e.rotateRight 25
  let ch := (v.e &&& v.f) ^^^ (~~~v.e &&& v.g)
  let t1 := v.h + s1 + ch + k.getD i 0 + w i
  let s0 := v.a.rotateRight 2 ^^^ v.a.rotateRight 13 ^^^ v.a.rotateRight 22
  let maj := (v.a &&& v.b) ^^^ (v.a &&& v.c) ^^^ (v.b &&& v.c)
  let t2 := s0 + maj
  ⟨t1 + t2, v.a, v.b, v.c, v.d + t1, v.e, v.f, v.g⟩

def Working.add (state v : Working) : Working :=
  ⟨state.a + v.a, state.b + v.b, state.c + v.c, state.d + v.d, state.e + v.e, state.f + v.f,
    state.g + v.g, state.h + v.h⟩

def block (state : Working) (chunk : List Byte) : Working :=
  let w := (List.range' 16 48).foldl extend (load chunk)
  state.add ((List.range 64).foldl (round w) state)

def Working.words (v : Working) : List Word := [v.a, v.b, v.c, v.d, v.e, v.f, v.g, v.h]

/-- The lowercase-hex SHA-256 of `bytes`. -/
def hex (bytes : List Byte) : List Char :=
  ((chunksExact 64 (padded bytes)).foldl block initial).words.flatMap fun word =>
    (digits 16 8 word.toNat).map Nat.digitChar

/-! ## The standard's digest -/

namespace Fips

/-- The primes below 312, which are the first sixty-four: each is divided by none before it. -/
def primes : List Nat :=
  (List.range' 2 310).foldl (fun found p =>
    if found.any fun q => p % q = 0 then found else found ++ [p]) []

/-- The first thirty-two bits of the fractional part of a root. -/
def rootBits (power radicand : Nat) : Word :=
  let scaled := radicand * 2 ^ (32 * power)
  BitVec.ofNat 32 (Nat.findGreatest (fun root => root ^ power ≤ scaled) scaled)

/-- The constants `K`, from cube roots. -/
def constants : List Word := primes.map (rootBits 3)

/-- The initial hash value, from square roots. -/
def initialHash : Working :=
  let h j := ((primes.take 8).map (rootBits 2)).getD j 0
  ⟨h 0, h 1, h 2, h 3, h 4, h 5, h 6, h 7⟩

def rotr (n : Nat) (x : Word) : Word := x >>> n ||| x <<< (32 - n)

def ch (x y z : Word) : Word := (x &&& y) ^^^ (~~~x &&& z)

def maj (x y z : Word) : Word := (x &&& y) ^^^ (x &&& z) ^^^ (y &&& z)

def sum0 (x : Word) : Word := rotr 2 x ^^^ rotr 13 x ^^^ rotr 22 x

def sum1 (x : Word) : Word := rotr 6 x ^^^ rotr 11 x ^^^ rotr 25 x

def sigma0 (x : Word) : Word := rotr 7 x ^^^ rotr 18 x ^^^ x >>> 3

def sigma1 (x : Word) : Word := rotr 17 x ^^^ rotr 19 x ^^^ x >>> 10

/-- The least `k` with `l + 1 + k` congruent to 448 modulo 512. -/
def zeros (l : Nat) : Nat := (959 - l % 512) % 512

/-- A message of bits: a one, zeros, and the length in sixty-four bits. -/
def padded (message : List Nat) : List Nat :=
  message ++ 1 :: (List.replicate (zeros message.length) 0 ++ digits 2 64 message.length)

/-- A word of a block of a padded message. -/
def blockWord (bits : List Nat) (i j : Nat) : Word :=
  BitVec.ofNat 32 (value 2 ((bits.drop (512 * i + 32 * j)).take 32))

/-- The message schedule of a block. -/
def schedule (m : Nat → Word) (t : Nat) : Word :=
  if t < 16 then m t
  else sigma1 (schedule m (t - 2)) + schedule m (t - 7) + sigma0 (schedule m (t - 15)) +
    schedule m (t - 16)

def step (w : Nat → Word) (v : Working) (t : Nat) : Working :=
  let t1 := v.h + sum1 v.e + ch v.e v.f v.g + constants.getD t 0 + w t
  let t2 := sum0 v.a + maj v.a v.b v.c
  { h := v.g, g := v.f, f := v.e, e := v.d + t1, d := v.c, c := v.b, b := v.a, a := t1 + t2 }

/-- The hash value behind a block. -/
def compress (bits : List Nat) (hash : Working) (i : Nat) : Working :=
  ((List.range 64).foldl (step (schedule (blockWord bits i))) hash).add hash

/-- The digest of a message of bits, as one number of 256 bits. -/
def digest (message : List Nat) : Nat :=
  let bits := padded message
  value (2 ^ 32) (((List.range (bits.length / 512)).foldl (compress bits) initialHash).words.map
    BitVec.toNat)

end Fips

/-! ## The constants -/

/-- A word follows the whole part of a root. -/
def IsRoot (power radicand : Nat) (word : Word) : Prop :=
  ∃ whole < 20, (whole * 2 ^ 32 + word.toNat) ^ power ≤ radicand * 2 ^ (32 * power) ∧
    radicand * 2 ^ (32 * power) < (whole * 2 ^ 32 + word.toNat + 1) ^ power

instance {power radicand : Nat} {word : Word} : Decidable (IsRoot power radicand word) :=
  inferInstanceAs (Decidable (∃ whole < 20, _ ∧ _))

theorem rootBits_eq {power radicand : Nat} {word : Word} (positive : power ≠ 0)
    (root : IsRoot power radicand word) : Fips.rootBits power radicand = word := by
  obtain ⟨whole, _, low, high⟩ := root
  have greatest : Nat.findGreatest (fun root => root ^ power ≤ radicand * 2 ^ (32 * power))
      (radicand * 2 ^ (32 * power)) = whole * 2 ^ 32 + word.toNat := by
    rw [Nat.findGreatest_eq_iff]
    refine ⟨(Nat.le_self_pow positive _).trans low, fun _ => low, fun more above _ => ?_⟩
    exact not_le.mpr (high.trans_le (Nat.pow_le_pow_left above power))
  rw [Fips.rootBits, greatest]
  apply BitVec.eq_of_toNat_eq
  rw [BitVec.toNat_ofNat, Nat.mul_add_mod_self_right, Nat.mod_eq_of_lt word.isLt]

theorem map_rootBits {power : Nat} (positive : power ≠ 0) {radicands : List Nat} {words : List Word}
    (roots : List.Forall₂ (IsRoot power) radicands words) :
    radicands.map (Fips.rootBits power) = words := by
  rw [← List.forall₂_eq_eq_eq, List.forall₂_map_left_iff]
  exact roots.imp fun _ _ => rootBits_eq positive

theorem constants_eq : Fips.constants = k :=
  map_rootBits (by decide) (by decide +kernel)

theorem initialHash_eq : Fips.initialHash = initial := by
  have roots : (Fips.primes.take 8).map (Fips.rootBits 2) = initial.words :=
    map_rootBits (by decide) (by decide +kernel)
  rw [Fips.initialHash, roots]
  rfl

/-! ## The schedule and the rounds -/

theorem rotateRight_eq {n : Nat} (short : n < 32) (x : Word) : x.rotateRight n = Fips.rotr n x :=
  BitVec.rotateRight_eq_rotateRightAux_of_lt short

/-- The schedule in place holds the words of the recursion. -/
theorem extend_schedule {w m : Nat → Word} (loaded : ∀ t < 16, w t = m t) (count : Nat) :
    ∀ t < 16 + count, (List.range' 16 count).foldl extend w t = Fips.schedule m t := by
  induction count with
  | zero =>
    intro t early
    rw [Fips.schedule, if_pos early]
    exact loaded t early
  | succ count induction =>
    intro t within
    rw [List.range'_concat, List.foldl_append, List.foldl_cons, List.foldl_nil, Nat.one_mul, extend]
    obtain before | rfl : t < 16 + count ∨ t = 16 + count := by omega
    · rw [Function.update_of_ne (by omega)]
      exact induction t before
    · have recursion : Fips.schedule m (16 + count) =
          Fips.sigma1 (Fips.schedule m (16 + count - 2)) + Fips.schedule m (16 + count - 7) +
            Fips.sigma0 (Fips.schedule m (16 + count - 15)) +
            Fips.schedule m (16 + count - 16) := by
        rw [Fips.schedule, if_neg (by omega)]
      rw [Function.update_self, recursion, induction (16 + count - 15) (by omega),
        induction (16 + count - 2) (by omega), induction (16 + count - 7) (by omega),
        induction (16 + count - 16) (by omega), rotateRight_eq (by decide),
        rotateRight_eq (by decide), rotateRight_eq (by decide), rotateRight_eq (by decide),
        Fips.sigma0, Fips.sigma1]
      ac_rfl

theorem round_eq {w schedule : Nat → Word} {t : Nat} (same : w t = schedule t) (v : Working) :
    round w v t = Fips.step schedule v t := by
  simp only [round, Fips.step, Fips.sum0, Fips.sum1, Fips.ch, Fips.maj, constants_eq, same,
    rotateRight_eq (show 2 < 32 by decide), rotateRight_eq (show 6 < 32 by decide),
    rotateRight_eq (show 11 < 32 by decide), rotateRight_eq (show 13 < 32 by decide),
    rotateRight_eq (show 22 < 32 by decide), rotateRight_eq (show 25 < 32 by decide)]

/-! ## Bytes and bits -/

/-- The bits of bytes. -/
def bits (bytes : List Byte) : List Nat := (bytes.map BitVec.toNat).flatMap (digits 2 8)

theorem bits_append (front back : List Byte) : bits (front ++ back) = bits front ++ bits back := by
  rw [bits, List.map_append, List.flatMap_append, bits, bits]

theorem bits_cons (byte : Byte) (rest : List Byte) :
    bits (byte :: rest) = digits 2 8 byte.toNat ++ bits rest := rfl

@[simp]
theorem length_bits (bytes : List Byte) : (bits bytes).length = 8 * bytes.length := by
  induction bytes with
  | nil => rfl
  | cons byte rest induction =>
    rw [bits_cons, List.length_append, length_digits, induction, List.length_cons]
    omega

theorem slice_bits {bytes : List Byte} {start count : Nat}
    (within : start + count ≤ bytes.length) :
    ((bits bytes).drop (8 * start)).take (8 * count) = bits ((bytes.drop start).take count) := by
  have split : bits bytes = bits (bytes.take start) ++
      (bits ((bytes.drop start).take count) ++ bits ((bytes.drop start).drop count)) := by
    rw [← bits_append, List.take_append_drop, ← bits_append, List.take_append_drop]
  rw [split, List.drop_left' (by simp; omega), List.take_left' (by simp; omega)]

theorem fromBeBytes_eq (bytes : List Byte) :
    fromBeBytes bytes = BitVec.ofNat 32 (value 2 (bits bytes)) := by
  have small : ∀ digit ∈ bytes.map BitVec.toNat, digit < 2 ^ 8 := by
    intro digit member
    obtain ⟨byte, _, rfl⟩ := List.mem_map.mp member
    exact byte.isLt
  rw [bits, value_group small]
  rfl

/-! ## The padding -/

theorem pushZeros_eq (message : List Byte) : pushZeros message =
    message ++ List.replicate ((120 - message.length % 64) % 64) 0 := by
  fun_induction pushZeros message with
  | case1 message full => simp [full]
  | case2 message short induction =>
    have fewer : (120 - message.length % 64) % 64 =
        (120 - (message.length + 1) % 64) % 64 + 1 := by
      omega
    rw [induction, List.length_append, List.length_singleton, fewer, List.replicate_succ,
      List.append_assoc, List.singleton_append]

theorem bits_replicate (count : Nat) :
    bits (List.replicate count 0) = List.replicate (8 * count) 0 := by
  induction count with
  | zero => rfl
  | succ count induction =>
    rw [List.replicate_succ, bits_cons, induction, Nat.mul_succ, Nat.add_comm, List.replicate_add]
    rfl

theorem bits_digits (width number : Nat) :
    bits ((digits 256 width number).map (BitVec.ofNat 8)) = digits 2 (8 * width) number := by
  have bytes : ∀ spelled : List Nat, bits (spelled.map (BitVec.ofNat 8)) =
      spelled.flatMap (digits 2 8) := by
    intro spelled
    induction spelled with
    | nil => rfl
    | cons digit rest induction =>
      rw [List.map_cons, bits_cons, induction, BitVec.toNat_ofNat, digits_mod, List.flatMap_cons]
  rw [bytes, digits_group]
  rfl

/-- The padded bytes are the padded bits. -/
theorem bits_padded {bytes : List Byte} (short : bytes.length < 2 ^ 61) :
    bits (padded bytes) = Fips.padded (bits bytes) := by
  have whole : bytes.length * 8 % 2 ^ 64 = 8 * bytes.length := by omega
  have zeros : Fips.zeros (8 * bytes.length) = 7 + 8 * ((120 - (bytes.length + 1) % 64) % 64) := by
    rw [Fips.zeros]
    omega
  rw [padded, pushZeros_eq, bits_append, bits_append, bits_append, bits_replicate, bits_digits,
    whole, List.length_append, List.length_singleton, Fips.padded, length_bits, zeros,
    List.replicate_add, List.append_assoc, List.append_assoc, List.append_assoc]
  rfl

/-! ## The blocks -/

theorem load_eq {bytes : List Byte} {i j : Nat} (inside : i < bytes.length / 64) (early : j < 16) :
    load ((bytes.drop (64 * i)).take 64) j = Fips.blockWord (bits bytes) i j := by
  have chunk : ((bytes.drop (64 * i)).take 64).length = 64 := by
    rw [List.length_take, List.length_drop]
    omega
  have word : (((bytes.drop (64 * i)).take 64).drop (4 * j)).take 4 =
      (bytes.drop (64 * i + 4 * j)).take 4 := by
    rw [List.drop_take, List.take_take, List.drop_drop, min_eq_left (by omega)]
  have place : 512 * i + 32 * j = 8 * (64 * i + 4 * j) := by omega
  rw [load, chunksExact, List.getElem?_map, chunk, List.getElem?_range early, Option.map_some,
    Option.elim_some, word, fromBeBytes_eq, Fips.blockWord, place, ← slice_bits (by omega)]

theorem block_eq {bytes : List Byte} {i : Nat} (inside : i < bytes.length / 64) (state : Working) :
    block state ((bytes.drop (64 * i)).take 64) = Fips.compress (bits bytes) state i := by
  have scheduled := extend_schedule (fun t early => load_eq inside early) 48
  have rounds : (List.range 64).foldl
      (round ((List.range' 16 48).foldl extend (load ((bytes.drop (64 * i)).take 64)))) state =
      (List.range 64).foldl (Fips.step (Fips.schedule (Fips.blockWord (bits bytes) i))) state := by
    refine List.foldl_ext _ _ _ fun v t member => ?_
    exact round_eq (scheduled t (List.mem_range.mp member)) v
  rw [block, rounds, Fips.compress, Working.add, Working.add]
  ext1 <;> exact BitVec.add_comm ..

/-- For every text whose length in bits is a 64-bit word, the source's digest is the lowercase
hexadecimal of the standard's. -/
theorem hex_eq (bytes : List Byte) (short : bytes.length < 2 ^ 61) :
    hex bytes = (digits 16 64 (Fips.digest (bits bytes))).map Nat.digitChar := by
  have count : (bits (padded bytes)).length / 512 = (padded bytes).length / 64 := by
    rw [length_bits]
    omega
  have hashed : (chunksExact 64 (padded bytes)).foldl block initial =
      (List.range ((bits (padded bytes)).length / 512)).foldl
        (Fips.compress (bits (padded bytes))) Fips.initialHash := by
    rw [chunksExact, List.foldl_map, initialHash_eq, count]
    refine List.foldl_ext _ _ _ fun state i member => ?_
    exact block_eq (List.mem_range.mp member) state
  have small : ∀ v : Working, ∀ digit ∈ v.words.map BitVec.toNat, digit < 2 ^ 32 := by
    intro v digit member
    obtain ⟨word, _, rfl⟩ := List.mem_map.mp member
    exact word.isLt
  have grouped : ∀ v : Working, digits 16 64 (value (2 ^ 32) (v.words.map BitVec.toNat)) =
      (v.words.map BitVec.toNat).flatMap (digits 16 8) :=
    fun v => (digits_group 8 8 _).trans (congrArg _ (digits_value (small v)))
  rw [hex, hashed, Fips.digest, ← bits_padded short, grouped, List.map_flatMap, List.flatMap_map]

/-- A text of 56 bytes, whose padding takes a second block. -/
def overBlock : List Byte :=
  "abcdbcdecdefdefgefghfghighijhijkijkljklmklmnlmnomnopnopq".toList.map fun c =>
    BitVec.ofNat 8 c.toNat

theorem hex_eq_overBlock :
    hex overBlock = (digits 16 64 (Fips.digest (bits overBlock))).map Nat.digitChar :=
  hex_eq overBlock (by decide)

end WolfInterp.Sha256
