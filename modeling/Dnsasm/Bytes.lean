import Dnsasm.Run

/-!
# Byte order

`bswap16` and `bswap32` of `dnsasm.c` (lines 17-27), and the raw `uint16_t` and `uint32_t` loads and
stores the file makes through cast pointers. `dnsasm.h` targets System V AMD64 and ARM64, both
little-endian, so a load takes byte `i` as its low byte. On those hosts a load followed by a swap reads
the big-endian field the wire format holds (`read16_of_le`, `read32_of_le`), and a swap followed by a
store writes it (`be16_store16_bswap16`, `be32_store32_bswap32`).

C evaluates the swaps after integer promotion and truncates the result on return; we compute in `Nat`
and truncate where C does. The arithmetic facts rest on two bit lemmas proved by `testBit`
extensionality: a mask shifted left picks a shifted field (`and_shiftLeft`), and an `or` of disjoint
fields is their sum (`or_mul_pow_eq_add`).
-/

namespace Dnsasm

/-! ## Bit lemmas -/

lemma and_shiftLeft (y m n : Nat) : y &&& m <<< n = ((y >>> n) &&& m) <<< n := by
  apply Nat.eq_of_testBit_eq
  intro j
  simp only [Nat.testBit_and, Nat.testBit_shiftLeft, Nat.testBit_shiftRight]
  by_cases h : n ≤ j
  · simp [h, Nat.add_sub_cancel' h]
  · simp [show ¬ j ≥ n by omega]

lemma or_mul_pow_eq_add {a b n : Nat} (hb : b < 2 ^ n) : b ||| a * 2 ^ n = b + a * 2 ^ n := by
  apply Nat.eq_of_testBit_eq
  intro j
  rw [Nat.testBit_or, ← Nat.shiftLeft_eq, Nat.testBit_shiftLeft, Nat.shiftLeft_eq, Nat.add_comm,
    Nat.mul_comm, Nat.testBit_mul_pow_two_add a hb]
  by_cases h : j < n
  · simp [h, Nat.not_le.mpr h]
  · have hbj : b < 2 ^ j := Nat.lt_of_lt_of_le hb (Nat.pow_le_pow_right (by decide) (by omega))
    simp [h, Nat.testBit_lt_two_pow hbj, show j ≥ n by omega]

/-! ## The swaps -/

/-- `bswap16` (`dnsasm.c`, line 17): `(x >> 8) | (x << 8)`, returned as `uint16_t`. -/
def bswap16 (x : Nat) : Nat := ((x >>> 8) ||| (x <<< 8)) % 2 ^ 16

/-- `bswap32` (`dnsasm.c`, line 22): the four masked shifts of lines 23-26. -/
def bswap32 (x : Nat) : Nat :=
  ((x >>> 24) &&& 0xff) ||| ((x >>> 8) &&& 0xff00) ||| ((x <<< 8) &&& 0xff0000) |||
    ((x <<< 24) &&& 0xff000000)

@[simp] lemma uint8_toNat_ofNat (n : Nat) : (UInt8.ofNat n).toNat = n % 2 ^ 8 := BitVec.toNat_ofNat ..

@[simp] lemma uint16_toNat_ofNat (n : Nat) : (UInt16.ofNat n).toNat = n % 2 ^ 16 :=
  BitVec.toNat_ofNat ..

@[simp] lemma uint32_toNat_ofNat (n : Nat) : (UInt32.ofNat n).toNat = n % 2 ^ 32 :=
  BitVec.toNat_ofNat ..

lemma uint8_toNat_lt (b : UInt8) : b.toNat < 2 ^ 8 := b.toNat_lt_size

@[simp] lemma uint8_ofNat_toNat (b : UInt8) : UInt8.ofNat b.toNat = b := by
  apply UInt8.toNat.inj
  simp [UInt8.toNat, UInt8.ofNat]

@[simp] lemma uint32_ofNat_toNat (x : UInt32) : UInt32.ofNat x.toNat = x := by
  apply UInt32.toNat.inj
  simp [UInt32.toNat, UInt32.ofNat]

lemma and_ff (y : Nat) : y &&& 0xff = y % 2 ^ 8 := Nat.and_pow_two_sub_one_eq_mod y 8

lemma bswap16_eq {x : Nat} (hx : x < 2 ^ 16) : bswap16 x = x % 2 ^ 8 * 2 ^ 8 + x / 2 ^ 8 := by
  rw [bswap16, Nat.shiftRight_eq_div_pow, Nat.shiftLeft_eq, or_mul_pow_eq_add (by omega)]
  omega

/-- Splitting a number at its low byte. -/
lemma add_mul_mod_byte {lo : Nat} (hi : Nat) (h : lo < 2 ^ 8) : (lo + hi * 2 ^ 8) % 2 ^ 8 = lo := by
  rw [Nat.add_mul_mod_self_right, Nat.mod_eq_of_lt h]

lemma add_mul_div_byte {lo : Nat} (hi : Nat) (h : lo < 2 ^ 8) : (lo + hi * 2 ^ 8) / 2 ^ 8 = hi := by
  rw [Nat.add_mul_div_right _ _ (Nat.two_pow_pos 8), Nat.div_eq_of_lt h, Nat.zero_add]

lemma shiftRight_16 (x : Nat) : x >>> 16 = x / 2 ^ 8 / 2 ^ 8 := by
  rw [show 16 = 8 + 8 from rfl, Nat.shiftRight_add]
  simp only [Nat.shiftRight_eq_div_pow]

lemma shiftRight_24 (x : Nat) : x >>> 24 = x / 2 ^ 8 / 2 ^ 8 / 2 ^ 8 := by
  rw [show 24 = 8 + 8 + 8 from rfl, Nat.shiftRight_add, Nat.shiftRight_add]
  simp only [Nat.shiftRight_eq_div_pow]

/-- `bswap32` puts the four bytes of `x`, low byte first, in reverse order. -/
lemma bswap32_eq (x : Nat) :
    bswap32 x = x % 2 ^ 8 * 2 ^ 24 + x / 2 ^ 8 % 2 ^ 8 * 2 ^ 16 + x / 2 ^ 8 / 2 ^ 8 % 2 ^ 8 * 2 ^ 8 +
      x / 2 ^ 8 / 2 ^ 8 / 2 ^ 8 % 2 ^ 8 := by
  have h2 : (x >>> 8) &&& 0xff00 = x / 2 ^ 8 / 2 ^ 8 % 2 ^ 8 * 2 ^ 8 := by
    rw [show (0xff00 : Nat) = 0xff <<< 8 from rfl, and_shiftLeft, and_ff]
    simp only [Nat.shiftRight_eq_div_pow, Nat.shiftLeft_eq]
  have h3 : (x <<< 8) &&& 0xff0000 = x / 2 ^ 8 % 2 ^ 8 * 2 ^ 16 := by
    rw [show (0xff0000 : Nat) = 0xff <<< 16 from rfl, and_shiftLeft, and_ff,
      show x <<< 8 >>> 16 = x <<< 8 >>> 8 >>> 8 from Nat.shiftRight_add _ 8 8, Nat.shiftLeft_shiftRight]
    simp only [Nat.shiftRight_eq_div_pow, Nat.shiftLeft_eq]
  have h4 : (x <<< 24) &&& 0xff000000 = x % 2 ^ 8 * 2 ^ 24 := by
    rw [show (0xff000000 : Nat) = 0xff <<< 24 from rfl, and_shiftLeft, and_ff, Nat.shiftLeft_shiftRight,
      Nat.shiftLeft_eq]
  rw [bswap32, and_ff, shiftRight_24, h2, h3, h4]
  simp (disch := omega) only [or_mul_pow_eq_add]
  omega

/-- `bswap16` exchanges the two bytes of a 16-bit value. -/
lemma bswap16_bytes {lo hi : Nat} (hlo : lo < 2 ^ 8) (hhi : hi < 2 ^ 8) :
    bswap16 (lo + hi * 2 ^ 8) = lo * 2 ^ 8 + hi := by
  rw [bswap16_eq (by omega), add_mul_mod_byte _ hlo, add_mul_div_byte _ hlo]

/-- `bswap32` reverses the four bytes of a 32-bit value. -/
lemma bswap32_bytes {b0 b1 b2 b3 : Nat} (h0 : b0 < 2 ^ 8) (h1 : b1 < 2 ^ 8) (h2 : b2 < 2 ^ 8)
    (h3 : b3 < 2 ^ 8) :
    bswap32 (b0 + b1 * 2 ^ 8 + b2 * 2 ^ 16 + b3 * 2 ^ 24) =
      b0 * 2 ^ 24 + b1 * 2 ^ 16 + b2 * 2 ^ 8 + b3 := by
  rw [show b0 + b1 * 2 ^ 8 + b2 * 2 ^ 16 + b3 * 2 ^ 24 = b0 + (b1 + (b2 + b3 * 2 ^ 8) * 2 ^ 8) * 2 ^ 8
    by ring, bswap32_eq, add_mul_div_byte _ h0, add_mul_div_byte _ h1, add_mul_div_byte _ h2,
    add_mul_mod_byte _ h0, add_mul_mod_byte _ h1, add_mul_mod_byte _ h2, Nat.mod_eq_of_lt h3]

/-! ## Loads and stores on a little-endian host -/

/-- The value of byte `i` of `p`, `0` past its end. -/
def byteAt (p : List UInt8) (i : Nat) : Nat := (p[i]?.getD 0).toNat

/-- The big-endian 16-bit field at byte `i` of `p`. -/
def be16 (p : List UInt8) (i : Nat) : Nat := byteAt p i * 2 ^ 8 + byteAt p (i + 1)

/-- The big-endian 32-bit field at byte `i` of `p`. -/
def be32 (p : List UInt8) (i : Nat) : Nat :=
  byteAt p i * 2 ^ 24 + byteAt p (i + 1) * 2 ^ 16 + byteAt p (i + 2) * 2 ^ 8 + byteAt p (i + 3)

/-- The two bytes of a 16-bit field in wire order: its high byte, then its low byte. -/
def beBytes16 (v : Nat) : List UInt8 := [UInt8.ofNat (v / 2 ^ 8), UInt8.ofNat (v % 2 ^ 8)]

/-- `*(const uint16_t *)(p + i)`: byte `i` is the low byte. -/
def load16 (p : List UInt8) (i : Nat) : Run Nat := do
  let b0 ← Run.load p i
  let b1 ← Run.load p (i + 1)
  pure (b0.toNat + b1.toNat * 2 ^ 8)

/-- `*(const uint32_t *)(p + i)`: byte `i` is the low byte. -/
def load32 (p : List UInt8) (i : Nat) : Run Nat := do
  let b0 ← Run.load p i
  let b1 ← Run.load p (i + 1)
  let b2 ← Run.load p (i + 2)
  let b3 ← Run.load p (i + 3)
  pure (b0.toNat + b1.toNat * 2 ^ 8 + b2.toNat * 2 ^ 16 + b3.toNat * 2 ^ 24)

/-- `bswap16(*(const uint16_t *)(p + i))`: how the decoders read a 16-bit field. -/
def read16 (p : List UInt8) (i : Nat) : Run Nat := do
  let v ← load16 p i
  pure (bswap16 v)

/-- `bswap32(*(const uint32_t *)(p + i))`: how `dnsasm_parse_rr` reads the TTL. -/
def read32 (p : List UInt8) (i : Nat) : Run Nat := do
  let v ← load32 p i
  pure (bswap32 v)

/-- `*(uint16_t *)out = v`: the two bytes written, low byte first. -/
def store16 (v : Nat) : List UInt8 := [UInt8.ofNat v, UInt8.ofNat (v >>> 8)]

/-- `*(uint32_t *)out = v`: the four bytes written, low byte first. -/
def store32 (v : Nat) : List UInt8 :=
  [UInt8.ofNat v, UInt8.ofNat (v >>> 8), UInt8.ofNat (v >>> 16), UInt8.ofNat (v >>> 24)]

@[simp] lemma store16_length (v : Nat) : (store16 v).length = 2 := rfl

@[simp] lemma store32_length (v : Nat) : (store32 v).length = 4 := rfl

lemma byteAt_of_lt {p : List UInt8} {i : Nat} (h : i < p.length) : byteAt p i = p[i].toNat := by
  simp [byteAt, List.getElem?_eq_getElem h]

lemma byteAt_lt (p : List UInt8) (i : Nat) : byteAt p i < 2 ^ 8 := uint8_toNat_lt _

lemma be16_lt (p : List UInt8) (i : Nat) : be16 p i < 2 ^ 16 := by
  have := byteAt_lt p i
  have := byteAt_lt p (i + 1)
  simp only [be16]
  omega

lemma be32_lt (p : List UInt8) (i : Nat) : be32 p i < 2 ^ 32 := by
  have := byteAt_lt p i
  have := byteAt_lt p (i + 1)
  have := byteAt_lt p (i + 2)
  have := byteAt_lt p (i + 3)
  simp only [be32]
  omega

@[simp] lemma byteAt_append_length (p q : List UInt8) (i : Nat) :
    byteAt (p ++ q) (p.length + i) = byteAt q i := by
  simp [byteAt, List.getElem?_append_right, Nat.add_sub_cancel_left]

lemma byteAt_append_of_lt {p : List UInt8} (q : List UInt8) {i : Nat} (h : i < p.length) :
    byteAt (p ++ q) i = byteAt p i := by
  simp [byteAt, List.getElem?_append_left h]

lemma byteAt_append_of_le {p : List UInt8} (q : List UInt8) {i : Nat} (h : p.length ≤ i) :
    byteAt (p ++ q) i = byteAt q (i - p.length) := by
  simp [byteAt, List.getElem?_append_right h]

lemma byteAt_drop (p : List UInt8) (i j : Nat) : byteAt (p.drop i) j = byteAt p (i + j) := by
  simp [byteAt, List.getElem?_drop]

lemma be16_drop (p : List UInt8) (i j : Nat) : be16 (p.drop i) j = be16 p (i + j) := by
  simp only [be16, byteAt_drop, Nat.add_assoc]

/-- A field read after the end of `p` is read from what follows it. -/
lemma be16_append_of_le {p : List UInt8} (q : List UInt8) {i : Nat} (h : p.length ≤ i) :
    be16 (p ++ q) i = be16 q (i - p.length) := by
  rw [be16, be16, byteAt_append_of_le q h, byteAt_append_of_le q (by omega), Nat.sub_add_comm h]

lemma be32_append_of_le {p : List UInt8} (q : List UInt8) {i : Nat} (h : p.length ≤ i) :
    be32 (p ++ q) i = be32 q (i - p.length) := by
  rw [be32, be32, byteAt_append_of_le q h, byteAt_append_of_le q (by omega),
    byteAt_append_of_le q (by omega), byteAt_append_of_le q (by omega), Nat.sub_add_comm h,
    Nat.sub_add_comm h, Nat.sub_add_comm h]

/-- A field read inside `p` is read from `p`. -/
lemma be16_append_of_lt {p : List UInt8} (q : List UInt8) {i : Nat} (h : i + 2 ≤ p.length) :
    be16 (p ++ q) i = be16 p i := by
  rw [be16, be16, byteAt_append_of_lt q (by omega), byteAt_append_of_lt q (by omega)]

lemma be32_append_of_lt {p : List UInt8} (q : List UInt8) {i : Nat} (h : i + 4 ≤ p.length) :
    be32 (p ++ q) i = be32 p i := by
  rw [be32, be32, byteAt_append_of_lt q (by omega), byteAt_append_of_lt q (by omega),
    byteAt_append_of_lt q (by omega), byteAt_append_of_lt q (by omega)]

lemma read16_of_le {p : List UInt8} {i : Nat} (h : i + 2 ≤ p.length) :
    read16 p i = .ok (be16 p i) := by
  simp only [read16, load16, Run.load_of_lt (show i < p.length by omega),
    Run.load_of_lt (show i + 1 < p.length by omega), Run.ok_bind, Run.pure_def, be16,
    byteAt_of_lt (show i < p.length by omega), byteAt_of_lt (show i + 1 < p.length by omega),
    bswap16_bytes (uint8_toNat_lt _) (uint8_toNat_lt _)]

lemma read32_of_le {p : List UInt8} {i : Nat} (h : i + 4 ≤ p.length) :
    read32 p i = .ok (be32 p i) := by
  simp only [read32, load32, Run.load_of_lt (show i < p.length by omega),
    Run.load_of_lt (show i + 1 < p.length by omega), Run.load_of_lt (show i + 2 < p.length by omega),
    Run.load_of_lt (show i + 3 < p.length by omega), Run.ok_bind, Run.pure_def, be32,
    byteAt_of_lt (show i < p.length by omega), byteAt_of_lt (show i + 1 < p.length by omega),
    byteAt_of_lt (show i + 2 < p.length by omega), byteAt_of_lt (show i + 3 < p.length by omega),
    bswap32_bytes (uint8_toNat_lt _) (uint8_toNat_lt _) (uint8_toNat_lt _) (uint8_toNat_lt _)]

@[simp] lemma beBytes16_length (v : Nat) : (beBytes16 v).length = 2 := rfl

/-- On a little-endian host, `*(uint16_t *)out = bswap16(v)` writes `v` big-endian. -/
lemma store16_bswap16 {v : Nat} (hv : v < 2 ^ 16) : store16 (bswap16 v) = beBytes16 v := by
  have hhi : v / 2 ^ 8 < 2 ^ 8 := by omega
  rw [store16, beBytes16, bswap16_eq hv, Nat.shiftRight_eq_div_pow, Nat.add_comm (v % 2 ^ 8 * 2 ^ 8),
    add_mul_div_byte _ hhi]
  congr 1
  apply UInt8.toNat.inj
  rw [uint8_toNat_ofNat, uint8_toNat_ofNat, add_mul_mod_byte _ hhi, Nat.mod_eq_of_lt hhi]

/-- A field written big-endian reads back. -/
lemma be16_beBytes16 {v : Nat} (hv : v < 2 ^ 16) (rest : List UInt8) :
    be16 (beBytes16 v ++ rest) 0 = v := by
  simp only [be16, byteAt, beBytes16, List.cons_append, List.getElem?_cons_zero,
    List.getElem?_cons_succ, Option.getD_some, uint8_toNat_ofNat, Nat.mod_mod]
  omega

/-- A field read big-endian and written back is the two bytes it was read from. -/
lemma beBytes16_be16 {p : List UInt8} {i : Nat} (h : i + 2 ≤ p.length) :
    beBytes16 (be16 p i) = (p.drop i).take 2 := by
  have h0 : i < p.length := by omega
  have h1 : i + 1 < p.length := by omega
  rw [List.drop_eq_getElem_cons h0, List.drop_eq_getElem_cons h1, be16, byteAt_of_lt h0,
    byteAt_of_lt h1, beBytes16, Nat.add_comm (p[i].toNat * 2 ^ 8), add_mul_div_byte _ (uint8_toNat_lt _),
    add_mul_mod_byte _ (uint8_toNat_lt _), uint8_ofNat_toNat, uint8_ofNat_toNat]
  rfl

lemma be16_store16_bswap16 {v : Nat} (hv : v < 2 ^ 16) (rest : List UInt8) :
    be16 (store16 (bswap16 v) ++ rest) 0 = v := by
  rw [store16_bswap16 hv, be16_beBytes16 hv]

lemma be32_store32_bswap32 {v : Nat} (hv : v < 2 ^ 32) (rest : List UInt8) :
    be32 (store32 (bswap32 v) ++ rest) 0 = v := by
  have hd : ∀ a : Nat, a % 2 ^ 8 < 2 ^ 8 := fun a => Nat.mod_lt a (Nat.two_pow_pos 8)
  rw [bswap32_eq, show ∀ a b c d : Nat, a * 2 ^ 24 + b * 2 ^ 16 + c * 2 ^ 8 + d =
    d + (c + (b + a * 2 ^ 8) * 2 ^ 8) * 2 ^ 8 by intros; ring]
  simp only [store32, shiftRight_16, shiftRight_24]
  simp only [be32, byteAt, List.cons_append, List.getElem?_cons_zero, List.getElem?_cons_succ,
    Option.getD_some, uint8_toNat_ofNat, Nat.shiftRight_eq_div_pow, add_mul_div_byte _ (hd _),
    add_mul_mod_byte _ (hd _), Nat.mod_mod]
  omega

end Dnsasm
