import Dnsasm.Bytes

/-!
# Header codec

The constants of `dnsasm.h` that the core functions use, the header record `dnsasm_header_t`, and its
codec: `dnsasm_parse_header` (`dnsasm.c`, lines 32-56), which refuses a packet of fewer than
`DNS_HEADER_SIZE` bytes and otherwise reads six big-endian fields and cuts the flags word into its
sub-fields, and `dnsasm_build_header` (lines 236-246), which writes the six fields back.

Each function has one lemma saying what it computes in terms of the wire format: `parseHeader_of_le`
reads the fields with `be16` and the parsed flags as bit fields of the flags word
(`Header.FlagsAgree`), and `buildHeader_eq` writes each field with `beBytes16`, high byte first. The
round trip in both directions follows from these two (`header_round_trip`).
-/

namespace Dnsasm

/-- `DNS_HEADER_SIZE`. -/
def dnsHeaderSize : Nat := 12

/-- `DNS_MAX_NAME_LEN`: "Maximum DNS name length (including labels and null terminator)". -/
def dnsMaxNameLen : Nat := 255

/-- `DNS_MAX_PACKET_SIZE`. -/
def dnsMaxPacketSize : Nat := 65535

/-- `DNS_TYPE_A`. -/
def dnsTypeA : Nat := 1

/-- `DNS_CLASS_IN`. -/
def dnsClassIn : Nat := 1

/-- `sample_query` of the console (`console/main.c`, lines 32-47): a query with id `0x1234` and
RD set, for `www.example.com`, type A, class IN. -/
def sampleQuery : List UInt8 :=
  [0x12, 0x34, 0x01, 0x00, 0x00, 0x01, 0x00, 0x00, 0x00, 0x00, 0x00, 0x00,
   0x03, 0x77, 0x77, 0x77, 0x07, 0x65, 0x78, 0x61, 0x6d, 0x70, 0x6c, 0x65, 0x03, 0x63, 0x6f, 0x6d,
   0x00, 0x00, 0x01, 0x00, 0x01]

/-- `sample_response` of the console (`console/main.c`, lines 49-71): the answer to
`sampleQuery`, one A record for `93.184.216.34` with TTL 300 whose name points to offset 12. -/
def sampleResponse : List UInt8 :=
  [0x12, 0x34, 0x81, 0x80, 0x00, 0x01, 0x00, 0x01, 0x00, 0x00, 0x00, 0x00,
   0x03, 0x77, 0x77, 0x77, 0x07, 0x65, 0x78, 0x61, 0x6d, 0x70, 0x6c, 0x65, 0x03, 0x63, 0x6f, 0x6d,
   0x00, 0x00, 0x01, 0x00, 0x01,
   0xc0, 0x0c, 0x00, 0x01, 0x00, 0x01, 0x00, 0x00, 0x01, 0x2c, 0x00, 0x04, 0x5d, 0xb8, 0xd8, 0x22]

/-- `dnsasm_header_t` (`dnsasm.h`, lines 78-94), without the padding byte no function writes. -/
structure Header where
  id : UInt16
  flags : UInt16
  qdcount : UInt16
  ancount : UInt16
  nscount : UInt16
  arcount : UInt16
  qr : UInt8
  opcode : UInt8
  aa : UInt8
  tc : UInt8
  rd : UInt8
  ra : UInt8
  rcode : UInt8
  deriving Repr, DecidableEq

/-- `dnsasm_parse_header` (`dnsasm.c`, line 32). -/
def parseHeader (packet : List UInt8) : Run Header :=
  if packet.length < dnsHeaderSize then .error .short else do
  let id ← read16 packet 0
  let flags ← read16 packet 2
  let qdcount ← read16 packet 4
  let ancount ← read16 packet 6
  let nscount ← read16 packet 8
  let arcount ← read16 packet 10
  pure {
    id := UInt16.ofNat id
    flags := UInt16.ofNat flags
    qdcount := UInt16.ofNat qdcount
    ancount := UInt16.ofNat ancount
    nscount := UInt16.ofNat nscount
    arcount := UInt16.ofNat arcount
    qr := UInt8.ofNat ((flags >>> 15) &&& 1)
    opcode := UInt8.ofNat ((flags >>> 11) &&& 0x0F)
    aa := UInt8.ofNat ((flags >>> 10) &&& 1)
    tc := UInt8.ofNat ((flags >>> 9) &&& 1)
    rd := UInt8.ofNat ((flags >>> 8) &&& 1)
    ra := UInt8.ofNat ((flags >>> 7) &&& 1)
    rcode := UInt8.ofNat (flags &&& 0x0F) }

/-- `dnsasm_build_header` (`dnsasm.c`, line 236): the bytes written to `out`. It returns
`DNS_HEADER_SIZE`, their number (`buildHeader_length`). -/
def buildHeader (id flags qdcount ancount nscount arcount : UInt16) : List UInt8 :=
  store16 (bswap16 id.toNat) ++ store16 (bswap16 flags.toNat) ++ store16 (bswap16 qdcount.toNat) ++
    store16 (bswap16 ancount.toNat) ++ store16 (bswap16 nscount.toNat) ++
    store16 (bswap16 arcount.toNat)

@[simp] lemma buildHeader_length (id flags qdcount ancount nscount arcount : UInt16) :
    (buildHeader id flags qdcount ancount nscount arcount).length = dnsHeaderSize := rfl

/-! ## The codec round trip -/

/-- Bits `lo` to `lo + w - 1` of `x`, read as a number. -/
def bitField (x lo w : Nat) : Nat := x / 2 ^ lo % 2 ^ w

/-- `(x >> lo) & (2^w - 1)` is the field of `w` bits at `lo`. -/
lemma shiftRight_and_pow (x lo w : Nat) : (x >>> lo) &&& (2 ^ w - 1) = bitField x lo w := by
  rw [Nat.and_pow_two_sub_one_eq_mod, Nat.shiftRight_eq_div_pow, bitField]

lemma shiftRight_and_one (x lo : Nat) : (x >>> lo) &&& 1 = bitField x lo 1 := shiftRight_and_pow x lo 1

lemma shiftRight_and_0F (x lo : Nat) : (x >>> lo) &&& 0x0F = bitField x lo 4 :=
  shiftRight_and_pow x lo 4

lemma and_0F (x : Nat) : x &&& 0x0F = bitField x 0 4 := by
  rw [← shiftRight_and_0F, Nat.shiftRight_zero]

/-- A field of at most eight bits survives the store to a `uint8_t`. -/
lemma uint8_toNat_ofNat_bitField {w : Nat} (x lo : Nat) (hw : w ≤ 8) :
    (UInt8.ofNat (bitField x lo w)).toNat = bitField x lo w :=
  (uint8_toNat_ofNat _).trans (Nat.mod_eq_of_lt (Nat.lt_of_lt_of_le (Nat.mod_lt _ (Nat.two_pow_pos w))
    (Nat.pow_le_pow_right (by decide) hw)))

/-- The parsed flags of a header are the bits of its raw `flags` word: `QR` bit 15, `OPCODE` bits
11-14, `AA` bit 10, `TC` bit 9, `RD` bit 8, `RA` bit 7 and `RCODE` bits 0-3. -/
structure Header.FlagsAgree (h : Header) : Prop where
  qr : h.qr.toNat = bitField h.flags.toNat 15 1
  opcode : h.opcode.toNat = bitField h.flags.toNat 11 4
  aa : h.aa.toNat = bitField h.flags.toNat 10 1
  tc : h.tc.toNat = bitField h.flags.toNat 9 1
  rd : h.rd.toNat = bitField h.flags.toNat 8 1
  ra : h.ra.toNat = bitField h.flags.toNat 7 1
  rcode : h.rcode.toNat = bitField h.flags.toNat 0 4

/-- From `DNS_HEADER_SIZE` bytes on, `dnsasm_parse_header` returns the six fields read big-endian at
bytes `0, 2, ..., 10`, and cuts the parsed flags from the flags word. -/
lemma parseHeader_of_le {packet : List UInt8} (h : dnsHeaderSize ≤ packet.length) :
    ∃ hd, parseHeader packet = .ok hd ∧ hd.id.toNat = be16 packet 0 ∧
      hd.flags.toNat = be16 packet 2 ∧ hd.qdcount.toNat = be16 packet 4 ∧
      hd.ancount.toNat = be16 packet 6 ∧ hd.nscount.toNat = be16 packet 8 ∧
      hd.arcount.toNat = be16 packet 10 ∧ hd.FlagsAgree := by
  have hr : ∀ i, i + 2 ≤ dnsHeaderSize → read16 packet i = .ok (be16 packet i) :=
    fun i hi => read16_of_le (Nat.le_trans hi h)
  have hf : ∀ i, (UInt16.ofNat (be16 packet i)).toNat = be16 packet i := fun i => by
    rw [uint16_toNat_ofNat, Nat.mod_eq_of_lt (be16_lt _ _)]
  simp only [parseHeader, if_neg (Nat.not_lt.mpr h), hr 0 (by decide), hr 2 (by decide),
    hr 4 (by decide), hr 6 (by decide), hr 8 (by decide), hr 10 (by decide), Run.ok_bind, Run.pure_def,
    Run.ok.injEq, exists_eq_left', hf, true_and]
  constructor <;> simp only [hf, shiftRight_and_one, shiftRight_and_0F] <;>
    simp (disch := decide) only [and_0F, uint8_toNat_ofNat_bitField]

/-- A packet of fewer than twelve bytes is refused; from twelve on every read is inside it. -/
lemma parseHeader_ne_oob (packet : List UInt8) : parseHeader packet ≠ .oob := by
  by_cases h : dnsHeaderSize ≤ packet.length
  · obtain ⟨hd, hp, -⟩ := parseHeader_of_le h
    rw [hp]
    nofun
  · simp [parseHeader, Nat.lt_of_not_le h]

example : ∃ h, parseHeader sampleQuery = .ok h ∧ h.id = 0x1234 ∧ h.qr = 0 ∧ h.rd = 1 ∧
    h.qdcount = 1 :=
  ⟨_, rfl, rfl, rfl, rfl, rfl⟩

example : ∃ h, parseHeader sampleResponse = .ok h ∧ h.id = 0x1234 ∧ h.qr = 1 ∧ h.ra = 1 ∧
    h.ancount = 1 :=
  ⟨_, rfl, rfl, rfl, rfl, rfl⟩

/-- `dnsasm_build_header` writes each field big-endian, in the order of `dnsasm_header_t`. -/
lemma buildHeader_eq (id flags qdcount ancount nscount arcount : UInt16) :
    buildHeader id flags qdcount ancount nscount arcount =
      beBytes16 id.toNat ++ beBytes16 flags.toNat ++ beBytes16 qdcount.toNat ++
        beBytes16 ancount.toNat ++ beBytes16 nscount.toNat ++ beBytes16 arcount.toNat := by
  simp only [buildHeader, store16_bswap16 (UInt16.toNat_lt_size _)]

/-- The fields of a built header read back big-endian, whatever follows it. -/
lemma be16_buildHeader (id flags qdcount ancount nscount arcount : UInt16) (rest : List UInt8) :
    let p := buildHeader id flags qdcount ancount nscount arcount ++ rest
    be16 p 0 = id.toNat ∧ be16 p 2 = flags.toNat ∧ be16 p 4 = qdcount.toNat ∧
      be16 p 6 = ancount.toNat ∧ be16 p 8 = nscount.toNat ∧ be16 p 10 = arcount.toNat := by
  simp only [buildHeader_eq, List.append_assoc]
  refine ⟨be16_beBytes16 (UInt16.toNat_lt_size _) _, ?_, ?_, ?_, ?_, ?_⟩ <;>
    simp (disch := simp) only [be16_append_of_le, beBytes16_length, Nat.reduceSub] <;>
    exact be16_beBytes16 (UInt16.toNat_lt_size _) _

/-- Two bytes at `i` followed by `n` bytes at `i + 2` are the `2 + n` bytes at `i`. -/
lemma take_two_append_take (p : List UInt8) (i j n : Nat) (hj : j = i + 2) :
    (p.drop i).take 2 ++ (p.drop j).take n = (p.drop i).take (2 + n) := by
  rw [hj, List.take_add (p.drop i) 2 n, List.drop_drop]

/-- The header codec round trip, on the little-endian hosts `dnsasm.h` targets. Parsing a built
header, whatever follows it, gives back the six fields, and the parsed flags are the bits of `flags`.
Parsing a buffer of `DNS_HEADER_SIZE` bytes or more reads each field big-endian, and building the
parsed fields gives back the buffer's first twelve bytes. Building writes each field high byte
first. -/
theorem header_round_trip :
    (∀ (id flags qdcount ancount nscount arcount : UInt16) (rest : List UInt8),
      ∃ h, parseHeader (buildHeader id flags qdcount ancount nscount arcount ++ rest) = .ok h ∧
        h.id = id ∧ h.flags = flags ∧ h.qdcount = qdcount ∧ h.ancount = ancount ∧
        h.nscount = nscount ∧ h.arcount = arcount ∧
        h.qr.toNat = bitField flags.toNat 15 1 ∧ h.opcode.toNat = bitField flags.toNat 11 4 ∧
        h.aa.toNat = bitField flags.toNat 10 1 ∧ h.tc.toNat = bitField flags.toNat 9 1 ∧
        h.rd.toNat = bitField flags.toNat 8 1 ∧ h.ra.toNat = bitField flags.toNat 7 1 ∧
        h.rcode.toNat = bitField flags.toNat 0 4) ∧
    (∀ packet : List UInt8, dnsHeaderSize ≤ packet.length →
      ∃ h, parseHeader packet = .ok h ∧
        h.id.toNat = be16 packet 0 ∧ h.flags.toNat = be16 packet 2 ∧
        h.qdcount.toNat = be16 packet 4 ∧ h.ancount.toNat = be16 packet 6 ∧
        h.nscount.toNat = be16 packet 8 ∧ h.arcount.toNat = be16 packet 10 ∧
        buildHeader h.id h.flags h.qdcount h.ancount h.nscount h.arcount =
          packet.take dnsHeaderSize) ∧
    (∀ id flags qdcount ancount nscount arcount : UInt16,
      buildHeader id flags qdcount ancount nscount arcount =
        beBytes16 id.toNat ++ beBytes16 flags.toNat ++ beBytes16 qdcount.toNat ++
          beBytes16 ancount.toNat ++ beBytes16 nscount.toNat ++ beBytes16 arcount.toNat) := by
  refine ⟨fun id flags qdcount ancount nscount arcount rest => ?_, fun packet hp => ?_, buildHeader_eq⟩
  · obtain ⟨e0, e2, e4, e6, e8, e10⟩ := be16_buildHeader id flags qdcount ancount nscount arcount rest
    obtain ⟨h, hp, h0, h2, h4, h6, h8, h10, hf⟩ := parseHeader_of_le
      (show dnsHeaderSize ≤ (buildHeader id flags qdcount ancount nscount arcount ++ rest).length by simp)
    have hfl : h.flags = flags := UInt16.toNat.inj (h2.trans e2)
    exact ⟨h, hp, UInt16.toNat.inj (h0.trans e0), hfl, UInt16.toNat.inj (h4.trans e4),
      UInt16.toNat.inj (h6.trans e6), UInt16.toNat.inj (h8.trans e8), UInt16.toNat.inj (h10.trans e10),
      hfl ▸ hf.qr, hfl ▸ hf.opcode, hfl ▸ hf.aa, hfl ▸ hf.tc, hfl ▸ hf.rd, hfl ▸ hf.ra, hfl ▸ hf.rcode⟩
  · obtain ⟨h, hph, h0, h2, h4, h6, h8, h10, -⟩ := parseHeader_of_le hp
    have hb : ∀ i, i + 2 ≤ dnsHeaderSize → beBytes16 (be16 packet i) = (packet.drop i).take 2 :=
      fun i hi => beBytes16_be16 (Nat.le_trans hi hp)
    refine ⟨h, hph, h0, h2, h4, h6, h8, h10, ?_⟩
    rw [buildHeader_eq, h0, h2, h4, h6, h8, h10, hb 0 (by decide), hb 2 (by decide), hb 4 (by decide),
      hb 6 (by decide), hb 8 (by decide), hb 10 (by decide)]
    simp only [List.append_assoc]
    rw [take_two_append_take packet 8 10 2 rfl, take_two_append_take packet 6 8 4 rfl,
      take_two_append_take packet 4 6 6 rfl, take_two_append_take packet 2 4 8 rfl,
      take_two_append_take packet 0 2 10 rfl, List.drop_zero]
    rfl

/-- `sampleResponse` has a header, and building its parsed fields gives back its first 12 bytes. -/
theorem header_round_trip_sampleResponse :
    dnsHeaderSize ≤ sampleResponse.length ∧
      ∃ h, parseHeader sampleResponse = .ok h ∧
        h.id.toNat = be16 sampleResponse 0 ∧ h.flags.toNat = be16 sampleResponse 2 ∧
        h.qdcount.toNat = be16 sampleResponse 4 ∧ h.ancount.toNat = be16 sampleResponse 6 ∧
        h.nscount.toNat = be16 sampleResponse 8 ∧ h.arcount.toNat = be16 sampleResponse 10 ∧
        buildHeader h.id h.flags h.qdcount h.ancount h.nscount h.arcount =
          sampleResponse.take dnsHeaderSize :=
  ⟨by decide, header_round_trip.2.1 sampleResponse (by decide)⟩

end Dnsasm
