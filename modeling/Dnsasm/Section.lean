import Dnsasm.Name.Walk

/-!
# Question and resource-record decoders

`dnsasm_parse_question` and `dnsasm_parse_rr` (`dnsasm.c`, lines 157-231). Each decompresses the name
at `offset`, checks that its fixed-width trailer fits in the packet, reads the trailer big-endian, and
reports what it consumed twice: in the record's 16-bit `wire_len` and in the 32-bit `result.offset`. A
record's RDATA is not copied; its `rdata` pointer is kept as the offset in the packet where it starts.

Each decoder has one lemma saying exactly when it returns `DNSASM_OK` and with what
(`parseQuestion_eq_ok_iff`, `parseRr_eq_ok_iff`). From those: the decoders never touch memory outside
the packet or the name buffer, and a record's RDATA lies inside the packet (`decoders_memory_safe`);
and each field is the big-endian value at its place after the name, with the consumed counts exact
as long as the packet is no longer than `DNS_MAX_PACKET_SIZE` (`sections_report_consumed`). Past that
size a record's `wire_len` wraps (`parseRr_wireLen_wraps`). Two inputs show where the decoders miss
their own bounds: a name whose labels run to the end of the buffer without a terminator is accepted
(`decompressName_unterminated`), and labels filling `DNS_MAX_NAME_LEN` bytes are returned with their
terminator as a `256`-byte name (`parseQuestion_nameLen_overflow`).
-/

namespace Dnsasm

/-- `dnsasm_question_t` (`dnsasm.h`, lines 99-105); `name` holds `name[0 .. name_len)`. -/
structure Question where
  name : List UInt8
  nameLen : UInt16
  qtype : UInt16
  qclass : UInt16
  wireLen : UInt16
  deriving Repr, DecidableEq

/-- `dnsasm_rr_t` (`dnsasm.h`, lines 110-119); `name` holds `name[0 .. name_len)`, and the pointer
`rdata` is `packet + rdata`. -/
structure RR where
  name : List UInt8
  nameLen : UInt16
  rtype : UInt16
  rclass : UInt16
  ttl : UInt32
  rdlength : UInt16
  rdata : Nat
  wireLen : UInt16
  deriving Repr, DecidableEq

/-- `dnsasm_parse_question` (`dnsasm.c`, line 157): the question and `result.offset`. -/
def parseQuestion (packet : List UInt8) (offset : Nat) : Run (Question × UInt32) := do
  let n ← decompressName packet offset
  let wireLen := n.offset.toNat
  let pos := offset + wireLen
  if pos + 4 > packet.length then .error .short else do
  let qtype ← read16 packet pos
  let qclass ← read16 packet (pos + 2)
  pure (⟨n.out, n.outLen, UInt16.ofNat qtype, UInt16.ofNat qclass, UInt16.ofNat (wireLen + 4)⟩,
    UInt32.ofNat (pos + 4))

/-- `dnsasm_parse_rr` (`dnsasm.c`, line 190): the record and `result.offset`. The RDATA bound is
checked against `out->rdlength`, the value just read. -/
def parseRr (packet : List UInt8) (offset : Nat) : Run (RR × UInt32) := do
  let n ← decompressName packet offset
  let wireLen := n.offset.toNat
  let pos := offset + wireLen
  if pos + 10 > packet.length then .error .short else do
  let rtype ← read16 packet pos
  let rclass ← read16 packet (pos + 2)
  let ttl ← read32 packet (pos + 4)
  let rdlength ← read16 packet (pos + 8)
  let pos := pos + 10
  if pos + rdlength > packet.length then .error .short else
  pure (⟨n.out, n.outLen, UInt16.ofNat rtype, UInt16.ofNat rclass, UInt32.ofNat ttl,
    UInt16.ofNat rdlength, pos, UInt16.ofNat (wireLen + 10 + rdlength)⟩, UInt32.ofNat (pos + rdlength))

variable {packet : List UInt8} {offset : Nat}

/-- The wire count of a decoded name is at most its labels' cap and a pointer or terminator. -/
lemma decompressName_offset {d : Decompressed} (h : decompressName packet offset = .ok d) :
    d.offset.toNat ≤ dnsMaxNameLen + 2 := by
  obtain ⟨ls, k, w, t, hw, -, hlen, rfl⟩ := decompressName_eq_ok_iff.mp h
  have := hw.wire_le
  simp only [uint32_toNat_ofNat]
  omega

lemma parseQuestion_eq_ok_iff {q : Question} {off : UInt32} :
    parseQuestion packet offset = .ok (q, off) ↔
      ∃ d, decompressName packet offset = .ok d ∧ offset + d.offset.toNat + 4 ≤ packet.length ∧
        q = ⟨d.out, d.outLen, UInt16.ofNat (be16 packet (offset + d.offset.toNat)),
          UInt16.ofNat (be16 packet (offset + d.offset.toNat + 2)), UInt16.ofNat (d.offset.toNat + 4)⟩ ∧
        off = UInt32.ofNat (offset + d.offset.toNat + 4) := by
  simp only [parseQuestion, Run.bind_eq_ok]
  refine exists_congr fun d => and_congr_right fun _ => ?_
  by_cases hlen : offset + d.offset.toNat + 4 ≤ packet.length
  · simp only [if_neg (Nat.not_lt.mpr hlen), hlen, true_and, Run.ok_bind, Run.pure_def,
      read16_of_le (show offset + d.offset.toNat + 2 ≤ packet.length by omega),
      read16_of_le (show offset + d.offset.toNat + 2 + 2 ≤ packet.length by omega), Run.ok.injEq,
      Prod.mk.injEq]
    exact and_congr eq_comm eq_comm
  · simp [Nat.lt_of_not_le hlen, hlen]

lemma parseRr_eq_ok_iff {r : RR} {off : UInt32} :
    parseRr packet offset = .ok (r, off) ↔
      ∃ d, decompressName packet offset = .ok d ∧ offset + d.offset.toNat + 10 ≤ packet.length ∧
        offset + d.offset.toNat + 10 + be16 packet (offset + d.offset.toNat + 8) ≤ packet.length ∧
        r = ⟨d.out, d.outLen, UInt16.ofNat (be16 packet (offset + d.offset.toNat)),
          UInt16.ofNat (be16 packet (offset + d.offset.toNat + 2)),
          UInt32.ofNat (be32 packet (offset + d.offset.toNat + 4)),
          UInt16.ofNat (be16 packet (offset + d.offset.toNat + 8)), offset + d.offset.toNat + 10,
          UInt16.ofNat (d.offset.toNat + 10 + be16 packet (offset + d.offset.toNat + 8))⟩ ∧
        off = UInt32.ofNat (offset + d.offset.toNat + 10 + be16 packet (offset + d.offset.toNat + 8)) := by
  simp only [parseRr, Run.bind_eq_ok]
  refine exists_congr fun d => and_congr_right fun _ => ?_
  by_cases hlen : offset + d.offset.toNat + 10 ≤ packet.length
  · simp only [if_neg (Nat.not_lt.mpr hlen), hlen, true_and, Run.ok_bind,
      read16_of_le (show offset + d.offset.toNat + 2 ≤ packet.length by omega),
      read16_of_le (show offset + d.offset.toNat + 2 + 2 ≤ packet.length by omega),
      read32_of_le (show offset + d.offset.toNat + 4 + 4 ≤ packet.length by omega),
      read16_of_le (show offset + d.offset.toNat + 8 + 2 ≤ packet.length by omega)]
    by_cases hrd : offset + d.offset.toNat + 10 + be16 packet (offset + d.offset.toNat + 8) ≤ packet.length
    · simp only [if_neg (Nat.not_lt.mpr hrd), hrd, true_and, Run.pure_def, Run.ok.injEq, Prod.mk.injEq]
      exact and_congr eq_comm eq_comm
    · simp [Nat.lt_of_not_le hrd, hrd]
  · simp [Nat.lt_of_not_le hlen, hlen]

lemma parseQuestion_ne_oob (packet : List UInt8) (offset : Nat) : parseQuestion packet offset ≠ .oob :=
  Run.bind_ne_oob (decompressName_ne_oob packet offset) fun d _ => by
    dsimp only
    split
    · simp
    · next h =>
      simp [read16_of_le (show offset + d.offset.toNat + 2 ≤ packet.length by omega),
        read16_of_le (show offset + d.offset.toNat + 2 + 2 ≤ packet.length by omega)]

lemma parseRr_ne_oob (packet : List UInt8) (offset : Nat) : parseRr packet offset ≠ .oob :=
  Run.bind_ne_oob (decompressName_ne_oob packet offset) fun d _ => by
    dsimp only
    split
    · simp
    · next h =>
      simp only [read16_of_le (show offset + d.offset.toNat + 2 ≤ packet.length by omega),
        read16_of_le (show offset + d.offset.toNat + 2 + 2 ≤ packet.length by omega),
        read32_of_le (show offset + d.offset.toNat + 4 + 4 ≤ packet.length by omega),
        read16_of_le (show offset + d.offset.toNat + 8 + 2 ≤ packet.length by omega), Run.ok_bind]
      split <;> simp

/-- Memory safety of the decoders: on every packet and at every offset, `dnsasm_parse_header`,
`dnsasm_decompress_name`, `dnsasm_parse_question` and `dnsasm_parse_rr` read the packet only inside
it and write the name buffer only inside its `DNS_MAX_NAME_LEN + 1` bytes, and the RDATA of a record
returned with `DNSASM_OK` lies inside the packet. -/
theorem decoders_memory_safe (packet : List UInt8) (offset : Nat) :
    parseHeader packet ≠ .oob ∧ decompressName packet offset ≠ .oob ∧
      parseQuestion packet offset ≠ .oob ∧ parseRr packet offset ≠ .oob ∧
      ∀ r off, parseRr packet offset = .ok (r, off) → r.rdata + r.rdlength.toNat ≤ packet.length := by
  refine ⟨parseHeader_ne_oob packet, decompressName_ne_oob packet offset,
    parseQuestion_ne_oob packet offset, parseRr_ne_oob packet offset, fun r off h => ?_⟩
  obtain ⟨d, -, -, hrd, rfl, -⟩ := parseRr_eq_ok_iff.mp h
  simp only [uint16_toNat_ofNat, Nat.mod_eq_of_lt (be16_lt _ _)]
  exact hrd

/-- The name buffer `dnsasm_decompress_name` fills is `out_len` bytes long, which is at most
`DNS_MAX_NAME_LEN + 1`: the labels are capped at `DNS_MAX_NAME_LEN` and the terminator comes after. -/
lemma decompressName_out_length {d : Decompressed} (h : decompressName packet offset = .ok d) :
    d.outLen.toNat = d.out.length ∧ d.out.length ≤ nameBufSize := by
  obtain ⟨ls, k, w, t, hw, -, hlen, rfl⟩ := decompressName_eq_ok_iff.mp h
  have ht : t.length ≤ 1 := by rcases hw.end_eq with rfl | rfl <;> simp
  simp only [List.length_append, uint16_toNat_ofNat, nameBufSize, dnsMaxNameLen] at hlen ⊢
  omega

/-- What the section decoders report: each field is the big-endian value at its place after the
name, and what they consumed is given exactly by `result.offset`. A record's 16-bit `wire_len` is the
consumed count modulo `2 ^ 16`, which is the count itself for packets up to `DNS_MAX_PACKET_SIZE`. -/
theorem sections_report_consumed (packet : List UInt8) (offset : Nat) :
    (∀ q off, parseQuestion packet offset = .ok (q, off) → ∃ d, decompressName packet offset = .ok d ∧
      q.qtype.toNat = be16 packet (offset + d.offset.toNat) ∧
      q.qclass.toNat = be16 packet (offset + d.offset.toNat + 2) ∧
      q.wireLen.toNat = d.offset.toNat + 4 ∧ off = UInt32.ofNat (offset + q.wireLen.toNat)) ∧
    (∀ r off, parseRr packet offset = .ok (r, off) → ∃ d, decompressName packet offset = .ok d ∧
      r.rtype.toNat = be16 packet (offset + d.offset.toNat) ∧
      r.rclass.toNat = be16 packet (offset + d.offset.toNat + 2) ∧
      r.ttl.toNat = be32 packet (offset + d.offset.toNat + 4) ∧
      r.rdlength.toNat = be16 packet (offset + d.offset.toNat + 8) ∧
      r.rdata = offset + d.offset.toNat + 10 ∧
      off = UInt32.ofNat (offset + d.offset.toNat + 10 + r.rdlength.toNat) ∧
      r.wireLen.toNat = (d.offset.toNat + 10 + r.rdlength.toNat) % 2 ^ 16 ∧
      (packet.length ≤ dnsMaxPacketSize →
        r.wireLen.toNat = d.offset.toNat + 10 + r.rdlength.toNat ∧
        off.toNat = offset + r.wireLen.toNat)) := by
  constructor
  · intro q off h
    obtain ⟨d, hd, -, rfl, rfl⟩ := parseQuestion_eq_ok_iff.mp h
    have hw := decompressName_offset hd
    have hq : (UInt16.ofNat (d.offset.toNat + 4)).toNat = d.offset.toNat + 4 := by
      simp only [uint16_toNat_ofNat, dnsMaxNameLen] at hw ⊢; omega
    refine ⟨d, hd, ?_, ?_, hq, ?_⟩
    · simp only [uint16_toNat_ofNat, Nat.mod_eq_of_lt (be16_lt _ _)]
    · simp only [uint16_toNat_ofNat, Nat.mod_eq_of_lt (be16_lt _ _)]
    · rw [hq, Nat.add_assoc]
  · intro r off h
    obtain ⟨d, hd, -, hrd, rfl, rfl⟩ := parseRr_eq_ok_iff.mp h
    refine ⟨d, hd, ?_, ?_, ?_, ?_, rfl, ?_, ?_, fun hp => ?_⟩ <;>
      simp only [uint16_toNat_ofNat, uint32_toNat_ofNat, Nat.mod_eq_of_lt (be16_lt _ _),
        Nat.mod_eq_of_lt (be32_lt _ _)]
    simp only [dnsMaxPacketSize] at hp
    omega

/-- The question and the answer record of `sampleResponse`, the answer's name read through its
pointer. -/
theorem sections_report_consumed_sampleResponse :
    (∃ q off, parseQuestion sampleResponse 12 = .ok (q, off) ∧
      ∃ d, decompressName sampleResponse 12 = .ok d ∧
        q.qtype.toNat = be16 sampleResponse (12 + d.offset.toNat) ∧
        q.qclass.toNat = be16 sampleResponse (12 + d.offset.toNat + 2) ∧
        q.wireLen.toNat = d.offset.toNat + 4 ∧ off = UInt32.ofNat (12 + q.wireLen.toNat)) ∧
    (∃ r off, parseRr sampleResponse 33 = .ok (r, off) ∧ sampleResponse.length ≤ dnsMaxPacketSize ∧
      ∃ d, decompressName sampleResponse 33 = .ok d ∧
        r.rtype.toNat = be16 sampleResponse (33 + d.offset.toNat) ∧
        r.rclass.toNat = be16 sampleResponse (33 + d.offset.toNat + 2) ∧
        r.ttl.toNat = be32 sampleResponse (33 + d.offset.toNat + 4) ∧
        r.rdlength.toNat = be16 sampleResponse (33 + d.offset.toNat + 8) ∧
        r.rdata = 33 + d.offset.toNat + 10 ∧
        off = UInt32.ofNat (33 + d.offset.toNat + 10 + r.rdlength.toNat) ∧
        r.wireLen.toNat = d.offset.toNat + 10 + r.rdlength.toNat ∧ off.toNat = 33 + r.wireLen.toNat) := by
  have hq : parseQuestion sampleResponse 12 = .ok (⟨encodeName wwwExampleCom, 17, 1, 1, 21⟩, 33) :=
    parseQuestion_eq_ok_iff.mpr ⟨_, decompressName_eq_ok_iff.mpr ⟨wwwExampleCom, 0, 17, [0],
      nameAt_sampleResponse_question, by decide, by decide, rfl⟩, by decide, rfl, rfl⟩
  have hr : parseRr sampleResponse 33 = .ok (⟨encodeName wwwExampleCom, 17, 1, 1, 300, 4, 45, 16⟩, 49) :=
    parseRr_eq_ok_iff.mpr ⟨_, decompressName_sampleResponse_ok, by decide, by decide, rfl, rfl⟩
  have hlen : sampleResponse.length ≤ dnsMaxPacketSize := by decide
  obtain ⟨d, hd, h1, h2, h3, h4, h5, h6, -, hp⟩ := (sections_report_consumed sampleResponse 33).2 _ _ hr
  exact ⟨⟨_, _, hq, (sections_report_consumed sampleResponse 12).1 _ _ hq⟩,
    _, _, hr, hlen, d, hd, h1, h2, h3, h4, h5, h6, (hp hlen).1, (hp hlen).2⟩

/-- A record whose RDATA fills a buffer longer than `DNS_MAX_PACKET_SIZE`: the root name, type A,
class IN, TTL `0` and `rdlength` `0xffff`. -/
def bigRecord : List UInt8 :=
  [0x00, 0x00, 0x01, 0x00, 0x01, 0x00, 0x00, 0x00, 0x00, 0xff, 0xff] ++ List.replicate 65535 0

/-- On `bigRecord` the record consumes `1 + 10 + 0xffff` bytes, which `result.offset` reports and
the 16-bit `wire_len` does not. -/
theorem parseRr_wireLen_wraps :
    decompressName bigRecord 0 = .ok ⟨[0], 1, 1⟩ ∧
      ∃ r, parseRr bigRecord 0 = .ok (r, 65546) ∧ r.rdlength = 65535 ∧ r.wireLen = 10 := by
  have hb : ∀ i < 11, bigRecord[i]? =
      [0x00, 0x00, 0x01, 0x00, 0x01, 0x00, 0x00, 0x00, 0x00, 0xff, 0xff][i]? := fun i hi =>
    List.getElem?_append_left (by simpa using hi)
  have hd : decompressName bigRecord 0 = .ok ⟨[0], 1, 1⟩ :=
    decompressName_eq_ok_iff.mpr
      ⟨[], 0, 1, [0], .root ((hb 0 (by decide)).trans rfl), by decide, by decide, rfl⟩
  have hlen : bigRecord.length = 65546 := by
    rw [bigRecord, List.length_append, List.length_replicate]; rfl
  have h8 : 0 + (⟨[0], 1, 1⟩ : Decompressed).offset.toNat + 8 = 9 := rfl
  have h1 : 0 + (⟨[0], 1, 1⟩ : Decompressed).offset.toNat = 1 := rfl
  have hrd : be16 bigRecord 9 = 65535 := by
    rw [be16, byteAt, byteAt, hb 9 (by decide), hb (9 + 1) (by decide)]; rfl
  refine ⟨hd, _, parseRr_eq_ok_iff.mpr ⟨_, hd, ?_, ?_, rfl, ?_⟩, ?_, ?_⟩ <;> (try rw [h8]) <;> rw [h1]
  · rw [hlen]; decide
  · rw [hrd, hlen]
  all_goals rw [hrd]; decide

/-- A query whose header announces six additional records and whose question name is a pointer to
the low byte of `ARCOUNT`: read as a label there, it runs to the end of the buffer. -/
def unterminatedQuery : List UInt8 :=
  [0x12, 0x34, 0x01, 0x00, 0x00, 0x01, 0x00, 0x00, 0x00, 0x00, 0x00, 0x06,
   0xc0, 0x0b, 0x00, 0x01, 0x00, 0x01]

/-- On `unterminatedQuery` the walk from offset `12` runs off the end of the buffer without a
terminator, and still the name decodes and the question is accepted. -/
theorem decompressName_unterminated :
    decompressName unterminatedQuery 12 = .ok ⟨[0x06, 0xc0, 0x0b, 0x00, 0x01, 0x00, 0x01], 7, 2⟩ ∧
      (∀ ls k w, ¬ NameAt unterminatedQuery 12 ls k w) ∧
      parseQuestion unterminatedQuery 12 =
        .ok (⟨[0x06, 0xc0, 0x0b, 0x00, 0x01, 0x00, 0x01], 7, 1, 1, 6⟩, 18) := by
  have hw : Walk unterminatedQuery 12 [[0xc0, 0x0b, 0x00, 0x01, 0x00, 0x01]] 1 2 [] :=
    .pointer (show unterminatedQuery[12]? = some 0xc0 by decide) (by decide)
      (show unterminatedQuery[13]? = some 0x0b by decide) (by decide)
      (.label (show unterminatedQuery[11]? = some 0x06 by decide) (by decide) (by decide) (by decide)
        (.off (by decide)))
  have hd := decompressName_eq_ok_iff.mpr ⟨_, _, _, _, hw, by decide, by decide, rfl⟩
  exact ⟨hd, (fun ls k w h => nomatch (hw.unique h).2.2.2),
    parseQuestion_eq_ok_iff.mpr ⟨_, hd, by decide, by decide, by decide⟩⟩

/-- The labels of a name that fills `DNS_MAX_NAME_LEN` bytes before its terminator: three labels of
`63` bytes and one of `62`. -/
def fullName : List (List UInt8) :=
  [List.replicate 63 0x61, List.replicate 63 0x61, List.replicate 63 0x61, List.replicate 62 0x61]

/-- The header of `sampleQuery` with `fullName` as its question, type A, class IN. -/
def fullNameQuery : List UInt8 := sampleQuery.take 12 ++ encodeName fullName ++ [0x00, 0x01, 0x00, 0x01]

/-- On `fullNameQuery` the name decodes to `256` bytes, terminator included, and the question is
accepted with that `name_len`. -/
theorem parseQuestion_nameLen_overflow :
    decompressName fullNameQuery 12 = .ok ⟨encodeName fullName, 256, 256⟩ ∧
      ∃ off, parseQuestion fullNameQuery 12 = .ok (⟨encodeName fullName, 256, 1, 1, 260⟩, off) := by
  have hn : (encodeName fullName).length = 256 := by
    simp only [encodeName, List.length_append, length_encodeLabels, fullName, List.map,
      List.length_replicate]
    rfl
  have hv : ValidLabels fullName := by
    simp only [ValidLabels, fullName, List.forall_mem_cons, List.length_replicate]; decide
  have hw := walk_encodeName hv (sampleQuery.take 12) [0x00, 0x01, 0x00, 0x01]
  rw [show (sampleQuery.take 12).length = 12 from rfl, hn] at hw
  have hd : decompressName fullNameQuery 12 = .ok ⟨encodeName fullName, 256, 256⟩ := by
    refine decompressName_eq_ok_iff.mpr ⟨_, _, _, _, hw, by decide, ?_, ?_⟩
    · simp only [encodeName, List.length_append, List.length_singleton] at hn
      simp only [dnsMaxNameLen]; omega
    · rw [show encodeLabels fullName ++ [0] = encodeName fullName from rfl, hn]; rfl
  have hpre : (sampleQuery.take 12 ++ encodeName fullName).length = 268 := by
    rw [List.length_append, show (sampleQuery.take 12).length = 12 from rfl, hn]
  refine ⟨hd, _, parseQuestion_eq_ok_iff.mpr ⟨_, hd, ?_, ?_, rfl⟩⟩
  · rw [fullNameQuery, List.length_append, hpre]; decide
  · rw [fullNameQuery, be16_append_of_le _ (by rw [hpre]; decide),
      be16_append_of_le _ (by rw [hpre]; decide), hpre]
    rfl

end Dnsasm
