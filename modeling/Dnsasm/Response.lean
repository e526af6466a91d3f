import Dnsasm.Section

/-!
# Response builders

`dnsasm_build_header`, `dnsasm_copy_question` and `dnsasm_build_a_record` (`dnsasm.c`, lines 236-290)
write a response into a caller's buffer and return the number of bytes written; here each returns the
bytes themselves. The two that `memcpy` from a caller's buffer read it with checked loads, as the
decoders do.

The encoders agree with the decoders (`response_parses_back`): a response made of a header, the
question copied from a query whose question name has no pointer, and an A record whose name is either
a pointer to that question or the decoded name in full, decodes back to the query's question and to
the record that was written. The pieces are one lemma per decoder over a buffer cut into the part
before a field and the field's bytes (`parseQuestion_of_trailer`, `parseRr_aRecord`), and one for the
record's name (`decompressName_answerName`).
-/

namespace Dnsasm

/-- `dnsasm_copy_question` (`dnsasm.c`, line 251): the `qlen` bytes at `packet + offset`. -/
def copyQuestion (packet : List UInt8) (offset qlen : Nat) : Run (List UInt8) :=
  Run.loadBytes packet offset qlen

/-- The fixed fields `dnsasm_build_a_record` writes after the name: type A, class IN, the TTL and
`RDLENGTH` 4. -/
def aRecordFields (ttl : UInt32) : List UInt8 :=
  store16 (bswap16 dnsTypeA) ++ store16 (bswap16 dnsClassIn) ++ store32 (bswap32 ttl.toNat) ++
    store16 (bswap16 4)

/-- `dnsasm_build_a_record` (`dnsasm.c`, line 260): the name's `name_len` bytes, the fixed fields,
then the four bytes at `ip`. -/
def buildARecord (name : List UInt8) (nameLen : Nat) (ttl : UInt32) (ip : List UInt8) :
    Run (List UInt8) := do
  let n ← Run.loadBytes name 0 nameLen
  let a ← Run.loadBytes ip 0 4
  pure (n ++ aRecordFields ttl ++ a)

@[simp] lemma aRecordFields_length (ttl : UInt32) : (aRecordFields ttl).length = 10 := rfl

lemma copyQuestion_of_le {packet : List UInt8} {offset qlen : Nat} (h : offset + qlen ≤ packet.length) :
    copyQuestion packet offset qlen = .ok ((packet.drop offset).take qlen) :=
  Run.loadBytes_of_le h

lemma buildARecord_eq (name : List UInt8) (ttl : UInt32) {ip : List UInt8} (hip : ip.length = 4) :
    buildARecord name name.length ttl ip = .ok (name ++ aRecordFields ttl ++ ip) := by
  simp only [buildARecord, Run.loadBytes_of_le (show 0 + name.length ≤ name.length by omega),
    Run.loadBytes_of_le (show 0 + 4 ≤ ip.length by omega), List.drop_zero, Run.ok_bind, Run.pure_def,
    List.take_length, List.take_of_length_le (show ip.length ≤ 4 by omega)]

/-- The four fields of `aRecordFields`, read big-endian at their places. -/
lemma aRecordFields_fields (ttl : UInt32) (rest : List UInt8) :
    be16 (aRecordFields ttl ++ rest) 0 = dnsTypeA ∧ be16 (aRecordFields ttl ++ rest) 2 = dnsClassIn ∧
      be32 (aRecordFields ttl ++ rest) 4 = ttl.toNat ∧ be16 (aRecordFields ttl ++ rest) 8 = 4 := by
  simp only [aRecordFields, List.append_assoc]
  refine ⟨be16_store16_bswap16 (by decide) _, ?_, ?_, ?_⟩ <;>
    simp (disch := simp) only [be16_append_of_le, be32_append_of_le, store16_length, store32_length,
      Nat.reduceSub]
  · exact be16_store16_bswap16 (by decide) _
  · exact be32_store32_bswap32 ttl.toNat_lt_size _
  · exact be16_store16_bswap16 (by decide) _

variable {R pre : List UInt8} {p : Nat} {d : Decompressed}

/-- A question whose name at `p` decodes to `d` and is followed by the four bytes `tr` has the type
and class that `tr` holds. -/
lemma parseQuestion_of_trailer {tr rest : List UInt8} (hd : decompressName R p = .ok d)
    (hpre : pre.length = p + d.offset.toNat) (htr : tr.length = 4) (hR : R = pre ++ tr ++ rest) :
    parseQuestion R p = .ok (⟨d.out, d.outLen, UInt16.ofNat (be16 tr 0), UInt16.ofNat (be16 tr 2),
      UInt16.ofNat (d.offset.toNat + 4)⟩, UInt32.ofNat (p + d.offset.toNat + 4)) := by
  subst hR
  refine parseQuestion_eq_ok_iff.mpr ⟨d, hd, by simp; omega, ?_, rfl⟩
  simp (disch := omega) only [List.append_assoc, be16_append_of_le, hpre, Nat.sub_self,
    Nat.add_sub_cancel_left, be16_append_of_lt]

/-- A record whose name at `p` decodes to `d` and is followed by the fields `dnsasm_build_a_record`
writes and four bytes `ip` is that A record, and it ends where the buffer does. -/
lemma parseRr_aRecord {ttl : UInt32} {ip : List UInt8} (hd : decompressName R p = .ok d)
    (hpre : pre.length = p + d.offset.toNat) (hip : ip.length = 4)
    (hR : R = pre ++ aRecordFields ttl ++ ip) :
    parseRr R p = .ok (⟨d.out, d.outLen, UInt16.ofNat dnsTypeA, UInt16.ofNat dnsClassIn, ttl, 4,
      p + d.offset.toNat + 10, UInt16.ofNat (d.offset.toNat + 10 + 4)⟩, UInt32.ofNat R.length) := by
  subst hR
  obtain ⟨h0, h2, h4, h8⟩ := aRecordFields_fields ttl ip
  refine parseRr_eq_ok_iff.mpr ⟨d, hd, by simp [hpre, hip], ?_, ?_, ?_⟩ <;>
    simp (disch := omega) only [List.append_assoc, be16_append_of_le, be32_append_of_le, hpre,
      Nat.sub_self, Nat.add_sub_cancel_left, h0, h2, h4, h8, uint32_ofNat_toNat, List.length_append,
      aRecordFields_length, hip]
  · omega
  · rfl

/-- A question accepted at `offset` whose name follows no pointer lies in the packet as the wire form
of its labels, then its type and class. -/
lemma parseQuestion_ptrFree {Q : List UInt8} {offset : Nat} {q : Question} {off : UInt32}
    (hq : parseQuestion Q offset = .ok (q, off)) (hnp : ∃ ls w t, Walk Q offset ls 0 w t) :
    ∃ ls tr post, ValidLabels ls ∧ (encodeLabels ls).length ≤ dnsMaxNameLen ∧ tr.length = 4 ∧
      Q.drop offset = encodeName ls ++ tr ++ post ∧
      q = ⟨encodeName ls, UInt16.ofNat (encodeName ls).length, UInt16.ofNat (be16 tr 0),
        UInt16.ofNat (be16 tr 2), UInt16.ofNat ((encodeName ls).length + 4)⟩ ∧
      off = UInt32.ofNat (offset + (encodeName ls).length + 4) := by
  obtain ⟨d, hd, hlen, rfl, rfl⟩ := parseQuestion_eq_ok_iff.mp hq
  obtain ⟨ls, k, w, t, hw, -, hcap, rfl⟩ := decompressName_eq_ok_iff.mp hd
  obtain ⟨ls', w', t', hw'⟩ := hnp
  obtain ⟨rfl, rfl, rfl, rfl⟩ := hw'.unique hw
  have hw32 : (UInt32.ofNat w').toNat = w' := by
    have := hw'.wire_le
    simp only [uint32_toNat_ofNat, dnsMaxNameLen] at hcap ⊢
    omega
  simp only [hw32] at hlen ⊢
  rcases hw'.end_eq with rfl | rfl
  · obtain ⟨post, hpost, rfl⟩ := hw'.drop_eq_of_ptrFree rfl
    have hpl : 4 ≤ post.length := by
      have := congrArg List.length hpost
      simp only [List.length_drop, List.length_append] at this
      omega
    have hsplit : Q.drop offset = encodeName ls' ++ post.take 4 ++ post.drop 4 := by
      rw [hpost, List.append_assoc, List.take_append_drop]
    have hbe : ∀ j, j + 2 ≤ 4 →
        be16 Q (offset + (encodeName ls').length + j) = be16 (post.take 4) j := fun j hj => by
      rw [Nat.add_assoc, ← be16_drop, hsplit, List.append_assoc,
        be16_append_of_le _ (by omega), Nat.add_sub_cancel_left, be16_append_of_lt _ (by simp; omega)]
    refine ⟨ls', post.take 4, post.drop 4, hw'.valid, hcap, by simp; omega, hsplit, ?_, rfl⟩
    rw [← hbe 0 (by omega), ← hbe 2 (by omega)]
    rfl
  · exact absurd hlen (by have := hw'.length_le_of_off; omega)

/-- A question written after `pre` as the wire form of its labels and four bytes `tr` decodes back to
those labels and the type and class in `tr`. -/
lemma parseQuestion_encodeName {tr rest : List UInt8} {ls : List (List UInt8)} (hv : ValidLabels ls)
    (hcap : (encodeLabels ls).length ≤ dnsMaxNameLen) (htr : tr.length = 4) :
    parseQuestion (pre ++ encodeName ls ++ tr ++ rest) pre.length =
      .ok (⟨encodeName ls, UInt16.ofNat (encodeName ls).length, UInt16.ofNat (be16 tr 0),
        UInt16.ofNat (be16 tr 2), UInt16.ofNat ((encodeName ls).length + 4)⟩,
        UInt32.ofNat (pre.length + (encodeName ls).length + 4)) := by
  have hL : (UInt32.ofNat (encodeName ls).length).toNat = (encodeName ls).length := by
    simp only [encodeName, List.length_append, List.length_singleton, uint32_toNat_ofNat,
      dnsMaxNameLen] at hcap ⊢
    omega
  have hw := walk_encodeName hv pre (tr ++ rest)
  rw [← List.append_assoc] at hw
  have hd := decompressName_eq_ok_iff.mpr ⟨ls, 0, _, [0], hw, by omega, hcap, rfl⟩
  simpa only [hL] using parseQuestion_of_trailer hd (by rw [hL, List.length_append]) htr rfl

/-- The name `dnsasm_build_a_record` writes after `pre`, a pointer to the name at `12` or that name's
wire form again, decodes to that name. -/
lemma decompressName_answerName {N tail : List UInt8} {ls : List (List UInt8)} (hv : ValidLabels ls)
    (hcap : (encodeLabels ls).length ≤ dnsMaxNameLen)
    (hq : NameAt (pre ++ N ++ tail) 12 ls 0 (encodeName ls).length) (h12 : 12 < pre.length)
    (hN : N = [0xc0, 0x0c] ∨ N = encodeName ls) :
    ∃ d : Decompressed, decompressName (pre ++ N ++ tail) pre.length = .ok d ∧ d.out = encodeName ls ∧
      d.outLen = UInt16.ofNat (encodeName ls).length ∧ d.offset.toNat = N.length := by
  rcases hN with rfl | rfl
  · have hwalk : Walk (pre ++ [0xc0, 0x0c] ++ tail) pre.length ls 1 2 [0] :=
      .pointer (show _ = some 0xc0 by rw [List.append_assoc]; exact getElem?_append_length_cons _ _ _)
        (by decide) (show _ = some 0x0c by
          rw [List.append_assoc, List.getElem?_append_right (by omega), Nat.add_sub_cancel_left]; simp)
        h12 hq
    exact ⟨_, decompressName_eq_ok_iff.mpr ⟨ls, 1, 2, [0], hwalk, by omega, hcap, rfl⟩, rfl, rfl, rfl⟩
  · refine ⟨_, decompressName_eq_ok_iff.mpr ⟨ls, 0, _, [0], walk_encodeName hv pre tail, by omega, hcap,
      rfl⟩, rfl, rfl, ?_⟩
    simp only [encodeName, List.length_append, List.length_singleton, uint32_toNat_ofNat,
      dnsMaxNameLen] at hcap ⊢
    omega

/-- The encoders agree with the decoders: from a query whose question at `12` has no pointer and ends
at `12 + w`, a response of a header, that question and an A record named by a pointer to it or by the
decoded name decodes back to the question and to the record written. -/
theorem response_parses_back {Q : List UInt8} {q : Question} {off : UInt32} {w : Nat}
    (hq : parseQuestion Q 12 = .ok (q, off)) (hoff : off.toNat = 12 + w)
    (hnp : ∃ ls w' t, Walk Q 12 ls 0 w' t)
    (id flags qdcount ancount nscount arcount : UInt16) (ttl : UInt32) {ip N : List UInt8}
    (hip : ip.length = 4) (hN : N = [0xc0, 0x0c] ∨ N = q.name) :
    ∃ qs an, copyQuestion Q 12 w = .ok qs ∧ buildARecord N N.length ttl ip = .ok an ∧
      (let R := buildHeader id flags qdcount ancount nscount arcount ++ qs ++ an
       parseQuestion R 12 = .ok (q, off) ∧
       ∃ r off', parseRr R (12 + w) = .ok (r, off') ∧ off'.toNat = R.length ∧
        r.name = q.name ∧ r.nameLen = q.nameLen ∧ r.rtype.toNat = dnsTypeA ∧
        r.rclass.toNat = dnsClassIn ∧ r.ttl = ttl ∧ r.rdlength = 4 ∧
        (R.drop r.rdata).take r.rdlength.toNat = ip) := by
  obtain ⟨ls, tr, post, hv, hcap, htr, hdrop, rfl, rfl⟩ := parseQuestion_ptrFree hq hnp
  have hL : (encodeName ls).length ≤ 256 := by simp [encodeName, dnsMaxNameLen] at hcap ⊢; omega
  have hw : w = (encodeName ls).length + 4 := by simp at hoff; omega
  subst hw
  have hQ : 12 + ((encodeName ls).length + 4) ≤ Q.length := by
    have := congrArg List.length hdrop
    simp only [List.length_drop, List.length_append] at this
    omega
  have hqs : (Q.drop 12).take ((encodeName ls).length + 4) = encodeName ls ++ tr := by
    rw [hdrop, List.take_left' (by simp [htr])]
  refine ⟨_, _, copyQuestion_of_le hQ, buildARecord_eq N ttl hip, ?_⟩
  rw [hqs]
  intro R
  set hdr := buildHeader id flags qdcount ancount nscount arcount
  set L := (encodeName ls).length
  have h12 : hdr.length = 12 := buildHeader_length ..
  have hRq : R = hdr ++ encodeName ls ++ tr ++ (N ++ aRecordFields ttl ++ ip) := by simp [R]
  have hname : NameAt R 12 ls 0 L := by
    simpa only [hRq, h12, List.append_assoc] using
      walk_encodeName hv hdr (tr ++ (N ++ aRecordFields ttl ++ ip))
  refine ⟨by rw [hRq, ← h12]; exact parseQuestion_encodeName hv hcap htr, ?_⟩
  have hp : (hdr ++ (encodeName ls ++ tr)).length = 12 + (L + 4) := by simp [h12, htr, L]
  have hR : R = hdr ++ (encodeName ls ++ tr) ++ N ++ (aRecordFields ttl ++ ip) := by simp [R]
  obtain ⟨d, hd, hout, hlen, hoffN⟩ :=
    decompressName_answerName hv hcap (hR ▸ hname) (by rw [hp]; omega) hN
  rw [hp, ← hR] at hd
  have hdo := decompressName_offset hd
  have hpre : (hdr ++ (encodeName ls ++ tr) ++ N).length = 12 + (L + 4) + d.offset.toNat := by
    simp [h12, htr, hoffN, L]; omega
  have hR' : R = hdr ++ (encodeName ls ++ tr) ++ N ++ aRecordFields ttl ++ ip :=
    hR.trans (List.append_assoc _ _ _).symm
  refine ⟨_, _, parseRr_aRecord hd hpre hip hR', ?_, hout, hlen, by simp [dnsTypeA],
    by simp [dnsClassIn], rfl, rfl, ?_⟩
  · have hRl : R.length = 12 + (L + 4) + d.offset.toNat + 10 + 4 := by
      rw [hR', List.length_append, List.length_append, hpre, aRecordFields_length, hip]
    rw [uint32_toNat_ofNat, hRl, Nat.mod_eq_of_lt]
    calc 12 + (L + 4) + d.offset.toNat + 10 + 4 ≤ 12 + (256 + 4) + (dnsMaxNameLen + 2) + 10 + 4 :=
          Nat.add_le_add_right (Nat.add_le_add_right
            (Nat.add_le_add (Nat.add_le_add_left (Nat.add_le_add_right hL 4) 12) hdo) 10) 4
      _ < 2 ^ 32 := by decide
  · rw [hR', List.drop_left' (by rw [List.length_append, hpre]; rfl)]
    exact List.take_of_length_le (Nat.le_of_eq hip)

theorem response_parses_back_sampleQuery :
    parseQuestion sampleQuery 12 = .ok (⟨encodeName wwwExampleCom, 17, 1, 1, 21⟩, 33) ∧
      (33 : UInt32).toNat = 12 + 21 ∧ (∃ ls w' t, Walk sampleQuery 12 ls 0 w' t) ∧
      [93, 184, 216, 34].length = 4 ∧
      ([0xc0, 0x0c] = [0xc0, 0x0c] ∨ [0xc0, 0x0c] = encodeName wwwExampleCom) ∧
      ∃ qs an, copyQuestion sampleQuery 12 21 = .ok qs ∧
        buildARecord [0xc0, 0x0c] [0xc0, 0x0c].length 300 [93, 184, 216, 34] = .ok an ∧
        (let R := buildHeader 0x1234 0x8180 1 1 0 0 ++ qs ++ an
         parseQuestion R 12 = .ok (⟨encodeName wwwExampleCom, 17, 1, 1, 21⟩, 33) ∧
         ∃ r off', parseRr R (12 + 21) = .ok (r, off') ∧ off'.toNat = R.length ∧
          r.name = encodeName wwwExampleCom ∧ r.nameLen = 17 ∧ r.rtype.toNat = dnsTypeA ∧
          r.rclass.toNat = dnsClassIn ∧ r.ttl = 300 ∧ r.rdlength = 4 ∧
          (R.drop r.rdata).take r.rdlength.toNat = [93, 184, 216, 34]) := by
  have hq : parseQuestion sampleQuery 12 = .ok (⟨encodeName wwwExampleCom, 17, 1, 1, 21⟩, 33) := by
    decide
  have hnp : ∃ ls w' t, Walk sampleQuery 12 ls 0 w' t := ⟨_, _, _, nameAt_sampleQuery⟩
  exact ⟨hq, rfl, hnp, rfl, .inl rfl,
    response_parses_back hq rfl hnp 0x1234 0x8180 1 1 0 0 300 rfl (.inl rfl)⟩

end Dnsasm
