import Dnsasm.Section

/-!
# What the decoders read

Two properties of `dnsasm_decompress_name` and the section decoders built on it, both about which
bytes a decode depends on.

A name whose walk reaches its zero byte is read only up to that byte and the bytes its labels and
pointers occupy: each pass reads inside the buffer (`Walk.reads_inside`), so the pass is the same on
any longer buffer (`decompressStep_append`), and the pass moves to the next position of the walk
(`Walk.yield_pos`). By induction over the passes the whole loop is the same on the longer buffer
(`decompressLoop_append`), and so are the decoded name, question and record
(`decoders_ignore_trailing`). A name that runs off the end of the buffer is different: the bytes that
follow are then read as more of it.

From a start inside the packet, the wire count a decode reports ends inside the packet
(`decompressName_consumed_le`). The bytes written to the name buffer are themselves a name without
pointers, and decoding them gives them back with their own length as the wire count
(`decompressName_out_decodes`).
-/

namespace Dnsasm

namespace Run

lemma load_append_of_lt {p : List UInt8} {i : Nat} (h : i < p.length) (s : List UInt8) :
    load (p ++ s) i = load p i := by
  rw [load, load, List.getElem?_append_left h]

lemma loadBytes_append_of_le {p : List UInt8} {i n : Nat} (h : i + n ≤ p.length) (s : List UInt8) :
    loadBytes (p ++ s) i n = loadBytes p i n := by
  rw [loadBytes_of_le (by simp; omega), loadBytes_of_le h, List.drop_append_of_le_length (by omega),
    List.take_append_of_le_length (by simp; omega)]

end Run

variable {packet : List UInt8}

/-! ## One pass -/

section Step

variable {st : NameState}

/-- A pass whose reads fall inside `packet` is the same pass on `packet ++ s`: the length byte, the
pointer's second byte and the label's bytes are the same there, and so is every bound test. -/
lemma decompressStep_append {b : UInt8} (h : packet[st.pos]? = some b)
    (hptr : 192 ≤ b.toNat → st.pos + 1 < packet.length)
    (hlab : b.toNat ≤ 63 → st.pos + 1 + b.toNat ≤ packet.length) (s : List UInt8) :
    decompressStep (packet ++ s) st = decompressStep packet st := by
  have hpos : st.pos < packet.length := (List.getElem?_eq_some_iff.mp h).1
  simp only [decompressStep, List.length_append, if_pos hpos, if_pos (Nat.lt_add_right s.length hpos),
    Run.load_append_of_lt hpos, Run.load_eq_ok.mpr h, Run.ok_bind]
  by_cases hp : 192 ≤ b.toNat
  · have h1 := hptr hp
    simp only [(isPtr_iff b).mpr hp, if_true, ge_iff_le, Nat.not_le.mpr h1,
      Nat.not_le.mpr (Nat.lt_add_right s.length h1), if_false, Run.load_append_of_lt h1]
  · rw [if_neg (mt (isPtr_iff b).mp hp), if_neg (mt (isPtr_iff b).mp hp)]
    by_cases h63 : b.toNat ≤ 63
    · have h1 := hlab h63
      simp only [gt_iff_lt, Nat.not_lt.mpr h1, Nat.not_lt.mpr (Nat.le_add_right_of_le h1), if_false,
        Run.loadBytes_append_of_le h1]
    · simp only [show b.toNat ≠ 0 by omega, gt_iff_lt, Nat.lt_of_not_le h63, if_true, if_false]

end Step

namespace Walk

variable {p : Nat} {ls : List (List UInt8)} {k w : Nat}

/-- At the start of a walk that reaches its zero byte, the length byte is inside the buffer, and so
are a pointer's second byte and a label's bytes. -/
lemma reads_inside (hw : Walk packet p ls k w [0]) :
    ∃ b, packet[p]? = some b ∧ (192 ≤ b.toNat → p + 1 < packet.length) ∧
      (b.toNat ≤ 63 → p + 1 + b.toNat ≤ packet.length) := by
  cases hw with
  | root h =>
    exact ⟨0, h, by simp, fun _ => (List.getElem?_eq_some_iff.mp h).1⟩
  | label hb _ h2 h3 _ => exact ⟨_, hb, fun h => by omega, fun _ => h3⟩
  | pointer hb h1 hlo _ _ =>
    exact ⟨_, hb, fun _ => (List.getElem?_eq_some_iff.mp hlo).1, fun h => by omega⟩

/-- A pass that continues from the start of such a walk moves to the start of the rest of it. -/
lemma yield_pos {st st' : NameState} (hout : st.out.length ≤ dnsMaxNameLen)
    (hw : Walk packet st.pos ls k w [0]) (h : decompressStep packet st = .ok (.yield st')) :
    ∃ ls' k' w', Walk packet st'.pos ls' k' w' [0] := by
  generalize hp : st.pos = p at hw
  rcases decompressStep_eq_ok hout h with ⟨-, h⟩ | ⟨-, h⟩ | ⟨b, hb, h1, h2, -, -, h⟩ |
      ⟨b, lo, hb, h1, hlo, -, -, h⟩ <;> cases h <;> rw [hp] at hb
  · cases hw with
    | root h0 => rw [h0] at hb; cases hb; simp at h1
    | label hb' _ _ _ hw' => rw [hb'] at hb; cases hb; exact ⟨_, _, _, by rw [← hp] at hw'; exact hw'⟩
    | pointer hb' hp' => rw [hb'] at hb; cases hb; omega
  · cases hw with
    | root h0 => rw [h0] at hb; cases hb; simp at h1
    | label hb' _ h2' => rw [hb'] at hb; cases hb; omega
    | pointer hb' _ hlo' _ hw' =>
      rw [hb'] at hb; cases hb
      rw [hp, hlo'] at hlo; cases hlo
      exact ⟨_, _, _, by rw [NameState.jump, ptrOf_eq]; exact hw'⟩

end Walk

/-! ## The whole loop -/

/-- From a reachable state at the start of a walk that reaches its zero byte, the loop runs the same
on `packet ++ s` as on `packet`, whatever its budget. -/
lemma decompressLoop_append (s : List UInt8) :
    ∀ (n : Nat) (st : NameState), st.Inv → (∃ ls k w, Walk packet st.pos ls k w [0]) →
      Run.loop (decompressStep (packet ++ s)) n st = Run.loop (decompressStep packet) n st
  | 0, _, _, _ => rfl
  | n + 1, st, hs, ⟨ls, k, w, hw⟩ => by
    obtain ⟨b, hb, hptr, hlab⟩ := hw.reads_inside
    have e := decompressStep_append hb hptr hlab s
    cases h : decompressStep packet st with
    | ok r =>
      cases r with
      | yield st' =>
        rw [Run.loop_succ_of_yield n (e.trans h), Run.loop_succ_of_yield n h]
        exact decompressLoop_append s n st' (decompressStep_yield hs h).1 (hw.yield_pos hs.out_le h)
      | done st' => rw [Run.loop_succ_of_done n (e.trans h), Run.loop_succ_of_done n h]
    | _ => simp only [Run.loop, e, h]

variable {offset : Nat}

lemma decompressName_append {ls : List (List UInt8)} {k w : Nat} (hn : NameAt packet offset ls k w)
    (s : List UInt8) : decompressName (packet ++ s) offset = decompressName packet offset := by
  rw [decompressName, decompressName,
    decompressLoop_append s loopBudget (.init offset) (.init offset) ⟨ls, k, w, hn⟩]

/-- Bytes after a name that reaches its zero byte change nothing a decoder returns: the name, and a
question or record accepted on the shorter buffer, with its `result.offset`. -/
theorem decoders_ignore_trailing {ls : List (List UInt8)} {k w : Nat}
    (hn : NameAt packet offset ls k w) (s : List UInt8) :
    decompressName (packet ++ s) offset = decompressName packet offset ∧
      (∀ q off, parseQuestion packet offset = .ok (q, off) →
        parseQuestion (packet ++ s) offset = .ok (q, off)) ∧
      (∀ r off, parseRr packet offset = .ok (r, off) → parseRr (packet ++ s) offset = .ok (r, off)) := by
  have hd := decompressName_append hn s
  refine ⟨hd, fun q off h => ?_, fun r off h => ?_⟩
  · obtain ⟨d, hd', hlen, rfl, rfl⟩ := parseQuestion_eq_ok_iff.mp h
    refine parseQuestion_eq_ok_iff.mpr ⟨d, hd.trans hd', by simp; omega, ?_, rfl⟩
    rw [be16_append_of_lt s (by omega), be16_append_of_lt s (by omega)]
  · obtain ⟨d, hd', hlen, hrd, rfl, rfl⟩ := parseRr_eq_ok_iff.mp h
    have e8 := be16_append_of_lt s (show offset + d.offset.toNat + 8 + 2 ≤ packet.length by omega)
    refine parseRr_eq_ok_iff.mpr ⟨d, hd.trans hd', by simp; omega, by simp [e8]; omega, ?_, ?_⟩
    · rw [be16_append_of_lt s (by omega), be16_append_of_lt s (by omega),
        be32_append_of_lt s (by omega), e8]
    · rw [e8]

theorem decoders_ignore_trailing_sampleQuery :
    NameAt sampleQuery 12 wwwExampleCom 0 17 ∧
      (decompressName (sampleQuery ++ [0xff]) 12 = decompressName sampleQuery 12 ∧
        (∀ q off, parseQuestion sampleQuery 12 = .ok (q, off) →
          parseQuestion (sampleQuery ++ [0xff]) 12 = .ok (q, off)) ∧
        (∀ r off, parseRr sampleQuery 12 = .ok (r, off) →
          parseRr (sampleQuery ++ [0xff]) 12 = .ok (r, off))) :=
  ⟨nameAt_sampleQuery, decoders_ignore_trailing nameAt_sampleQuery [0xff]⟩

/-! ## The wire count -/

/-- From a start inside the buffer, the wire bytes a walk counts lie inside it: its labels, and its
terminator or first pointer, are all read there. -/
lemma Walk.consumed_le {p : Nat} {ls : List (List UInt8)} {k w : Nat} {t : List UInt8}
    (hw : Walk packet p ls k w t) (hp : p ≤ packet.length) : p + w ≤ packet.length := by
  induction hw with
  | root h => have := (List.getElem?_eq_some_iff.mp h).1; omega
  | off h => omega
  | label _ _ _ h3 _ ih => have := ih (by omega); omega
  | pointer _ _ hlo _ _ _ => have := (List.getElem?_eq_some_iff.mp hlo).1; omega

/-- `result.offset` of a name read from inside the packet never takes a cursor past the packet's end:
a caller that advances `offset` by it stays inside the packet. -/
theorem decompressName_consumed_le {offset : Nat} {d : Decompressed}
    (h : decompressName packet offset = .ok d) (ho : offset ≤ packet.length) :
    offset + d.offset.toNat ≤ packet.length := by
  obtain ⟨ls, k, w, t, hw, -, hcap, rfl⟩ := decompressName_eq_ok_iff.mp h
  have hw2 := hw.wire_le
  have hin := hw.consumed_le ho
  simp only [uint32_toNat_ofNat, dnsMaxNameLen] at hcap ⊢
  rw [Nat.mod_eq_of_lt (by omega)]
  exact hin

theorem decompressName_consumed_le_sampleQuery :
    decompressName sampleQuery 12 = .ok ⟨encodeName wwwExampleCom, 17, 17⟩ ∧ 12 ≤ sampleQuery.length ∧
      12 + (17 : UInt32).toNat ≤ sampleQuery.length :=
  ⟨decompressName_sampleQuery_ok, by decide, decompressName_consumed_le decompressName_sampleQuery_ok (by decide)⟩

/-! ## The decoded name -/

/-- The wire form of valid labels, then a zero byte or the end of the buffer, is read back as those
labels with no pointer, and all of it is counted. -/
lemma walk_encodeLabels {ls : List (List UInt8)} (hv : ValidLabels ls) {t : List UInt8}
    (ht : t = [0] ∨ t = []) (pre : List UInt8) :
    Walk (pre ++ encodeLabels ls ++ t) pre.length ls 0 (encodeLabels ls ++ t).length t := by
  induction ls generalizing pre with
  | nil =>
    rcases ht with rfl | rfl
    · exact .root (by simp)
    · exact .off (by simp)
  | cons l ls ih =>
    obtain ⟨hl0, hl63⟩ := hv l (List.mem_cons_self l ls)
    have hb := toNat_labelByte hl63
    have e : pre ++ encodeLabels (l :: ls) ++ t = (pre ++ UInt8.ofNat l.length :: l) ++ encodeLabels ls ++ t := by
      simp
    have hw : Walk (pre ++ encodeLabels (l :: ls) ++ t) (pre.length + 1 + (UInt8.ofNat l.length).toNat) ls 0
        (encodeLabels ls ++ t).length t := by
      rw [e, hb, show pre.length + 1 + l.length = (pre ++ UInt8.ofNat l.length :: l).length by
        simp [Nat.add_assoc, Nat.add_comm 1]]
      exact ih (fun l' hl' => hv l' (List.mem_cons_of_mem l hl')) _
    have hl : ((pre ++ encodeLabels (l :: ls) ++ t).drop (pre.length + 1)).take l.length = l := by simp
    have h := Walk.label (getElem?_encodeLabels_cons pre l ls t) (by rw [hb]; exact hl0) (by rw [hb]; exact hl63)
      (by simp [hb]; omega) hw
    rw [hb, hl] at h
    rw [show (encodeLabels (l :: ls) ++ t).length = 1 + l.length + (encodeLabels ls ++ t).length by
      simp; omega]
    exact h

/-- What `dnsasm_decompress_name` writes to `out` is a name without pointers: decoding it from its
first byte gives it back, with its own length as the wire count. -/
theorem decompressName_out_decodes {offset : Nat} {d : Decompressed}
    (h : decompressName packet offset = .ok d) :
    decompressName d.out 0 = .ok ⟨d.out, d.outLen, UInt32.ofNat d.out.length⟩ := by
  obtain ⟨ls, k, w, t, hw, -, hcap, rfl⟩ := decompressName_eq_ok_iff.mp h
  refine decompressName_eq_ok_iff.mpr ⟨ls, 0, _, t, ?_, Nat.zero_le _, hcap, rfl⟩
  simpa using walk_encodeLabels hw.valid hw.end_eq []

theorem decompressName_out_decodes_sampleQuery :
    decompressName sampleQuery 12 = .ok ⟨encodeName wwwExampleCom, 17, 17⟩ ∧
      decompressName (encodeName wwwExampleCom) 0 =
        .ok ⟨encodeName wwwExampleCom, 17, UInt32.ofNat (encodeName wwwExampleCom).length⟩ :=
  ⟨decompressName_sampleQuery_ok, decompressName_out_decodes decompressName_sampleQuery_ok⟩

end Dnsasm
