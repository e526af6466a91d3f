import Dnsasm.Section

/-!
# The console's dotted names

`print_question` of the console (`console/main.c`, lines 115-144) prints a parsed question and turns
its wire-format name into dotted notation in a local `char dotted[256]` (lines 121-131). We model that
conversion and leave out the `printf` calls. Writes to `dotted` are checked against its size, and the
name is read only in `name[0 .. name_len)`.

Each way a pass can go has its lemma (`dottedStep_first`, `dottedStep_next`, `dottedStep_zero`,
`dottedStep_of_le`), and one run lemma follows a sequence of labels (`loop_dotted`). On every question
that `dnsasm_parse_question` accepts, the conversion stays inside both buffers and writes the labels
of the name's walk joined by `'.'` (`printQuestionDotted_of_parseQuestion`). The terminator lands at
`dotted[254]` at the latest, also for the `256`-byte names the decoder lets through and for names that
run to the end of the packet.
-/

namespace Dnsasm

/-- The size of `char dotted[256]` in `print_question`. -/
def dottedSize : Nat := 256

/-- `memcpy(dotted + di, ...)` or `dotted[di] = c`, where `di` counts the bytes written so far. A
write past `dotted[255]` faults. -/
def putDotted (dotted bs : List UInt8) : Run (List UInt8) :=
  if dotted.length + bs.length ≤ dottedSize then .ok (dotted ++ bs) else .oob

/-- The locals of the loop (lines 122-123): the cursor `i` in the name and the bytes written to
`dotted` (`di` is their number). -/
structure DottedState where
  i : Nat
  dotted : List UInt8

/-- One pass of `while (i < q->name_len && q->name[i] != 0)` (lines 124-130), the test included. -/
def dottedStep (name : List UInt8) (nameLen : Nat) (st : DottedState) :
    Run (ForInStep DottedState) :=
  if st.i < nameLen then do
    let labelLen ← Run.load name st.i
    if labelLen = 0 then pure (.done st) else do
    let dotted ← if st.dotted.length > 0 then putDotted st.dotted [0x2e] else pure st.dotted
    let label ← Run.loadBytes name (st.i + 1) labelLen.toNat
    let dotted ← putDotted dotted label
    pure (.yield ⟨st.i + labelLen.toNat + 1, dotted⟩)
  else pure (.done st)

/-- The bytes `print_question` leaves in `dotted` (lines 121-131), its terminating zero included. The
loop gets one pass for each byte of the name and one more; a pass that continues moves `i` on. -/
def printQuestionDotted (q : Question) : Run (List UInt8) := do
  let st ← Run.loop (dottedStep q.name q.nameLen.toNat) (q.nameLen.toNat + 1) ⟨0, []⟩
  putDotted st.dotted [0]

/-- The dotted form of a label sequence: its labels joined by `'.'`. -/
def dottedName (ls : List (List UInt8)) : List UInt8 := [0x2e].intercalate ls

lemma dottedName_cons (l : List UInt8) (ls : List (List UInt8)) :
    dottedName (l :: ls) = l ++ (ls.map (0x2e :: ·)).flatten := by
  induction ls generalizing l with
  | nil => simp [dottedName, List.intercalate]
  | cons l' ls ih =>
    simp only [dottedName, List.intercalate, List.intersperse_cons₂, List.flatten_cons] at ih ⊢
    rw [ih]
    simp

lemma length_flatten_map_cons (c : UInt8) (ls : List (List UInt8)) :
    (ls.map (c :: ·)).flatten.length = (encodeLabels ls).length := by
  induction ls with
  | nil => rfl
  | cons l ls ih => simp [ih]

lemma length_le_encodeLabels (ls : List (List UInt8)) : ls.length ≤ (encodeLabels ls).length := by
  induction ls with
  | nil => exact Nat.le_refl _
  | cons l ls ih => simp; omega

/-! ## One pass -/

section Step

variable {name : List UInt8} {nameLen i : Nat} {acc : List UInt8}

lemma dottedStep_of_le (h : nameLen ≤ i) : dottedStep name nameLen ⟨i, acc⟩ = .ok (.done ⟨i, acc⟩) := by
  simp [dottedStep, Nat.not_lt.mpr h]

lemma dottedStep_zero (hi : i < nameLen) (h : name[i]? = some 0) :
    dottedStep name nameLen ⟨i, acc⟩ = .ok (.done ⟨i, acc⟩) := by
  simp [dottedStep, hi, Run.load_eq_ok.mpr h]

/-- The first label is copied to the start of `dotted`, with no `'.'` before it. -/
lemma dottedStep_first {b : UInt8} (hi : i < nameLen) (h : name[i]? = some b) (h0 : b ≠ 0)
    (hlen : i + 1 + b.toNat ≤ name.length) (hfit : b.toNat ≤ dottedSize) :
    dottedStep name nameLen ⟨i, []⟩ = .ok (.yield ⟨i + b.toNat + 1, (name.drop (i + 1)).take b.toNat⟩) := by
  simp [dottedStep, hi, Run.load_eq_ok.mpr h, h0, Run.loadBytes_of_le hlen, putDotted, length_label hlen,
    hfit]

/-- A later label follows a `'.'`. -/
lemma dottedStep_next {b : UInt8} (hd : acc ≠ []) (hi : i < nameLen) (h : name[i]? = some b) (h0 : b ≠ 0)
    (hlen : i + 1 + b.toNat ≤ name.length) (hfit : acc.length + 1 + b.toNat ≤ dottedSize) :
    dottedStep name nameLen ⟨i, acc⟩ =
      .ok (.yield ⟨i + b.toNat + 1, acc ++ 0x2e :: (name.drop (i + 1)).take b.toNat⟩) := by
  simp [dottedStep, hi, Run.load_eq_ok.mpr h, h0, List.length_pos.mpr hd, Run.loadBytes_of_le hlen,
    putDotted, length_label hlen, show acc.length + 1 ≤ dottedSize by omega,
    show acc.length + 1 + b.toNat ≤ dottedSize from hfit]

end Step

/-! ## The whole loop -/

lemma labelByte_ne_zero {l : List UInt8} (h0 : 0 < l.length) (h : l.length ≤ 63) :
    UInt8.ofNat l.length ≠ 0 := fun he => by
  have := toNat_labelByte h
  rw [he] at this
  exact absurd this.symm (Nat.pos_iff_ne_zero.mp h0)

/-- Over a name that holds the labels `ls` at `pre.length`, then a zero byte or its end, the loop
appends each label after a `'.'` to a `dotted` that is not empty, within `dotted[256]`. -/
lemma loop_dotted {ls : List (List UInt8)} (hv : ValidLabels ls) {t : List UInt8}
    (ht : t = [0] ∨ t = []) :
    ∀ (pre acc : List UInt8) (n : Nat), acc ≠ [] →
      acc.length + (encodeLabels ls).length ≤ dottedSize → ls.length < n →
      Run.loop (dottedStep (pre ++ encodeLabels ls ++ t) (pre ++ encodeLabels ls ++ t).length) n
        ⟨pre.length, acc⟩ =
        .ok ⟨(pre ++ encodeLabels ls).length, acc ++ (ls.map (0x2e :: ·)).flatten⟩ := by
  induction ls with
  | nil =>
    intro pre acc n _ _ hn
    obtain _ | m := n
    · exact absurd hn (Nat.not_lt_zero _)
    simp only [encodeLabels_nil, List.append_nil, List.map_nil, List.flatten_nil]
    rcases ht with rfl | rfl
    · exact Run.loop_succ_of_done m (dottedStep_zero (by rw [List.length_append]; exact Nat.lt_succ_self _)
        (getElem?_append_length_cons pre [] 0))
    · exact Run.loop_succ_of_done m (dottedStep_of_le (Nat.le_of_eq (by rw [List.append_nil])))
  | cons l ls ih =>
    intro pre acc n hacc hfit hn
    obtain _ | m := n
    · exact absurd hn (Nat.not_lt_zero _)
    obtain ⟨hl0, hl63⟩ := hv l (List.mem_cons_self l ls)
    have hb := toNat_labelByte hl63
    have e : pre ++ encodeLabels (l :: ls) ++ t = (pre ++ UInt8.ofNat l.length :: l) ++ encodeLabels ls ++ t := by
      simp only [encodeLabels_cons, List.append_assoc, List.cons_append]
    have hN : (pre ++ encodeLabels (l :: ls) ++ t).length =
        pre.length + 1 + l.length + (encodeLabels ls ++ t).length := by
      rw [e]
      simp only [List.length_append, List.length_cons]
      omega
    have hlab : ((pre ++ encodeLabels (l :: ls) ++ t).drop (pre.length + 1)).take l.length = l := by
      simp
    simp only [encodeLabels_cons, List.length_cons, List.length_append] at hfit
    rw [Run.loop_succ_of_yield m (dottedStep_next hacc (by rw [hN]; omega) (getElem?_encodeLabels_cons pre l ls t)
        (labelByte_ne_zero hl0 hl63) (by rw [hb, hN]; omega) (by rw [hb]; omega)), hb, hlab, e,
      show pre.length + l.length + 1 = (pre ++ UInt8.ofNat l.length :: l).length by
        rw [List.length_append, List.length_cons, Nat.add_assoc],
      ih (fun l' hl' => hv l' (List.mem_cons_of_mem l hl')) (pre ++ UInt8.ofNat l.length :: l)
        (acc ++ 0x2e :: l) m (List.append_ne_nil_of_right_ne_nil _ (List.cons_ne_nil _ _))
        (by simp only [List.length_append, List.length_cons]; omega) (Nat.lt_of_succ_lt_succ hn)]
    simp only [encodeLabels_cons, List.append_assoc, List.cons_append, List.map_cons, List.flatten_cons]

/-- A name made of the labels `ls`, then a zero byte or nothing, prints as its labels joined by
`'.'` when the labels fit in `DNS_MAX_NAME_LEN` bytes. -/
lemma printQuestionDotted_encodeLabels {ls : List (List UInt8)} (hv : ValidLabels ls)
    (hcap : (encodeLabels ls).length ≤ dnsMaxNameLen) {t : List UInt8} (ht : t = [0] ∨ t = [])
    {q : Question} (hq : q.name = encodeLabels ls ++ t) (hlen : q.nameLen.toNat = q.name.length) :
    printQuestionDotted q = .ok (dottedName ls ++ [0]) := by
  rw [printQuestionDotted, hlen, hq]
  cases ls with
  | nil => rcases ht with rfl | rfl <;> rfl
  | cons l ls =>
    obtain ⟨hl0, hl63⟩ := hv l (List.mem_cons_self l ls)
    have hb := toNat_labelByte hl63
    have hls := length_le_encodeLabels ls
    simp only [encodeLabels_cons, List.length_cons, List.length_append, dnsMaxNameLen] at hcap
    have e : encodeLabels (l :: ls) ++ t = [UInt8.ofNat l.length] ++ l ++ encodeLabels ls ++ t := by
      simp only [encodeLabels_cons, List.append_assoc, List.cons_append, List.nil_append]
    have hN : (encodeLabels (l :: ls) ++ t).length = 1 + l.length + (encodeLabels ls ++ t).length := by
      rw [e]
      simp only [List.length_append, List.length_singleton]
      omega
    have hlab : ((encodeLabels (l :: ls) ++ t).drop 1).take l.length = l := by simp
    rw [Run.loop_succ_of_yield _ (dottedStep_first (b := UInt8.ofNat l.length) (by rw [hN]; omega)
        (by rw [encodeLabels_cons, List.cons_append, List.getElem?_cons_zero]) (labelByte_ne_zero hl0 hl63) (by rw [hb, hN]; omega)
        (by rw [hb, dottedSize]; omega)),
      hb, hlab, e, show 0 + l.length + 1 = ([UInt8.ofNat l.length] ++ l).length by
        rw [List.length_append, List.length_singleton, Nat.zero_add, Nat.add_comm],
      loop_dotted (fun l' hl' => hv l' (List.mem_cons_of_mem l hl')) ht _ l _
        (List.ne_nil_of_length_pos hl0) (by rw [dottedSize]; omega)
        (by simp only [List.length_append, List.length_singleton]; omega)]
    have hfit : (l ++ (ls.map (0x2e :: ·)).flatten).length + [(0 : UInt8)].length ≤ dottedSize := by
      simp only [List.length_append, length_flatten_map_cons, List.length_singleton, dottedSize]
      omega
    simp only [Run.ok_bind]
    rw [putDotted, if_pos hfit, dottedName_cons]

/-- On every question `dnsasm_parse_question` accepts, `print_question` stays inside `dotted[256]`
and `q->name`, and writes the labels of the name's walk joined by `'.'`, then a zero byte. -/
theorem printQuestionDotted_of_parseQuestion {packet : List UInt8} {offset : Nat} {q : Question}
    {off : UInt32} (h : parseQuestion packet offset = .ok (q, off)) :
    ∃ ls k w t, Walk packet offset ls k w t ∧ printQuestionDotted q = .ok (dottedName ls ++ [0]) := by
  obtain ⟨d, hd, -, rfl, -⟩ := parseQuestion_eq_ok_iff.mp h
  have hlen := (decompressName_out_length hd).1
  obtain ⟨ls, k, w, t, hw, -, hcap, rfl⟩ := decompressName_eq_ok_iff.mp hd
  exact ⟨ls, k, w, t, hw, printQuestionDotted_encodeLabels hw.valid hcap hw.end_eq rfl hlen⟩

theorem printQuestionDotted_sampleQuery :
    parseQuestion sampleQuery 12 = .ok (⟨encodeName wwwExampleCom, 17, 1, 1, 21⟩, 33) ∧
      ∃ ls k w t, Walk sampleQuery 12 ls k w t ∧
        printQuestionDotted ⟨encodeName wwwExampleCom, 17, 1, 1, 21⟩ = .ok (dottedName ls ++ [0]) :=
  have hq : parseQuestion sampleQuery 12 = .ok (⟨encodeName wwwExampleCom, 17, 1, 1, 21⟩, 33) :=
    parseQuestion_eq_ok_iff.mpr ⟨_, decompressName_sampleQuery_ok, by decide, rfl, rfl⟩
  ⟨hq, printQuestionDotted_of_parseQuestion hq⟩

end Dnsasm
