import Dnsasm.Header

/-!
# Name decompression: the loop

`dnsasm_decompress_name` (`dnsasm.c`, lines 64-152) as the code runs it: the locals of its loop as a
record `NameState`, one pass of the `while (pos < len)` loop as `decompressStep`, and the function as
`Run.loop` over that pass followed by the stores to `*out_len` and `result`. The name buffer `out`
holds `DNS_MAX_NAME_LEN + 1` bytes (`dnsasm.h`, line 185); a write at or past that index is a fault.

What a pass can do is said once, by `decompressStep_cases` (under the invariant that `out` holds at
most `DNS_MAX_NAME_LEN` bytes) and a forward lemma per transition. Two properties of the whole loop
follow from that alone: it never touches memory outside the packet or the name buffer
(`decompressName_ne_oob`), and it returns within `256` passes whatever the packet
(`decompressLoop_returns`), since a label pass lengthens `out` by at least two bytes within its cap
and a pointer pass raises the hop count within its cap.
-/

namespace Dnsasm

/-- Bytes of the name buffer `out`: `DNS_MAX_NAME_LEN + 1`, the size of the `name` fields of
`dnsasm_question_t` and `dnsasm_rr_t` and the size `dnsasm_decompress_name` asks of its caller. -/
def nameBufSize : Nat := dnsMaxNameLen + 1

/-- `out[out_pos++] = b`: `out` is the list of bytes written so far, so `out_pos` is its length. -/
def put (out : List UInt8) (b : UInt8) : Run (List UInt8) :=
  if out.length < nameBufSize then .ok (out ++ [b]) else .oob

/-- The destination side of `memcpy(out + out_pos, ..., n)` followed by `out_pos += n`. -/
def putBytes (out : List UInt8) : List UInt8 → Run (List UInt8)
  | [] => .ok out
  | b :: bs => do
    let out ← put out b
    putBytes out bs

/-- `((label_len & 0x3F) << 8) | packet[pos + 1]` (line 85), stored to the `uint16_t` `ptr`. -/
def ptrOf (b lo : UInt8) : Nat := (((b.toNat &&& 0x3F) <<< 8) ||| lo.toNat) % 2 ^ 16

/-- The locals of the loop (lines 68-72): the cursor `pos`, the bytes written to `out` (`out_pos` is
their number), `wire_len`, `counting_wire` and `ptr_count`. -/
structure NameState where
  pos : Nat
  out : List UInt8
  wireLen : Nat
  countingWire : Bool
  ptrCount : Nat
  deriving Repr, DecidableEq

/-- The locals on entry to the loop. -/
def NameState.init (offset : Nat) : NameState := ⟨offset, [], 0, true, 0⟩

/-- One pass of `while (pos < len)` (lines 74-146), the loop test included. -/
def decompressStep (packet : List UInt8) (st : NameState) : Run (ForInStep NameState) :=
  if st.pos < packet.length then do
    let labelLen ← Run.load packet st.pos
    if labelLen.toNat &&& 0xC0 = 0xC0 then
      if st.pos + 1 ≥ packet.length then .error .short else do
      let lo ← Run.load packet (st.pos + 1)
      let ptr := ptrOf labelLen lo
      let wireLen := if st.countingWire then st.wireLen + 2 else st.wireLen
      let ptrCount := st.ptrCount + 1
      if ptrCount > 127 then .error .loop else
      if ptr ≥ st.pos then .error .pointer else
      pure (.yield { st with pos := ptr, wireLen, countingWire := false, ptrCount })
    else if labelLen.toNat = 0 then do
      let out ← put st.out 0
      pure (.done { st with out, wireLen := if st.countingWire then st.wireLen + 1 else st.wireLen })
    else if labelLen.toNat > 63 then .error .name
    else if st.pos + 1 + labelLen.toNat > packet.length then .error .short
    else if st.out.length + 1 + labelLen.toNat > dnsMaxNameLen then .error .overflow
    else do
      let out ← put st.out labelLen
      let label ← Run.loadBytes packet (st.pos + 1) labelLen.toNat
      let out ← putBytes out label
      pure (.yield { st with
        pos := st.pos + 1 + labelLen.toNat
        out
        wireLen := if st.countingWire then st.wireLen + 1 + labelLen.toNat else st.wireLen })
  else pure (.done st)

/-- Passes allowed to each `while` loop of `dnsasm.c`. No loop needs them all
(`decompressLoop_ne_timeout_of_inv`, `hayLength_ne_timeout`), so a larger budget changes nothing
(`Run.loop_eq_of_ne_timeout`). -/
def loopBudget : Nat := 256

/-- What a successful `dnsasm_decompress_name` hands back: the bytes `out[0 .. out_pos)`, the value
stored to `*out_len`, and `result.offset`. -/
structure Decompressed where
  out : List UInt8
  outLen : UInt16
  offset : UInt32
  deriving Repr, DecidableEq

/-- `dnsasm_decompress_name` (`dnsasm.c`, line 64). -/
def decompressName (packet : List UInt8) (offset : Nat) : Run Decompressed := do
  let st ← Run.loop (decompressStep packet) loopBudget (.init offset)
  pure ⟨st.out, UInt16.ofNat st.out.length, UInt32.ofNat st.wireLen⟩

/-! ## The transitions of a pass -/

/-- The state after the terminator: one zero byte written, counted while counting is live. -/
def NameState.root (st : NameState) : NameState :=
  { st with out := st.out ++ [0], wireLen := if st.countingWire then st.wireLen + 1 else st.wireLen }

/-- The state after the label of length `b` at `pos`: its length byte and bytes copied. -/
def NameState.label (st : NameState) (packet : List UInt8) (b : UInt8) : NameState :=
  { st with
    pos := st.pos + 1 + b.toNat
    out := st.out ++ b :: (packet.drop (st.pos + 1)).take b.toNat
    wireLen := if st.countingWire then st.wireLen + 1 + b.toNat else st.wireLen }

/-- The state after a pointer to `t`: counting freezes after its two bytes. -/
def NameState.jump (st : NameState) (t : Nat) : NameState :=
  { pos := t
    out := st.out
    wireLen := if st.countingWire then st.wireLen + 2 else st.wireLen
    countingWire := false
    ptrCount := st.ptrCount + 1 }

lemma putBytes_of_le {out bs : List UInt8} (h : out.length + bs.length ≤ nameBufSize) :
    putBytes out bs = .ok (out ++ bs) := by
  induction bs generalizing out with
  | nil => simp [putBytes]
  | cons b bs ih =>
    simp only [List.length_cons] at h
    rw [putBytes, put, if_pos (by omega), Run.ok_bind, ih (by simp; omega)]
    simp

lemma isPtr_iff (b : UInt8) : b.toNat &&& 0xC0 = 0xC0 ↔ 192 ≤ b.toNat := by
  have hb := uint8_toNat_lt b
  rw [show (0xC0 : Nat) = 3 <<< 6 from rfl, and_shiftLeft, show (3 : Nat) = 2 ^ 2 - 1 from rfl,
    Nat.and_pow_two_sub_one_eq_mod]
  simp only [Nat.shiftRight_eq_div_pow, Nat.shiftLeft_eq]
  omega

variable {packet : List UInt8} {st : NameState}

lemma decompressStep_of_le (h : packet.length ≤ st.pos) : decompressStep packet st = .ok (.done st) := by
  simp [decompressStep, Nat.not_lt.mpr h]

lemma decompressStep_root (h : packet[st.pos]? = some 0) (hout : st.out.length ≤ dnsMaxNameLen) :
    decompressStep packet st = .ok (.done st.root) := by
  obtain ⟨hpos, -⟩ := List.getElem?_eq_some_iff.mp h
  simp [decompressStep, hpos, Run.load_eq_ok.mpr h, put, nameBufSize, NameState.root,
    show st.out.length < dnsMaxNameLen + 1 by omega]

lemma decompressStep_label {b : UInt8} (h : packet[st.pos]? = some b) (h1 : 0 < b.toNat)
    (h2 : b.toNat ≤ 63) (h3 : st.pos + 1 + b.toNat ≤ packet.length)
    (h4 : st.out.length + 1 + b.toNat ≤ dnsMaxNameLen) :
    decompressStep packet st = .ok (.yield (st.label packet b)) := by
  obtain ⟨hpos, -⟩ := List.getElem?_eq_some_iff.mp h
  have hp : ¬ (b.toNat &&& 0xC0 = 0xC0) := by rw [isPtr_iff]; omega
  have hput : putBytes (st.out ++ [b]) ((packet.drop (st.pos + 1)).take b.toNat) =
      .ok (st.out ++ [b] ++ (packet.drop (st.pos + 1)).take b.toNat) :=
    putBytes_of_le (by simp only [List.length_append, List.length_singleton, List.length_take,
      List.length_drop, nameBufSize]; omega)
  simp only [decompressStep, hpos, ↓reduceIte, Run.load_eq_ok.mpr h, Run.ok_bind, hp,
    Nat.pos_iff_ne_zero.mp h1, gt_iff_lt, Nat.not_lt.mpr h2, Nat.not_lt.mpr h3, Nat.not_lt.mpr h4, put,
    nameBufSize, show st.out.length < dnsMaxNameLen + 1 by omega, Run.loadBytes_of_le h3, hput,
    Run.pure_def, List.append_assoc, List.singleton_append, NameState.label]

lemma decompressStep_pointer {b lo : UInt8} (h : packet[st.pos]? = some b) (hb : 192 ≤ b.toNat)
    (hlo : packet[st.pos + 1]? = some lo) (hk : st.ptrCount + 1 ≤ 127) (ht : ptrOf b lo < st.pos) :
    decompressStep packet st = .ok (.yield (st.jump (ptrOf b lo))) := by
  obtain ⟨hpos, -⟩ := List.getElem?_eq_some_iff.mp hlo
  simp only [decompressStep, show st.pos < packet.length by omega, ↓reduceIte, Run.load_eq_ok.mpr h,
    Run.ok_bind, (isPtr_iff b).mpr hb, ge_iff_le, Nat.not_le.mpr hpos, Run.load_eq_ok.mpr hlo, gt_iff_lt,
    Nat.not_lt.mpr hk, Nat.not_le.mpr ht, Run.pure_def, NameState.jump]

/-- Everything a pass can do from a state whose `out` holds at most `DNS_MAX_NAME_LEN` bytes: return
an error code, or take one of the four transitions under its guards. It never faults and never
times out. -/
lemma decompressStep_cases (hout : st.out.length ≤ dnsMaxNameLen) :
    (∃ e, decompressStep packet st = .error e) ∨
    (packet.length ≤ st.pos ∧ decompressStep packet st = .ok (.done st)) ∨
    (packet[st.pos]? = some 0 ∧ decompressStep packet st = .ok (.done st.root)) ∨
    (∃ b, packet[st.pos]? = some b ∧ 0 < b.toNat ∧ b.toNat ≤ 63 ∧
      st.pos + 1 + b.toNat ≤ packet.length ∧ st.out.length + 1 + b.toNat ≤ dnsMaxNameLen ∧
      decompressStep packet st = .ok (.yield (st.label packet b))) ∨
    (∃ b lo, packet[st.pos]? = some b ∧ 192 ≤ b.toNat ∧ packet[st.pos + 1]? = some lo ∧
      st.ptrCount + 1 ≤ 127 ∧ ptrOf b lo < st.pos ∧
      decompressStep packet st = .ok (.yield (st.jump (ptrOf b lo)))) := by
  by_cases hpos : packet.length ≤ st.pos
  · exact .inr (.inl ⟨hpos, decompressStep_of_le hpos⟩)
  replace hpos := Nat.lt_of_not_le hpos
  have hb : packet[st.pos]? = some packet[st.pos] := List.getElem?_eq_getElem hpos
  generalize packet[st.pos] = b at hb
  have hl := Run.load_eq_ok.mpr hb
  by_cases hp : 192 ≤ b.toNat
  · have hp' := (isPtr_iff b).mpr hp
    by_cases hpos1 : packet.length ≤ st.pos + 1
    · exact .inl ⟨.short, by simp only [decompressStep, hpos, ↓reduceIte, hl, Run.ok_bind, hp',
        ge_iff_le, hpos1]⟩
    replace hpos1 := Nat.lt_of_not_le hpos1
    have hlo : packet[st.pos + 1]? = some packet[st.pos + 1] := List.getElem?_eq_getElem hpos1
    generalize packet[st.pos + 1] = lo at hlo
    by_cases hk : 127 < st.ptrCount + 1
    · exact .inl ⟨.loop, by simp only [decompressStep, hpos, ↓reduceIte, hl, Run.ok_bind, hp',
        ge_iff_le, Nat.not_le.mpr hpos1, Run.load_eq_ok.mpr hlo, gt_iff_lt, hk]⟩
    by_cases ht : st.pos ≤ ptrOf b lo
    · exact .inl ⟨.pointer, by simp only [decompressStep, hpos, ↓reduceIte, hl, Run.ok_bind, hp',
        ge_iff_le, Nat.not_le.mpr hpos1, Run.load_eq_ok.mpr hlo, gt_iff_lt, hk, ht]⟩
    exact .inr (.inr (.inr (.inr ⟨b, lo, hb, hp, hlo, Nat.le_of_not_lt hk, Nat.lt_of_not_le ht,
      decompressStep_pointer hb hp hlo (Nat.le_of_not_lt hk) (Nat.lt_of_not_le ht)⟩)))
  have hp' : ¬ (b.toNat &&& 0xC0 = 0xC0) := by rw [isPtr_iff]; exact hp
  by_cases h0 : b.toNat = 0
  · have hb0 : b = 0 := UInt8.toNat.inj h0
    subst hb0
    exact .inr (.inr (.inl ⟨hb, decompressStep_root hb hout⟩))
  by_cases h63 : 63 < b.toNat
  · exact .inl ⟨.name, by simp only [decompressStep, hpos, ↓reduceIte, hl, Run.ok_bind, hp', h0,
      gt_iff_lt, h63]⟩
  by_cases hlen : packet.length < st.pos + 1 + b.toNat
  · exact .inl ⟨.short, by simp only [decompressStep, hpos, ↓reduceIte, hl, Run.ok_bind, hp', h0,
      gt_iff_lt, h63, hlen]⟩
  by_cases hcap : dnsMaxNameLen < st.out.length + 1 + b.toNat
  · exact .inl ⟨.overflow, by simp only [decompressStep, hpos, ↓reduceIte, hl, Run.ok_bind, hp', h0,
      gt_iff_lt, h63, hlen, hcap]⟩
  exact .inr (.inr (.inr (.inl ⟨b, hb, Nat.pos_of_ne_zero h0, Nat.le_of_not_lt h63,
    Nat.le_of_not_lt hlen, Nat.le_of_not_lt hcap, decompressStep_label hb (Nat.pos_of_ne_zero h0)
      (Nat.le_of_not_lt h63) (Nat.le_of_not_lt hlen) (Nat.le_of_not_lt hcap)⟩)))

/-- A pass that returns normally takes one of the four transitions. -/
lemma decompressStep_eq_ok {r : ForInStep NameState} (hout : st.out.length ≤ dnsMaxNameLen)
    (h : decompressStep packet st = .ok r) :
    (packet.length ≤ st.pos ∧ r = .done st) ∨
    (packet[st.pos]? = some 0 ∧ r = .done st.root) ∨
    (∃ b, packet[st.pos]? = some b ∧ 0 < b.toNat ∧ b.toNat ≤ 63 ∧
      st.pos + 1 + b.toNat ≤ packet.length ∧ st.out.length + 1 + b.toNat ≤ dnsMaxNameLen ∧
      r = .yield (st.label packet b)) ∨
    (∃ b lo, packet[st.pos]? = some b ∧ 192 ≤ b.toNat ∧ packet[st.pos + 1]? = some lo ∧
      st.ptrCount + 1 ≤ 127 ∧ ptrOf b lo < st.pos ∧ r = .yield (st.jump (ptrOf b lo))) := by
  rcases decompressStep_cases hout with ⟨e, he⟩ | ⟨h1, he⟩ | ⟨h1, he⟩ |
      ⟨b, h1, h2, h3, h4, h5, he⟩ | ⟨b, lo, h1, h2, h3, h4, h5, he⟩ <;>
    rw [he] at h <;> cases h
  · exact .inl ⟨h1, rfl⟩
  · exact .inr (.inl ⟨h1, rfl⟩)
  · exact .inr (.inr (.inl ⟨b, h1, h2, h3, h4, h5, rfl⟩))
  · exact .inr (.inr (.inr ⟨b, lo, h1, h2, h3, h4, h5, rfl⟩))

lemma decompressStep_ne_oob (hout : st.out.length ≤ dnsMaxNameLen) :
    decompressStep packet st ≠ .oob := by
  rcases @decompressStep_cases packet st hout with ⟨e, h⟩ | ⟨-, h⟩ | ⟨-, h⟩ |
      ⟨b, -, -, -, -, -, h⟩ | ⟨b, lo, -, -, -, -, -, h⟩ <;> simp [h]

lemma decompressStep_ne_timeout (hout : st.out.length ≤ dnsMaxNameLen) :
    decompressStep packet st ≠ .timeout := by
  rcases @decompressStep_cases packet st hout with ⟨e, h⟩ | ⟨-, h⟩ | ⟨-, h⟩ |
      ⟨b, -, -, -, -, -, h⟩ | ⟨b, lo, -, -, -, -, -, h⟩ <;> simp [h]

lemma NameState.label_out_length {b : UInt8} (h : st.pos + 1 + b.toNat ≤ packet.length) :
    (st.label packet b).out.length = st.out.length + 1 + b.toNat := by
  simp only [NameState.label, List.length_append, List.length_cons, List.length_take, List.length_drop]
  omega

/-! ## Faults and termination -/

/-- The caps the code checks, which hold of every state the loop reaches. -/
structure NameState.Inv (st : NameState) : Prop where
  out_le : st.out.length ≤ dnsMaxNameLen
  hops_le : st.ptrCount ≤ 127

/-- Passes left at most: a label pass writes two bytes or more, a pointer pass uses up a hop. -/
def NameState.potential (st : NameState) : Nat :=
  (127 - st.ptrCount) + (dnsMaxNameLen - st.out.length) / 2

lemma NameState.Inv.init (offset : Nat) : (NameState.init offset).Inv := ⟨Nat.zero_le _, Nat.zero_le _⟩

/-- A pass that continues keeps the caps and spends potential. -/
lemma decompressStep_yield {st' : NameState} (hs : st.Inv)
    (h : decompressStep packet st = .ok (.yield st')) : st'.Inv ∧ st'.potential < st.potential := by
  rcases decompressStep_eq_ok hs.out_le h with ⟨-, h⟩ | ⟨-, h⟩ | ⟨b, -, h1, -, h3, h4, h⟩ |
      ⟨b, lo, -, -, -, hk, -, h⟩ <;> cases h
  · have hl := NameState.label_out_length (b := b) h3
    have := hs.hops_le
    refine ⟨⟨by omega, hs.hops_le⟩, ?_⟩
    simp only [NameState.potential, hl]
    simp only [NameState.label]
    omega
  · exact ⟨⟨hs.out_le, hk⟩, by simp only [NameState.potential, NameState.jump]; omega⟩

/-- From a reachable state, a budget above its potential is never exhausted. -/
lemma decompressLoop_ne_timeout_of_inv {n : Nat} {st : NameState} (hs : st.Inv)
    (hn : st.potential < n) : Run.loop (decompressStep packet) n st ≠ .timeout :=
  Run.loop_ne_timeout NameState.Inv NameState.potential
    (fun _ hs => decompressStep_ne_timeout hs.out_le) (fun _ _ hs h => decompressStep_yield hs h)
    n st hs hn

/-- The loop touches memory only inside the packet and the name buffer. -/
lemma decompressLoop_ne_oob (n : Nat) {st : NameState} (hs : st.Inv) :
    Run.loop (decompressStep packet) n st ≠ .oob :=
  Run.loop_ne_oob NameState.Inv (fun _ hs => decompressStep_ne_oob hs.out_le)
    (fun _ _ hs h => (decompressStep_yield hs h).1) n st hs

/-- The loop of `dnsasm_decompress_name` reaches a `return` within `256` passes, for every packet and
offset: it ends with `DNSASM_OK` or an error code, neither still running nor outside a buffer. -/
theorem decompressLoop_returns (packet : List UInt8) (offset : Nat) :
    (∃ st, Run.loop (decompressStep packet) 256 (NameState.init offset) = .ok st) ∨
      ∃ e, Run.loop (decompressStep packet) 256 (NameState.init offset) = .error e := by
  have ht := @decompressLoop_ne_timeout_of_inv packet 256 _ (.init offset)
    (by simp [NameState.potential, NameState.init, dnsMaxNameLen])
  have ho := @decompressLoop_ne_oob packet 256 _ (.init offset)
  cases h : Run.loop (decompressStep packet) 256 (NameState.init offset) with
  | ok st => exact .inl ⟨st, rfl⟩
  | error e => exact .inr ⟨e, rfl⟩
  | oob => exact absurd h ho
  | timeout => exact absurd h ht

lemma decompressName_ne_oob (packet : List UInt8) (offset : Nat) :
    decompressName packet offset ≠ .oob :=
  Run.bind_ne_oob (decompressLoop_ne_oob _ (.init offset)) (fun _ _ => by simp)

end Dnsasm
