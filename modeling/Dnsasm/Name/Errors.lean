import Dnsasm.Name.Walk

/-!
# Name decompression: the errors

When `dnsasm_decompress_name` returns each of its error codes, stated apart from its loop.
`Reach packet p k n q k' n'` says that reading the name at `p`, with `k` pointers already followed and
`n` bytes already written, gets to `q` with no check failing on the way, having then followed `k'`
pointers and written `n'` bytes. `Fails packet q k n e` says that the pass at `q` stops with the code
`e`, for one of the six checks of the loop (lines 79-134).

The loop refines this exactly (`decompressName_error_iff`): an error code comes back precisely when
the reading from `offset` gets to a point where a check for that code fails. With
`decompressName_eq_ok_iff` this accounts for every outcome of the function. The pieces are the error
of a single pass (`decompressStep_eq_error_iff`) and one lemma per direction over an arbitrary loop
state, each an induction that follows the reading or the passes one step at a time
(`loop_error_of_reach`, `reach_of_loop_error`).
-/

namespace Dnsasm

/-- Reading the name at `p` gets to `q` with no check failing; see the module header. The caps are
the ones the loop checks before it moves: at most `127` pointers and `DNS_MAX_NAME_LEN` bytes of
labels. -/
inductive Reach (packet : List UInt8) : Nat → Nat → Nat → Nat → Nat → Nat → Prop where
  | refl {p k n : Nat} : Reach packet p k n p k n
  /-- A label of `b` bytes, all inside the buffer, that fits in the name buffer. -/
  | label {p k n q k' n' : Nat} {b : UInt8} :
      packet[p]? = some b → 0 < b.toNat → b.toNat ≤ 63 → p + 1 + b.toNat ≤ packet.length →
      n + 1 + b.toNat ≤ dnsMaxNameLen →
      Reach packet (p + 1 + b.toNat) k (n + 1 + b.toNat) q k' n' → Reach packet p k n q k' n'
  /-- A pointer inside the buffer, aimed strictly backwards, within the hop limit. -/
  | pointer {p k n q k' n' : Nat} {b lo : UInt8} :
      packet[p]? = some b → 192 ≤ b.toNat → packet[p + 1]? = some lo → k + 1 ≤ 127 →
      ptrTarget b lo < p → Reach packet (ptrTarget b lo) (k + 1) n q k' n' → Reach packet p k n q k' n'

/-- The pass at `p`, after `k` pointers and `n` bytes written, stops with the code `e`. -/
inductive Fails (packet : List UInt8) (p k n : Nat) : Err → Prop where
  /-- A pointer whose second byte is past the end (lines 79-82). -/
  | ptrShort {b : UInt8} : packet[p]? = some b → 192 ≤ b.toNat → packet.length ≤ p + 1 →
      Fails packet p k n .short
  /-- A pointer beyond the `127`th (lines 94-97). -/
  | loop {b lo : UInt8} : packet[p]? = some b → 192 ≤ b.toNat → packet[p + 1]? = some lo →
      127 < k + 1 → Fails packet p k n .loop
  /-- A pointer that is not aimed strictly backwards (lines 100-103). -/
  | pointer {b lo : UInt8} : packet[p]? = some b → 192 ≤ b.toNat → packet[p + 1]? = some lo →
      k + 1 ≤ 127 → p ≤ ptrTarget b lo → Fails packet p k n .pointer
  /-- A length byte in `64 .. 191` (lines 119-122). -/
  | name {b : UInt8} : packet[p]? = some b → 63 < b.toNat → b.toNat < 192 → Fails packet p k n .name
  /-- A label that runs past the end (lines 125-128). -/
  | labelShort {b : UInt8} : packet[p]? = some b → 0 < b.toNat → b.toNat ≤ 63 →
      packet.length < p + 1 + b.toNat → Fails packet p k n .short
  /-- A label that does not fit in `DNS_MAX_NAME_LEN` bytes (lines 131-134). -/
  | overflow {b : UInt8} : packet[p]? = some b → 0 < b.toNat → b.toNat ≤ 63 →
      p + 1 + b.toNat ≤ packet.length → dnsMaxNameLen < n + 1 + b.toNat → Fails packet p k n .overflow

variable {packet : List UInt8}

lemma Reach.trans {p k n q k' n' r k'' n'' : Nat} (h₁ : Reach packet p k n q k' n')
    (h₂ : Reach packet q k' n' r k'' n'') : Reach packet p k n r k'' n'' := by
  induction h₁ with
  | refl => exact h₂
  | label hb h1 h2 h3 h4 _ ih => exact .label hb h1 h2 h3 h4 (ih h₂)
  | pointer hb h1 hlo hk ht _ ih => exact .pointer hb h1 hlo hk ht (ih h₂)

/-! ## One pass -/

section Step

variable {st : NameState}

/-- A pass returns an error code exactly when one of its checks fails, whatever `out` holds. -/
lemma decompressStep_eq_error_iff {e : Err} :
    decompressStep packet st = .error e ↔ Fails packet st.pos st.ptrCount st.out.length e := by
  constructor
  · intro h
    by_cases hpos : packet.length ≤ st.pos
    · simp [decompressStep_of_le hpos] at h
    replace hpos := Nat.lt_of_not_le hpos
    have hb : packet[st.pos]? = some packet[st.pos] := List.getElem?_eq_getElem hpos
    generalize packet[st.pos] = b at hb
    simp only [decompressStep, hpos, ↓reduceIte, Run.load_eq_ok.mpr hb, Run.ok_bind] at h
    by_cases hp : 192 ≤ b.toNat
    · rw [if_pos ((isPtr_iff b).mpr hp)] at h
      by_cases hpos1 : st.pos + 1 ≥ packet.length
      · rw [if_pos hpos1] at h
        cases h
        exact .ptrShort hb hp hpos1
      have hlo : packet[st.pos + 1]? = some packet[st.pos + 1] := List.getElem?_eq_getElem (by omega)
      generalize packet[st.pos + 1] = lo at hlo
      rw [if_neg hpos1, Run.load_eq_ok.mpr hlo, Run.ok_bind] at h
      by_cases hk : st.ptrCount + 1 > 127
      · rw [if_pos hk] at h
        cases h
        exact .loop hb hp hlo hk
      by_cases ht : ptrOf b lo ≥ st.pos
      · rw [if_neg hk, if_pos ht] at h
        cases h
        exact .pointer hb hp hlo (by omega) (by rwa [← ptrOf_eq])
      · rw [if_neg hk, if_neg ht] at h
        cases h
    rw [if_neg (mt (isPtr_iff b).mp hp)] at h
    by_cases h0 : b.toNat = 0
    · rw [if_pos h0, put] at h
      split at h <;> cases h
    rw [if_neg h0] at h
    by_cases h63 : b.toNat > 63
    · rw [if_pos h63] at h
      cases h
      exact .name hb h63 (by omega)
    rw [if_neg h63] at h
    by_cases hlen : st.pos + 1 + b.toNat > packet.length
    · rw [if_pos hlen] at h
      cases h
      exact .labelShort hb (by omega) (by omega) hlen
    rw [if_neg hlen] at h
    by_cases hcap : st.out.length + 1 + b.toNat > dnsMaxNameLen
    · rw [if_pos hcap] at h
      cases h
      exact .overflow hb (by omega) (by omega) (by omega) hcap
    have hput := @putBytes_of_le (st.out ++ [b]) ((packet.drop (st.pos + 1)).take b.toNat)
      (by simp only [List.length_append, List.length_singleton, length_label (Nat.le_of_not_lt hlen),
        nameBufSize]; omega)
    rw [if_neg hcap, put, if_pos (show st.out.length < nameBufSize by simp only [nameBufSize]; omega),
      Run.ok_bind, Run.loadBytes_of_le (Nat.le_of_not_lt hlen), Run.ok_bind, hput] at h
    cases h
  · intro h
    have hpos : st.pos < packet.length := by
      cases h <;> exact (List.getElem?_eq_some_iff.mp ‹_›).1
    cases h with
    | @ptrShort b hb hp hlen =>
      simp only [decompressStep, hpos, ↓reduceIte, Run.load_eq_ok.mpr hb, Run.ok_bind,
        (isPtr_iff b).mpr hp, ge_iff_le, hlen]
    | @loop b lo hb hp hlo hk =>
      simp only [decompressStep, hpos, ↓reduceIte, Run.load_eq_ok.mpr hb, Run.ok_bind,
        (isPtr_iff b).mpr hp, ge_iff_le, Nat.not_le.mpr (List.getElem?_eq_some_iff.mp hlo).1,
        Run.load_eq_ok.mpr hlo, gt_iff_lt, hk]
    | @pointer b lo hb hp hlo hk ht =>
      simp only [decompressStep, hpos, ↓reduceIte, Run.load_eq_ok.mpr hb, Run.ok_bind,
        (isPtr_iff b).mpr hp, ge_iff_le, Nat.not_le.mpr (List.getElem?_eq_some_iff.mp hlo).1,
        Run.load_eq_ok.mpr hlo, gt_iff_lt, Nat.not_lt.mpr hk, ptrOf_eq, ht]
    | @name b hb h63 hp =>
      simp only [decompressStep, hpos, ↓reduceIte, Run.load_eq_ok.mpr hb, Run.ok_bind,
        (isPtr_iff b).not.mpr (by omega), show b.toNat ≠ 0 by omega, gt_iff_lt, h63]
    | @labelShort b hb h0 h63 hlen =>
      simp only [decompressStep, hpos, ↓reduceIte, Run.load_eq_ok.mpr hb, Run.ok_bind,
        (isPtr_iff b).not.mpr (by omega), Nat.pos_iff_ne_zero.mp h0, gt_iff_lt, Nat.not_lt.mpr h63, hlen]
    | @overflow b hb h0 h63 hlen hcap =>
      simp only [decompressStep, hpos, ↓reduceIte, Run.load_eq_ok.mpr hb, Run.ok_bind,
        (isPtr_iff b).not.mpr (by omega), Nat.pos_iff_ne_zero.mp h0, gt_iff_lt, Nat.not_lt.mpr h63,
        Nat.not_lt.mpr hlen, hcap]

end Step

/-! ## The loop refines the reading -/

/-- Completeness over an arbitrary state: a reading that gets to a failing check is what the loop
does, within some budget. -/
lemma loop_error_of_reach {p k n q k' n' : Nat} {e : Err} (hr : Reach packet p k n q k' n')
    (hf : Fails packet q k' n' e) :
    ∀ st : NameState, st.pos = p → st.ptrCount = k → st.out.length = n →
      ∃ fuel, Run.loop (decompressStep packet) fuel st = .error e := by
  induction hr with
  | refl =>
    intro st hp hk hn
    subst hp hk hn
    exact ⟨1, by simp [Run.loop, decompressStep_eq_error_iff.mpr hf]⟩
  | @label _ _ _ _ _ _ b hb h1 h2 h3 h4 _ ih =>
    intro st hp hk hn
    subst hp hk hn
    obtain ⟨fuel, hl⟩ := ih hf (st.label packet b) rfl rfl (NameState.label_out_length h3)
    exact ⟨fuel + 1, by rw [Run.loop_succ_of_yield _ (decompressStep_label hb h1 h2 h3 h4)]; exact hl⟩
  | pointer hb h1 hlo hk ht _ ih =>
    intro st hp hk' hn
    subst hp hk' hn
    obtain ⟨fuel, hl⟩ := ih hf (st.jump (ptrOf _ _)) (ptrOf_eq _ _) rfl rfl
    exact ⟨fuel + 1, by
      rw [Run.loop_succ_of_yield _ (decompressStep_pointer hb h1 hlo hk (by rwa [ptrOf_eq]))]; exact hl⟩

/-- Soundness over an arbitrary reachable state: an error code comes from a failing check at a point
the reading from `offset` gets to. -/
lemma reach_of_loop_error {offset : Nat} {e : Err} :
    ∀ (fuel : Nat) (st : NameState), st.Inv → Reach packet offset 0 0 st.pos st.ptrCount st.out.length →
      Run.loop (decompressStep packet) fuel st = .error e →
      ∃ q k n, Reach packet offset 0 0 q k n ∧ Fails packet q k n e
  | 0, _, _, _, h => by simp [Run.loop] at h
  | fuel + 1, st, hs, hr, h => by
    rcases @decompressStep_cases packet st hs.out_le with ⟨e', he⟩ | ⟨-, he⟩ | ⟨-, he⟩ |
        ⟨b, hb, h1, h2, h3, h4, he⟩ | ⟨b, lo, hb, h1, hlo, hk, ht, he⟩
    · simp only [Run.loop, he, Run.error.injEq] at h
      subst h
      exact ⟨_, _, _, hr, decompressStep_eq_error_iff.mp he⟩
    · simp [Run.loop_succ_of_done _ he] at h
    · simp [Run.loop_succ_of_done _ he] at h
    · rw [Run.loop_succ_of_yield _ he] at h
      refine reach_of_loop_error fuel _ (decompressStep_yield hs he).1 ?_ h
      rw [NameState.label_out_length h3]
      exact hr.trans (.label hb h1 h2 h3 h4 .refl)
    · rw [Run.loop_succ_of_yield _ he] at h
      refine reach_of_loop_error fuel _ (decompressStep_yield hs he).1 ?_ h
      rw [ptrOf_eq] at ht
      exact hr.trans (.pointer hb h1 hlo hk ht (by rw [NameState.jump, ptrOf_eq]; exact .refl))

/-- `dnsasm_decompress_name` returns the error code `e` exactly when reading the name at `offset`
gets, with every check passing on the way, to a point where a check for `e` fails: a pointer with
no second byte or a label past the end (`DNSASM_ERR_SHORT`), a `128`th pointer (`DNSASM_ERR_LOOP`),
a pointer not aimed strictly backwards (`DNSASM_ERR_POINTER`), a length byte in `64 .. 191`
(`DNSASM_ERR_NAME`), or a label past `DNS_MAX_NAME_LEN` bytes (`DNSASM_ERR_OVERFLOW`). -/
theorem decompressName_error_iff {offset : Nat} {e : Err} :
    decompressName packet offset = .error e ↔
      ∃ q k n, Reach packet offset 0 0 q k n ∧ Fails packet q k n e := by
  have hbudget : Run.loop (decompressStep packet) loopBudget (.init offset) ≠ .timeout :=
    decompressLoop_ne_timeout_of_inv (.init offset)
      (by simp [NameState.potential, NameState.init, dnsMaxNameLen, loopBudget])
  have hloop : decompressName packet offset = .error e ↔
      Run.loop (decompressStep packet) loopBudget (.init offset) = .error e := by
    rw [decompressName]
    cases Run.loop (decompressStep packet) loopBudget (.init offset) <;> simp
  rw [hloop]
  constructor
  · exact reach_of_loop_error loopBudget _ (.init offset) .refl
  · rintro ⟨q, k, n, hr, hf⟩
    obtain ⟨fuel, hl⟩ := loop_error_of_reach hr hf (.init offset) rfl rfl rfl
    rw [Run.loop_eq_loop (by rw [hl]; nofun) hbudget, hl]

example : decompressName [0xc0, 0x00] 0 = .error .pointer := by decide

end Dnsasm
