import Dnsasm.Name.Decompress

/-!
# Name decompression: the walk it follows

What `dnsasm_decompress_name` is for, stated apart from its loop. `Walk packet p ls k w t` says that
reading the name at `p` visits the labels `ls` in order and follows `k` compression pointers, that
`w` counts the wire bytes from `p` through the first pointer (or through the end, when there is no
pointer), and that the walk ends in `t`: `[0]` when it reaches a zero byte inside the buffer, `[]`
when it runs off the end of the buffer. A validly encoded name (`NameAt`) is a walk of the first kind.
Each pointer is two bytes inside the buffer aimed strictly backwards, each label has `1 .. 63` bytes
inside the buffer (`Walk.valid`), and a walk is determined by where it starts (`Walk.unique`).

The loop refines the walk exactly (`decompressName_eq_ok_iff`): the function returns `DNSASM_OK`
precisely when the walk from `offset` follows at most `127` pointers and its labels fit in
`DNS_MAX_NAME_LEN` bytes, and it then hands back the labels, then `t`, and the walk's `w`. Completeness
(`decompressName_complete`) is its reading for a validly encoded name; `loop_of_walk` and
`walk_of_loop` are the two directions over an arbitrary loop state, each an induction that follows
the walk or the passes one step at a time.
-/

namespace Dnsasm

/-- The 14-bit target of the pointer `b lo`: the low six bits of `b`, then the byte `lo`. -/
def ptrTarget (b lo : UInt8) : Nat := b.toNat % 2 ^ 6 * 2 ^ 8 + lo.toNat

/-- The wire form of a sequence of labels: each label's length byte, then its bytes. -/
def encodeLabels (ls : List (List UInt8)) : List UInt8 :=
  ls.flatMap fun l => UInt8.ofNat l.length :: l

/-- The wire form of a name: its labels, then a zero byte. -/
def encodeName (ls : List (List UInt8)) : List UInt8 := encodeLabels ls ++ [0]

/-- Labels a name may have: each of `1 .. 63` bytes. -/
def ValidLabels (ls : List (List UInt8)) : Prop := ∀ l ∈ ls, 0 < l.length ∧ l.length ≤ 63

instance : DecidablePred ValidLabels := fun ls =>
  inferInstanceAs (Decidable (∀ l ∈ ls, 0 < l.length ∧ l.length ≤ 63))

/-- Reading the name at `p`; see the module header. -/
inductive Walk (packet : List UInt8) : Nat → List (List UInt8) → Nat → Nat → List UInt8 → Prop where
  /-- A zero byte inside the buffer ends the name and is its own wire byte. -/
  | root {p : Nat} : packet[p]? = some 0 → Walk packet p [] 0 1 [0]
  /-- The walk has run off the end of the buffer. -/
  | off {p : Nat} : packet.length ≤ p → Walk packet p [] 0 0 []
  /-- A byte `b` in `1 .. 63` starts a label of `b` bytes, all inside the buffer. -/
  | label {p : Nat} {b : UInt8} {ls : List (List UInt8)} {k w : Nat} {t : List UInt8} :
      packet[p]? = some b → 0 < b.toNat → b.toNat ≤ 63 → p + 1 + b.toNat ≤ packet.length →
      Walk packet (p + 1 + b.toNat) ls k w t →
      Walk packet p ((packet.drop (p + 1)).take b.toNat :: ls) k (1 + b.toNat + w) t
  /-- A byte `b ≥ 0xC0` and the byte after it point strictly backwards; the wire count stops after
  them, whatever follows at the target. -/
  | pointer {p : Nat} {b lo : UInt8} {ls : List (List UInt8)} {k w : Nat} {t : List UInt8} :
      packet[p]? = some b → 192 ≤ b.toNat → packet[p + 1]? = some lo → ptrTarget b lo < p →
      Walk packet (ptrTarget b lo) ls k w t → Walk packet p ls (k + 1) 2 t

/-- The name at `p` is validly encoded: its walk reaches a zero byte inside the buffer after `k`
pointers, and `w` bytes of it lie at `p`. -/
def NameAt (packet : List UInt8) (p : Nat) (ls : List (List UInt8)) (k w : Nat) : Prop :=
  Walk packet p ls k w [0]

@[simp] lemma encodeLabels_nil : encodeLabels [] = [] := rfl

@[simp] lemma encodeLabels_cons (l : List UInt8) (ls : List (List UInt8)) :
    encodeLabels (l :: ls) = UInt8.ofNat l.length :: (l ++ encodeLabels ls) := by
  simp [encodeLabels]

lemma length_encodeLabels (ls : List (List UInt8)) :
    (encodeLabels ls).length = (ls.map fun l => l.length + 1).sum := by
  induction ls with
  | nil => rfl
  | cons l ls ih => simp [ih]; omega

lemma ptrOf_eq (b lo : UInt8) : ptrOf b lo = ptrTarget b lo := by
  have := uint8_toNat_lt lo
  rw [ptrOf, ptrTarget, show (0x3F : Nat) = 2 ^ 6 - 1 from rfl, Nat.and_pow_two_sub_one_eq_mod,
    Nat.shiftLeft_eq, Nat.or_comm, or_mul_pow_eq_add this]
  omega

/-- The bytes a label pass copies are the label's `b` bytes. -/
lemma length_label {packet : List UInt8} {p : Nat} {b : UInt8} (h : p + 1 + b.toNat ≤ packet.length) :
    ((packet.drop (p + 1)).take b.toNat).length = b.toNat := by
  rw [List.length_take, List.length_drop]
  omega

/-- A buffer from a label's length byte on: the byte, the label, and what follows it. -/
lemma drop_eq_label {packet : List UInt8} {p : Nat} {b : UInt8} (h : packet[p]? = some b) (n : Nat) :
    packet.drop p = b :: ((packet.drop (p + 1)).take n ++ packet.drop (p + 1 + n)) := by
  obtain ⟨hp, rfl⟩ := List.getElem?_eq_some_iff.mp h
  rw [List.drop_eq_getElem_cons hp, ← List.drop_drop n (p + 1), List.take_append_drop]

@[simp] lemma getElem?_append_length_cons (pre rest : List UInt8) (x : UInt8) :
    (pre ++ x :: rest)[pre.length]? = some x := by
  rw [List.getElem?_append_right (Nat.le_refl _), Nat.sub_self]
  simp

/-- The length byte of a label in wire form, found where the label starts. -/
@[simp] lemma getElem?_encodeLabels_cons (pre l : List UInt8) (ls : List (List UInt8)) (t : List UInt8) :
    (pre ++ encodeLabels (l :: ls) ++ t)[pre.length]? = some (UInt8.ofNat l.length) := by
  simp only [encodeLabels_cons, List.append_assoc, List.cons_append, getElem?_append_length_cons]

/-- The length byte of a valid label reads back as the label's length. -/
lemma toNat_labelByte {l : List UInt8} (h : l.length ≤ 63) : (UInt8.ofNat l.length).toNat = l.length := by
  rw [uint8_toNat_ofNat, Nat.mod_eq_of_lt (by omega)]

namespace Walk

variable {packet : List UInt8}

/-- A walk is determined by where it starts. -/
lemma unique {p : Nat} {ls ls' : List (List UInt8)} {k k' w w' : Nat} {t t' : List UInt8}
    (h₁ : Walk packet p ls k w t) (h₂ : Walk packet p ls' k' w' t') :
    ls = ls' ∧ k = k' ∧ w = w' ∧ t = t' := by
  induction h₁ generalizing ls' k' w' t' with
  | root h =>
    cases h₂ with
    | root _ => exact ⟨rfl, rfl, rfl, rfl⟩
    | off h' => simp [List.getElem?_eq_none h'] at h
    | label h' h1 => rw [h] at h'; cases h'; simp at h1
    | pointer h' hb => rw [h] at h'; cases h'; simp at hb
  | off h =>
    cases h₂ with
    | off _ => exact ⟨rfl, rfl, rfl, rfl⟩
    | root h' => simp [List.getElem?_eq_none h] at h'
    | label h' => simp [List.getElem?_eq_none h] at h'
    | pointer h' => simp [List.getElem?_eq_none h] at h'
  | label hb h1 h2 _ _ ih =>
    cases h₂ with
    | root h' => rw [hb] at h'; cases h'; simp at h1
    | off h' => simp [List.getElem?_eq_none h'] at hb
    | label hb' _ _ _ hw =>
      rw [hb] at hb'; cases hb'
      obtain ⟨rfl, rfl, rfl, rfl⟩ := ih hw
      exact ⟨rfl, rfl, rfl, rfl⟩
    | pointer hb' hp => rw [hb] at hb'; cases hb'; omega
  | pointer hb hp hlo _ _ ih =>
    cases h₂ with
    | root h' => rw [hb] at h'; cases h'; simp at hp
    | off h' => simp [List.getElem?_eq_none h'] at hb
    | label hb' _ h2 => rw [hb] at hb'; cases hb'; omega
    | pointer hb' _ hlo' _ hw =>
      rw [hb] at hb'; cases hb'
      rw [hlo] at hlo'; cases hlo'
      obtain ⟨rfl, rfl, rfl, rfl⟩ := ih hw
      exact ⟨rfl, rfl, rfl, rfl⟩

/-- Every label of a walk has `1 .. 63` bytes. -/
lemma valid {p : Nat} {ls : List (List UInt8)} {k w : Nat} {t : List UInt8}
    (h : Walk packet p ls k w t) : ValidLabels ls := by
  induction h with
  | root | off => simp [ValidLabels]
  | label _ h1 h2 h3 _ ih =>
    intro l hl
    rcases List.mem_cons.mp hl with rfl | hl
    · rw [length_label h3]; exact ⟨h1, h2⟩
    · exact ih l hl
  | pointer _ _ _ _ _ ih => exact ih

/-- The wire count of a walk stops at its labels and a pointer or terminator. -/
lemma wire_le {p : Nat} {ls : List (List UInt8)} {k w : Nat} {t : List UInt8}
    (h : Walk packet p ls k w t) : w ≤ (encodeLabels ls).length + 2 := by
  induction h with
  | root | off | pointer => simp
  | label _ _ _ h3 _ ih => simp [length_label h3]; omega

/-- A walk ends at the terminator or off the end of the buffer. -/
lemma end_eq {p : Nat} {ls : List (List UInt8)} {k w : Nat} {t : List UInt8}
    (h : Walk packet p ls k w t) : t = [0] ∨ t = [] := by
  induction h with
  | root => exact .inl rfl
  | off => exact .inr rfl
  | label _ _ _ _ _ ih | pointer _ _ _ _ _ ih => exact ih

/-- A walk without pointers that runs off the end of the buffer covers the buffer from `p` on. -/
lemma length_le_of_off {p : Nat} {ls : List (List UInt8)} {w : Nat}
    (h : Walk packet p ls 0 w []) : packet.length ≤ p + w := by
  generalize hk : 0 = k at h
  generalize ht : ([] : List UInt8) = t at h
  induction h with
  | root => cases ht
  | off h => simpa using h
  | label _ _ _ _ _ ih => have := ih hk ht; omega
  | pointer => omega

/-- A name without pointers is its own wire form, lying at `p`. -/
lemma drop_eq_of_ptrFree {p : Nat} {ls : List (List UInt8)} {k w : Nat}
    (h : Walk packet p ls k w [0]) (hk : k = 0) :
    ∃ post, packet.drop p = encodeName ls ++ post ∧ w = (encodeName ls).length := by
  generalize ht : ([0] : List UInt8) = t at h
  induction h with
  | @root p h =>
    obtain ⟨hp, h0⟩ := List.getElem?_eq_some_iff.mp h
    exact ⟨packet.drop (p + 1), by rw [List.drop_eq_getElem_cons hp, h0]; rfl, rfl⟩
  | off => cases ht
  | @label p b ls k w t hb _ _ h3 _ ih =>
    obtain ⟨post, hpost, rfl⟩ := ih hk ht
    refine ⟨post, ?_, by simp [encodeName, length_label h3]; omega⟩
    rw [drop_eq_label hb b.toNat, hpost]
    simp [encodeName, length_label h3]
  | pointer => simp at hk

end Walk

/-- The wire form of valid labels, wherever it lies in a buffer, is read back as those labels with
no pointer. -/
lemma walk_encodeName {ls : List (List UInt8)} (hv : ValidLabels ls) (pre post : List UInt8) :
    NameAt (pre ++ encodeName ls ++ post) pre.length ls 0 (encodeName ls).length := by
  induction ls generalizing pre with
  | nil =>
    exact .root (by rw [List.append_assoc]; exact getElem?_append_length_cons pre _ 0)
  | cons l ls ih =>
    obtain ⟨h1, h2⟩ := hv l (List.mem_cons_self l ls)
    have hb : (UInt8.ofNat l.length).toNat = l.length := by simp; omega
    have e : pre ++ encodeName (l :: ls) ++ post =
        (pre ++ UInt8.ofNat l.length :: l) ++ encodeName ls ++ post := by simp [encodeName]
    have hw : Walk (pre ++ encodeName (l :: ls) ++ post)
        (pre.length + 1 + (UInt8.ofNat l.length).toNat) ls 0 (encodeName ls).length [0] := by
      rw [e, hb]
      simpa [Nat.add_assoc, Nat.add_comm 1] using
        ih (fun l' hl' => hv l' (List.mem_cons_of_mem l hl')) (pre ++ UInt8.ofNat l.length :: l)
    have hl : ((pre ++ encodeName (l :: ls) ++ post).drop (pre.length + 1)).take l.length = l := by
      simp [encodeName]
    have h := Walk.label (by rw [List.append_assoc]; exact getElem?_append_length_cons pre _ _)
      (by omega) (by omega)
      (by simp [encodeName, hb]; omega) hw
    rw [hb, hl] at h
    rw [show (encodeName (l :: ls)).length = 1 + l.length + (encodeName ls).length by
      simp [encodeName]; omega]
    exact h

/-! ## The loop refines the walk -/

variable {packet : List UInt8}

/-- Completeness over an arbitrary state: a walk within the caps is what the loop does. -/
lemma loop_of_walk {p : Nat} {ls : List (List UInt8)} {k w : Nat} {t : List UInt8}
    (hw : Walk packet p ls k w t) :
    ∀ st : NameState, st.pos = p → st.ptrCount + k ≤ 127 →
      st.out.length + (encodeLabels ls).length ≤ dnsMaxNameLen →
      ∃ n st', Run.loop (decompressStep packet) n st = .ok st' ∧
        st'.out = st.out ++ encodeLabels ls ++ t ∧
        st'.wireLen = if st.countingWire then st.wireLen + w else st.wireLen := by
  induction hw with
  | root h =>
    rintro st rfl - hlen
    exact ⟨1, st.root, Run.loop_succ_of_done 0 (decompressStep_root h (by simpa using hlen)),
      by simp [NameState.root], by simp [NameState.root]⟩
  | off h =>
    rintro st rfl - -
    exact ⟨1, st, Run.loop_succ_of_done 0 (decompressStep_of_le h), by simp, by simp⟩
  | @label p b ls k w t hb h1 h2 h3 _ ih =>
    rintro st rfl hk hlen
    have hl := @NameState.label_out_length packet st b h3
    simp only [encodeLabels_cons, List.length_cons, List.length_append, length_label h3] at hlen
    obtain ⟨n, st', hloop, ho, hwl⟩ := ih (st.label packet b) rfl hk (by omega)
    refine ⟨n + 1, st', ?_, ?_, ?_⟩
    · rw [Run.loop_succ_of_yield n (decompressStep_label hb h1 h2 h3 (by omega))]
      exact hloop
    · simp [ho, NameState.label, length_label h3]
    · rw [hwl]
      cases hc : st.countingWire <;> simp [NameState.label, hc]; omega
  | @pointer p b lo ls k w t hb hp hlo ht _ ih =>
    rintro st rfl hk hlen
    rw [← ptrOf_eq] at ht ih
    obtain ⟨n, st', hloop, ho, hwl⟩ := ih (st.jump (ptrOf b lo)) rfl
      (by simp [NameState.jump]; omega) (by simpa [NameState.jump] using hlen)
    refine ⟨n + 1, st', ?_, by simpa [NameState.jump] using ho, ?_⟩
    · rw [Run.loop_succ_of_yield n (decompressStep_pointer hb hp hlo (by omega) ht)]
      exact hloop
    · rw [hwl]
      cases hc : st.countingWire <;> simp [NameState.jump, hc]

/-- Soundness over an arbitrary reachable state: what the loop returns is a walk within the caps. -/
lemma walk_of_loop : ∀ (n : Nat) (st st' : NameState), st.Inv →
    Run.loop (decompressStep packet) n st = .ok st' →
    ∃ ls k w t, Walk packet st.pos ls k w t ∧ st.ptrCount + k ≤ 127 ∧
      st.out.length + (encodeLabels ls).length ≤ dnsMaxNameLen ∧
      st'.out = st.out ++ encodeLabels ls ++ t ∧
      st'.wireLen = if st.countingWire then st.wireLen + w else st.wireLen := by
  intro n
  induction n with
  | zero => intro st st' _ h; simp [Run.loop] at h
  | succ n ih =>
    intro st st' hs h
    rcases Run.loop_succ_eq_ok h with hd | ⟨s, hy, hloop⟩
    · rcases decompressStep_eq_ok hs.out_le hd with ⟨hle, he⟩ | ⟨h0, he⟩ |
          ⟨b, -, -, -, -, -, he⟩ | ⟨b, lo, -, -, -, -, -, he⟩ <;> cases he
      · exact ⟨[], 0, 0, [], .off hle, hs.hops_le, by simpa using hs.out_le, by simp, by simp⟩
      · exact ⟨[], 0, 1, [0], .root h0, hs.hops_le, by simpa using hs.out_le,
          by simp [NameState.root], by simp [NameState.root]⟩
    · have hs' := (decompressStep_yield hs hy).1
      rcases decompressStep_eq_ok hs.out_le hy with ⟨-, he⟩ | ⟨-, he⟩ |
          ⟨b, hb, h1, h2, h3, h4, he⟩ | ⟨b, lo, hb, hp, hlo, hk, ht, he⟩ <;> cases he
      · obtain ⟨ls, k, w, t, hw, hk, hlen, ho, hwl⟩ := ih _ st' hs' hloop
        have hl := @NameState.label_out_length packet st b h3
        refine ⟨_ :: ls, k, 1 + b.toNat + w, t, .label hb h1 h2 h3 hw, hk, ?_, ?_, ?_⟩
        · simp only [encodeLabels_cons, List.length_cons, List.length_append, length_label h3]
          omega
        · simp [ho, NameState.label, length_label h3]
        · rw [hwl]
          cases hc : st.countingWire <;> simp [NameState.label, hc]; omega
      · obtain ⟨ls, k, w, t, hw, hk', hlen, ho, hwl⟩ := ih _ st' hs' hloop
        rw [ptrOf_eq] at ht hw
        refine ⟨ls, k + 1, 2, t, .pointer hb hp hlo ht hw, by simp [NameState.jump] at hk'; omega,
          by simpa [NameState.jump] using hlen, by simpa [NameState.jump] using ho, ?_⟩
        rw [hwl]
        cases hc : st.countingWire <;> simp [NameState.jump, hc]

/-- `dnsasm_decompress_name` returns `DNSASM_OK` exactly when the walk from `offset` follows at most
`127` pointers and its labels fit in `DNS_MAX_NAME_LEN` bytes; it then writes the labels followed by
the walk's end, and returns the walk's wire count. -/
lemma decompressName_eq_ok_iff {offset : Nat} {d : Decompressed} :
    decompressName packet offset = .ok d ↔
      ∃ ls k w t, Walk packet offset ls k w t ∧ k ≤ 127 ∧
        (encodeLabels ls).length ≤ dnsMaxNameLen ∧
        d = ⟨encodeLabels ls ++ t, UInt16.ofNat (encodeLabels ls ++ t).length, UInt32.ofNat w⟩ := by
  constructor
  · intro h
    obtain ⟨st', hloop, hd⟩ := Run.bind_eq_ok.mp h
    obtain ⟨ls, k, w, t, hw, hk, hlen, ho, hwl⟩ := walk_of_loop _ _ _ (.init offset) hloop
    refine ⟨ls, k, w, t, hw, by simpa [NameState.init] using hk, by simpa [NameState.init] using hlen, ?_⟩
    simp only [Run.pure_def, Run.ok.injEq] at hd
    simp [← hd, ho, hwl, NameState.init]
  · rintro ⟨ls, k, w, t, hw, hk, hlen, rfl⟩
    obtain ⟨n, st', hloop, ho, hwl⟩ := loop_of_walk hw (.init offset) rfl
      (by simpa [NameState.init] using hk) (by simpa [NameState.init] using hlen)
    have e := Run.loop_eq_loop (by rw [hloop]; simp) (@decompressLoop_ne_timeout_of_inv packet _ _
      (.init offset) (show _ < 256 by simp [NameState.potential, NameState.init, dnsMaxNameLen]))
    simp only [decompressName, loopBudget, e, hloop, Run.ok_bind, Run.pure_def, ho, hwl]
    simp [NameState.init]

/-- Completeness: a validly encoded name within the caps is decoded in full, with the wire length of
its walk. -/
theorem decompressName_complete {offset k w : Nat} {ls : List (List UInt8)}
    (hw : NameAt packet offset ls k w) (hk : k ≤ 127) (hlen : (encodeName ls).length ≤ dnsMaxNameLen) :
    decompressName packet offset =
      .ok ⟨encodeName ls, UInt16.ofNat (encodeName ls).length, UInt32.ofNat w⟩ :=
  decompressName_eq_ok_iff.mpr ⟨ls, k, w, [0], hw, hk, by simp [encodeName] at hlen; omega, rfl⟩

/-- The labels of `www.example.com`, the name `sampleQuery` asks about. -/
def wwwExampleCom : List (List UInt8) :=
  [[0x77, 0x77, 0x77], [0x65, 0x78, 0x61, 0x6d, 0x70, 0x6c, 0x65], [0x63, 0x6f, 0x6d]]

/-- The question name of `sampleQuery` is `www.example.com`, written without pointers. -/
lemma nameAt_sampleQuery : NameAt sampleQuery 12 wwwExampleCom 0 17 := by
  have hw : NameAt (sampleQuery.take 12 ++ encodeName wwwExampleCom ++ [0x00, 0x01, 0x00, 0x01]) 12
      wwwExampleCom 0 17 := walk_encodeName (by decide) _ _
  rwa [show sampleQuery.take 12 ++ encodeName wwwExampleCom ++ [0x00, 0x01, 0x00, 0x01] = sampleQuery
    by decide] at hw

/-- `sampleQuery` holds `www.example.com` at byte `12`. -/
lemma decompressName_sampleQuery_ok :
    decompressName sampleQuery 12 = .ok ⟨encodeName wwwExampleCom, 17, 17⟩ :=
  decompressName_eq_ok_iff.mpr ⟨wwwExampleCom, 0, 17, [0], nameAt_sampleQuery, by decide, by decide, rfl⟩

/-- The question name of `sampleResponse` is `www.example.com`, written without pointers. -/
lemma nameAt_sampleResponse_question : NameAt sampleResponse 12 wwwExampleCom 0 17 := by
  have hq : NameAt (sampleResponse.take 12 ++ encodeName wwwExampleCom ++ sampleResponse.drop 29) 12
      wwwExampleCom 0 17 := walk_encodeName (by decide) _ _
  rwa [show sampleResponse.take 12 ++ encodeName wwwExampleCom ++ sampleResponse.drop 29 = sampleResponse
    by decide] at hq

/-- The answer name of `sampleResponse`, at byte `33`, is the pointer `c0 0c` to its question name. -/
lemma nameAt_sampleResponse : NameAt sampleResponse 33 wwwExampleCom 1 2 :=
  @Walk.pointer sampleResponse 33 0xc0 0x0c _ _ _ _ rfl (by decide) rfl (by decide) nameAt_sampleResponse_question

/-- `sampleResponse` holds `www.example.com` at byte `33`, through the pointer. -/
lemma decompressName_sampleResponse_ok :
    decompressName sampleResponse 33 = .ok ⟨encodeName wwwExampleCom, 17, 2⟩ :=
  decompressName_eq_ok_iff.mpr ⟨wwwExampleCom, 1, 2, [0], nameAt_sampleResponse, by decide, by decide, rfl⟩

/-- The question name of `sampleQuery`, and the answer name of `sampleResponse` read through its
pointer. -/
theorem decompressName_samples :
    (NameAt sampleQuery 12 wwwExampleCom 0 17 ∧ 0 ≤ 127 ∧
      (encodeName wwwExampleCom).length ≤ dnsMaxNameLen ∧
      decompressName sampleQuery 12 = .ok ⟨encodeName wwwExampleCom, 17, 17⟩) ∧
    (NameAt sampleResponse 33 wwwExampleCom 1 2 ∧ 1 ≤ 127 ∧
      (encodeName wwwExampleCom).length ≤ dnsMaxNameLen ∧
      decompressName sampleResponse 33 = .ok ⟨encodeName wwwExampleCom, 17, 2⟩) :=
  ⟨⟨nameAt_sampleQuery, by decide, by decide,
    decompressName_complete nameAt_sampleQuery (by decide) (by decide)⟩,
   ⟨nameAt_sampleResponse, by decide, by decide,
    decompressName_complete nameAt_sampleResponse (by decide) (by decide)⟩⟩

end Dnsasm
