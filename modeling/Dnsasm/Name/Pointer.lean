import Dnsasm.Name.Errors

/-!
# Name decompression: compression pointers

What a compression pointer means to `dnsasm_decompress_name`: the name at a pointer is the name it
points to, read with two wire bytes, whatever the packet holds (`decompressName_pointer`). The one
difference is the hop limit: the pointer itself is one of the `127`, so the name becomes
`DNSASM_ERR_LOOP` behind one more pointer exactly when, with that pointer counted, its reading meets a
pointer after `127` hops.

The proof compares the readings with the pointer and without it. A reading that starts one hop later
takes the same steps until a pointer finds the hop limit spent (`Reach.shift`, `Fails.shift`), which
happens after exactly `127` hops (`Reach.hops_of_loop`), and a walk that reaches its end is a reading
that passes every check (`Walk.reach`).
-/

namespace Dnsasm

variable {packet : List UInt8}

/-- Pointers are followed only below the hop limit, so a reading that follows one ends at most at it. -/
lemma Reach.hops {p k n q k' n' : Nat} (h : Reach packet p k n q k' n') : k' = k ∨ k' ≤ 127 := by
  induction h with
  | refl => exact .inl rfl
  | label _ _ _ _ _ _ ih => exact ih
  | pointer _ _ _ hk _ _ ih => exact .inr (by omega)

/-- A reading that starts with one more pointer behind it takes the same steps, unless a pointer on
the way finds the hop limit spent. -/
lemma Reach.shift {p k n q k' n' : Nat} (h : Reach packet p k n q k' n') :
    Reach packet p (k + 1) n q (k' + 1) n' ∨
      ∃ r k'' n'', Reach packet p (k + 1) n r k'' n'' ∧ Fails packet r k'' n'' .loop := by
  induction h with
  | refl => exact .inl .refl
  | label hb h1 h2 h3 h4 _ ih =>
    rcases ih with h | ⟨r, k'', n'', h, hf⟩
    · exact .inl (.label hb h1 h2 h3 h4 h)
    · exact .inr ⟨r, k'', n'', .label hb h1 h2 h3 h4 h, hf⟩
  | @pointer p k n _ _ _ _ _ hb h1 hlo hk ht _ ih =>
    by_cases hk' : k + 1 + 1 ≤ 127
    · rcases ih with h | ⟨r, k'', n'', h, hf⟩
      · exact .inl (.pointer hb h1 hlo hk' ht h)
      · exact .inr ⟨r, k'', n'', .pointer hb h1 hlo hk' ht h, hf⟩
    · exact .inr ⟨p, k + 1, n, .refl, .loop hb h1 hlo (by omega)⟩

/-- A check that fails one hop later fails with the same code, or the hop limit fails first. -/
lemma Fails.shift {p k n : Nat} {e : Err} (h : Fails packet p k n e) :
    Fails packet p (k + 1) n e ∨ Fails packet p (k + 1) n .loop := by
  cases h with
  | ptrShort hb h1 h2 => exact .inl (.ptrShort hb h1 h2)
  | loop hb h1 hlo hk => exact .inl (.loop hb h1 hlo (by omega))
  | pointer hb h1 hlo hk ht =>
    by_cases hk' : k + 1 + 1 ≤ 127
    · exact .inl (.pointer hb h1 hlo hk' ht)
    · exact .inr (.loop hb h1 hlo (by omega))
  | name hb h1 h2 => exact .inl (.name hb h1 h2)
  | labelShort hb h1 h2 h3 => exact .inl (.labelShort hb h1 h2 h3)
  | overflow hb h1 h2 h3 h4 => exact .inl (.overflow hb h1 h2 h3 h4)

/-- A walk within the caps, read after `k₀` pointers and `n₀` bytes, passes every check up to its
end. -/
lemma Walk.reach {p : Nat} {ls : List (List UInt8)} {k w : Nat} {t : List UInt8}
    (hw : Walk packet p ls k w t) :
    ∀ k₀ n₀, k₀ + k ≤ 127 → n₀ + (encodeLabels ls).length ≤ dnsMaxNameLen →
      ∃ r, Reach packet p k₀ n₀ r (k₀ + k) (n₀ + (encodeLabels ls).length) := by
  induction hw with
  | root _ | off _ => exact fun k₀ n₀ _ _ => ⟨_, .refl⟩
  | @label _ b ls _ _ _ hb h1 h2 h3 _ ih =>
    intro k₀ n₀ hk hn
    simp only [encodeLabels_cons, List.length_cons, List.length_append, length_label h3] at hn ⊢
    obtain ⟨r, hr⟩ := ih k₀ (n₀ + 1 + b.toNat) hk (by omega)
    refine ⟨r, .label hb h1 h2 h3 (by omega) ?_⟩
    rwa [show n₀ + (b.toNat + (encodeLabels ls).length + 1) = n₀ + 1 + b.toNat + (encodeLabels ls).length
      by omega]
  | @pointer _ _ _ _ k _ _ hb h1 hlo ht _ ih =>
    intro k₀ n₀ hk hn
    obtain ⟨r, hr⟩ := ih (k₀ + 1) n₀ (by omega) hn
    exact ⟨r, .pointer hb h1 hlo (by omega) ht (by rwa [show k₀ + 1 + k = k₀ + (k + 1) by omega] at hr)⟩

/-- A pointer that finds the hop limit spent, in a reading that starts one hop in, is met after
exactly `127` hops. -/
lemma Reach.hops_of_loop {q r k n : Nat} (hr : Reach packet q 1 0 r k n) (hf : Fails packet r k n .loop) :
    k = 127 := by
  cases hf with
  | loop _ _ _ hk => rcases hr.hops with h | h <;> omega

/-- A compression pointer stands for the name it points to: at a pointer `b lo` aimed strictly
backwards, `dnsasm_decompress_name` returns what it returns at the target, with the wire count `2`.
The one exception is the hop limit: it returns `DNSASM_ERR_LOOP` instead only when the reading of the
target, with this pointer counted, meets a pointer after `127` hops. -/
theorem decompressName_pointer {p : Nat} {b lo : UInt8} (hb : packet[p]? = some b) (h1 : 192 ≤ b.toNat)
    (hlo : packet[p + 1]? = some lo) (ht : ptrTarget b lo < p) :
    (∀ d, decompressName packet (ptrTarget b lo) = .ok d →
      decompressName packet p = .ok ⟨d.out, d.outLen, 2⟩ ∨
        decompressName packet p = .error .loop ∧
          ∃ r n, Reach packet (ptrTarget b lo) 1 0 r 127 n ∧ Fails packet r 127 n .loop) ∧
    (∀ e, decompressName packet (ptrTarget b lo) = .error e →
      decompressName packet p = .error e ∨
        decompressName packet p = .error .loop ∧
          ∃ r n, Reach packet (ptrTarget b lo) 1 0 r 127 n ∧ Fails packet r 127 n .loop) := by
  have hstep : Reach packet p 0 0 (ptrTarget b lo) 1 0 := .pointer hb h1 hlo (by decide) ht .refl
  have hloop : ∀ {q k n}, Reach packet (ptrTarget b lo) 1 0 q k n → Fails packet q k n .loop →
      decompressName packet p = .error .loop ∧
        ∃ r n, Reach packet (ptrTarget b lo) 1 0 r 127 n ∧ Fails packet r 127 n .loop := by
    intro q k n hr hf
    obtain rfl := hr.hops_of_loop hf
    exact ⟨decompressName_error_iff.mpr ⟨_, _, _, hstep.trans hr, hf⟩, q, n, hr, hf⟩
  refine ⟨fun d hd => ?_, fun e he => ?_⟩
  · obtain ⟨ls, k, w, t, hw, hk, hcap, rfl⟩ := decompressName_eq_ok_iff.mp hd
    by_cases hk' : k + 1 ≤ 127
    · exact .inl (decompressName_eq_ok_iff.mpr ⟨ls, k + 1, 2, t, .pointer hb h1 hlo ht hw, hk', hcap, rfl⟩)
    · obtain ⟨r, hr⟩ := hw.reach 0 0 (by omega) (by omega)
      rcases hr.shift with h | ⟨q, k'', n'', h, hf⟩
      · exact absurd h.hops (by omega)
      · exact .inr (hloop h hf)
  · obtain ⟨q, k, n, hr, hf⟩ := decompressName_error_iff.mp he
    rcases hr.shift with h | ⟨r, k'', n'', h, hf'⟩
    · rcases hf.shift with hf | hf
      · exact .inl (decompressName_error_iff.mpr ⟨_, _, _, hstep.trans h, hf⟩)
      · exact .inr (hloop h hf)
    · exact .inr (hloop h hf')

/-- The answer name of `sampleResponse`, `c0 0c` at byte `33`, points to the question name. -/
theorem decompressName_pointer_sampleResponse :
    sampleResponse[33]? = some 0xc0 ∧ 192 ≤ (0xc0 : UInt8).toNat ∧ sampleResponse[33 + 1]? = some 0x0c ∧
      ptrTarget 0xc0 0x0c < 33 ∧
      ((∀ d, decompressName sampleResponse (ptrTarget 0xc0 0x0c) = .ok d →
        decompressName sampleResponse 33 = .ok ⟨d.out, d.outLen, 2⟩ ∨
          decompressName sampleResponse 33 = .error .loop ∧
            ∃ r n, Reach sampleResponse (ptrTarget 0xc0 0x0c) 1 0 r 127 n ∧
              Fails sampleResponse r 127 n .loop) ∧
      (∀ e, decompressName sampleResponse (ptrTarget 0xc0 0x0c) = .error e →
        decompressName sampleResponse 33 = .error e ∨
          decompressName sampleResponse 33 = .error .loop ∧
            ∃ r n, Reach sampleResponse (ptrTarget 0xc0 0x0c) 1 0 r 127 n ∧
              Fails sampleResponse r 127 n .loop)) :=
  ⟨rfl, by decide, rfl, by decide, decompressName_pointer rfl (by decide) rfl (by decide)⟩

end Dnsasm
