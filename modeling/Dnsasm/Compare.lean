import Dnsasm.Name.Walk

/-!
# Name comparison and lookup

`dnsasm_name_equal` and `dnsasm_name_find` (`dnsasm.c`, lines 294-339), the reference versions of the
comparison a zone lookup runs. The comparison folds `A .. Z` to `a .. z` on every byte, length bytes
included; on well-formed names this is the label-wise comparison (`nameEqual_iff_labels`), since no
length byte of a label of at most `63` bytes is a letter. On any buffers and lengths it returns `0`
exactly on in-bounds prefixes equal up to case, an equivalence (`nameEqual_equivalence`).

The lookup computes each entry's length by walking its labels and returns the first entry equal to
the needle. One loop lemma says this for any test an entry can be read against
(`nameFindLoop_eq_findIdx`): on well-formed names followed by anything it is the name comparison
(`nameFind_eq_findIdx`), and on any entries of `2 * DNS_MAX_NAME_LEN + 1` bytes it is a comparison of
prefixes up to the end of the label walk, `scanEnd` (`nameFind_first_match`). The walk reads an
entry's length byte before it checks the cursor bound, so one length byte can send it past the end
of a buffer of `DNS_MAX_NAME_LEN + 1` bytes (`nameFind_reads_past_entry`), and two can send it to
`hay[510]`.
-/

namespace Dnsasm

/-- The case folding of `dnsasm_name_equal`: `'A' .. 'Z'` become `'a' .. 'z'`, other bytes stay. -/
def foldCase (c : UInt8) : UInt8 := if c ≥ 65 ∧ c ≤ 90 then c + 32 else c

/-- The loop of `dnsasm_name_equal` from byte `i`, with `n` bytes left to compare. -/
def nameEqualLoop (a b : List UInt8) (i : Nat) : Nat → Run Int
  | 0 => .ok 0
  | n + 1 => do
    let ca ← Run.load a i
    let cb ← Run.load b i
    if foldCase ca ≠ foldCase cb then .ok 1 else nameEqualLoop a b (i + 1) n

/-- `dnsasm_name_equal` (`dnsasm.c`, line 294): `0` when the names are equal up to case. -/
def nameEqual (a : List UInt8) (aLen : Nat) (b : List UInt8) (bLen : Nat) : Run Int :=
  if aLen ≠ bLen then .ok 1 else nameEqualLoop a b 0 aLen

lemma foldCase_of_lt {c : UInt8} (h : c.toNat < 65) : foldCase c = c := by
  rw [foldCase, if_neg]
  intro ⟨h1, _⟩
  exact absurd (UInt8.le_def.mp h1) (by simpa using h)

/-- Comparing `n` bytes from `i` inside both names compares their folded slices. -/
lemma nameEqualLoop_eq {a b : List UInt8} {i n : Nat} (ha : i + n ≤ a.length) (hb : i + n ≤ b.length) :
    nameEqualLoop a b i n =
      .ok (if ((a.drop i).take n).map foldCase = ((b.drop i).take n).map foldCase then 0 else 1) := by
  induction n generalizing i with
  | zero => simp [nameEqualLoop]
  | succ n ih =>
    rw [nameEqualLoop, Run.load_of_lt (by omega), Run.ok_bind, Run.load_of_lt (by omega), Run.ok_bind,
      ih (by omega) (by omega), List.drop_eq_getElem_cons (show i < a.length by omega),
      List.drop_eq_getElem_cons (show i < b.length by omega)]
    by_cases h : foldCase a[i] = foldCase b[i]
    · simp only [h, ne_eq, not_true_eq_false, if_false, List.take_succ_cons, List.map_cons,
        List.cons.injEq, true_and]
    · simp only [h, ne_eq, not_false_eq_true, if_true, if_false, List.take_succ_cons, List.map_cons,
        List.cons.injEq, false_and]

/-- On whole names, `dnsasm_name_equal` never faults and returns `0` exactly when their folded bytes
agree. -/
lemma nameEqual_eq (a b : List UInt8) :
    nameEqual a a.length b b.length = .ok (if a.map foldCase = b.map foldCase then 0 else 1) := by
  by_cases hl : a.length = b.length
  · rw [nameEqual, if_neg (not_not.mpr hl), nameEqualLoop_eq (by simp) (by simp [hl])]
    rw [List.drop_zero, List.drop_zero, List.take_length, List.take_of_length_le (Nat.le_of_eq hl.symm)]
  · rw [nameEqual, if_pos hl, if_neg fun h => hl (by simpa using congrArg List.length h)]

lemma nameEqual_eq_zero_iff (a b : List UInt8) :
    nameEqual a a.length b b.length = .ok 0 ↔ a.map foldCase = b.map foldCase := by
  rw [nameEqual_eq]
  split <;> simp_all

/-- Folding leaves the length bytes of valid labels alone. -/
lemma map_foldCase_encodeLabels {ls : List (List UInt8)} (hv : ValidLabels ls) :
    (encodeLabels ls).map foldCase = encodeLabels (ls.map (List.map foldCase)) := by
  induction ls with
  | nil => rfl
  | cons l ls ih =>
    obtain ⟨-, h2⟩ := hv l (List.mem_cons_self l ls)
    simp only [encodeLabels_cons, List.map_cons, List.map_append, List.length_map,
      ih fun l' hl' => hv l' (List.mem_cons_of_mem l hl'),
      foldCase_of_lt (show (UInt8.ofNat l.length).toNat < 65 by simp; omega)]

lemma map_foldCase_encodeName {ls : List (List UInt8)} (hv : ValidLabels ls) :
    (encodeName ls).map foldCase = encodeName (ls.map (List.map foldCase)) := by
  rw [encodeName, List.map_append, map_foldCase_encodeLabels hv]
  rfl

/-- Valid labels are determined by their wire form. -/
lemma encodeName_inj {ls ls' : List (List UInt8)} (hv : ValidLabels ls) (hv' : ValidLabels ls')
    (h : encodeName ls = encodeName ls') : ls = ls' := by
  have hw := walk_encodeName hv [] []
  have hw' := walk_encodeName hv' [] []
  simp only [List.nil_append, List.append_nil, List.length_nil] at hw hw'
  rw [h] at hw
  exact (hw.unique hw').1

lemma ValidLabels.map_foldCase {ls : List (List UInt8)} (hv : ValidLabels ls) :
    ValidLabels (ls.map (List.map foldCase)) := by
  simpa [ValidLabels] using hv

/-- Case folding is label-safe: on well-formed names, `dnsasm_name_equal` returns `0` exactly when
the names have the same labels up to case, in the same order. -/
theorem nameEqual_iff_labels {ls ls' : List (List UInt8)} (hv : ValidLabels ls) (hv' : ValidLabels ls') :
    nameEqual (encodeName ls) (encodeName ls).length (encodeName ls') (encodeName ls').length = .ok 0 ↔
      List.Forall₂ (fun l l' => l.map foldCase = l'.map foldCase) ls ls' := by
  rw [nameEqual_eq_zero_iff, map_foldCase_encodeName hv, map_foldCase_encodeName hv']
  constructor
  · intro h
    have := encodeName_inj hv.map_foldCase hv'.map_foldCase h
    rwa [← List.forall₂_eq_eq_eq, List.forall₂_map_left_iff, List.forall₂_map_right_iff] at this
  · intro h
    have : List.Forall₂ (· = ·) (ls.map (List.map foldCase)) (ls'.map (List.map foldCase)) :=
      List.forall₂_map_left_iff.mpr (List.forall₂_map_right_iff.mpr h)
    rw [List.forall₂_eq_eq_eq] at this
    rw [this]

/-- `WWW.EXAMPLE.COM`: the labels of `wwwExampleCom` in capitals. -/
def wwwExampleComUpper : List (List UInt8) :=
  [[0x57, 0x57, 0x57], [0x45, 0x58, 0x41, 0x4d, 0x50, 0x4c, 0x45], [0x43, 0x4f, 0x4d]]

theorem nameEqual_wwwExampleComUpper :
    ValidLabels wwwExampleCom ∧ ValidLabels wwwExampleComUpper ∧
      List.Forall₂ (fun l l' => l.map foldCase = l'.map foldCase) wwwExampleCom wwwExampleComUpper ∧
      nameEqual (encodeName wwwExampleCom) (encodeName wwwExampleCom).length
        (encodeName wwwExampleComUpper) (encodeName wwwExampleComUpper).length = .ok 0 :=
  have hf : List.Forall₂ (fun l l' => l.map foldCase = l'.map foldCase) wwwExampleCom wwwExampleComUpper :=
    .cons (by decide) (.cons (by decide) (.cons (by decide) .nil))
  ⟨by decide, by decide, hf, (nameEqual_iff_labels (by decide) (by decide)).mpr hf⟩

/-! ## The comparison on any lengths -/

/-- From a start inside both buffers, the loop returns `0` exactly when both slices lie inside them
and agree after folding: equality is never reported from bytes it could not read. -/
lemma nameEqualLoop_eq_zero_iff {a b : List UInt8} {i n : Nat} (hia : i ≤ a.length) (hib : i ≤ b.length) :
    nameEqualLoop a b i n = .ok 0 ↔ i + n ≤ a.length ∧ i + n ≤ b.length ∧
      ((a.drop i).take n).map foldCase = ((b.drop i).take n).map foldCase := by
  induction n generalizing i with
  | zero => simp [nameEqualLoop, hia, hib]
  | succ n ih =>
    by_cases ha : i < a.length
    · by_cases hb : i < b.length
      · rw [nameEqualLoop, Run.load_of_lt ha, Run.ok_bind, Run.load_of_lt hb, Run.ok_bind,
          List.drop_eq_getElem_cons ha, List.drop_eq_getElem_cons hb]
        by_cases h : foldCase a[i] = foldCase b[i]
        · simp only [h, ne_eq, not_true_eq_false, if_false, ih ha hb, List.take_succ_cons, List.map_cons,
            List.cons.injEq, true_and, show i + 1 + n = i + (n + 1) by omega]
        · simp only [h, ne_eq, not_false_eq_true, if_true, List.take_succ_cons, List.map_cons,
            List.cons.injEq, false_and, and_false]
          simp
      · have : ¬ i + (n + 1) ≤ b.length := by omega
        have hbo : Run.load b i = .oob := by simp [Run.load, List.getElem?_eq_none (Nat.le_of_not_lt hb)]
        simp [nameEqualLoop, Run.load_of_lt ha, hbo, this]
    · have : ¬ i + (n + 1) ≤ a.length := by omega
      simp [nameEqualLoop, Run.load, List.getElem?_eq_none (Nat.le_of_not_lt ha), this]

/-- Swapping the names changes nothing, faults included: each pass reads both bytes before it
compares them. -/
lemma nameEqualLoop_comm (a b : List UInt8) (i n : Nat) : nameEqualLoop a b i n = nameEqualLoop b a i n := by
  induction n generalizing i with
  | zero => rfl
  | succ n ih =>
    cases ha : a[i]? <;> cases hb : b[i]? <;> simp [nameEqualLoop, Run.load, ha, hb, ih, eq_comm]

lemma nameEqual_comm (a : List UInt8) (m : Nat) (b : List UInt8) (n : Nat) :
    nameEqual a m b n = nameEqual b n a m := by
  by_cases h : m = n
  · subst h
    rw [nameEqual, nameEqual, nameEqualLoop_comm]
  · rw [nameEqual, nameEqual, if_pos h, if_pos (Ne.symm h)]

lemma nameEqual_eq_zero_iff_take {a b : List UInt8} {m n : Nat} :
    nameEqual a m b n = .ok 0 ↔
      m = n ∧ m ≤ a.length ∧ m ≤ b.length ∧ (a.take m).map foldCase = (b.take m).map foldCase := by
  by_cases h : m = n
  · subst h
    simp [nameEqual, nameEqualLoop_eq_zero_iff (Nat.zero_le a.length) (Nat.zero_le b.length)]
  · simp [nameEqual, h]

/-- `dnsasm_name_equal` as a relation, for any lengths: it returns `0` exactly when the lengths agree,
lie inside both buffers and the prefixes agree up to case, so `0` is an equivalence (reflexive on
every prefix of a buffer); and swapping the names never changes what it does, faults included. -/
theorem nameEqual_equivalence :
    (∀ (a : List UInt8) (m : Nat) (b : List UInt8) (n : Nat), nameEqual a m b n = .ok 0 ↔
      m = n ∧ m ≤ a.length ∧ m ≤ b.length ∧ (a.take m).map foldCase = (b.take m).map foldCase) ∧
    (∀ (a : List UInt8) (m : Nat) (b : List UInt8) (n : Nat), nameEqual a m b n = nameEqual b n a m) ∧
    (∀ (a : List UInt8) (m : Nat) (b : List UInt8) (n : Nat) (c : List UInt8) (k : Nat),
      nameEqual a m b n = .ok 0 → nameEqual b n c k = .ok 0 → nameEqual a m c k = .ok 0) := by
  refine ⟨fun a m b n => nameEqual_eq_zero_iff_take, nameEqual_comm, fun a m b n c k hab hbc => ?_⟩
  obtain ⟨rfl, ha, -, e₁⟩ := nameEqual_eq_zero_iff_take.mp hab
  obtain ⟨rfl, -, hc, e₂⟩ := nameEqual_eq_zero_iff_take.mp hbc
  exact nameEqual_eq_zero_iff_take.mpr ⟨rfl, ha, hc, e₁.trans e₂⟩

/-- `www.example.com` equals itself in capitals, both ways round, and so equals itself. -/
theorem nameEqual_equivalence_wwwExampleCom :
    nameEqual (encodeName wwwExampleCom) 17 (encodeName wwwExampleComUpper) 17 = .ok 0 ∧
      nameEqual (encodeName wwwExampleComUpper) 17 (encodeName wwwExampleCom) 17 = .ok 0 ∧
      nameEqual (encodeName wwwExampleCom) 17 (encodeName wwwExampleCom) 17 = .ok 0 :=
  have h : nameEqual (encodeName wwwExampleCom) 17 (encodeName wwwExampleComUpper) 17 = .ok 0 :=
    (nameEqual_equivalence.1 _ 17 _ 17).mpr ⟨rfl, by decide, by decide, by decide⟩
  have h' := (nameEqual_equivalence.2.1 (encodeName wwwExampleComUpper) 17 (encodeName wwwExampleCom) 17).trans h
  ⟨h, h', nameEqual_equivalence.2.2 _ _ _ _ _ _ h h'⟩

/-! ## Lookup -/

/-- One pass of the label walk of `dnsasm_name_find` (`dnsasm.c`, lines 328-331): the length byte at
`pos` is read before the bound on `pos` is checked. -/
def hayLengthStep (hay : List UInt8) (pos : Nat) : Run (ForInStep Nat) := do
  let b ← Run.load hay pos
  if b ≠ 0 ∧ pos < dnsMaxNameLen then pure (.yield (pos + 1 + b.toNat)) else pure (.done pos)

/-- Passes given to the label walk: it continues only from `pos < DNS_MAX_NAME_LEN` and moves `pos`
forward, so it stops within `DNS_MAX_NAME_LEN + 1` passes (`hayLength_ne_timeout`). -/
def scanBudget : Nat := dnsMaxNameLen + 1

/-- `hay_len` of `dnsasm_name_find`: where the walk stops, plus the terminator. -/
def hayLength (hay : List UInt8) : Run Nat := do
  let pos ← Run.loop (hayLengthStep hay) scanBudget 0
  pure (pos + 1)

/-- `(int)i` for a `size_t` index: its low 32 bits read as a two's-complement value. -/
def toCInt (i : Nat) : Int :=
  if i % 2 ^ 32 < 2 ^ 31 then (i % 2 ^ 32 : Nat) else (i % 2 ^ 32 : Nat) - 2 ^ 32

/-- The loop of `dnsasm_name_find` from entry `i`, with `n` entries left; `haystack[i]` is read from
the array of entry pointers. -/
def nameFindLoop (needle : List UInt8) (needleLen : Nat) (haystack : List (List UInt8)) (i : Nat) :
    Nat → Run Int
  | 0 => .ok (-1)
  | n + 1 => do
    let hay ← match haystack[i]? with
      | some hay => Run.ok hay
      | none => Run.oob
    let hayLen ← hayLength hay
    let r ← nameEqual needle needleLen hay hayLen
    if r = 0 then .ok (toCInt i) else nameFindLoop needle needleLen haystack (i + 1) n

/-- `dnsasm_name_find` (`dnsasm.c`, line 319). -/
def nameFind (needle : List UInt8) (needleLen : Nat) (haystack : List (List UInt8)) (count : Nat) :
    Run Int :=
  nameFindLoop needle needleLen haystack 0 count

lemma hayLengthStep_eq {hay : List UInt8} {pos : Nat} {b : UInt8} (h : hay[pos]? = some b) :
    hayLengthStep hay pos =
      .ok (if b ≠ 0 ∧ pos < dnsMaxNameLen then .yield (pos + 1 + b.toNat) else .done pos) := by
  rw [hayLengthStep, Run.load_eq_ok.mpr h, Run.ok_bind]
  split <;> rfl

lemma hayLengthStep_of_le {hay : List UInt8} {pos : Nat} (h : hay.length ≤ pos) :
    hayLengthStep hay pos = .oob := by
  simp [hayLengthStep, Run.load, List.getElem?_eq_none h]

lemma hayLengthStep_ne_timeout (hay : List UInt8) (pos : Nat) : hayLengthStep hay pos ≠ .timeout := by
  cases h : hay[pos]? with
  | none => simp [hayLengthStep_of_le (List.getElem?_eq_none_iff.mp h)]
  | some b => rw [hayLengthStep_eq h]; split <;> simp

/-- A pass that continues starts below `DNS_MAX_NAME_LEN` and moves forward. -/
lemma hayLengthStep_yield {hay : List UInt8} {pos pos' : Nat}
    (h : hayLengthStep hay pos = .ok (.yield pos')) : pos < dnsMaxNameLen ∧ pos < pos' := by
  cases hb : hay[pos]? with
  | none => simp [hayLengthStep_of_le (List.getElem?_eq_none_iff.mp hb)] at h
  | some b =>
    rw [hayLengthStep_eq hb] at h
    split at h
    · cases h; omega
    · cases h

lemma hayLength_ne_timeout (hay : List UInt8) : Run.loop (hayLengthStep hay) scanBudget 0 ≠ .timeout :=
  Run.loop_ne_timeout (fun _ => True) (fun pos => dnsMaxNameLen - pos)
    (fun pos _ => hayLengthStep_ne_timeout hay pos)
    (fun _ _ _ h => ⟨trivial, by have := hayLengthStep_yield h; dsimp only; omega⟩) scanBudget 0 trivial
    (by decide)

/-- On a well-formed name the walk stops at the terminator, from any start whose labels end by
`DNS_MAX_NAME_LEN`. -/
lemma hayLoop_encodeName {ls : List (List UInt8)} (hv : ValidLabels ls) (pre rest : List UInt8)
    (h : pre.length + (encodeLabels ls).length ≤ dnsMaxNameLen) :
    Run.loop (hayLengthStep (pre ++ encodeName ls ++ rest)) (ls.length + 1) pre.length =
      .ok (pre.length + (encodeLabels ls).length) := by
  induction ls generalizing pre with
  | nil =>
    refine Run.loop_succ_of_done 0 ?_
    rw [hayLengthStep_eq (by rw [List.append_assoc]; exact getElem?_append_length_cons pre rest 0)]
    simp
  | cons l ls ih =>
    obtain ⟨h1, h2⟩ := hv l (List.mem_cons_self l ls)
    have hb : (UInt8.ofNat l.length).toNat = l.length := by simp; omega
    simp only [encodeLabels_cons, List.length_cons, List.length_append] at h
    have e : pre ++ encodeName (l :: ls) ++ rest =
        (pre ++ UInt8.ofNat l.length :: l) ++ encodeName ls ++ rest := by
      simp [encodeName]
    have hcond : UInt8.ofNat l.length ≠ 0 ∧ pre.length < dnsMaxNameLen :=
      ⟨fun h0 => by rw [h0] at hb; simp at hb; omega, by omega⟩
    have hstep : hayLengthStep (pre ++ encodeName (l :: ls) ++ rest) pre.length =
        .ok (.yield (pre ++ UInt8.ofNat l.length :: l).length) := by
      rw [hayLengthStep_eq (by rw [List.append_assoc]; exact getElem?_append_length_cons pre _ _),
        if_pos hcond, hb, List.length_append, List.length_cons, Nat.add_comm l.length 1, Nat.add_assoc]
    rw [List.length_cons, Run.loop_succ_of_yield _ hstep, e,
      ih (fun l' hl' => hv l' (List.mem_cons_of_mem l hl')) _ (by simp; omega)]
    simp [hb]
    omega

/-- The length `dnsasm_name_find` computes for a well-formed name of at most
`DNS_MAX_NAME_LEN + 1` bytes is its length through the terminator. -/
lemma hayLength_encodeName {ls : List (List UInt8)} (hv : ValidLabels ls)
    (hlen : (encodeName ls).length ≤ dnsMaxNameLen + 1) (rest : List UInt8) :
    hayLength (encodeName ls ++ rest) = .ok (encodeName ls).length := by
  have h := hayLoop_encodeName hv [] rest (by simp [encodeName] at hlen ⊢; omega)
  simp only [List.nil_append, List.length_nil, Nat.zero_add] at h
  rw [hayLength, Run.loop_eq_loop (by rw [h]; simp) (hayLength_ne_timeout _), h]
  simp [encodeName]

lemma toCInt_of_lt {i : Nat} (h : i < 2 ^ 31) : toCInt i = i := by
  rw [toCInt, Nat.mod_eq_of_lt (by omega), if_pos h]

lemma nameEqual_ok {a b : List UInt8} {m n : Nat} (ha : m ≤ a.length) (hb : n ≤ b.length) :
    ∃ r, nameEqual a m b n = .ok r := by
  by_cases h : m = n
  · subst h
    exact ⟨_, by rw [nameEqual, if_neg (not_not.mpr rfl), nameEqualLoop_eq (by simpa using ha)
      (by simpa using hb)]⟩
  · exact ⟨1, if_pos h⟩

/-- The loop from entry `i` returns the first of the next `n` entries that `P` picks, as a C `int`,
when on each of them computing `hay_len` and comparing returns, with `0` exactly where `P` holds. The
entries are `xs.map f`, so that `P` may read what an entry was built from. -/
lemma nameFindLoop_eq_findIdx {β : Type} (f : β → List UInt8) (P : β → Bool) {needle : List UInt8}
    {needleLen : Nat} {xs : List β} :
    ∀ n i, i + n ≤ xs.length →
      (∀ x ∈ (xs.drop i).take n, ∃ r, (hayLength (f x) >>= nameEqual needle needleLen (f x)) = .ok r ∧
        (r = 0 ↔ P x)) →
      nameFindLoop needle needleLen (xs.map f) i n =
        .ok ((((xs.drop i).take n).findIdx? P i).elim (-1) toCInt)
  | 0, _, _, _ => rfl
  | n + 1, i, hi, hent => by
    have hl : i < xs.length := by omega
    have hd : (xs.drop i).take (n + 1) = xs[i] :: (xs.drop (i + 1)).take n := by
      rw [List.drop_eq_getElem_cons hl, List.take_succ_cons]
    obtain ⟨r, hr, hP⟩ := hent _ (by rw [hd]; exact List.mem_cons_self _ _)
    obtain ⟨m, hm, hr⟩ := Run.bind_eq_ok.mp hr
    rw [hd, List.findIdx?_cons]
    simp only [nameFindLoop, List.getElem?_map, List.getElem?_eq_getElem hl, Option.map_some', Run.ok_bind,
      hm, hr]
    by_cases h0 : r = 0
    · rw [if_pos h0, if_pos (hP.mp h0)]
      rfl
    · rw [if_neg h0, if_neg (mt hP.mpr h0), nameFindLoop_eq_findIdx f P n (i + 1) (by omega)
        (fun x h => hent x (by rw [hd]; exact List.mem_cons_of_mem _ h))]

section Find

variable {needle : List UInt8}

/-- The entries a lookup for `needle` stops at: a name of the needle's length, whatever follows it,
that `dnsasm_name_equal` finds equal to the needle. -/
abbrev FindsNeedle (needle : List UInt8) (e : List (List UInt8) × List UInt8) : Bool :=
  decide ((encodeName e.1).length = needle.length ∧
    nameEqual needle needle.length (encodeName e.1 ++ e.2) (encodeName e.1).length = .ok 0)

/-- On a well-formed name followed by anything, `hay_len` is the name's length, and comparing returns
`0` exactly on the entries the lookup stops at. -/
lemma findsNeedle_entry {e : List (List UInt8) × List UInt8} (hv : ValidLabels e.1)
    (hlen : (encodeName e.1).length ≤ dnsMaxNameLen + 1) :
    ∃ r, (hayLength (encodeName e.1 ++ e.2) >>= nameEqual needle needle.length (encodeName e.1 ++ e.2)) =
      .ok r ∧ (r = 0 ↔ FindsNeedle needle e) := by
  obtain ⟨r, hr⟩ := @nameEqual_ok needle (encodeName e.1 ++ e.2) _ (encodeName e.1).length le_rfl
    (by simp only [List.length_append]; omega)
  refine ⟨r, by rw [hayLength_encodeName hv hlen e.2, Run.ok_bind, hr], ?_⟩
  rw [decide_eq_true_iff, hr, Run.ok.injEq]
  exact ⟨fun h0 => ⟨(nameEqual_eq_zero_iff_take.mp (h0 ▸ hr)).1.symm, h0⟩, And.right⟩

/-- `dnsasm_name_find` over entries that each hold a well-formed name of at most
`DNS_MAX_NAME_LEN + 1` bytes, followed by anything, returns the first of the `count` entries whose name
has the needle's length and that `dnsasm_name_equal` finds equal to it, and `-1` when there is none. -/
theorem nameFind_eq_findIdx {entries : List (List (List UInt8) × List UInt8)} {count : Nat}
    (hc : count ≤ entries.length) (hmax : count ≤ 2 ^ 31 - 1)
    (hwf : ∀ e ∈ entries, ValidLabels e.1 ∧ (encodeName e.1).length ≤ dnsMaxNameLen + 1) :
    nameFind needle needle.length (entries.map fun e => encodeName e.1 ++ e.2) count =
      .ok ((((entries.take count).findIdx? fun e => decide ((encodeName e.1).length = needle.length ∧
        nameEqual needle needle.length (encodeName e.1 ++ e.2) (encodeName e.1).length = .ok 0)).map
          fun i : Nat => (i : Int)).getD (-1)) := by
  have hent : ∀ e ∈ (entries.drop 0).take count, ∃ r, (hayLength (encodeName e.1 ++ e.2) >>=
      nameEqual needle needle.length (encodeName e.1 ++ e.2)) = .ok r ∧ (r = 0 ↔ FindsNeedle needle e) :=
    fun e he => findsNeedle_entry (hwf e (List.mem_of_mem_take he)).1 (hwf e (List.mem_of_mem_take he)).2
  rw [nameFind, nameFindLoop_eq_findIdx _ (FindsNeedle needle) count 0 (by omega) hent, List.drop_zero]
  cases h : (entries.take count).findIdx? (FindsNeedle needle) with
  | none => rfl
  | some k =>
    obtain ⟨hk, -⟩ := List.findIdx?_eq_some_iff_getElem.mp h
    simp only [Option.elim, Option.map_some', Option.getD_some, Run.ok.injEq]
    exact toCInt_of_lt (by simp at hk; omega)

/-- The needle `www.example.com` against `a.` then `WWW.EXAMPLE.COM`, each followed by other bytes:
the lookup returns entry `1`. -/
theorem nameFind_wwwExampleComUpper :
    2 ≤ [([[0x61]], [0xff]), (wwwExampleComUpper, [0x00, 0x01])].length ∧ 2 ≤ 2 ^ 31 - 1 ∧
      (∀ e ∈ [([[0x61]], [0xff]), (wwwExampleComUpper, [0x00, 0x01])],
        ValidLabels e.1 ∧ (encodeName e.1).length ≤ dnsMaxNameLen + 1) ∧
      nameFind (encodeName wwwExampleCom) (encodeName wwwExampleCom).length
          ([([[0x61]], [0xff]), (wwwExampleComUpper, [0x00, 0x01])].map fun e => encodeName e.1 ++ e.2) 2 =
        .ok 1 :=
  ⟨by decide, by decide, by decide, (nameFind_eq_findIdx (by decide) (by decide) (by decide)).trans (by decide)⟩

end Find

/-- A malformed entry in a buffer of `DNS_MAX_NAME_LEN + 1` bytes: the length byte `0xff`, then
zeros. -/
def overlongEntry : List UInt8 := 0xff :: List.replicate dnsMaxNameLen 0

/-- On `overlongEntry` the walk's first pass moves `pos` from `0` to `256`, and the next pass reads
byte `256` of the entry, past its end, before it checks `pos`. -/
theorem nameFind_reads_past_entry :
    overlongEntry.length = dnsMaxNameLen + 1 ∧ hayLengthStep overlongEntry 0 = .ok (.yield 256) ∧
      hayLengthStep overlongEntry 256 = .oob ∧ nameFind [0] 1 [overlongEntry] 1 = .oob := by
  have hlen : overlongEntry.length = dnsMaxNameLen + 1 := by simp [overlongEntry]
  have h0 : hayLengthStep overlongEntry 0 = .ok (.yield 256) := by
    rw [hayLengthStep_eq (b := 0xff) (by rw [overlongEntry, List.getElem?_cons_zero]),
      if_pos (by decide)]
    rfl
  have h256 : hayLengthStep overlongEntry 256 = .oob := hayLengthStep_of_le (by rw [hlen]; decide)
  have hh : hayLength overlongEntry = .oob := by
    rw [hayLength, scanBudget, Run.loop_succ_of_yield _ h0, show dnsMaxNameLen = 254 + 1 from rfl,
      Run.loop_succ_of_oob _ h256, Run.oob_bind]
  refine ⟨hlen, h0, h256, ?_⟩
  simp only [nameFind, nameFindLoop, List.getElem?_cons_zero, Run.ok_bind, hh, Run.oob_bind]

/-! ## The buffers a lookup needs -/

/-- Where the label walk of `dnsasm_name_find` (`dnsasm.c`, lines 328-331) stops on an entry, from
`pos`: past each label while its length byte is not zero and `pos < DNS_MAX_NAME_LEN`. `hay_len` is one
more. -/
def scanEnd (hay : List UInt8) (pos : Nat) : Nat :=
  if hay.getD pos 0 ≠ 0 ∧ pos < dnsMaxNameLen then scanEnd hay (pos + 1 + (hay.getD pos 0).toNat)
  else pos
termination_by dnsMaxNameLen - pos
decreasing_by rename_i h; exact Nat.sub_lt_sub_left h.2 (by omega)

/-- On an entry of `2 * DNS_MAX_NAME_LEN + 1` bytes the label walk never faults and stops where
`scanEnd` says, at most at `2 * DNS_MAX_NAME_LEN`: it continues only from below `DNS_MAX_NAME_LEN`, by
at most `256`. -/
lemma loop_hayLengthStep {hay : List UInt8} (hl : 2 * dnsMaxNameLen + 1 ≤ hay.length) :
    ∀ n pos, pos ≤ 2 * dnsMaxNameLen → dnsMaxNameLen - pos < n →
      Run.loop (hayLengthStep hay) n pos = .ok (scanEnd hay pos) ∧ scanEnd hay pos ≤ 2 * dnsMaxNameLen
  | 0, _, _, hn => absurd hn (Nat.not_lt_zero _)
  | n + 1, pos, hpos, hn => by
    have hp : pos < hay.length := by omega
    have hg : hay.getD pos 0 = hay[pos] := by rw [List.getD_eq_getElem?_getD, List.getElem?_eq_getElem hp]; rfl
    have hb := uint8_toNat_lt hay[pos]
    rw [scanEnd, hg]
    by_cases hc : hay[pos] ≠ 0 ∧ pos < dnsMaxNameLen
    · have hstep := hayLengthStep_eq (List.getElem?_eq_getElem hp)
      rw [if_pos hc] at hstep ⊢
      rw [Run.loop_succ_of_yield n hstep]
      exact loop_hayLengthStep hl n _ (by simp only [dnsMaxNameLen] at hc ⊢; omega) (by omega)
    · rw [if_neg hc]
      exact ⟨Run.loop_succ_of_done n (by rw [hayLengthStep_eq (List.getElem?_eq_getElem hp), if_neg hc]),
        hpos⟩

/-- The test a lookup applies to an entry, read as a comparison: the needle's length is the entry's
`hay_len`, and the first `needle_len` bytes of both agree up to case. -/
def prefixMatches (needle : List UInt8) (needleLen : Nat) (hay : List UInt8) : Bool :=
  decide (needleLen = scanEnd hay 0 + 1 ∧
    (needle.take needleLen).map foldCase = (hay.take needleLen).map foldCase)

/-- On an entry of `2 * DNS_MAX_NAME_LEN + 1` bytes, computing `hay_len` and comparing returns, with
`0` exactly when the prefixes match. -/
lemma prefixMatches_entry {needle hay : List UInt8} {needleLen : Nat} (hn : needleLen ≤ needle.length)
    (hl : 2 * dnsMaxNameLen + 1 ≤ hay.length) :
    ∃ r, (hayLength hay >>= nameEqual needle needleLen hay) = .ok r ∧
      (r = 0 ↔ prefixMatches needle needleLen hay) := by
  obtain ⟨hloop, hle⟩ := loop_hayLengthStep hl scanBudget 0 (Nat.zero_le _) (by decide)
  obtain ⟨r, hr⟩ := @nameEqual_ok needle hay needleLen (scanEnd hay 0 + 1) hn (by omega)
  refine ⟨r, by rw [hayLength, hloop]; exact hr, ?_⟩
  rw [prefixMatches, decide_eq_true_iff, ← Run.ok.injEq, ← hr, nameEqual_eq_zero_iff_take]
  exact ⟨fun ⟨he, _, _, hf⟩ => ⟨he, hf⟩, fun ⟨he, hf⟩ => ⟨he, hn, by omega, hf⟩⟩

/-- An entry of `2 * DNS_MAX_NAME_LEN` bytes whose label walk ends at byte `510`: length bytes `253` at
`0` and `255` at `254`, zeros elsewhere. -/
def farEntry : List UInt8 := 253 :: List.replicate 253 0 ++ 255 :: List.replicate 255 0

lemma length_farEntry : farEntry.length = 2 * dnsMaxNameLen := by
  simp only [farEntry, List.length_cons, List.length_append, List.length_replicate]
  rfl

/-- The walk on `farEntry` moves `pos` from `0` to `254` to `510`, and reads byte `510`, past the end. -/
lemma hayLength_farEntry : hayLength farEntry = .oob := by
  have h0 : hayLengthStep farEntry 0 = .ok (.yield 254) := by
    rw [hayLengthStep_eq (b := 253) (by rw [farEntry, List.cons_append, List.getElem?_cons_zero]),
      if_pos (by decide)]
    rfl
  have h254 : hayLengthStep farEntry 254 = .ok (.yield 510) := by
    rw [hayLengthStep_eq (b := 255) (by
      rw [farEntry, List.getElem?_append_right (by rw [List.length_cons, List.length_replicate]),
        List.length_cons, List.length_replicate]
      exact List.getElem?_cons_zero),
      if_pos (by decide)]
    rfl
  rw [hayLength, scanBudget, Run.loop_succ_of_yield _ h0, show dnsMaxNameLen = 253 + 1 + 1 from rfl,
    Run.loop_succ_of_yield _ h254,
    Run.loop_succ_of_oob _ (hayLengthStep_of_le (show farEntry.length ≤ 510 from Nat.le_of_eq length_farEntry)),
    Run.oob_bind]

section Contract

variable {needle : List UInt8} {needleLen : Nat} {haystack : List (List UInt8)}

/-- The buffers `dnsasm_name_find` needs, and what it returns on any entries: with a needle of
`needle_len` bytes and `count` entries of `2 * DNS_MAX_NAME_LEN + 1` bytes each, well-formed or not, it
never faults and returns the first entry whose first `needle_len` bytes agree with the needle up to
case, `needle_len` being the entry's `hay_len`, or `-1`. The label walk reads no byte past
`hay[2 * DNS_MAX_NAME_LEN]`, and that bound is reached: on an entry of `2 * DNS_MAX_NAME_LEN` bytes the
lookup can fault. -/
theorem nameFind_first_match {count : Nat} (hn : needleLen ≤ needle.length)
    (hc : count ≤ haystack.length)
    (hh : ∀ hay ∈ haystack.take count, 2 * dnsMaxNameLen + 1 ≤ hay.length) :
    nameFind needle needleLen haystack count =
      .ok (((haystack.take count).findIdx? (prefixMatches needle needleLen)).elim (-1) toCInt) ∧
    (∀ hay ∈ haystack.take count, scanEnd hay 0 ≤ 2 * dnsMaxNameLen) ∧
    ∃ hay : List UInt8, hay.length = 2 * dnsMaxNameLen ∧ nameFind needle needleLen [hay] 1 = .oob := by
  have key := @nameFindLoop_eq_findIdx _ id (prefixMatches needle needleLen) needle needleLen haystack
    count 0 (by omega) (fun hay h => prefixMatches_entry hn (hh hay (by simpa using h)))
  rw [List.map_id, List.drop_zero] at key
  refine ⟨key, fun hay h => (loop_hayLengthStep (hh hay h) scanBudget 0 (Nat.zero_le _) (by decide)).2,
    farEntry, length_farEntry, ?_⟩
  simp only [nameFind, nameFindLoop, List.getElem?_cons_zero, Run.ok_bind, hayLength_farEntry, Run.oob_bind]

/-- The entry that faults in `overlongEntry`, padded to `2 * DNS_MAX_NAME_LEN + 1` bytes. -/
theorem nameFind_first_match_padded :
    1 ≤ [(0 : UInt8)].length ∧ 1 ≤ [0xff :: List.replicate (2 * dnsMaxNameLen) (0 : UInt8)].length ∧
      (∀ hay ∈ [0xff :: List.replicate (2 * dnsMaxNameLen) (0 : UInt8)].take 1,
        2 * dnsMaxNameLen + 1 ≤ hay.length) ∧
      (nameFind [0] 1 [0xff :: List.replicate (2 * dnsMaxNameLen) 0] 1 =
        .ok ((([0xff :: List.replicate (2 * dnsMaxNameLen) 0].take 1).findIdx?
          (prefixMatches [0] 1)).elim (-1) toCInt) ∧
      (∀ hay ∈ [0xff :: List.replicate (2 * dnsMaxNameLen) (0 : UInt8)].take 1,
        scanEnd hay 0 ≤ 2 * dnsMaxNameLen) ∧
      ∃ hay : List UInt8, hay.length = 2 * dnsMaxNameLen ∧ nameFind [0] 1 [hay] 1 = .oob) :=
  ⟨by decide, by decide, by simp, nameFind_first_match (by decide) (by decide) (by simp)⟩

end Contract

end Dnsasm
