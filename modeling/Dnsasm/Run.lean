import Mathlib

/-!
# Runs of the C code

The decoders of `src/dnsasm/src/dnsasm.c` read a caller's packet through raw pointers and write a
caller's name buffer. We run them on a shallow model in which every access is checked: a run
`Run α` ends by returning `DNSASM_OK` with a payload, by returning one of the `DNSASM_ERR_*` codes
of `dnsasm.h` (with `result.offset = 0`, as every error path of the file leaves it), by an access
outside a buffer it was handed (undefined behaviour in C, which memory safety rules out), or with a
loop still going once its budget of passes is spent (which termination rules out).

The `while` loops of the file are all run by `Run.loop`. Its budget lemmas are proved once here: a
loop that has not timed out returns the same value under any larger budget
(`Run.loop_eq_of_ne_timeout`), a potential that every pass lowers bounds the passes
(`Run.loop_ne_timeout`), and an invariant under which no pass faults rules out faults
(`Run.loop_ne_oob`).
-/

namespace Dnsasm

/-- The error codes of `dnsasm.h` (`DNSASM_ERR_SHORT` to `DNSASM_ERR_OVERFLOW`). -/
inductive Err where
  | short
  | name
  | pointer
  | loop
  | overflow
  deriving Repr, DecidableEq

/-- How a run of the modelled C code ends. -/
inductive Run (α : Type) where
  /-- returns normally (`DNSASM_OK` for the decoders) with a payload -/
  | ok (a : α)
  /-- returns the error code `e` -/
  | error (e : Err)
  /-- reads or writes outside a buffer it was handed -/
  | oob
  /-- a loop is still running when its budget of passes is spent -/
  | timeout
  deriving Repr, DecidableEq

namespace Run

variable {α β σ : Type}

/-- Sequencing: an error return, a fault or a timeout skips the rest of the function. -/
protected def bind : Run α → (α → Run β) → Run β
  | ok a, f => f a
  | error e, _ => error e
  | oob, _ => oob
  | timeout, _ => timeout

instance : Monad Run where
  pure := ok
  bind := Run.bind

@[simp] lemma pure_def (a : α) : (pure a : Run α) = ok a := rfl
@[simp] lemma ok_bind (a : α) (f : α → Run β) : ok a >>= f = f a := rfl
@[simp] lemma error_bind (e : Err) (f : α → Run β) : (error e : Run α) >>= f = error e := rfl
@[simp] lemma oob_bind (f : α → Run β) : (oob : Run α) >>= f = oob := rfl
@[simp] lemma timeout_bind (f : α → Run β) : (timeout : Run α) >>= f = timeout := rfl

lemma bind_eq_ok {x : Run α} {f : α → Run β} {b : β} :
    x >>= f = ok b ↔ ∃ a, x = ok a ∧ f a = ok b := by
  cases x <;> simp

lemma bind_ne_oob {x : Run α} {f : α → Run β} (hx : x ≠ oob) (hf : ∀ a, x = ok a → f a ≠ oob) :
    x >>= f ≠ oob := by
  cases x <;> simp_all

/-! ## Buffers -/

/-- `p[i]`: reads byte `i` of the buffer `p`. -/
def load (p : List UInt8) (i : Nat) : Run UInt8 :=
  match p[i]? with
  | some b => ok b
  | none => oob

lemma load_of_lt {p : List UInt8} {i : Nat} (h : i < p.length) : load p i = ok p[i] := by
  simp [load, List.getElem?_eq_getElem h]

lemma load_eq_ok {p : List UInt8} {i : Nat} {b : UInt8} : load p i = ok b ↔ p[i]? = some b := by
  unfold load; cases p[i]? <;> simp

/-- The source side of `memcpy`: reads `p[i .. i + n)` in order. -/
def loadBytes (p : List UInt8) (i : Nat) : Nat → Run (List UInt8)
  | 0 => ok []
  | n + 1 => do
    let b ← load p i
    let bs ← loadBytes p (i + 1) n
    pure (b :: bs)

/-- `memcpy` from `p + i` inside `p` copies `p[i .. i + n)`. -/
lemma loadBytes_of_le {p : List UInt8} {i n : Nat} (h : i + n ≤ p.length) :
    loadBytes p i n = ok ((p.drop i).take n) := by
  induction n generalizing i with
  | zero => simp [loadBytes]
  | succ n ih =>
    rw [loadBytes, load_of_lt (by omega), ok_bind, ih (show i + 1 + n ≤ p.length by omega),
      List.drop_eq_getElem_cons (show i < p.length by omega)]
    rfl

/-! ## Loops -/

/-- A `while` loop given `fuel` passes of its `body`, which tests the loop condition itself: a
pass either continues with `.yield` or leaves the loop with `.done`. -/
def loop (body : σ → Run (ForInStep σ)) : Nat → σ → Run σ
  | 0, _ => timeout
  | fuel + 1, s =>
    match body s with
    | ok (.yield s') => loop body fuel s'
    | ok (.done s') => ok s'
    | error e => error e
    | oob => oob
    | timeout => timeout

variable {body : σ → Run (ForInStep σ)}

lemma loop_succ_of_yield {s s' : σ} (n : Nat) (h : body s = ok (.yield s')) :
    loop body (n + 1) s = loop body n s' := by
  simp [loop, h]

lemma loop_succ_of_done {s s' : σ} (n : Nat) (h : body s = ok (.done s')) :
    loop body (n + 1) s = ok s' := by
  simp [loop, h]

lemma loop_succ_of_oob {s : σ} (n : Nat) (h : body s = oob) : loop body (n + 1) s = oob := by
  simp [loop, h]

/-- A run that has not timed out is the run under every larger budget. -/
lemma loop_eq_of_ne_timeout {n m : Nat} {s : σ} (h : loop body n s ≠ timeout) (hnm : n ≤ m) :
    loop body m s = loop body n s := by
  induction n generalizing m s with
  | zero => exact absurd rfl h
  | succ n ih =>
    obtain ⟨m, rfl⟩ : ∃ m', m = m' + 1 := ⟨m - 1, by omega⟩
    cases hb : body s with
    | ok r =>
      cases r with
      | yield s' =>
        rw [loop_succ_of_yield n hb] at h
        rw [loop_succ_of_yield n hb, loop_succ_of_yield m hb, ih h (by omega)]
      | done s' => rw [loop_succ_of_done n hb, loop_succ_of_done m hb]
    | _ => simp only [loop, hb]

/-- Two runs of one loop that both return agree, whatever their budgets. -/
lemma loop_eq_loop {n m : Nat} {s : σ} (hn : loop body n s ≠ timeout) (hm : loop body m s ≠ timeout) :
    loop body m s = loop body n s := by
  rcases Nat.le_total n m with h | h
  · exact loop_eq_of_ne_timeout hn h
  · exact (loop_eq_of_ne_timeout hm h).symm

/-- A loop that returns left through a `.done` pass, after `n` passes more or now. -/
lemma loop_succ_eq_ok {n : Nat} {s r : σ} (h : loop body (n + 1) s = ok r) :
    body s = ok (.done r) ∨ ∃ s', body s = ok (.yield s') ∧ loop body n s' = ok r := by
  simp only [loop] at h
  split at h
  · next s' hs => exact .inr ⟨s', hs, h⟩
  all_goals simp_all

/-- Bounded passes: if every pass from a state satisfying `inv` keeps `inv` and lowers the
potential `φ`, a budget above `φ` of the start state is never exhausted. -/
lemma loop_ne_timeout (inv : σ → Prop) (φ : σ → Nat)
    (hbody : ∀ s, inv s → body s ≠ timeout)
    (hstep : ∀ s s', inv s → body s = ok (.yield s') → inv s' ∧ φ s' < φ s) :
    ∀ n s, inv s → φ s < n → loop body n s ≠ timeout := by
  intro n
  induction n with
  | zero => intro s _ h; omega
  | succ n ih =>
    intro s hs hφ
    cases hb : body s with
    | ok r =>
      cases r with
      | yield s' =>
        obtain ⟨hi, hlt⟩ := hstep s s' hs hb
        rw [loop_succ_of_yield n hb]
        exact ih s' hi (by omega)
      | done s' => simp only [loop, hb]; nofun
    | timeout => exact absurd hb (hbody s hs)
    | _ => simp only [loop, hb]; nofun

/-- No faults: an invariant kept by every pass, under which no pass faults. -/
lemma loop_ne_oob (inv : σ → Prop) (hbody : ∀ s, inv s → body s ≠ oob)
    (hstep : ∀ s s', inv s → body s = ok (.yield s') → inv s') :
    ∀ n s, inv s → loop body n s ≠ oob := by
  intro n
  induction n with
  | zero => intro s _; simp [loop]
  | succ n ih =>
    intro s hs
    cases hb : body s with
    | ok r =>
      cases r with
      | yield s' => rw [loop_succ_of_yield n hb]; exact ih s' (hstep s s' hs hb)
      | done s' => simp only [loop, hb]; nofun
    | oob => exact absurd hb (hbody s hs)
    | _ => simp only [loop, hb]; nofun

end Run

end Dnsasm
