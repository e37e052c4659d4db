import A17.Lib.GridLoops
import A17.Lib.ParabolaEnvelope
import Mathlib.Data.Set.Finite.Lemmas
import Mathlib.Order.Interval.Finset.Defs
import Mathlib.Data.Int.Interval

/-!
# The distance transform of a row

`fill_edt` writes at each `q` of a row the least of `(q - v)² + f v` over the row. It keeps the parabolas that are the
lowest somewhere on a stack, and reads the values off it in one pass. The stack has the arrays `v` and `z`, which are
of the size of the volume. What is done here ends in `none` where the source would write outside of the arrays, or
read what it has not written; for heights that the scalar type has room for, in a row that is in the arrays, it does
not (`fillEdt_eq`).
-/

namespace A17.Ewok
open GridLoops ParabolaEnvelope
variable {K : Type} [Field K] [LinearOrder K]

/-- `s` in the source. -/
def crossover (getVal : Int → K) (q v : Int) : K :=
  ((getVal q + (q * q : Int)) - (getVal v + (v * v : Int))) / (2 * q - 2 * v : Int)

/-- The `do` loop, with room for `rooms` entries below `k`. -/
def popWhile (getVal : Int → K) (v : Int → Int) (z : Int → K) (q : Int) : Nat → Int → Option (Int × K)
  | 0, _ => none
  | rooms + 1, k =>
    let k := k - 1
    let s := crossover getVal q (v k)
    if s ≤ z k then popWhile getVal v z q rooms k else some (k, s)

/-- The body of the first `for` loop. `v` has `size` entries, and `z` one more. -/
def pushParabola (size : Nat) (getVal : Int → K) (maxScalar : K) (start : Int) (st : Stack K) (q : Int) :
    Option (Stack K) :=
  let k := st.k + 1
  (popWhile getVal st.v st.z q (k - start).toNat k).bind fun (k, s) =>
    let k := k + 1
    if k < size then
      some {
        k := k
        v := Function.update st.v k q
        z := Function.update (Function.update st.z k s) (k + 1) maxScalar }
    else none

/-- The `while` loop, with `rooms` entries above `k`. -/
def advance (z : Int → K) (q : Int) : Nat → Int → Option Int
  | 0, _ => none
  | rooms + 1, k => if z (k + 1) < q then advance z q rooms (k + 1) else some k

/-- The body of the second `for` loop. -/
def writeValue {σ : Type} (getVal : Int → K) (setVal : Int → K → σ → σ) (st : Stack K) (ks : Int × σ) (q : Int) :
    Option (Int × σ) :=
  (advance st.z q (st.k + 1 - ks.1).toNat ks.1).map fun k =>
    let val := ((q - st.v k) * (q - st.v k) : Int) + getVal (st.v k)
    (k, setVal q val ks.2)

/-- `setVal` is what is done to the state for each value. `getVal` does not read what it writes. The first entries of
the arrays are written even if the row is empty. -/
def fillEdt {σ : Type} (size : Nat) (maxScalar : K) (getVal : Int → K) (setVal : Int → K → σ → σ) (start stop : Int)
    (s : σ) : Option σ :=
  if 0 ≤ start ∧ start < size then do
    let st : Stack K := {
      k := start
      v := fun _ => start
      z := Function.update (fun _ => -maxScalar) (start + 1) maxScalar }
    let st ← (span (start + 1) stop).foldlM (pushParabola size getVal maxScalar start) st
    let (_, s) ← (span start stop).foldlM (writeValue getVal setVal st) (start, s)
    return s
  else none

variable [IsStrictOrderedRing K] {f : Int → K} {maxScalar : K} {start stop last q : Int} {st : Stack K}

omit [LinearOrder K] [IsStrictOrderedRing K] in
theorem crossover_eq (f : Int → K) (q v : Int) : crossover f q v = meet f v q := by
  unfold crossover meet
  push_cast
  congr 1
  ring

/-- The heights of a row: distances of what can be far away, but that the scalar type has room for. -/
structure Heights (f : Int → K) (maxScalar : K) (start stop : Int) : Prop where
  start_nonneg : 0 ≤ start
  stop_le : (stop : K) ≤ maxScalar
  nonneg : ∀ p, start ≤ p → p ≤ stop → 0 ≤ f p
  le_max : ∀ p, start ≤ p → p ≤ stop → f p ≤ maxScalar

theorem Heights.lt_meet (h : Heights f maxScalar start stop) {p : Int} (hp : start ≤ p) (hpq : p < q)
    (hq : q ≤ stop) : -maxScalar < meet f p q := by
  have hfp := h.le_max p hp (by omega)
  have hfq := h.nonneg q (by omega) hq
  have hp0 : (0 : K) ≤ p := Int.cast_nonneg (h.start_nonneg.trans hp)
  have hstep : (p : K) + 1 ≤ q := by exact_mod_cast hpq
  have hmax : (0 : K) ≤ maxScalar := (h.nonneg p hp (by omega)).trans hfp
  have hden : (0 : K) < (q - p) + (q - p) := by linarith
  unfold meet
  rw [lt_div_iff₀ hden]
  nlinarith [mul_nonneg hmax (sub_nonneg.2 hstep)]

/-- What is known of the stack of the first loop. -/
structure Built (f : Int → K) (maxScalar : K) (start last : Int) (st : Stack K) : Prop where
  envelope : Envelope f start last st
  le_last : st.k ≤ last
  first : st.z start = -maxScalar
  sentinel : st.z (st.k + 1) = maxScalar

/-- The entries that are popped are those that the new parabola beats, and the first one stays. -/
theorem popWhile_spec (hf : Heights f maxScalar start stop) (h : Built f maxScalar start last st) (hq : last + 1 ≤ stop)
    (rooms : Nat) (m : Int) (hm : m = start + rooms) (hrooms : 0 < rooms) (hmk : m ≤ st.k + 1)
    (hbeats : Beats f start last (last + 1) st m) :
    ∃ k, start ≤ k ∧ k ≤ st.k ∧ st.z k < meet f (st.v k) (last + 1) ∧ Beats f start last (last + 1) st (k + 1) ∧
      popWhile f st.v st.z (last + 1) rooms m = some (k, meet f (st.v k) (last + 1)) := by
  induction rooms generalizing m with
  | zero => exact absurd hrooms (lt_irrefl 0)
  | succ rooms ih =>
    push_cast at hm
    unfold popWhile
    simp only [crossover_eq]
    split
    · next hle =>
      have hfirst : 0 < rooms := by
        rcases Nat.eq_zero_or_pos rooms with rfl | hpos
        · have hm1 : m - 1 = start := by omega
          obtain ⟨hmem, hmem'⟩ := h.envelope.mem start le_rfl h.envelope.start_le
          have hlow := hf.lt_meet hmem (by omega : st.v start < last + 1) hq
          rw [hm1, h.first] at hle
          exact absurd hlow (not_lt.2 hle)
        · exact hpos
      refine ih (m - 1) (by omega) hfirst (by omega) (h.envelope.beats (by omega) (by omega) (by omega) hle ?_)
      rwa [sub_add_cancel]
    · next hlt =>
      refine ⟨m - 1, by omega, by omega, not_le.1 hlt, ?_, rfl⟩
      rwa [sub_add_cancel]

theorem pushParabola_spec {size : Nat} (hf : Heights f maxScalar start stop) (h : Built f maxScalar start last st)
    (hq : last + 1 ≤ stop) (hsize : stop < size) :
    ∃ st', pushParabola size f maxScalar start st (last + 1) = some st' ∧
      Built f maxScalar start (last + 1) st' := by
  have hstart := h.envelope.start_le
  obtain ⟨k, hk, hkk, hmeet, hbeats, hpop⟩ := popWhile_spec hf h hq (st.k + 1 - start).toNat (st.k + 1) (by omega)
    (by omega) le_rfl fun hle => absurd hle (by omega)
  refine ⟨st.push k (last + 1) (meet f (st.v k) (last + 1)) maxScalar, ?_,
    h.envelope.push hk hkk hmeet hbeats _, ?_, ?_, ?_⟩
  · have hroom : k + 1 < size := by
      have := h.le_last
      omega
    unfold pushParabola
    simp only [hpop, Option.bind_some, if_pos hroom]
    rfl
  · have := h.le_last
    show k + 1 ≤ last + 1
    omega
  · rw [Stack.push_z_of_le hk, h.first]
  · exact Stack.push_z_end

omit [IsStrictOrderedRing K] in
/-- The pointer stops at the stretch that `q` is on. -/
theorem advance_spec (h : Built f maxScalar start last st) (hq : (q : K) ≤ maxScalar) (rooms : Nat) (k : Int)
    (hk : start ≤ k) (hrooms : st.k + 1 = k + rooms) (hpos : 0 < rooms) (hz : st.z k ≤ q) :
    ∃ k', start ≤ k' ∧ k' ≤ st.k ∧ st.z k' ≤ q ∧ (q : K) ≤ st.z (k' + 1) ∧ advance st.z q rooms k = some k' := by
  induction rooms generalizing k with
  | zero => exact absurd hpos (lt_irrefl 0)
  | succ rooms ih =>
    push_cast at hrooms
    unfold advance
    split
    · next hlt =>
      have hroom : 0 < rooms := by
        rcases Nat.eq_zero_or_pos rooms with rfl | hpos
        · have hk1 : k + 1 = st.k + 1 := by omega
          rw [hk1, h.sentinel] at hlt
          exact absurd hq (not_le.2 hlt)
        · exact hpos
      exact ih (k + 1) (by omega) (by omega) hroom hlt.le
    · next hge =>
      exact ⟨k, hk, by omega, hz, not_lt.1 hge, rfl⟩

/-- The values of a row. -/
def rowValues (f : Int → K) (start stop q : Int) : Set K := {y | ∃ p, start ≤ p ∧ p ≤ stop ∧ y = parabola f p q}

omit [IsStrictOrderedRing K] in
theorem exists_isLeast_rowValues (f : Int → K) {start stop : Int} (h : start ≤ stop) (q : Int) :
    ∃ y, IsLeast (rowValues f start stop q) y := by
  obtain ⟨p, ⟨hp, hp'⟩, hmin⟩ := Set.exists_min_image (Set.Icc start stop) (fun p => parabola f p q)
    (Set.finite_Icc _ _) ⟨start, le_rfl, h⟩
  refine ⟨parabola f p q, ⟨p, hp, hp', rfl⟩, ?_⟩
  rintro y ⟨p', hp1, hp2, rfl⟩
  exact hmin p' ⟨hp1, hp2⟩

/-- What is known after the second loop has come to `q`. -/
structure Reading {σ : Type} (g : Int → K) (setVal : Int → K → σ → σ) (st : Stack K) (start : Int) (s : σ) (q : Int)
    (ks : Int × σ) : Prop where
  start_le : start ≤ ks.1
  le_top : ks.1 ≤ st.k
  z_le : st.z ks.1 ≤ q
  state_eq : ks.2 = (span start (q - 1)).foldl (fun s q => setVal q (g q) s) s

theorem writeValue_spec {σ : Type} {g : Int → K} {setVal : Int → K → σ → σ} {s : σ} {ks : Int × σ}
    (hf : Heights f maxScalar start stop) (h : Built f maxScalar start stop st) (hstart : start ≤ q) (hstop : q ≤ stop)
    (hg : IsLeast (rowValues f start stop q) (g q)) (hks : Reading g setVal st start s q ks) :
    ∃ ks', writeValue f setVal st ks q = some ks' ∧ Reading g setVal st start s (q + 1) ks' := by
  have hq : (q : K) ≤ maxScalar := (Int.cast_le.2 hstop).trans hf.stop_le
  obtain ⟨k, hk, hkk, hz, hz', hadvance⟩ := advance_spec h hq (st.k + 1 - ks.1).toNat ks.1 hks.start_le
    (by have := hks.le_top; omega) (by have := hks.le_top; omega) hks.z_le
  have hlowest := h.envelope.lowest hk hkk hz hz'
  obtain ⟨hmem, hmem'⟩ := h.envelope.mem k hk hkk
  have hval : (((q - st.v k) * (q - st.v k) : Int) : K) + f (st.v k) = parabola f (st.v k) q := by
    unfold parabola
    push_cast
    ring
  have hleast : parabola f (st.v k) q = g q := by
    refine le_antisymm ?_ (hg.2 ⟨_, hmem, hmem', rfl⟩)
    obtain ⟨p, hp, hp', heq⟩ := hg.1
    rw [heq]
    exact hlowest p hp hp'
  refine ⟨(k, setVal q (g q) ks.2), ?_, hk, hkk, ?_, ?_⟩
  · unfold writeValue
    rw [hadvance, ← hleast, ← hval]
    rfl
  · push_cast
    exact hz.trans (by linarith)
  · have hspan : span start (q + 1 - 1) = span start (q - 1) ++ [q] := by
      have h := span_succ (show start ≤ q - 1 + 1 by omega)
      rw [sub_add_cancel] at h
      rw [add_sub_cancel_right, h]
    rw [hspan, List.foldl_concat, ← hks.state_eq]

/-- Each value that is written is the least of the distances to the points of the row. -/
theorem fillEdt_eq {σ : Type} {size : Nat} {g : Int → K} (hf : Heights f maxScalar start stop) (hle : start ≤ stop)
    (hsize : stop < size) (hg : ∀ q, start ≤ q → q ≤ stop → IsLeast (rowValues f start stop q) (g q))
    (setVal : Int → K → σ → σ) (s : σ) : fillEdt size maxScalar f setVal start stop s =
      some ((span start stop).foldl (fun s q => setVal q (g q) s) s) := by
  have hmax : 0 ≤ maxScalar := (Int.cast_nonneg (hf.start_nonneg.trans hle)).trans hf.stop_le
  have hfirst : Built f maxScalar start start ⟨start, fun _ => start,
      Function.update (fun _ => -maxScalar) (start + 1) maxScalar⟩ := by
    refine ⟨Envelope.singleton f start rfl rfl, le_rfl, ?_, ?_⟩
    · show Function.update (fun _ => -maxScalar) (start + 1) maxScalar start = -maxScalar
      rw [Function.update_of_ne (lt_add_one start).ne]
    · show Function.update (fun _ => -maxScalar) (start + 1) maxScalar (start + 1) = maxScalar
      rw [Function.update_self]
  obtain ⟨st, hst, hbuilt⟩ := foldlM_span (I := fun q st => Built f maxScalar start (q - 1) st)
    (pushParabola size f maxScalar start) (show start + 1 ≤ stop + 1 by omega)
    (by rwa [add_sub_cancel_right]) fun q st hq hq' h => by
      obtain ⟨st', hpush, hbuilt⟩ := pushParabola_spec hf h (by omega) hsize
      rw [sub_add_cancel] at hpush hbuilt
      exact ⟨st', hpush, by rwa [add_sub_cancel_right]⟩
  rw [add_sub_cancel_right] at hbuilt
  have hread : Reading g setVal st start s start (start, s) := by
    refine ⟨le_rfl, hbuilt.envelope.start_le, ?_, ?_⟩
    · have hs : (0 : K) ≤ start := Int.cast_nonneg hf.start_nonneg
      rw [hbuilt.first]
      linarith
    · rw [span_of_lt (by omega)]
      rfl
  obtain ⟨ks, hks, hdone⟩ := foldlM_span (I := Reading g setVal st start s) (writeValue f setVal st)
    (show start ≤ stop + 1 by omega) hread fun q ks hq hq' h => writeValue_spec hf hbuilt hq hq' (hg q hq hq') h
  unfold fillEdt
  rw [if_pos ⟨hf.start_nonneg, by omega⟩]
  simp only [hst, hks, Option.bind_eq_bind, Option.bind_some]
  rw [← add_sub_cancel_right stop 1, ← hdone.state_eq]
  rfl

omit [IsStrictOrderedRing K] in
/-- For an empty row nothing is done, but that the first entries have to be there. -/
theorem fillEdt_of_lt {σ : Type} (size : Nat) (f : Int → K) (setVal : Int → K → σ → σ) (s : σ) (h : stop < start) :
    fillEdt size maxScalar f setVal start stop s = if 0 ≤ start ∧ start < size then some s else none := by
  unfold fillEdt
  rw [span_of_lt (by omega), span_of_lt h]
  rfl

/-- On any row of heights that is in the arrays the loops come to an end, stay in the arrays, and write at each place
the least of the squared distances and heights. -/
theorem fillEdt_least {size : Nat} (hf : Heights f maxScalar start stop) (hle : start ≤ stop) (hsize : stop < size) :
    ∃ g : Int → K, (∀ q, start ≤ q → q ≤ stop → IsLeast (rowValues f start stop q) (g q)) ∧
      ∀ {σ : Type} (setVal : Int → K → σ → σ) (s : σ), fillEdt size maxScalar f setVal start stop s =
        some ((span start stop).foldl (fun s q => setVal q (g q) s) s) := by
  choose g hg using fun q => exists_isLeast_rowValues f hle q
  exact ⟨g, fun q _ _ => hg q, fun setVal s => fillEdt_eq hf hle hsize (fun q _ _ => hg q) setVal s⟩

theorem fillEdt_least_free : ∃ g : Int → ℚ,
    (∀ q, 0 ≤ q → q ≤ 3 → IsLeast (rowValues (fun q => if q = 1 then 0 else 100) 0 3 q) (g q)) ∧
      fillEdt 4 100 (fun q => if q = 1 then 0 else 100) (fun _ val l => l ++ [val]) 0 3 [] =
        some ((span 0 3).foldl (fun l q => l ++ [g q]) []) := by
  have hf : Heights (fun q => if q = 1 then (0 : ℚ) else 100) 100 0 3 :=
    ⟨le_rfl, by norm_num, fun p _ _ => by split <;> norm_num, fun p _ _ => by split <;> norm_num⟩
  obtain ⟨g, hg, heq⟩ := @fillEdt_least ℚ _ _ _ _ _ _ _ 4 hf (by norm_num) (by norm_num)
  exact ⟨g, hg, heq _ _⟩

example : fillEdt 4 (100 : ℚ) (fun q => if q = 1 then 0 else 100) (fun _ val l => l ++ [val]) 0 3 [] =
    some [1, 0, 1, 4] := by decide +kernel

end A17.Ewok
