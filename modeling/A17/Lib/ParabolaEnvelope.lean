import Mathlib.Algebra.Order.Field.Basic
import Mathlib.Tactic.FieldSimp
import Mathlib.Tactic.Linarith
import Mathlib.Tactic.Ring

/-!
# The lower envelope of parabolas

Of each integer `p` there is a parabola of height `f p` above `p`, all of one shape. Of two of them the left one is
below up to `meet`, and the right one from there on. A stack of some of them with the places where one takes over
from the next is the lower envelope of all when on each stretch the one of the stack is below all others
(`Envelope`). `Envelope.push` adds the next parabola; the ones above the place where it takes over are popped.
-/

namespace ParabolaEnvelope
variable {K : Type}

/-- The stack: the parabola of `v j` is the lowest from `z j` to `z (j + 1)`; `k` is the top. -/
structure Stack (K : Type) where
  k : Int
  v : Int → Int
  z : Int → K

/-- The stack with `q` on top of the entry `m`. -/
def Stack.push (st : Stack K) (m q : Int) (s end_ : K) : Stack K where
  k := m + 1
  v := Function.update st.v (m + 1) q
  z := Function.update (Function.update st.z (m + 1) s) (m + 1 + 1) end_

section
variable {st : Stack K} {m q j : Int} {s end_ : K}

theorem Stack.push_v_of_le (h : j ≤ m) : (st.push m q s end_).v j = st.v j :=
  Function.update_of_ne (by omega) _ _

theorem Stack.push_z_of_le (h : j ≤ m) : (st.push m q s end_).z j = st.z j :=
  (Function.update_of_ne (by omega) _ _).trans (Function.update_of_ne (by omega) _ _)

theorem Stack.push_v_top : (st.push m q s end_).v (m + 1) = q := Function.update_self ..

theorem Stack.push_z_top : (st.push m q s end_).z (m + 1) = s :=
  (Function.update_of_ne (by omega) _ _).trans (Function.update_self ..)

theorem Stack.push_z_end : (st.push m q s end_).z (m + 1 + 1) = end_ :=
  Function.update_self ..

end

variable [Field K]

def parabola (f : Int → K) (p : Int) (x : K) : K := (x - p) * (x - p) + f p

/-- Where the parabolas of `p` and `q` meet. -/
def meet (f : Int → K) (p q : Int) : K := ((f q + q * q) - (f p + p * p)) / ((q - p) + (q - p))

variable [LinearOrder K] {f : Int → K} {p q start last : Int} {x : K} {st : Stack K}

/-- The parabola of `v` is at `x` below all parabolas from `start` to `last`. -/
def Lowest (f : Int → K) (start last : Int) (v : Int) (x : K) : Prop :=
  ∀ p, start ≤ p → p ≤ last → parabola f v x ≤ parabola f p x

/-- The stack is the lower envelope of the parabolas from `start` to `last`, from `z start` on. -/
structure Envelope (f : Int → K) (start last : Int) (st : Stack K) : Prop where
  start_le : start ≤ st.k
  mem : ∀ j, start ≤ j → j ≤ st.k → start ≤ st.v j ∧ st.v j ≤ last
  mono : ∀ j, start ≤ j → j < st.k → st.z j ≤ st.z (j + 1)
  inner : ∀ j, start ≤ j → j < st.k → ∀ x, st.z j ≤ x → x ≤ st.z (j + 1) → Lowest f start last (st.v j) x
  top : ∀ x, st.z st.k ≤ x → Lowest f start last (st.v st.k) x

theorem Envelope.le_z (h : Envelope f start last st) {j : Int} (hj : start ≤ j) (hjk : j ≤ st.k) :
    ∀ i, start ≤ i → i ≤ j → st.z i ≤ st.z j := by
  intro i hi hij
  induction j, hij using Int.leInduction with
  | base => exact le_rfl
  | succ j hij ih => exact (ih (by omega) (by omega)).trans (h.mono j (by omega) (by omega))

theorem Envelope.singleton (f : Int → K) (start : Int) {st : Stack K} (hk : st.k = start) (hv : st.v start = start) :
    Envelope f start start st := by
  refine ⟨hk.ge, fun j hj hjk => ?_, fun j hj hjk => by omega, fun j hj hjk => by omega, fun x _ p hp hpl => ?_⟩
  · obtain rfl : j = start := by omega
    rw [hv]
    exact ⟨le_rfl, le_rfl⟩
  · obtain rfl : p = start := by omega
    rw [hk, hv]

/-- Where `x` is on the stretch of the entry `j`, that is the lowest. -/
theorem Envelope.lowest (h : Envelope f start last st) {j : Int} (hj : start ≤ j) (hjk : j ≤ st.k) (hx : st.z j ≤ x)
    (hx' : x ≤ st.z (j + 1)) : Lowest f start last (st.v j) x := by
  rcases hjk.eq_or_lt with rfl | hlt
  · exact h.top x hx
  · exact h.inner j hj hlt x hx hx'

variable [IsStrictOrderedRing K]

theorem le_meet_iff (hpq : p < q) : x ≤ meet f p q ↔ parabola f p x ≤ parabola f q x := by
  have hcast : (0 : K) < (q - p) + (q - p) := by
    have : (p : K) < q := Int.cast_lt.2 hpq
    linarith
  unfold meet parabola
  rw [le_div_iff₀ hcast]
  constructor <;> intro h <;> nlinarith

theorem meet_le_iff (hpq : p < q) : meet f p q ≤ x ↔ parabola f q x ≤ parabola f p x := by
  have hcast : (0 : K) < (q - p) + (q - p) := by
    have : (p : K) < q := Int.cast_lt.2 hpq
    linarith
  unfold meet parabola
  rw [div_le_iff₀ hcast]
  constructor <;> intro h <;> nlinarith

/-- From `z m` on the parabola of `q` is below all the others; above the top nothing is claimed. -/
def Beats (f : Int → K) (start last q : Int) (st : Stack K) (m : Int) : Prop :=
  m ≤ st.k → ∀ x, st.z m ≤ x → ∀ p, start ≤ p → p ≤ last → parabola f q x ≤ parabola f p x

/-- A parabola that is above the new one all along its stretch can be popped. -/
theorem Envelope.beats (h : Envelope f start last st) {m : Int} (hm : start ≤ m) (hmk : m ≤ st.k) (hq : last < q)
    (hmeet : meet f (st.v m) q ≤ st.z m) (hbeats : Beats f start last q st (m + 1)) : Beats f start last q st m := by
  intro _ x hx p hp hpl
  have hnew : parabola f q x ≤ parabola f (st.v m) x :=
    (meet_le_iff (by have := h.mem m hm hmk; omega)).1 (hmeet.trans hx)
  rcases hmk.eq_or_lt with heq | hlt
  · subst heq
    exact hnew.trans (h.top x hx p hp hpl)
  · rcases le_total x (st.z (m + 1)) with hle | hge
    · exact hnew.trans (h.inner m hm hlt x hx hle p hp hpl)
    · exact hbeats (by omega) x hge p hp hpl

/-- The new parabola takes over before the one that was popped last did. -/
theorem Envelope.meet_le (h : Envelope f start last st) {m : Int} (hm : start ≤ m) (hmk : m < st.k) (hq : last < q)
    (hbeats : Beats f start last q st (m + 1)) : meet f (st.v m) q ≤ st.z (m + 1) := by
  obtain ⟨hmem, hmem'⟩ := h.mem m hm hmk.le
  rw [meet_le_iff (by omega)]
  exact hbeats (by omega) _ le_rfl _ hmem hmem'

theorem Envelope.push (h : Envelope f start last st) {m : Int} (hm : start ≤ m) (hmk : m ≤ st.k)
    (hmeet : st.z m < meet f (st.v m) (last + 1)) (hbeats : Beats f start last (last + 1) st (m + 1)) (end_ : K) :
    Envelope f start (last + 1) (st.push m (last + 1) (meet f (st.v m) (last + 1)) end_) := by
  obtain ⟨hmem, hmem'⟩ := h.mem m hm hmk
  have hlt : st.v m < last + 1 := by omega
  -- what the entry `m` is the lowest on, now that the new parabola takes over from it
  have hstretch : ∀ x, st.z m ≤ x → x ≤ meet f (st.v m) (last + 1) → Lowest f start last (st.v m) x := by
    intro x hx hxs
    rcases hmk.eq_or_lt with heq | hlt
    · rw [heq] at hx ⊢
      exact h.top x hx
    · exact h.inner m hm hlt x hx (hxs.trans (h.meet_le hm hlt (by omega) hbeats))
  refine ⟨by show start ≤ m + 1; omega, fun j hj hjk => ?_, fun j hj hjk => ?_, fun j hj hjk x hx hx' p hp hpl => ?_,
    fun x hx p hp hpl => ?_⟩
  · rcases (show j ≤ m + 1 from hjk).eq_or_lt with rfl | hlt
    · rw [Stack.push_v_top]
      omega
    · rw [Stack.push_v_of_le (by omega)]
      have := h.mem j hj (by omega)
      omega
  · rcases (show j < m + 1 from hjk).le.eq_or_lt with rfl | -
    · exact absurd hjk (lt_irrefl _)
    · rcases (show j ≤ m by have : j < m + 1 := hjk; omega).eq_or_lt with rfl | hlt
      · rw [Stack.push_z_of_le le_rfl, Stack.push_z_top]
        exact hmeet.le
      · rw [Stack.push_z_of_le hlt.le, Stack.push_z_of_le (by omega)]
        exact h.mono j hj (by omega)
  · have hjm : j ≤ m := by have : j < m + 1 := hjk; omega
    rw [Stack.push_z_of_le hjm] at hx
    rw [Stack.push_v_of_le hjm]
    rcases hjm.eq_or_lt with rfl | hlt
    · rw [Stack.push_z_top] at hx'
      rcases hpl.eq_or_lt with rfl | hpl
      · exact (le_meet_iff hlt).1 hx'
      · exact hstretch x hx hx' p hp (by omega)
    · rw [Stack.push_z_of_le (by omega)] at hx'
      have hlow := h.inner j hj (by omega) x hx hx'
      rcases hpl.eq_or_lt with rfl | hpl
      · have hxm : x ≤ meet f (st.v m) (last + 1) :=
          (hx'.trans (h.le_z hm hmk (j + 1) (by omega) (by omega))).trans hmeet.le
        exact (hlow _ hmem hmem').trans ((le_meet_iff (by omega)).1 hxm)
      · exact hlow p hp (by omega)
  · rw [show (st.push m (last + 1) (meet f (st.v m) (last + 1)) end_).k = m + 1 from rfl] at hx ⊢
    rw [Stack.push_z_top] at hx
    rw [Stack.push_v_top]
    rcases hpl.eq_or_lt with rfl | hpl
    · exact le_rfl
    · have hnew := (meet_le_iff hlt).1 hx
      rcases hmk.eq_or_lt with heq | hmk
      · rw [heq] at hnew hmeet hx
        exact hnew.trans (h.top x (hmeet.le.trans hx) p hp (by omega))
      · rcases le_total x (st.z (m + 1)) with hle | hge
        · exact hnew.trans (h.inner m hm hmk x (hmeet.le.trans hx) hle p hp (by omega))
        · exact hbeats (by omega) x hge p hp (by omega)

end ParabolaEnvelope
