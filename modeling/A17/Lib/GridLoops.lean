import Mathlib.Data.Fin.VecNotation
import Mathlib.Data.Fintype.Pi
import Mathlib.Data.Int.Range
import Mathlib.Data.List.Nodup
import Mathlib.Tactic.FinCases
import Mathlib.Tactic.Ring
import A17.Lib.Run

/-!
# Loops over boxes of the grid

Nested loops over the coordinates of a box visit each of its points once (`mem_box`, `nodup_box`).
-/

namespace GridLoops

-- with these the literals of the axes and the corners leave no proof in a definition
scoped instance neZero_three : NeZero 3 := ⟨by decide⟩
scoped instance neZero_two : NeZero 2 := ⟨by decide⟩

/-- The values of `for (int k = lo; k <= hi; k++)`. -/
def span (lo hi : Int) : List Int := Int.range lo (hi + 1)

theorem mem_span {lo hi k : Int} : k ∈ span lo hi ↔ lo ≤ k ∧ k ≤ hi := by
  rw [span, Int.mem_range_iff, Int.lt_add_one_iff]

theorem nodup_span (lo hi : Int) : (span lo hi).Nodup := by
  refine List.Nodup.map (fun a b h => ?_) List.nodup_range
  have : lo + (a : Int) = lo + b := h
  omega

theorem span_of_lt {lo hi : Int} (h : hi < lo) : span lo hi = [] := by
  refine List.eq_nil_iff_forall_not_mem.2 fun k hk => ?_
  have := mem_span.1 hk
  omega

theorem span_succ {lo hi : Int} (h : lo ≤ hi + 1) : span lo (hi + 1) = span lo hi ++ [hi + 1] := by
  have hlen : (hi + 1 + 1 - lo).toNat = (hi + 1 - lo).toNat + 1 := by omega
  have hlast : lo + ((hi + 1 - lo).toNat : Int) = hi + 1 := by omega
  unfold span Int.range
  rw [hlen, List.range_succ, List.map_append, List.map_singleton, hlast]

/-- The invariant rule for a loop that can fail: from a state with the invariant it does not. -/
theorem foldlM_span {σ : Type} {I : Int → σ → Prop} (body : σ → Int → Option σ) {lo hi : Int} {s : σ}
    (hle : lo ≤ hi + 1) (h0 : I lo s)
    (hstep : ∀ k s, lo ≤ k → k ≤ hi → I k s → ∃ s', body s k = some s' ∧ I (k + 1) s') :
    ∃ s', (span lo hi).foldlM body s = some s' ∧ I (hi + 1) s' := by
  obtain ⟨n, rfl⟩ : ∃ n : Nat, hi = lo - 1 + n := ⟨(hi + 1 - lo).toNat, by omega⟩
  clear hle
  induction n with
  | zero =>
    rw [span_of_lt (by simp)]
    exact ⟨s, rfl, by simpa using h0⟩
  | succ n ih =>
    obtain ⟨t, ht, hI⟩ := ih fun k s hlo hhi => hstep k s hlo (by push_cast; omega)
    have hhi : lo - 1 + ((n + 1 : Nat) : Int) = lo - 1 + n + 1 := by push_cast; ring
    obtain ⟨t', ht', hI'⟩ := hstep (lo - 1 + n + 1) t (by omega) (by omega) hI
    rw [hhi, span_succ (by omega), List.foldlM_append, ht]
    refine ⟨t', ?_, hI'⟩
    simp [ht']

/-- The points of a loop over `x` with one over `y` in it, and one over `z` in that. -/
def box (lo hi : Fin 3 → Int) : List (Fin 3 → Int) :=
  (span (lo 0) (hi 0)).flatMap fun x =>
    (span (lo 1) (hi 1)).flatMap fun y => (span (lo 2) (hi 2)).map fun z => ![x, y, z]

theorem vec_eta (c : Fin 3 → Int) : ![c 0, c 1, c 2] = c := by
  funext i
  fin_cases i <;> rfl

theorem mem_box {lo hi c : Fin 3 → Int} : c ∈ box lo hi ↔ ∀ i, lo i ≤ c i ∧ c i ≤ hi i := by
  simp only [box, List.mem_flatMap, List.mem_map, mem_span]
  constructor
  · rintro ⟨x, hx, y, hy, z, hz, rfl⟩ i
    fin_cases i
    exacts [hx, hy, hz]
  · intro h
    exact ⟨c 0, h 0, c 1, h 1, c 2, h 2, vec_eta c⟩

theorem nodup_box (lo hi : Fin 3 → Int) : (box lo hi).Nodup := by
  refine List.nodup_flatMap.2 ⟨fun x _ => ?_, (nodup_span ..).imp fun {a b} hab => ?_⟩
  · refine List.nodup_flatMap.2 ⟨fun y _ => ?_, (nodup_span ..).imp fun {a b} hab => ?_⟩
    · exact (nodup_span ..).map fun a b h => congrFun h 2
    · rintro c ha hb
      obtain ⟨z, -, rfl⟩ := List.mem_map.1 ha
      obtain ⟨z', -, h⟩ := List.mem_map.1 hb
      exact hab (congrFun h 1).symm
  · rintro c ha hb
    simp only [List.mem_flatMap, List.mem_map] at ha hb
    obtain ⟨y, -, z, -, rfl⟩ := ha
    obtain ⟨y', -, z', -, h⟩ := hb
    exact hab (congrFun h 0).symm

end GridLoops
