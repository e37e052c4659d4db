import Mathlib.Data.List.Perm.Basic
import Mathlib.Logic.Function.Basic
import A17.Lib.Run
import A17.Utils.BufferPool

/-!
# Who releases the segments of a `SmartCapnpBuilder`

The constructors, the destructor and `allocateSegment` of `smart_capnp_builder.{h,cpp}`, for any number of
builders that share a pool. A segment belongs to the builder that obtained it, and goes to the new one when
that is moved from (`owned`); it should be released by the destructor of its owner (`ReleasesOwn`). The
move constructor sets `invalidated_` of the new builder where it means the old one, so the old one releases
its first segment and the new one nothing (`Misplaces`).
-/

namespace A17.Dispatch
open Utils

structure MoreSegments where
  segments : List Nat := []
  isSegmentPooled : List Bool := []
deriving DecidableEq

structure SmartCapnpBuilder where
  nextSize : Nat
  ownFirstSegment : Bool
  returnedFirstSegment : Bool
  firstSegment : Nat
  isFirstSegmentPooled : Bool := false
  invalidated : Bool := false
  moreSegments : Option MoreSegments := none
deriving DecidableEq

namespace SmartCapnpBuilder

def new (pool : BufferPool) : SmartCapnpBuilder where
  nextSize := pool.bufferSize / 8 % 2 ^ 32
  ownFirstSegment := true
  returnedFirstSegment := false
  firstSegment := 0

/-- The move constructor: the new builder and what is left of the other. -/
def move (other : SmartCapnpBuilder) : SmartCapnpBuilder × SmartCapnpBuilder :=
  ({ other with invalidated := true }, { other with moreSegments := none })

/-- What `allocateSegment` returns, `none` if it throws, with the builder and the pool after it. `os` is what
the pool gets from `::malloc` if it asks (for `calloc` is `malloc` and a `memset`), and `heap` what
`::calloc` returns. -/
def allocateSegment (b : SmartCapnpBuilder) (pool : BufferPool) (minimumSize os heap : Nat) :
    Option Nat × SmartCapnpBuilder × BufferPool :=
  if !b.returnedFirstSegment && !b.ownFirstSegment && minimumSize ≤ b.nextSize then
    (some b.firstSegment, { b with returnedFirstSegment := true }, pool)
  else
    let b := if !b.returnedFirstSegment && !b.ownFirstSegment then { b with ownFirstSegment := true } else b
    let size := max minimumSize b.nextSize
    let usePool : Bool := size * 8 ≤ pool.bufferSize
    let (result, pool) := if usePool then pool.malloc os else (0, pool)
    let result := if result = 0 then heap else result
    if result = 0 then (none, b, pool)
    else if !b.returnedFirstSegment then
      (some result,
        { b with firstSegment := result, returnedFirstSegment := true, isFirstSegmentPooled := usePool }, pool)
    else
      let more := b.moreSegments.getD {}
      (some result,
        { b with moreSegments := some ⟨more.segments ++ [result], more.isSegmentPooled ++ [usePool]⟩ }, pool)

/-- How often a loop runs up to `static_cast<int>(n)`. -/
def intCount (n : Nat) : Nat := if n % 2 ^ 32 < 2 ^ 31 then n % 2 ^ 32 else 0

/-- The segments that the destructor releases, and whether to the pool. -/
def releases (b : SmartCapnpBuilder) : List (Nat × Bool) :=
  if !b.invalidated && b.returnedFirstSegment then
    (if b.ownFirstSegment then [(b.firstSegment, b.isFirstSegmentPooled)] else []) ++
      match b.moreSegments with
      | none => []
      | some more => (more.segments.zip more.isSegmentPooled).take (intCount more.segments.length)
  else []

end SmartCapnpBuilder

/-- The builders that are alive, by name, and their pool. -/
structure Builders where
  pool : BufferPool
  builders : Nat → Option SmartCapnpBuilder := fun _ => none
  /-- The segments with their owners, in the order in which they were obtained. -/
  owned : List (Nat × Nat) := []
  obtained : List Nat := []
  released : List Nat := []

inductive BuilderOp where
  | construct (name : Nat)
  | allocateSegment (name minimumSize os heap : Nat)
  | move (source target : Nat)
  | destroy (name : Nat)
deriving DecidableEq

namespace Builders

def construct (w : Builders) (name : Nat) : Builders :=
  if (w.builders name).isSome then w
  else { w with builders := Function.update w.builders name (some (.new w.pool)) }

def allocateSegment (w : Builders) (name minimumSize os heap : Nat) : Builders :=
  match w.builders name with
  | none => w
  | some b =>
    let (result, b, pool) := b.allocateSegment w.pool minimumSize os heap
    let w := { w with pool, builders := Function.update w.builders name (some b) }
    match result with
    | none => w
    | some segment =>
      { w with owned := w.owned ++ [(name, segment)], obtained := w.obtained ++ [segment] }

def move (w : Builders) (source target : Nat) : Builders :=
  match w.builders source with
  | none => w
  | some b =>
    if (w.builders target).isSome then w
    else
      { w with
        builders := Function.update (Function.update w.builders source (some b.move.2)) target (some b.move.1)
        owned := w.owned.map fun e => if e.1 = source then (target, e.2) else e }

def destroy (w : Builders) (name : Nat) : Builders :=
  match w.builders name with
  | none => w
  | some b =>
    { w with
      builders := Function.update w.builders name none
      pool := b.releases.foldl (fun pool e => if e.2 then (pool.free e.1).1 else pool) w.pool
      owned := w.owned.filter fun e => e.1 ≠ name
      released := w.released ++ b.releases.map Prod.fst }

def step (w : Builders) : BuilderOp → Builders
  | .construct name => w.construct name
  | .allocateSegment name minimumSize os heap => w.allocateSegment name minimumSize os heap
  | .move source target => w.move source target
  | .destroy name => w.destroy name

/-- The segments of one builder. -/
def ownedBy (owned : List (Nat × Nat)) (name : Nat) : List Nat := (owned.filter fun e => e.1 = name).map Prod.snd

/-- What was obtained is released or has an owner, who is alive; each segment is one of them, once. -/
structure Accounted (w : Builders) : Prop where
  perm : w.obtained.Perm (w.released ++ w.owned.map Prod.snd)
  alive : ∀ e ∈ w.owned, (w.builders e.1).isSome = true

/-- A destructor releases the segments its builder owns; nothing else releases any. -/
def ReleasesOwn (w : Builders) (op : BuilderOp) : Prop :=
  match op with
  | .destroy name => (w.step op).released = w.released ++ ownedBy w.owned name
  | _ => (w.step op).released = w.released

/-- A builder is moved from that has a segment, or a segment is obtained through one that was made by a move,
or through one that has 2^31 others. -/
def Misplaces (w : Builders) : BuilderOp → Prop
  | .move source _ => ∃ b ∈ w.builders source, b.returnedFirstSegment = true
  | .allocateSegment name minimumSize os heap => ∃ b ∈ w.builders name,
    (b.allocateSegment w.pool minimumSize os heap).1.isSome = true ∧
      (b.invalidated = true ∨ 2 ^ 31 ≤ (b.moreSegments.getD {}).segments.length + 1)
  | _ => False

end Builders

/-! ## One builder -/

namespace SmartCapnpBuilder
variable {b : SmartCapnpBuilder}

def segments (b : SmartCapnpBuilder) : List Nat :=
  if b.returnedFirstSegment then b.firstSegment :: (b.moreSegments.getD {}).segments else []

/-- A builder of a run in which no segment is misplaced. -/
structure WF (b : SmartCapnpBuilder) : Prop where
  own : b.ownFirstSegment = true
  invalidated : b.invalidated = true → b.returnedFirstSegment = false
  more : b.returnedFirstSegment = false → b.moreSegments = none
  pooled : (b.moreSegments.getD {}).isSegmentPooled.length = (b.moreSegments.getD {}).segments.length
  count : (b.moreSegments.getD {}).segments.length < 2 ^ 31

theorem WF.new (pool : BufferPool) : (new pool).WF := ⟨rfl, fun _ => rfl, fun _ => rfl, rfl, Nat.two_pow_pos 31⟩

theorem intCount_eq {n : Nat} (h : n < 2 ^ 31) : intCount n = n := by
  rw [intCount, Nat.mod_eq_of_lt (by omega), if_pos h]

theorem WF.releases_eq (h : b.WF) : b.releases.map Prod.fst = b.segments := by
  rw [releases, segments]
  cases hr : b.returnedFirstSegment with
  | false => simp
  | true =>
    have hi : b.invalidated = false := by
      cases hi : b.invalidated with
      | false => rfl
      | true => exact absurd (hr.symm.trans (h.invalidated hi)) (by decide)
    have hp := h.pooled
    have hc := h.count
    cases hm : b.moreSegments with
    | none => simp [hi, h.own]
    | some more =>
      rw [hm] at hp hc
      simp only [Option.getD_some] at hp hc
      simp only [hi, h.own, Bool.not_false, Bool.true_and, if_true, intCount_eq hc, Option.getD_some,
        List.singleton_append, List.map_cons]
      rw [List.take_of_length_le (by rw [List.length_zip]; omega), List.map_fst_zip (by omega)]

theorem allocateSegment_cases (h : b.ownFirstSegment = true) (pool : BufferPool) (minimumSize os heap : Nat) :
    ∃ segment pooled pool', b.allocateSegment pool minimumSize os heap = (none, b, pool') ∨
      b.returnedFirstSegment = false ∧ b.allocateSegment pool minimumSize os heap = (some segment,
        { b with firstSegment := segment, returnedFirstSegment := true, isFirstSegmentPooled := pooled }, pool') ∨
      b.returnedFirstSegment = true ∧ b.allocateSegment pool minimumSize os heap = (some segment,
        { b with moreSegments := some ⟨(b.moreSegments.getD {}).segments ++ [segment],
            (b.moreSegments.getD {}).isSegmentPooled ++ [pooled]⟩ }, pool') := by
  rw [allocateSegment, if_neg (by simp [h]), if_neg (by simp [h])]
  dsimp only
  generalize (if decide (max minimumSize b.nextSize * 8 ≤ pool.bufferSize) = true then pool.malloc os
    else (0, pool)) = got
  generalize (if got.1 = 0 then heap else got.1) = segment
  refine ⟨segment, decide (max minimumSize b.nextSize * 8 ≤ pool.bufferSize), got.2, ?_⟩
  split
  · exact .inl rfl
  · cases hret : b.returnedFirstSegment with
    | false => exact .inr (.inl ⟨rfl, rfl⟩)
    | true => exact .inr (.inr ⟨rfl, rfl⟩)

/-- A segment is added at the end, or nothing changes. -/
theorem WF.allocateSegment (h : b.WF) (pool : BufferPool) (minimumSize os heap : Nat) {result : Option Nat}
    {b' : SmartCapnpBuilder} {pool' : BufferPool}
    (heq : b.allocateSegment pool minimumSize os heap = (result, b', pool'))
    (hok : result.isSome = true → ¬ (b.invalidated = true ∨ 2 ^ 31 ≤ (b.moreSegments.getD {}).segments.length + 1)) :
    b'.WF ∧ b'.segments = b.segments ++ result.toList := by
  obtain ⟨segment, pooled, pool'', hnone | ⟨hret, hfirst⟩ | ⟨hret, hmore⟩⟩ :=
    allocateSegment_cases h.own pool minimumSize os heap
  · cases heq.symm.trans hnone
    exact ⟨h, by simp⟩
  · cases heq.symm.trans hfirst
    have hm := h.more hret
    refine ⟨⟨h.own, fun hi => absurd (.inl hi) (hok rfl), fun hr => ?_, ?_, ?_⟩, ?_⟩
    · cases hr
    · simp [hm]
    · simp [hm]
    · simp [segments, hret, hm]
  · cases heq.symm.trans hmore
    refine ⟨⟨h.own, h.invalidated, fun hr => absurd (hret.symm.trans hr) (by decide), ?_, ?_⟩, ?_⟩
    · simp [h.pooled]
    · have := hok rfl
      simp only [Option.getD_some, List.length_append, List.length_singleton]
      omega
    · simp [segments, hret]

theorem WF.move (h : b.WF) (hret : b.returnedFirstSegment = false) : b.move.1.WF ∧ b.move.2.WF :=
  ⟨⟨h.own, fun _ => hret, h.more, h.pooled, h.count⟩, ⟨h.own, fun _ => hret, fun _ => rfl, rfl, Nat.two_pow_pos 31⟩⟩

theorem segments_of_not_returned (hret : b.returnedFirstSegment = false) : b.segments = [] := by
  rw [segments, hret]; rfl

end SmartCapnpBuilder
/-! ## Runs -/

namespace Builders
variable {w : Builders} {name : Nat} {b : SmartCapnpBuilder}

structure Inv (w : Builders) : Prop where
  accounted : w.Accounted
  wf : ∀ name, ∀ b ∈ w.builders name, b.WF
  owned : ∀ name, ∀ b ∈ w.builders name, ownedBy w.owned name = b.segments

theorem Inv.ownedBy_eq_nil (h : w.Inv) (hn : w.builders name = none) : ownedBy w.owned name = [] := by
  rw [ownedBy, List.map_eq_nil_iff, List.filter_eq_nil_iff]
  intro e he heq
  have := h.accounted.alive e he
  rw [of_decide_eq_true heq, hn] at this
  cases this

theorem ownedBy_concat (owned : List (Nat × Nat)) (n name segment : Nat) :
    ownedBy (owned ++ [(n, segment)]) name = ownedBy owned name ++ if n = name then [segment] else [] := by
  rw [ownedBy, ownedBy, List.filter_append, List.map_append]
  split <;> simp_all

theorem mem_update {f : Nat → Option SmartCapnpBuilder} {v : Option SmartCapnpBuilder} {n m : Nat}
    (h : b ∈ Function.update f n v m) : m = n ∧ b ∈ v ∨ m ≠ n ∧ b ∈ f m := by
  rw [Function.update_apply] at h
  split at h
  · next hm => exact .inl ⟨hm, h⟩
  · next hm => exact .inr ⟨hm, h⟩

theorem isSome_update {f : Nat → Option SmartCapnpBuilder} {m : Nat} (n : Nat) (b : SmartCapnpBuilder)
    (h : (f m).isSome = true) : (Function.update f n (some b) m).isSome = true := by
  rw [Function.update_apply]
  split
  · rfl
  · exact h

theorem Inv.construct (h : w.Inv) (name : Nat) : (w.construct name).Inv := by
  rw [Builders.construct]
  split
  · exact h
  next hn =>
  have hn : w.builders name = none := by simpa using hn
  refine ⟨⟨h.accounted.perm, fun e he => isSome_update _ _ (h.accounted.alive e he)⟩, fun n b hb => ?_,
    fun n b hb => ?_⟩
  · rcases mem_update hb with ⟨-, ⟨⟩⟩ | ⟨-, hb⟩
    · exact .new _
    · exact h.wf n b hb
  · rcases mem_update hb with ⟨rfl, ⟨⟩⟩ | ⟨-, hb⟩
    · exact h.ownedBy_eq_nil hn
    · exact h.owned n b hb

theorem Inv.allocateSegment (h : w.Inv) {minimumSize os heap : Nat}
    (hok : ¬ w.Misplaces (.allocateSegment name minimumSize os heap)) :
    (w.allocateSegment name minimumSize os heap).Inv := by
  rw [Builders.allocateSegment]
  split
  · exact h
  next b hb =>
  rcases heq : b.allocateSegment w.pool minimumSize os heap with ⟨result, b', pool'⟩
  obtain ⟨hwf, hseg⟩ := (h.wf name b hb).allocateSegment w.pool minimumSize os heap heq fun hs hbad =>
    hok ⟨b, hb, by rw [heq]; exact hs, hbad⟩
  rw [← h.owned name b hb] at hseg
  have hwf' : ∀ n, ∀ x ∈ Function.update w.builders name (some b') n, x.WF := by
    intro n x hx
    rcases mem_update hx with ⟨-, ⟨⟩⟩ | ⟨-, hx⟩
    · exact hwf
    · exact h.wf n x hx
  cases result with
  | none =>
    refine ⟨⟨h.accounted.perm, fun e he => isSome_update _ _ (h.accounted.alive e he)⟩, hwf', fun n x hx => ?_⟩
    rcases mem_update hx with ⟨rfl, ⟨⟩⟩ | ⟨-, hx⟩
    · simp [hseg]
    · exact h.owned n x hx
  | some segment =>
    refine ⟨⟨?_, fun e he => ?_⟩, hwf', fun n x hx => ?_⟩
    · rw [List.map_append, ← List.append_assoc]
      exact h.accounted.perm.append_right _
    · rcases List.mem_append.1 he with he | he
      · exact isSome_update _ _ (h.accounted.alive e he)
      · rw [List.mem_singleton.1 he]
        exact isSome_update _ _ (by rw [hb]; rfl)
    · rw [ownedBy_concat]
      rcases mem_update hx with ⟨rfl, ⟨⟩⟩ | ⟨hne, hx⟩
      · rw [if_pos rfl, hseg]; rfl
      · rw [if_neg (Ne.symm hne), List.append_nil]
        exact h.owned n x hx

theorem ownedBy_eq_nil_iff {owned : List (Nat × Nat)} : ownedBy owned name = [] ↔ ∀ e ∈ owned, e.1 ≠ name := by
  simp [ownedBy, List.filter_eq_nil_iff]

/-- A builder without segments is moved from: nothing changes hands. -/
theorem Inv.move (h : w.Inv) {source target : Nat} (hok : ¬ w.Misplaces (.move source target)) :
    (w.move source target).Inv := by
  rw [Builders.move]
  split
  · exact h
  next b hb =>
  split
  · exact h
  next ht =>
  have hret : b.returnedFirstSegment = false := by
    by_contra hret
    exact hok ⟨b, hb, by simpa using hret⟩
  have hsource : ownedBy w.owned source = [] :=
    (h.owned source b hb).trans (SmartCapnpBuilder.segments_of_not_returned hret)
  have htarget : ownedBy w.owned target = [] := h.ownedBy_eq_nil (by simpa using ht)
  have hmap : w.owned.map (fun e => if e.1 = source then (target, e.2) else e) = w.owned := by
    refine (List.map_congr_left fun e he => ?_).trans (List.map_id _)
    rw [if_neg (ownedBy_eq_nil_iff.1 hsource e he)]; rfl
  obtain ⟨hnew, hold⟩ := (h.wf source b hb).move hret
  rw [hmap]
  refine ⟨⟨h.accounted.perm, fun e he => isSome_update _ _ (isSome_update _ _ (h.accounted.alive e he))⟩,
    fun n x hx => ?_, fun n x hx => ?_⟩
  · rcases mem_update hx with ⟨-, ⟨⟩⟩ | ⟨-, hx⟩
    · exact hnew
    · rcases mem_update hx with ⟨-, ⟨⟩⟩ | ⟨-, hx⟩
      · exact hold
      · exact h.wf n x hx
  · rcases mem_update hx with ⟨rfl, ⟨⟩⟩ | ⟨-, hx⟩
    · exact htarget.trans (SmartCapnpBuilder.segments_of_not_returned (b := b.move.1) hret).symm
    · rcases mem_update hx with ⟨rfl, ⟨⟩⟩ | ⟨-, hx⟩
      · exact hsource.trans (SmartCapnpBuilder.segments_of_not_returned (b := b.move.2) hret).symm
      · exact h.owned n x hx

/-- The builder goes, with the segments it owns. -/
theorem Inv.destroy (h : w.Inv) (name : Nat) :
    (w.destroy name).Inv ∧ (w.destroy name).released = w.released ++ ownedBy w.owned name := by
  rw [Builders.destroy]
  split
  · next hn =>
    refine ⟨h, ?_⟩
    rw [h.ownedBy_eq_nil hn, List.append_nil]
  next b hb =>
  have hrel : b.releases.map Prod.fst = ownedBy w.owned name :=
    (h.wf name b hb).releases_eq.trans (h.owned name b hb).symm
  refine ⟨⟨⟨?_, fun e he => ?_⟩, fun n x hx => ?_, fun n x hx => ?_⟩, by rw [hrel]⟩
  · rw [hrel, List.append_assoc, ownedBy, ← List.map_append]
    refine h.accounted.perm.trans (List.Perm.append_left _ (List.Perm.map _ ?_))
    have hsplit := List.filter_append_perm (fun e : Nat × Nat => decide (e.1 = name)) w.owned
    simpa using hsplit.symm
  · obtain ⟨he, hne⟩ := List.mem_filter.1 he
    show (Function.update w.builders name none e.1).isSome = true
    rw [Function.update_of_ne (of_decide_eq_true hne)]
    exact h.accounted.alive e he
  · rcases mem_update hx with ⟨-, ⟨⟩⟩ | ⟨-, hx⟩
    exact h.wf n x hx
  · rcases mem_update hx with ⟨-, ⟨⟩⟩ | ⟨hne, hx⟩
    rw [← h.owned n x hx, ownedBy, ownedBy, List.filter_filter]
    congr 1
    refine List.filter_congr fun e _ => ?_
    by_cases he : e.1 = n
    · simp [he, hne]
    · simp [he]

theorem Inv.step (h : w.Inv) (op : BuilderOp) (hok : ¬ w.Misplaces op) : (w.step op).Inv := by
  cases op with
  | construct name => exact h.construct name
  | allocateSegment name minimumSize os heap => exact h.allocateSegment hok
  | move source target => exact h.move hok
  | destroy name => exact (h.destroy name).1

theorem Inv.releasesOwn (h : w.Inv) (op : BuilderOp) : w.ReleasesOwn op := by
  cases op with
  | construct name =>
    show (w.construct name).released = _
    rw [Builders.construct]
    split <;> rfl
  | allocateSegment name minimumSize os heap =>
    show (w.allocateSegment name minimumSize os heap).released = _
    rw [Builders.allocateSegment]
    split
    · rfl
    · dsimp only
      split <;> rfl
  | move source target =>
    show (w.move source target).released = _
    rw [Builders.move]
    split
    · rfl
    · split <;> rfl
  | destroy name => exact (h.destroy name).2

theorem Inv.init (pool : BufferPool) : Inv { pool } :=
  ⟨⟨.refl _, fun _ he => absurd he List.not_mem_nil⟩, fun _ _ hb => absurd hb (by simp),
    fun _ _ hb => absurd hb (by simp)⟩

/-- In a run that misplaces no segment, every segment obtained is released or owned by a builder that is
alive, and destructors release exactly what their builder owns. -/
theorem segments_released_once (pool : BufferPool) {ops : List BuilderOp}
    (h : Run.Steps step (fun w op => ¬ w.Misplaces op) { pool } ops) :
    Run.States step Accounted { pool } ops ∧ Run.Steps step ReleasesOwn { pool } ops := by
  have hinv : Run.States step Inv { pool } ops := h.states (fun w op hw hok => hw.step op hok) (Inv.init pool)
  constructor
  · exact fun pre hpre => (hinv pre hpre).accounted
  · exact fun pre op hpre => (hinv pre ((List.prefix_append ..).trans hpre)).releasesOwn op

/-- A builder without segments may be moved from, and the old one used. -/
theorem segments_released_once_after_move :
    let ops : List BuilderOp := [.construct 0, .move 0 1, .allocateSegment 0 8 0 5000, .destroy 1, .destroy 0]
    Run.States step Accounted { pool := .new 4096 64 4 } ops ∧
      Run.Steps step ReleasesOwn { pool := .new 4096 64 4 } ops := by
  refine segments_released_once _ ?_
  simp only [Run.steps_cons, Run.steps_nil, Misplaces, not_false_eq_true, true_and, and_true]
  constructor
  · rintro ⟨b, hb, hret⟩
    cases hb
    exact absurd hret (by decide)
  · rintro ⟨b, hb, -, hbad⟩
    cases hb
    exact absurd hbad (by decide)

/-- The first segment of a builder that is moved from is released by the old builder, while the new one that
owns it is alive. -/
theorem moved_segment_released_early :
    ¬ ∀ (pool : BufferPool) (ops : List BuilderOp),
      Run.States step Accounted { pool } ops ∧ Run.Steps step ReleasesOwn { pool } ops := by
  intro h
  have hstep := (h (.new 4096 64 4) [.construct 0, .allocateSegment 0 8 0 5000, .move 0 1, .destroy 0]).2
    [.construct 0, .allocateSegment 0 8 0 5000, .move 0 1] (.destroy 0) (List.prefix_refl _)
  rw [ReleasesOwn] at hstep
  exact absurd hstep (by decide)

end Builders
end A17.Dispatch
