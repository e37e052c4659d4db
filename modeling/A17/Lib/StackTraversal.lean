import Mathlib.Data.List.Nodup
import Mathlib.Data.List.Perm.Subperm
import Mathlib.Tactic.Tauto

/-!
# Traversal with a stack

What hangs under a key is found with the key. A turn visits the next node and goes down to what hangs under it, and the
stack has the places to come back to. `run_spec`: when every node has its parent among the nodes, or the root, each node
is visited once, after its parent, and a node that is found again can only be the root.
-/

namespace StackTraversal
variable {α κ σ : Type} [DecidableEq κ]

structure Graph (α κ σ : Type) where
  key : α → κ
  find : κ → Option (List α)
  visit : σ → α → σ
  /-- What becomes of it when one goes down to a key a second time. -/
  cycle : σ → σ

/-- The stack has the nodes one has gone down from, each with its siblings that come after it. -/
structure State (α κ σ : Type) where
  acc : σ
  visited : List κ
  stack : List (List α)
  rest : List α

namespace Graph

def turn (g : Graph α κ σ) (s : State α κ σ) : Option (State α κ σ) :=
  match s.rest with
  | [] =>
    match s.stack with
    | [] => none
    | top :: stack => some { s with stack, rest := top.tail }
  | child :: rest =>
    let acc := g.visit s.acc child
    match g.find (g.key child) with
    | none => some { s with acc, rest }
    | some children =>
      if g.key child ∈ s.visited then some { s with acc := g.cycle acc, rest }
      else some { acc, visited := g.key child :: s.visited, stack := s.rest :: s.stack, rest := children }

def run (g : Graph α κ σ) : Nat → State α κ σ → Option σ
  | 0, _ => none
  | fuel + 1, s =>
    match g.turn s with
    | none => some s.acc
    | some s => g.run fuel s

end Graph

/-- The nodes hang under their parents, down from the root. -/
structure Hangs (g : Graph α κ σ) (parent : α → κ) (root : κ) (nodes : List α) : Prop where
  nodup : (nodes.map g.key).Nodup
  find_root : ∃ children, g.find root = some children
  mem_find : ∀ k children, g.find k = some children → ∀ e, e ∈ children ↔ e ∈ nodes ∧ parent e = k
  find_nodup : ∀ k children, g.find k = some children → children.Nodup
  find_isSome : ∀ e ∈ nodes, (g.find (parent e)).isSome
  rank : ∃ rank : α → Nat, ∀ e ∈ nodes, parent e = root ∨ ∃ a ∈ nodes, g.key a = parent e ∧ rank a < rank e

/-- Each node comes after its parent. -/
inductive ParentsFirst (key parent : α → κ) (root : κ) : List α → Prop
  | nil : ParentsFirst key parent root []
  | snoc {l : List α} {e : α} : ParentsFirst key parent root l → (parent e = root ∨ ∃ a ∈ l, key a = parent e) →
      ParentsFirst key parent root (l ++ [e])

/-- A visit, and what follows when one comes to the root again. -/
def Graph.after (g : Graph α κ σ) (root : κ) (acc : σ) (e : α) : σ :=
  if g.key e = root then g.cycle (g.visit acc e) else g.visit acc e

/-- What is still to visit of the lists one has gone into. -/
def State.pending (s : State α κ σ) : List α := s.rest ++ s.stack.flatMap List.tail

structure Inv (g : Graph α κ σ) (parent : α → κ) (root : κ) (nodes : List α) (acc : σ) (done : List α)
    (s : State α κ σ) : Prop where
  acc_eq : s.acc = done.foldl (g.after root) acc
  parentsFirst : ParentsFirst g.key parent root done
  nodup : (done ++ s.pending).Nodup
  mem_iff : ∀ e, e ∈ done ++ s.pending ↔ e ∈ nodes ∧ parent e ∈ s.visited
  visited : ∀ k ∈ s.visited, k = root ∨ ∃ a ∈ done, g.key a = k
  root_mem : root ∈ s.visited
  entered : ∀ a ∈ done, (g.find (g.key a)).isSome → g.key a ∈ s.visited

section
variable {g : Graph α κ σ} {parent : α → κ} {root : κ} {nodes : List α} {acc : σ} {done : List α} {s s' : State α κ σ}

omit [DecidableEq κ] in
theorem Hangs.key_inj (h : Hangs g parent root nodes) {a b : α} (ha : a ∈ nodes) (hb : b ∈ nodes)
    (hab : g.key a = g.key b) : a = b := List.inj_on_of_nodup_map h.nodup ha hb hab

theorem Inv.head (h : Hangs g parent root nodes) (hs : Inv g parent root nodes acc done s) {child : α}
    {rest : List α} (hrest : s.rest = child :: rest) :
    child ∈ nodes ∧ child ∉ done ∧ (parent child = root ∨ ∃ a ∈ done, g.key a = parent child) ∧
      (g.key child ∈ s.visited → g.key child = root) := by
  have hmem : child ∈ s.pending := by simp [State.pending, hrest]
  obtain ⟨hnode, hparent⟩ := (hs.mem_iff child).1 (List.mem_append_right _ hmem)
  have hnew : child ∉ done := fun hd => List.disjoint_of_nodup_append hs.nodup hd hmem
  refine ⟨hnode, hnew, hs.visited _ hparent, fun hv => ?_⟩
  rcases hs.visited _ hv with hroot | ⟨a, ha, hkey⟩
  · exact hroot
  · have hanode := ((hs.mem_iff a).1 (List.mem_append_left _ ha)).1
    exact absurd (h.key_inj hanode hnode hkey ▸ ha) hnew

theorem Inv.pop (hs : Inv g parent root nodes acc done s) (hrest : s.rest = []) {top : List α}
    {stack : List (List α)} (hstack : s.stack = top :: stack) :
    Inv g parent root nodes acc done { s with stack, rest := top.tail } := by
  have hpending : State.pending { s with stack, rest := top.tail } = s.pending := by
    simp [State.pending, hrest, hstack]
  exact ⟨hs.acc_eq, hs.parentsFirst, by rw [hpending]; exact hs.nodup, fun e => by rw [hpending]; exact hs.mem_iff e,
    hs.visited, hs.root_mem, hs.entered⟩

/-- A node that one does not go down from. -/
theorem Inv.skip (h : Hangs g parent root nodes) (hs : Inv g parent root nodes acc done s) {child : α}
    {rest : List α} (hrest : s.rest = child :: rest) {acc' : σ} (hacc : acc' = g.after root s.acc child)
    (hentered : (g.find (g.key child)).isSome → g.key child ∈ s.visited) :
    Inv g parent root nodes acc (done ++ [child]) { s with acc := acc', rest } := by
  have hpending : done ++ [child] ++ State.pending { s with acc := acc', rest } = done ++ s.pending := by
    simp [State.pending, hrest]
  obtain ⟨-, -, hparent, -⟩ := hs.head h hrest
  refine ⟨?_, hs.parentsFirst.snoc hparent, by rw [hpending]; exact hs.nodup,
    fun e => by rw [hpending]; exact hs.mem_iff e, fun k hk => ?_, hs.root_mem, fun a ha hfind => ?_⟩
  · rw [List.foldl_append, List.foldl_cons, List.foldl_nil, ← hs.acc_eq]
    exact hacc
  · exact (hs.visited k hk).imp_right fun ⟨a, ha, hkey⟩ => ⟨a, List.mem_append_left _ ha, hkey⟩
  · rcases List.mem_append.1 ha with ha | ha
    · exact hs.entered a ha hfind
    · obtain rfl := List.mem_singleton.1 ha
      exact hentered hfind

/-- A node that one goes down from. -/
theorem Inv.descend (h : Hangs g parent root nodes) (hs : Inv g parent root nodes acc done s) {child : α}
    {rest children : List α} (hrest : s.rest = child :: rest) (hfind : g.find (g.key child) = some children)
    (hnew : g.key child ∉ s.visited) :
    Inv g parent root nodes acc (done ++ [child])
      { acc := g.visit s.acc child, visited := g.key child :: s.visited, stack := s.rest :: s.stack,
        rest := children } := by
  obtain ⟨hnode, -, hparent, -⟩ := hs.head h hrest
  have hroot : g.key child ≠ root := fun heq => hnew (heq ▸ hs.root_mem)
  have hperm : (done ++ [child] ++ (children ++ (s.rest :: s.stack).flatMap List.tail)).Perm
      (children ++ (done ++ s.pending)) := by
    have hpending : done ++ [child] ++ (s.rest :: s.stack).flatMap List.tail = done ++ s.pending := by
      simp [State.pending, hrest]
    rw [← hpending, ← List.append_assoc, ← List.append_assoc]
    exact List.perm_append_comm.append_right _
  have hdisjoint : List.Disjoint children (done ++ s.pending) := by
    intro e he hmem
    obtain ⟨-, hkey⟩ := (h.mem_find _ _ hfind e).1 he
    exact hnew (hkey ▸ ((hs.mem_iff e).1 hmem).2)
  refine ⟨?_, hs.parentsFirst.snoc hparent, ?_, fun e => ?_, fun k hk => ?_, List.mem_cons_of_mem _ hs.root_mem,
    fun a ha hsome => ?_⟩
  · rw [List.foldl_append, List.foldl_cons, List.foldl_nil, ← hs.acc_eq, Graph.after, if_neg hroot]
  · exact hperm.nodup_iff.2 ((h.find_nodup _ _ hfind).append hs.nodup hdisjoint)
  · refine hperm.mem_iff.trans ?_
    rw [List.mem_append, h.mem_find _ _ hfind, hs.mem_iff, List.mem_cons]
    tauto
  · rcases List.mem_cons.1 hk with rfl | hk
    · exact .inr ⟨child, by simp, rfl⟩
    · exact (hs.visited k hk).imp_right fun ⟨a, ha, hkey⟩ => ⟨a, List.mem_append_left _ ha, hkey⟩
  · rcases List.mem_append.1 ha with ha | ha
    · exact List.mem_cons_of_mem _ (hs.entered a ha hsome)
    · obtain rfl := List.mem_singleton.1 ha
      exact List.mem_cons_self

/-- Each turn visits a node or takes one off the stack. -/
theorem Inv.turn (h : Hangs g parent root nodes) (hs : Inv g parent root nodes acc done s)
    (hturn : g.turn s = some s') : ∃ done', Inv g parent root nodes acc done' s' ∧
      (done' = done ∧ s'.stack.length + 1 = s.stack.length ∨
        done'.length = done.length + 1 ∧ s'.stack.length ≤ s.stack.length + 1) := by
  unfold Graph.turn at hturn
  split at hturn
  · next hrest =>
    split at hturn
    · cases hturn
    · next top stack hstack =>
      obtain rfl := Option.some.inj hturn
      exact ⟨done, hs.pop hrest hstack, .inl ⟨rfl, by simp [hstack]⟩⟩
  · next child rest hrest =>
    obtain ⟨-, -, -, hvisited⟩ := hs.head h hrest
    dsimp only at hturn
    split at hturn
    · next hfind =>
      obtain rfl := Option.some.inj hturn
      refine ⟨_, hs.skip h hrest ?_ (by simp [hfind]), .inr ⟨by simp, by simp⟩⟩
      have hroot : g.key child ≠ root := by
        rintro heq
        obtain ⟨children, hchildren⟩ := h.find_root
        rw [heq, hchildren] at hfind
        cases hfind
      rw [Graph.after, if_neg hroot]
    · next children hfind =>
      split_ifs at hturn with hmem
      · obtain rfl := Option.some.inj hturn
        refine ⟨_, hs.skip h hrest ?_ fun _ => hmem, .inr ⟨by simp, by simp⟩⟩
        rw [Graph.after, if_pos (hvisited hmem)]
      · obtain rfl := Option.some.inj hturn
        exact ⟨_, hs.descend h hrest hfind hmem, .inr ⟨by simp, by simp⟩⟩

/-- At the end all nodes have been visited. -/
theorem Inv.perm (h : Hangs g parent root nodes) (hs : Inv g parent root nodes acc done s) (hturn : g.turn s = none) :
    done.Perm nodes := by
  have hpending : s.pending = [] := by
    unfold Graph.turn at hturn
    split at hturn
    · next hrest =>
      split at hturn
      · next hstack => simp [State.pending, hrest, hstack]
      · cases hturn
    · dsimp only at hturn
      split at hturn
      · cases hturn
      · split_ifs at hturn
  have hmem := hs.mem_iff
  have hnodup := hs.nodup
  rw [hpending, List.append_nil] at hmem hnodup
  refine (List.perm_ext_iff_of_nodup hnodup (List.Nodup.of_map _ h.nodup)).2 fun e => ⟨fun he => ((hmem e).1 he).1, ?_⟩
  obtain ⟨rank, hrank⟩ := h.rank
  -- by the rank, parents first
  induction hn : rank e using Nat.strongRecOn generalizing e with
  | ind n ih =>
    intro he
    refine (hmem e).2 ⟨he, ?_⟩
    rcases hrank e he with hroot | ⟨a, ha, hkey, hlt⟩
    · rw [hroot]
      exact hs.root_mem
    · rw [← hkey]
      exact hs.entered a (ih _ (hn ▸ hlt) a rfl ha) (hkey ▸ h.find_isSome e he)

theorem Inv.length_le (hs : Inv g parent root nodes acc done s) : done.length ≤ nodes.length := by
  have hnodup : done.Nodup := (List.nodup_append.1 hs.nodup).1
  exact (List.subperm_of_subset hnodup fun e he => ((hs.mem_iff e).1 (List.mem_append_left _ he)).1).length_le

theorem Inv.run (h : Hangs g parent root nodes) (hs : Inv g parent root nodes acc done s) {fuel : Nat}
    (hfuel : 2 * (nodes.length - done.length) + s.stack.length < fuel) :
    ∃ order, g.run fuel s = some (order.foldl (g.after root) acc) ∧ order.Perm nodes ∧
      ParentsFirst g.key parent root order := by
  induction fuel generalizing s done with
  | zero => exact absurd hfuel (Nat.not_lt_zero _)
  | succ fuel ih =>
    unfold Graph.run
    cases hturn : g.turn s with
    | none => exact ⟨done, congrArg some hs.acc_eq, hs.perm h hturn, hs.parentsFirst⟩
    | some s' =>
      obtain ⟨done', hs', hless⟩ := hs.turn h hturn
      have hle := hs'.length_le
      refine ih hs' ?_
      rcases hless with ⟨rfl, hstack⟩ | ⟨hdone, hstack⟩ <;> omega

end
end StackTraversal
