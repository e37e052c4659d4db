import A17.Lib.Separation
import A17.Dispatch.Runs

/-!
# Senders do not disturb each other

Whatever the bytes, a datagram acts on the entries under its own guid token only, and in a way that
depends on these entries only. So the topics after a sequence of datagrams are determined, up to the
receive timestamps, by the order of each sender's own datagrams.
-/

open Std

namespace A17.Dispatch

def DirectoryTopic.untimed (t : DirectoryTopic) : DirectoryTopic := { t with timestamp := 0 }

abbrev Slice := Str → Option DirectoryTopic

namespace FlatMap

def slice (g : Str) (M : FlatMap) : Slice := fun n => (M n g).map DirectoryTopic.untimed

end FlatMap

namespace StoreOp

/-- The guid whose entries an operation can change. -/
def guid? : StoreOp → Option Str
  | .add t => some t.guid
  | .remove g _ => some g
  | .evict g => some g
  | _ => none

/-- What an operation does to the entries of its guid. -/
def onSlice (v : Slice) : StoreOp → Slice
  | .add t => fun n => if t.name = n ∧ ((v t.name).all fun old => old.address ≠ t.address) then some t.untimed else v n
  | .remove _ n₀ => fun n => if n₀ = n then none else v n
  | .evict _ => fun _ => none
  | _ => v

end StoreOp

namespace FlatMap
variable (M : FlatMap)

theorem all_untimed (o : Option DirectoryTopic) (address : Str) :
    ((o.map DirectoryTopic.untimed).all fun old => old.address ≠ address) = o.all fun old => old.address ≠ address := by
  cases o <;> rfl

theorem slice_stepPlain_own {op : StoreOp} {g : Str} (h : op.guid? = some g) :
    (M.stepPlain op).slice g = op.onSlice (M.slice g) := by
  funext n
  cases op with
  | observe | unobserve => cases h
  | add t =>
    obtain rfl : t.guid = g := Option.some.inj h
    simp only [stepPlain, slice, FlatMap.add, StoreOp.onSlice, all_untimed, and_true]
    split <;> rfl
  | remove g₀ n₀ =>
    obtain rfl : g₀ = g := Option.some.inj h
    simp only [stepPlain, slice, FlatMap.remove, StoreOp.onSlice, and_true]
    split <;> rfl
  | evict g₀ =>
    obtain rfl : g₀ = g := Option.some.inj h
    simp [stepPlain, slice, FlatMap.evict, StoreOp.onSlice]

theorem stepPlain_other {op : StoreOp} {g : Str} (h : op.guid? ≠ some g) (n : Str) :
    M.stepPlain op n g = M n g := by
  cases op with
  | observe | unobserve => rfl
  | add t =>
    have : t.guid ≠ g := fun h0 => h (by rw [← h0]; rfl)
    simp [stepPlain, FlatMap.add, this]
  | remove g₀ n₀ =>
    have : g₀ ≠ g := fun h0 => h (by rw [← h0]; rfl)
    simp [stepPlain, FlatMap.remove, this]
  | evict g₀ =>
    have : g₀ ≠ g := fun h0 => h (by rw [← h0]; rfl)
    simp [stepPlain, FlatMap.evict, this]

theorem step_of_ne {myGuid : Str} {op : StoreOp} (h : op.guid? ≠ some myGuid) : M.step myGuid op = M.stepPlain op := by
  cases op with
  | add t =>
    have : t.guid ≠ myGuid := fun h0 => h (by rw [← h0]; rfl)
    simp [step, stepPlain, this]
  | _ => rfl

theorem step_other {myGuid : Str} {op : StoreOp} {g : Str} (h : op.guid? ≠ some g) (n : Str) :
    M.step myGuid op n g = M n g := by
  cases op with
  | add t =>
    rw [step]
    split
    · rfl
    · exact M.stepPlain_other h n
  | _ => exact M.stepPlain_other h n

end FlatMap

namespace DirectoryTopicStore
variable {s : DirectoryTopicStore}

theorem step_localTopics_of_ne {op : StoreOp} (h : op.guid? ≠ some s.myGuid) :
    (s.step op).1.localTopics = s.localTopics := by
  cases op with
  | observe | unobserve => rfl
  | add t =>
    have : t.guid ≠ s.myGuid := fun h0 => h (by rw [← h0]; rfl)
    simp [step, s.add_of_other this]
  | remove g n =>
    have : g ≠ s.myGuid := fun h0 => h (by rw [← h0]; rfl)
    simp [step, s.remove_of_other n this]
  | evict g => exact s.evict_localTopics g

theorem run_observers {ops : List StoreOp} (h : ∀ op ∈ ops, op.guid?.isSome) :
    (s.run ops).observers = s.observers := by
  induction ops using List.reverseRecOn with
  | nil => rfl
  | append_singleton ops op ih =>
    rw [run_concat, ← ih fun op' h' => h op' (by simp [h'])]
    have hop := h op (by simp)
    cases op with
    | observe | unobserve => cases hop
    | add t => exact add_observers _ t
    | remove g n => exact remove_observers _ g n
    | evict g => exact evict_observers _ g

theorem Inv.run_entry_other (hs : s.Inv) {ops : List StoreOp} (hev : StoreOp.evict s.myGuid ∉ ops) {g : Str}
    (h : ∀ op ∈ ops, op.guid? ≠ some g) (n : Str) : (s.run ops).entry n g = s.entry n g := by
  induction ops using List.reverseRecOn with
  | nil => rfl
  | append_singleton ops op ih =>
    simp only [List.mem_append, List.mem_singleton, not_or] at hev
    rw [run_concat, entry_step (hs.run_of hev.1), FlatMap.step_other _ (h op (by simp)),
      ih hev.1 fun op' h' => h op' (by simp [h'])]

theorem Inv.run_others (hs : s.Inv) {ops : List StoreOp} (h : ∀ op ∈ ops, op.guid? ≠ some s.myGuid) :
    (s.run ops).entry = ops.foldl FlatMap.stepPlain s.entry ∧ (s.run ops).localTopics = s.localTopics := by
  induction ops using List.reverseRecOn with
  | nil => exact ⟨rfl, rfl⟩
  | append_singleton ops op ih =>
    obtain ⟨hentry, hlocal⟩ := ih fun op' h' => h op' (by simp [h'])
    have hop : op.guid? ≠ some (s.run ops).myGuid := by rw [run_myGuid]; exact h op (by simp)
    have hinv : (s.run ops).Inv := by
      refine hs.run_of fun hev => ?_
      exact h _ (List.mem_append_left _ hev) rfl
    rw [run_concat, List.foldl_append, entry_step hinv, FlatMap.step_of_ne _ hop, hentry,
      step_localTopics_of_ne hop, hlocal]
    exact ⟨rfl, rfl⟩

end DirectoryTopicStore

namespace Directory

theorem eventOps_guid {own : OwnAddress} {now : Int} {e : Event} {op : StoreOp} (h : op ∈ eventOps own now e) :
    op.guid? = e.guid? := by
  cases mem_eventOps h with
  | available | exit | remove => rfl

theorem eventOps_onSlice (own : OwnAddress) (now : Int) (e : Event) (v : Slice) :
    (eventOps own now e).foldl StoreOp.onSlice v = (eventOps own 0 e).foldl StoreOp.onSlice v := by
  cases e with
  | available =>
    simp only [eventOps]
    split
    · split <;> rfl
    · rfl
  | _ => rfl

variable {d : Directory}

theorem handle_entry (hd : d.Inv) (now : Int) (bytes : Str) :
    (d.handle now (.decode d.myGuid bytes)).topics.entry =
        (eventOps d.ownAddress now (.decode d.myGuid bytes)).foldl FlatMap.stepPlain d.topics.entry ∧
      (d.handle now (.decode d.myGuid bytes)).topics.localTopics = d.topics.localTopics := by
  rw [(d.handle_acts now _).topics]
  refine hd.topics.run_others fun op hop h0 => ?_
  rw [eventOps_guid hop] at h0
  exact (Event.guid_decode h0).2 hd.guid

theorem eventOps_sender {own : OwnAddress} {now : Int} {myGuid bytes : Str} {op : StoreOp}
    (h : op ∈ eventOps own now (.decode myGuid bytes)) : op.guid? = some (Event.sender bytes) := by
  have hg := eventOps_guid h
  cases he : (Event.decode myGuid bytes).guid? with
  | none =>
    generalize Event.decode myGuid bytes = e at h he
    cases e with
    | ignored => cases h
    | _ => cases he
  | some g => rw [hg, he, (Event.guid_decode he).1]

theorem handle_observers (d : Directory) (now : Int) (bytes : Str) :
    (d.handle now (.decode d.myGuid bytes)).topics.observers = d.topics.observers := by
  rw [(d.handle_acts now _).topics]
  exact DirectoryTopicStore.run_observers fun op hop => by rw [eventOps_sender hop]; rfl

theorem foldl_stepPlain_other {ops : List StoreOp} {g : Str} (h : ∀ op ∈ ops, op.guid? ≠ some g) (M : FlatMap)
    (n : Str) : ops.foldl FlatMap.stepPlain M n g = M n g := by
  induction ops generalizing M with
  | nil => rfl
  | cons op ops ih =>
    rw [List.foldl_cons, ih (fun op' h' => h op' (by simp [h'])), M.stepPlain_other (h op (by simp))]

theorem foldl_stepPlain_own {ops : List StoreOp} {g : Str} (h : ∀ op ∈ ops, op.guid? = some g) (M : FlatMap) :
    (ops.foldl FlatMap.stepPlain M).slice g = ops.foldl StoreOp.onSlice (M.slice g) := by
  induction ops generalizing M with
  | nil => rfl
  | cons op ops ih =>
    rw [List.foldl_cons, ih (fun op' h' => h op' (by simp [h'])), M.slice_stepPlain_own (h op (by simp))]
    rfl

theorem handle_entry_other (hd : d.Inv) (now : Int) {bytes g : Str} (hg : g ≠ Event.sender bytes) (n : Str) :
    (d.handle now (.decode d.myGuid bytes)).topics.entry n g = d.topics.entry n g := by
  rw [(handle_entry hd now bytes).1]
  refine foldl_stepPlain_other (fun op hop h0 => hg ?_) _ n
  rw [eventOps_sender hop] at h0
  exact (Option.some.inj h0).symm

theorem decode_own {myGuid bytes : Str} (h : Event.sender bytes = myGuid) : Event.decode myGuid bytes = .ignored := by
  cases he : (Event.decode myGuid bytes).guid? with
  | none =>
    generalize Event.decode myGuid bytes = e at he
    cases e with
    | ignored => rfl
    | _ => cases he
  | some g =>
    obtain ⟨rfl, hne⟩ := Event.guid_decode he
    exact absurd h hne

/-! ### Sequences of datagrams -/

def receiveAll (d : Directory) (datagrams : List (Int × Str)) : Directory :=
  datagrams.foldl (fun d x => d.receive x.1 x.2) d

structure At (myGuid : Str) (own : OwnAddress) (d : Directory) : Prop where
  inv : d.Inv
  guid : d.myGuid = myGuid
  own : d.ownAddress = own

/-- Receiving separates by the guid token: what the datagrams of a sender do to its entries does not
depend on anybody else's, nor on when they arrive. -/
theorem separated_receive (myGuid : Str) (own : OwnAddress) :
    Separated (At myGuid own) (fun d (x : Int × Str) => d.receive x.1 x.2) (fun x => x.2.take EVENT_BUFFER_SIZE)
      Event.sender (fun g d => FlatMap.slice g d.topics.entry)
      (fun v bytes => (eventOps own 0 (.decode myGuid bytes)).foldl StoreOp.onSlice v) where
  keep d x h := ⟨h.inv.step (.receive x.1 x.2), (d.step_myGuid (.receive x.1 x.2)).trans h.guid,
    (d.step_ownAddress (.receive x.1 x.2)).trans h.own⟩
  own d x h := by
    obtain ⟨hd, rfl, rfl⟩ := h
    rw [receive_eq, (handle_entry hd _ _).1, foldl_stepPlain_own fun op hop => eventOps_sender hop,
      eventOps_onSlice]
  other d x g h hg := by
    obtain ⟨hd, rfl, rfl⟩ := h
    funext n
    rw [receive_eq, FlatMap.slice, handle_entry_other hd _ hg, FlatMap.slice]

theorem At.receiveAll {myGuid : Str} {own : OwnAddress} (h : At myGuid own d) (datagrams : List (Int × Str)) :
    At myGuid own (d.receiveAll datagrams) := by
  induction datagrams generalizing d with
  | nil => exact h
  | cons x l ih => exact ih ((separated_receive myGuid own).keep d x h)

def untimedTopics (d : Directory) : NestedMap Str Str DirectoryTopic :=
  d.topics.networkTopics.mapValues DirectoryTopic.untimed

theorem untimedTopics_ext {d' : Directory} (h : d.Inv) (h' : d'.Inv)
    (he : ∀ g, FlatMap.slice g d.topics.entry = FlatMap.slice g d'.topics.entry) :
    d.untimedTopics = d'.untimedTopics := by
  refine NestedMap.ext_entry (h.topics.noEmpty.mapValues _) (h'.topics.noEmpty.mapValues _) fun n g => ?_
  rw [untimedTopics, untimedTopics, NestedMap.entry_mapValues, NestedMap.entry_mapValues]
  exact congrFun (he g) n

/-- In every state, every datagram touches its sender's entries only; and the order in which the
datagrams of different senders arrive does not matter. -/
theorem datagrams_isolated (myGuid : Str) (own : OwnAddress) (ops : List DirectoryOp) :
    let d := (new myGuid own).run ops
    (∀ now bytes, bytes.length ≤ EVENT_BUFFER_SIZE → ∃ d', d.event now bytes = .ok d' ∧
      d'.topics.localTopics = d.topics.localTopics ∧
      (∀ n g, g ≠ Event.sender bytes → d'.topics.entry n g = d.topics.entry n g) ∧
      (Event.sender bytes = myGuid → d' = d)) ∧
    (∀ ds₁ ds₂ : List (Int × Str), (∀ x ∈ ds₁ ++ ds₂, x.2.length ≤ EVENT_BUFFER_SIZE) →
      (∀ g, ((ds₁.map Prod.snd).filter fun bytes => Event.sender bytes = g) =
        (ds₂.map Prod.snd).filter fun bytes => Event.sender bytes = g) →
      (d.receiveAll ds₁).untimedTopics = (d.receiveAll ds₂).untimedTopics) := by
  intro d
  have hd : d.Inv := Inv.run myGuid own ops
  have hguid : d.myGuid = myGuid := run_myGuid ..
  refine ⟨fun now bytes hl => ⟨_, d.event_eq now hl, (handle_entry hd now bytes).2,
    fun n g hg => handle_entry_other hd now hg n, fun h => ?_⟩, fun ds₁ ds₂ hl hs => ?_⟩
  · rw [decode_own (h.trans hguid.symm)]; rfl
  · have htake : ∀ ds : List (Int × Str), (∀ x ∈ ds, x.2.length ≤ EVENT_BUFFER_SIZE) →
        ds.map (fun x => x.2.take EVENT_BUFFER_SIZE) = ds.map Prod.snd := fun ds h =>
      List.map_congr_left fun x hx => List.take_of_length_le (h x hx)
    have hat : At myGuid d.ownAddress d := ⟨hd, hguid, rfl⟩
    refine untimedTopics_ext (hat.receiveAll ds₁).inv (hat.receiveAll ds₂).inv fun g => ?_
    refine (separated_receive myGuid d.ownAddress).view_eq hat (fun g => ?_) g
    rw [htake ds₁ fun x hx => hl x (by simp [hx]), htake ds₂ fun x hx => hl x (by simp [hx])]
    exact hs g

theorem datagrams_isolated_two_senders :
    let d := new "n0".toList ⟨0x0a000000#32, 0xff000000#32⟩
    let a := "DISPATCH n1 A t PUB tcp://10.0.0.1:4000 . .".toList
    let b := "DISPATCH n2 A t SUB tcp://10.0.0.2:4000 . .".toList
    (∃ d', d.event 1 a = .ok d' ∧ ∀ n g, g ≠ "n1".toList → d'.topics.entry n g = d.topics.entry n g) ∧
      (d.receiveAll [(1, a), (2, b)]).untimedTopics = (d.receiveAll [(5, b), (6, a)]).untimedTopics := by
  intro d a b
  have h := datagrams_isolated "n0".toList ⟨0x0a000000#32, 0xff000000#32⟩ []
  obtain ⟨d', he, -, hn, -⟩ := h.1 1 a (by decide)
  refine ⟨⟨d', he, hn⟩, h.2 _ _ (by decide) fun g => ?_⟩
  have hab : Event.sender a ≠ Event.sender b := by decide
  by_cases h1 : Event.sender a = g <;> by_cases h2 : Event.sender b = g
  · exact absurd (h1.trans h2.symm) hab
  all_goals simp [h1, h2]

end Directory
end A17.Dispatch
