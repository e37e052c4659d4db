import A17.Dispatch.StoreRefinement

/-!
# Observers are never stale

`step_calls` says for one call and one topic that the store notifies exactly when the topic's guid
map changes, with the new map, and exactly the observers of the topic followed by the wildcard
observers (those of the empty name). It needs no invariant. `observers_never_stale` lifts it to whole
runs: every live observer's last delivery is the current map.
-/

open Std

namespace A17.Dispatch
namespace DirectoryTopicStore
variable {s s' : DirectoryTopicStore}

theorem guidMap_ext {n n' : Str} (h : ∀ g, s.entry n g = s'.entry n' g) : s.guidMap n = s'.guidMap n' := by
  ext g : 1
  rw [guidMap_find, guidMap_find, h]

theorem callObservers_congr (h : s'.observers = s.observers) : s'.callObservers = s.callObservers := by
  funext n m
  simp [callObservers, equalRange, h]

theorem mem_equalRange {k : Str} {o : DirectoryObserver} : o ∈ s.equalRange k ↔ (k, o) ∈ s.observers := by
  simp [equalRange]

theorem mem_callObservers {n : Str} {m : GuidTopicMap} {c : Notification} :
    c ∈ s.callObservers n m ↔
      c.topicName = n ∧ c.guidTopicMap = m ∧ ((n, c.observer) ∈ s.observers ∨ ([], c.observer) ∈ s.observers) := by
  obtain ⟨o, n', m'⟩ := c
  simp only [callObservers, List.mem_map, List.mem_append, mem_equalRange, Notification.mk.injEq]
  constructor
  · rintro ⟨o', ho, rfl, rfl, rfl⟩
    exact ⟨rfl, rfl, ho⟩
  · rintro ⟨rfl, rfl, ho⟩
    exact ⟨o, ho, rfl, rfl, rfl⟩

theorem callObservers_filter (n n' : Str) (m : GuidTopicMap) :
    (s.callObservers n m).filter (fun c => c.topicName = n') = if n = n' then s.callObservers n m else [] := by
  split
  · next h =>
    refine List.filter_eq_self.2 fun c hc => ?_
    rw [mem_callObservers] at hc
    simp [hc.1, h]
  · next h =>
    refine List.filter_eq_nil_iff.2 fun c hc => ?_
    rw [mem_callObservers] at hc
    simp [hc.1, h]

/-! ### The calls of one operation -/

/-- The operation from `s` to `r.1` made the calls `r.2`, which for every topic `n` are the observers
of `n` and then the wildcard observers, with the new map, if the guid map of `n` changed, and none
otherwise. -/
def Notifies (s : DirectoryTopicStore) (r : DirectoryTopicStore × List Notification) : Prop :=
  ∀ n : Str, r.2.filter (fun c => c.topicName = n) =
    if r.1.guidMap n ≠ s.guidMap n then s.callObservers n (r.1.guidMap n) else []

theorem guidMap_addNetwork (h : s.Accepts t) :
    (s.addNetwork t).1.guidMap t.name = (s.guidMap t.name).insert t.guid t := by
  ext g : 1
  rw [guidMap_find, entry_addNetwork, ExtTreeMap.find_insert, guidMap_find]
  simp [h]

theorem addNetwork_notifies (t : DirectoryTopic) : s.Notifies (s.addNetwork t) := by
  intro n
  by_cases hA : s.Accepts t
  · have hcalls : (s.addNetwork t).2 = s.callObservers t.name ((s.guidMap t.name).insert t.guid t) := by
      rw [addNetwork_eq, if_pos hA]
    rw [hcalls, callObservers_filter]
    by_cases hn : t.name = n
    · subst hn
      have hne : (s.guidMap t.name).insert t.guid t ≠ s.guidMap t.name := by
        intro heq
        have ht : s.entry t.name t.guid = some t := by
          rw [← guidMap_find, ← heq, ExtTreeMap.getElem?_insert_self]
        exact hA t ht rfl
      simp [guidMap_addNetwork hA, hne]
    · have heq : (s.addNetwork t).1.guidMap n = s.guidMap n :=
        guidMap_ext fun g => by rw [entry_addNetwork]; simp [hn]
      simp [hn, heq]
  · rw [addNetwork_eq, if_neg hA]; simp

theorem guidMap_eraseGuid (g n : Str) : (s.eraseGuid g n).1.guidMap n = (s.guidMap n).erase g := by
  ext g' : 1
  rw [guidMap_find, entry_eraseGuid, ExtTreeMap.find_erase, guidMap_find]
  simp

theorem erase_ne_iff (g n : Str) : (s.guidMap n).erase g ≠ s.guidMap n ↔ (s.entry n g).isSome := by
  rw [← guidMap_find]
  constructor
  · intro h
    by_contra hn
    exact h (ExtTreeMap.erase_eq_self (by simpa using hn))
  · intro h heq
    rw [← heq, ExtTreeMap.getElem?_erase_self] at h
    cases h

theorem eraseGuid_notifies (g n₀ : Str) : s.Notifies (s.eraseGuid g n₀) := by
  intro n
  have hcalls : (s.eraseGuid g n₀).2 =
      if (s.entry n₀ g).isSome then s.callObservers n₀ ((s.guidMap n₀).erase g) else [] := by
    rw [eraseGuid_eq]
  rw [hcalls]
  by_cases hn : n₀ = n
  · subst hn
    rw [guidMap_eraseGuid]
    by_cases he : (s.entry n₀ g).isSome
    · rw [if_pos he, if_pos ((erase_ne_iff g n₀).2 he), callObservers_filter, if_pos rfl]
    · rw [if_neg he, if_neg fun h => he ((erase_ne_iff g n₀).1 h)]; rfl
  · have heq : (s.eraseGuid g n₀).1.guidMap n = s.guidMap n :=
      guidMap_ext fun g' => by rw [entry_eraseGuid]; simp [hn]
    rw [if_neg (not_not.2 heq)]
    split
    · rw [callObservers_filter, if_neg hn]
    · rfl

/-- What the pass of `evict` calls for an entry of the map it started with. -/
def evictCalls (s : DirectoryTopicStore) (g : Str) (e : Str × GuidTopicMap) : List Notification :=
  if e.2.contains g then s.callObservers e.1 (e.2.erase g) else []

theorem evict_foldl_calls (g : Str) (l : List (Str × GuidTopicMap)) (cs : List Notification)
    (hl : (l.map Prod.fst).Nodup) (hs : ∀ e ∈ l, s.networkTopics[e.1]? = some e.2) :
    (l.foldl (fun acc e =>
      let (s', calls) := DirectoryTopicStore.eraseGuid acc.1 g e.1
      (s', acc.2 ++ calls)) (s, cs)).2 = cs ++ l.flatMap (s.evictCalls g) := by
  induction l generalizing s cs with
  | nil => simp
  | cons e l ih =>
    rw [List.map_cons, List.nodup_cons] at hl
    have he := hs e (List.mem_cons_self ..)
    -- the rounds before `e'` leave its inner map alone: the keys are distinct
    have hs' : ∀ e' ∈ l, (s.eraseGuid g e.1).1.networkTopics[e'.1]? = some e'.2 := by
      intro e' he'
      have hne : e.1 ≠ e'.1 := fun heq => hl.1 (heq ▸ List.mem_map_of_mem he')
      rw [eraseGuid_eq]
      exact (NestedMap.find_drop_of_ne g hne).trans (hs e' (List.mem_cons_of_mem _ he'))
    have hcalls : (s.eraseGuid g e.1).2 = s.evictCalls g e := by
      rw [eraseGuid_eq]
      simp [evictCalls, entry, NestedMap.entry, guidMap, he]
    have hev : (s.eraseGuid g e.1).1.evictCalls g = s.evictCalls g := by
      funext e'
      simp only [evictCalls, callObservers_congr (s.eraseGuid_observers g e.1)]
    simp only [List.foldl_cons]
    rw [ih _ hl.2 hs', hcalls, hev, List.flatMap_cons, List.append_assoc]

theorem evict_calls_eq (g : Str) : (s.evict g).2 = s.networkTopics.toList.flatMap (s.evictCalls g) := by
  unfold evict
  rw [evict_foldl_calls]
  · rfl
  · rw [ExtTreeMap.map_fst_toList_eq_keys]; exact ExtTreeMap.nodup_keys
  · exact fun e he => ExtTreeMap.mem_toList_iff_getElem?_eq_some.1 he

theorem flatMap_evictCalls_filter (g n : Str) (l : List (Str × GuidTopicMap)) (hl : (l.map Prod.fst).Nodup) :
    (l.flatMap (s.evictCalls g)).filter (fun c => c.topicName = n) =
      match l.find? (fun e => e.1 = n) with
      | some e => s.evictCalls g e
      | none => [] := by
  have hone : ∀ e, (s.evictCalls g e).filter (fun c => c.topicName = n) =
      if e.1 = n then s.evictCalls g e else [] := by
    intro e
    unfold evictCalls
    split
    · rw [callObservers_filter]
    · simp
  induction l with
  | nil => rfl
  | cons e l ih =>
    rw [List.map_cons, List.nodup_cons] at hl
    rw [List.flatMap_cons, List.filter_append, hone, ih hl.2, List.find?_cons]
    by_cases he : e.1 = n
    · have hrest : l.find? (fun e' => decide (e'.1 = n)) = none :=
        List.find?_eq_none.2 fun e' he' h => hl.1 (by
          rw [he, ← of_decide_eq_true h]; exact List.mem_map_of_mem he')
      simp [he, hrest]
    · simp [he]

theorem evict_notifies (g : Str) : s.Notifies (s.evict g) := by
  intro n
  have hmap : (s.evict g).1.guidMap n = (s.guidMap n).erase g := by
    ext g' : 1
    rw [guidMap_find, entry_evict, ExtTreeMap.find_erase, guidMap_find]
  rw [evict_calls_eq, flatMap_evictCalls_filter, hmap]
  · cases hf : s.networkTopics.toList.find? (fun e => decide (e.1 = n)) with
    | none =>
      have hm : s.networkTopics[n]? = none := by
        refine Option.eq_none_iff_forall_ne_some.2 fun m hm => ?_
        have := List.find?_eq_none.1 hf (n, m) (ExtTreeMap.mem_toList_iff_getElem?_eq_some.2 hm)
        simp at this
      have : s.guidMap n = ∅ := by simp [guidMap, hm]
      simp [this]
    | some e =>
      obtain ⟨n', m⟩ := e
      have hn : n' = n := by simpa using List.find?_some hf
      subst hn
      have hm : s.networkTopics[n']? = some m :=
        ExtTreeMap.mem_toList_iff_getElem?_eq_some.1 (List.mem_of_find?_eq_some hf)
      have hg : s.guidMap n' = m := by simp [guidMap, hm]
      have hc : (s.guidMap n').erase g ≠ s.guidMap n' ↔ m.contains g = true := by
        rw [erase_ne_iff, ← guidMap_find, hg, ExtTreeMap.isSome_getElem?_eq_contains]
      rw [hg] at hc
      simp only [hc, evictCalls, hg]
  · rw [ExtTreeMap.map_fst_toList_eq_keys]; exact ExtTreeMap.nodup_keys

theorem step_notifies (s : DirectoryTopicStore) (op : StoreOp) : s.Notifies (s.step op) := by
  cases op with
  | observe | unobserve => intro n; simp [step, observe, unobserve, guidMap]
  | add t =>
    simp only [step]
    by_cases hg : t.guid = s.myGuid
    · by_cases hn : t.name ∈ s.localTopics
      · rw [s.add_of_duplicate hg hn]; intro n; simp
      · rw [s.add_of_own hg hn]; exact addNetwork_notifies t
    · rw [s.add_of_other hg]; exact addNetwork_notifies t
  | remove g n₀ =>
    simp only [step]
    by_cases hg : g = s.myGuid
    · rw [hg, remove_of_own]; exact eraseGuid_notifies s.myGuid n₀
    · rw [s.remove_of_other n₀ hg]; exact eraseGuid_notifies g n₀
  | evict g => exact evict_notifies g

/-! ### Whole runs -/

def deliveries (s : DirectoryTopicStore) : List StoreOp → List Notification
  | [] => []
  | op :: ops => (s.step op).2 ++ (s.step op).1.deliveries ops

theorem deliveries_concat (s : DirectoryTopicStore) (ops : List StoreOp) (op : StoreOp) :
    s.deliveries (ops ++ [op]) = s.deliveries ops ++ ((s.run ops).step op).2 := by
  induction ops generalizing s with
  | nil => simp [deliveries]
  | cons o ops ih =>
    rw [List.cons_append, deliveries, deliveries, ih, List.append_assoc]; rfl

def observerRefs (ops : List StoreOp) : List Str :=
  ops.filterMap fun
    | .observe _ _ ref => some ref
    | _ => none

theorem step_observers (s : DirectoryTopicStore) (op : StoreOp) :
    (∃ n h r, op = .observe n h r ∧ (s.step op).1.observers = s.observers ++ [(n, ⟨h, r⟩)]) ∨
      observerRefs [op] = [] ∧ (s.step op).1.observers.Sublist s.observers := by
  cases op with
  | observe n h r => exact .inl ⟨n, h, r, rfl, rfl⟩
  | unobserve n r => exact .inr ⟨rfl, List.filter_sublist⟩
  | add t =>
    refine .inr ⟨rfl, ?_⟩
    simp only [step, add]; split <;> [split; skip] <;> simp
  | remove g n =>
    refine .inr ⟨rfl, ?_⟩
    simp only [step, remove]; split <;> simp
  | evict g => exact .inr ⟨rfl, by simp [step]⟩

theorem run_refs_sublist (myGuid : Str) (ops : List StoreOp) :
    (((new myGuid).run ops).observers.map (·.2.ref)).Sublist (observerRefs ops) := by
  induction ops using List.reverseRecOn with
  | nil => exact List.Sublist.slnil
  | append_singleton ops op ih =>
    rw [run_concat, observerRefs, List.filterMap_append]
    rcases step_observers ((new myGuid).run ops) op with ⟨n, h, r, rfl, ho⟩ | ⟨hr, ho⟩
    · rw [ho, List.map_append]; exact ih.append (List.Sublist.refl _)
    · exact (ho.map _).trans (ih.trans (List.sublist_append_left ..))

theorem guidMap_nil_step (h : s.guidMap [] = ∅) {op : StoreOp} (hop : ∀ t, op = .add t → t.name ≠ []) :
    (s.step op).1.guidMap [] = ∅ := by
  have hnone : ∀ g, s.entry [] g = none := fun g => by rw [← guidMap_find, h]; simp
  ext g : 1
  rw [guidMap_find, ExtTreeMap.getElem?_empty]
  cases op with
  | observe | unobserve => exact hnone g
  | add t => simp only [step, entry_add, hop t rfl, false_and, if_false, hnone]
  | remove g₀ n₀ => simp only [step, entry_remove, hnone, ite_self]
  | evict g₀ => simp only [step, entry_evict, hnone, ite_self]

theorem guidMap_nil_run (myGuid : Str) {ops : List StoreOp} (hnames : ∀ t, StoreOp.add t ∈ ops → t.name ≠ []) :
    ((new myGuid).run ops).guidMap [] = ∅ := by
  induction ops using List.reverseRecOn with
  | nil => simp [guidMap, new]
  | append_singleton ops op ih =>
    rw [run_concat]
    exact guidMap_nil_step (ih fun t ht => hnames t (List.mem_append_left _ ht))
      fun t ht => hnames t (by simp [ht])

theorem callObservers_filter_observer (hrefs : (s.observers.map (·.2.ref)).Nodup) {k n : Str}
    {o : DirectoryObserver} (ho : (k, o) ∈ s.observers) (hk : k = n ∨ k = []) (hn : n ≠ []) (m : GuidTopicMap) :
    (s.callObservers n m).filter (fun c => c.observer = o) = [⟨o, n, m⟩] := by
  -- `o` occurs once among all observers, under the key `k`
  have hone : ∀ key, (s.equalRange key).filter (· = o) = if k = key then [o] else [] := by
    intro key
    simp only [equalRange]
    revert hrefs ho
    induction s.observers with
    | nil => intro _ ho; cases ho
    | cons e l ih =>
      intro hrefs ho
      rw [List.map_cons, List.nodup_cons] at hrefs
      rcases List.mem_cons.1 ho with rfl | ho
      · have hl : ((l.filter fun e => decide (e.1 = key)).map Prod.snd).filter (· = o) = [] := by
          refine List.filter_eq_nil_iff.2 fun o' ho' => ?_
          obtain ⟨e', he', rfl⟩ := List.mem_map.1 ho'
          have := List.mem_map_of_mem (f := (·.2.ref)) (List.mem_of_mem_filter he')
          simpa using fun heq : e'.2 = o => hrefs.1 (heq ▸ this)
        by_cases hkey : k = key <;> simp [hkey, hl]
      · have hne : e.2 ≠ o := fun heq => hrefs.1 (heq ▸ List.mem_map_of_mem (f := (·.2.ref)) ho)
        by_cases he : e.1 = key <;> simp [he, hne, ih hrefs.2 ho]
  have hkey : (if k = n then [o] else []) ++ (if k = [] then [o] else []) = [o] := by
    rcases hk with rfl | rfl
    · simp [hn]
    · simp [Ne.symm hn]
  simp only [callObservers, List.filter_map, Function.comp_def, List.filter_append, hone, hkey]
  rfl

theorem step_delivers {op : StoreOp} (hrefs : (s.observers.map (·.2.ref)).Nodup) (hnil : s.guidMap [] = ∅)
    (hop : ∀ t, op = .add t → t.name ≠ []) {k n : Str} {o : DirectoryObserver} (ho : (k, o) ∈ s.observers)
    (hk : k = n ∨ k = []) :
    (s.step op).2.filter (fun c => c.observer = o ∧ c.topicName = n) =
      if (s.step op).1.guidMap n ≠ s.guidMap n then [⟨o, n, (s.step op).1.guidMap n⟩] else [] := by
  have hsplit : (s.step op).2.filter (fun c => c.observer = o ∧ c.topicName = n) =
      ((s.step op).2.filter fun c => c.topicName = n).filter fun c => c.observer = o := by
    rw [List.filter_filter]; congr 1; funext c; simp
  rw [hsplit, s.step_notifies op n]
  split
  · next hch =>
    have hn : n ≠ [] := by
      rintro rfl
      exact hch ((guidMap_nil_step hnil hop).trans hnil.symm)
    exact callObservers_filter_observer hrefs ho hk hn _
  · rfl

theorem step_delivers_only {op : StoreOp} {c : Notification} (hc : c ∈ (s.step op).2) :
    (s.step op).1.guidMap c.topicName ≠ s.guidMap c.topicName ∧
      c.guidTopicMap = (s.step op).1.guidMap c.topicName ∧
      ((c.topicName, c.observer) ∈ s.observers ∨ ([], c.observer) ∈ s.observers) := by
  have hmem : c ∈ (s.step op).2.filter fun c' => c'.topicName = c.topicName := by simpa using hc
  rw [s.step_notifies op c.topicName] at hmem
  split at hmem
  · next hne =>
    obtain ⟨-, hmap, ho⟩ := mem_callObservers.1 hmem
    exact ⟨hne, hmap, ho⟩
  · cases hmem

theorem live_before {op : StoreOp} {k : Str} {o : DirectoryObserver} (h : (k, o) ∈ (s.step op).1.observers)
    (hnew : ∀ n h', op ≠ .observe n h' o.ref) : (k, o) ∈ s.observers := by
  rcases s.step_observers op with ⟨n, h', r, rfl, ho⟩ | ⟨-, ho⟩
  · rw [ho, List.mem_append, List.mem_singleton] at h
    rcases h with h | h
    · exact h
    · rw [Prod.mk.injEq] at h
      exact absurd (by rw [h.2]) (hnew n h')
  · exact ho.subset h

/-- The last of the delivered maps, or `start` if there is none, is `now`. -/
def Current (delivered : List Notification) (start now : GuidTopicMap) : Prop :=
  match delivered.getLast? with
  | some c => c.guidTopicMap = now
  | none => now = start

theorem last_delivery_current (myGuid : Str) {pre post : List StoreOp} {k ref : Str} {h : Nat}
    (hrefs : (observerRefs (pre ++ .observe k h ref :: post)).Nodup)
    (hnames : ∀ t, StoreOp.add t ∈ pre ++ .observe k h ref :: post → t.name ≠ [])
    (hlive : (k, ⟨h, ref⟩) ∈ ((new myGuid).run (pre ++ .observe k h ref :: post)).observers)
    {n : Str} (hk : k = n ∨ k = []) :
    Current ((((new myGuid).run (pre ++ [.observe k h ref])).deliveries post).filter
        (fun c => c.observer = ⟨h, ref⟩ ∧ c.topicName = n))
      (((new myGuid).run pre).guidMap n) (((new myGuid).run (pre ++ .observe k h ref :: post)).guidMap n) := by
  induction post using List.reverseRecOn with
  | nil => simp [Current, deliveries, step, observe, guidMap]
  | append_singleton post op ih =>
    have hass : pre ++ .observe k h ref :: (post ++ [op]) = (pre ++ .observe k h ref :: post) ++ [op] := by simp
    have hrun : ((new myGuid).run (pre ++ [.observe k h ref])).run post =
        (new myGuid).run (pre ++ .observe k h ref :: post) := by
      rw [← run_append, List.append_assoc]; rfl
    rw [hass, run_concat _ (pre ++ .observe k h ref :: post)] at hlive ⊢
    rw [hass] at hrefs hnames
    rw [deliveries_concat, hrun, List.filter_append]
    set s := (new myGuid).run (pre ++ .observe k h ref :: post)
    have hrefs' : (observerRefs (pre ++ .observe k h ref :: post)).Nodup := by
      rw [observerRefs, List.filterMap_append] at hrefs; exact hrefs.of_append_left
    have hnames' : ∀ t, StoreOp.add t ∈ pre ++ .observe k h ref :: post → t.name ≠ [] :=
      fun t ht => hnames t (List.mem_append_left _ ht)
    have hlive' : (k, ⟨h, ref⟩) ∈ s.observers := by
      refine live_before hlive fun n' h' heq => ?_
      -- `ref` would have been handed out twice
      rw [heq, observerRefs, List.filterMap_append] at hrefs
      have hmem : StoreOp.observe k h ref ∈ pre ++ .observe k h ref :: post := by simp
      exact (List.nodup_append.1 hrefs).2.2 ref (List.mem_filterMap.2 ⟨_, hmem, rfl⟩) ref (by simp) rfl
    have ih := ih hrefs' hnames' hlive'
    rw [step_delivers ((run_refs_sublist myGuid _).nodup hrefs') (guidMap_nil_run myGuid hnames')
      (fun t ht => hnames t (by simp [ht])) hlive' hk]
    by_cases hch : (s.step op).1.guidMap n = s.guidMap n
    · rw [if_neg (not_not.2 hch), List.append_nil, hch]
      exact ih
    · rw [if_pos hch, Current, List.getLast?_concat]

/-- Every call that changes the guid map of `n` delivers the new map once to each observer of `n` and
each wildcard observer, and nothing else is delivered; so the last map an observer got is current. -/
theorem observers_never_stale (myGuid : Str) (ops : List StoreOp) (hrefs : (observerRefs ops).Nodup)
    (hnames : ∀ t, StoreOp.add t ∈ ops → t.name ≠ []) :
    (∀ pre op post, ops = pre ++ op :: post →
      let s := (new myGuid).run pre
      let s' := (new myGuid).run (pre ++ [op])
      let calls := (s.step op).2
      (∀ n k o, (k, o) ∈ s.observers → k = n ∨ k = [] → s'.guidMap n ≠ s.guidMap n →
        calls.filter (fun c => c.observer = o ∧ c.topicName = n) = [⟨o, n, s'.guidMap n⟩]) ∧
      ∀ c ∈ calls, s'.guidMap c.topicName ≠ s.guidMap c.topicName ∧ c.guidTopicMap = s'.guidMap c.topicName ∧
        ((c.topicName, c.observer) ∈ s.observers ∨ ([], c.observer) ∈ s.observers)) ∧
    ∀ pre k h ref post, ops = pre ++ .observe k h ref :: post →
      let s := (new myGuid).run pre
      let s' := (new myGuid).run ops
      (k, ⟨h, ref⟩) ∈ s'.observers → ∀ n, k = n ∨ k = [] →
        Current ((((new myGuid).run (pre ++ [.observe k h ref])).deliveries post).filter
          (fun c => c.observer = ⟨h, ref⟩ ∧ c.topicName = n)) (s.guidMap n) (s'.guidMap n) := by
  refine ⟨fun pre op post heq => ?_, fun pre k h ref post heq => ?_⟩
  · intro s s' calls
    have hs' : s' = (s.step op).1 := run_concat ..
    have hnames' : ∀ t, StoreOp.add t ∈ pre → t.name ≠ [] := fun t ht => hnames t (by simp [heq, ht])
    refine ⟨fun n k o ho hk hch => ?_, fun c hc => by rw [hs']; exact step_delivers_only hc⟩
    have hnd : (s.observers.map (·.2.ref)).Nodup := by
      refine (run_refs_sublist myGuid pre).nodup ?_
      rw [heq, observerRefs, List.filterMap_append] at hrefs; exact hrefs.of_append_left
    rw [hs'] at hch ⊢
    rw [step_delivers hnd (guidMap_nil_run myGuid hnames') (fun t ht => hnames t (by simp [heq, ht])) ho hk,
      if_pos hch]
  · intro s s' hlive n hk
    subst heq
    exact last_delivery_current myGuid hrefs hnames hlive hk

theorem observers_never_stale_network_topic :
    let ops := [StoreOp.observe "TEST/1".toList 0 "a".toList, .observe [] 1 "b".toList,
      .add (ownTopic "addr://test1".toList)]
    (observerRefs ops).Nodup ∧ ((new "1001".toList).step ops[0]).2 = [] ∧
      ∀ c ∈ ((((new "1001".toList).run (ops.take 2))).step (.add (ownTopic "addr://test1".toList))).2,
        c.guidTopicMap = ((new "1001".toList).run ops).guidMap c.topicName := by
  intro ops
  have hnames : ∀ t, StoreOp.add t ∈ ops → t.name ≠ [] := by
    intro t ht
    simp only [ops, List.mem_cons, List.not_mem_nil, or_false, reduceCtorEq, false_or, StoreOp.add.injEq] at ht
    rw [ht]
    decide
  refine ⟨by decide, rfl, fun c hc => ?_⟩
  exact (((observers_never_stale "1001".toList ops (by decide) hnames).1 _ _ [] rfl).2 c hc).2.1

end DirectoryTopicStore
end A17.Dispatch
