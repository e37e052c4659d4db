import A17.Dispatch.Runs

/-!
# When missing topics are searched for

A missing topic should have a query scheduled (`Sought`). Whatever can take away a provider or add an
observer restarts the query timer, except `Directory::remove`: an own topic that is observed, has no
other provider and is removed while the timer is idle stays missing with no query under way
(`Abandons`). `missing_sought_iff` says that this is the only way.
-/

open Std

namespace A17.Dispatch

theorem DirectoryTopicStore.mem_getMissing (s : DirectoryTopicStore) (n : Str) :
    n ∈ s.getMissing ↔ (∃ e ∈ s.observers, e.1 = n) ∧ n ∉ s.networkTopics := by
  -- the loop only adds to the set it starts with
  have h : ∀ (l : List (Str × DirectoryObserver)) (acc : ExtTreeSet Str),
      n ∈ l.foldl (fun topics e => if s.networkTopics.contains e.1 then topics else topics.insert e.1) acc ↔
        n ∈ acc ∨ (∃ e ∈ l, e.1 = n) ∧ n ∉ s.networkTopics := by
    intro l
    induction l with
    | nil => simp
    | cons e l ih =>
      intro acc
      rw [List.foldl_cons, ih, List.exists_mem_cons_iff, or_and_right, ← or_assoc]
      refine or_congr_left ?_
      split
      · next hc =>
        have hin : e.1 ∈ s.networkTopics := hc
        refine ⟨.inl, fun h => h.elim id fun ⟨he, hn⟩ => absurd (he ▸ hin) hn⟩
      · next hc =>
        have hout : e.1 ∉ s.networkTopics := hc
        rw [ExtTreeSet.mem_insert, Std.LawfulEqCmp.compare_eq_iff_eq, or_comm]
        refine or_congr_right ⟨?_, And.left⟩
        rintro rfl
        exact ⟨rfl, hout⟩
  rw [getMissing, h]
  simp

namespace Directory

def Searching (d : Directory) : Prop := d.queryTimerActive = true ∧ d.queryTimer.Scheduled

def Sought (d : Directory) : Prop := d.topics.getMissing ≠ ∅ → d.Searching

/-- Removing the own topic `n` leaves an observed topic without a provider and without a query. -/
structure Abandons (d : Directory) (n : Str) : Prop where
  idle : ¬ d.Searching
  observed : ∃ e ∈ d.topics.observers, e.1 = n
  provider : ∀ g, (d.topics.entry n g).isSome ↔ g = d.myGuid

variable {d d' : Directory}

theorem searching_startQueryTimer (d : Directory) : d.startQueryTimer.Searching :=
  ⟨rfl, DeadlineTimer.scheduled_asyncWait _⟩

theorem Searching.sought (h : d.Searching) : d.Sought := fun _ => h

theorem Searching.congr (h : d.Searching) (hactive : d'.queryTimerActive = d.queryTimerActive)
    (htimer : d'.queryTimer = d.queryTimer) : d'.Searching := by
  rw [Searching, hactive, htimer]; exact h

theorem getMissing_ne_empty_iff : d.topics.getMissing ≠ ∅ ↔ ∃ n, n ∈ d.topics.getMissing := by
  constructor
  · intro h
    by_contra h0
    exact h (ExtTreeSet.ext_mem fun n => by simpa using fun hn => h0 ⟨n, hn⟩)
  · rintro ⟨n, hn⟩ h0
    rw [h0] at hn
    simp at hn

theorem Sought.mono (h : d.Sought) (hactive : d'.queryTimerActive = d.queryTimerActive)
    (htimer : d'.queryTimer = d.queryTimer)
    (hm : ∀ n ∈ d'.topics.getMissing, n ∈ d.topics.getMissing) : d'.Sought := by
  intro hne
  obtain ⟨n, hn⟩ := getMissing_ne_empty_iff.1 hne
  exact (h (getMissing_ne_empty_iff.2 ⟨n, hm n hn⟩)).congr hactive htimer

theorem Inv.mem_getMissing (h : d.Inv) (n : Str) :
    n ∈ d.topics.getMissing ↔ (∃ e ∈ d.topics.observers, e.1 = n) ∧ ∀ g, d.topics.entry n g = none := by
  rw [DirectoryTopicStore.mem_getMissing, h.topics.noEmpty.mem_iff]
  simp only [not_exists, Option.eq_none_iff_forall_not_mem, Option.mem_def]
  rfl

/-! ### One step -/

theorem add_sought (hd : d.Inv) (h : d.Sought) (now : Int) (name : Str) (socketType : SocketType) (address : Str)
    (ins outs : TypeSet) (guid : Str) : (d.add now name socketType address ins outs guid).2.Sought := by
  have hd' : (d.add now name socketType address ins outs guid).2.Inv :=
    hd.step (.add now name socketType address ins outs guid)
  obtain ⟨sent, hs⟩ := d.add_snd now name socketType address ins outs guid
  refine h.mono (by rw [hs]; rfl) (by rw [hs]; rfl) fun n hn => ?_
  rw [hd'.mem_getMissing] at hn
  rw [hd.mem_getMissing]
  rw [hs] at hn
  simp only [stored] at hn
  refine ⟨by simpa using hn.1, fun g => ?_⟩
  have hg := hn.2 g
  rw [DirectoryTopicStore.entry_add] at hg
  split at hg
  · cases hg
  · exact hg

theorem remove_stored (d : Directory) (n : Str) :
    (d.remove n).queryTimerActive = d.queryTimerActive ∧ (d.remove n).queryTimer = d.queryTimer ∧
      (d.remove n).topics = (d.topics.remove d.myGuid n).2.1 := by
  obtain ⟨sent, hs⟩ := d.remove_onlySent n
  rw [hs]
  exact ⟨rfl, rfl, rfl⟩

theorem mem_getMissing_remove (hd : d.Inv) (n m : Str) : m ∈ (d.remove n).topics.getMissing ↔
    (∃ e ∈ d.topics.observers, e.1 = m) ∧ ∀ g, ¬ (n = m ∧ d.myGuid = g) → d.topics.entry m g = none := by
  have hd' : (d.remove n).Inv := hd.step (.remove n)
  rw [hd'.mem_getMissing, (remove_stored d n).2.2]
  simp only [DirectoryTopicStore.entry_remove, DirectoryTopicStore.remove_observers]
  refine and_congr_right fun _ => forall_congr' fun g => ?_
  split <;> simp_all

theorem remove_sought (hd : d.Inv) (h : d.Sought) {n : Str} (hn : ¬ d.Abandons n) : (d.remove n).Sought := by
  obtain ⟨hactive, htimer, -⟩ := remove_stored d n
  by_cases hs : d.Searching
  · exact (hs.congr hactive htimer).sought
  refine h.mono hactive htimer fun m hm => ?_
  rw [mem_getMissing_remove hd] at hm
  refine (hd.mem_getMissing m).2 ⟨hm.1, fun g => ?_⟩
  by_cases hg : n = m ∧ d.myGuid = g
  · -- the own entry: were it there, it would be the only one
    obtain ⟨rfl, rfl⟩ := hg
    by_contra hsome
    refine hn ⟨hs, hm.1, fun g => ⟨fun hg => ?_, ?_⟩⟩
    · by_contra hne
      rw [hm.2 g (fun h => hne h.2.symm)] at hg
      cases hg
    · rintro rfl
      exact Option.isSome_iff_ne_none.2 hsome
  · exact hm.2 g hg

theorem Abandons.not_sought (hd : d.Inv) {n : Str} (h : d.Abandons n) : ¬ (d.remove n).Sought := by
  intro hs
  obtain ⟨hactive, htimer, -⟩ := remove_stored d n
  have hmiss : n ∈ (d.remove n).topics.getMissing := by
    rw [mem_getMissing_remove hd]
    refine ⟨h.observed, fun g hg => ?_⟩
    by_contra hsome
    exact hg ⟨rfl, ((h.provider g).1 (Option.isSome_iff_ne_none.2 hsome)).symm⟩
  exact h.idle ((hs (getMissing_ne_empty_iff.2 ⟨n, hmiss⟩)).congr hactive.symm htimer.symm)

theorem complete_sought (h : d.Sought) (success : Bool) : (d.complete success).Sought := by
  rw [complete]
  split
  swap
  · exact h
  cases success with
  | false =>
    rw [queryMissingTopics, if_pos (by simp)]
    -- an aborted wait's completion is no query
    intro hne
    obtain ⟨hactive, hsched⟩ := h hne
    refine ⟨hactive, ?_⟩
    rcases hsched with hwait | ⟨a, ha⟩
    · exact .inl hwait
    · exact .inr ⟨a, (List.mem_erase_of_ne (by simp)).2 ha⟩
  | true =>
    rw [queryMissingTopics, if_neg (by simp)]
    dsimp only
    split
    · next he =>
      intro hne
      exact absurd (by simpa using he) hne
    · next he =>
      set d₀ : Directory := { d with
        queryTimer := { d.queryTimer with completions := d.queryTimer.completions.erase ((), true) } }
      obtain ⟨timer, interval, hb, hsched⟩ := backOff_eq d₀
      obtain ⟨sent, hs⟩ := onlySent_sendRequests d₀.backOff d.topics.getMissing.toList
      rw [hs, hb]
      have hne : d.topics.getMissing ≠ ∅ := by simpa using he
      exact Searching.sought ⟨(h hne).1, hsched⟩

/-- The one step that can break `Sought` is a `remove` that abandons its topic. -/
theorem step_sought (hd : d.Inv) (h : d.Sought) (op : DirectoryOp)
    (hop : ∀ n, op = .remove n → ¬ d.Abandons n) : (d.step op).Sought := by
  cases op with
  | observe | unobserve => exact (searching_startQueryTimer _).sought
  | add now name socketType address ins outs guid => exact add_sought hd h now name socketType address ins outs guid
  | remove n => exact remove_sought hd h (hop n rfl)
  | receive now bytes =>
    rw [step, receive_eq]
    generalize Event.decode d.myGuid (bytes.take EVENT_BUFFER_SIZE) = e
    cases e with
    | ignored => exact h
    | available guid name type address ins outs =>
      simp only [handle, available]
      split
      · split
        · exact h
        · exact add_sought hd h now name _ address _ _ guid
      · exact h
    | search guid names =>
      obtain ⟨sent, hs⟩ := d.onlySent_foldl_searchReply names
      rw [handle, hs]
      exact h
    | exit | remove => exact (searching_startQueryTimer _).sought
  | expire => exact fun hne => ⟨(h hne).1, (h hne).2.expire⟩
  | complete success => exact complete_sought h success
  | runPosted =>
    rw [step, runPosted]
    split
    · exact h
    · split <;> exact h

/-! ### Runs -/

/-- In a run missing topics are searched for in every state exactly if no `remove` abandons one. -/
theorem missing_sought_iff (myGuid : Str) (own : OwnAddress) (ops : List DirectoryOp) :
    (∀ pre, pre <+: ops → ((new myGuid own).run pre).Sought) ↔
      ∀ pre n, pre ++ [.remove n] <+: ops → ¬ ((new myGuid own).run pre).Abandons n := by
  constructor
  · intro h pre n hpre hab
    have := h _ hpre
    rw [run_concat] at this
    exact hab.not_sought (Inv.run ..) this
  · intro h pre hpre
    induction pre using List.reverseRecOn with
    | nil => exact fun hne => absurd rfl hne
    | append_singleton pre op ih =>
      rw [run_concat]
      refine step_sought (Inv.run ..) (ih ((List.prefix_append ..).trans hpre)) op ?_
      rintro n rfl
      exact h pre n hpre

/-- A topic that was found and is then removed by its own directory: nobody looks for it again. -/
theorem removed_topic_not_sought :
    ¬ ((new "n1".toList ⟨0x0a000000#32, 0xff000000#32⟩).run [
      .observe "t".toList 0 "r".toList,
      .add 1 "t".toList .pub "tcp://10.0.0.1:4000".toList ∅ ∅ "n1".toList,
      .expire, .complete true, .remove "t".toList]).Sought := by
  intro h
  have hactive := (h (by decide)).1
  exact absurd hactive (by decide)

end Directory
end A17.Dispatch
