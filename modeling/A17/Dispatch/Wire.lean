import A17.Dispatch.Directory

/-!
# What a datagram means

`decode` reads a datagram as the list of its space-separated tokens, and `handle` acts on the result.
`event_eq` says that the destructive tokenising of `handleEvent`, run on any buffer that holds a
datagram of at most `EVENT_BUFFER_SIZE` bytes, never leaves the buffer and comes to the same.
-/

open Std

namespace A17.Dispatch
open CString

inductive Event where
  | ignored
  | available (guid name type address ins outs : Str)
  | search (guid : Str) (names : List Str)
  | exit (guid : Str)
  | remove (guid name : Str)
deriving DecidableEq

namespace Event

/-- The fields of an announcement: five tokens, the first three not empty and the last not an empty
one at the end of the datagram. -/
def ofAvailable (guid : Str) : List Str → Event
  | name :: type :: address :: ins :: outs :: rest =>
    if name = [] ∨ type = [] ∨ address = [] ∨ (outs = [] ∧ rest = []) then ignored
    else available guid name type address ins outs
  | _ => ignored

/-- The tokens after the sender's guid. Only the first character of the command counts. -/
def ofCommand (guid : Str) : List Str → Event
  | (c :: _) :: args =>
    if c = DISCOVERY_AVAILABLE then ofAvailable guid args
    else if c = DISCOVERY_SEARCH then search guid (args.filter (· ≠ []))
    else if c = DISCOVERY_EXIT then exit guid
    else if c = DISCOVERY_REMOVE then remove guid (args.headD [])
    else ignored
  | _ => ignored

def sender (bytes : Str) : Str := ((bytes.drop DISPATCH.length).splitOn ' ').headD []

def command (bytes : Str) : List Str := ((bytes.drop DISPATCH.length).splitOn ' ').tail

def decode (myGuid bytes : Str) : Event :=
  if bytes.all isprint ∧ DISPATCH <+: bytes ∧ sender bytes ≠ cString myGuid then
    ofCommand (sender bytes) (command bytes)
  else ignored

theorem sender_cons_command (bytes : Str) :
    sender bytes :: command bytes = (bytes.drop DISPATCH.length).splitOn ' ' := by
  obtain ⟨t, ts, h⟩ := List.exists_cons_of_ne_nil (List.splitOn_ne_nil ' ' (bytes.drop DISPATCH.length))
  simp [sender, command, h]

end Event

namespace Directory

def handle (d : Directory) (now : Int) : Event → Directory
  | .ignored => d
  | .available guid name type address ins outs => d.available now guid name type address ins outs
  | .search _ names => names.foldl searchReply d
  | .exit guid => (d.stored (.evict guid) (d.topics.evict guid)).startQueryTimer
  | .remove guid name => (d.stored (.remove guid name) (d.topics.remove guid name).2).startQueryTimer

/-! ### The tokeniser -/

theorem ok_bind {ε α β : Type} (a : α) (f : α → Except ε β) : (Except.ok a >>= f) = f a := rfl

def inToken (c : Char) : Prop := c ≠ ' ' ∧ c ≠ NUL

theorem nextTokenLoop_append (pre : Str) {t : Str} (post : Str) (event stop fuel : Nat) {c : Char}
    (hpre : event + stop = pre.length) (ht : ∀ x ∈ t, inToken x) (hc : c = ' ' ∨ c = NUL)
    (hf : t.length ≤ fuel) :
    nextTokenLoop (pre ++ (t ++ c :: post)) event fuel stop = .ok (stop + t.length) := by
  induction t generalizing pre stop fuel with
  | nil =>
    cases fuel with
    | zero => rfl
    | succ fuel =>
      rw [nextTokenLoop, List.nil_append, read_append_of_eq hpre, ok_bind, if_neg fun h => hc.elim h.1 h.2]
      rfl
  | cons x t ih =>
    obtain ⟨fuel, rfl⟩ : ∃ k, fuel = k + 1 := ⟨fuel - 1, by simp at hf; omega⟩
    have hx : x ≠ ' ' ∧ x ≠ NUL := ht x (by simp)
    rw [nextTokenLoop, List.cons_append, read_append_of_eq hpre, ok_bind, if_pos hx]
    have := ih (pre ++ [x]) (stop + 1) fuel (by simp; omega) (fun y hy => ht y (by simp [hy]))
      (by simpa using hf)
    rw [List.append_assoc, List.singleton_append] at this
    rw [this, List.length_cons]
    congr 1; omega

theorem nextToken_last (pre : Str) {t : Str} (post : Str) {event start : Nat}
    (hpre : event + start = pre.length) (ht : ∀ x ∈ t, inToken x)
    (hl : pre.length + t.length ≤ EVENT_BUFFER_SIZE) :
    nextToken (pre ++ (t ++ NUL :: post)) event start = .ok (start + t.length, pre ++ (t ++ NUL :: post)) := by
  unfold nextToken
  split
  · -- the end of a datagram that fills the buffer
    have : t = [] := List.length_eq_zero_iff.1 (by omega)
    subst this; rfl
  · rw [nextTokenLoop_append pre post event start _ hpre ht (.inr rfl) (by omega), ok_bind]
    split
    · rfl
    · rw [← List.append_assoc, read_append_of_eq (by simp; omega), ok_bind, if_pos rfl]
      rfl

theorem nextToken_space (pre : Str) {t : Str} (post : Str) {event start : Nat}
    (hpre : event + start = pre.length) (ht : ∀ x ∈ t, inToken x)
    (hl : pre.length + t.length < EVENT_BUFFER_SIZE) :
    nextToken (pre ++ (t ++ ' ' :: post)) event start =
      .ok (start + t.length + 1, pre ++ (t ++ NUL :: post)) := by
  unfold nextToken
  rw [if_neg (by omega), nextTokenLoop_append pre post event start _ hpre ht (.inl rfl) (by omega), ok_bind,
    if_neg (by omega), ← List.append_assoc, read_append_of_eq (by simp; omega), ok_bind, if_neg (by decide)]
  have hi : event + (start + t.length) = (pre ++ t).length := by simp; omega
  rw [hi, write_append, ok_bind, List.append_assoc]
  rfl

/-! ### The buffer as a list of tokens

In front of the tokeniser stands `text ' ' toks`, behind it the tokens it has passed, each closed by a
NUL. -/

def Clean (toks : List Str) : Prop := ∀ t ∈ toks, ∀ x ∈ t, inToken x

/-- What `nextToken` leaves behind of `t` in front of the tokens `ts`. -/
def closed (t : Str) (ts : List Str) : Str := if ts = [] then t else t ++ [NUL]

theorem Clean.nul {toks : List Str} (h : Clean toks) {t : Str} (ht : t ∈ toks) : NUL ∉ t :=
  fun h0 => (h t ht NUL h0).2 rfl

theorem Clean.tail {t : Str} {ts : List Str} (h : Clean (t :: ts)) : Clean ts :=
  fun t' ht' => h t' (List.mem_cons_of_mem _ ht')

theorem cstr_of_append (p : Str) {t buf : Str} {i : Nat} (hb : p ++ (t ++ [NUL]) <+: buf) (hi : i = p.length)
    (ht : NUL ∉ t) : cstr buf i = .ok t := by
  obtain ⟨post, rfl⟩ := hb
  rw [hi, List.append_assoc, List.append_assoc, List.singleton_append, cstr_append p post ht]

theorem closed_append_text (t : Str) (ts : List Str) :
    ∃ post, closed t ts ++ text ' ' ts = t ++ NUL :: post := by
  cases ts with
  | nil => exact ⟨[], by simp [closed]⟩
  | cons t' ts => exact ⟨text ' ' (t' :: ts), by simp [closed]⟩

theorem nextToken_nil (pre : Str) {event start : Nat} (hpre : event + start = pre.length)
    (hl : pre.length ≤ EVENT_BUFFER_SIZE) :
    nextToken (pre ++ text ' ' []) event start = .ok (start, pre ++ text ' ' []) :=
  nextToken_last pre [] (t := []) hpre (by simp) (by simpa using hl)

theorem nextToken_cons (pre : Str) {t : Str} {ts : List Str} {event start : Nat}
    (hpre : event + start = pre.length) (hc : Clean (t :: ts))
    (hl : (pre ++ text ' ' (t :: ts)).length ≤ EVENT_BUFFER_SIZE + 1) :
    nextToken (pre ++ text ' ' (t :: ts)) event start =
      .ok (start + (closed t ts).length, (pre ++ closed t ts) ++ text ' ' ts) := by
  have ht : ∀ x ∈ t, inToken x := hc t (by simp)
  cases ts with
  | nil =>
    simp only [text_cons, tailText_nil, List.length_append, List.length_singleton] at hl
    rw [text_cons, tailText_nil, nextToken_last pre [] hpre ht (by omega)]
    simp [closed]
  | cons t' ts =>
    simp only [text_cons, tailText_cons, List.length_append, List.length_cons] at hl
    have hpos : 1 ≤ (tailText ' ' ts).length := by cases ts <;> simp
    rw [text_cons, tailText_cons, nextToken_space pre _ hpre ht (by omega)]
    simp [closed, Nat.add_assoc]

theorem length_closed (pre t : Str) (ts : List Str) :
    ((pre ++ closed t ts) ++ text ' ' ts).length = (pre ++ text ' ' (t :: ts)).length := by
  cases ts <;> simp [closed]

theorem closed_eq_nil (t : Str) (ts : List Str) : closed t ts = [] ↔ t = [] ∧ ts = [] := by
  unfold closed; split <;> simp_all

theorem read_closed (pre t : Str) (ts : List Str) {i : Nat} (hi : i = pre.length) :
    read ((pre ++ closed t ts) ++ text ' ' ts) i = .ok (t.headD NUL) := by
  obtain ⟨post, hpost⟩ := closed_append_text t ts
  rw [List.append_assoc, hpost]
  cases t with
  | nil => exact read_append_of_eq hi
  | cons x t => exact read_append_of_eq hi

theorem text_head {t : Str} {ts : List Str} (h : t ≠ [] ∨ ts ≠ []) (hc : Clean (t :: ts)) :
    ∃ x l, text ' ' (t :: ts) = x :: l ∧ x ≠ NUL := by
  cases t with
  | cons x t => exact ⟨x, t ++ tailText ' ' ts, rfl, (hc (x :: t) (by simp) x (by simp)).2⟩
  | nil =>
    cases ts with
    | nil => simp at h
    | cons t' ts => exact ⟨' ', _, rfl, by decide⟩

def fieldToks : List Str → Bool → Option (Str × List Str)
  | [], _ => none
  | t :: ts, nonEmpty => if t = [] ∧ (ts = [] ∨ nonEmpty) then none else some (t, ts)

theorem field_text (pre : Str) {toks : List Str} {data pos : Nat} (nonEmpty : Bool)
    (hpre : data + pos = pre.length) (hc : Clean toks)
    (hl : (pre ++ text ' ' toks).length ≤ EVENT_BUFFER_SIZE + 1) :
    field (pre ++ text ' ' toks) data pos nonEmpty =
      .ok ((fieldToks toks nonEmpty).map fun (t, ts) =>
        (pos + (closed t ts).length, (pre ++ closed t ts) ++ text ' ' ts)) := by
  unfold field
  cases toks with
  | nil =>
    simp only [text_nil, List.length_append, List.length_singleton] at hl
    rw [nextToken_nil pre hpre (by omega), ok_bind]
    simp only [if_true]; rfl
  | cons t ts =>
    rw [nextToken_cons pre hpre hc hl, ok_bind]
    have hnext : pos + (closed t ts).length = pos ↔ t = [] ∧ ts = [] := by
      rw [← closed_eq_nil, ← List.length_eq_zero_iff]; omega
    have hhead : t.headD NUL = NUL ↔ t = [] := by
      cases t with
      | nil => simp
      | cons x t => simpa using (hc (x :: t) (by simp) x (by simp)).2
    simp only [hnext, read_closed pre t ts hpre, ok_bind, hhead, fieldToks]
    by_cases ht : t = [] <;> by_cases hts : ts = [] <;> cases nonEmpty <;> simp [ht, hts] <;> rfl

theorem ofAvailable_eq (guid : Str) (toks : List Str) : Event.ofAvailable guid toks =
    ((do
      let (name, toks) ← fieldToks toks true
      let (type, toks) ← fieldToks toks true
      let (address, toks) ← fieldToks toks true
      let (ins, toks) ← fieldToks toks false
      let (outs, _) ← fieldToks toks false
      return Event.available guid name type address ins outs).getD .ignored) := by
  rcases toks with _ | ⟨name, _ | ⟨type, _ | ⟨address, _ | ⟨ins, _ | ⟨outs, rest⟩⟩⟩⟩⟩
  · rfl
  all_goals
    simp only [Event.ofAvailable, fieldToks]
    by_cases hn : name = [] <;> simp [hn]
  all_goals by_cases ht : type = [] <;> simp [ht]
  all_goals by_cases ha : address = [] <;> simp [ha]
  · by_cases hi : ins = [] <;> simp [hi]
  · by_cases ho : outs = [] ∧ rest = [] <;> simp [ho]

theorem fieldToks_clean {toks ts : List Str} {t : Str} {nonEmpty : Bool} (hc : Clean toks)
    (h : fieldToks toks nonEmpty = some (t, ts)) : toks = t :: ts ∧ Clean (t :: ts) := by
  cases toks with
  | nil => cases h
  | cons t' ts' =>
    rw [fieldToks] at h
    split at h
    · cases h
    · cases h; exact ⟨rfl, hc⟩

/-- `discoveryAvailable` on a buffer in which the guid has been passed and the fields are ahead. -/
theorem discoveryAvailable_text (d : Directory) (now : Int) {pre P guid mid : Str} {toks : List Str} {g data : Nat}
    (hpre : pre = P ++ (guid ++ NUL :: mid)) (hg : g = P.length) (hguid : NUL ∉ guid)
    (hdata : data = pre.length) (hc : Clean toks)
    (hl : (pre ++ text ' ' toks).length ≤ EVENT_BUFFER_SIZE + 1) :
    d.discoveryAvailable now (pre ++ text ' ' toks) g data = .ok (d.handle now (.ofAvailable guid toks)) := by
  rw [ofAvailable_eq, discoveryAvailable, field_text pre true (by omega) hc hl, ok_bind]
  rcases h1 : fieldToks toks true with _ | ⟨name, toks1⟩
  · rfl
  obtain ⟨rfl, hc1⟩ := fieldToks_clean hc h1
  rw [← length_closed] at hl
  simp only [Option.map_some, Option.bind_eq_bind, Option.bind_some]
  rw [field_text _ true (by simp; omega) hc1.tail hl, ok_bind]
  rcases h2 : fieldToks toks1 true with _ | ⟨type, toks2⟩
  · rfl
  obtain ⟨rfl, hc2⟩ := fieldToks_clean hc1.tail h2
  rw [← length_closed] at hl
  simp only [Option.map_some, Option.bind_some]
  rw [field_text _ true (by simp; omega) hc2.tail hl, ok_bind]
  rcases h3 : fieldToks toks2 true with _ | ⟨address, toks3⟩
  · rfl
  obtain ⟨rfl, hc3⟩ := fieldToks_clean hc2.tail h3
  rw [← length_closed] at hl
  simp only [Option.map_some, Option.bind_some]
  rw [field_text _ false (by simp; omega) hc3.tail hl, ok_bind]
  rcases h4 : fieldToks toks3 false with _ | ⟨ins, toks4⟩
  · rfl
  obtain ⟨rfl, hc4⟩ := fieldToks_clean hc3.tail h4
  rw [← length_closed] at hl
  simp only [Option.map_some, Option.bind_some]
  rw [field_text _ false (by simp; omega) hc4.tail hl, ok_bind]
  rcases h5 : fieldToks toks4 false with _ | ⟨outs, toks5⟩
  · rfl
  obtain ⟨rfl, hc5⟩ := fieldToks_clean hc4.tail h5
  obtain ⟨post, hpost⟩ := closed_append_text outs toks5
  simp only [Option.map_some, Option.bind_some, List.append_assoc, hpost]
  simp only [closed, List.cons_ne_nil, if_false, List.append_assoc, List.singleton_append, List.length_append,
    List.length_singleton]
  -- all six strings stand closed in the buffer
  rw [cstr_of_append P (t := guid) (by simp [hpre]) hg hguid, ok_bind,
    cstr_of_append pre (t := name) (by simp) (by omega) (hc.nul (by simp)), ok_bind,
    cstr_of_append (pre ++ name ++ [NUL]) (t := type) (by simp) (by simp; omega) (hc.nul (by simp)), ok_bind,
    cstr_of_append (pre ++ name ++ [NUL] ++ type ++ [NUL]) (t := address) (by simp) (by simp; omega)
      (hc.nul (by simp)), ok_bind,
    cstr_of_append (pre ++ name ++ [NUL] ++ type ++ [NUL] ++ address ++ [NUL]) (t := ins) (by simp)
      (by simp; omega) (hc.nul (by simp)), ok_bind,
    cstr_of_append (pre ++ name ++ [NUL] ++ type ++ [NUL] ++ address ++ [NUL] ++ ins ++ [NUL]) (t := outs)
      (by simp) (by simp; omega) (hc.nul (by simp)), ok_bind]
  rfl

theorem length_le_length_text (toks : List Str) : toks.length ≤ (text ' ' toks).length := by
  induction toks with
  | nil => simp
  | cons t ts ih =>
    cases ts with
    | nil => simp
    | cons t' ts =>
      simp only [text_cons, tailText_cons, List.length_append, List.length_cons] at ih ⊢
      omega

theorem discoverySearchLoop_text (d : Directory) (pre : Str) {toks : List Str} {data pos fuel : Nat}
    (hpre : data + pos = pre.length) (hc : Clean toks) (hf : toks.length < fuel)
    (hl : (pre ++ text ' ' toks).length ≤ EVENT_BUFFER_SIZE + 1) :
    discoverySearchLoop data fuel d (pre ++ text ' ' toks) pos =
      .ok ((toks.filter (· ≠ [])).foldl searchReply d) := by
  induction toks generalizing d pre pos fuel with
  | nil =>
    obtain ⟨fuel, rfl⟩ : ∃ k, fuel = k + 1 := ⟨fuel - 1, by omega⟩
    rw [discoverySearchLoop, text_nil, read_append_of_eq hpre, ok_bind, if_pos rfl]
    rfl
  | cons t ts ih =>
    obtain ⟨fuel, rfl⟩ : ∃ k, fuel = k + 1 := ⟨fuel - 1, by omega⟩
    by_cases hend : t = [] ∧ ts = []
    · -- the empty token after a trailing space
      obtain ⟨rfl, rfl⟩ := hend
      rw [discoverySearchLoop, text_cons, List.nil_append, tailText_nil, read_append_of_eq hpre, ok_bind,
        if_pos rfl]
      rfl
    · obtain ⟨x, l, hx, hx0⟩ := text_head (Decidable.not_and_iff_not_or_not.1 hend) hc
      have hread : read (pre ++ text ' ' (t :: ts)) (data + pos) = .ok x := by
        rw [hx, read_append_of_eq hpre]
      obtain ⟨post, hpost⟩ := closed_append_text t ts
      rw [discoverySearchLoop, hread, ok_bind, if_neg hx0, nextToken_cons pre hpre hc hl, ok_bind]
      have hname : cstr (pre ++ closed t ts ++ text ' ' ts) (data + pos) = .ok t :=
        cstr_of_append pre (by simp [hpost]) hpre (hc.nul (by simp))
      rw [← length_closed] at hl
      dsimp only
      rw [hname, ok_bind, ih _ _ (by simp; omega) hc.tail (by simpa using hf) hl]
      by_cases ht : t = [] <;> simp [ht]

theorem discoveryRemove_text (d : Directory) (now : Int) {pre P guid mid : Str} {toks : List Str} {g data : Nat}
    (hpre : pre = P ++ (guid ++ NUL :: mid)) (hg : g = P.length) (hguid : NUL ∉ guid)
    (hdata : data = pre.length) (hc : Clean toks)
    (hl : (pre ++ text ' ' toks).length ≤ EVENT_BUFFER_SIZE + 1) :
    d.discoveryRemove (pre ++ text ' ' toks) g data = .ok (d.handle now (.remove guid (toks.headD []))) := by
  rw [discoveryRemove]
  cases toks with
  | nil =>
    rw [nextToken_nil pre (by omega) (by simp at hl; omega), ok_bind]
    dsimp only
    rw [cstr_of_append P (t := guid) (by simp [hpre]) hg hguid, ok_bind,
      cstr_of_append pre (t := []) (by simp) hdata (by simp), ok_bind]
    rfl
  | cons t ts =>
    obtain ⟨post, hpost⟩ := closed_append_text t ts
    rw [nextToken_cons pre (by omega) hc hl, ok_bind]
    dsimp only
    rw [cstr_of_append P (t := guid) (by simp [hpre]) hg hguid, ok_bind,
      cstr_of_append pre (t := t) (by simp [hpost]) hdata (hc.nul (by simp)), ok_bind]
    rfl

/-! ### Datagrams -/

theorem clean_splitOn {s : Str} (h : NUL ∉ s) : Clean (s.splitOn ' ') := by
  intro t ht x hx
  refine ⟨?_, ?_⟩ <;> rintro rfl
  · exact notMem_of_mem_splitOn ht hx
  · exact h (mem_of_mem_splitOn ht hx)

theorem handleCommand_text (d : Directory) (now : Int) {guid : Str} {rest : List Str} {buf : Str} {pos : Nat}
    (hbuf : buf = (DISPATCH ++ closed guid rest) ++ text ' ' rest) (hpos : pos = (DISPATCH ++ closed guid rest).length)
    (hguid : NUL ∉ guid) (hc : Clean rest) (hl : buf.length ≤ EVENT_BUFFER_SIZE + 1) :
    (do
      let (data, buf) ← nextToken buf 0 pos
      let c ← read buf pos
      if c = DISCOVERY_AVAILABLE then d.discoveryAvailable now buf DISPATCH.length data
      else if c = DISCOVERY_SEARCH then d.discoverySearch buf data
      else if c = DISCOVERY_EXIT then d.discoveryExit buf DISPATCH.length
      else if c = DISCOVERY_REMOVE then d.discoveryRemove buf DISPATCH.length data
      else return d) = .ok (d.handle now (.ofCommand guid rest)) := by
  subst hbuf
  cases rest with
  | nil =>
    rw [nextToken_nil _ (by omega) (by simp at hl ⊢; omega), ok_bind]
    dsimp only
    rw [text_nil, read_append_of_eq hpos, ok_bind]
    rfl
  | cons cmd args =>
    rw [nextToken_cons _ (by omega) hc hl, ok_bind]
    dsimp only
    rw [read_closed _ _ _ hpos, ok_bind]
    have hpre : DISPATCH ++ closed guid (cmd :: args) ++ closed cmd args =
        DISPATCH ++ (guid ++ NUL :: closed cmd args) := by simp [closed]
    rw [← length_closed] at hl
    have hdata : pos + (closed cmd args).length =
        (DISPATCH ++ closed guid (cmd :: args) ++ closed cmd args).length := by simp [hpos, Nat.add_assoc]
    generalize hx : cmd.headD NUL = x
    cases cmd with
    | nil => subst hx; rfl
    | cons c cmd =>
      obtain rfl : c = x := hx
      dsimp only [Event.ofCommand]
      by_cases hA : c = DISCOVERY_AVAILABLE
      · rw [if_pos hA, if_pos hA]
        exact d.discoveryAvailable_text now hpre rfl hguid hdata hc.tail hl
      rw [if_neg hA, if_neg hA]
      by_cases hS : c = DISCOVERY_SEARCH
      · rw [if_pos hS, if_pos hS]
        refine d.discoverySearchLoop_text _ (by omega) hc.tail ?_ hl
        have hlen := length_le_length_text args
        have hpos : 0 < DISPATCH.length := by decide
        simp only [List.length_append] at hl
        omega
      rw [if_neg hS, if_neg hS]
      by_cases hX : c = DISCOVERY_EXIT
      · rw [if_pos hX, if_pos hX, discoveryExit, hpre,
          cstr_of_append DISPATCH (t := guid) (by simp) rfl hguid, ok_bind]
        rfl
      rw [if_neg hX, if_neg hX]
      by_cases hR : c = DISCOVERY_REMOVE
      · rw [if_pos hR, if_pos hR]
        exact d.discoveryRemove_text now hpre rfl hguid hdata hc.tail hl
      rw [if_neg hR, if_neg hR]
      rfl

theorem handleEvent_eq (d : Directory) (now : Int) {s : Str} (hs : ∀ c ∈ s, isprint c = true)
    (hl : s.length ≤ EVENT_BUFFER_SIZE) :
    d.handleEvent now (s ++ [NUL]) = .ok (d.handle now (.decode d.myGuid s)) := by
  have hs0 : NUL ∉ s := NUL_notMem_of_isprint hs
  have hall : s.all isprint = true := List.all_eq_true.2 hs
  have hp := strncmp_append [] (t := DISPATCH) (s := s) (by decide)
  simp only [List.nil_append, List.length_nil] at hp
  rw [handleEvent, hp, ok_bind]
  by_cases htag : DISPATCH <+: s
  swap
  · simp [htag, Event.decode]; rfl
  obtain ⟨r, rfl⟩ := htag
  have htoks := Event.sender_cons_command (DISPATCH ++ r)
  simp only [Event.decode, hall, true_and]
  generalize Event.sender (DISPATCH ++ r) = guid at htoks ⊢
  generalize Event.command (DISPATCH ++ r) = rest at htoks ⊢
  rw [List.drop_left] at htoks
  have hr0 : NUL ∉ r := fun h => hs0 (List.mem_append_right _ h)
  have hc : Clean (guid :: rest) := htoks ▸ clean_splitOn hr0
  have hguid : NUL ∉ guid := hc.nul (by simp)
  have hbuf : DISPATCH ++ r ++ [NUL] = DISPATCH ++ text ' ' (guid :: rest) := by
    rw [htoks, text_splitOn, List.append_assoc]
  have hbl : (DISPATCH ++ text ' ' (guid :: rest)).length ≤ EVENT_BUFFER_SIZE + 1 := by
    rw [← hbuf, List.length_append, List.length_singleton]; omega
  obtain ⟨post, hpost⟩ := closed_append_text guid rest
  rw [hbuf, if_neg (by simp), nextToken_cons DISPATCH (by simp) hc hbl, ok_bind]
  dsimp only
  rw [cstr_of_append DISPATCH (t := guid) (by simp [hpost]) rfl hguid, ok_bind]
  by_cases hown : guid = cString d.myGuid
  · simp [hown]; rfl
  · rw [if_neg hown, if_pos ⟨List.prefix_append .., hown⟩]
    exact d.handleCommand_text now rfl (by simp) hguid hc.tail (by rw [length_closed]; exact hbl)

/-- `event` acts on the tokens of the datagram, and never faults. -/
theorem event_eq (d : Directory) (now : Int) {bytes : Str} (hl : bytes.length ≤ EVENT_BUFFER_SIZE) :
    d.event now bytes = .ok (d.handle now (.decode d.myGuid bytes)) := by
  unfold event
  split
  · next h => exact d.handleEvent_eq now (List.all_eq_true.1 h) hl
  · next h => simp [Event.decode, h]; rfl

end Directory
end A17.Dispatch
