import A17.Lib.Bytes
import A17.Dispatch.Address
import A17.Dispatch.Socket

/-!
# Subscription filters

`Subscriber::applyFilters` and `SubServer::applyFilters`. A filter is the decimal text of a message id,
or empty for all messages. A `ZMQ_SUB` socket takes the messages whose first frame begins with one of its
subscriptions, and a smart message begins with its id as eight bytes. `Subscriber` subscribes to these
eight bytes, `SubServer` to the text, so that it agrees only where the filters leave no choice
(`filterAlike_iff`).
-/

open Std

namespace A17.Dispatch
open CString

/-- `typeOf` of a class with this id: `std::to_string`. -/
def typeOf (id : Nat) : Str := Nat.toDigits 10 id

def takeSign : Str → Bool × Str
  | '-' :: s => (true, s)
  | '+' :: s => (false, s)
  | s => (false, s)

/-- The base that a number in C notation announces, and its digits. -/
def takeBase : Str → Nat × Str
  | '0' :: x :: hex =>
    if (x = 'x' || x = 'X') && (hex.head?.bind digitValue).isSome then (16, hex) else (8, '0' :: x :: hex)
  | ['0'] => (8, ['0'])
  | s => (10, s)

/-- `std::stoull(str, 0, 0)`; the error is the text of the exception. -/
def stoull (s : Str) : Except Str Nat :=
  let (neg, s) := takeSign (s.dropWhile isspace)
  let (base, s) := takeBase s
  let digits := s.takeWhile fun c => (digitValue c).any (· < base)
  if digits = [] then .error "stoull".toList
  else
    let n := digits.foldl (fun n c => n * base + (digitValue c).getD 0) 0
    if 2 ^ 64 ≤ n then .error "stoull".toList
    else .ok (if neg then (2 ^ 64 - n) % 2 ^ 64 else n)

def toBytes (s : Str) : List UInt8 := s.map fun c => UInt8.ofNat c.toNat

/-- The subscriptions that `applyFilters` sets. -/
def Subscriber.applyFilters (filters : TypeSet) : Except Str (List (List UInt8)) :=
  filters.toList.mapM fun filter =>
    if filter ≠ [] then (stoull filter).map (Bytes.ofNat 8)
    else .ok []

def SubServer.applyFilters (filters : TypeSet) : List (List UInt8) := filters.toList.map toBytes

/-- What a `ZMQ_SUB` socket with these subscriptions takes. -/
def accepts (subscriptions : List (List UInt8)) (message : MessageVector) : Bool :=
  subscriptions.any fun subscription => subscription.isPrefixOf (message.headD [])

/-- The messages with this id are wanted. -/
def Wanted (filters : TypeSet) (id : Nat) : Prop := [] ∈ filters ∨ typeOf id ∈ filters

/-! ## Decimal text -/

theorem typeOf_ne_nil (id : Nat) : typeOf id ≠ [] := Nat.toDigits_ne_nil

theorem isdigit_of_mem_typeOf {id : Nat} {c : Char} (h : c ∈ typeOf id) : isdigit c = true := by
  have := Nat.isDigit_of_mem_toDigits (by decide) (by decide) h
  simpa [Char.isDigit, isdigit, Char.le_def] using this

/-- Without leading zeros. -/
theorem head_typeOf {id : Nat} (h : 0 < id) : (typeOf id).head? ≠ some '0' := by
  induction id using Nat.strongRecOn with
  | ind id ih =>
    rw [typeOf, Nat.toDigits_eq_if (by decide)]
    split
    · next hlt =>
      have hall : ∀ n : Fin 10, 0 < n.1 → [Nat.digitChar n].head? ≠ some '0' := by decide
      exact hall ⟨id, hlt⟩ h
    · next hge =>
      have hdiv : 0 < id / 10 := by omega
      have := ih (id / 10) (by omega) hdiv
      rw [typeOf] at this
      rwa [List.head?_append_of_ne_nil _ Nat.toDigits_ne_nil]

theorem digitValue_of_isdigit {c : Char} (h : isdigit c = true) :
    digitValue c = some (c.toNat - '0'.toNat) ∧ c.toNat - '0'.toNat < 10 := by
  rw [digitValue, if_pos h]
  simp only [isdigit, Bool.and_eq_true, decide_eq_true_eq, Char.le_def, UInt32.le_iff_toNat_le] at h
  refine ⟨rfl, ?_⟩
  have h9 : c.toNat ≤ 57 := h.2
  show c.toNat - 48 < 10
  omega

theorem foldl_typeOf (id : Nat) : (typeOf id).foldl (fun n c => n * 10 + (digitValue c).getD 0) 0 = id := by
  have h : Nat.ofDigitChars 10 (typeOf id) 0 = id := Nat.ofDigitChars_ten_toDigits
  rw [Nat.ofDigitChars_eq_foldl] at h
  nth_rewrite 2 [← h]
  refine List.foldl_ext _ _ _ fun n c hc => ?_
  rw [(digitValue_of_isdigit (isdigit_of_mem_typeOf hc)).1, Nat.mul_comm]; rfl

/-- The text of an id is read back as it. -/
theorem stoull_typeOf {id : Nat} (h : id < 2 ^ 64) : stoull (typeOf id) = .ok id := by
  rcases Nat.eq_zero_or_pos id with rfl | hpos
  · rfl
  have hval := foldl_typeOf id
  have hdigit : ∀ c ∈ typeOf id, isdigit c = true := fun c => isdigit_of_mem_typeOf
  have hhead := head_typeOf hpos
  generalize typeOf id = s at hval hdigit hhead
  cases s with
  | nil => exact absurd hval (by simpa using hpos.ne)
  | cons c s =>
    have hc := hdigit c List.mem_cons_self
    have h0 : c ≠ '0' := by simpa using hhead
    have hminus : c ≠ '-' := by rintro rfl; cases hc
    have hplus : c ≠ '+' := by rintro rfl; cases hc
    have hspace : (c :: s).dropWhile isspace = c :: s := by
      rw [List.dropWhile_cons, isspace_of_isdigit hc]; rfl
    have hsign : takeSign (c :: s) = (false, c :: s) := by
      unfold takeSign
      split <;> simp_all
    have hbase : takeBase (c :: s) = (10, c :: s) := by
      unfold takeBase
      split <;> simp_all
    have htake : (c :: s).takeWhile (fun c => (digitValue c).any (· < 10)) = c :: s := by
      refine List.takeWhile_eq_self_iff.2 fun d hd => ?_
      obtain ⟨hv, hlt⟩ := digitValue_of_isdigit (hdigit d hd)
      rw [hv]
      simpa using hlt
    simp only [stoull, hspace, hsign, hbase, htake, hval]
    rw [if_neg (by simp), if_neg (Nat.not_le.2 h)]
    rfl

/-! ## What is accepted -/

/-- Every filter is empty or the text of a 64-bit id. -/
def TypeFilters (filters : TypeSet) : Prop := ∀ filter ∈ filters, filter = [] ∨ ∃ id < 2 ^ 64, filter = typeOf id

theorem accepts_iff {subscriptions : List (List UInt8)} {frame : Frame} {frames : MessageVector} :
    accepts subscriptions (frame :: frames) = true ↔ ∃ sub ∈ subscriptions, sub <+: frame := by
  simp [accepts]

theorem mapM_ok {α β ε : Type} {f : α → Except ε β} {g : α → β} {l : List α} (h : ∀ a ∈ l, f a = .ok (g a)) :
    l.mapM f = .ok (l.map g) := by
  induction l with
  | nil => rfl
  | cons a l ih =>
    rw [List.mapM_cons, h a List.mem_cons_self, ih fun b hb => h b (List.mem_cons_of_mem _ hb)]
    rfl

/-- What `Subscriber` subscribes to. -/
def Subscriber.subscription (filter : Str) : List UInt8 :=
  if filter = [] then [] else Bytes.ofNat 8 (Nat.ofDigitChars 10 filter 0)

theorem Subscriber.subscription_typeOf (id : Nat) : subscription (typeOf id) = Bytes.ofNat 8 id := by
  have hback : Nat.ofDigitChars 10 (typeOf id) 0 = id := Nat.ofDigitChars_ten_toDigits
  rw [subscription, if_neg (typeOf_ne_nil id), hback]

theorem Subscriber.applyFilters_eq {filters : TypeSet} (h : TypeFilters filters) :
    Subscriber.applyFilters filters = .ok (filters.toList.map subscription) := by
  refine mapM_ok fun filter hf => ?_
  rcases h filter (ExtTreeSet.mem_toList.1 hf) with rfl | ⟨id, hid, rfl⟩
  · rfl
  · rw [if_pos (typeOf_ne_nil id), stoull_typeOf hid, subscription_typeOf]
    rfl

theorem ofNat_eight_inj {a b : Nat} (ha : a < 2 ^ 64) (hb : b < 2 ^ 64) (h : Bytes.ofNat 8 a <+: Bytes.ofNat 8 b) :
    a = b := by
  have heq := h.eq_of_length (by simp)
  have := congrArg Bytes.toNat heq
  rw [Bytes.toNat_ofNat, Bytes.toNat_ofNat] at this
  rwa [Nat.mod_eq_of_lt (by omega), Nat.mod_eq_of_lt (by omega)] at this

theorem Subscriber.accepts_iff {filters : TypeSet} (h : TypeFilters filters) {subs : List (List UInt8)}
    (hs : Subscriber.applyFilters filters = .ok subs) {id : Nat} (hid : id < 2 ^ 64) (frames : MessageVector) :
    accepts subs (Bytes.ofNat 8 id :: frames) = true ↔ Wanted filters id := by
  rw [Subscriber.applyFilters_eq h] at hs
  obtain rfl := Except.ok.inj hs
  rw [A17.Dispatch.accepts_iff, Wanted]
  simp only [List.mem_map, ExtTreeSet.mem_toList, exists_exists_and_eq_and]
  constructor
  · rintro ⟨filter, hf, hsub⟩
    rcases h filter hf with rfl | ⟨id', hid', rfl⟩
    · exact .inl hf
    · rw [subscription_typeOf] at hsub
      rw [← ofNat_eight_inj hid' hid hsub]
      exact .inr hf
  · rintro (hf | hf)
    · exact ⟨[], hf, List.nil_prefix⟩
    · exact ⟨typeOf id, hf, subscription_typeOf id ▸ List.prefix_refl _⟩

/-! ## Text as an id -/

theorem toNat_le_of_initial {bs : List UInt8} {id : Nat} (hid : id < 2 ^ 64) (h : bs <+: Bytes.ofNat 8 id) :
    Bytes.toNat bs ≤ id := by
  obtain ⟨rest, hrest⟩ := h
  have := congrArg Bytes.toNat hrest
  rw [Bytes.toNat_ofNat, Nat.mod_eq_of_lt (by omega), Bytes.toNat_append] at this
  omega

theorem le_toNat_digit {c : Char} (h : isdigit c = true) : 48 ≤ (UInt8.ofNat c.toNat).toNat := by
  simp only [isdigit, Bool.and_eq_true, decide_eq_true_eq, Char.le_def, UInt32.le_iff_toNat_le] at h
  have h0 : 48 ≤ c.toNat := h.1
  have h9 : c.toNat ≤ 57 := h.2
  rw [UInt8.toNat_ofNat', Nat.mod_eq_of_lt (by omega)]
  exact h0

/-- A text that begins an id, as bytes, is that of a smaller one: its bytes are 48 and up, its digits 9 at
most. -/
theorem lt_of_typeOf_initial {a b : Nat} (hb : b < 2 ^ 64) (h : toBytes (typeOf a) <+: Bytes.ofNat 8 b) : a < b := by
  have hle := toNat_le_of_initial hb h
  obtain ⟨pre, c, hc⟩ : ∃ pre c, typeOf a = pre ++ [c] :=
    ⟨_, _, (List.dropLast_append_getLast (typeOf_ne_nil a)).symm⟩
  have hlt : a < 10 ^ (pre.length + 1) := by
    refine (Nat.length_toDigits_le_iff (by decide) (Nat.succ_pos _)).1 ?_
    have := congrArg List.length hc
    rw [typeOf] at this
    simp [this]
  have hdigit := le_toNat_digit (isdigit_of_mem_typeOf (hc ▸ List.mem_append_right pre List.mem_cons_self))
  have hge : 48 * 256 ^ pre.length ≤ Bytes.toNat (toBytes (typeOf a)) := by
    rw [hc, toBytes, List.map_append, Bytes.toNat_append, List.length_map]
    have hlast : Bytes.toNat ([c].map fun c => UInt8.ofNat c.toNat) = (UInt8.ofNat c.toNat).toNat := by
      simp [Bytes.toNat]
    rw [hlast, Nat.mul_comm 48]
    exact (Nat.mul_le_mul_left _ hdigit).trans (Nat.le_add_left _ _)
  have hpow : 10 ^ (pre.length + 1) ≤ 48 * 256 ^ pre.length := by
    rw [pow_succ, Nat.mul_comm]
    exact Nat.mul_le_mul (by decide) (Nat.pow_le_pow_left (by decide) _)
  omega

/-- Both sockets take exactly the messages that are wanted. -/
def FilterAlike (filters : TypeSet) : Prop :=
  ∃ subs, Subscriber.applyFilters filters = .ok subs ∧ ∀ id < 2 ^ 64, ∀ frames : MessageVector,
    (accepts subs (Bytes.ofNat 8 id :: frames) = true ↔ Wanted filters id) ∧
      (accepts (SubServer.applyFilters filters) (Bytes.ofNat 8 id :: frames) = true ↔ Wanted filters id)

theorem SubServer.accepts_iff {filters : TypeSet} {id : Nat} {frames : MessageVector} :
    accepts (SubServer.applyFilters filters) (Bytes.ofNat 8 id :: frames) = true ↔
      ∃ filter ∈ filters, toBytes filter <+: Bytes.ofNat 8 id := by
  rw [A17.Dispatch.accepts_iff, SubServer.applyFilters]
  simp only [List.mem_map, ExtTreeSet.mem_toList, exists_exists_and_eq_and]

/-- `SubServer` takes no message with the smallest id of the filters. -/
theorem SubServer.misses {filters : TypeSet} (h : TypeFilters filters) (hall : [] ∉ filters) {filter : Str}
    (hf : filter ∈ filters) : ∃ id < 2 ^ 64, typeOf id ∈ filters ∧
      ∀ frames, accepts (SubServer.applyFilters filters) (Bytes.ofNat 8 id :: frames) = false := by
  have hex : ∃ id, id < 2 ^ 64 ∧ typeOf id ∈ filters := by
    rcases h filter hf with rfl | ⟨id, hid, rfl⟩
    · exact absurd hf hall
    · exact ⟨id, hid, hf⟩
  classical
  refine ⟨Nat.find hex, (Nat.find_spec hex).1, (Nat.find_spec hex).2, fun frames => ?_⟩
  rw [Bool.eq_false_iff, ne_eq, SubServer.accepts_iff]
  rintro ⟨filter', hf', hsub⟩
  rcases h filter' hf' with rfl | ⟨id', hid', rfl⟩
  · exact hall hf'
  · exact Nat.find_min hex (lt_of_typeOf_initial (Nat.find_spec hex).1 hsub) ⟨hid', hf'⟩

/-- `Subscriber` and `SubServer` filter as they should exactly if there are no filters, or one of them is
empty. -/
theorem filterAlike_iff {filters : TypeSet} (h : TypeFilters filters) :
    FilterAlike filters ↔ filters = ∅ ∨ [] ∈ filters := by
  constructor
  · rintro ⟨subs, -, hagree⟩
    by_contra hno
    rw [not_or] at hno
    obtain ⟨filter, hf⟩ : ∃ filter, filter ∈ filters := by
      by_contra hempty
      exact hno.1 (ExtTreeSet.ext_mem fun n => by simpa using fun hn => hempty ⟨n, hn⟩)
    obtain ⟨id, hid, hmem, hmiss⟩ := SubServer.misses h hno.2 hf
    have := (hagree id hid []).2.2 (.inr hmem)
    rw [hmiss] at this; cases this
  · intro hf
    have hsubs := Subscriber.applyFilters_eq h
    refine ⟨_, hsubs, fun id hid frames => ⟨Subscriber.accepts_iff h hsubs hid frames, ?_⟩⟩
    rw [SubServer.accepts_iff]
    rcases hf with rfl | hf
    · simp [Wanted]
    · exact ⟨fun _ => .inl hf, fun _ => ⟨[], hf, by simp [toBytes]⟩⟩

theorem typeFilters_one {filter : Str} (h : filter = [] ∨ ∃ id < 2 ^ 64, filter = typeOf id) :
    TypeFilters ((∅ : TypeSet).insert filter) := by
  intro filter' hf
  rw [ExtTreeSet.mem_insert, Std.LawfulEqCmp.compare_eq_iff_eq] at hf
  rcases hf with rfl | hf
  · exact h
  · simp at hf

/-- The default filters. -/
theorem filterAlike_default : FilterAlike ((∅ : TypeSet).insert []) :=
  (filterAlike_iff (typeFilters_one (.inl rfl))).2 (.inr (by simp))

/-- A `SubServer` with one id for a filter gets no message of that id. -/
theorem subServer_deaf_to_its_filter : ¬ ∀ filters : TypeSet, TypeFilters filters → FilterAlike filters := by
  intro h
  obtain ⟨subs, -, hagree⟩ := h _ (typeFilters_one (.inr ⟨17, by decide, rfl⟩))
  exact absurd ((hagree 17 (by decide) []).2.2 (.inr (by simp))) (by decide)

end A17.Dispatch
