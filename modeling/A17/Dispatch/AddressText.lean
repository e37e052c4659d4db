import Mathlib.Data.List.Infix
import A17.Dispatch.Address
import A17.Dispatch.Py.Directory

/-!
# Addresses as text

`Address::address` and Python's `SocketAddress.__str__` write `protocol://ip:port`, the latter without a port of 0;
`Address::parse` and `SocketAddress.from_string` read it. Both readers cut at the first `://` and at the first `:`
after it. `://` does not overlap itself, so a protocol without one is read back whole, and whatever a reader has
cut out can be written and read again.
-/

namespace A17.Dispatch

def Address.address (a : Address) : Str := a.protocol ++ "://".toList ++ a.ip ++ ":".toList ++ Nat.toDigits 10 a.port

/-- `SocketAddress.__str__`. -/
def Py.SocketAddress.str (a : Py.SocketAddress) : Str :=
  if a.port > 0 then a.protocol ++ "://".toList ++ a.ip ++ ":".toList ++ Nat.toDigits 10 a.port.toNat
  else a.protocol ++ "://".toList ++ a.ip

/-! ### The first occurrence -/

theorem findStr_eq_none_iff {pattern s : Str} : findStr pattern s = none ↔ ¬ pattern <:+: s := by
  induction s with
  | nil =>
    rw [findStr, List.infix_nil]
    cases pattern <;> simp
  | cons c s ih =>
    rw [findStr, List.infix_cons_iff, ← List.isPrefixOf_iff_prefix]
    split
    · next h => simp [h]
    · next h => simp [h, ih]

/-- There is no occurrence before the first one. -/
theorem findStr_take {pattern s : Str} {n : Nat} (hne : pattern ≠ []) (h : findStr pattern s = some n) :
    findStr pattern (s.take n) = none := by
  have hnil : findStr pattern [] = none := findStr_eq_none_iff.2 (by simpa using hne)
  induction s generalizing n with
  | nil => rw [List.take_nil, hnil]
  | cons c s ih =>
    rw [findStr] at h
    split at h
    · cases h
      exact hnil
    · next hc =>
      obtain ⟨m, hm, rfl⟩ := Option.map_eq_some_iff.1 h
      rw [List.take_succ_cons, findStr, if_neg, ih hm, Option.map_none]
      rw [List.isPrefixOf_iff_prefix] at hc ⊢
      exact fun hp => hc (hp.trans (List.cons_prefix_cons.2 ⟨rfl, List.take_prefix m s⟩))

theorem findStr_append_sep {proto : Str} (h : findStr "://".toList proto = none) (rest : Str) :
    findStr "://".toList (proto ++ ("://".toList ++ rest)) = some proto.length := by
  induction proto with
  | nil => rfl
  | cons x proto ih =>
    rw [findStr] at h
    split at h
    · cases h
    · next hx =>
      rw [Option.map_eq_none_iff] at h
      have hx' : ¬ "://".toList.isPrefixOf (x :: (proto ++ ("://".toList ++ rest))) = true := by
        rcases proto with _ | ⟨y, _ | ⟨z, proto⟩⟩
        · simp [List.isPrefixOf]
        · simp [List.isPrefixOf]
        · simpa [List.isPrefixOf] using hx
      rw [List.cons_append, findStr, if_neg hx', ih h]
      rfl

theorem findStr_colon_eq_none_iff {s : Str} : findStr ":".toList s = none ↔ ':' ∉ s := by
  rw [findStr_eq_none_iff]
  exact not_congr (List.singleton_infix_iff ':' s)

theorem findStr_colon {ip : Str} (h : ':' ∉ ip) (rest : Str) :
    findStr ":".toList (ip ++ ':' :: rest) = some ip.length := by
  induction ip with
  | nil => rfl
  | cons x ip ih =>
    simp only [List.mem_cons, not_or] at h
    have hx : ¬ ":".toList.isPrefixOf (x :: (ip ++ ':' :: rest)) = true := by
      simpa [List.isPrefixOf] using h.1
    rw [List.cons_append, findStr, if_neg hx, ih h.2]
    rfl

theorem drop_sep (proto rest : Str) : (proto ++ ("://".toList ++ rest)).drop (proto.length + 3) = rest := by
  have hlen : proto.length + 3 = (proto ++ "://".toList).length := by simp
  rw [← List.append_assoc, hlen, List.drop_left]

/-! ### Decimal numbers -/

theorem dropWhile_eq_self_of_forall {p : Char → Bool} {s : Str} (h : ∀ x ∈ s, p x = false) : s.dropWhile p = s := by
  cases s with
  | nil => rfl
  | cons x s => rw [List.dropWhile_cons_of_neg (by simp [h x (by simp)])]

theorem foldl_digits (s : Str) (m : Nat) :
    s.foldl (fun (n : Int) c => n * 10 + (c.toNat - '0'.toNat : Nat)) m = (Nat.ofDigitChars 10 s m : Int) := by
  induction s generalizing m with
  | nil => simp
  | cons c s ih =>
    rw [List.foldl_cons, Nat.ofDigitChars_cons, ← ih]
    congr 1
    push_cast
    ring

theorem toInt_digits {port : Str} (hne : port ≠ []) (hd : ∀ x ∈ port, isdigit x = true) :
    Py.toInt port = .ok (Nat.ofDigitChars 10 port 0 : Int) := by
  have hsp : ∀ x ∈ port, isspace x = false := fun x hx => isspace_of_isdigit (hd x hx)
  have hstrip : ((port.dropWhile isspace).reverse.dropWhile isspace).reverse = port := by
    rw [dropWhile_eq_self_of_forall hsp, dropWhile_eq_self_of_forall (by simpa using hsp), List.reverse_reverse]
  have hus : '_' ∉ port := fun h => absurd (hd _ h) (by decide)
  have hsplit : port.splitOn '_' = [port] := List.splitOn_eq_singleton hus
  have hall : ((port.splitOn '_').all fun g => !g.isEmpty && g.all isdigit) = true := by
    rw [hsplit]
    simp [hne]
    exact hd
  unfold Py.toInt
  rw [hstrip]
  dsimp only
  split
  · exact absurd (hd '-' (by simp)) (by decide)
  · exact absurd (hd '+' (by simp)) (by decide)
  · rw [if_pos hall, hsplit, ← foldl_digits]
    simp

theorem strtol_digits {port : Str} (hd : ∀ x ∈ port, isdigit x = true) :
    strtol port = min (2 ^ 63 - 1) (Nat.ofDigitChars 10 port 0 : Int) := by
  have hsp : ∀ x ∈ port, isspace x = false := fun x hx => isspace_of_isdigit (hd x hx)
  unfold strtol
  rw [dropWhile_eq_self_of_forall hsp]
  dsimp only
  split
  · exact absurd (hd '-' (by simp)) (by decide)
  · exact absurd (hd '+' (by simp)) (by decide)
  · rw [List.takeWhile_eq_self_iff.2 hd]
    have h := foldl_digits port 0
    rw [Nat.cast_zero] at h
    rw [h]
    simp only [Bool.false_eq_true, if_false]
    have hlow : (-2 ^ 63 : Int) ≤ 0 := by norm_num
    have hhigh : (0 : Int) ≤ 2 ^ 63 - 1 := by norm_num
    exact max_eq_right (hlow.trans (le_min hhigh (Int.natCast_nonneg _)))

theorem isdigit_toDigits (n : Nat) {x : Char} (hx : x ∈ Nat.toDigits 10 n) : isdigit x = true := by
  have h := Nat.isDigit_of_mem_toDigits (by decide) (by decide) hx
  simpa [Char.isDigit, isdigit, Char.le_def] using h

theorem strtol_toDigits {n : Nat} (h : n ≤ 65535) : strtol (Nat.toDigits 10 n) = n := by
  rw [strtol_digits fun x hx => isdigit_toDigits n hx, Nat.ofDigitChars_ten_toDigits]
  omega

theorem toInt_toDigits (n : Nat) : Py.toInt (Nat.toDigits 10 n) = .ok (n : Int) := by
  rw [toInt_digits Nat.toDigits_ne_nil fun x hx => isdigit_toDigits n hx, Nat.ofDigitChars_ten_toDigits]

/-! ### Reading what was written -/

theorem splitMax_colon {ip : Str} (h : ':' ∉ ip) {rest : Str} (hrest : ':' ∉ rest) :
    Py.splitMax ':' 1 (ip ++ ':' :: rest) = [ip, rest] := by
  rw [Py.splitMax, List.splitOn_append_cons_self_of_not_mem h, List.splitOn_eq_singleton hrest]
  rfl

section
variable {protocol ip : Str}

theorem parse_port (hp : findStr "://".toList protocol = none) (hip : ':' ∉ ip) (port : Str) :
    Address.parse (protocol ++ ("://".toList ++ (ip ++ ':' :: port))) =
      ⟨protocol, ip, (strtol port % 2 ^ 16).toNat⟩ := by
  have hdrop :
      (protocol ++ ("://".toList ++ (ip ++ ':' :: port))).drop (protocol.length + 3 + ip.length + 1) = port := by
    rw [← List.drop_drop, ← List.drop_drop, drop_sep, List.drop_left]
    rfl
  rw [Address.parse, findStr_append_sep hp]
  dsimp only
  rw [drop_sep, findStr_colon hip]
  dsimp only
  rw [hdrop, List.take_left, List.take_left]

theorem parse_portless (hp : findStr "://".toList protocol = none) (hip : ':' ∉ ip) :
    Address.parse (protocol ++ ("://".toList ++ ip)) = ⟨protocol, ip, 0⟩ := by
  rw [Address.parse, findStr_append_sep hp]
  dsimp only
  rw [drop_sep, findStr_colon_eq_none_iff.2 hip, List.take_left]

theorem fromString_port (hp : findStr "://".toList protocol = none) (hip : ':' ∉ ip) (port : Nat) :
    Py.SocketAddress.fromString (protocol ++ ("://".toList ++ (ip ++ ':' :: Nat.toDigits 10 port))) =
      .ok ⟨protocol, ip, port⟩ := by
  have hcolon : ':' ∉ Nat.toDigits 10 port := fun hx => absurd (isdigit_toDigits port hx) (by decide)
  rw [Py.SocketAddress.fromString, findStr_append_sep hp]
  dsimp only
  rw [drop_sep, splitMax_colon hip hcolon, List.take_left]
  dsimp only
  rw [toInt_toDigits]
  rfl

theorem fromString_portless (hp : findStr "://".toList protocol = none) (hip : ':' ∉ ip) :
    Py.SocketAddress.fromString (protocol ++ ("://".toList ++ ip)) = .ok ⟨protocol, ip, 0⟩ := by
  rw [Py.SocketAddress.fromString, findStr_append_sep hp]
  dsimp only
  rw [drop_sep, Py.splitMax, List.splitOn_eq_singleton hip, List.take_left]
  rfl

end

/-! ### Round trips -/

theorem address_eq (protocol ip : Str) (port : Nat) : Address.address ⟨protocol, ip, port⟩ =
    protocol ++ ("://".toList ++ (ip ++ ':' :: Nat.toDigits 10 port)) := by
  simp [Address.address]

theorem str_eq (protocol ip : Str) (port : Nat) : Py.SocketAddress.str ⟨protocol, ip, port⟩ =
    if port = 0 then protocol ++ ("://".toList ++ ip)
    else protocol ++ ("://".toList ++ (ip ++ ':' :: Nat.toDigits 10 port)) := by
  rcases Nat.eq_zero_or_pos port with rfl | hpos
  · simp [Py.SocketAddress.str]
  · simp [Py.SocketAddress.str, hpos, hpos.ne']

theorem parse_address {protocol ip : Str} {port : Nat} (hp : findStr "://".toList protocol = none) (hip : ':' ∉ ip)
    (hport : port ≤ 65535) : Address.parse (Address.address ⟨protocol, ip, port⟩) = ⟨protocol, ip, port⟩ := by
  rw [address_eq, parse_port hp hip, strtol_toDigits hport]
  congr 1
  omega

/-- What `parse` returns can be written: the parts are cut at the first separators. -/
theorem parse_wellFormed (s : Str) : findStr "://".toList (Address.parse s).protocol = none ∧
    ':' ∉ (Address.parse s).ip ∧ (Address.parse s).port ≤ 65535 := by
  have hip : ∀ {rest : Str} {n : Nat}, findStr ":".toList rest = some n → ':' ∉ rest.take n := by
    intro rest n hn
    exact findStr_colon_eq_none_iff.1 (findStr_take (by simp) hn)
  have hport : ∀ x : Int, (x % 2 ^ 16).toNat ≤ 65535 := by
    intro x
    omega
  unfold Address.parse
  cases hs : findStr "://".toList s with
  | none =>
    have htcp : findStr "://".toList "tcp".toList = none := by decide
    dsimp only
    split
    · next n hn => exact ⟨htcp, hip hn, hport _⟩
    · next hn => exact ⟨htcp, findStr_colon_eq_none_iff.1 hn, Nat.zero_le _⟩
  | some i =>
    have hp : findStr "://".toList (s.take i) = none := findStr_take (by simp) hs
    dsimp only
    split
    · next n hn => exact ⟨hp, hip hn, hport _⟩
    · next hn => exact ⟨hp, findStr_colon_eq_none_iff.1 hn, Nat.zero_le _⟩

/-- Four writers and readers, every protocol without a `://`, every ip without a `:` and every port; and reading
is reading what the first reader wrote, for every text. -/
theorem address_text_round_trip :
    (∀ (protocol ip : Str) (port : Nat), ¬ "://".toList <:+: protocol → ':' ∉ ip → port ≤ 65535 →
      Address.parse (Address.address ⟨protocol, ip, port⟩) = ⟨protocol, ip, port⟩ ∧
      Py.SocketAddress.fromString (Address.address ⟨protocol, ip, port⟩) = .ok ⟨protocol, ip, port⟩ ∧
      Py.SocketAddress.fromString (Py.SocketAddress.str ⟨protocol, ip, port⟩) = .ok ⟨protocol, ip, port⟩ ∧
      Address.parse (Py.SocketAddress.str ⟨protocol, ip, port⟩) = ⟨protocol, ip, port⟩) ∧
    ∀ s : Str, Address.parse (Address.parse s).address = Address.parse s := by
  constructor
  · intro protocol ip port hprotocol hip hport
    have hp := findStr_eq_none_iff.2 hprotocol
    have hparse := parse_address hp hip hport
    refine ⟨hparse, ?_, ?_, ?_⟩
    · rw [address_eq, fromString_port hp hip]
    · rw [str_eq]
      split
      · next h => rw [fromString_portless hp hip, h]; rfl
      · rw [fromString_port hp hip]
    · rw [str_eq]
      split
      · next h => rw [parse_portless hp hip, h]
      · rw [← address_eq, hparse]
  · intro s
    obtain ⟨hp, hip, hport⟩ := parse_wellFormed s
    exact parse_address hp hip hport

theorem address_text_round_trip_inproc :
    Address.parse (Address.address ⟨"inproc".toList, "process".toList, 45⟩) = ⟨"inproc".toList, "process".toList, 45⟩ ∧
      Address.parse (Py.SocketAddress.str ⟨"inproc".toList, "process".toList, 0⟩) =
        ⟨"inproc".toList, "process".toList, 0⟩ :=
  ⟨(address_text_round_trip.1 _ _ 45 (by decide) (by decide) (by decide)).1,
    (address_text_round_trip.1 _ _ 0 (by decide) (by decide) (by decide)).2.2.2⟩

end A17.Dispatch
