import Mathlib.Data.List.Basic
import Mathlib.Data.List.TakeWhile

/-!
# C strings in a character buffer

A buffer is a list of characters; a pointer into it is an index. Reading, writing and copying a
NUL-terminated string out of it fail with `Fault.outOfBounds` when they leave the buffer, so that
"stays in bounds" is "does not fail". `text sep toks` is the stretch of a buffer that holds the
tokens `toks` separated by `sep` up to the closing NUL: what a tokeniser that has reached the first
of them still has in front of it.
-/

abbrev Str := List Char

-- by the characters of the string, not by all there are
instance (priority := 2000) (s : Str) (p : Char → Prop) [DecidablePred p] : Decidable (∀ c ∈ s, p c) :=
  List.decidableBAll p s

namespace CString

inductive Fault where
  | outOfBounds (index : Nat)
  | outOfFuel
deriving DecidableEq, Repr

def NUL : Char := '\x00'

/-- What C sees of a string: the characters before its first NUL. -/
def cString (s : Str) : Str := s.takeWhile (· ≠ NUL)

def read (buf : Str) (i : Nat) : Except Fault Char :=
  match buf[i]? with
  | some c => .ok c
  | none => .error (.outOfBounds i)

def write (buf : Str) (i : Nat) (c : Char) : Except Fault Str :=
  if i < buf.length then .ok (buf.set i c) else .error (.outOfBounds i)

def cstrFrom (i : Nat) : Str → Except Fault Str
  | [] => .error (.outOfBounds i)
  | c :: buf => if c = NUL then .ok [] else (cstrFrom (i + 1) buf).map (c :: ·)

def cstr (buf : Str) (i : Nat) : Except Fault Str := cstrFrom i (buf.drop i)

/-- `strncmp(&buf[i], s, strlen(s)) != 0`. -/
def strncmp (buf : Str) (i : Nat) : Str → Except Fault Bool
  | [] => .ok false
  | t :: ts =>
    match read buf i with
    | .error e => .error e
    | .ok c => if c = t then strncmp buf (i + 1) ts else .ok true

theorem cString_eq_self {s : Str} (h : NUL ∉ s) : cString s = s := by
  refine List.takeWhile_eq_self_iff.2 fun c hc => ?_
  have : c ≠ NUL := fun h0 => h (h0 ▸ hc)
  simpa using this

@[simp] theorem read_append (pre post : Str) (c : Char) : read (pre ++ c :: post) pre.length = .ok c := by
  simp [read]

@[simp] theorem write_append (pre post : Str) (c x : Char) :
    write (pre ++ c :: post) pre.length x = .ok (pre ++ x :: post) := by
  simp [write]

theorem read_append_of_eq {pre post : Str} {c : Char} {i : Nat} (h : i = pre.length) :
    read (pre ++ c :: post) i = .ok c := by
  rw [h, read_append]

theorem cstrFrom_append (i : Nat) {tok : Str} (post : Str) (h : NUL ∉ tok) :
    cstrFrom i (tok ++ NUL :: post) = .ok tok := by
  induction tok generalizing i with
  | nil => simp [cstrFrom]
  | cons c tok ih =>
    simp only [List.mem_cons, not_or] at h
    simp [cstrFrom, Ne.symm h.1, ih (i + 1) h.2, Except.map]

theorem cstr_append (pre : Str) {tok : Str} (post : Str) (h : NUL ∉ tok) :
    cstr (pre ++ (tok ++ NUL :: post)) pre.length = .ok tok := by
  rw [cstr, List.drop_left, cstrFrom_append _ _ h]

/-- Comparing with a NUL-free tag never reads past the terminator. -/
theorem strncmp_append (pre : Str) {t s : Str} (htag : NUL ∉ t) :
    strncmp (pre ++ (s ++ [NUL])) pre.length t = .ok (!decide (t <+: s)) := by
  induction t generalizing pre s with
  | nil => simp [strncmp]
  | cons t tag ih =>
    simp only [List.mem_cons, not_or] at htag
    cases s with
    | nil => simp [strncmp, htag.1]
    | cons c s =>
      simp only [strncmp, List.cons_append, read_append]
      by_cases hc : c = t
      · subst hc
        have := ih (pre ++ [c]) (s := s) htag.2
        simp only [List.append_assoc, List.cons_append, List.nil_append, List.length_append,
          List.length_cons, List.length_nil, Nat.zero_add] at this
        simp [this, List.cons_prefix_cons]
      · simp [hc, List.cons_prefix_cons, Ne.symm hc]

/-! ### Tokens still in front of a tokeniser -/

/-- The separated tokens `toks` after some token, up to the closing NUL. -/
def tailText (sep : Char) : List Str → Str
  | [] => [NUL]
  | t :: ts => sep :: (t ++ tailText sep ts)

def text (sep : Char) : List Str → Str
  | [] => [NUL]
  | t :: ts => t ++ tailText sep ts

@[simp] theorem text_nil (sep : Char) : text sep [] = [NUL] := rfl
@[simp] theorem text_cons (sep : Char) (t : Str) (ts : List Str) : text sep (t :: ts) = t ++ tailText sep ts := rfl
@[simp] theorem tailText_nil (sep : Char) : tailText sep [] = [NUL] := rfl
@[simp] theorem tailText_cons (sep : Char) (t : Str) (ts : List Str) :
    tailText sep (t :: ts) = sep :: text sep (t :: ts) := rfl

theorem text_eq_intercalate (sep : Char) {toks : List Str} (h : toks ≠ []) :
    text sep toks = [sep].intercalate toks ++ [NUL] := by
  induction toks with
  | nil => exact absurd rfl h
  | cons t ts ih =>
    cases ts with
    | nil => simp
    | cons t' ts => simp [List.intercalate_cons_cons, ← ih]

theorem text_splitOn (sep : Char) (s : Str) : text sep (s.splitOn sep) = s ++ [NUL] := by
  rw [text_eq_intercalate sep (List.splitOn_ne_nil sep s), List.intercalate_splitOn]

theorem notMem_of_mem_splitOn {sep : Char} {s t : Str} (h : t ∈ s.splitOn sep) : sep ∉ t := by
  induction s generalizing t with
  | nil => simp_all
  | cons c s ih =>
    rw [List.splitOn_cons_eq_if_modifyHead] at h
    obtain ⟨u, us, hu⟩ := List.exists_cons_of_ne_nil (List.splitOn_ne_nil sep s)
    rw [hu] at h ih
    split at h
    · rcases List.mem_cons.1 h with rfl | h
      · simp
      · exact ih h
    · next hc =>
      rw [List.modifyHead_cons] at h
      rcases List.mem_cons.1 h with rfl | h
      · have hcs : ¬ sep = c := fun heq => hc (by simp [heq])
        simpa [hcs] using ih (List.mem_cons_self ..)
      · exact ih (List.mem_cons_of_mem _ h)

theorem mem_intercalate {sep c : Char} {ls : List Str} (h : c ∈ [sep].intercalate ls) :
    c = sep ∨ ∃ t ∈ ls, c ∈ t := by
  induction ls with
  | nil => simp at h
  | cons t ts ih =>
    cases ts with
    | nil => exact .inr ⟨t, by simp, by simpa using h⟩
    | cons u us =>
      rw [List.intercalate_cons_cons, List.append_assoc, List.mem_append, List.mem_append] at h
      rcases h with h | h | h
      · exact .inr ⟨t, by simp, h⟩
      · exact .inl (List.mem_singleton.1 h)
      · rcases ih h with h | ⟨v, hv, hc⟩
        · exact .inl h
        · exact .inr ⟨v, List.mem_cons_of_mem _ hv, hc⟩

theorem mem_of_mem_splitOn {sep c : Char} {s t : Str} (h : t ∈ s.splitOn sep) (hc : c ∈ t) : c ∈ s := by
  have hj : c ∈ [sep].intercalate (s.splitOn sep) := by
    generalize s.splitOn sep = ls at h
    induction ls with
    | nil => cases h
    | cons u us ih =>
      cases us with
      | nil => rw [List.mem_singleton] at h; subst h; simpa using hc
      | cons u' us =>
        rw [List.intercalate_cons_cons]
        rcases List.mem_cons.1 h with rfl | h
        · simp [hc]
        · simp [ih h]
  rwa [List.intercalate_splitOn] at hj

end CString
