import A17.Dispatch.Topic
import Mathlib.Data.Nat.Digits.Defs

/-!
# Addresses

`address.cpp`: splitting `protocol://ip:port`, and the network test `OwnAddress::onNetwork`. The
library calls `inet_aton`, `inet_addr` and `strtol` are written out from their documentation; an
IPv4 address is a `BitVec 32` (the byte order plays no part).
-/

namespace A17.Dispatch
open CString

/-! ### Library calls -/

def isdigit (c : Char) : Bool := '0' ≤ c && c ≤ '9'

def isspace (c : Char) : Bool := c = ' ' || ('\x09' ≤ c && c ≤ '\x0d')

theorem isspace_of_isdigit {x : Char} (h : isdigit x = true) : isspace x = false := by
  simp only [isdigit, Bool.and_eq_true, decide_eq_true_eq, Char.le_def, UInt32.le_iff_toNat_le] at h
  have hsp : x ≠ ' ' := by rintro rfl; exact absurd h.1 (by decide)
  simp only [isspace, hsp, decide_false, Bool.false_or, Bool.and_eq_false_iff, decide_eq_false_iff_not,
    Char.le_def, UInt32.le_iff_toNat_le]
  right
  have h0 : ('0' : Char).val.toNat = 48 := rfl
  have h1 : ('\x0d' : Char).val.toNat = 13 := rfl
  omega

def digitValue (c : Char) : Option Nat :=
  if isdigit c then some (c.toNat - '0'.toNat)
  else if 'a' ≤ c && c ≤ 'f' then some (c.toNat - 'a'.toNat + 10)
  else if 'A' ≤ c && c ≤ 'F' then some (c.toNat - 'A'.toNat + 10)
  else none

def parseDigits (base : Nat) (s : Str) : Option Nat :=
  match s with
  | [] => none
  | _ => (s.mapM fun c => (digitValue c).filter (· < base)).map (·.foldl (fun n d => n * base + d) 0)

/-- A number in C notation: decimal, octal after `0`, hexadecimal after `0x`. -/
def cNumber (s : Str) : Option Nat :=
  match s with
  | '0' :: 'x' :: hex => parseDigits 16 hex
  | '0' :: 'X' :: hex => parseDigits 16 hex
  | '0' :: c :: oct => parseDigits 8 (c :: oct)
  | _ => parseDigits 10 s

/-- `inet_aton`: one to four numbers separated by dots, the last one filling the remaining bytes;
what follows a white space is ignored. -/
def inetAton (cp : Str) : Option (BitVec 32) :=
  match ((cp.takeWhile fun c => !isspace c).splitOn '.').mapM cNumber with
  | some [a] => if a < 2 ^ 32 then some (BitVec.ofNat 32 a) else none
  | some [a, b] =>
    if a < 2 ^ 8 ∧ b < 2 ^ 24 then some (BitVec.ofNat 32 (a * 2 ^ 24 + b)) else none
  | some [a, b, c] =>
    if a < 2 ^ 8 ∧ b < 2 ^ 8 ∧ c < 2 ^ 16 then
      some (BitVec.ofNat 32 (a * 2 ^ 24 + b * 2 ^ 16 + c)) else none
  | some [a, b, c, d] =>
    if a < 2 ^ 8 ∧ b < 2 ^ 8 ∧ c < 2 ^ 8 ∧ d < 2 ^ 8 then
      some (BitVec.ofNat 32 (a * 2 ^ 24 + b * 2 ^ 16 + c * 2 ^ 8 + d)) else none
  | _ => none

def inetAddr (cp : Str) : BitVec 32 := (inetAton cp).getD (BitVec.allOnes 32)

/-- `strtol(s, nullptr, 10)`, clamped to `long`. -/
def strtol (s : Str) : Int :=
  let s := s.dropWhile isspace
  let (neg, s) := match s with
    | '-' :: s => (true, s)
    | '+' :: s => (false, s)
    | s => (false, s)
  let n : Int := (s.takeWhile isdigit).foldl (fun n c => n * 10 + (c.toNat - '0'.toNat : Nat)) 0
  max (-2 ^ 63) (min (2 ^ 63 - 1) (if neg then -n else n))

def findStr (pattern : Str) : Str → Option Nat
  | [] => if pattern.isPrefixOf [] then some 0 else none
  | c :: s => if pattern.isPrefixOf (c :: s) then some 0 else (findStr pattern s).map (· + 1)

/-! ### `Address` and `OwnAddress` -/

structure Address where
  protocol : Str
  ip : Str
  port : Nat
deriving DecidableEq

def Address.parse (address : Str) : Address :=
  let (protocol, pos) := match findStr "://".toList address with
    | some urlPos => (address.take urlPos, urlPos + 3)
    | none => ("tcp".toList, 0)
  match findStr ":".toList (address.drop pos) with
  | some n => ⟨protocol, (address.drop pos).take n, (strtol (address.drop (pos + n + 1)) % 2 ^ 16).toNat⟩
  | none => ⟨protocol, address.drop pos, 0⟩

/-- The process's interface: its network and netmask. -/
structure OwnAddress where
  network : BitVec 32
  mask : BitVec 32
deriving DecidableEq

def OwnAddress.onNetwork (own : OwnAddress) (address : Str) : Bool :=
  inetAddr address &&& own.mask = own.network

end A17.Dispatch
