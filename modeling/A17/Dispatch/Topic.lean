import A17.Lib.CString
import Std.Data.ExtTreeSet

/-!
# Topics and socket types

`directory_topic.h`, `socket_types.cpp` and the constants of `directory.h`. A `std::string` is a
`Str`, a `std::set<std::string>` an `ExtTreeSet Str` (iterated in key order), a ZeroMQ socket type
number one of the twelve constructors of `SocketType`.
-/

open Std

namespace A17.Dispatch
open CString

def DISCOVERY_EXIT : Char := 'X'
def DISCOVERY_AVAILABLE : Char := 'A'
def DISCOVERY_REMOVE : Char := 'R'
def DISCOVERY_SEARCH : Char := 'S'
def EVENT_BUFFER_SIZE : Nat := 1500

/-- The tag every datagram starts with, its trailing space included. -/
def DISPATCH : Str := "DISPATCH ".toList

def NO_TYPES : Str := ".".toList
def SEP : Char := '|'

inductive SocketType where
  | pair | pub | sub | req | rep | dealer | router | pull | push | xpub | xsub | stream
deriving DecidableEq, Repr

namespace SocketType

def all : List SocketType :=
  [pair, pub, sub, req, rep, dealer, router, pull, push, xpub, xsub, stream]

def fromType : SocketType → Str
  | pair => "PAIR".toList
  | pub => "PUB".toList
  | sub => "SUB".toList
  | req => "REQ".toList
  | rep => "REP".toList
  | dealer => "DEALER".toList
  | router => "ROUTER".toList
  | pull => "PULL".toList
  | push => "PUSH".toList
  | xpub => "XPUB".toList
  | xsub => "XSUB".toList
  | stream => "STREAM".toList

/-- `SocketTypes::fromName`; `none` is the code's `-1`. -/
def fromName (name : Str) : Option SocketType := all.find? fun t => t.fromType = name

theorem fromName_fromType (t : SocketType) : fromName t.fromType = some t := by
  cases t <;> rfl

end SocketType

abbrev TypeSet := ExtTreeSet Str

structure DirectoryTopic where
  name : Str
  timestamp : Int
  socketType : SocketType
  address : Str
  inputTypes : TypeSet
  outputTypes : TypeSet
  guid : Str
  info : Str
deriving DecidableEq

/-! ### Tokens -/

def isprint (c : Char) : Bool := 0x20 ≤ c.toNat && c.toNat ≤ 0x7e

structure Token (s : Str) : Prop where
  ne_nil : s ≠ []
  print : ∀ c ∈ s, isprint c = true
  space : ' ' ∉ s

instance (s : Str) : Decidable (Token s) :=
  decidable_of_iff (s ≠ [] ∧ (∀ c ∈ s, isprint c = true) ∧ ' ' ∉ s)
    ⟨fun ⟨h1, h2, h3⟩ => ⟨h1, h2, h3⟩, fun h => ⟨h.ne_nil, h.print, h.space⟩⟩

theorem NUL_not_isprint : isprint NUL = false := rfl

theorem NUL_notMem_of_isprint {s : Str} (h : ∀ c ∈ s, isprint c = true) : NUL ∉ s := by
  intro h0
  have := h NUL h0
  rw [NUL_not_isprint] at this; cases this

theorem Token.nul {s : Str} (h : Token s) : NUL ∉ s := NUL_notMem_of_isprint h.print

theorem SocketType.token_fromType (t : SocketType) : Token t.fromType := by
  constructor <;> cases t <;> decide

end A17.Dispatch
