import A17.Dispatch.Address
import A17.Dispatch.Py.TopicMap

/-!
# `Directory` of `dispatch.py`

The receiving half: `onReceive` and the four handlers, `SocketAddress.from_string` and
`InterfaceInfo.on_network`. A method returns the exception it raises, if any, with the directory after
it. What is put on the io loop (sends, `query_poll`) is recorded in `callbacks`. Logging is left out.
-/

open Std

namespace A17.Dispatch.Py

/-! ### Built-in functions -/

def splitMax (sep : Char) (maxsplit : Nat) (s : Str) : List Str :=
  let parts := s.splitOn sep
  if parts.length ≤ maxsplit + 1 then parts
  else parts.take maxsplit ++ [[sep].intercalate (parts.drop maxsplit)]

def words (s : Str) : List Str := (s.splitOnP isspace).filter (· ≠ [])

/-- `int(s)`: decimal digits, with single underscores between them, after an optional sign, and white
space around it. -/
def toInt (s : Str) : Except Exc Int :=
  let t := ((s.dropWhile isspace).reverse.dropWhile isspace).reverse
  let (neg, t) := match t with
    | '-' :: t => (true, t)
    | '+' :: t => (false, t)
    | t => (false, t)
  let groups := t.splitOn '_'
  if groups.all fun g => !g.isEmpty && g.all isdigit then
    let n : Int := groups.flatten.foldl (fun n c => n * 10 + (c.toNat - '0'.toNat : Nat)) 0
    .ok (if neg then -n else n)
  else .error (.valueError ("invalid literal for int() with base 10: ".toList ++ s))

/-! ### Addresses -/

structure SocketAddress where
  protocol : Str
  ip : Str
  port : Int
deriving DecidableEq

def SocketAddress.fromString (addressStr : Str) : Except Exc SocketAddress :=
  let (protocol, ip) := match findStr "://".toList addressStr with
    | some i => (addressStr.take i, addressStr.drop (i + 3))
    | none => ("tcp".toList, addressStr)
  match splitMax ':' 1 ip with
  | [ip, port] => (toInt port).map fun port => ⟨protocol, ip, port⟩
  | _ => .ok ⟨protocol, ip, 0⟩

def onNetwork (own : OwnAddress) (address : Str) : Except Exc Bool :=
  match inetAton address with
  | some addr => .ok (addr &&& own.mask = own.network)
  | none => .error (.osError "illegal IP address string passed to inet_aton".toList)

/-! ### The directory -/

inductive Callback where
  | send (line : Str)
  | poll
deriving DecidableEq

structure Directory where
  myGuid : Str
  interfaceInfo : OwnAddress
  topics : TopicMap
  callbacks : List Callback := []
  invoked : List Call := []

namespace Directory

def new (myGuid : Str) (interfaceInfo : OwnAddress) : Directory :=
  { myGuid, interfaceInfo, topics := .new myGuid }

def socketTypeStrings : List SocketType := [.pub, .sub, .req, .rep, .router]

def socketTypeValues (name : Str) : Option SocketType := socketTypeStrings.find? fun t => t.fromType = name

def stored (d : Directory) (r : TopicMap × List Call) : Directory :=
  { d with topics := r.1, invoked := d.invoked ++ r.2 }

def send (d : Directory) (command : Str) (args : Str) : Directory :=
  let line := "DISPATCH ".toList ++ d.myGuid ++ [' '] ++ command
  { d with callbacks := d.callbacks ++ [.send (if args = [] then line else line ++ ' ' :: args)] }

def queryPoll (d : Directory) : Directory := { d with callbacks := d.callbacks ++ [.poll] }

def typeString : Option Str → Str
  | some (c :: cs) => c :: cs
  | _ => ".".toList

/-- `build_broadcast_string`; raises for a socket type that has no name here. -/
def buildBroadcastString (topic : Topic) : Except Exc Str :=
  if topic.socketType ∈ socketTypeStrings then
    .ok (topic.name ++ [' '] ++ topic.socketType.fromType ++ [' '] ++ topic.address ++ [' '] ++
      typeString topic.inputType ++ [' '] ++ typeString topic.outputType)
  else .error (.keyError topic.socketType.fromType)

/-- `Directory.add`. The log line looks up the socket type too. -/
def add (d : Directory) (topic : Topic) : Option Exc × Directory :=
  let r := d.topics.add topic
  let d := d.stored r.2
  match r.1 with
  | .error e => (some e, d)
  | .ok own =>
    match buildBroadcastString topic with
    | .error e => (some e, d)
    | .ok line => (none, if own then d.send "A".toList line else d)

def discoveryExiting (d : Directory) (guid : Str) : Directory := (d.stored (d.topics.removeAll guid)).queryPoll

def discoveryAvailable (d : Directory) (now : Int) (guid args : Str) : Option Exc × Directory :=
  match args.splitOn ' ' with
  | name :: socketType :: addr :: ins :: outs :: _ =>
    match SocketAddress.fromString addr with
    | .error e => (some e, d)
    | .ok address =>
      match onNetwork d.interfaceInfo address.ip with
      | .error e => (some e, d)
      | .ok false => (none, d)
      | .ok true =>
        match socketTypeValues socketType with
        | none => (some (.keyError socketType), d)
        | some socketType =>
          d.add {
            name, socketType, address := addr, guid, timestamp := now
            inputType := if ins = ".".toList then none else some ins
            outputType := if outs = ".".toList then none else some outs }
  | _ => (none, d)

def discoveryRemove (d : Directory) (guid name : Str) : Directory :=
  (d.stored (d.topics.remove guid name).2).queryPoll

/-- `discovery_search`, stopping at the first exception. -/
def discoverySearch (d : Directory) (namestr : Str) : Option Exc × Directory :=
  (words namestr).foldl (fun acc name =>
    match acc.1, d.topics.localTopics[name]? with
    | none, some topic =>
      match buildBroadcastString topic with
      | .error e => (some e, acc.2)
      | .ok line => (none, acc.2.send "A".toList line)
    | _, _ => acc) (none, d)

/-- `onReceive` of a line that decodes as UTF-8. -/
def onReceive (d : Directory) (now : Int) (line : Str) : Option Exc × Directory :=
  match splitMax ' ' 3 line with
  | tag :: guid :: event :: rest =>
    if tag ≠ "DISPATCH".toList then (none, d)
    else if guid = d.myGuid then (none, d)
    else if event = "X".toList then (none, d.discoveryExiting guid)
    else
      match rest with
      | args :: _ =>
        if event = "A".toList then d.discoveryAvailable now guid args
        else if event = "R".toList then (none, d.discoveryRemove guid args)
        else if event = "S".toList then d.discoverySearch args
        else (none, d)
      | [] => (none, d)
  | _ => (none, d)

end Directory
end A17.Dispatch.Py
