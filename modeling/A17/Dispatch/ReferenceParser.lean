import A17.Dispatch.RoundTrip

/-!
# The reference parser

What a datagram means, said in terms of its text split at the spaces. `event` works in place, with cursors
into a buffer whose spaces it turns into NULs; it reads and writes nothing outside the datagram and its NUL, it
stops, and it does what the reference parser says (`event_eq_reference`).
-/

namespace A17.Dispatch
open CString

namespace Event

/-- The first token is to be the tag and the second the guid of a sender other than `myGuid`. -/
def reference (myGuid bytes : Str) : Event :=
  match bytes.splitOn ' ' with
  | tag :: guid :: command =>
    if tag = "DISPATCH".toList ∧ guid ≠ myGuid then ofCommand guid command else ignored
  | _ => ignored

theorem splitOn_dispatch (r : Str) : (DISPATCH ++ r).splitOn ' ' = "DISPATCH".toList :: r.splitOn ' ' := by
  have htag : ' ' ∉ "DISPATCH".toList := by decide
  exact splitOn_token_cons htag r

theorem dispatch_of_splitOn {bytes guid : Str} {command : List Str}
    (h : bytes.splitOn ' ' = "DISPATCH".toList :: guid :: command) : DISPATCH <+: bytes := by
  have hbytes : [' '].intercalate (bytes.splitOn ' ') = bytes := List.intercalate_splitOn ' '
  rw [← hbytes, h, List.intercalate_cons_cons]
  exact ⟨[' '].intercalate (guid :: command), rfl⟩

theorem decode_eq_reference {myGuid bytes : Str} (h : ∀ c ∈ bytes, isprint c = true) :
    decode myGuid bytes = reference (cString myGuid) bytes := by
  rw [decode, reference]
  by_cases htag : DISPATCH <+: bytes
  · obtain ⟨r, rfl⟩ := htag
    have hall : (DISPATCH ++ r).all isprint = true := List.all_eq_true.2 h
    have htoks := sender_cons_command (DISPATCH ++ r)
    rw [List.drop_left] at htoks
    rw [splitOn_dispatch, ← htoks]
    simp [hall]
  · rw [if_neg (by tauto)]
    split
    · next tag guid command heq =>
      rw [if_neg]
      rintro ⟨rfl, -⟩
      exact htag (dispatch_of_splitOn heq)
    · rfl

end Event

/-- A datagram that fits the receive buffer: `event` stays in it, stops, and does what the reference parser
says. -/
theorem Directory.event_eq_reference (d : Directory) (now : Int) (bytes : Str)
    (hl : bytes.length ≤ EVENT_BUFFER_SIZE) (hprint : ∀ c ∈ bytes, isprint c = true) :
    d.event now bytes = .ok (d.handle now (.reference (cString d.myGuid) bytes)) := by
  rw [d.event_eq now hl, Event.decode_eq_reference hprint]

theorem Directory.event_eq_reference_search :
    let d : Directory := .new "me".toList ⟨0, 0⟩
    let bytes : Str := "DISPATCH peer S  * t ".toList
    Event.reference (cString d.myGuid) bytes = .search "peer".toList ["*".toList, "t".toList] ∧
      d.event 0 bytes = .ok (d.handle 0 (.reference (cString d.myGuid) bytes)) :=
  ⟨by decide, event_eq_reference _ 0 _ (by decide) (by decide)⟩

end A17.Dispatch
