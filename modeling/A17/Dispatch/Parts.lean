import A17.Dispatch.SmartReader

/-!
# The parts of a message on the wire

`Socket::send` puts a message on the wire part by part, every part but the last one announcing another. So a stream of
parts is read in one way only: what has been taken from it since the last message ended, and the part that ends the
next one, are that message (`parts_split`).
-/

namespace A17.Dispatch
namespace Socket

/-- What `send` puts on the wire if nothing goes wrong. -/
def parts (message : MessageVector) : List Part := (send message fun _ => none).1

/-- `frames`, another part following each of them. -/
def opened (frames : MessageVector) : List Part := frames.map (⟨·, true⟩)

theorem opened_concat (frames : MessageVector) (frame : Frame) :
    opened (frames ++ [frame]) = opened frames ++ [⟨frame, true⟩] := by simp [opened]

theorem sendParts_eq (i : Nat) (frames : MessageVector) (last : Frame) :
    (sendParts (fun _ => none) i (frames ++ [last])).1 = opened frames ++ [⟨last, false⟩] := by
  induction frames generalizing i with
  | nil => rfl
  | cons frame frames ih =>
    have hmore : (frames ++ [last]).isEmpty = false := by simp
    simp only [List.cons_append, sendParts, ih, hmore]
    rfl

/-- An empty message is one empty frame. -/
theorem parts_eq (message : MessageVector) :
    ∃ frames last, parts message = opened frames ++ [⟨last, false⟩] ∧
      nonEmpty (frames ++ [last]) = nonEmpty message := by
  cases message using List.reverseRecOn with
  | nil => exact ⟨[], [], rfl, rfl⟩
  | append_singleton frames last =>
    refine ⟨frames, last, ?_, rfl⟩
    rw [parts, send, if_neg (by simp)]
    exact sendParts_eq 0 frames last

theorem opened_split {frames frames' : MessageVector} {last last' : Frame} {rest rest' : List Part}
    (h : opened frames ++ ⟨last, false⟩ :: rest = opened frames' ++ ⟨last', false⟩ :: rest') :
    frames = frames' ∧ last = last' ∧ rest = rest' := by
  induction frames generalizing frames' with
  | nil =>
    cases frames' with
    | nil => simpa [opened] using h
    | cons frame' frames' => simp [opened] at h
  | cons frame frames ih =>
    cases frames' with
    | nil => simp [opened] at h
    | cons frame' frames' =>
      simp only [opened, List.map_cons, List.cons_append, List.cons.injEq, Part.mk.injEq, and_true] at h
      obtain ⟨rfl, h⟩ := h
      obtain ⟨rfl, rfl, rfl⟩ := ih h
      exact ⟨rfl, rfl, rfl⟩

/-- The part that ends a message, after `frames`. -/
theorem parts_split {message frames : MessageVector} {last : Frame} {rest rest' : List Part}
    (h : parts message ++ rest = opened frames ++ ⟨last, false⟩ :: rest') :
    nonEmpty (frames ++ [last]) = nonEmpty message ∧ rest = rest' := by
  obtain ⟨frames', last', heq, hne⟩ := parts_eq message
  rw [heq, List.append_assoc, List.singleton_append] at h
  obtain ⟨rfl, rfl, rfl⟩ := opened_split h
  exact ⟨hne, rfl⟩

end Socket
end A17.Dispatch
