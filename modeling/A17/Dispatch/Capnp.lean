import A17.Lib.Bytes
import A17.Utils.BufferPool

/-!
# Cap'n Proto messages

`SmartCapnpBuilder::build` writes the segments of a message behind a table of their sizes, into a
buffer of the pool or into a message of its own; `SmartCapnpReader` copies the bytes it receives into
an array of words, and leaves the framing to the library. The framing itself is `readFraming`, as
strict as it can be.

The segments and the array that lists them are in memory, so that no size below reaches 2^64.
-/

namespace A17.Dispatch
open Utils

abbrev Word := UInt64

abbrev Segment := List Word

def asBytes (words : List Word) : List UInt8 := Bytes.table 8 (words.map UInt64.toNat)

namespace SmartCapnpBuilder

/-- `table[i] = value`, for the table of 32-bit numbers at the start of the message. -/
def setTable (message : ByteBuffer) (i value : Nat) : Option ByteBuffer :=
  message.store (4 * i) (Bytes.ofNat 4 value)

def writeSizes : Nat → List Segment → ByteBuffer → Option ByteBuffer
  | _, [], message => some message
  | i, segment :: segments, message => do
    let message ← setTable message ((i + 1) % 2 ^ 32) segment.length
    writeSizes (i + 1) segments message

def writePadding (segments : List Segment) (message : ByteBuffer) : Option ByteBuffer :=
  if segments.length % 2 = 0 then setTable message (segments.length + 1) 0 else some message

def copySegments : Nat → List Segment → ByteBuffer → Option ByteBuffer
  | _, [], message => some message
  | dst, segment :: segments, message => do
    let message ← message.store (8 * dst) (asBytes segment)
    copySegments (dst + segment.length) segments message

/-- `none` if it writes outside the message, or does not return. -/
def buildSmartMessage (segments : List Segment) (message : ByteBuffer) : Option ByteBuffer :=
  -- a `uint` never gets to 2^32, so the loop over the sizes would not end
  if 2 ^ 32 ≤ segments.length then none
  else do
    let message ← setTable message 0 ((segments.length + 2 ^ 64 - 1) % 2 ^ 64)
    let message ← writeSizes 0 segments message
    let message ← writePadding segments message
    copySegments (segments.length / 2 + 1) segments message

def bufferAt (mem : Memory) (ptr size : Nat) : ByteBuffer := { bytes := (List.range size).map fun i => mem (ptr + i) }

/-- The message and the pool after it. `os` is what the pool gets from `::malloc` if it asks, `data` where
a message of its own has its bytes. -/
def build (computeSerializedSizeInWords : List Segment → Nat) (segments : List Segment)
    (pool : Option BufferPool) (mem : Memory) (os data : Nat) : Option ByteBuffer × Option BufferPool :=
  let messageSize := computeSerializedSizeInWords segments * 8
  match pool with
  | none => (buildSmartMessage segments (bufferAt mem data messageSize), none)
  | some pool =>
    if messageSize ≤ pool.bufferSize then
      let (buf, pool) := pool.malloc os
      if buf ≠ 0 then (buildSmartMessage segments (bufferAt mem buf messageSize), some pool)
      else (buildSmartMessage segments (bufferAt mem data messageSize), some pool)
    else (buildSmartMessage segments (bufferAt mem data messageSize), some pool)

end SmartCapnpBuilder

def SmartCapnpReader.capnpBufferFromAzmqMessage (message : List UInt8) : List Word :=
  (Bytes.readTable 8 (message.length / 8) message).map UInt64.ofNat

/-! ## The framing -/

def splitSegments : List Nat → List Word → Option (List Segment)
  | [], words => if words = [] then some [] else none
  | size :: sizes, words =>
    if words.length < size then none
    else (splitSegments sizes (words.drop size)).map (words.take size :: ·)

/-- The stream framing: the number of segments minus one and the sizes of the segments, 32 bits each,
zeros up to a whole number of words, and the segments. -/
def readFraming (words : List Word) : Option (List Segment) :=
  match Bytes.readTable 4 (2 * words.length) (asBytes words) with
  | [] => none
  | count :: sizes =>
    let n := count + 1
    if words.length < n / 2 + 1 then none
    else if n % 2 = 0 ∧ sizes[n]? ≠ some 0 then none
    else splitSegments (sizes.take n) (words.drop (n / 2 + 1))

def framingTable (segments : List Segment) : List Nat :=
  (segments.length - 1) :: segments.map List.length ++ if segments.length % 2 = 0 then [0] else []

def framing (segments : List Segment) : List UInt8 :=
  Bytes.table 4 (framingTable segments) ++ asBytes segments.flatten

variable {segments : List Segment}

theorem length_framingTable (h : segments ≠ []) : (framingTable segments).length = 2 * (segments.length / 2 + 1) := by
  have := List.length_pos_iff.2 h
  unfold framingTable
  split <;> simp <;> omega

theorem framingTable_lt (hn : segments.length < 2 ^ 32) (hsize : ∀ segment ∈ segments, segment.length < 2 ^ 32) :
    ∀ x ∈ framingTable segments, x < 256 ^ 4 := by
  intro x hx
  simp only [framingTable, List.cons_append, List.mem_cons, List.mem_append, List.mem_map] at hx
  rcases hx with rfl | ⟨segment, hmem, rfl⟩ | hx
  · omega
  · exact hsize segment hmem
  · split at hx
    · rw [List.mem_singleton.1 hx]; decide
    · exact absurd hx List.not_mem_nil

@[simp] theorem length_asBytes (words : List Word) : (asBytes words).length = 8 * words.length := by simp [asBytes]

theorem asBytes_append (ws ws' : List Word) : asBytes (ws ++ ws') = asBytes ws ++ asBytes ws' := by
  rw [asBytes, List.map_append, Bytes.table_append]; rfl

theorem length_framing (h : segments ≠ []) :
    (framing segments).length = (segments.length / 2 + 1 + (segments.map List.length).sum) * 8 := by
  rw [framing, List.length_append, Bytes.length_table, length_framingTable h, length_asBytes, List.length_flatten]
  omega

/-! ## Writing -/

namespace SmartCapnpBuilder
open ByteBuffer
variable {size : Nat} {data : List UInt8} {message : ByteBuffer}

theorem writeSizes_packed (segments : List Segment) (i : Nat) (h : Packed size data message)
    (hi : data.length = 4 * (i + 1)) (hn : i + segments.length < 2 ^ 32)
    (hfit : data.length + 4 * segments.length ≤ size) :
    ∃ message', writeSizes i segments message = some message' ∧
      Packed size (data ++ Bytes.table 4 (segments.map List.length)) message' := by
  induction segments generalizing i data message with
  | nil => exact ⟨message, rfl, by simpa [Bytes.table] using h⟩
  | cons segment segments ih =>
    rw [List.length_cons] at hn hfit
    have hoff : 4 * ((i + 1) % 2 ^ 32) = data.length := by rw [Nat.mod_eq_of_lt (by omega), hi]
    obtain ⟨message₁, hstore, h₁⟩ := h.store (Bytes.ofNat 4 segment.length) (by simp; omega) hoff
    obtain ⟨message', hrest, h'⟩ := ih (i + 1) h₁ (by simp; omega) (by omega) (by simp; omega)
    refine ⟨message', ?_, ?_⟩
    · rw [writeSizes, setTable, hstore]
      exact hrest
    · rwa [List.append_assoc] at h'

theorem copySegments_packed (segments : List Segment) (dst : Nat) (h : Packed size data message)
    (hdst : data.length = 8 * dst) (hfit : data.length + 8 * segments.flatten.length ≤ size) :
    ∃ message', copySegments dst segments message = some message' ∧
      Packed size (data ++ asBytes segments.flatten) message' := by
  induction segments generalizing dst data message with
  | nil => exact ⟨message, rfl, by simpa [asBytes, Bytes.table] using h⟩
  | cons segment segments ih =>
    rw [List.flatten_cons, List.length_append] at hfit
    obtain ⟨message₁, hstore, h₁⟩ := h.store (asBytes segment) (by simp; omega) hdst.symm
    obtain ⟨message', hrest, h'⟩ := ih (dst + segment.length) h₁ (by simp; omega)
      (by rw [List.length_append, length_asBytes]; omega)
    refine ⟨message', ?_, ?_⟩
    · rw [copySegments, hstore]
      exact hrest
    · rwa [List.append_assoc, ← asBytes_append] at h'

theorem buildSmartMessage_packed (hne : segments ≠ []) (hn : segments.length < 2 ^ 32)
    (hlen : message.bytes.length = (framing segments).length) :
    ∃ message', buildSmartMessage segments message = some message' ∧
      Packed (framing segments).length (framing segments) message' := by
  have hpos := List.length_pos_iff.2 hne
  have hfit : (framing segments).length = 8 * (segments.length / 2 + 1) + 8 * segments.flatten.length := by
    rw [length_framing hne, List.length_flatten]; omega
  have hcount : (segments.length + 2 ^ 64 - 1) % 2 ^ 64 = segments.length - 1 := by omega
  have h₀ : Packed (framing segments).length [] message := ⟨hlen, rfl, by simp⟩
  have htable : Bytes.table 4 (framingTable segments) =
      Bytes.ofNat 4 (segments.length - 1) ++ Bytes.table 4 (segments.map List.length) ++
        if segments.length % 2 = 0 then Bytes.ofNat 4 0 else [] := by
    simp only [framingTable, Bytes.table_append]
    split <;> simp [Bytes.table]
  obtain ⟨message₁, hstore₁, h₁⟩ : ∃ message₁, setTable message 0 (segments.length - 1) = some message₁ ∧
      Packed (framing segments).length (Bytes.ofNat 4 (segments.length - 1)) message₁ :=
    h₀.store _ (by simp; omega) rfl
  obtain ⟨message₂, hstore₂, h₂⟩ := writeSizes_packed segments 0 h₁ (by simp) (by omega)
    (by simp; omega)
  obtain ⟨message₃, hstore₃, h₃⟩ : ∃ message₃, writePadding segments message₂ = some message₃ ∧
      Packed (framing segments).length (Bytes.table 4 (framingTable segments)) message₃ := by
    rw [htable, writePadding]
    split
    · exact h₂.store (Bytes.ofNat 4 0) (by simp; omega) (by simp; omega)
    · exact ⟨message₂, rfl, by simpa using h₂⟩
  obtain ⟨message₄, hstore₄, h₄⟩ := copySegments_packed segments (segments.length / 2 + 1) h₃
    (by rw [Bytes.length_table, length_framingTable hne]; omega)
    (by rw [Bytes.length_table, length_framingTable hne]; omega)
  refine ⟨message₄, ?_, h₄⟩
  rw [buildSmartMessage, if_neg (by omega), hcount]
  simp only [hstore₁, hstore₂, hstore₃, Option.bind_eq_bind, Option.bind_some, hstore₄]

theorem length_bufferAt (mem : Memory) (ptr size : Nat) : (bufferAt mem ptr size).bytes.length = size := by
  simp [bufferAt]

theorem build_fst (computeSerializedSizeInWords : List Segment → Nat) (segments : List Segment)
    (pool : Option BufferPool) (mem : Memory) (os data : Nat) :
    ∃ ptr, (build computeSerializedSizeInWords segments pool mem os data).1 =
      buildSmartMessage segments (bufferAt mem ptr (computeSerializedSizeInWords segments * 8)) := by
  unfold build
  cases pool with
  | none => exact ⟨data, rfl⟩
  | some pool =>
    dsimp only
    split
    · split
      · exact ⟨_, rfl⟩
      · exact ⟨data, rfl⟩
    · exact ⟨data, rfl⟩

end SmartCapnpBuilder

/-! ## Reading -/

theorem splitSegments_flatten (segments : List Segment) :
    splitSegments (segments.map List.length) segments.flatten = some segments := by
  induction segments with
  | nil => rfl
  | cons segment segments ih =>
    rw [List.map_cons, splitSegments, List.flatten_cons, if_neg (by simp), List.drop_left, List.take_left, ih]
    rfl

theorem asBytes_capnpBuffer (message : List UInt8) (h : message.length % 8 = 0) :
    asBytes (SmartCapnpReader.capnpBufferFromAzmqMessage message) = message := by
  have hmap : (SmartCapnpReader.capnpBufferFromAzmqMessage message).map UInt64.toNat =
      Bytes.readTable 8 (message.length / 8) message := by
    rw [SmartCapnpReader.capnpBufferFromAzmqMessage, List.map_map]
    refine (List.map_congr_left fun x hx => ?_).trans (List.map_id _)
    exact UInt64.toNat_ofNat_of_lt (Bytes.lt_of_mem_readTable hx)
  rw [asBytes, hmap, Bytes.table_readTable (by omega)]

theorem readTable_asBytes (words : List Word) :
    (Bytes.readTable 8 words.length (asBytes words)).map UInt64.ofNat = words := by
  have hlt : ∀ n ∈ words.map UInt64.toNat, n < 256 ^ 8 := by
    intro n hn
    obtain ⟨w, -, rfl⟩ := List.mem_map.1 hn
    exact w.toNat_lt
  have hread := Bytes.readTable_table hlt
  rw [List.length_map] at hread
  rw [asBytes, hread, List.map_map]
  exact (List.map_congr_left fun w _ => UInt64.ofNat_toNat).trans (List.map_id _)

theorem capnpBuffer_framing (hne : segments ≠ []) :
    ∃ table : List Word, table.length = segments.length / 2 + 1 ∧
      SmartCapnpReader.capnpBufferFromAzmqMessage (framing segments) = table ++ segments.flatten := by
  have htable : (Bytes.table 4 (framingTable segments)).length = 8 * (segments.length / 2 + 1) := by
    rw [Bytes.length_table, length_framingTable hne]; omega
  refine ⟨(Bytes.readTable 8 (segments.length / 2 + 1) (Bytes.table 4 (framingTable segments))).map UInt64.ofNat,
    by simp, ?_⟩
  have hlen : (framing segments).length / 8 = segments.length / 2 + 1 + segments.flatten.length := by
    rw [length_framing hne, List.length_flatten]; omega
  rw [SmartCapnpReader.capnpBufferFromAzmqMessage, hlen, framing, Bytes.readTable_append htable, List.map_append,
    readTable_asBytes]

theorem readFraming_framing (hne : segments ≠ []) (hn : segments.length < 2 ^ 32)
    (hsize : ∀ segment ∈ segments, segment.length < 2 ^ 32) :
    readFraming (SmartCapnpReader.capnpBufferFromAzmqMessage (framing segments)) = some segments := by
  obtain ⟨table, htable, hwords⟩ := capnpBuffer_framing hne
  have hbytes := asBytes_capnpBuffer (framing segments) (by rw [length_framing hne]; omega)
  have hread : Bytes.readTable 4 (2 * (table ++ segments.flatten).length) (framing segments) =
      framingTable segments ++ Bytes.readTable 4 (2 * segments.flatten.length) (asBytes segments.flatten) := by
    rw [← Bytes.readTable_table_append (framingTable_lt hn hsize), length_framingTable hne, List.length_append,
      htable, Nat.mul_add]
    rfl
  have hcount : segments.length - 1 + 1 = segments.length := Nat.sub_add_cancel (List.length_pos_iff.2 hne)
  have hlen : (segments.map List.length).length = segments.length := List.length_map _
  rw [readFraming, hbytes, hwords, hread]
  simp only [framingTable, List.cons_append, List.append_assoc, hcount]
  rw [if_neg (by rw [List.length_append]; omega), if_neg, List.take_left' hlen, List.drop_left' htable,
    splitSegments_flatten]
  rintro ⟨heven, hpad⟩
  rw [if_pos heven, List.getElem?_append_right (by omega), hlen, Nat.sub_self] at hpad
  exact hpad rfl

/-- A message comes back as the segments it was built from, and nothing of what its buffer held before is left
in it. -/
theorem capnp_round_trip (computeSerializedSizeInWords : List Segment → Nat) (segments : List Segment)
    (hne : segments ≠ []) (hn : segments.length < 2 ^ 32) (hsize : ∀ segment ∈ segments, segment.length < 2 ^ 32)
    (hwords : computeSerializedSizeInWords segments =
      segments.length / 2 + 1 + (segments.map List.length).sum) :
    ∃ bytes : List UInt8, bytes.length = computeSerializedSizeInWords segments * 8 ∧
      readFraming (SmartCapnpReader.capnpBufferFromAzmqMessage bytes) = some segments ∧
      ∀ pool mem os data, ∃ message,
        (SmartCapnpBuilder.build computeSerializedSizeInWords segments pool mem os data).1 = some message ∧
          message.bytes = bytes ∧ ∀ i < bytes.length, message.Stored i := by
  have hlen : (framing segments).length = computeSerializedSizeInWords segments * 8 := by
    rw [length_framing hne, hwords]
  refine ⟨framing segments, hlen, readFraming_framing hne hn hsize, fun pool mem os data => ?_⟩
  obtain ⟨ptr, hbuild⟩ := SmartCapnpBuilder.build_fst computeSerializedSizeInWords segments pool mem os data
  obtain ⟨message, hmessage, hpacked⟩ := SmartCapnpBuilder.buildSmartMessage_packed hne hn
    ((SmartCapnpBuilder.length_bufferAt mem ptr _).trans hlen.symm)
  exact ⟨message, hbuild.trans hmessage, hpacked.bytes_eq, hpacked.stored⟩

theorem capnp_round_trip_two :
    ∃ bytes : List UInt8, bytes.length = 32 ∧
      readFraming (SmartCapnpReader.capnpBufferFromAzmqMessage bytes) = some [[7, 0x10000000000], []] ∧
      ∀ pool mem os data, ∃ message,
        (SmartCapnpBuilder.build (fun segments => segments.length / 2 + 1 + (segments.map List.length).sum)
          [[7, 0x10000000000], []] pool mem os data).1 = some message ∧
          message.bytes = bytes ∧ ∀ i < bytes.length, message.Stored i := by
  exact capnp_round_trip (fun segments => segments.length / 2 + 1 + (segments.map List.length).sum)
    [[7, 0x10000000000], []] (by decide) (by decide) (by decide) rfl

end A17.Dispatch
