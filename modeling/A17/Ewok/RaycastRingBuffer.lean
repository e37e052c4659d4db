import A17.Ewok.RingBufferBase
import A17.Lib.DigitalLine

/-!
# The occupancy ring buffer

Two ring buffers over one volume: how occupied each voxel is, and the flags of each voxel. A point cloud is inserted
in three passes over the flags: the ends of the rays are marked, then the voxels the rays go through, and then every
marked voxel gets its hit or its miss and loses its marks.
-/

namespace A17.Ewok
open GridLoops GridWindow

/-- `_Flag`. -/
abbrev Flag := BitVec 8

namespace Flag

def occupied : Flag := 1 <<< 0
def free : Flag := 1 <<< 1
def freeRay : Flag := 1 <<< 2
def updated : Flag := 1 <<< 3
def insertion : Flag := occupied ||| free ||| freeRay

/-- `f & g`, as a condition. -/
def has (f g : Flag) : Bool := f &&& g != 0

variable {f g h : Flag}

theorem has_iff : f.has g = true ↔ f &&& g ≠ 0 := by simp [has]

theorem has_or_left : (f ||| g).has h = true ↔ f.has h = true ∨ g.has h = true := by
  rw [has_iff, has_iff, has_iff, BitVec.and_or_distrib_right, ne_eq, BitVec.ofNat_eq_ofNat, BitVec.or_eq_zero_iff,
    not_and_or]

theorem has_or_right : f.has (g ||| h) = true ↔ f.has g = true ∨ f.has h = true := by
  rw [has_iff, has_iff, has_iff, BitVec.and_or_distrib_left, ne_eq, BitVec.ofNat_eq_ofNat, BitVec.or_eq_zero_iff,
    not_and_or]

/-- Of the flags that are cleared none is left, and the others are as they were. -/
theorem has_and_not : (f &&& ~~~g).has h = f.has (~~~g &&& h) := by
  rw [has, has, BitVec.and_assoc]

end Flag

/-! ### Hits and misses -/

def minVal : ℚ := -2.0
def maxVal : ℚ := 3.5
def hit : ℚ := 0.85
def miss : ℚ := -0.4

/-- `_Datatype`. -/
abbrev Datatype := Int16

def datatypeMax : Int := Int16.maxValue.toInt
def datatypeMin : Int := Int16.minValue.toInt
def datatypeRange : ℚ := datatypeMax - datatypeMin

/-- The conversion to an integer type. -/
def toIntegral (q : ℚ) : Int := q.num.tdiv q.den

def datatypeHit : Int := toIntegral (hit * datatypeRange / (maxVal - minVal))
def datatypeMiss : Int := toIntegral (miss * datatypeRange / (maxVal - minVal))

theorem datatypeHit_eq : datatypeHit = 10128 := by decide +kernel

theorem datatypeMiss_eq : datatypeMiss = -4766 := by decide +kernel

def addHit (d : Datatype) : Datatype :=
  let occ := d.toInt + datatypeHit
  Int16.ofInt (if occ > datatypeMax then datatypeMax else occ)

def addMiss (d : Datatype) : Datatype :=
  let occ := d.toInt + datatypeMiss
  Int16.ofInt (if occ < datatypeMin then datatypeMin else occ)

def isOccupied (d : Datatype) : Bool := d.toInt > datatypeHit

def isFree (d : Datatype) : Bool := d.toInt < datatypeMiss

theorem toInt_addHit (d : Datatype) : (addHit d).toInt = min (d.toInt + 10128) 32767 := by
  have hle := d.le_toInt
  have hlt := d.toInt_lt
  have hmax : datatypeMax = 32767 := rfl
  unfold addHit
  rw [datatypeHit_eq, hmax, Int16.toInt_ofInt_of_le] <;> split <;> omega

theorem toInt_addMiss (d : Datatype) : (addMiss d).toInt = max (d.toInt - 4766) (-32768) := by
  have hle := d.le_toInt
  have hlt := d.toInt_lt
  have hmin : datatypeMin = -32768 := rfl
  unfold addMiss
  rw [datatypeMiss_eq, hmin, Int16.toInt_ofInt_of_le] <;> split <;> omega

structure RaycastRingBuffer (POW : Nat) (K : Type) where
  resolution : K
  updatedMin : Vector3i
  updatedMax : Vector3i
  occupancyBuffer : RingBufferBase POW Datatype K
  flagBuffer : RingBufferBase POW Flag K

/-- `flags.at(coord) |= flag`. -/
def orFlag {POW : Nat} {K : Type} (flags : RingBufferBase POW Flag K) (coord : Vector3i) (flag : Flag) :
    RingBufferBase POW Flag K :=
  flags.setAt coord (flags.at_ coord ||| flag)

/-- `flags.at(coord) &= ~flag`. -/
def clearFlag {POW : Nat} {K : Type} (flags : RingBufferBase POW Flag K) (coord : Vector3i) (flag : Flag) :
    RingBufferBase POW Flag K :=
  flags.setAt coord (flags.at_ coord &&& ~~~flag)

/-! ### Rays -/

/-- The variables of the loop of a ray. -/
structure Walk (POW : Nat) (K : Type) where
  flagBuffer : RingBufferBase POW Flag K
  point : Vector3i
  err1 : Int
  err2 : Int

/-- The body of the loop whose main axis is `a`: `err1` is about the axis `b`, `err2` about the axis `c`. -/
def walkStep {POW : Nat} {K : Type} (inc d2 : Vector3i) (a b c : Fin 3) (w : Walk POW K) : Walk POW K :=
  let flagBuffer := orFlag w.flagBuffer w.point Flag.free
  let (point, err1) :=
    if w.err1 > 0 then (Function.update w.point b (w.point b + inc b), w.err1 - d2 a) else (w.point, w.err1)
  let (point, err2) :=
    if w.err2 > 0 then (Function.update point c (point c + inc c), w.err2 - d2 a) else (point, w.err2)
  { flagBuffer := flagBuffer
    err1 := err1 + d2 b
    err2 := err2 + d2 c
    point := Function.update point a (point a + inc a) }

/-- The loop whose main axis is `a`. -/
def walk {POW : Nat} {K : Type} (flagBuffer : RingBufferBase POW Flag K) (point inc len : Vector3i) (a b c : Fin 3) :
    Walk POW K :=
  let d2 := fun i => len i <<< (1 : Nat)
  (List.range (len a).toNat).foldl (fun w _ => walkStep inc d2 a b c w)
    ⟨flagBuffer, point, d2 b - len a, d2 c - len a⟩

def insertFreeBresenham3D {POW : Nat} {K : Type} (flagBuffer : RingBufferBase POW Flag K)
    (pointIdx originIdx : Vector3i) : RingBufferBase POW Flag K :=
  let d := fun i => originIdx i - pointIdx i
  let inc := fun i => if d i < 0 then -1 else 1
  let len := fun i => |d i|
  let w :=
    if len 0 ≥ len 1 ∧ len 0 ≥ len 2 then walk flagBuffer pointIdx inc len 0 1 2
    else if len 1 ≥ len 0 ∧ len 1 ≥ len 2 then walk flagBuffer pointIdx inc len 1 0 2
    else walk flagBuffer pointIdx inc len 2 1 0
  orFlag w.flagBuffer w.point Flag.free

namespace RaycastRingBuffer
variable {POW : Nat} {K : Type}

def clearUpdatedMinMax (s : RaycastRingBuffer POW K) : RaycastRingBuffer POW K :=
  { s with
    updatedMin := fun i => s.occupancyBuffer.offset i + (N POW - 1)
    updatedMax := s.occupancyBuffer.offset }

/-- The constructor. -/
def new (POW : Nat) (resolution : K) : RaycastRingBuffer POW K :=
  clearUpdatedMinMax {
    resolution := resolution
    updatedMin := fun _ => 0
    updatedMax := fun _ => 0
    occupancyBuffer := .new POW resolution 0
    flagBuffer := (RingBufferBase.new POW resolution 0).setEmptyElement Flag.updated }

def occupiedAt (s : RaycastRingBuffer POW K) (idx : Vector3i) : Bool := isOccupied (s.occupancyBuffer.at_ idx)

def freeAt (s : RaycastRingBuffer POW K) (idx : Vector3i) : Bool := isFree (s.occupancyBuffer.at_ idx)

def isUpdated (s : RaycastRingBuffer POW K) (idx : Vector3i) : Bool := (s.flagBuffer.at_ idx).has Flag.updated

/-- What it returns is the flags that are left. -/
def clearUpdated (s : RaycastRingBuffer POW K) (idx : Vector3i) : RaycastRingBuffer POW K × Bool :=
  let s := { s with flagBuffer := clearFlag s.flagBuffer idx Flag.updated }
  (s, s.flagBuffer.at_ idx != 0)

def setOffset (s : RaycastRingBuffer POW K) (off : Vector3i) : RaycastRingBuffer POW K :=
  { s with occupancyBuffer := s.occupancyBuffer.setOffset off, flagBuffer := s.flagBuffer.setOffset off }

/-- The updated box, stretched over `idx`. -/
def stretch (s : RaycastRingBuffer POW K) (idx : Vector3i) : RaycastRingBuffer POW K :=
  { s with updatedMin := fun i => min (s.updatedMin i) (idx i), updatedMax := fun i => max (s.updatedMax i) (idx i) }

/-- The round of `moveVolume` for one axis. -/
def stretchSlab (direction volumeMin volumeMax : Vector3i) (s : RaycastRingBuffer POW K) (i : Fin 3) :
    RaycastRingBuffer POW K :=
  if direction i > 0 then (s.stretch (Function.update volumeMin i (volumeMax i))).stretch volumeMax
  else (s.stretch volumeMin).stretch (Function.update volumeMax i (volumeMin i))

def moveVolume (s : RaycastRingBuffer POW K) (direction : Vector3i) : RaycastRingBuffer POW K :=
  let s := { s with
    occupancyBuffer := s.occupancyBuffer.moveVolume direction
    flagBuffer := s.flagBuffer.moveVolume direction }
  let offset := s.occupancyBuffer.offset
  (List.finRange 3).foldl (stretchSlab direction offset fun i => offset i + (N POW - 1)) s

/-- The body of the loops of `decay`. -/
def decayVoxel (s : RaycastRingBuffer POW K) (idx : Vector3i) : RaycastRingBuffer POW K :=
  if s.occupiedAt idx then
    let s := if s.occupancyBuffer.insideVolume idx then
        { s with flagBuffer := orFlag s.flagBuffer idx Flag.occupied } else s
    if (s.flagBuffer.at_ idx).has Flag.occupied then
      let s := { s with
        occupancyBuffer := s.occupancyBuffer.setAt idx (addMiss (s.occupancyBuffer.at_ idx))
        flagBuffer := orFlag (clearFlag s.flagBuffer idx Flag.insertion) idx Flag.updated }
      s.stretch idx
    else s
  else s

def decay (s : RaycastRingBuffer POW K) : RaycastRingBuffer POW K :=
  (box (fun _ => -(N POW : Int)) fun _ => N POW).foldl decayVoxel s

def getCloudFree [Field K] (s : RaycastRingBuffer POW K) : List (Fin 3 → K) × (Fin 3 → K) :=
  s.occupancyBuffer.getCloudHelper isFree

def getCloudOccupied [Field K] (s : RaycastRingBuffer POW K) : List (Fin 3 → K) × (Fin 3 → K) :=
  s.occupancyBuffer.getCloudHelper isOccupied

def getCloudUpdated [Field K] (s : RaycastRingBuffer POW K) : List (Fin 3 → K) × (Fin 3 → K) :=
  s.flagBuffer.getCloudHelper fun f => f.has Flag.updated

section
variable [Field K] [LinearOrder K] [FloorRing K]

/-- The round of `closestPointInVolume` for one axis. -/
def crossing (s : RaycastRingBuffer POW K) (origin diff : Fin 3 → K) (minT : K) (i : Fin 3) : K :=
  if |diff i| > 0 then
    let offset := s.occupancyBuffer.offset
    let t1 := ((offset i + 0.5) * s.resolution - origin i) / diff i
    let minT := if t1 > 0 ∧ t1 < minT then t1 else minT
    let t2 := ((offset i + (N POW : Int) - 0.5) * s.resolution - origin i) / diff i
    if t2 > 0 ∧ t2 < minT then t2 else minT
  else minT

/-- `maxScalar` is the greatest value of the scalar type. -/
def closestPointInVolume (s : RaycastRingBuffer POW K) (maxScalar : K) (point origin : Fin 3 → K) : Fin 3 → K :=
  let diff := fun i => point i - origin i
  let minT := (List.finRange 3).foldl (s.crossing origin diff) maxScalar
  fun i => origin i + minT * diff i

/-- The variables of the first pass. -/
structure Marking (POW : Nat) (K : Type) where
  state : RaycastRingBuffer POW K
  minIdx : Vector3i
  maxIdx : Vector3i

/-- The body of the loop over the cloud. -/
def markPoint (maxScalar : K) (origin : Fin 3 → K) (m : Marking POW K) (v : Fin 3 → K) : Marking POW K :=
  let s := m.state
  let idx := s.occupancyBuffer.getIdx v
  let (s, idx) :=
    if s.occupancyBuffer.insideVolume idx then
      ({ s with flagBuffer := orFlag s.flagBuffer idx Flag.occupied }, idx)
    else
      let idx := s.occupancyBuffer.getIdx (s.closestPointInVolume maxScalar v origin)
      ({ s with flagBuffer := orFlag s.flagBuffer idx Flag.freeRay }, idx)
  { state := s
    minIdx := fun i => min (m.minIdx i) (idx i)
    maxIdx := fun i => max (m.maxIdx i) (idx i) }

/-- The body of the loops that insert the rays. -/
def insertRay (originIdx : Vector3i) (s : RaycastRingBuffer POW K) (idx : Vector3i) : RaycastRingBuffer POW K :=
  if (s.flagBuffer.at_ idx).has (Flag.occupied ||| Flag.freeRay) then
    { s with flagBuffer := insertFreeBresenham3D s.flagBuffer idx originIdx }
  else s

/-- What is done with a voxel that has a mark; `add` is `addHit` or `addMiss`. -/
def updateOccupancy (add : Datatype → Datatype) (s : RaycastRingBuffer POW K) (idx : Vector3i) :
    RaycastRingBuffer POW K :=
  let occupancyData := s.occupancyBuffer.at_ idx
  let wasOccupied := isOccupied occupancyData
  let s := { s with
    occupancyBuffer := s.occupancyBuffer.setAt idx (add occupancyData)
    flagBuffer := clearFlag s.flagBuffer idx Flag.insertion }
  if wasOccupied ≠ isOccupied (add occupancyData) then
    { s with flagBuffer := orFlag s.flagBuffer idx Flag.updated }.stretch idx
  else s

/-- The body of the loops that update the marked voxels. -/
def updateVoxel (s : RaycastRingBuffer POW K) (idx : Vector3i) : RaycastRingBuffer POW K :=
  if (s.flagBuffer.at_ idx).has Flag.occupied then s.updateOccupancy addHit idx
  else if (s.flagBuffer.at_ idx).has (Flag.free ||| Flag.freeRay) then s.updateOccupancy addMiss idx
  else s

def insertPointCloud (s : RaycastRingBuffer POW K) (maxScalar : K) (cloud : List (Fin 3 → K))
    (origin : Fin 3 → K) : RaycastRingBuffer POW K :=
  let originIdx := s.occupancyBuffer.getIdx origin
  if !s.occupancyBuffer.insideVolume originIdx then s
  else
    let m := cloud.foldl (markPoint maxScalar origin) ⟨s, originIdx, originIdx⟩
    let s := (box m.minIdx m.maxIdx).foldl (insertRay originIdx) m.state
    (box m.minIdx m.maxIdx).foldl updateVoxel s

end

end RaycastRingBuffer
end A17.Ewok
