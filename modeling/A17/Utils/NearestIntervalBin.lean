import A17.Lib.Binary64

/-!
# `NearestIntervalBin`

`nearest_interval_bin.cpp`. The bins and the differences are `double`s: `rnd` rounds the result of an
operation, `Binary64.ofRat` for the arithmetic of the code and `id` for the exact one. The two tables are
read at the indices that are recorded in the result; what a read outside of a table yields is not used.
-/

namespace A17.Utils

/-! ### Digits -/

def kTenToThe : List UInt64 :=
  [1, 10, 100, 1000, 10000, 100000, 1000000, 10000000, 100000000, 1000000000, 10000000000, 100000000000,
    1000000000000, 10000000000000, 100000000000000, 1000000000000000, 10000000000000000, 100000000000000000,
    1000000000000000000, 0xffffffffffffffff]

/-- `__builtin_clz`, which is not defined for 0. -/
def clz (x : UInt32) : Nat := 31 - x.toNat.log2

def baseTwoDigits (x : UInt64) : Nat :=
  let hi := (x >>> 32).toUInt32
  let lo := (x &&& 0xffffffff).toUInt32
  if hi = 0 then
    if lo ≠ 0 then 32 - clz lo else 0
  else 64 - clz hi

def guess : List Nat :=
  [0, 0, 0, 0, 1, 1, 1, 2, 2, 2, 3, 3, 3, 3, 4, 4, 4, 5, 5, 5, 6, 6, 6, 6, 7, 7, 7, 8, 8, 8, 9, 9, 9, 9,
    10, 10, 10, 11, 11, 11, 12, 12, 12, 12, 13, 13, 13, 14, 14, 14, 15, 15, 15, 15, 16, 16, 16, 17, 17, 17,
    18, 18, 18, 18, 19]

def baseTenDigits (x : UInt64) : Nat :=
  let digits := guess.getD (baseTwoDigits x) 0
  digits + if x ≥ kTenToThe.getD digits 0 then 1 else 0

/-! ### The search for the bin -/

def kIntervalBinsSize : Nat := 10

/-- `std::numeric_limits<double>::max()`. -/
def doubleMax : ℚ := ((2 ^ 53 - 1) * 2 ^ 971 : ℕ)

structure NearestBin where
  value : UInt64
  index : Nat
  binReads : List Int := []
  powerReads : List Int := []

section
variable (rnd : ℚ → ℚ)

def kIntervalBins : List ℚ :=
  [1, rnd (1 / rnd (3 / 4)), rnd (1 / rnd (3 / 5)), 2, 5 / 2, 3, 4, 5, rnd (1 / rnd (3 / 20)), 10]

def binAt (i : Int) : ℚ := if i < 0 then 0 else (kIntervalBins rnd).getD i.toNat 0

/-- `std::fabs(x - kIntervalBins[i])`. -/
def binDiff (x : ℚ) (i : Int) : ℚ := |rnd (x - binAt rnd i)|

/-- `while (diff_left < diff && index > 0)`; the index and the bins read. -/
def searchLeft (x : ℚ) : Nat → ℚ → ℚ → List Int → Nat × List Int
  | 0, _, _, reads => (0, reads)
  | index + 1, diff, diffLeft, reads =>
    if diffLeft < diff then
      searchLeft x index diffLeft (binDiff rnd x (index - 1)) (reads ++ [(index - 1 : Int)])
    else (index + 1, reads)

/-- `while (diff_right < diff && index < kIntervalBinsSize - 1)`; `room` is the distance to the last bin. -/
def searchRight (x : ℚ) : Nat → Nat → ℚ → ℚ → List Int → Nat × List Int
  | 0, index, _, _, reads => (index, reads)
  | room + 1, index, diff, diffRight, reads =>
    if diffRight < diff then
      searchRight x room (index + 1) diffRight (binDiff rnd x (index + 2)) (reads ++ [(index + 2 : Int)])
    else (index, reads)

def nearestIntervalBin (interval : UInt64) (index : Nat) : NearestBin :=
  if interval = 0 then ⟨0, index, [], []⟩
  else
    let digits := baseTenDigits interval
    let exp := kTenToThe.getD (digits - 1) 0
    let x := rnd (rnd interval.toNat / rnd exp.toNat)
    let diff := binDiff rnd x index
    let diffLeft := if index > 0 then binDiff rnd x (index - 1) else doubleMax
    let diffRight := if index < kIntervalBinsSize - 1 then binDiff rnd x (index + 1) else doubleMax
    let reads := [(index : Int)] ++ (if index > 0 then [(index - 1 : Int)] else []) ++
      if index < kIntervalBinsSize - 1 then [(index + 1 : Int)] else []
    let (index, reads) :=
      if diffLeft < diff then searchLeft rnd x index diff diffLeft reads
      else if diffRight < diff then
        searchRight rnd x (kIntervalBinsSize - 1 - index) index diff diffRight reads
      else (index, reads)
    { value := UInt64.ofNat ⌊rnd (binAt rnd index * rnd exp.toNat)⌋.toNat
      index, binReads := reads ++ [(index : Int)]
      powerReads := [(guess.getD (baseTwoDigits interval) 0 : Int), (digits - 1 : Int)] }

end
end A17.Utils
