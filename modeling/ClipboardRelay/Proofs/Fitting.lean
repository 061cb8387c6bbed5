import ClipboardRelay.Screen
import Mathlib.Data.List.MinMax
/-!
The choice of a screen size. Main statement: the size that is chosen leaves less room unused than
all that come before it, and no more than any other. A scan in machine words comes to the same
choice: nothing overflows, and no distance is as large as the number that the scan begins with.
-/

namespace ClipboardRelay

theorem eq_or_before_of_argmin {α : Type} {cost : α → Nat} {before : α → α → Prop} {list : List α}
    {best other : α} (hordered : list.Pairwise before) (hbest : best ∈ list.argmin cost)
    (hother : other ∈ list) (hcost : cost other ≤ cost best) :
    other = best ∨ before best other := by
  classical
  have hmem := List.argmin_mem hbest
  rcases Nat.eq_or_lt_of_le (List.index_of_argmin hbest hother hcost) with heq | hlt
  · exact .inl ((List.idxOf_inj hmem).mp heq).symm
  · have hbefore := List.pairwise_iff_getElem.mp hordered _ _
      (List.idxOf_lt_length_iff.mpr hmem) (List.idxOf_lt_length_iff.mpr hother) hlt
    rw [List.getElem_idxOf, List.getElem_idxOf] at hbefore
    exact .inr hbefore

/-- A machine word that distances are measured in. -/
abbrev Wide := BitVec 128

namespace Wide

/-- The room that a side of a screen leaves on a side of a monitor, if it takes no more. -/
def room? (side : UInt32) (taken : UInt16) : Option Wide :=
  if side.toBitVec.usubOverflow taken.toUInt32.toBitVec then none
  else some ((side - taken.toUInt32).toBitVec.setWidth 128)

def mul? (first second : Wide) : Option Wide :=
  if first.umulOverflow second then none else some (first * second)

def add? (first second : Wide) : Option Wide :=
  if first.uaddOverflow second then none else some (first + second)

theorem exists_of_room {side : UInt32} {taken : UInt16} (h : taken.toNat ≤ side.toNat) :
    ∃ room, room? side taken = some room ∧ room.toNat = side.toNat - taken.toNat := by
  have hside := side.toNat_lt
  have hfits : ¬ side.toBitVec.usubOverflow taken.toUInt32.toBitVec = true := by
    simpa [BitVec.usubOverflow] using h
  refine ⟨_, if_neg hfits, ?_⟩
  have hless : (side - taken.toUInt32).toNat = side.toNat - taken.toNat :=
    UInt32.toNat_sub_of_le _ _ (by simpa [UInt32.le_iff_toNat_le] using h)
  rw [BitVec.toNat_setWidth, UInt32.toNat_toBitVec, hless]
  exact Nat.mod_eq_of_lt (by omega)

theorem exists_of_mul {first second : Wide}
    (h : first.toNat * second.toNat < UInt64.size * UInt64.size) :
    ∃ product, mul? first second = some product ∧
      product.toNat = first.toNat * second.toNat := by
  have hfits : ¬ first.umulOverflow second = true := by
    simpa [BitVec.umulOverflow, UInt64.size] using h
  exact ⟨_, if_neg hfits, BitVec.toNat_mul_of_not_umulOverflow hfits⟩

theorem exists_of_add {first second : Wide}
    (h : first.toNat + second.toNat < UInt64.size * UInt64.size) :
    ∃ sum, add? first second = some sum ∧ sum.toNat = first.toNat + second.toNat := by
  have hfits : ¬ first.uaddOverflow second = true := by
    simpa [BitVec.uaddOverflow, UInt64.size] using h
  exact ⟨_, if_neg hfits, BitVec.toNat_add_of_not_uaddOverflow hfits⟩

end Wide

namespace ScreenSize

def gap? (size : ScreenSize) (width height : UInt32) : Option Wide := do
  let across ← Wide.room? width size.width
  let down ← Wide.room? height size.height
  Wide.add? (← Wide.mul? across across) (← Wide.mul? down down)

def scan (width height : UInt32) :
    List ScreenSize → Nat → Option Nat → Wide → Option (Option Nat)
  | [], _, best, _ => some best
  | size :: sizes, index, best, closest =>
    if size.width.toUInt32 ≤ width ∧ size.height.toUInt32 ≤ height then do
      let gap ← size.gap? width height
      if gap < closest then scan width height sizes (index + 1) (some index) gap
      else scan width height sizes (index + 1) best closest
    else scan width height sizes (index + 1) best closest

/-- The choice that is made in machine words. It begins with the largest number as a distance that
every size is closer than. -/
def bestFit? (sizes : List ScreenSize) (width height : UInt32) : Option (Option Nat) :=
  scan width height sizes 0 none (BitVec.allOnes 128)

variable {size : ScreenSize} {sizes : List ScreenSize} {width height : UInt32}

theorem fits_iff : size.fits width height = true ↔
    size.width.toNat ≤ width.toNat ∧ size.height.toNat ≤ height.toNat := by
  simp [fits]

theorem exists_of_gap (h : size.fits width height = true) :
    ∃ gap, size.gap? width height = some gap ∧ gap.toNat = size.gap width height := by
  have hgap := size.gap_le width height
  have hfits := fits_iff.mp h
  obtain ⟨across, hacross, hwidth⟩ := Wide.exists_of_room hfits.1
  obtain ⟨down, hdown, hheight⟩ := Wide.exists_of_room hfits.2
  have hsum : size.gap width height = across.toNat * across.toNat + down.toNat * down.toNat := by
    rw [hwidth, hheight, gap]
  have hsmall : 2 * UInt64.size < UInt64.size * UInt64.size := by decide
  have hfirst : across.toNat * across.toNat < UInt64.size * UInt64.size := by omega
  obtain ⟨first, hsquare, hleft⟩ := Wide.exists_of_mul hfirst
  have hsecond : down.toNat * down.toNat < UInt64.size * UInt64.size := by omega
  obtain ⟨second, hother, hright⟩ := Wide.exists_of_mul hsecond
  have htotal : first.toNat + second.toNat < UInt64.size * UInt64.size := by omega
  obtain ⟨gap, hadd, hword⟩ := Wide.exists_of_add htotal
  refine ⟨gap, ?_, by omega⟩
  simp [gap?, hacross, hdown, hsquare, hother, hadd]

def Tracks (width height : UInt32) : Option (ScreenSize × Nat) → Option Nat → Wide → Prop
  | none, best, closest => best = none ∧ closest = BitVec.allOnes 128
  | some (size, index), best, closest =>
    best = some index ∧ closest.toNat = size.gap width height

theorem Tracks.closer {found : Option (ScreenSize × Nat)} {best : Option Nat} {closest gap : Wide}
    {index : Nat} (h : Tracks width height found best closest)
    (hgap : gap.toNat = size.gap width height) :
    Tracks width height (ScreenSize.closer width height found (size, index))
      (if gap < closest then some index else best) (if gap < closest then gap else closest) := by
  have hle := size.gap_le width height
  cases found with
  | none =>
    obtain ⟨rfl, rfl⟩ := h
    have hless : gap < BitVec.allOnes 128 := by
      rw [BitVec.lt_def, BitVec.toNat_allOnes, hgap]
      simp only [UInt64.size] at hle
      omega
    rw [if_pos hless, if_pos hless]
    exact ⟨rfl, hgap⟩
  | some candidate =>
    obtain ⟨rfl, hclosest⟩ := h
    simp only [ScreenSize.closer, BitVec.lt_def, hgap, hclosest]
    split
    · exact ⟨rfl, hgap⟩
    · exact ⟨rfl, hclosest⟩

theorem scan_eq {found : Option (ScreenSize × Nat)} {best : Option Nat} {closest : Wide}
    (h : Tracks width height found best closest) (index : Nat) :
    scan width height sizes index best closest =
      some ((((sizes.zipIdx index).filter fun candidate => candidate.1.fits width height).foldl
        (ScreenSize.closer width height) found).map (·.2)) := by
  induction sizes generalizing found best closest index with
  | nil =>
    cases found with
    | none => rw [h.1]; rfl
    | some candidate => rw [h.1]; rfl
  | cons size sizes ih =>
    rw [scan, List.zipIdx_cons, List.filter_cons]
    have hfits : (size.width.toUInt32 ≤ width ∧ size.height.toUInt32 ≤ height) ↔
        size.fits width height = true := by
      simp [fits_iff, UInt32.le_iff_toNat_le]
    by_cases fit : size.fits width height = true
    · obtain ⟨gap, hgap, hword⟩ := exists_of_gap fit
      rw [if_pos (hfits.mpr fit), if_pos fit, List.foldl_cons, ← ih (h.closer hword), hgap]
      change (if gap < closest then _ else _) = _
      split <;> rfl
    · rw [if_neg (fun hboth => fit (hfits.mp hboth)), if_neg fit]
      exact ih h _

theorem bestFit?_eq (sizes : List ScreenSize) (width height : UInt32) :
    bestFit? sizes width height = some (bestFit sizes width height) := by
  have hnothing : Tracks width height none none (BitVec.allOnes 128) := ⟨rfl, rfl⟩
  exact scan_eq hnothing 0

def candidates (sizes : List ScreenSize) (width height : UInt32) : List (ScreenSize × Nat) :=
  sizes.zipIdx.filter fun candidate => candidate.1.fits width height

theorem mem_candidates {candidate : ScreenSize × Nat} :
    candidate ∈ candidates sizes width height ↔
      sizes[candidate.2]? = some candidate.1 ∧ candidate.1.fits width height = true := by
  rw [candidates, List.mem_filter, List.mem_zipIdx_iff_getElem?]

theorem bestFit_eq_argmin : bestFit sizes width height =
    ((candidates sizes width height).argmin fun candidate => candidate.1.gap width height).map
      (·.2) := by
  rw [bestFit, List.argmin, candidates]
  congr 2
  funext best candidate
  cases best <;> rfl

theorem bestFit_eq_none_iff : bestFit sizes width height = none ↔
    ∀ size ∈ sizes, size.fits width height = false := by
  rw [bestFit_eq_argmin, Option.map_eq_none_iff, List.argmin_eq_none,
    List.eq_nil_iff_forall_not_mem]
  constructor
  · intro hnone size hsize
    obtain ⟨index, hindex⟩ := List.mem_iff_getElem?.mp hsize
    by_contra hfits
    exact hnone (size, index) (mem_candidates.mpr ⟨hindex, by simpa using hfits⟩)
  · rintro hnone ⟨size, index⟩ hmem
    obtain ⟨hindex, hfits⟩ := mem_candidates.mp hmem
    rw [hnone size (List.mem_of_getElem? hindex)] at hfits
    cases hfits

theorem exists_of_bestFit {index : Nat} (h : bestFit sizes width height = some index) :
    ∃ size, sizes[index]? = some size ∧ size.fits width height = true ∧
      (size, index) ∈ (candidates sizes width height).argmin
        fun candidate => candidate.1.gap width height := by
  rw [bestFit_eq_argmin] at h
  obtain ⟨⟨size, _⟩, hbest, rfl⟩ := Option.map_eq_some_iff.mp h
  obtain ⟨hsize, hfits⟩ := mem_candidates.mp (List.argmin_mem hbest)
  exact ⟨size, hsize, hfits, hbest⟩

theorem pairwise_candidates (sizes : List ScreenSize) (width height : UInt32) :
    (candidates sizes width height).Pairwise fun first second => first.2 < second.2 := by
  have hpositions : (sizes.zipIdx.map Prod.snd).Pairwise (· < ·) := by
    rw [List.zipIdx_map_snd]
    exact List.pairwise_lt_range'
  exact (List.pairwise_map.mp hpositions).filter _

/-- No size is chosen exactly if none fits. The one that is chosen fits, no other that fits is
closer, and those before it that fit are less close. In machine words the choice is the same, and
whatever the sizes are, each number that comes up fits into its word. -/
theorem bestFit_optimal (sizes : List ScreenSize) (width height : UInt32) :
    (bestFit sizes width height = none ↔ ∀ size ∈ sizes, size.fits width height = false) ∧
    (∀ index, bestFit sizes width height = some index →
      ∃ size, sizes[index]? = some size ∧ size.fits width height = true ∧
        (∀ other ∈ sizes, other.fits width height = true →
          size.gap width height ≤ other.gap width height) ∧
        ∀ earlier < index, ∀ other, sizes[earlier]? = some other →
          other.fits width height = true → size.gap width height < other.gap width height) ∧
    bestFit? sizes width height = some (bestFit sizes width height) := by
  refine ⟨bestFit_eq_none_iff, fun index hindex => ?_, bestFit?_eq sizes width height⟩
  obtain ⟨size, hsize, hfits, hbest⟩ := exists_of_bestFit hindex
  refine ⟨size, hsize, hfits, ?_, ?_⟩
  · intro other hother hfit
    obtain ⟨position, hposition⟩ := List.mem_iff_getElem?.mp hother
    have hcandidate : (other, position) ∈ candidates sizes width height :=
      mem_candidates.mpr ⟨hposition, hfit⟩
    exact List.le_of_mem_argmin hcandidate hbest
  · intro earlier hearlier other hother hfit
    have hcandidate : (other, earlier) ∈ candidates sizes width height :=
      mem_candidates.mpr ⟨hother, hfit⟩
    by_contra hclose
    rcases eq_or_before_of_argmin (pairwise_candidates sizes width height) hbest hcandidate
      (Nat.le_of_not_lt hclose) with hsame | hbefore
    · exact Nat.ne_of_lt hearlier (congrArg Prod.snd hsame)
    · exact Nat.lt_asymm hearlier hbefore

example : bestFit [⟨1200, 10⟩, ⟨600, 800⟩, ⟨800, 600⟩, ⟨800, 600⟩] 1000 1000 = some 1 := by
  decide

end ScreenSize

end ClipboardRelay
