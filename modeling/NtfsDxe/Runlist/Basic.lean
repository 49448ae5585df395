import NtfsDxe.Core.Machine

/-! # Runlists

A runlist is an array of runs, each mapping `length` clusters of an attribute
from `vcn` on to the clusters of the volume from `lcn` on. A run of length zero
ends the array. Negative cluster numbers mark holes, unmapped parts, and the
end of the attribute.
-/

namespace NtfsDxe

structure RunlistElement where
  vcn : Int
  lcn : Int
  length : Int
  deriving DecidableEq

/-- `sizeof(runlist_element)`: three 64-bit fields. -/
def sizeofRunlistElement : Nat := 24

def lcnHole : Int := -1
def lcnRlNotMapped : Int := -2
def lcnEnoent : Int := -3
def lcnEinval : Int := -4

/-- `rl[1].vcn`, read through a pointer whose following elements are `rest`. -/
def nextVcn : List RunlistElement → Int
  | [] => 0
  | e :: _ => e.vcn

@[simp] lemma nextVcn_cons : nextVcn (e :: rest) = e.vcn := rfl

/-- The search loop of `ntfs_rl_vcn_to_lcn`, from the current element on. -/
def findLcn : List RunlistElement → Int → Int
  | [], _ => lcnEnoent
  | e :: rest, vcn =>
    if e.length = 0 then
      -- The terminator holds the value to report, unless it is corrupt.
      if e.lcn < 0 then e.lcn else lcnEnoent
    else if vcn < nextVcn rest then
      if 0 ≤ e.lcn then s64 (e.lcn + (vcn - e.vcn)) else e.lcn
    else findLcn rest vcn

/-- `ntfs_rl_vcn_to_lcn`; a null runlist is `none`. -/
def rlVcnToLcn (rl : Option (List RunlistElement)) (vcn : Int) : Int :=
  if vcn < 0 then lcnEinval
  else match rl with
    | none => lcnRlNotMapped
    | some rl => if vcn < nextVcn rl then lcnEnoent else findLcn rl vcn

/-- A terminated array of mapped runs and holes with contiguous cluster numbers. -/
def Contiguous : List RunlistElement → Prop
  | [] => False
  | [t] => t.length = 0
  | e :: e' :: rest =>
    0 < e.length ∧ lcnHole ≤ e.lcn ∧ e'.vcn = e.vcn + e.length ∧ Contiguous (e' :: rest)

/-- The cluster number after the last run: the `vcn` of the terminator. -/
def endVcn : List RunlistElement → Int
  | [] => 0
  | [t] => t.vcn
  | _ :: e :: rest => endVcn (e :: rest)

/-- The last volume cluster of a run is itself a representable cluster number. -/
def LcnInRange (e : RunlistElement) : Prop := e.length = 0 ∨ e.lcn + e.length ≤ 2 ^ 63

/-- A well-formed, fully mapped runlist: contiguous runs whose cluster numbers
are 64-bit values, in an array whose size in bytes is an `int`, as every
allocation of a runlist computes it. -/
structure MappedRunlist where
  elements : List RunlistElement
  contiguous : Contiguous elements
  vcn_nonneg : 0 ≤ nextVcn elements
  end_isS64 : IsS64 (endVcn elements)
  lcn_inRange : ∀ e ∈ elements, LcnInRange e
  size_int : (elements.length * sizeofRunlistElement : Int) ≤ intMax

def MappedRunlist.firstVcn (rl : MappedRunlist) : Int := nextVcn rl.elements

def MappedRunlist.lastVcn (rl : MappedRunlist) : Int := endVcn rl.elements

end NtfsDxe
