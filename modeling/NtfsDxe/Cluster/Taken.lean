import NtfsDxe.Cluster.Alloc

/-! # The clusters of a runlist

Each step of the allocator adds one cluster to the runs built so far. The
clusters of the runs are what the bitmap has gained.
-/

namespace NtfsDxe

open Foundation Bits List

def runLcns (e : RunlistElement) : List Nat :=
  (range e.length.toNat).map (e.lcn.toNat + ·)

def lcnsOf (rl : List RunlistElement) : List Nat := rl.flatMap runLcns

@[simp] lemma lcnsOf_nil : lcnsOf [] = [] := rfl

@[simp] lemma lcnsOf_cons : lcnsOf (e :: rl) = runLcns e ++ lcnsOf rl := rfl

@[simp] lemma lcnsOf_append : lcnsOf (xs ++ ys) = lcnsOf xs ++ lcnsOf ys := flatMap_append

lemma lcnsOf_reverse_perm (rl : List RunlistElement) : (lcnsOf rl.reverse).Perm (lcnsOf rl) :=
  List.Perm.flatMap_right runLcns (reverse_perm rl)

lemma runLcns_succ (hlen : 0 ≤ e.length) (hlcn : 0 ≤ e.lcn) :
    runLcns { e with length := e.length + 1 } = runLcns e ++ [(e.lcn + e.length).toNat] := by
  have hsucc : (e.length + 1).toNat = e.length.toNat + 1 := by omega
  have hlast : (e.lcn + e.length).toNat = e.lcn.toNat + e.length.toNat := by omega
  simp only [runLcns]
  rw [hsucc, range_succ, map_append, map_singleton, hlast]

lemma mem_runLcns : k ∈ runLcns e ↔ e.lcn.toNat ≤ k ∧ k < e.lcn.toNat + e.length.toNat := by
  rw [runLcns, mem_map]
  constructor
  · rintro ⟨i, hi, rfl⟩
    rw [mem_range] at hi
    omega
  · rintro ⟨hlo, hhi⟩
    exact ⟨k - e.lcn.toNat, mem_range.mpr (by omega), by omega⟩

/-- Runs listed from the last one back, with cluster numbers that are contiguous
from `startVcn` on. -/
def RunsFrom (startVcn : Int) : List RunlistElement → Prop
  | [] => True
  | [first] => first.vcn = startVcn ∧ 0 < first.length ∧ 0 ≤ first.lcn
  | last :: e :: rest =>
    last.vcn = s64 (e.vcn + e.length) ∧ 0 < last.length ∧ 0 ≤ last.lcn ∧
      RunsFrom startVcn (e :: rest)

section

variable (hruns : RunsFrom startVcn (e :: rest))
include hruns

lemma RunsFrom.last : 0 < e.length ∧ 0 ≤ e.lcn := by
  cases rest with
  | nil => exact hruns.2
  | cons _ rest => exact ⟨hruns.2.1, hruns.2.2.1⟩

lemma RunsFrom.tail : RunsFrom startVcn rest := by
  cases rest with
  | nil => exact trivial
  | cons _ rest => exact hruns.2.2.2

/-- The run under construction can be given another length. -/
lemma RunsFrom.setLength (hn : 0 < n) : RunsFrom startVcn ({ e with length := n } :: rest) := by
  cases rest with
  | nil => exact ⟨hruns.1, hn, hruns.2.2⟩
  | cons _ rest => exact ⟨hruns.1, hn, hruns.2.2.1, hruns.2.2.2⟩

end

/-- The runs are contiguous, and the last one is the run under construction. -/
structure RunsBuilt (startVcn : Int) (s : AllocState) : Prop where
  runs : RunsFrom startVcn s.rl
  prev : ∀ last rest, s.rl = last :: rest → s.prevLcn = last.lcn ∧ s.prevRunLen = last.length

lemma AllocState.addCluster_built (hs : RunsBuilt startVcn s) (hlcn : 0 ≤ lcn) :
    RunsBuilt startVcn (s.addCluster startVcn lcn) ∧
      (lcnsOf (s.addCluster startVcn lcn).rl).Perm (lcn.toNat :: lcnsOf s.rl) := by
  unfold AllocState.addCluster
  cases hrl : s.rl with
  | nil =>
    refine ⟨⟨⟨rfl, Int.one_pos, hlcn⟩, ?_⟩, List.Perm.refl _⟩
    rintro last rest ⟨⟩
    exact ⟨rfl, rfl⟩
  | cons last rest =>
    obtain ⟨hprevLcn, hprevLen⟩ := hs.prev last rest hrl
    have hruns := hs.runs
    rw [hrl] at hruns
    obtain ⟨hlen, hlast⟩ := hruns.last
    dsimp only
    by_cases hadjacent : s.prevLcn = lcn - s.prevRunLen
    · rw [if_pos hadjacent]
      refine ⟨⟨hruns.setLength (by omega), ?_⟩, ?_⟩
      · rintro _ _ ⟨⟩
        exact ⟨hprevLcn, rfl⟩
      · have hnew : last.lcn + last.length = lcn := by omega
        rw [lcnsOf_cons, hprevLen, runLcns_succ (le_of_lt hlen) hlast, hnew, append_assoc]
        exact perm_middle
    · rw [if_neg hadjacent]
      refine ⟨⟨⟨by rw [hprevLen], Int.one_pos, hlcn, hruns⟩, ?_⟩, List.Perm.refl _⟩
      rintro _ _ ⟨⟩
      exact ⟨rfl, rfl⟩

end NtfsDxe
