import NtfsDxe.Directory.Walk
import NtfsDxe.Foundation.Feed

/-! # What a walk through a directory passes

The contents of a well-formed directory are its two emulated entries, the entries of the
index root and those of the index blocks in use. A call of `ntfs_readdir` passes those of
them that are at the position it begins with or behind it.
-/

namespace NtfsDxe

open Foundation Foundation.Feed List DirBitmap DirInode

/-! ## Well-formed directories -/

/-- The entries of a node from offset `off` on, up to the one that ends the node. -/
inductive EntryChain (index : DirIndexHeader) (indexEnd : Nat) :
    Nat → List (Nat × DirIndexEntry) → Prop where
  | last {off : Nat} (hheader : off + 16 ≤ indexEnd)
      (hkey : off + (index.entry off).keyLength ≤ indexEnd)
      (hend : (index.entry off).isEnd = true) : EntryChain index indexEnd off []
  | cons {off : Nat} {entries : List (Nat × DirIndexEntry)} (hheader : off + 16 ≤ indexEnd)
      (hkey : off + (index.entry off).keyLength ≤ indexEnd)
      (hend : (index.entry off).isEnd = false) (hlength : 0 < (index.entry off).length)
      (hrest : EntryChain index indexEnd (off + (index.entry off).length) entries) :
      EntryChain index indexEnd off ((off, index.entry off) :: entries)

/-- The index block `b` can be read and has the entries `entries`. -/
structure BlockReads (d : DirInode) (root : DirIndexRoot) (ia : DirIndexAllocation) (b : Nat)
    (block : DirIndexBlock) (entries : List (Nat × DirIndexEntry)) : Prop where
  read : ia.block (b * root.indexBlockSize) = some block
  vcn : block.indexBlockVcn = ((b * root.indexBlockSize) >>> root.vcnBits d.vol : Nat)
  allocated : block.index.allocatedSize + 0x18 = root.indexBlockSize
  fits : 0x18 + block.index.indexLength ≤ root.indexBlockSize
  chain : EntryChain block.index (0x18 + block.index.indexLength)
    (0x18 + block.index.entriesOffset) entries

/-- The same for a block inside the attribute. -/
structure BlockHolds (d : DirInode) (root : DirIndexRoot) (ia : DirIndexAllocation) (b : Nat)
    (block : DirIndexBlock) (entries : List (Nat × DirIndexEntry)) : Prop
    extends BlockReads d root ia b block entries where
  inside : (b + 1) * root.indexBlockSize ≤ ia.dataSize

/-- A well-formed index allocation with its bitmap, and the entries of the blocks in
use. -/
structure AllocationContents (d : DirInode) (root : DirIndexRoot) where
  ia : DirIndexAllocation
  bmp : DirBitmap
  bitmap_eq : d.bitmap = some bmp
  reads : ∀ pos count, bmp.reads pos count = true
  nonempty : 0 < bmp.data.size
  entries : Nat → List (Nat × DirIndexEntry)
  holds : ∀ b, b < 8 * bmp.data.size → bmp.data.bit b = true →
    ∃ block, BlockHolds d root ia b block (entries b)

/-- A well-formed directory and what its index contains. -/
structure DirContents (d : DirInode) where
  directory : d.isDirectory = true
  memory : ∀ size, d.malloc size = true
  parent : Nat
  parent_eq : d.parentRef = some parent
  clusters : d.vol.clusterSize = 2 ^ d.vol.clusterSizeBits
  root : DirIndexRoot
  root_eq : d.root = some root
  bits : Nat
  bits_ge : 9 ≤ bits
  blockSize_eq : root.indexBlockSize = 2 ^ bits
  rootEntries : List (Nat × DirIndexEntry)
  rootFits : 16 + root.index.indexLength ≤ d.vol.mftRecordSize
  rootChain : EntryChain root.index (16 + root.index.indexLength)
    (16 + root.index.entriesOffset) rootEntries
  allocation : Option (AllocationContents d root)
  allocation_eq : d.allocation = allocation.elim .missing fun a => .found a.ia

/-- Whether an entry is passed to the callback: it is not the entry of the root directory
for itself, and the settings of the volume do not exclude it. -/
def DirInode.passes (d : DirInode) (e : DirIndexEntry) : Bool :=
  mrefNumber e.indexedFile ≠ 5 && d.vol.shows e

/-- The entries of a node as they are passed, with positions from `base` on. -/
def nodeDirents (d : DirInode) (base : Nat) (entries : List (Nat × DirIndexEntry)) : List Dirent :=
  (entries.filter fun x => d.passes x.2).map fun x => d.entryDirent (x.1 + base) x.2

/-- The blocks in use from `b` on. -/
def DirBitmap.usedFrom (bmp : DirBitmap) (b : Nat) : List Nat :=
  (range' b (8 * bmp.data.size - b)).filter fun k => bmp.data.bit k

namespace AllocationContents

variable {d : DirInode} {root : DirIndexRoot}

/-- The position at which block `b` begins. -/
def blockBase (_ : AllocationContents d root) (b : Nat) : Nat :=
  b * root.indexBlockSize + d.vol.mftRecordSize

def blockDirents (a : AllocationContents d root) (b : Nat) : List Dirent :=
  nodeDirents d (a.blockBase b) (a.entries b)

def direntsFrom (a : AllocationContents d root) (b : Nat) : List Dirent :=
  (a.bmp.usedFrom b).flatMap a.blockDirents

/-- What block `b` passes from a position on. -/
def blockPassed (a : AllocationContents d root) (b p : Nat) : List Dirent :=
  (if a.bmp.data.bit b then a.blockDirents b else []).filter fun x => p ≤ x.pos

/-- What the blocks from `b` on pass from a position on. -/
def passedFrom (a : AllocationContents d root) (b p : Nat) : List Dirent :=
  (a.direntsFrom b).filter fun x => p ≤ x.pos

/-- Nothing is passed of what is stored in block `b` from a position on, and no error is
found in it. -/
def Blank (a : AllocationContents d root) (p b : Nat) : Prop :=
  ∃ block entries, BlockReads d root a.ia b block entries ∧
    ((nodeDirents d (a.blockBase b) entries).filter fun x => p ≤ x.pos) = []

/-- Block `b` can be passed from position `p` on though the bit that is tested for it stands
`shift` bits before its own. -/
def Matches (a : AllocationContents d root) (shift p b : Nat) : Prop :=
  if a.bmp.data.bit b then
    a.bmp.data.bit (b - shift) = true ∨ ((a.blockDirents b).filter fun x => p ≤ x.pos) = []
  else a.bmp.data.bit (b - shift) = false ∨ a.Blank p b

/-- Every block matches that the walk from a position in block `b` on reaches before the
callback refuses an entry. -/
def Found (a : AllocationContents d root) (filldir : σ → Dirent → σ × Int) (s : σ)
    (shift b p : Nat) : Prop :=
  ∀ k, b ≤ k → k < 8 * a.bmp.data.size →
    (feed filldir s ((a.passedFrom b p).filter fun x => x.pos < a.blockBase k)).2 = [] →
      a.Matches shift p k

end AllocationContents

namespace DirContents

variable (contents : DirContents d)

def size : Nat := contents.allocation.elim 0 fun a => a.ia.dataSize

def allocationDirents : List Dirent := contents.allocation.elim [] fun a => a.direntsFrom 0

def walk : List Dirent :=
  d.dotEntry :: dotDotEntry contents.parent ::
    (nodeDirents d 0 contents.rootEntries ++ contents.allocationDirents)

end DirContents

/-! ## Feeding the callback -/

section Feeding

variable {σ : Type*} {filldir : σ → Dirent → σ × Int}

/-- The end of a part of the walk that had to pass some entries, of which `fed` tells
the state of the callback and those that are left. -/
structure Feeds (r : WalkResult σ) (fed : σ × List Dirent) : Prop where
  done : fed.2 = [] → ∃ p, r = .ok ⟨p, fed.1⟩
  refused : ∀ x rest, fed.2 = x :: rest → r = .error (.refused, ⟨x.pos, fed.1⟩)

lemma feeds_ok : Feeds (.ok w) (feed filldir w.dirent []) where
  done := fun _ => ⟨w.pos, rfl⟩
  refused := by
    intro x rest h
    cases h

lemma Feeds.bind_of_done (h : Feeds r (feed filldir s xs))
    (hk : (feed filldir s xs).2 = [] → ∀ p, Feeds (k ⟨p, (feed filldir s xs).1⟩)
      (feed filldir (feed filldir s xs).1 ys)) :
    Feeds (r.bind k) (feed filldir s (xs ++ ys)) := by
  rw [feed_append]
  cases hleft : (feed filldir s xs).2 with
  | nil =>
    obtain ⟨p, rfl⟩ := h.done hleft
    exact hk hleft p
  | cons x rest =>
    rw [h.refused x rest hleft]
    constructor
    · intro hnil
      cases hnil
    · intro y more hcons
      obtain ⟨rfl, _⟩ := cons.inj hcons
      rfl

lemma Feeds.bind (h : Feeds r (feed filldir s xs))
    (hk : ∀ w, Feeds (k w) (feed filldir w.dirent ys)) :
    Feeds (r.bind k) (feed filldir s (xs ++ ys)) :=
  h.bind_of_done fun _ p => hk ⟨p, _⟩

/-- The position that a completed part leaves does not matter. -/
lemma Feeds.map {r : WalkResult σ} (h : Feeds r fed) (p : Nat) :
    Feeds (r.map fun w => { w with pos := p }) fed where
  done := by
    intro hnil
    obtain ⟨q, rfl⟩ := h.done hnil
    exact ⟨p, rfl⟩
  refused := by
    intro x rest hcons
    rw [h.refused x rest hcons]
    rfl

lemma callFilldir_feeds (x : Dirent) (hpos : w.pos = x.pos) :
    Feeds (callFilldir filldir w x) (feed filldir w.dirent [x]) := by
  by_cases hx : (filldir w.dirent x).2 = 0
  · rw [feed_accepted filldir hx, callFilldir, if_neg (not_not.mpr hx)]
    exact feeds_ok
  · rw [feed_refused filldir hx, callFilldir, if_pos hx]
    constructor
    · intro hnil
      cases hnil
    · intro y rest hcons
      obtain ⟨rfl, _⟩ := cons.inj hcons
      rw [← hpos]

lemma ntfsFilldir_feeds (hmemory : ∀ size, d.malloc size = true) (base off : Nat)
    (e : DirIndexEntry) (w : DirWalk σ) :
    Feeds (ntfsFilldir filldir d (off + base) e w)
      (feed filldir w.dirent (nodeDirents d base [(off, e)])) := by
  rw [ntfsFilldir]
  by_cases hself : mrefNumber e.indexedFile = 5
  · have hnone : nodeDirents d base [(off, e)] = [] := by
      simp [nodeDirents, passes, hself]
    rw [if_pos hself, hnone]
    exact feeds_ok
  · rw [if_neg hself]
    cases hshows : d.vol.shows e with
    | false =>
      have hnone : nodeDirents d base [(off, e)] = [] := by
        simp [nodeDirents, passes, hshows]
      rw [hnone]
      exact feeds_ok
    | true =>
      have hone : nodeDirents d base [(off, e)] = [d.entryDirent (off + base) e] := by
        simp [nodeDirents, passes, hshows, hself]
      rw [hone, hmemory, Bool.or_true]
      exact callFilldir_feeds _ rfl

end Feeding

/-! ## The entries of a node -/

section Entries

variable {σ : Type*}

section

variable (h : EntryChain index indexEnd off entries)
include h

lemma EntryChain.header_le : off + 16 ≤ indexEnd := by
  cases h with
  | last hheader _ _ => exact hheader
  | cons hheader _ _ _ _ => exact hheader

lemma EntryChain.length_add_le : entries.length + off ≤ indexEnd := by
  induction h with
  | last hheader _ _ =>
    rw [length_nil]
    omega
  | cons _ _ _ hlength _ ih =>
    rw [length_cons]
    omega

/-- The offsets of the entries ascend and stay inside the node. -/
lemma EntryChain.bounds : ∀ x ∈ entries, off ≤ x.1 ∧ x.1 + 16 ≤ indexEnd := by
  induction h with
  | last => simp
  | cons hheader _ _ hlength _ ih =>
    intro x hx
    rcases mem_cons.mp hx with rfl | hx
    · exact ⟨le_refl _, hheader⟩
    · exact ⟨by have := (ih x hx).1; omega, (ih x hx).2⟩

lemma EntryChain.ascending : entries.Pairwise fun x y => x.1 < y.1 := by
  induction h with
  | last => exact List.Pairwise.nil
  | cons _ _ _ hlength hrest ih =>
    refine List.Pairwise.cons ?_ ih
    intro y hy
    have := (hrest.bounds y hy).1
    omega

end

lemma nodeDirents_cons :
    nodeDirents d base (x :: entries) = nodeDirents d base [x] ++ nodeDirents d base entries := by
  rw [nodeDirents, nodeDirents, nodeDirents, ← map_append, ← filter_append]
  rfl

/-- The loop over the entries passes those that are not before the offset `skip`. -/
lemma entryLoop_feeds (hmemory : ∀ size, d.malloc size = true) (base : Nat)
    (h : EntryChain index indexEnd off entries) (hfuel : entries.length < fuel) (w : DirWalk σ) :
    Feeds (entryLoop (fun off => ntfsFilldir filldir d (off + base)) index indexEnd skip fuel off w)
      (feed filldir w.dirent
        (nodeDirents d base (entries.filter fun x => skip ≤ x.1))) := by
  induction h generalizing fuel w with
  | last hheader hkey hend =>
    obtain ⟨fuel, rfl⟩ := Nat.exists_eq_add_of_lt hfuel
    rw [entryLoop, if_neg (by omega), if_pos hend]
    exact feeds_ok
  | @cons off entries hheader hkey hend hlength _ ih =>
    obtain ⟨fuel, rfl⟩ : ∃ n, fuel = n + 1 := ⟨fuel - 1, by omega⟩
    have hfuel' : entries.length < fuel := by
      rw [length_cons] at hfuel
      omega
    rw [entryLoop, if_neg (by omega), if_neg (by rw [hend]; exact Bool.false_ne_true),
      if_neg (ne_of_gt hlength)]
    by_cases hskip : off < skip
    · rw [if_pos hskip, filter_cons_of_neg (by simpa using hskip)]
      exact ih hfuel' w
    · rw [if_neg hskip, filter_cons_of_pos (by simpa using le_of_not_gt hskip),
        nodeDirents_cons]
      exact (ntfsFilldir_feeds hmemory base off _ w).bind fun w => ih hfuel' w

/-- The entries of a node that are not before a position. -/
lemma filter_nodeDirents (hskip : ∀ off, p ≤ off + base ↔ skip ≤ off)
    (entries : List (Nat × DirIndexEntry)) :
    ((nodeDirents d base entries).filter fun x => p ≤ x.pos) =
      nodeDirents d base (entries.filter fun x => skip ≤ x.1) := by
  rw [nodeDirents, nodeDirents, filter_map, filter_filter, filter_filter]
  congr 1
  apply filter_congr
  intro x _
  have hpos : (p ≤ (d.entryDirent (x.1 + base) x.2).pos) ↔ skip ≤ x.1 := hskip x.1
  rw [Bool.and_comm]
  congr 1
  exact decide_eq_decide.mpr hpos

end Entries

/-! ## One index block -/

section Block

variable {σ : Type*}

namespace DirContents

variable (contents : DirContents d)

lemma blockBits_eq : contents.root.blockBits = contents.bits := by
  rw [DirIndexRoot.blockBits, contents.blockSize_eq, Nat.log2_two_pow]

lemma blockSize_pos : 0 < contents.root.indexBlockSize := by
  rw [contents.blockSize_eq]
  exact Nat.two_pow_pos _

lemma vcnBits_le : contents.root.vcnBits d.vol ≤ contents.bits := by
  rw [DirIndexRoot.vcnBits]
  split_ifs with hcluster
  · rw [contents.clusters, contents.blockSize_eq] at hcluster
    exact (Nat.pow_le_pow_iff_right (by decide)).mp hcluster
  · exact contents.bits_ge

lemma shiftLeft_blockBits : b <<< contents.root.blockBits = b * contents.root.indexBlockSize := by
  rw [contents.blockBits_eq, Nat.shiftLeft_eq, contents.blockSize_eq]

lemma shiftRight_blockBits : p >>> contents.root.blockBits = p / contents.root.indexBlockSize := by
  rw [contents.blockBits_eq, Nat.shiftRight_eq_div_pow, contents.blockSize_eq]

/-- The number of a block in clusters or sectors gives its position back. -/
lemma vcn_shift (b : Nat) :
    ((b * contents.root.indexBlockSize) >>> contents.root.vcnBits d.vol) <<<
      contents.root.vcnBits d.vol = b * contents.root.indexBlockSize := by
  rw [Nat.shiftLeft_eq, Nat.shiftRight_eq_div_pow]
  apply Nat.div_mul_cancel
  rw [contents.blockSize_eq]
  exact Dvd.dvd.mul_left (Nat.pow_dvd_pow 2 contents.vcnBits_le) b

end DirContents

lemma blockPos_eq (contents : DirContents d) (a : AllocationContents d contents.root)
    {block : DirIndexBlock}
    (hvcn : block.indexBlockVcn =
      ((b * contents.root.indexBlockSize) >>> contents.root.vcnBits d.vol : Nat)) (off : Nat) :
    allocationPos d.vol (contents.root.vcnBits d.vol) block.indexBlockVcn off =
      off + a.blockBase b := by
  rw [allocationPos, hvcn, Int.toNat_natCast, contents.vcn_shift, add_assoc]
  rfl

/-- The entries of a block that are at a position in it or behind. -/
lemma blockEntries_feeds (filldir : σ → Dirent → σ × Int) (contents : DirContents d)
    (a : AllocationContents d contents.root)
    (holds : BlockReads d contents.root a.ia b block entries)
    (hblock : iaPos / contents.root.indexBlockSize = b) (w : DirWalk σ) :
    Feeds (blockEntries filldir d contents.root a.ia b iaPos w)
      (feed filldir w.dirent ((nodeDirents d (a.blockBase b) entries).filter
        fun x => iaPos + d.vol.mftRecordSize ≤ x.pos)) := by
  have hstart : iaPos - iaPos % contents.root.indexBlockSize =
    b * contents.root.indexBlockSize := by
    have hdiv := Nat.div_add_mod' iaPos contents.root.indexBlockSize
    rw [hblock] at hdiv
    omega
  have hskip : ∀ off, iaPos + d.vol.mftRecordSize ≤ off + a.blockBase b ↔
      iaPos - b * contents.root.indexBlockSize ≤ off := by
    rw [AllocationContents.blockBase]
    omega
  have hfill : (fun off => ntfsFilldir filldir d
      (allocationPos d.vol (contents.root.vcnBits d.vol) block.indexBlockVcn off)) =
      fun off => ntfsFilldir filldir d (off + a.blockBase b) := by
    funext off
    rw [blockPos_eq contents a holds.vcn]
  have hlength := holds.chain.length_add_le
  rw [filter_nodeDirents hskip, blockEntries,
    contents.shiftLeft_blockBits, holds.read]
  simp only [hstart]
  rw [if_neg (not_not.mpr holds.vcn), if_neg (not_not.mpr holds.allocated),
    if_neg (not_lt.mpr holds.fits), hfill]
  exact entryLoop_feeds contents.memory _ holds.chain (by omega) w

end Block

/-! ## The bitmap -/

/-- The cursor is `shift` bits behind the bit that its buffer position stands for. -/
def BitmapCursor.Buffers (bmp : DirBitmap) (shift : Nat) (c : BitmapCursor) : Prop :=
  ∃ first, c.buf = (range c.buf.length).map (fun k => bmp.data.byte (first + k)) ∧
    8 * first + c.bufPos + shift = c.pos ∧ first + c.buf.length ≤ bmp.data.size ∧
    c.bufPos < 8 * c.buf.length

section Bitmap

variable {bmp : DirBitmap} {c : BitmapCursor}

lemma DirBitmap.fetch_eq (hreads : ∀ pos count, bmp.reads pos count = true) {pos count : Nat}
    (hfit : pos + count ≤ bmp.data.size) :
    bmp.fetch pos count = some ((range count).map fun k => bmp.data.byte (pos + k)) := by
  have hmin : min count (bmp.data.size - pos) = count := by omega
  rw [fetch, pread, hreads, if_pos rfl, hmin, Option.filter_some,
    if_pos (by simp)]

/-- A buffer that has just been read begins with the byte `first` of the bitmap. -/
lemma BitmapCursor.buffers_read {pos first count : Nat} (hcount : 0 < count)
    (hfit : first + count ≤ bmp.data.size) (hpos : 8 * first + shift = pos) :
    BitmapCursor.Buffers bmp shift
      ⟨pos, 0, (range count).map fun k => bmp.data.byte (first + k)⟩ := by
  have hlength : ((range count).map fun k => bmp.data.byte (first + k)).length = count := by
    rw [length_map, length_range]
  refine ⟨first, ?_, hpos, ?_, ?_⟩
  · rw [hlength]
  · rw [hlength]
    exact hfit
  · rw [hlength]
    exact mul_pos (by decide) hcount

/-- The bit that is tested is `shift` bits before that of the block. -/
lemma BitmapCursor.Buffers.used (h : c.Buffers bmp shift) :
    c.used = bmp.data.bit (c.pos - shift) := by
  obtain ⟨first, hbuf, hpos, _, hbound⟩ := h
  have hindex : c.pos - shift = 8 * first + c.bufPos := by omega
  have hdiv : (8 * first + c.bufPos) / 8 = first + c.bufPos / 8 := by omega
  have hmod : (8 * first + c.bufPos) % 8 = c.bufPos % 8 := by omega
  have hlt : c.bufPos / 8 < c.buf.length := by omega
  rw [BitmapCursor.used, AttrData.bit, hindex, hdiv, hmod, hbuf]
  rw [getD_eq_getElem?_getD, getElem?_map, getElem?_range hlt]
  rfl

/-- One bit further there is the end of the bitmap or a cursor with the same shift. -/
lemma BitmapCursor.Buffers.next (hreads : ∀ pos count, bmp.reads pos count = true)
    (hshift : shift < 8) (h : c.Buffers bmp shift) :
    8 * bmp.data.size ≤ c.pos + 1 ∧ c.next bmp = .endOfBitmap ∨
      c.pos + 1 < 8 * bmp.data.size ∧
        ∃ c', c.next bmp = .at c' ∧ c'.pos = c.pos + 1 ∧ c'.Buffers bmp shift := by
  obtain ⟨first, hbuf, hpos, hfit, hbound⟩ := h
  rw [BitmapCursor.next]
  by_cases hend : bmp.data.size ≤ (c.pos + 1) / 8
  · exact .inl ⟨by omega, if_pos hend⟩
  · refine .inr ⟨by omega, ?_⟩
    rw [if_neg hend]
    by_cases hinside : (c.bufPos + 1) / 8 < c.buf.length
    · rw [if_pos hinside]
      exact ⟨_, rfl, rfl, first, hbuf, by dsimp only; omega, hfit, by dsimp only; omega⟩
    · -- The buffer is used up, and the next one begins `shift` bits before the block.
      rw [if_neg hinside]
      generalize hsize : (if bmp.data.size < (c.pos + 1) / 8 + c.buf.length then
        bmp.data.size - (c.pos + 1) / 8 else c.buf.length) = count
      have hcount : 0 < count ∧ (c.pos + 1) / 8 + count ≤ bmp.data.size := by
        split_ifs at hsize <;> omega
      dsimp only
      rw [fetch_eq hreads hcount.2]
      exact ⟨_, rfl, rfl, buffers_read hcount.1 hcount.2 (by omega)⟩

lemma BitmapCursor.next_pos (h : c.next bmp = .at c') : c'.pos = c.pos + 1 := by
  rw [BitmapCursor.next] at h
  by_cases hend : bmp.data.size ≤ (c.pos + 1) / 8
  · rw [if_pos hend] at h
    cases h
  · rw [if_neg hend] at h
    by_cases hinside : (c.bufPos + 1) / 8 < c.buf.length
    · rw [if_pos hinside] at h
      cases h
      rfl
    · rw [if_neg hinside] at h
      dsimp only at h
      split at h
      · cases h
      · cases h
        rfl

lemma DirBitmap.usedFrom_end (hb : 8 * bmp.data.size ≤ b) : bmp.usedFrom b = [] := by
  rw [usedFrom, Nat.sub_eq_zero_of_le hb]
  rfl

lemma DirBitmap.usedFrom_succ (hb : b < 8 * bmp.data.size) :
    bmp.usedFrom b = (if bmp.data.bit b then [b] else []) ++ bmp.usedFrom (b + 1) := by
  obtain ⟨n, hn⟩ : ∃ n, 8 * bmp.data.size - b = n + 1 := ⟨8 * bmp.data.size - b - 1, by omega⟩
  have hn' : 8 * bmp.data.size - (b + 1) = n := by omega
  rw [usedFrom, usedFrom, hn, hn', range'_succ]
  cases hbit : bmp.data.bit b with
  | true => rw [filter_cons_of_pos hbit, if_pos rfl, singleton_append]
  | false =>
    rw [filter_cons_of_neg (by rw [hbit]; exact Bool.false_ne_true),
      if_neg Bool.false_ne_true, nil_append]

lemma DirBitmap.mem_usedFrom :
    k ∈ bmp.usedFrom b ↔ (b ≤ k ∧ k < 8 * bmp.data.size) ∧ bmp.data.bit k = true := by
  rw [usedFrom, mem_filter, mem_range'_1]
  refine and_congr_left fun _ => ?_
  omega

end Bitmap

/-! ## The positions of the entries -/

section Positions

lemma mem_nodeDirents (hx : x ∈ nodeDirents d base entries) :
    ∃ y ∈ entries, x.pos = y.1 + base := by
  obtain ⟨y, hy, rfl⟩ := mem_map.mp hx
  exact ⟨y, (mem_filter.mp hy).1, rfl⟩

lemma nodeDirents_ascending (h : entries.Pairwise fun x y => x.1 < y.1) :
    (nodeDirents d base entries).Pairwise fun x y => x.pos < y.pos := by
  rw [nodeDirents, pairwise_map]
  refine (h.filter _).imp ?_
  intro x y hxy
  exact Nat.add_lt_add_right hxy base

namespace DirContents

variable (contents : DirContents d)

lemma mem_rootDirents (hx : x ∈ nodeDirents d 0 contents.rootEntries) :
    2 ≤ x.pos ∧ x.pos < d.vol.mftRecordSize := by
  obtain ⟨y, hy, hpos⟩ := mem_nodeDirents hx
  have hbounds := contents.rootChain.bounds y hy
  have hfits := contents.rootFits
  omega

variable (a : AllocationContents d contents.root)

/-- The entries of a block in use have positions inside the block. -/
lemma mem_blockDirents (hb : b < 8 * a.bmp.data.size) (hused : a.bmp.data.bit b = true)
    (hx : x ∈ a.blockDirents b) :
    a.blockBase b ≤ x.pos ∧ x.pos < a.blockBase (b + 1) ∧ x.pos < d.endPos a.ia.dataSize := by
  obtain ⟨block, holds⟩ := a.holds b hb hused
  obtain ⟨y, hy, hpos⟩ := mem_nodeDirents hx
  have hbounds := holds.chain.bounds y hy
  have hfits := holds.fits
  have hinside := holds.inside
  rw [Nat.succ_mul] at hinside
  have hnext : a.blockBase (b + 1) = a.blockBase b + contents.root.indexBlockSize := by
    rw [AllocationContents.blockBase, AllocationContents.blockBase, Nat.succ_mul]
    omega
  have hbase : a.blockBase b = b * contents.root.indexBlockSize + d.vol.mftRecordSize := rfl
  rw [endPos]
  omega

lemma blockBase_mono (hle : b ≤ b') : a.blockBase b ≤ a.blockBase b' :=
  Nat.add_le_add_right (Nat.mul_le_mul_right _ hle) _

lemma mem_direntsFrom (hx : x ∈ a.direntsFrom b) :
    ∃ k, b ≤ k ∧ k < 8 * a.bmp.data.size ∧ a.bmp.data.bit k = true ∧ x ∈ a.blockDirents k := by
  obtain ⟨k, hk, hx⟩ := mem_flatMap.mp hx
  obtain ⟨⟨hle, hlt⟩, hused⟩ := mem_usedFrom.mp hk
  exact ⟨k, hle, hlt, hused, hx⟩

lemma le_pos_of_mem_direntsFrom (hx : x ∈ a.direntsFrom b) : a.blockBase b ≤ x.pos := by
  obtain ⟨k, hle, hlt, hused, hx⟩ := contents.mem_direntsFrom a hx
  exact (contents.blockBase_mono a hle).trans (contents.mem_blockDirents a hlt hused hx).1

lemma direntsFrom_end (hb : 8 * a.bmp.data.size ≤ b) : a.direntsFrom b = [] := by
  rw [AllocationContents.direntsFrom, usedFrom_end hb]
  rfl

lemma direntsFrom_succ (hb : b < 8 * a.bmp.data.size) :
    a.direntsFrom b =
      (if a.bmp.data.bit b then a.blockDirents b else []) ++ a.direntsFrom (b + 1) := by
  rw [AllocationContents.direntsFrom, usedFrom_succ hb, flatMap_append]
  congr 1
  cases a.bmp.data.bit b with
  | true => simp
  | false => rfl

/-- From a position on, the blocks before it do not matter. -/
lemma filter_direntsFrom (hb : b ≤ 8 * a.bmp.data.size) (hp : a.blockBase b ≤ p) :
    ((a.direntsFrom 0).filter fun x => p ≤ x.pos) =
      (a.direntsFrom b).filter fun x => p ≤ x.pos := by
  induction b with
  | zero => rfl
  | succ b ih =>
    have hbefore := ih (by omega) ((contents.blockBase_mono a (Nat.le_succ b)).trans hp)
    rw [hbefore, contents.direntsFrom_succ a hb, filter_append]
    cases hused : a.bmp.data.bit b with
    | false => rfl
    | true =>
      have hnone : ((a.blockDirents b).filter fun x => p ≤ x.pos) = [] := by
        apply filter_eq_nil_iff.mpr
        intro x hx
        have := (contents.mem_blockDirents a hb hused hx).2.1
        simpa using lt_of_lt_of_le this hp
      rw [if_pos rfl, hnone, nil_append]

/-- The blocks from `b` on are behind a position before them. -/
lemma filter_direntsFrom_self (hp : p ≤ a.blockBase b) :
    ((a.direntsFrom b).filter fun x => p ≤ x.pos) = a.direntsFrom b := by
  apply filter_eq_self.mpr
  intro x hx
  simpa using hp.trans (contents.le_pos_of_mem_direntsFrom a hx)

lemma direntsFrom_ascending (b : Nat) : (a.direntsFrom b).Pairwise fun x y => x.pos < y.pos := by
  -- Towards the end of the bitmap the blocks become fewer.
  induction hn : 8 * a.bmp.data.size - b generalizing b with
  | zero =>
    rw [contents.direntsFrom_end a (by omega)]
    exact List.Pairwise.nil
  | succ n ih =>
    have hb : b < 8 * a.bmp.data.size := by omega
    have hrest := ih (b + 1) (by omega)
    rw [contents.direntsFrom_succ a hb, pairwise_append]
    cases hused : a.bmp.data.bit b with
    | false => exact ⟨List.Pairwise.nil, hrest, by simp⟩
    | true =>
      obtain ⟨block, holds⟩ := a.holds b hb hused
      refine ⟨nodeDirents_ascending holds.chain.ascending, hrest, ?_⟩
      intro x hx y hy
      exact lt_of_lt_of_le (contents.mem_blockDirents a hb hused hx).2.1
        (contents.le_pos_of_mem_direntsFrom a hy)

end DirContents

end Positions

/-! ## The index blocks -/

section Blocks

variable {σ : Type*} {filldir : σ → Dirent → σ × Int} {d : DirInode} (contents : DirContents d)
  (a : AllocationContents d contents.root)

section

variable {a} {b p shift : Nat}

lemma passedFrom_succ (hb : b < 8 * a.bmp.data.size) (hp : p ≤ a.blockBase (b + 1)) :
    a.passedFrom b p =
      a.blockPassed b p ++ a.passedFrom (b + 1) (a.blockBase (b + 1)) := by
  rw [AllocationContents.passedFrom, AllocationContents.passedFrom, AllocationContents.blockPassed,
    contents.direntsFrom_succ a hb, filter_append, contents.filter_direntsFrom_self a hp,
    contents.filter_direntsFrom_self a (le_refl _)]

lemma mem_passedFrom (hx : x ∈ a.passedFrom b p) : a.blockBase b ≤ x.pos :=
  contents.le_pos_of_mem_direntsFrom a (mem_filter.mp hx).1

/-- The blocks behind do not depend on the position. -/
lemma matches_congr (hk : b < k) (hp : p ≤ a.blockBase (b + 1)) :
    a.Matches shift (a.blockBase (b + 1)) k ↔ a.Matches shift p k := by
  have hall : ∀ q ≤ a.blockBase (b + 1), ∀ entries,
      ((nodeDirents d (a.blockBase k) entries).filter fun x => q ≤ x.pos) =
        nodeDirents d (a.blockBase k) entries := by
    intro q hq entries
    apply filter_eq_self.mpr
    intro x hx
    obtain ⟨y, -, hpos⟩ := mem_nodeDirents hx
    have hle := hq.trans (contents.blockBase_mono a hk)
    rw [decide_eq_true_iff]
    omega
  simp only [AllocationContents.Matches, AllocationContents.Blank, AllocationContents.blockDirents,
    hall p hp, hall _ (le_refl _)]

/-- The entries of the first block are before all blocks behind it. -/
lemma filter_passedFrom (hb : b < 8 * a.bmp.data.size) (hp : p ≤ a.blockBase (b + 1))
    (hk : b < k) :
    ((a.passedFrom b p).filter fun x => x.pos < a.blockBase k) =
      (a.blockPassed b p) ++
        (a.passedFrom (b + 1) (a.blockBase (b + 1))).filter fun x => x.pos < a.blockBase k := by
  rw [passedFrom_succ contents hb hp, filter_append]
  congr 1
  apply filter_eq_self.mpr
  intro x hx
  obtain ⟨hx, -⟩ := mem_filter.mp hx
  cases hused : a.bmp.data.bit b with
  | false =>
    rw [hused] at hx
    cases hx
  | true =>
    rw [hused] at hx
    have hlt := (contents.mem_blockDirents a hb hused hx).2.1
    simpa using lt_of_lt_of_le hlt (contents.blockBase_mono a hk)

lemma AllocationContents.Found.head (hb : b < 8 * a.bmp.data.size)
    (h : a.Found filldir s shift b p) : a.Matches shift p b := by
  apply h b (le_refl b) hb
  have hnone : ((a.passedFrom b p).filter fun x => x.pos < a.blockBase b) = [] := by
    apply filter_eq_nil_iff.mpr
    intro x hx
    simpa using mem_passedFrom contents hx
  rw [hnone]
  rfl

section

variable (hb : b < 8 * a.bmp.data.size) (hp : p ≤ a.blockBase (b + 1))
include hb hp

/-- When all of the first block is accepted, the next block is reached. -/
lemma found_succ_iff
    (hdone : (feed filldir s
      (a.blockPassed b p)).2 = []) :
    a.Found filldir s shift b p ↔
      a.Matches shift p b ∧
        a.Found filldir (feed filldir s
          (a.blockPassed b p)).1
          shift (b + 1) (a.blockBase (b + 1)) := by
  have hfeed : ∀ k, b < k → (feed filldir s
      ((a.passedFrom b p).filter fun x => x.pos < a.blockBase k)).2 =
      (feed filldir (feed filldir s
        (a.blockPassed b p)).1
        ((a.passedFrom (b + 1) (a.blockBase (b + 1))).filter
          fun x => x.pos < a.blockBase k)).2 := by
    intro k hk
    rw [filter_passedFrom contents hb hp hk, feed_append, if_pos hdone]
  constructor
  · intro h
    refine ⟨h.head contents hb, fun k hk hlt hreached => ?_⟩
    rw [matches_congr contents hk hp]
    exact h k (Nat.le_of_succ_le hk) hlt ((hfeed k hk).trans hreached)
  · rintro ⟨hhead, hrest⟩ k hk hlt hreached
    rcases Nat.eq_or_lt_of_le hk with rfl | hk
    · exact hhead
    · rw [← matches_congr contents hk hp]
      exact hrest k hk hlt ((hfeed k hk).symm.trans hreached)

/-- When an entry of the first block is refused, no other block is reached. -/
lemma found_of_refused (hhead : a.Matches shift p b)
    (hrefused : (feed filldir s
      (a.blockPassed b p)).2 ≠ []) :
    a.Found filldir s shift b p := by
  intro k hk hlt hreached
  rcases Nat.eq_or_lt_of_le hk with rfl | hk
  · exact hhead
  · rw [filter_passedFrom contents hb hp hk, feed_append, if_neg hrefused] at hreached
    exact absurd (append_eq_nil_iff.mp hreached).1 hrefused

end

/-- With the bits of the blocks themselves every block matches. -/
lemma found_zero : a.Found filldir s 0 b p := by
  intro k _ _ _
  rw [AllocationContents.Matches, Nat.sub_zero]
  cases a.bmp.data.bit k with
  | true => exact .inl rfl
  | false => exact .inl rfl

variable (filldir) in
/-- The first block is passed for what it is. -/
lemma firstBlock_feeds (hc : BitmapCursor.Buffers a.bmp shift c)
    (hpos : c.pos < 8 * a.bmp.data.size)
    (hblock : iaPos / contents.root.indexBlockSize = c.pos)
    (hmatch : a.Matches shift (iaPos + d.vol.mftRecordSize) c.pos) (w : DirWalk σ) :
    Feeds (if c.used then blockEntries filldir d contents.root a.ia c.pos iaPos w else .ok w)
      (feed filldir w.dirent (a.blockPassed c.pos (iaPos + d.vol.mftRecordSize))) := by
  rw [hc.used, AllocationContents.blockPassed]
  rw [AllocationContents.Matches] at hmatch
  cases hused : a.bmp.data.bit c.pos with
  | true =>
    rw [hused] at hmatch
    obtain ⟨block, holds⟩ := a.holds c.pos hpos hused
    have hfeeds := blockEntries_feeds filldir contents a holds.toBlockReads hblock w
    cases htested : a.bmp.data.bit (c.pos - shift) with
    | true => exact hfeeds
    | false =>
      have hnone := hmatch.resolve_left (by rw [htested]; exact Bool.false_ne_true)
      rw [if_pos rfl, hnone]
      exact feeds_ok
  | false =>
    rw [hused] at hmatch
    cases htested : a.bmp.data.bit (c.pos - shift) with
    | false => exact feeds_ok
    | true =>
      obtain ⟨block, entries, holds, hnone⟩ :=
        hmatch.resolve_left (by rw [htested]; exact Bool.noConfusion)
      have hfeeds := blockEntries_feeds filldir contents a holds hblock w
      rw [hnone] at hfeeds
      exact hfeeds

end

lemma pos_le_blockBase (hblock : iaPos / contents.root.indexBlockSize = b) :
    iaPos + d.vol.mftRecordSize ≤ a.blockBase (b + 1) := by
  have hlt : iaPos < (b + 1) * contents.root.indexBlockSize :=
    (Nat.div_lt_iff_lt_mul contents.blockSize_pos).mp (hblock ▸ Nat.lt_succ_self _)
  exact Nat.add_le_add_right (le_of_lt hlt) _

lemma blockStart_div : (b <<< contents.root.blockBits) / contents.root.indexBlockSize = b := by
  rw [contents.shiftLeft_blockBits]
  exact Nat.mul_div_cancel _ contents.blockSize_pos

lemma blockStart_pos : b <<< contents.root.blockBits + d.vol.mftRecordSize = a.blockBase b := by
  rw [contents.shiftLeft_blockBits]
  rfl

/-- The loop over the blocks passes the entries from a position in the first block on, if
every block matches that is reached. -/
lemma blockLoop_feeds {shift : Nat} (hshift : shift < 8) {c : BitmapCursor}
    (hc : c.Buffers a.bmp shift) (hpos : c.pos < 8 * a.bmp.data.size)
    {iaPos : Nat} (hblock : iaPos / contents.root.indexBlockSize = c.pos) {fuel : Nat}
    (hfuel : 8 * a.bmp.data.size ≤ fuel + c.pos) (w : DirWalk σ)
    (hfound : a.Found filldir w.dirent shift c.pos (iaPos + d.vol.mftRecordSize)) :
    Feeds (blockLoop filldir d contents.root a.ia a.bmp fuel c iaPos w)
      (feed filldir w.dirent (a.passedFrom c.pos (iaPos + d.vol.mftRecordSize))) := by
  induction fuel generalizing c iaPos w with
  | zero => omega
  | succ fuel ih =>
    have hbase := pos_le_blockBase contents a hblock
    rw [passedFrom_succ contents hpos hbase]
    have hfirst := firstBlock_feeds filldir contents hc hpos hblock (hfound.head contents hpos) w
    refine hfirst.bind_of_done fun hdone p => ?_
    obtain ⟨-, hrest⟩ := (found_succ_iff contents hpos hbase hdone).mp hfound
    rcases hc.next a.reads hshift with ⟨hend, hnext⟩ | ⟨hlt, c', hnext, hpos', hc'⟩
    · rw [hnext, AllocationContents.passedFrom, contents.direntsFrom_end a hend]
      exact feeds_ok
    · rw [← hpos'] at hrest ⊢
      rw [hnext]
      have hself := blockStart_pos contents a (b := c'.pos)
      generalize (feed filldir w.dirent
        (a.blockPassed c.pos (iaPos + d.vol.mftRecordSize))).1 = s at hrest ⊢
      have hnextBlock := ih hc' (hpos' ▸ hlt) (blockStart_div contents) (by omega) ⟨p, s⟩
      rw [hself] at hnextBlock
      exact hnextBlock hrest

variable (filldir) in
/-- The search for the blocks begins with the first bit of the byte of the block. -/
lemma allocationLoop_eq (hblock : (w.pos - d.vol.mftRecordSize) / contents.root.indexBlockSize = b)
    (hb : b < 8 * a.bmp.data.size) :
    ∃ c, c.pos = b ∧ BitmapCursor.Buffers a.bmp (b % 8) c ∧
      allocationLoop filldir d contents.root a.ia w =
        blockLoop filldir d contents.root a.ia a.bmp (8 * a.bmp.data.size) c
          (w.pos - d.vol.mftRecordSize) w := by
  have hbyte : b / 8 < a.bmp.data.size := by omega
  have hcount : 0 < min (a.bmp.data.size - b / 8) 4096 ∧
      b / 8 + min (a.bmp.data.size - b / 8) 4096 ≤ a.bmp.data.size := by omega
  refine ⟨_, rfl, BitmapCursor.buffers_read hcount.1 hcount.2 (Nat.div_add_mod b 8), ?_⟩
  rw [allocationLoop, a.bitmap_eq]
  simp only [contents.shiftRight_blockBits, hblock, contents.memory]
  rw [if_neg (not_le.mpr hbyte), fetch_eq a.reads hcount.2]
  rfl

/-- The part of the walk in the index allocation, from a position in block `b` on. -/
lemma allocationLoop_feeds (hpos : d.vol.mftRecordSize ≤ w.pos)
    (hblock : (w.pos - d.vol.mftRecordSize) / contents.root.indexBlockSize = b)
    (hb : b < 8 * a.bmp.data.size) (hfound : a.Found filldir w.dirent (b % 8) b w.pos) :
    Feeds (allocationLoop filldir d contents.root a.ia w)
      (feed filldir w.dirent (a.passedFrom b w.pos)) := by
  obtain ⟨c, rfl, hc, hloop⟩ := allocationLoop_eq filldir contents a hblock hb
  have hback : w.pos - d.vol.mftRecordSize + d.vol.mftRecordSize = w.pos := Nat.sub_add_cancel hpos
  have hfeeds := blockLoop_feeds contents a (Nat.mod_lt _ (by decide)) hc hb hblock
    (Nat.le_add_right ..) w (hback.symm ▸ hfound)
  rw [hback] at hfeeds
  rwa [hloop]

end Blocks

end NtfsDxe
