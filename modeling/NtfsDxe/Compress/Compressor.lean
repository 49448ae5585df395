import NtfsDxe.Core.Machine

/-! # The compressor

A compression block is compressed in sub-blocks of 4096 bytes. Within a
sub-block a binary tree of the positions met so far serves to find the longest
earlier sequence that matches the current position; the output is a sequence of
literal bytes and phrases, in groups of eight under a tag byte that tells them
apart. The definitions follow `compress.c`.
-/

namespace NtfsDxe

open Foundation

def sbSize : Nat := 0x1000

/-- A byte of the sub-block; the compressor reads no others. -/
def byteAt (inbuf : Buffer) (k : Nat) : UInt8 := inbuf.getD k 0

/-! ## Searching for a match -/

/-- `struct COMPRESS_CONTEXT`, where `none` stands for the tree index `-1`. -/
structure CompressContext where
  head : UInt8 → Option Nat
  lson : Nat → Option Nat
  rson : Nat → Option Nat
  size : Nat
  rel : Int
  mxsz : Nat

def CompressContext.initial : CompressContext :=
  { head := fun _ => none, lson := fun _ => none, rson := fun _ => none, size := 0, rel := 0,
    mxsz := 2 ^ 12 + 2 }

/-- `*prev`, the left or right son of a node. -/
def CompressContext.son (ctx : CompressContext) (left : Bool) (node : Nat) : Option Nat :=
  if left then ctx.lson node else ctx.rson node

/-- `*prev = i`. -/
def CompressContext.setSon (ctx : CompressContext) (left : Bool) (node i : Nat) :
    CompressContext :=
  if left then { ctx with lson := Function.update ctx.lson node (some i) }
  else { ctx with rson := Function.update ctx.rson node (some i) }

/-- The end of the sequence at `i` that agrees with the one at `node`, compared
from `e` on. The source counts `e` from `maxpos` downwards. -/
def matchEnd (inbuf : Buffer) (node i maxpos e : Nat) : Nat :=
  if e < maxpos ∧ byteAt inbuf e = byteAt inbuf (e + node - i) then
    matchEnd inbuf node i maxpos (e + 1)
  else e
termination_by maxpos - e

/-- The walk down the tree in `ntfs_best_match`: the context with the position
inserted if a leaf was reached, and the end and node of the best match. The walk
visits no node twice, so the number of steps is limited by that of positions. -/
def searchTree (inbuf : Buffer) (i maxpos : Nat) :
    (steps : Nat) → CompressContext → (node bestEnd bestNode : Nat) →
      Option (CompressContext × Nat × Nat)
  | 0, _, _, _, _ => none
  | steps + 1, ctx, node, bestEnd, bestNode =>
    let e := matchEnd inbuf node i maxpos (i + 1)
    let best := if bestEnd < e then (e, node) else (bestEnd, bestNode)
    let left := decide (e < maxpos ∧ byteAt inbuf e < byteAt inbuf (e + node - i))
    match ctx.son left node with
    | none => some (ctx.setSon left node i, best)
    | some next =>
      if e < maxpos then searchTree inbuf i maxpos steps ctx next best.1 best.2
      else some (ctx, best)

def bestMatch (inbuf : Buffer) (ctx : CompressContext) (i : Nat) : Option CompressContext :=
  match ctx.head (byteAt inbuf i) with
  | none =>
    some { ctx with
      head := Function.update ctx.head (byteAt inbuf i) (some i), size := 0, rel := 0 }
  | some node =>
    let maxpos := if i + ctx.mxsz < inbuf.length then i + ctx.mxsz else inbuf.length
    if i + 1 < maxpos then
      match searchTree inbuf i maxpos sbSize ctx node (i + 1) node with
      | none => none
      | some (ctx, bestEnd, bestNode) =>
        some { ctx with size := bestEnd - i, rel := bestNode - i }
    else some { ctx with size := 1, rel := node - i }

/-- `if (done < i) do ntfs_best_match(pctx, ++done); while (done < i)`, where
`searched` is `done + 1`, the number of positions already searched. -/
def searchUpTo (inbuf : Buffer) (ctx : CompressContext) (searched i : Nat) :
    Option CompressContext :=
  if searched ≤ i then
    match bestMatch inbuf ctx searched with
    | none => none
    | some ctx => searchUpTo inbuf ctx (searched + 1) i
  else some ctx
termination_by i + 1 - searched

/-! ## Compressing a sub-block -/

/-- `while (mxoff < i) { bp++; mxoff <<= 1; mxsz = (mxsz + 2) >> 1; }` with
`mxoff = 1 << bp`. -/
def adjustSplit (i bp mxsz : Nat) : Nat × Nat :=
  if 2 ^ bp < i then adjustSplit i (bp + 1) ((mxsz + 2) / 2) else (bp, mxsz)
termination_by i - 2 ^ bp
decreasing_by
  have hpos : 0 < 2 ^ bp := Nat.two_pow_pos bp
  rw [Nat.pow_succ]
  omega

/-- The variables of the loop in `ntfs_compress_block`. The output so far is
`outbuf[0 .. xout)`, with a placeholder where a tag is still to be stored, and
`searched` is `done + 1`. -/
structure BlockState where
  ctx : CompressContext
  out : Buffer
  i : Nat
  bp : Nat
  searched : Nat
  tag : Nat
  ntag : Nat
  ptag : Nat

/-- Store the tag if fully used, and reserve a place for the next one. -/
def BlockState.countToken (s : BlockState) : BlockState :=
  if s.ntag - 1 = 0 then
    { s with out := s.out.set s.ptag (UInt8.ofNat s.tag) ++ [0], ntag := 8, ptag := s.out.length,
             tag := 0 }
  else { s with ntag := s.ntag - 1 }

def BlockState.putSymbol (s : BlockState) (b : UInt8) : BlockState :=
  { s with out := s.out ++ [b], i := s.i + 1 }.countToken

/-- Issue a phrase for the match at relative position `offs` that ends at `j`. -/
def BlockState.putPhrase (s : BlockState) (offs : Int) (j : Nat) : BlockState :=
  let q : Int := (-offs - 1) * 2 ^ (16 - s.bp) + (j - s.i - 3)
  { s with out := s.out ++ [SignedBytes.lowByte q, SignedBytes.lowByte (q / 256)],
           tag := s.tag ||| 1 <<< (8 - s.ntag), i := j }.countToken

/-- The longest run that the phrase after this position can describe. -/
def BlockState.mxsz2 (s : BlockState) : Nat :=
  if 2 ^ s.bp ≤ s.i then (s.ctx.mxsz + 2) / 2 else s.ctx.mxsz

/-- Issue a token for the current position, whose best match is in the context.
A phrase is deferred if there is a better run at the next position. -/
def BlockState.issueToken (inbuf : Buffer) (s : BlockState) : Option BlockState :=
  let j := s.i + min s.ctx.size s.ctx.mxsz
  if 2 < j - s.i then
    match bestMatch inbuf s.ctx (s.i + 1) with
    | none => none
    | some next =>
      let k := s.i + min (1 + next.size) s.mxsz2
      let s' := { s with ctx := next, searched := s.i + 2 }
      if j + 1 < k then some (s'.putSymbol (byteAt inbuf s.i))
      else some (s'.putPhrase s.ctx.rel j)
  else some (s.putSymbol (byteAt inbuf s.i))

/-- One pass of the loop in `ntfs_compress_block`. -/
def compressStep (inbuf : Buffer) (s : BlockState) : Option BlockState :=
  let split := adjustSplit s.i s.bp s.ctx.mxsz
  match searchUpTo inbuf { s.ctx with mxsz := split.2 } s.searched s.i with
  | none => none
  | some ctx =>
    { s with ctx := ctx, bp := split.1, searched := max s.searched (s.i + 1) }.issueToken inbuf

@[simp] lemma BlockState.countToken_i (s : BlockState) : s.countToken.i = s.i := by
  unfold BlockState.countToken
  split <;> rfl

variable {s s' : BlockState}

/-- A token is a single byte, or a phrase for a match of at least three bytes; in
both cases the next position may have been searched as well. -/
lemma BlockState.issueToken_cases (hissue : s.issueToken inbuf = some s') :
    s' = s.putSymbol (byteAt inbuf s.i) ∨
    2 < min s.ctx.size s.ctx.mxsz ∧ ∃ next, bestMatch inbuf s.ctx (s.i + 1) = some next ∧
      (s' = { s with ctx := next, searched := s.i + 2 }.putSymbol (byteAt inbuf s.i) ∨
        s' = { s with ctx := next, searched := s.i + 2 }.putPhrase s.ctx.rel
          (s.i + min s.ctx.size s.ctx.mxsz)) := by
  unfold BlockState.issueToken at hissue
  dsimp only at hissue
  split at hissue
  next hlong =>
    refine .inr ⟨by omega, ?_⟩
    cases hnext : bestMatch inbuf s.ctx (s.i + 1) with
    | none => simp [hnext] at hissue
    | some next =>
      rw [hnext] at hissue
      dsimp only at hissue
      refine ⟨next, rfl, ?_⟩
      split at hissue
      next => exact .inl (Option.some.inj hissue).symm
      next => exact .inr (Option.some.inj hissue).symm
  next => exact .inl (Option.some.inj hissue).symm

lemma BlockState.issueToken_progress (hissue : s.issueToken inbuf = some s') : s.i < s'.i := by
  rcases s.issueToken_cases hissue with rfl | ⟨hlong, next, _, rfl | rfl⟩
  · simp [BlockState.putSymbol]
  · simp [BlockState.putSymbol]
  · simp only [BlockState.putPhrase, BlockState.countToken_i]
    omega

lemma compressStep_progress (hstep : compressStep inbuf s = some s') : s.i < s'.i := by
  unfold compressStep at hstep
  dsimp only at hstep
  split at hstep
  next => cases hstep
  next =>
    have hlt := BlockState.issueToken_progress hstep
    exact hlt

/-- `while ((i < bufsize) && (xout < (NTFS_SB_SIZE + 2)))`. -/
def compressLoop (inbuf : Buffer) (s : BlockState) : Option BlockState :=
  if s.i < inbuf.length ∧ s.out.length < sbSize + 2 then
    match _hstep : compressStep inbuf s with
    | none => none
    | some s' => compressLoop inbuf s'
  else some s
termination_by inbuf.length - s.i
decreasing_by
  have hlt := compressStep_progress _hstep
  omega

/-- The state before the first position: the header and a tag are reserved. -/
def BlockState.initial : BlockState :=
  { ctx := CompressContext.initial, out := [0, 0, 0], i := 0, bp := 4, searched := 0, tag := 0,
    ntag := 8, ptag := 2 }

def BlockState.lastTag (s : BlockState) : Buffer :=
  if s.ntag = 8 then s.out.dropLast else s.out.set s.ptag (UInt8.ofNat s.tag)

/-- A sub-block stored as it is, filled up to its full size. -/
def rawBlock (inbuf : Buffer) : Buffer :=
  [0xff, 0x3f] ++ (inbuf ++ List.replicate (sbSize - inbuf.length) 0)

/-- `ntfs_compress_block`: the output, which is empty if there is no memory for
the context. -/
def compressBlock (hasMemory : Bool) (inbuf : Buffer) : Option Buffer :=
  if hasMemory then
    match compressLoop inbuf BlockState.initial with
    | none => none
    | some s =>
      let out := s.lastTag
      if inbuf.length ≤ s.i ∧ out.length < sbSize + 2 then
        some ((out.set 0 (UInt8.ofNat (out.length - 3))).set 1
          (UInt8.ofNat (0xb0 + (out.length - 3) / 256 % 16)))
      else some (rawBlock inbuf)
  else some []

/-! ## Compressing a set of blocks -/

/-- The sizes of an attribute's compression blocks. A compression block consists
of sub-blocks and of clusters, and its size is computed as an `int`. -/
structure CompressionUnit where
  clusterSizeBits : Nat
  blockSize : Nat
  sbSize_dvd : sbSize ∣ blockSize
  clusterSize_dvd : 2 ^ clusterSizeBits ∣ blockSize
  blockSize_le : blockSize ≤ 2 ^ 31

def onezero : Buffer := [0x01, 0xb0, 0x00, 0x00]

def twozeroes : Buffer := [0x02, 0xb0, 0x00, 0x00, 0x00]

/-- More compressed zeroes, to be followed by some count. -/
def morezeroes : Buffer := [0x03, 0xb0, 0x02, 0x00]

/-- The check whether a compressed sub-block is all zeroes. -/
def isAllZeroes (pbuf : Buffer) : Bool :=
  if pbuf.length = 4 then pbuf.take 4 == onezero
  else if pbuf.length = 5 then pbuf.take 5 == twozeroes
  else if pbuf.length = 6 then pbuf.take 4 == morezeroes
  else false

/-- The loop of `ntfs_comp_set` over the sub-blocks still to be compressed: the
output so far and whether it is all zeroes, or `none` once a sub-block failed.
Sizes are added as `u32`. -/
def compSetLoop (unit : CompressionUnit) (hasMemory : Nat → Bool) (inbuf out : Buffer)
    (allzeroes : Bool) : Option (Option (Buffer × Bool)) :=
  if inbuf.length = 0 then some (some (out, allzeroes))
  else
    match compressBlock (hasMemory inbuf.length) (inbuf.take sbSize) with
    | none => none
    | some pbuf =>
      if pbuf.length = 0 ∨
          unit.blockSize < (out.length + pbuf.length + 2 ^ unit.clusterSizeBits + 2) % 2 ^ 32 then
        some none
      else
        compSetLoop unit hasMemory (inbuf.drop sbSize) (out ++ pbuf)
          (allzeroes && isAllZeroes pbuf)
termination_by inbuf.length
decreasing_by
  simp only [List.length_drop, sbSize]
  omega

/-- What `ntfs_comp_set` reports, given that the clusters can be written. -/
inductive CompSet where
  /-- Could not compress, the result `-1`. -/
  | failed
  /-- All zeroes, the result `0`. -/
  | zeroes
  /-- The compressed stream, followed in the last cluster by what the buffer held. -/
  | stream (outbuf : Buffer)
  deriving DecidableEq

/-- `ntfs_comp_set`. Whether memory is available is asked for the output and for
each sub-block. -/
def compSet (unit : CompressionUnit) (hasOutbuf : Bool) (hasMemory : Nat → Bool)
    (inbuf : Buffer) : Option CompSet :=
  if hasOutbuf then
    match compSetLoop unit hasMemory inbuf [] true with
    | none => none
    | some none => some .failed
    | some (some (out, allzeroes)) =>
      if allzeroes then some .zeroes else some (.stream (out ++ [0, 0]))
  else some .failed

end NtfsDxe
