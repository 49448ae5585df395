import NtfsDxe.Compress.Compressor
import NtfsDxe.Foundation.Splice

/-! # The decompressor

`ntfs_decompress` expands the sub-blocks of a compression block one after the
other. Every pointer of the source is an index here: `cb` into the compressed
bytes and `dest` into the destination buffer. Reading or writing outside these
is a failure of its own, and corrupt input is reported as an overflow.
-/

namespace NtfsDxe

open Foundation

/-- `le16_to_cpup`. -/
def le16 (cbuf : Buffer) (cb : Nat) : Except Failure Nat := do
  let lo ← load cbuf cb
  let hi ← load cbuf (cb + 1)
  return lo.toNat + hi.toNat * 256

/-- The position in the compressed bytes, that in the destination, and the
contents of the destination. -/
structure DecompressState where
  cb : Nat
  dest : Nat
  buf : Buffer
  deriving DecidableEq

/-- `memcpy` from the compressed bytes. -/
def loadBytes (cbuf : Buffer) (cb n : Nat) : Except Failure Buffer :=
  if cb + n ≤ cbuf.length then .ok ((cbuf.drop cb).take n) else .error .outOfBounds

/-- `memcpy` or `memset` to the destination. -/
def storeBytes (buf : Buffer) (dest : Nat) (bytes : Buffer) : Except Failure Buffer :=
  if dest + bytes.length ≤ buf.length then .ok (splice buf dest bytes) else .error .outOfBounds

/-- `memcpy` within the destination, or the byte by byte copy: both go forward
one byte at a time. -/
def copyBytes (buf : Buffer) (dst src : Nat) : Nat → Except Failure Buffer
  | 0 => .ok buf
  | n + 1 =>
    match load buf src with
    | .error failure => .error failure
    | .ok b =>
      match store buf dst b with
      | .error failure => .error failure
      | .ok buf => copyBytes buf (dst + 1) (src + 1) n

/-- `for (i = dest - dest_sb_start - 1; i >= 0x10; i >>= 1) lg++`. -/
def lgOf (i : Nat) : Nat :=
  if 0x10 ≤ i then lgOf (i / 2) + 1 else 0

/-- The part of `ntfs_decompress` for a phrase token. -/
def phraseToken (cbuf : Buffer) (destSbStart destSbEnd : Nat) (s : DecompressState) :
    Except Failure DecompressState := do
  if s.dest = destSbStart then throw (.errno .eoverflow)
  let lg := lgOf (s.dest - destSbStart - 1)
  let pt ← le16 cbuf s.cb
  let maxNonOverlap := pt / 2 ^ (12 - lg) + 1
  if s.dest - destSbStart < maxNonOverlap then throw (.errno .eoverflow)
  let destBackAddr := s.dest - maxNonOverlap
  let length := pt % 2 ^ (12 - lg) + 3
  if destSbEnd < s.dest + length then throw (.errno .eoverflow)
  if length ≤ maxNonOverlap then
    let buf ← copyBytes s.buf s.dest destBackAddr length
    return { cb := s.cb + 2, dest := s.dest + length, buf := buf }
  else
    let buf ← copyBytes s.buf s.dest destBackAddr maxNonOverlap
    let buf ← copyBytes buf (s.dest + maxNonOverlap) (destBackAddr + maxNonOverlap)
      (length - maxNonOverlap)
    return { cb := s.cb + 2, dest := s.dest + length, buf := buf }

/-- The part of `ntfs_decompress` for a symbol token. -/
def symbolToken (cbuf : Buffer) (s : DecompressState) : Except Failure DecompressState := do
  let b ← load cbuf s.cb
  let buf ← store s.buf s.dest b
  return { cb := s.cb + 1, dest := s.dest + 1, buf := buf }

/-- `for (token = 0; token < 8; token++, tag >>= 1)`, with the number of tokens
left. -/
def tokenLoop (cbuf : Buffer) (cbSbEnd destSbStart destSbEnd : Nat) :
    (tokens tag : Nat) → DecompressState → Except Failure DecompressState
  | 0, _, s => .ok s
  | tokens + 1, tag, s =>
    if cbSbEnd ≤ s.cb ∨ destSbEnd < s.dest then .ok s
    else
      match (if tag % 2 = 0 then symbolToken cbuf s
          else phraseToken cbuf destSbStart destSbEnd s) with
      | .error failure => .error failure
      | .ok s => tokenLoop cbuf cbSbEnd destSbStart destSbEnd tokens (tag / 2) s

lemma symbolToken_cb (hok : symbolToken cbuf s = .ok s') : s'.cb = s.cb + 1 := by
  unfold symbolToken at hok
  simp only [bind, Except.bind] at hok
  split at hok
  next => cases hok
  next =>
    split at hok
    next => cases hok
    next =>
      cases hok
      rfl

lemma phraseToken_cb (hok : phraseToken cbuf destSbStart destSbEnd s = .ok s') :
    s'.cb = s.cb + 2 := by
  unfold phraseToken at hok
  simp only [bind, Except.bind] at hok
  repeat' split at hok
  all_goals cases hok
  all_goals rfl

lemma tokenLoop_cb_le (hok : tokenLoop cbuf cbSbEnd destSbStart destSbEnd tokens tag s = .ok s') :
    s.cb ≤ s'.cb := by
  induction tokens generalizing tag s with
  | zero =>
    cases hok
    exact le_refl _
  | succ tokens ih =>
    rw [tokenLoop] at hok
    split at hok
    next =>
      cases hok
      exact le_refl _
    next =>
      split at hok
      next => cases hok
      next s'' htoken =>
        have hrest := ih hok
        split at htoken
        next =>
          have hcb := symbolToken_cb htoken
          omega
        next =>
          have hcb := phraseToken_cb htoken
          omega

/-- From `do_next_tag` to the end of the sub-block. -/
def tagLoop (cbuf : Buffer) (cbSbEnd destSbStart destSbEnd : Nat) (s : DecompressState) :
    Except Failure DecompressState :=
  if s.cb = cbSbEnd then
    if s.dest < destSbEnd then
      -- Zero remainder and update destination position.
      (storeBytes s.buf s.dest (List.replicate (destSbEnd - s.dest) 0)).map fun buf =>
        { s with dest := destSbEnd, buf := buf }
    else .ok s
  else if cbSbEnd < s.cb ∨ destSbEnd < s.dest then .error (.errno .eoverflow)
  else
    match load cbuf s.cb with
    | .error failure => .error failure
    | .ok tag =>
      match _hok : tokenLoop cbuf cbSbEnd destSbStart destSbEnd 8 tag.toNat
          { s with cb := s.cb + 1 } with
      | .error failure => .error failure
      | .ok s' => tagLoop cbuf cbSbEnd destSbStart destSbEnd s'
termination_by cbSbEnd - s.cb
decreasing_by
  have hle := tokenLoop_cb_le _hok
  dsimp only at hle
  omega

lemma tagLoop_cb (hok : tagLoop cbuf cbSbEnd destSbStart destSbEnd s = .ok s') :
    s'.cb = cbSbEnd := by
  induction hk : cbSbEnd - s.cb using Nat.strongRecOn generalizing s with
  | ind k ih =>
    rw [tagLoop] at hok
    split at hok
    next hend =>
      split at hok
      · unfold Except.map at hok
        split at hok
        · cases hok
        · cases hok
          exact hend
      · cases hok
        exact hend
    next hnot =>
      split at hok
      next => cases hok
      next hin =>
        split at hok
        next => cases hok
        next tag _ =>
          split at hok
          next => cases hok
          next s'' htokens =>
            have hle := tokenLoop_cb_le htokens
            dsimp only at hle
            exact ih _ (by omega) hok rfl

/-- From `do_next_sb` to the end of the compression block. -/
def sbLoop (destSize cbSize : Nat) (cbuf : Buffer) (s : DecompressState) :
    Except Failure DecompressState :=
  if s.cb = cbSize then .ok s
  else
    match le16 cbuf s.cb with
    | .error failure => .error failure
    | .ok header =>
      if header = 0 ∨ s.dest = destSize then .ok s
      else
        let destSbEnd := s.dest + sbSize
        let cbSbEnd := s.cb + header % 0x1000 + 3
        if destSize < destSbEnd ∨ cbSize < s.cb + 6 ∨ cbSize < cbSbEnd then
          .error (.errno .eoverflow)
        else if header / 0x8000 = 0 then
          -- An uncompressed sub-block must be full size.
          if cbSbEnd - (s.cb + 2) ≠ sbSize then .error (.errno .eoverflow)
          else
            match (loadBytes cbuf (s.cb + 2) sbSize).bind (storeBytes s.buf s.dest) with
            | .error failure => .error failure
            | .ok buf =>
              sbLoop destSize cbSize cbuf
                { cb := s.cb + 2 + sbSize, dest := s.dest + sbSize, buf := buf }
        else
          match _hok : tagLoop cbuf cbSbEnd s.dest destSbEnd { s with cb := s.cb + 2 } with
          | .error failure => .error failure
          | .ok s' => sbLoop destSize cbSize cbuf s'
termination_by cbSize - s.cb
decreasing_by
  · omega
  · have hcb := tagLoop_cb _hok
    omega

/-- `ntfs_decompress` on memory that may be longer than the sizes passed for it. -/
def decompress (destSize cbSize : Nat) (dest cbuf : Buffer) : Except Failure DecompressState :=
  sbLoop destSize cbSize cbuf { cb := 0, dest := 0, buf := dest }

/-- `ntfs_decompress`: the destination on success. -/
def ntfsDecompress (dest cbuf : Buffer) : Except Failure Buffer :=
  (decompress dest.length cbuf.length dest cbuf).map DecompressState.buf

end NtfsDxe
