import NtfsDxe.Compress.Places
import NtfsDxe.Compress.RoundTrip

/-! # What the decompressor reads and writes

The decompressor appends to the destination, and copies within it only what it
has appended. So what it appends does not depend on the destination, and what it
does not reach keeps its contents. A stream may have too few sub-blocks for its
destination. Headers and phrase tokens have two bytes of which only the first is
checked, and a symbol token is still accepted at the very end of a sub-block: each
buffer may be left by one byte.
-/

namespace NtfsDxe

open Foundation List

variable {cbuf out : Buffer} {size cb src n destSize cbSize destSbStart destSbEnd cbSbEnd : Nat}

/-! ## Appending -/

/-- The state after `out` was written to the front of the memory `mem`. -/
abbrev decompressed (mem : Buffer) (cb : Nat) (out : Buffer) : DecompressState :=
  { cb := cb, dest := out.length, buf := out ++ mem.drop out.length }

/-- On all memory of a size, a step ends with an overflow, or it ends with the same
bytes appended. -/
def Appends (size : Nat) (step : DecompressState → Except Failure DecompressState) (cb : Nat)
    (out : Buffer) (P : Nat → Prop) : Prop :=
  (∀ mem : Buffer, mem.length = size →
      step (decompressed mem cb out) = .error (.errno .eoverflow)) ∨
    ∃ cb' out', P cb' ∧ ∀ mem : Buffer, mem.length = size →
      step (decompressed mem cb out) = .ok (decompressed mem cb' out')

section Steps

lemma Appends.congr (hnext : Appends size step cb₀ out₀ Q)
    (hwhole : ∀ mem : Buffer, mem.length = size →
      whole (decompressed mem cb out) = step (decompressed mem cb₀ out₀)) :
    Appends size whole cb out Q := by
  rcases hnext with hover | ⟨cb', out', hQ, hok⟩
  · exact .inl fun mem hmem => (hwhole mem hmem).trans (hover mem hmem)
  · exact .inr ⟨cb', out', hQ, fun mem hmem => (hwhole mem hmem).trans (hok mem hmem)⟩

lemma Appends.trans (hstep : Appends size step cb₀ out₀ P)
    (hk : ∀ cb' out', P cb' → Appends size k cb' out' Q)
    (hover : ∀ mem failure, step (decompressed mem cb₀ out₀) = .error failure →
      whole (decompressed mem cb out) = .error failure)
    (hok : ∀ mem s', step (decompressed mem cb₀ out₀) = .ok s' →
      whole (decompressed mem cb out) = k s') : Appends size whole cb out Q := by
  rcases hstep with herror | ⟨cb', out', hP, hdone⟩
  · exact .inl fun mem hmem => hover mem _ (herror mem hmem)
  · exact (hk cb' out' hP).congr fun mem hmem => hok mem _ (hdone mem hmem)

end Steps

lemma splice_appended (mem out bytes : Buffer) :
    splice (out ++ mem.drop out.length) out.length bytes =
      out ++ bytes ++ mem.drop (out ++ bytes).length := by
  rw [splice]
  simp [drop_drop]

lemma storeBytes_appended {mem bytes : Buffer} (hfit : (out ++ bytes).length ≤ mem.length) :
    storeBytes (out ++ mem.drop out.length) out.length bytes =
      .ok (out ++ bytes ++ mem.drop (out ++ bytes).length) := by
  rw [length_append] at hfit
  rw [storeBytes, if_pos (by simp; omega), splice_appended]

lemma store_appended {mem : Buffer} (hfit : out.length < mem.length) :
    store (out ++ mem.drop out.length) out.length b =
      .ok (out ++ [b] ++ mem.drop (out ++ [b]).length) := by
  have hlt : out.length < (out ++ mem.drop out.length).length := by simp; omega
  rw [store_ok b hlt, set_eq_splice b hlt, splice_appended]

lemma copyBytes_appends (hsrc : src < out.length) (hfit : out.length + n ≤ size) :
    ∃ out' : Buffer, out'.length = out.length + n ∧ ∀ mem : Buffer, mem.length = size →
      copyBytes (out ++ mem.drop out.length) out.length src n =
        .ok (out' ++ mem.drop out'.length) := by
  induction n generalizing src out with
  | zero => exact ⟨out, rfl, fun _ _ => rfl⟩
  | succ n ih =>
    have hlen : (out ++ [out[src]]).length = out.length + 1 := length_append
    obtain ⟨out', hlength, hcopy⟩ := ih
      (by omega : src + 1 < (out ++ [out[src]]).length) (by omega)
    refine ⟨out', by omega, fun mem hmem => ?_⟩
    have hload : load (out ++ mem.drop out.length) src = .ok out[src] :=
      load_ok (by rw [getElem?_append_left hsrc, getElem?_eq_getElem hsrc])
    have hrest := hcopy mem hmem
    rw [hlen] at hrest
    rw [copyBytes, hload]
    dsimp only
    rw [store_appended (by omega), hlen]
    exact hrest

/-! ## Tokens and sub-blocks -/

lemma symbolToken_appends (hcb : cb < cbuf.length) (hroom : out.length < size) :
    Appends size (symbolToken cbuf) cb out (cb ≤ ·) := by
  obtain ⟨b, hb⟩ : ∃ b, load cbuf cb = .ok b := ⟨_, load_inside hcb⟩
  refine .inr ⟨cb + 1, out ++ [b], Nat.le_succ cb, fun mem hmem => ?_⟩
  simp [symbolToken, hb, bind, Except.bind, store_appended (hmem ▸ hroom), pure, Except.pure]

lemma phraseToken_appends (hcb : cb + 1 < cbuf.length) (hroom : destSbEnd ≤ size) :
    Appends size (phraseToken cbuf destSbStart destSbEnd) cb out (cb ≤ ·) := by
  obtain ⟨pt, hpt⟩ : ∃ pt, le16 cbuf cb = .ok pt := ⟨_, le16_inside hcb⟩
  obtain ⟨back, hback⟩ : ∃ back, pt / 2 ^ (12 - lgOf (out.length - destSbStart - 1)) + 1 = back :=
    ⟨_, rfl⟩
  obtain ⟨length, hlength⟩ :
      ∃ length, pt % 2 ^ (12 - lgOf (out.length - destSbStart - 1)) + 3 = length := ⟨_, rfl⟩
  have hpos : 1 ≤ back := hback ▸ Nat.succ_pos _
  by_cases hfirst : out.length = destSbStart
  · refine .inl fun mem _ => ?_
    simp [phraseToken, hfirst, throw, throwThe, MonadExceptOf.throw, bind, Except.bind]
  by_cases hfar : out.length - destSbStart < back
  · refine .inl fun mem _ => ?_
    simp [phraseToken, hpt, hback, hfar, throw, throwThe, MonadExceptOf.throw, bind, Except.bind]
  by_cases hlong : destSbEnd < out.length + length
  · refine .inl fun mem _ => ?_
    simp [phraseToken, hpt, hlength, hlong, throw, throwThe, MonadExceptOf.throw, bind, Except.bind]
  have hsrc : out.length - back < out.length := by omega
  right
  by_cases hoverlap : length ≤ back
  · obtain ⟨out', hlen, hcopy⟩ := copyBytes_appends hsrc (by omega : out.length + length ≤ size)
    refine ⟨cb + 2, out', by omega, fun mem hmem => ?_⟩
    simp [phraseToken, hpt, hback, hlength, hfirst, hfar, hlong, hoverlap,
      hcopy mem hmem, hlen, bind, Except.bind, pure, Except.pure]
  · -- The second copy goes on where the first one ended.
    obtain ⟨out', hlen, hcopy⟩ := copyBytes_appends hsrc (by omega : out.length + back ≤ size)
    obtain ⟨out'', hlen', hcopy'⟩ := copyBytes_appends
      (by omega : out.length - back + back < out'.length)
      (by omega : out'.length + (length - back) ≤ size)
    refine ⟨cb + 2, out'', by omega, fun mem hmem => ?_⟩
    have hnext := hcopy' mem hmem
    have hend : out''.length = out.length + length := by omega
    rw [hlen] at hnext
    simp [phraseToken, hpt, hback, hlength, hfirst, hfar, hlong, hoverlap,
      hcopy mem hmem, hlen, hnext, hend, bind, Except.bind, pure, Except.pure]

lemma tokenLoop_appends (hcb : cbSbEnd < cbuf.length) (hroom : destSbEnd < size) :
    Appends size (tokenLoop cbuf cbSbEnd destSbStart destSbEnd tokens tag) cb out (cb ≤ ·) := by
  induction tokens generalizing tag cb out with
  | zero => exact .inr ⟨cb, out, le_rfl, fun _ _ => rfl⟩
  | succ tokens ih =>
    by_cases hdone : cbSbEnd ≤ cb ∨ destSbEnd < out.length
    · refine .inr ⟨cb, out, le_rfl, fun mem _ => ?_⟩
      simp [tokenLoop, hdone]
    · have htoken : Appends size (fun s => if tag % 2 = 0 then symbolToken cbuf s
          else phraseToken cbuf destSbStart destSbEnd s) cb out (cb ≤ ·) := by
        split
        · exact symbolToken_appends (by omega) (by omega)
        · exact phraseToken_appends (by omega) (by omega)
      refine htoken.trans (k := tokenLoop cbuf cbSbEnd destSbStart destSbEnd tokens (tag / 2))
        (fun cb' out' hle => ?_) (fun mem failure herror => ?_) (fun mem s' hok => ?_)
      · rcases @ih out' cb' (tag / 2) with hover | ⟨cb'', out'', hle', hok⟩
        · exact .inl hover
        · exact .inr ⟨cb'', out'', hle.trans hle', hok⟩
      · rw [tokenLoop, if_neg hdone, herror]
      · rw [tokenLoop, if_neg hdone, hok]

lemma tagLoop_appends (hcb : cbSbEnd < cbuf.length) (hroom : destSbEnd < size) :
    Appends size (tagLoop cbuf cbSbEnd destSbStart destSbEnd) cb out (· = cbSbEnd) := by
  induction hk : cbSbEnd - cb using Nat.strongRecOn generalizing cb out with
  | ind k ih =>
    by_cases hend : cb = cbSbEnd
    · right
      by_cases hshort : out.length < destSbEnd
      · have hlen : (out ++ replicate (destSbEnd - out.length) (0 : UInt8)).length = destSbEnd := by
          simp
          omega
        refine ⟨cb, out ++ replicate (destSbEnd - out.length) 0, hend, fun mem hmem => ?_⟩
        rw [tagLoop, if_pos hend, if_pos hshort]
        dsimp only [decompressed]
        rw [storeBytes_appended (by omega), hlen]
        rfl
      · refine ⟨cb, out, hend, fun mem _ => ?_⟩
        rw [tagLoop, if_pos hend, if_neg hshort]
    by_cases hover : cbSbEnd < cb ∨ destSbEnd < out.length
    · refine .inl fun mem _ => ?_
      rw [tagLoop, if_neg hend, if_pos hover]
    obtain ⟨tag, htag⟩ : ∃ tag, load cbuf cb = .ok tag := ⟨_, load_inside (by omega)⟩
    have htokens : Appends size (tokenLoop cbuf cbSbEnd destSbStart destSbEnd 8 tag.toNat) (cb + 1)
        out (cb + 1 ≤ ·) := tokenLoop_appends hcb hroom
    refine htokens.trans (fun cb' out' hle => ih (cbSbEnd - cb') (by omega) rfl)
      (fun mem failure herror => ?_) (fun mem s' hok => ?_)
    all_goals
      rw [tagLoop, if_neg hend, if_neg hover]
      simp only [htag] at *
      split <;> simp_all

/-- The whole decompression appends, if there is one more byte behind both buffers. -/
lemma sbLoop_appends (hcbuf : cbSize < cbuf.length) (hroom : destSize < size)
    (hcb : cb ≤ cbSize) : Appends size (sbLoop destSize cbSize cbuf) cb out fun _ => True := by
  induction hk : cbSize - cb using Nat.strongRecOn generalizing cb out with
  | ind k ih =>
    by_cases hend : cb = cbSize
    · refine .inr ⟨cb, out, trivial, fun mem _ => ?_⟩
      rw [sbLoop, if_pos hend]
    obtain ⟨header, hheader⟩ : ∃ header, le16 cbuf cb = .ok header := ⟨_, le16_inside (by omega)⟩
    have hloop : ∀ mem, sbLoop destSize cbSize cbuf (decompressed mem cb out) = _ :=
      fun mem => sbLoop.eq_def ..
    simp only [hend, if_false, hheader] at hloop
    by_cases hdone : header = 0 ∨ out.length = destSize
    · refine .inr ⟨cb, out, trivial, fun mem _ => ?_⟩
      rw [hloop, if_pos hdone]
    by_cases hover : destSize < out.length + sbSize ∨ cbSize < cb + 6 ∨
        cbSize < cb + header % 0x1000 + 3
    · refine .inl fun mem _ => ?_
      rw [hloop, if_neg hdone, if_pos hover]
    by_cases hraw : header / 0x8000 = 0
    · by_cases hsize : cb + header % 0x1000 + 3 - (cb + 2) ≠ sbSize
      · refine .inl fun mem _ => ?_
        rw [hloop, if_neg hdone, if_neg hover, if_pos hraw, if_pos hsize]
      · set bytes := (cbuf.drop (cb + 2)).take sbSize with hbytes
        have hlen : (out ++ bytes).length = out.length + sbSize := by
          simp [hbytes]
          omega
        have hload : loadBytes cbuf (cb + 2) sbSize = .ok bytes := if_pos (by omega)
        have hrest : Appends size (sbLoop destSize cbSize cbuf) (cb + 2 + sbSize) (out ++ bytes)
            fun _ => True := ih (cbSize - (cb + 2 + sbSize)) (by omega) (by omega) rfl
        refine hrest.congr fun mem hmem => ?_
        rw [hloop, if_neg hdone, if_neg hover, if_pos hraw, if_neg hsize, hload,
          Except.bind, storeBytes_appended (by omega), decompressed, hlen]
    · have htags : Appends size (tagLoop cbuf (cb + header % 0x1000 + 3) out.length
          (out.length + sbSize)) (cb + 2) out (· = cb + header % 0x1000 + 3) :=
        tagLoop_appends (by omega) (by omega)
      refine htags.trans (fun cb' out' hcb' => ih (cbSize - cb') (by omega) (by omega) rfl)
        (fun mem failure herror => ?_) (fun mem s' hok => ?_)
      all_goals
        rw [hloop, if_neg hdone, if_neg hover, if_neg hraw]
        split <;> simp_all

/-! ## Sub-blocks -/

/-- The number of sub-blocks of the stream from `cb` on, by their headers. -/
def subBlocks (cbSize : Nat) (cbuf : Buffer) (cb : Nat) : Nat :=
  if cb < cbSize ∧ wordAt cbuf cb ≠ 0 then
    subBlocks cbSize cbuf (cb + wordAt cbuf cb % 0x1000 + 3) + 1
  else 0
termination_by cbSize - cb

lemma symbolToken_dest (hok : symbolToken cbuf s = .ok s') : s'.dest = s.dest + 1 := by
  unfold symbolToken at hok
  simp only [bind, Except.bind] at hok
  repeat' split at hok
  all_goals cases hok
  rfl

lemma phraseToken_dest (hok : phraseToken cbuf destSbStart destSbEnd s = .ok s') :
    s'.dest ≤ destSbEnd := by
  unfold phraseToken at hok
  simp only [bind, Except.bind, throw, throwThe, MonadExceptOf.throw, pure, Except.pure] at hok
  split_ifs at hok
  all_goals repeat' split at hok
  all_goals cases hok
  all_goals exact Nat.le_of_not_lt (by assumption)

/-- A symbol may be stored behind a complete sub-block, but only one. -/
lemma tokenLoop_dest (hok : tokenLoop cbuf cbSbEnd destSbStart destSbEnd tokens tag s = .ok s')
    (hs : s.dest ≤ destSbEnd + 1) : s'.dest ≤ destSbEnd + 1 := by
  induction tokens generalizing tag s with
  | zero =>
    cases hok
    exact hs
  | succ tokens ih =>
    rw [tokenLoop] at hok
    split at hok
    next =>
      cases hok
      exact hs
    next hin =>
      split at hok
      next => cases hok
      next s'' htoken =>
        refine ih hok ?_
        split at htoken
        next =>
          rw [symbolToken_dest htoken]
          omega
        next => exact (phraseToken_dest htoken).trans (Nat.le_succ _)

lemma tagLoop_dest (hok : tagLoop cbuf cbSbEnd destSbStart destSbEnd s = .ok s')
    (hs : s.dest ≤ destSbEnd + 1) : destSbEnd ≤ s'.dest ∧ s'.dest ≤ destSbEnd + 1 := by
  induction hk : cbSbEnd - s.cb using Nat.strongRecOn generalizing s with
  | ind k ih =>
    rw [tagLoop] at hok
    split at hok
    next =>
      split at hok
      · unfold Except.map at hok
        split at hok
        · cases hok
        · cases hok
          exact ⟨le_rfl, Nat.le_succ _⟩
      · cases hok
        exact ⟨by omega, hs⟩
    next hnot =>
      split at hok
      next => cases hok
      next hin =>
        split at hok
        next => cases hok
        next tag _ =>
          split at hok
          next => cases hok
          next s'' htokens =>
            have hle := tokenLoop_cb_le htokens
            dsimp only at hle
            exact ih _ (by omega) hok (tokenLoop_dest htokens hs) rfl

/-- A decompression that succeeds has expanded some of the sub-blocks of the stream, each to
its size or one byte more; if not all of them, it has come to the end of the destination. -/
lemma sbLoop_dest (hcbuf : cbSize < cbuf.length) (hcb : s.cb ≤ cbSize)
    (hok : sbLoop destSize cbSize cbuf s = .ok s') :
    ∃ j ≤ subBlocks cbSize cbuf s.cb, s.dest + j * sbSize ≤ s'.dest ∧
      s'.dest ≤ s.dest + j * (sbSize + 1) ∧
      (j = subBlocks cbSize cbuf s.cb ∨ s'.dest = destSize) := by
  induction hk : cbSize - s.cb using Nat.strongRecOn generalizing s with
  | ind k ih =>
    rw [sbLoop] at hok
    by_cases hend : s.cb = cbSize
    · rw [if_pos hend] at hok
      cases hok
      refine ⟨0, Nat.zero_le _, by omega, by omega, .inl ?_⟩
      rw [subBlocks, if_neg (by omega)]
    rw [if_neg hend, le16_inside (by omega)] at hok
    dsimp only at hok
    split at hok
    next hdone =>
      cases hok
      refine ⟨0, Nat.zero_le _, by omega, by omega, ?_⟩
      rcases hdone with hzero | hfull
      · rw [subBlocks, if_neg fun h => h.2 hzero]
        exact .inl rfl
      · exact .inr hfull
    next hmore =>
      split at hok
      next => cases hok
      next hfits =>
        have hblocks : subBlocks cbSize cbuf s.cb =
            subBlocks cbSize cbuf (s.cb + wordAt cbuf s.cb % 0x1000 + 3) + 1 := by
          rw [subBlocks, if_pos ⟨by omega, fun h => hmore (.inl h)⟩]
        -- The rest of the stream, from a state that has one more sub-block.
        have hrest : ∀ t : DecompressState, t.cb = s.cb + wordAt cbuf s.cb % 0x1000 + 3 →
            s.dest + sbSize ≤ t.dest → t.dest ≤ s.dest + sbSize + 1 →
            sbLoop destSize cbSize cbuf t = .ok s' →
            ∃ j ≤ subBlocks cbSize cbuf s.cb, s.dest + j * sbSize ≤ s'.dest ∧
              s'.dest ≤ s.dest + j * (sbSize + 1) ∧
              (j = subBlocks cbSize cbuf s.cb ∨ s'.dest = destSize) := by
          intro t ht hlow hhigh hok
          obtain ⟨j, hj, hmin, hmax, hlast⟩ := ih (cbSize - t.cb) (by omega) (by omega) hok rfl
          rw [ht] at hj hlast
          rw [hblocks]
          refine ⟨j + 1, by omega, ?_, ?_, by omega⟩
          · rw [Nat.succ_mul]
            omega
          · rw [Nat.succ_mul]
            omega
        split at hok
        next =>
          split at hok
          next => cases hok
          next hsize =>
            split at hok
            next => cases hok
            next buf _ => exact hrest _ (by dsimp only; omega) le_rfl (Nat.le_succ _) hok
        next =>
          split at hok
          next => cases hok
          next t htags =>
            have hdest := tagLoop_dest htags (by dsimp only; omega)
            exact hrest t (tagLoop_cb htags) hdest.1 hdest.2 hok

/-! ## Containment and determinacy -/

lemma decompress_appends (hcbuf : cbSize < cbuf.length) (hroom : destSize < size) :
    (∀ mem : Buffer, mem.length = size →
        decompress destSize cbSize mem cbuf = .error (.errno .eoverflow)) ∨
      ∃ cb out, ∀ mem : Buffer, mem.length = size →
        decompress destSize cbSize mem cbuf = .ok (decompressed mem cb out) := by
  have hloop : Appends size (sbLoop destSize cbSize cbuf) 0 [] fun _ => True :=
    sbLoop_appends hcbuf hroom (Nat.zero_le cbSize)
  rcases hloop with hover | ⟨cb, out, _, hok⟩
  · exact .inl hover
  · exact .inr ⟨cb, out, hok⟩

/-- Whatever the compressed bytes are, neither buffer is left by more than one byte, and the
buffers are not left exactly if the stream does not lead outside from its first header. -/
theorem ntfsDecompress_contained_iff (dest cbuf : Buffer) :
    (∀ behindDest behindCb : UInt8,
      decompress dest.length cbuf.length (dest ++ [behindDest]) (cbuf ++ [behindCb]) ≠
        .error .outOfBounds) ∧
    (ntfsDecompress dest cbuf ≠ .error .outOfBounds ↔
      ∀ place, StreamPlace.Leads dest.length cbuf (.header 0 0) place →
        ¬ place.Outside dest.length cbuf.length) := by
  constructor
  · intro behindDest behindCb
    rcases decompress_appends (by simp : cbuf.length < (cbuf ++ [behindCb]).length)
      (Nat.lt_succ_self dest.length) with hover | ⟨cb, out, hok⟩
    · rw [hover _ length_append]
      decide
    · rw [hok _ length_append]
      exact fun h => (by cases h)
  · have hmap : ntfsDecompress dest cbuf = .error .outOfBounds ↔
        decompress dest.length cbuf.length dest cbuf = .error .outOfBounds := by
      rw [ntfsDecompress]
      cases decompress dest.length cbuf.length dest cbuf <;> simp [Except.map]
    have houtside := sbLoop_outside_iff (s := ⟨0, 0, dest⟩) (Nat.zero_le cbuf.length) rfl
    rw [Ne, hmap, decompress, houtside, StreamPlace.Leaves]
    constructor
    · intro h place hleads hout
      exact h ⟨place, hleads, hout⟩
    · rintro h ⟨place, hleads, hout⟩
      exact h place hleads hout

/-- Two sub-blocks: three symbols, and a symbol that is repeated to the end of the sub-block
and followed by another one. -/
def overlongStream (padding : Buffer) : Buffer :=
  [0x03, 0xb0, 0, 1, 2, 3, 0x04, 0xb0, 2, 7, 0xfc, 0x0f, 9] ++ padding

/-- The stream leads to the last symbol when a destination of two sub-blocks is full. -/
lemma overlongStream_leaves (hlength : (overlongStream padding).length = 8192) :
    StreamPlace.Leaves 8192 (overlongStream padding) (.header 0 0) := by
  have hfirst :
      StreamPlace.next 8192 (overlongStream padding) (.header 0 0) = some (.tag 6 0 2 0) := by
    have hword : wordAt (overlongStream padding) 0 = 0xb003 := by
      change (0x03 : UInt8).toNat + (0xb0 : UInt8).toNat * 256 = 0xb003
      decide
    simp [StreamPlace.next, hlength, hword, sbSize]
  have hsecond : StreamPlace.next 8192 (overlongStream padding) (.header 6 4096) =
      some (.tag 13 4096 8 4096) := by
    have hword : wordAt (overlongStream padding) 6 = 0xb004 := by
      change (0x04 : UInt8).toNat + (0xb0 : UInt8).toNat * 256 = 0xb004
      decide
    simp [StreamPlace.next, hlength, hword, sbSize]
  have hphrase : StreamPlace.next 8192 (overlongStream padding) (.token 7 1 13 4096 10 4097) =
      some (.token 6 0 13 4096 12 8192) := by
    have hword : wordAt (overlongStream padding) 10 = 0x0ffc := by
      change (0xfc : UInt8).toNat + (0x0f : UInt8).toNat * 256 = 0x0ffc
      decide
    simp [StreamPlace.next, hword, sbSize, lgOf]
  have htags : StreamPlace.next 8192 (overlongStream padding) (.tag 6 0 2 0) =
      some (.token 8 0 6 0 3 0) := rfl
  have htags' : StreamPlace.next 8192 (overlongStream padding) (.tag 13 4096 8 4096) =
      some (.token 8 2 13 4096 9 4096) := rfl
  refine .of_next hfirst (.of_next htags ?_)
  -- Three symbols, the end of the tag and that of the sub-block.
  iterate 5 refine .of_next rfl ?_
  refine .of_next hsecond (.of_next htags' (.of_next rfl (.of_next hphrase ?_)))
  exact ⟨_, .refl, by decide, by decide, by decide, rfl⟩

/-- The last symbol is stored behind the destination. -/
theorem ntfsDecompress_symbol_outside :
    ntfsDecompress (replicate 8192 0) (overlongStream (replicate 8179 0)) =
      .error .outOfBounds := by
  have hlength : (overlongStream (replicate 8179 0)).length = 8192 := by
    rw [overlongStream, length_append, length_replicate]
    rfl
  have houtside : sbLoop 8192 (overlongStream (replicate 8179 0)).length
      (overlongStream (replicate 8179 0)) ⟨0, 0, replicate 8192 0⟩ = .error .outOfBounds ↔ _ :=
    sbLoop_outside_iff (Nat.zero_le _) length_replicate
  rw [ntfsDecompress, decompress, length_replicate, houtside.mpr (overlongStream_leaves hlength)]
  rfl

/-- All of the destination is determined by the compressed bytes, if and only if the stream
has at least as many sub-blocks as the destination. -/
theorem decompress_determined {s : DecompressState} (hcbuf : cbSize < cbuf.length)
    (hdest : destSize < dest.length) (hblocks : destSize = blocks * sbSize)
    (hfew : blocks ≤ sbSize) (hok : decompress destSize cbSize dest cbuf = .ok s) :
    (∀ dest' : Buffer, dest'.length = dest.length →
      ∃ s', decompress destSize cbSize dest' cbuf = .ok s' ∧
        s'.buf.take destSize = s.buf.take destSize) ↔ blocks ≤ subBlocks cbSize cbuf 0 := by
  obtain ⟨j, hj, hmin, hmax, hlast⟩ := sbLoop_dest hcbuf (Nat.zero_le cbSize) hok
  have hend : destSize ≤ s.dest ↔ blocks ≤ subBlocks cbSize cbuf 0 := by
    unfold sbSize at *
    dsimp only at hj hmin hmax hlast
    omega
  rcases decompress_appends hcbuf hdest with hover | ⟨cb, out, hall⟩
  · rw [hover dest rfl] at hok
    cases hok
  rw [hall dest rfl] at hok
  cases hok
  rw [← hend]
  constructor
  · -- A byte that is not reached keeps what it was.
    intro hsame
    by_contra hshort
    have hlt : out.length < dest.length := (lt_of_not_ge hshort).trans hdest
    obtain ⟨s', hs', htake⟩ := hsame (dest.set out.length (dest[out.length] + 1)) length_set
    rw [hall _ length_set] at hs'
    cases hs'
    have hbyte := congrArg (·[out.length]?) htake
    simp [getElem?_take_of_lt (lt_of_not_ge hshort), hlt] at hbyte
  · intro hle dest' hdest'
    refine ⟨_, hall dest' hdest', ?_⟩
    rw [take_append_of_le_length hle, take_append_of_le_length hle]

/-- A zero header at the start ends the decompression before anything is written. -/
lemma decompress_zero (rest : Buffer) (hcb : 0 ≠ cbSize) :
    decompress destSize cbSize dest (0 :: 0 :: rest) = .ok { cb := 0, dest := 0, buf := dest } := by
  rw [decompress, sbLoop, if_neg hcb]
  exact if_pos (.inl rfl)

/-- A stream of zeros has no sub-block. -/
theorem decompress_determined_zero :
    ¬ ∀ dest' : Buffer, dest'.length = (replicate 8193 (0 : UInt8)).length →
      ∃ s', decompress 8192 8192 dest' (replicate 8193 0) = .ok s' ∧
        s'.buf.take 8192 = (replicate 8193 (0 : UInt8)).take 8192 := by
  have hok : decompress 8192 8192 (replicate 8193 0) (replicate 8193 0) =
      .ok ⟨0, 0, replicate 8193 0⟩ := decompress_zero (replicate 8191 0) (by decide)
  have htwo : 8192 = 2 * sbSize := rfl
  have hiff := decompress_determined (by rw [length_replicate]; decide)
    (by rw [length_replicate]; decide) htwo (by decide) hok
  intro hall
  have hle := hiff.mp hall
  rw [subBlocks, if_neg (fun h => h.2 rfl)] at hle
  cases hle

/-- A stream of zeros is accepted, and the destination keeps its contents. -/
theorem ntfsDecompress_undetermined :
    ntfsDecompress (replicate 8192 0) (replicate 8192 0) = .ok (replicate 8192 0) ∧
      ntfsDecompress (replicate 8192 1) (replicate 8192 0) = .ok (replicate 8192 1) := by
  have hzero : ∀ dest : Buffer, ntfsDecompress dest (replicate 8192 0) = .ok dest := by
    intro dest
    rw [ntfsDecompress, length_replicate]
    exact congrArg (Except.map DecompressState.buf)
      (decompress_zero (replicate 8190 0) (by decide : 0 ≠ 8192))
  exact ⟨hzero _, hzero _⟩

end NtfsDxe
