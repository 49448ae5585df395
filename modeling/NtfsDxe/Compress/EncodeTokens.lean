import NtfsDxe.Compress.Matching
import NtfsDxe.Compress.Stream

/-! # The compressor writes tokens that describe its input

The invariant of the compression loop has two parts. The search part says that
the tree holds the positions searched so far and that the widths of a phrase
suit the current position. The output part says that the bytes written are those
of tokens describing the input up to the current position, in full groups and
one group still open.
-/

namespace NtfsDxe

open Foundation SlidingWindow List BlockState

/-- The widths of a phrase in use have been adjusted to some position up to `i`. -/
structure SplitUpTo (i bp mxsz : Nat) : Prop where
  bp_ge : 4 ≤ bp
  mxsz_eq : mxsz = 2 ^ (16 - bp) + 2
  minimal : bp = 4 ∨ 2 ^ (bp - 1) < i

variable {i bp mxsz length : Nat} {s : BlockState}

lemma SplitUpTo.mono (hsplit : SplitUpTo i bp mxsz) (hle : i ≤ j) : SplitUpTo j bp mxsz := by
  obtain ⟨hge, heq, hmin⟩ := hsplit
  refine ⟨hge, heq, ?_⟩
  rcases hmin with hfour | hlt
  · exact .inl hfour
  · exact .inr (by omega)

/-- Adjusting the widths to a position of a sub-block. -/
lemma adjustSplit_spec (hsplit : SplitUpTo i bp mxsz) (hi : i ≤ sbSize) :
    SplitUpTo i (adjustSplit i bp mxsz).1 (adjustSplit i bp mxsz).2 ∧
      i ≤ 2 ^ (adjustSplit i bp mxsz).1 := by
  induction hk : i - 2 ^ bp using Nat.strongRecOn generalizing bp mxsz with
  | ind m ih =>
    rw [adjustSplit]
    split
    next hmore =>
      have hbp : bp < 12 := by
        by_contra hlarge
        have hpow : 2 ^ 12 ≤ 2 ^ bp := Nat.pow_le_pow_right (by omega) (by omega)
        unfold sbSize at hi
        omega
      have hnext : SplitUpTo i (bp + 1) ((mxsz + 2) / 2) := by
        have hge := hsplit.bp_ge
        refine ⟨by omega, ?_, .inr hmore⟩
        have hhalf : 2 ^ (16 - bp) = 2 * 2 ^ (16 - (bp + 1)) := by
          rw [← Nat.pow_succ', Nat.succ_eq_add_one, show 16 - (bp + 1) + 1 = 16 - bp by omega]
        rw [hsplit.mxsz_eq]
        omega
      have hpos : 0 < 2 ^ bp := Nat.two_pow_pos bp
      exact ih (i - 2 ^ (bp + 1)) (by omega) hnext rfl
    next hdone => exact ⟨hsplit, le_of_not_gt hdone⟩

/-- The compressor's width for the length is the decompressor's. -/
lemma SplitUpTo.lengthBits_eq (hsplit : SplitUpTo i bp mxsz)
    (hle : i ≤ 2 ^ bp) (hpos : 0 < i) : lengthBits i = 16 - bp := by
  have hge := hsplit.bp_ge
  have hlg : bp - 4 = lgOf (i - 1) := by
    apply eq_lgOf
    · rw [show 4 + (bp - 4) = bp by omega]
      omega
    · rcases hsplit.minimal with hfour | hlt
      · exact .inl (by omega)
      · rw [show 3 + (bp - 4) = bp - 1 by omega]
        omega
  rw [lengthBits]
  omega

/-! ## The search part -/

/-- The search part of the invariant. -/
structure Searched (inbuf : Buffer) (s : BlockState) : Prop where
  tree : SearchTree inbuf s.searched s.ctx
  searched_le : s.searched ≤ s.i + 1
  found : s.searched = s.i + 1 → FoundMatch inbuf s.i s.ctx
  split : SplitUpTo s.i s.bp s.ctx.mxsz

/-- What holds when a token is issued: the current position has been searched and
the widths suit it. -/
structure ReadyToIssue (inbuf : Buffer) (s : BlockState) : Prop where
  tree : SearchTree inbuf (s.i + 1) s.ctx
  searched_eq : s.searched = s.i + 1
  found : FoundMatch inbuf s.i s.ctx
  split : SplitUpTo s.i s.bp s.ctx.mxsz
  width : s.i ≤ 2 ^ s.bp

lemma compressStep_issue (hs : Searched inbuf s) (hi : s.i < inbuf.length)
    (hsize : inbuf.length ≤ sbSize) :
    ∃ s', compressStep inbuf s = s'.issueToken inbuf ∧ ReadyToIssue inbuf s' ∧
      s'.i = s.i ∧ s'.out = s.out ∧ s'.tag = s.tag ∧ s'.ntag = s.ntag ∧ s'.ptag = s.ptag := by
  obtain ⟨hsplit, hwidth⟩ := adjustSplit_spec hs.split (by omega)
  have hmax : max s.searched (s.i + 1) = s.i + 1 := max_eq_right hs.searched_le
  set split := adjustSplit s.i s.bp s.ctx.mxsz
  have hbefore : SearchTree inbuf s.searched { s.ctx with mxsz := split.2 } := hs.tree.setResult _ _
  obtain ⟨ctx, hsearch, htree, hmxsz, hfound⟩ :=
    searchUpTo_spec hbefore hs.searched_le hs.found hi hsize
  refine ⟨{ s with ctx := ctx, bp := split.1, searched := max s.searched (s.i + 1) }, ?_,
    ⟨htree, hmax, hfound, by rw [hmxsz]; exact hsplit, hwidth⟩, rfl, rfl, rfl, rfl, rfl⟩
  rw [compressStep]
  rw [hsearch]

/-! ## The output part -/

/-- The output part of the invariant: full groups, and the tokens of the open one. -/
structure Written (inbuf : Buffer) (groups : List (List (Token UInt8)))
    (pending : List (Token UInt8)) (s : BlockState) : Prop where
  full : ∀ g ∈ groups, g.length = 8
  pending_lt : pending.length < 8
  ntag_eq : s.ntag = 8 - pending.length
  tag_eq : s.tag = groupTag pending
  ptag_eq : s.ptag = 2 + (groupsBytes 0 groups).length
  out_eq : s.out =
    [0, 0] ++ groupsBytes 0 groups ++ 0 :: tokensBytes (totalSize groups.flatten) pending
  describes : Describes inbuf 0 (groups.flatten ++ pending)
  encodable : EncodableFrom 0 (groups.flatten ++ pending)
  size_eq : totalSize (groups.flatten ++ pending) = s.i

def BlockState.putToken (s : BlockState) (t : Token UInt8) : BlockState :=
  { s with out := s.out ++ tokenBytes s.i t, tag := s.tag ||| tagBit t <<< (8 - s.ntag),
           i := s.i + t.size }.countToken

lemma BlockState.putSymbol_eq : s.putSymbol b = s.putToken (.literal b) := by
  simp [putSymbol, putToken, tokenBytes, tagBit, Token.size]

lemma lowByte_natCast (n : Nat) : SignedBytes.lowByte (n : Int) = UInt8.ofNat n := by
  have hbyte := SignedBytes.lowByte_toNat (n : Int)
  apply UInt8.toNat_inj.mp
  rw [UInt8.toNat_ofNat']
  omega

lemma BlockState.putPhrase_eq (s : BlockState) {offs : Int} {distance : Nat}
    (hoffs : offs = -distance) (hdist : 1 ≤ distance) (hlen : 3 ≤ length)
    (hbits : lengthBits s.i = 16 - s.bp) :
    s.putPhrase offs (s.i + length) = s.putToken (.copy distance length) := by
  have hword : (-offs - 1) * 2 ^ (16 - s.bp) + (((s.i + length : Nat) : Int) - s.i - 3) =
      (phraseWord s.i distance length : Int) := by
    rw [phraseWord, hbits, hoffs]
    push_cast [Nat.cast_sub hdist, Nat.cast_sub hlen]
    ring
  have hhigh : (phraseWord s.i distance length : Int) / 256 =
      ((phraseWord s.i distance length / 256 : Nat) : Int) := by
    rfl
  rw [putPhrase, hword, hhigh, lowByte_natCast, lowByte_natCast]
  rfl

lemma groupTag_or :
    groupTag pending ||| tagBit t <<< pending.length = groupTag (pending ++ [t]) := by
  rw [Nat.or_comm, ← Nat.shiftLeft_add_eq_or_of_lt (groupTag_lt pending), groupTag_append,
    Nat.shiftLeft_eq, add_comm]

/-- Issuing a token that describes the input keeps the output part. -/
lemma Written.putToken (hs : Written inbuf groups pending s)
    (ht : t.Describes inbuf s.i) (henc : Encodable s.i t) :
    ∃ groups' pending', Written inbuf groups' pending' (s.putToken t) := by
  have hsize := hs.size_eq
  rw [totalSize_append] at hsize
  have htokens : tokensBytes (totalSize groups.flatten) (pending ++ [t]) =
      tokensBytes (totalSize groups.flatten) pending ++ tokenBytes s.i t := by
    rw [tokensBytes_append, hsize, tokensBytes, tokensBytes, append_nil]
  have hdescribes : Describes inbuf 0 (groups.flatten ++ (pending ++ [t])) := by
    rw [← append_assoc, describes_append, hs.size_eq, zero_add]
    exact ⟨hs.describes, ht, trivial⟩
  have hencodable : EncodableFrom 0 (groups.flatten ++ (pending ++ [t])) := by
    rw [← append_assoc, encodableFrom_append, hs.size_eq, zero_add]
    exact ⟨hs.encodable, henc, trivial⟩
  have htotal : totalSize (groups.flatten ++ (pending ++ [t])) = s.i + t.size := by
    rw [← append_assoc, totalSize_append, hs.size_eq, totalSize_cons, totalSize_nil, add_zero]
  have hout : s.out ++ tokenBytes s.i t = [0, 0] ++ groupsBytes 0 groups ++
      0 :: tokensBytes (totalSize groups.flatten) (pending ++ [t]) := by
    rw [hs.out_eq, htokens]
    simp
  have htag : s.tag ||| tagBit t <<< (8 - s.ntag) = groupTag (pending ++ [t]) := by
    rw [hs.tag_eq, hs.ntag_eq, show 8 - (8 - pending.length) = pending.length by
      have := hs.pending_lt; omega, groupTag_or]
  have hlt := hs.pending_lt
  have hlen : (pending ++ [t]).length = pending.length + 1 := by simp
  rw [BlockState.putToken, BlockState.countToken]
  rw [hout, htag, hs.ntag_eq]
  by_cases hfull : 8 - pending.length - 1 = 0
  · -- The group is full: its tag is stored in the reserved place.
    rw [if_pos hfull]
    refine ⟨groups ++ [pending ++ [t]], [], ?_, by simp, rfl, rfl, ?_, ?_, ?_, ?_, ?_⟩
    · intro g hg
      rcases mem_append.mp hg with hold | hnew
      · exact hs.full g hold
      · rw [mem_singleton.mp hnew]
        omega
    · simp [groupsBytes_append, groupsBytes]
      omega
    · have hslot : s.ptag = ([0, 0] ++ groupsBytes 0 groups : Buffer).length := by
        rw [hs.ptag_eq, length_append]
        rfl
      rw [hslot, groupsBytes_append]
      simp [groupsBytes, tokensBytes]
    · simpa using hdescribes
    · simpa using hencodable
    · simpa using htotal
  · rw [if_neg hfull]
    exact ⟨groups, pending ++ [t], hs.full, by omega, by dsimp only; omega, rfl, hs.ptag_eq, rfl,
      hdescribes, hencodable, htotal⟩

/-! ## The loop -/

lemma getElem?_eq_byteAt (hk : k < inbuf.length) : inbuf[k]? = some (byteAt inbuf k) := by
  rw [byteAt, getD_eq_getElem?_getD, getElem?_eq_getElem hk, Option.getD_some]

/-- A match found at a position is described by a phrase, also when it is cut
short. -/
lemma describes_of_agrees (hnode : node < i) (hend : i + size ≤ inbuf.length)
    (hagree : Agrees inbuf node i (i + size)) (hle : length ≤ size) :
    (Token.copy (i - node) length).Describes inbuf i := by
  refine ⟨by omega, by omega, by omega, ?_⟩
  intro k hk
  have hbyte := hagree (i + k) (by omega) (by omega)
  rw [getElem?_eq_byteAt (by omega), getElem?_eq_byteAt (by omega), ← hbyte,
    show i - (i - node) + k = i + k + node - i by omega]

@[simp] lemma BlockState.countToken_ctx : s.countToken.ctx = s.ctx := by
  unfold countToken
  split <;> rfl

@[simp] lemma BlockState.countToken_bp : s.countToken.bp = s.bp := by
  unfold countToken
  split <;> rfl

@[simp] lemma BlockState.countToken_searched : s.countToken.searched = s.searched := by
  unfold countToken
  split <;> rfl

/-- Issuing a token keeps the search part if the next positions are covered. -/
lemma Searched.putToken (t : Token UInt8) (htree : SearchTree inbuf s.searched s.ctx)
    (hle : s.searched ≤ s.i + t.size + 1)
    (hfound : s.searched = s.i + t.size + 1 → FoundMatch inbuf (s.i + t.size) s.ctx)
    (hsplit : SplitUpTo s.i s.bp s.ctx.mxsz) : Searched inbuf (s.putToken t) := by
  refine ⟨?_, ?_, ?_, ?_⟩
  · simpa [BlockState.putToken] using htree
  · simpa [BlockState.putToken] using hle
  · simpa [BlockState.putToken] using hfound
  · have hmore := hsplit.mono (Nat.le_add_right s.i t.size)
    simpa [BlockState.putToken] using hmore

/-- The invariant of the compression loop. -/
def Compressing (inbuf : Buffer) (s : BlockState) : Prop :=
  Searched inbuf s ∧ ∃ groups pending, Written inbuf groups pending s

lemma Written.withSearch (hs : Written inbuf groups pending s) (ctx : CompressContext)
    (searched : Nat) : Written inbuf groups pending { s with ctx := ctx, searched := searched } :=
  { hs with }

/-- A single byte is issued for the current position. -/
lemma Compressing.putSymbol (hs : Written inbuf groups pending s) (hi : s.i < inbuf.length)
    (htree : SearchTree inbuf s.searched s.ctx) (hle : s.searched ≤ s.i + 2)
    (hfound : s.searched = s.i + 2 → FoundMatch inbuf (s.i + 1) s.ctx)
    (hsplit : SplitUpTo s.i s.bp s.ctx.mxsz) :
    Compressing inbuf (s.putSymbol (byteAt inbuf s.i)) := by
  rw [s.putSymbol_eq]
  exact ⟨Searched.putToken _ htree hle hfound hsplit, hs.putToken (getElem?_eq_byteAt hi) trivial⟩

lemma issueToken_compressing (hready : ReadyToIssue inbuf s)
    (hs : Written inbuf groups pending s) (hi : s.i < inbuf.length)
    (hsize : inbuf.length ≤ sbSize) :
    ∃ s', s.issueToken inbuf = some s' ∧ Compressing inbuf s' := by
  have htree := hready.searched_eq ▸ hready.tree
  have hsearched := hready.searched_eq
  rw [issueToken]
  by_cases hlong : 2 < s.i + min s.ctx.size s.ctx.mxsz - s.i
  · rw [if_pos hlong]
    have hmatch : ∃ node, node < s.i ∧ s.ctx.rel = node - s.i ∧
        s.i + s.ctx.size ≤ inbuf.length ∧ Agrees inbuf node s.i (s.i + s.ctx.size) := by
      rcases hready.found with hzero | hmatch
      · omega
      · exact hmatch
    obtain ⟨node, hnode, hrel, hend, hagree⟩ := hmatch
    obtain ⟨next, hbest, htree', hmxsz, hfound⟩ :=
      bestMatch_spec hready.tree (by omega : s.i + 1 < inbuf.length) hsize
    have hsplit : SplitUpTo s.i s.bp next.mxsz := by
      rw [hmxsz]
      exact hready.split
    rw [hbest]
    dsimp only
    split
    next =>
      refine ⟨_, rfl, ?_⟩
      exact Compressing.putSymbol (hs.withSearch next (s.i + 2)) hi htree' (le_refl _)
        (fun _ => hfound) hsplit
    next =>
      have hbits := hready.split.lengthBits_eq hready.width (by omega)
      have hmx := hready.split.mxsz_eq
      have hlen : min s.ctx.size s.ctx.mxsz ≤ s.ctx.size := min_le_left _ _
      have henc : Encodable s.i (.copy (s.i - node) (min s.ctx.size s.ctx.mxsz)) := by
        refine ⟨by omega, by omega, by omega, ?_⟩
        rw [hbits]
        omega
      refine ⟨_, rfl, ?_⟩
      rw [putPhrase_eq { s with ctx := next, searched := s.i + 2 }
        (by omega : s.ctx.rel = -((s.i - node : Nat) : Int)) (by omega) (by omega) hbits]
      refine ⟨Searched.putToken _ htree' ?_ ?_ hsplit,
        (hs.withSearch next (s.i + 2)).putToken (describes_of_agrees hnode hend hagree hlen) henc⟩
      · dsimp only [Token.size]
        omega
      · dsimp only [Token.size]
        omega
  · rw [if_neg hlong]
    refine ⟨_, rfl, ?_⟩
    exact Compressing.putSymbol hs hi htree (by omega) (by omega) hready.split

/-- One pass of the loop keeps the invariant. -/
lemma compressStep_compressing (hs : Compressing inbuf s) (hi : s.i < inbuf.length)
    (hsize : inbuf.length ≤ sbSize) :
    ∃ s', compressStep inbuf s = some s' ∧ Compressing inbuf s' := by
  obtain ⟨hsearched, groups, pending, hwritten⟩ := hs
  obtain ⟨s', hstep, hready, hi', hout, htag, hntag, hptag⟩ := compressStep_issue hsearched hi hsize
  have hwritten' : Written inbuf groups pending s' :=
    ⟨hwritten.full, hwritten.pending_lt, hntag.trans hwritten.ntag_eq, htag.trans hwritten.tag_eq,
      hptag.trans hwritten.ptag_eq, hout.trans hwritten.out_eq, hwritten.describes,
      hwritten.encodable, hwritten.size_eq.trans hi'.symm⟩
  rw [hstep]
  exact issueToken_compressing hready hwritten' (by omega) hsize

/-- The loop ends, and keeps the invariant to its end. -/
lemma compressLoop_compressing (hs : Compressing inbuf s) (hsize : inbuf.length ≤ sbSize) :
    ∃ s', compressLoop inbuf s = some s' ∧ Compressing inbuf s' := by
  induction hk : inbuf.length - s.i using Nat.strongRecOn generalizing s with
  | ind m ih =>
    rw [compressLoop]
    split
    next hmore =>
      obtain ⟨s', hstep, hs'⟩ := compressStep_compressing hs hmore.1 hsize
      have hprogress := compressStep_progress hstep
      split
      next hnone =>
        rw [hstep] at hnone
        cases hnone
      next s'' hsome =>
        rw [hstep] at hsome
        cases hsome
        exact ih (inbuf.length - s'.i) (by omega) hs' rfl
    next => exact ⟨s, rfl, hs⟩

lemma initial_compressing : Compressing inbuf initial := by
  refine ⟨⟨⟨by nofun, ?_⟩, by decide, by nofun, by decide, by decide, .inl rfl⟩, [], [],
    by nofun, by decide, rfl, rfl, rfl, rfl, trivial, trivial, rfl⟩
  intro left node c hc
  cases left <;> cases hc

end NtfsDxe
