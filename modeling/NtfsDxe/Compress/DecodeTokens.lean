import NtfsDxe.Compress.Tokens

/-! # Decompressing the byte sequence of a list of tokens

While the decompressor reads the tokens of a sub-block, the destination holds
the part of the data they describe. The invariant is that the buffer is the
original one with the data up to the current position spliced in.
-/

namespace NtfsDxe

open Foundation SlidingWindow List

section SubBlock

variable {cbuf buf data : Buffer}

/-- The decompressor has written the first `pos` bytes of `data` to the sub-block
of the destination that begins at `start`. -/
structure WrittenUpTo (buf data : Buffer) (start pos : Nat) (s : DecompressState) : Prop where
  dest_eq : s.dest = start + pos
  buf_eq : s.buf = splice buf start (data.take pos)
  pos_le : pos ≤ data.length

variable (hdata : data.length ≤ sbSize) (hroom : start + sbSize ≤ buf.length)

include hdata hroom

/-- Copying forward byte by byte continues a sequence that repeats itself. -/
lemma copyBytes_repeats (pos : Nat) (hdist : 1 ≤ distance) (hle : distance ≤ pos)
    (hend : pos + n ≤ data.length) (hcopy : ∀ k < n, data[pos - distance + k]? = data[pos + k]?) :
    copyBytes (splice buf start (data.take pos)) (start + pos) (start + pos - distance) n =
      .ok (splice buf start (data.take (pos + n))) := by
  induction n generalizing pos with
  | zero => rfl
  | succ n ih =>
    have hpos : pos < data.length := by omega
    have htake : (data.take pos).length = pos := by simp; omega
    have hfit : start + (data.take pos).length ≤ buf.length := by omega
    have hload : (splice buf start (data.take pos))[start + pos - distance]? =
        some data[pos] := by
      rw [splice_getElem? hfit, if_pos (by omega),
        getElem?_take_of_lt (by omega), show start + pos - distance - start = pos - distance
        by omega]
      have hfirst := hcopy 0 (by omega)
      rwa [add_zero, add_zero, getElem?_eq_getElem hpos] at hfirst
    have hstore : store (splice buf start (data.take pos)) (start + pos) data[pos] =
        .ok (splice buf start (data.take (pos + 1))) := by
      have hset := splice_set_next data[pos] (show start + (data.take pos).length < buf.length
        by omega)
      rw [htake, ← take_succ_eq_append_getElem hpos] at hset
      rw [store_ok _ (by rw [splice_length hfit]; omega), hset]
    have hrest := ih (pos + 1) (by omega) (by omega) (by
      intro k hk
      have hnext := hcopy (k + 1) (by omega)
      rwa [show pos - distance + (k + 1) = pos + 1 - distance + k by omega,
        show pos + (k + 1) = pos + 1 + k by omega] at hnext)
    rw [copyBytes, load_ok hload]
    dsimp only
    rw [hstore]
    dsimp only
    rw [show start + pos - distance + 1 = start + (pos + 1) - distance by omega,
      add_assoc start pos 1, hrest, show pos + 1 + n = pos + (n + 1) by omega]

/-- A literal byte extends the written part by itself. -/
lemma symbolToken_describes (hs : WrittenUpTo buf data start pos s)
    (ht : (Token.literal b).Describes data pos)
    (hmem : HoldsAt cbuf s.cb (tokenBytes pos (.literal b))) :
    ∃ s', symbolToken cbuf s = .ok s' ∧ s'.cb = s.cb + 1 ∧
      WrittenUpTo buf data start (pos + 1) s' := by
  obtain ⟨hpos, hb⟩ := List.getElem?_eq_some_iff.mp ht
  have htake : (data.take pos).length = pos := by simp; omega
  have hfit : start + (data.take pos).length < buf.length := by omega
  have hset := splice_set_next b hfit
  rw [htake, ← hb, ← take_succ_eq_append_getElem hpos, hb] at hset
  have hstore : store s.buf s.dest b = .ok (splice buf start (data.take (pos + 1))) := by
    rw [hs.dest_eq, hs.buf_eq, store_ok _ (by rw [splice_length (le_of_lt hfit)]; omega), hset]
  refine ⟨{ cb := s.cb + 1, dest := s.dest + 1, buf := splice buf start (data.take (pos + 1)) },
    ?_, rfl, ?_, rfl, hpos⟩
  · rw [symbolToken, load_ok hmem.head]
    simp only [bind, Except.bind, hstore]
    rfl
  · rw [hs.dest_eq, add_assoc]

omit hdata hroom in
lemma le16_tokenBytes {pos cb distance length : Nat} (hpos : pos ≤ sbSize)
    (henc : Encodable pos (.copy distance length))
    (hmem : HoldsAt cbuf cb (tokenBytes pos (.copy distance length))) :
    le16 cbuf cb = .ok (phraseWord pos distance length) := by
  have hlt := phraseWord_lt hpos henc
  rw [le16, load_ok hmem.head, load_ok hmem.tail.head]
  simp only [bind, Except.bind, pure, Except.pure, UInt8.toNat_ofNat']
  congr 1
  omega

/-- A phrase extends the written part by the sequence it repeats. -/
lemma phraseToken_describes {pos distance length : Nat} (hs : WrittenUpTo buf data start pos s)
    (ht : (Token.copy distance length).Describes data pos)
    (henc : Encodable pos (.copy distance length))
    (hmem : HoldsAt cbuf s.cb (tokenBytes pos (.copy distance length))) :
    ∃ s', phraseToken cbuf start (start + sbSize) s = .ok s' ∧ s'.cb = s.cb + 2 ∧
      WrittenUpTo buf data start (pos + length) s' := by
  obtain ⟨hdist, hle, hend, hcopy⟩ := ht
  have hword := le16_tokenBytes (by omega) henc hmem
  obtain ⟨hback, hlength⟩ := phraseWord_fields henc
  have hsub : s.dest - start = pos := by rw [hs.dest_eq]; omega
  unfold lengthBits at hback hlength
  unfold phraseToken
  rw [hsub, hword]
  simp only [bind, Except.bind]
  rw [if_neg (by omega), hback, hlength]
  rw [if_neg (by omega), if_neg (by omega), hs.dest_eq, hs.buf_eq]
  by_cases hoverlap : length ≤ distance
  · rw [if_pos hoverlap, copyBytes_repeats hdata hroom pos hdist hle hend hcopy]
    exact ⟨_, rfl, rfl, add_assoc _ _ _, rfl, hend⟩
  · -- The first copy reaches the current position, from which the second goes on.
    have hfirst := copyBytes_repeats hdata hroom pos hdist hle (n := distance) (by omega)
      (fun k hk => hcopy k (by omega))
    have hrest := copyBytes_repeats hdata hroom (pos + distance) hdist (n := length - distance)
      (by omega) (by omega) (by
        intro k hk
        have hnext := hcopy (distance + k) (by omega)
        rwa [show pos - distance + (distance + k) = pos + distance - distance + k by omega,
          ← add_assoc] at hnext)
    rw [if_neg hoverlap, hfirst]
    dsimp only
    rw [show start + pos - distance + distance = start + (pos + distance) - distance by omega,
      add_assoc start pos distance, hrest,
      show pos + distance + (length - distance) = pos + length by omega]
    exact ⟨_, rfl, rfl, add_assoc _ _ _, rfl, hend⟩

section

variable (hs : WrittenUpTo buf data start pos s)
include hs

lemma token_describes (ht : t.Describes data pos) (henc : Encodable pos t)
    (hmem : HoldsAt cbuf s.cb (tokenBytes pos t)) :
    ∃ s', (if tagBit t = 0 then symbolToken cbuf s
        else phraseToken cbuf start (start + sbSize) s) = .ok s' ∧
      s'.cb = s.cb + (tokenBytes pos t).length ∧
      WrittenUpTo buf data start (pos + t.size) s' := by
  cases t with
  | literal b => exact symbolToken_describes hdata hroom hs ht hmem
  | copy distance length => exact phraseToken_describes hdata hroom hs ht henc hmem

/-- The tokens of one group: the loop stops after eight tokens, or at the end of
the sub-block. -/
lemma tokenLoop_group (hg : Describes data pos g) (henc : EncodableFrom pos g)
    (hmem : HoldsAt cbuf s.cb (tokensBytes pos g)) (hle : g.length ≤ tokens)
    (hin : s.cb + (tokensBytes pos g).length ≤ cbSbEnd)
    (hlast : g.length = tokens ∨ s.cb + (tokensBytes pos g).length = cbSbEnd) :
    ∃ s', tokenLoop cbuf cbSbEnd start (start + sbSize) tokens (groupTag g) s = .ok s' ∧
      s'.cb = s.cb + (tokensBytes pos g).length ∧
      WrittenUpTo buf data start (pos + totalSize g) s' := by
  induction g generalizing pos tokens s with
  | nil =>
    refine ⟨s, ?_, rfl, hs⟩
    cases tokens with
    | zero => rfl
    | succ tokens =>
      rcases hlast with hfull | hend
      · cases hfull
      · have hstop : cbSbEnd ≤ s.cb := le_of_eq hend.symm
        rw [tokenLoop, if_pos (.inl hstop)]
  | cons t g ih =>
    obtain ⟨ht, hg⟩ := hg
    obtain ⟨htEnc, henc⟩ := henc
    rw [tokensBytes] at hmem hin hlast
    rw [length_append] at hin hlast
    obtain ⟨s', htoken, hcb, hs'⟩ := token_describes hdata hroom hs ht htEnc hmem.left
    have hnonempty := tokenBytes_length_pos pos t
    have hposLe := hs.pos_le
    cases tokens with
    | zero => cases hle
    | succ tokens =>
      rw [length_cons] at hle hlast
      have hrest := hmem.right
      rw [← hcb] at hrest
      obtain ⟨s'', hloop, hcb', hs''⟩ := ih hs' hg henc hrest (by omega : _ ≤ tokens)
        (by omega) (by omega)
      have hbit := tagBit_le t
      have hmod : groupTag (t :: g) % 2 = tagBit t := by rw [groupTag]; omega
      have hdiv : groupTag (t :: g) / 2 = groupTag g := by rw [groupTag]; omega
      refine ⟨s'', ?_, ?_, ?_⟩
      · rw [tokenLoop, if_neg (by rw [hs.dest_eq]; omega), hmod, htoken]
        dsimp only
        rw [hdiv, hloop]
      · rw [hcb', hcb, tokensBytes, length_append, add_assoc]
      · rwa [totalSize_cons, ← add_assoc]

/-- The groups of a sub-block leave its data, filled up with zeroes. -/
lemma tagLoop_groups (hgroups : Describes data pos groups.flatten)
    (henc : EncodableFrom pos groups.flatten) (hfull : FullGroups groups)
    (hmem : HoldsAt cbuf s.cb (groupsBytes pos groups))
    (hend : s.cb + (groupsBytes pos groups).length = cbSbEnd)
    (hall : pos + totalSize groups.flatten = data.length) :
    tagLoop cbuf cbSbEnd start (start + sbSize) s =
      .ok { cb := cbSbEnd, dest := start + sbSize,
            buf := splice buf start (data ++ replicate (sbSize - data.length) 0) } := by
  induction groups generalizing pos s with
  | nil =>
    have hpos : pos = data.length := hall
    have hcb : s.cb = cbSbEnd := hend
    have hbuf : s.buf = splice buf start data := by
      rw [hs.buf_eq, hpos, take_length]
    have hdest : s.dest = start + data.length := by rw [hs.dest_eq, hpos]
    rw [tagLoop, if_pos hcb]
    by_cases hshort : data.length < sbSize
    · have hlen := splice_length (by omega : start + data.length ≤ buf.length)
      rw [if_pos (by omega), hbuf, hdest,
        show start + sbSize - (start + data.length) = sbSize - data.length by omega, storeBytes,
        if_pos (by rw [length_replicate]; omega), splice_splice buf data _ (by omega), hcb]
      rfl
    · have heq : data.length = sbSize := by omega
      rw [if_neg (by omega), heq, Nat.sub_self, replicate_zero, append_nil, ← hbuf,
        ← hcb, ← heq, ← hdest]
  | cons g groups ih =>
    obtain ⟨hlen, hcase, hfull⟩ := hfull.cons_cases
    rw [flatten_cons] at hgroups henc hall
    rw [describes_append] at hgroups
    rw [encodableFrom_append] at henc
    rw [totalSize_append] at hall
    rw [groupsBytes, cons_append] at hmem hend
    rw [length_cons, length_append] at hend
    have htag : (UInt8.ofNat (groupTag g)).toNat = groupTag g := by
      have hlt := groupTag_lt g
      have hpow : 2 ^ g.length ≤ 2 ^ 8 := Nat.pow_le_pow_right (by omega) hlen
      rw [UInt8.toNat_ofNat', Nat.mod_eq_of_lt (by omega)]
    have hfirst : WrittenUpTo buf data start pos { s with cb := s.cb + 1 } :=
      { hs with }
    have hfits : s.cb + 1 + (tokensBytes pos g).length ≤ cbSbEnd := by omega
    have hstop : g.length = 8 ∨ s.cb + 1 + (tokensBytes pos g).length = cbSbEnd := by
      rcases hcase with height | hnil
      · exact .inl height
      · rw [hnil, groupsBytes, length_nil] at hend
        omega
    obtain ⟨s', hloop, hcb, hs'⟩ := tokenLoop_group hdata hroom hfirst hgroups.1 henc.1
      hmem.tail.left hlen hfits hstop
    have hrest := hmem.tail.right
    dsimp only at hcb
    rw [← hcb] at hrest
    rw [tagLoop, if_neg (by omega), if_neg (by rw [hs.dest_eq]; omega), load_ok hmem.head]
    dsimp only
    rw [htag]
    split
    next failure herror =>
      rw [hloop] at herror
      cases herror
    next s'' hok =>
      rw [hloop] at hok
      cases hok
      exact ih hs' hgroups.2 henc.2 hfull hrest (by omega) (by omega)

end

end SubBlock

end NtfsDxe
