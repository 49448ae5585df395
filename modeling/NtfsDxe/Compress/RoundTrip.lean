import NtfsDxe.Compress.EncodeTokens

/-! # Round trip of compression

A compression block that `ntfs_comp_set` compresses is recovered by
`ntfs_decompress`, and one that it reports as a hole consists of zeroes.
-/

namespace NtfsDxe

open Foundation SlidingWindow List

/-! ## Sub-blocks -/

variable {inbuf data out : Buffer}

lemma Written.lastTag (hs : Written inbuf groups pending s) :
    ∃ groups', s.lastTag = [0, 0] ++ groupsBytes 0 groups' ∧ FullGroups groups' ∧
      groups'.flatten = groups.flatten ++ pending := by
  have hlt := hs.pending_lt
  rw [BlockState.lastTag, hs.out_eq, hs.ntag_eq]
  cases pending with
  | nil =>
    refine ⟨groups, ?_, FullGroups.of_full hs.full, by simp⟩
    rw [if_pos (by rfl), tokensBytes, dropLast_concat]
  | cons t pending =>
    refine ⟨groups ++ [t :: pending], ?_, ?_, by simp⟩
    · have hslot : s.ptag = ([0, 0] ++ groupsBytes 0 groups : Buffer).length := by
        rw [hs.ptag_eq, length_append]
        rfl
      rw [length_cons, if_neg (by omega), hslot, groupsBytes_append, hs.tag_eq]
      simp [groupsBytes]
    · exact FullGroups.append_last hs.full (by simp) (by omega)

lemma compressBlock_image (hne : inbuf ≠ []) (hsize : inbuf.length ≤ sbSize) :
    ∃ out, compressBlock true inbuf = some out ∧ SubBlockImage inbuf out := by
  obtain ⟨s, hloop, _, groups, pending, hwritten⟩ :=
    compressLoop_compressing initial_compressing hsize
  obtain ⟨groups', hout, hfull, hflatten⟩ := hwritten.lastTag
  have hdescribes := hwritten.describes
  have hencodable := hwritten.encodable
  have htotal := hwritten.size_eq
  rw [← hflatten] at hdescribes hencodable htotal
  rw [compressBlock, if_pos rfl, hloop]
  dsimp only
  rw [hout]
  split
  next hdone =>
    have hend : s.i ≤ inbuf.length := by
      have hle := Describes.end_le hdescribes
      omega
    have hall : totalSize groups'.flatten = inbuf.length := by omega
    have hnonempty : groups' ≠ [] := by
      rintro rfl
      have hpos := length_pos_iff.mpr hne
      simp at hall
      omega
    have himage := SubBlockImage.tokens groups' hfull hnonempty hdescribes hencodable hall
      (by have := hdone.2; simp at this; omega)
    simpa [blockHeader] using himage
  next => exact ⟨_, rfl, SubBlockImage.raw⟩

lemma SubBlockImage.length_le (himage : SubBlockImage data out) (hdata : data.length ≤ sbSize) :
    out.length ≤ sbSize + 2 := by
  cases himage with
  | raw =>
    simp only [rawBlock, length_append, length_cons, length_nil, length_replicate]
    omega
  | tokens groups hfull hne hdescribes hencodable hall hsize =>
    simp only [blockHeader, length_append, length_cons, length_nil]
    omega

/-! ## Holes -/

lemma tagBit_eq_zero (ht : tagBit t = 0) : ∃ b, t = .literal b := by
  cases t with
  | literal b => exact ⟨b, rfl⟩
  | copy distance length => cases ht

/-- A group without phrases consists of the data itself. -/
lemma describes_literals (hg : Describes data pos g) (htag : groupTag g = 0) :
    totalSize g = (tokensBytes pos g).length ∧
      ∀ k < totalSize g, data[pos + k]? = (tokensBytes pos g)[k]? := by
  induction g generalizing pos with
  | nil => simp [tokensBytes]
  | cons t g ih =>
    rw [groupTag] at htag
    obtain ⟨b, rfl⟩ := tagBit_eq_zero (by omega : tagBit t = 0)
    obtain ⟨ht, hg⟩ := hg
    obtain ⟨hsize, hbytes⟩ := ih hg (by omega)
    rw [totalSize_cons, tokensBytes, tokenBytes, singleton_append, length_cons]
    refine ⟨by rw [← hsize, Token.size, add_comm], ?_⟩
    intro k hk
    cases k with
    | zero => exact ht
    | succ k =>
      have hnext := hbytes k (by dsimp only [Token.size] at hk; omega)
      rw [getElem?_cons_succ, ← hnext, Token.size]
      congr 1
      omega

/-- A group whose second token is its only phrase, after a zero. -/
lemma describes_zeroes (hg : Describes data 0 g) (htag : groupTag g = 2)
    (hbytes : tokensBytes 0 g = [0, x, y]) : ∀ k < totalSize g, data[k]? = some 0 := by
  cases g with
  | nil => cases htag
  | cons t g =>
    rw [groupTag] at htag
    have hbit := tagBit_le t
    obtain ⟨b, rfl⟩ := tagBit_eq_zero (by omega : tagBit t = 0)
    cases g with
    | nil => simp [groupTag, tagBit] at htag
    | cons t' g =>
      rw [groupTag] at htag
      cases t' with
      | literal b' => simp only [tagBit] at htag; omega
      | copy distance length =>
        simp only [tokensBytes, tokenBytes, cons_append] at hbytes
        injection hbytes with hzero hrest
        injection hrest with _ hrest
        injection hrest with _ hrest
        obtain ⟨hfirst, hcopy, _⟩ := hg
        have hempty : g = [] := by
          cases g with
          | nil => rfl
          | cons t'' g =>
            have hpos := tokenBytes_length_pos (0 + 1 + length) t''
            have hlen := congrArg List.length hrest
            simp only [tokensBytes, Token.size, length_append] at hlen
            omega
        have hconst := hcopy.copy_constant (hzero ▸ hfirst)
        intro k hk
        rw [hempty] at hk
        simp only [totalSize_cons, totalSize_nil, Token.size] at hk
        exact hconst k (by omega)

lemma tokensBytes_length_ge (pos : Nat) (g : List (Token UInt8)) :
    g.length ≤ (tokensBytes pos g).length := by
  induction g generalizing pos with
  | nil => exact Nat.zero_le _
  | cons t g ih =>
    have hpos := tokenBytes_length_pos pos t
    have hrest := ih (pos + t.size)
    rw [tokensBytes, length_append, length_cons]
    omega

/-- A short sub-block has a single group. -/
lemma groupsBytes_short (hfull : FullGroups groups) (hne : groups ≠ [])
    (hshort : (groupsBytes 0 groups).length ≤ 4) :
    ∃ g, groups = [g] ∧ g.length ≤ 8 ∧
      groupsBytes 0 groups = UInt8.ofNat (groupTag g) :: tokensBytes 0 g := by
  cases groups with
  | nil => exact absurd rfl hne
  | cons g groups =>
    obtain ⟨hle, hcase, _⟩ := hfull.cons_cases
    rw [groupsBytes, cons_append, length_cons, length_append] at hshort
    have hge := tokensBytes_length_ge 0 g
    rcases hcase with height | rfl
    · omega
    · refine ⟨g, rfl, hle, ?_⟩
      rw [groupsBytes, groupsBytes, append_nil]

lemma groupTag_of_byte (hlen : g.length ≤ 8) (hn : n < 256)
    (hbyte : UInt8.ofNat (groupTag g) = UInt8.ofNat n) : groupTag g = n := by
  have hlt := groupTag_lt g
  have hpow : 2 ^ g.length ≤ 2 ^ 8 := Nat.pow_le_pow_right (by omega) hlen
  have hnat := congrArg UInt8.toNat hbyte
  rw [UInt8.toNat_ofNat', UInt8.toNat_ofNat'] at hnat
  omega

lemma zero_of_getElem? (hzero : ∀ k < data.length, data[k]? = some 0) : ∀ b ∈ data, b = 0 := by
  intro b hb
  obtain ⟨k, hk, rfl⟩ := getElem_of_mem hb
  have hk' := hzero k hk
  rw [getElem?_eq_getElem hk] at hk'
  exact Option.some.inj hk'

lemma literals_zero (hg : Describes data 0 g) (hall : totalSize g = data.length)
    (hlen : g.length ≤ 8) (htag : UInt8.ofNat (groupTag g) = 0)
    (hzero : ∀ b ∈ tokensBytes 0 g, b = 0) : ∀ b ∈ data, b = 0 := by
  obtain ⟨hsize, hbytes⟩ := describes_literals hg (groupTag_of_byte hlen (by decide : 0 < 256) htag)
  apply zero_of_getElem?
  intro k hk
  have hbyte := hbytes k (by omega)
  rw [zero_add] at hbyte
  have hin : k < (tokensBytes 0 g).length := by omega
  rw [hbyte, getElem?_eq_getElem hin, hzero _ (getElem_mem hin)]

lemma SubBlockImage.zero_of_isAllZeroes (himage : SubBlockImage data out)
    (hzeroes : isAllZeroes out = true) : ∀ b ∈ data, b = 0 := by
  have hlen : out.length = 4 ∨ out.length = 5 ∨ out.length = 6 := by
    unfold isAllZeroes at hzeroes
    by_contra hnot
    rw [if_neg (by omega), if_neg (by omega), if_neg (by omega)] at hzeroes
    cases hzeroes
  cases himage with
  | raw =>
    simp only [rawBlock, length_append, length_replicate, sbSize] at hlen
    omega
  | tokens groups hfull hne hdescribes hencodable hall hsize =>
    have hlength : ∀ n, (blockHeader n ++ groupsBytes 0 groups).length =
        (groupsBytes 0 groups).length + 2 := by
      intro n
      rfl
    rw [hlength] at hlen
    obtain ⟨g, rfl, hgLen, hbytes⟩ := groupsBytes_short hfull hne (by omega)
    rw [flatten_singleton] at hdescribes hall
    unfold isAllZeroes at hzeroes
    rw [hbytes, blockHeader] at hzeroes
    rw [hbytes, length_cons] at hlen
    rcases hlen with hfour | hfive | hsix
    · obtain ⟨x, hx⟩ := length_eq_one_iff.mp (by omega : (tokensBytes 0 g).length = 1)
      simp [hx, onezero] at hzeroes
      refine literals_zero hdescribes hall hgLen hzeroes.1 ?_
      rw [hx]
      simp [hzeroes.2]
    · obtain ⟨x, y, hxy⟩ := length_eq_two.mp (by omega : (tokensBytes 0 g).length = 2)
      simp [hxy, twozeroes] at hzeroes
      refine literals_zero hdescribes hall hgLen hzeroes.1 ?_
      rw [hxy]
      simp [hzeroes.2]
    · obtain ⟨x, y, z, hxyz⟩ := length_eq_three.mp (by omega : (tokensBytes 0 g).length = 3)
      simp [hxyz, morezeroes] at hzeroes
      have htag := groupTag_of_byte hgLen (by decide : 2 < 256) hzeroes.1
      rw [hzeroes.2] at hxyz
      apply zero_of_getElem?
      intro k hk
      exact describes_zeroes hdescribes htag hxyz k (by omega)

/-! ## A set of sub-blocks -/

/-- What a successful loop over the sub-blocks of `inbuf` adds to the output. -/
structure Compressed (unit : CompressionUnit) (inbuf out : Buffer) (r : Buffer × Bool) : Prop where
  stream : ∃ rest, r.1 = out ++ rest ∧ StreamOf inbuf rest
  room : inbuf ≠ [] → r.1.length + 2 ≤ unit.blockSize
  zero : r.2 = true → ∀ b ∈ inbuf, b = 0

lemma Compressed.block (hne : inbuf ≠ []) (himage : SubBlockImage (inbuf.take sbSize) pbuf)
    (hroom : out.length + pbuf.length + 2 ≤ unit.blockSize)
    (hzeroes : r.2 = true → (zeroes && isAllZeroes pbuf) = true)
    (hrest : Compressed unit (inbuf.drop sbSize) (out ++ pbuf) r) :
    Compressed unit inbuf out r := by
  obtain ⟨rest, hr, hstream⟩ := hrest.stream
  refine ⟨⟨pbuf ++ rest, by rw [hr, append_assoc], .block hne himage hstream⟩, ?_, ?_⟩
  · intro _
    by_cases hlast : inbuf.drop sbSize = []
    · rw [hlast] at hstream
      cases hstream with
      | nil =>
        rw [hr, append_nil, length_append]
        exact hroom
      | block hne' _ _ => exact absurd rfl hne'
    · exact hrest.room hlast
  · intro hz b hb
    rw [← take_append_drop sbSize inbuf, mem_append] at hb
    rcases hb with hb | hb
    · exact himage.zero_of_isAllZeroes ((Bool.and_eq_true _ _).mp (hzeroes hz)).2 b hb
    · exact hrest.zero hz b hb

/-- The loop cannot turn `allzeroes` on again. -/
lemma compSetLoop_allzeroes (hloop : compSetLoop unit hasMemory inbuf out zeroes =
    some (some r)) : r.2 = true → zeroes = true := by
  induction inbuf, out, zeroes using compSetLoop.induct unit hasMemory with
  | case1 inbuf out zeroes hend =>
    rw [compSetLoop, if_pos hend] at hloop
    cases hloop
    exact id
  | case2 inbuf out zeroes hend hnone =>
    rw [compSetLoop, if_neg hend, hnone] at hloop
    cases hloop
  | case3 inbuf out zeroes hend pbuf hsome hfail =>
    rw [compSetLoop, if_neg hend, hsome] at hloop
    dsimp only at hloop
    rw [if_pos hfail] at hloop
    cases hloop
  | case4 inbuf out zeroes hend pbuf hsome hfit ih =>
    rw [compSetLoop, if_neg hend, hsome] at hloop
    dsimp only at hloop
    rw [if_neg hfit] at hloop
    intro hr
    exact ((Bool.and_eq_true _ _).mp (ih hloop hr)).1

lemma compSetLoop_spec (unit : CompressionUnit) (hasMemory : Nat → Bool) (out : Buffer)
    (zeroes : Bool) (hclusters : out.length + 2 ^ unit.clusterSizeBits ≤ unit.blockSize) :
    ∃ r, compSetLoop unit hasMemory inbuf out zeroes = some r ∧
      ∀ done, r = some done → Compressed unit inbuf out done := by
  induction inbuf, out, zeroes using compSetLoop.induct unit hasMemory with
  | case1 inbuf out zeroes hend =>
    obtain rfl := length_eq_zero_iff.mp hend
    refine ⟨some (out, zeroes), by rw [compSetLoop, if_pos hend], ?_⟩
    rintro done ⟨⟩
    refine ⟨⟨[], (append_nil out).symm, .nil⟩, fun hne => absurd rfl hne, ?_⟩
    intro _ b hb
    cases hb
  | case2 inbuf out zeroes hend hnone =>
    have hne : inbuf.take sbSize ≠ [] := by
      simpa [sbSize] using length_pos_iff.mp (Nat.pos_of_ne_zero hend)
    cases hmem : hasMemory inbuf.length with
    | false =>
      rw [hmem] at hnone
      cases hnone
    | true =>
      obtain ⟨pbuf, hsome, _⟩ := compressBlock_image hne (length_take_le sbSize inbuf)
      rw [hmem, hsome] at hnone
      cases hnone
  | case3 inbuf out zeroes hend pbuf hsome hfail =>
    refine ⟨none, ?_, fun done hdone => by cases hdone⟩
    rw [compSetLoop, if_neg hend, hsome]
    exact if_pos hfail
  | case4 inbuf out zeroes hend pbuf hsome hfit ih =>
    have hne : inbuf ≠ [] := length_pos_iff.mp (Nat.pos_of_ne_zero hend)
    have hlen := length_take_le sbSize inbuf
    have himage : SubBlockImage (inbuf.take sbSize) pbuf := by
      cases hmem : hasMemory inbuf.length with
      | false =>
        rw [hmem] at hsome
        cases hsome
        exact absurd (.inl rfl) hfit
      | true =>
        obtain ⟨pbuf', hsome', himage⟩ := compressBlock_image (by simpa [sbSize] using hne) hlen
        rw [hmem, hsome'] at hsome
        cases hsome
        exact himage
    -- the sizes stay far below `2 ^ 32`: the output so far leaves a cluster free
    have hpbuf := himage.length_le hlen
    have hblock := unit.blockSize_le
    have hsum : out.length + pbuf.length + 2 ^ unit.clusterSizeBits + 2 ≤ unit.blockSize := by
      unfold sbSize at hpbuf
      omega
    have hloop : compSetLoop unit hasMemory inbuf out zeroes =
        compSetLoop unit hasMemory (inbuf.drop sbSize) (out ++ pbuf)
          (zeroes && isAllZeroes pbuf) := by
      rw [compSetLoop, if_neg hend, hsome]
      exact if_neg hfit
    have hout : (out ++ pbuf).length = out.length + pbuf.length := length_append
    have hclsz := Nat.two_pow_pos unit.clusterSizeBits
    obtain ⟨r, hr, hcompressed⟩ := ih (by omega)
    rw [hloop]
    refine ⟨r, hr, ?_⟩
    rintro done rfl
    exact .block hne himage (by omega) (compSetLoop_allzeroes hr) (hcompressed done rfl)

lemma padLength_le (hdvd : sbSize ∣ size) (hle : n ≤ size) : n + padLength n ≤ size := by
  unfold padLength sbSize at *
  omega

/-- What is stored for a compressed stream is decompressed to the input, followed by
zeroes up to the end of the last sub-block. -/
lemma ntfsDecompress_stream (hstream : StreamOf input rest)
    (hdvd : sbSize ∣ size) (hinput : input.length ≤ size) (hdest : dest.length = size) :
    ntfsDecompress dest (rest ++ [0, 0] ++ padding) =
      .ok (input ++ replicate (padLength input.length) 0 ++
        dest.drop (input.length + padLength input.length)) := by
  have hpad := padLength_le hdvd hinput
  have hlen : (fillLast input).length = input.length + padLength input.length := by
    rw [fillLast, length_append, length_replicate]
  have hmem : HoldsAt (rest ++ [0, 0] ++ padding) 0 (rest ++ [0, 0]) := by
    intro k hk
    rw [zero_add, getElem?_append_left hk, getElem?_eq_getElem hk]
  have hsbs := sbLoop_stream hstream hmem (s := ⟨0, 0, dest⟩) (by dsimp only; omega)
  rw [ntfsDecompress, decompress, hsbs]
  rw [splice, zero_add, hlen]
  rfl

/-- Compressing a block and decompressing the stream gives the block back, and a block
is only reported as all zeroes if it is. -/
theorem compSet_roundTrip (unit : CompressionUnit) (hasOutbuf : Bool) (hasMemory : Nat → Bool)
    (input : Buffer) (hne : 1 ≤ input.length) (hsize : input.length ≤ unit.blockSize) :
    ∃ r, compSet unit hasOutbuf hasMemory input = some r ∧
      (∀ stream, r = .stream stream → stream.length ≤ unit.blockSize ∧
        ∀ padding dest : Buffer, stream.length + padding.length = unit.blockSize →
          dest.length = unit.blockSize →
          ∃ out, ntfsDecompress dest (stream ++ padding) = .ok out ∧
            out.length = unit.blockSize ∧ out.take input.length = input ∧
            (out.drop input.length).take (padLength input.length) =
              replicate (padLength input.length) 0) ∧
      (r = .zeroes → ∀ b ∈ input, b = 0) := by
  have hcluster := Nat.le_of_dvd (by omega) unit.clusterSize_dvd
  obtain ⟨r, hloop, hspec⟩ := compSetLoop_spec unit hasMemory [] true (by rw [length_nil]; omega)
  unfold compSet
  cases hasOutbuf with
  | false => exact ⟨.failed, rfl, fun _ h => (by cases h), fun h => (by cases h)⟩
  | true =>
    rw [hloop]
    cases r with
    | none => exact ⟨.failed, rfl, fun _ h => (by cases h), fun h => (by cases h)⟩
    | some done =>
      obtain ⟨stored, zeroes⟩ := done
      have hcompressed := hspec _ rfl
      cases zeroes with
      | true => exact ⟨.zeroes, rfl, fun _ h => (by cases h), fun _ => hcompressed.zero rfl⟩
      | false =>
        refine ⟨.stream (stored ++ [0, 0]), rfl, ?_, fun h => (by cases h)⟩
        rintro _ ⟨⟩
        obtain ⟨rest, hrest, hstream⟩ := hcompressed.stream
        have hroom := hcompressed.room (length_pos_iff.mp hne)
        refine ⟨by rw [length_append]; exact hroom, ?_⟩
        intro padding dest _ hdest
        have hpad := padLength_le unit.sbSize_dvd hsize
        cases hrest
        refine ⟨_, ntfsDecompress_stream hstream unit.sbSize_dvd hsize hdest, ?_, ?_, ?_⟩
        · simp only [length_append, length_replicate, length_drop]
          omega
        · rw [append_assoc, take_left]
        · rw [append_assoc, drop_left, take_left' length_replicate]

/-- Sixteen clusters of 4096 bytes. -/
def standardUnit : CompressionUnit where
  clusterSizeBits := 12
  blockSize := 65536
  sbSize_dvd := by decide
  clusterSize_dvd := by decide
  blockSize_le := by decide

theorem compSet_roundTrip_repeated :
    compSet standardUnit true (fun _ => true) [7, 7, 7, 7, 7, 7] =
      some (.stream [3, 0xb0, 2, 7, 2, 0, 0, 0]) ∧
    ∀ padding dest : Buffer, padding.length = 65528 → dest.length = 65536 →
      ∃ out, ntfsDecompress dest ([3, 0xb0, 2, 7, 2, 0, 0, 0] ++ padding) = .ok out ∧
        out.length = 65536 ∧ out.take 6 = [7, 7, 7, 7, 7, 7] ∧
        (out.drop 6).take 4090 = replicate 4090 0 := by
  have hset : compSet standardUnit true (fun _ => true) [7, 7, 7, 7, 7, 7] =
      some (.stream [3, 0xb0, 2, 7, 2, 0, 0, 0]) := by decide +kernel
  refine ⟨hset, ?_⟩
  obtain ⟨r, hr, hstream, _⟩ := compSet_roundTrip standardUnit true (fun _ => true)
    [7, 7, 7, 7, 7, 7] (by decide) (by decide)
  intro padding dest hpadding hdest
  refine (hstream _ ?_).2 padding dest ?_ hdest
  · rw [hset] at hr
    exact (Option.some.inj hr).symm
  · rw [hpadding]
    rfl

end NtfsDxe
