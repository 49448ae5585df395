import NtfsDxe.Compress.DecodeTokens

/-! # Decompressing a stream of sub-blocks

A stream is a sequence of sub-block images, each either the tokens of its data
or the data as it is. Decompressing a stream that is followed by two null bytes
writes the data, with the last sub-block filled up with zeroes.
-/

namespace NtfsDxe

open Foundation SlidingWindow List

/-- The header of a compressed sub-block of `size` bytes. -/
def blockHeader (size : Nat) : Buffer :=
  [UInt8.ofNat (size - 3), UInt8.ofNat (0xb0 + (size - 3) / 256 % 16)]

/-- The bytes `out` represent a sub-block with the given data. -/
inductive SubBlockImage (data : Buffer) : Buffer → Prop where
  | raw : SubBlockImage data (rawBlock data)
  | tokens (groups : List (List (Token UInt8))) (hfull : FullGroups groups) (hne : groups ≠ [])
      (hdescribes : Describes data 0 groups.flatten)
      (hencodable : EncodableFrom 0 groups.flatten)
      (hall : totalSize groups.flatten = data.length)
      (hsize : (groupsBytes 0 groups).length < sbSize) :
      SubBlockImage data
        (blockHeader ((groupsBytes 0 groups).length + 2) ++ groupsBytes 0 groups)

def fillBlock (data : Buffer) : Buffer := data ++ List.replicate (sbSize - data.length) 0

lemma le16_blockHeader (hmem : HoldsAt cbuf cb (blockHeader size))
    (hlo : 3 ≤ size) (hhi : size < sbSize + 3) : le16 cbuf cb = .ok (0xb000 + (size - 3)) := by
  unfold sbSize at hhi
  rw [le16, load_ok hmem.head, load_ok hmem.tail.head]
  simp only [bind, Except.bind, UInt8.toNat_ofNat']
  congr 1
  omega

lemma groupsBytes_length_ge (pos : Nat)
    (hfull : FullGroups groups) (hne : groups ≠ []) : 2 ≤ (groupsBytes pos groups).length := by
  cases groups with
  | nil => exact absurd rfl hne
  | cons g groups =>
    have hg : g ≠ [] := by
      rintro rfl
      cases groups with
      | nil => exact hfull.1 rfl
      | cons g' groups => exact absurd hfull.1 (by decide)
    obtain ⟨t, g, rfl⟩ := exists_cons_of_ne_nil hg
    have hpos := tokenBytes_length_pos pos t
    rw [groupsBytes, tokensBytes]
    simp only [length_cons, length_append]
    omega

lemma SubBlockImage.length_ge (himage : SubBlockImage data out) : 4 ≤ out.length := by
  cases himage with
  | raw =>
    simp only [rawBlock, length_append, length_replicate, sbSize]
    omega
  | tokens groups hfull hne =>
    have hge := groupsBytes_length_ge 0 hfull hne
    simp only [blockHeader, length_append, length_cons]
    omega

lemma sbLoop_subBlock (himage : SubBlockImage data out) (hdata : data.length ≤ sbSize)
    (hmem : HoldsAt cbuf s.cb out) (hcb : s.cb + out.length + 2 ≤ cbuf.length)
    (hdest : s.dest + sbSize ≤ s.buf.length) :
    sbLoop s.buf.length cbuf.length cbuf s =
      sbLoop s.buf.length cbuf.length cbuf
        { cb := s.cb + out.length, dest := s.dest + sbSize,
          buf := splice s.buf s.dest (fillBlock data) } := by
  have hge := himage.length_ge
  cases himage with
  | raw =>
    have hfill : (fillBlock data).length = sbSize := by
      simp only [fillBlock, length_append, length_replicate]
      omega
    have hlength : (rawBlock data).length = 2 + sbSize := by
      rw [rawBlock, length_append, ← fillBlock, hfill]
      rfl
    have hheader : le16 cbuf s.cb = .ok 0x3fff := by
      rw [le16, load_ok hmem.head, load_ok hmem.tail.head]
      rfl
    have hbytes : (loadBytes cbuf (s.cb + 2) sbSize).bind (storeBytes s.buf s.dest) =
        .ok (splice s.buf s.dest (fillBlock data)) := by
      have hstretch := hmem.tail.tail.drop_take
      change (cbuf.drop (s.cb + 1 + 1)).take (fillBlock data).length = fillBlock data at hstretch
      rw [hfill] at hstretch
      rw [loadBytes, if_pos (by omega), hstretch]
      exact if_pos (by omega)
    rw [hlength] at hcb ⊢
    conv_lhs => rw [sbLoop, if_neg (by omega), hheader]
    dsimp only
    rw [if_neg (by omega), if_neg (by unfold sbSize at *; omega), if_pos (by decide),
      if_neg (by unfold sbSize; omega), hbytes, add_assoc]
  | tokens groups hfull hne hdescribes hencodable hall hsize =>
    have hlength : (blockHeader ((groupsBytes 0 groups).length + 2) ++
        groupsBytes 0 groups).length = 2 + (groupsBytes 0 groups).length := by
      rw [length_append]
      rfl
    have hheader := le16_blockHeader hmem.left (by omega) (by omega)
    have hstart : WrittenUpTo s.buf data s.dest 0 { s with cb := s.cb + 2 } :=
      ⟨rfl, by simp, Nat.zero_le _⟩
    have htags := tagLoop_groups hdata hdest hstart hdescribes hencodable hfull hmem.right rfl
      (by omega)
    rw [hlength] at hcb ⊢
    conv_lhs => rw [sbLoop, if_neg (by omega), hheader]
    dsimp only
    have hmod : (0xb000 + ((groupsBytes 0 groups).length + 2 - 3)) % 0x1000 =
        (groupsBytes 0 groups).length + 2 - 3 := by
      unfold sbSize at hsize
      omega
    have hend : s.cb + ((groupsBytes 0 groups).length + 2 - 3) + 3 =
        s.cb + 2 + (groupsBytes 0 groups).length := by omega
    rw [if_neg (by omega), hmod, hend, if_neg (by omega), if_neg (by omega)]
    split
    next failure herror =>
      rw [htags] at herror
      cases herror
    next s' hok =>
      rw [htags] at hok
      cases hok
      rw [← add_assoc, fillBlock]

/-- The bytes `out` are the images of the consecutive sub-blocks of `data`. -/
inductive StreamOf : Buffer → Buffer → Prop where
  | nil : StreamOf [] []
  | block {data out rest : Buffer} (hne : data ≠ [])
      (himage : SubBlockImage (data.take sbSize) out)
      (hrest : StreamOf (data.drop sbSize) rest) : StreamOf data (out ++ rest)

/-- The number of zeroes that fill up the last sub-block. -/
def padLength (n : Nat) : Nat := (sbSize - n % sbSize) % sbSize

def fillLast (data : Buffer) : Buffer := data ++ List.replicate (padLength data.length) 0

lemma fillLast_nil : fillLast [] = [] := rfl

lemma fillLast_block (hne : data ≠ []) :
    fillLast data = fillBlock (data.take sbSize) ++ fillLast (data.drop sbSize) := by
  have hpos := length_pos_iff.mpr hne
  unfold fillLast fillBlock padLength
  by_cases hlast : data.length ≤ sbSize
  · rw [take_of_length_le hlast, drop_eq_nil_of_le hlast]
    have hpad : (sbSize - data.length % sbSize) % sbSize = sbSize - data.length := by
      unfold sbSize at hlast ⊢
      omega
    rw [hpad]
    simp [sbSize]
  · have htake : (data.take sbSize).length = sbSize := by simp; omega
    rw [htake, Nat.sub_self, replicate_zero, append_nil, length_drop]
    have hpad : (sbSize - (data.length - sbSize) % sbSize) % sbSize =
        (sbSize - data.length % sbSize) % sbSize := by
      rw [Nat.mod_eq_sub_mod (by omega : sbSize ≤ data.length)]
    rw [hpad, ← append_assoc, take_append_drop]

/-- A stream of sub-blocks that is followed by two null bytes is decompressed to
its data. -/
lemma sbLoop_stream (hstream : StreamOf data out) (hmem : HoldsAt cbuf s.cb (out ++ [0, 0]))
    (hdest : s.dest + (fillLast data).length ≤ s.buf.length) :
    (sbLoop s.buf.length cbuf.length cbuf s).map DecompressState.buf =
      .ok (splice s.buf s.dest (fillLast data)) := by
  induction hstream generalizing s with
  | nil =>
    have hend := hmem.end_le (by simp)
    have hheader : le16 cbuf s.cb = .ok 0 := by
      rw [le16, load_ok hmem.head, load_ok hmem.tail.head]
      rfl
    simp only [nil_append, length_cons] at hend
    rw [sbLoop, if_neg (by omega), hheader, fillLast_nil, splice_nil]
    rfl
  | @block data out rest hne himage hrest ih =>
    have hlast := hmem.end_le (by simp)
    simp only [length_append, length_cons] at hlast
    have hfill : (fillBlock (data.take sbSize)).length = sbSize := by
      simp only [fillBlock, length_append, length_replicate, length_take]
      omega
    rw [append_assoc] at hmem
    rw [fillLast_block hne, length_append] at hdest
    have hbuf : (splice s.buf s.dest (fillBlock (data.take sbSize))).length = s.buf.length :=
      splice_length (by omega)
    have hrest := ih (s := ⟨s.cb + out.length, s.dest + sbSize,
      splice s.buf s.dest (fillBlock (data.take sbSize))⟩) hmem.right (by dsimp only; omega)
    rw [hbuf] at hrest
    rw [sbLoop_subBlock himage (by simp) hmem.left (by omega) (by omega), hrest, fillLast_block hne]
    have hjoin := splice_splice s.buf (fillBlock (data.take sbSize))
      (fillLast (data.drop sbSize)) (by omega : s.dest ≤ s.buf.length)
    rw [hfill] at hjoin
    rw [hjoin]

end NtfsDxe
