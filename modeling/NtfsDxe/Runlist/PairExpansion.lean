import NtfsDxe.Runlist.PairCodec

/-! # Expanding the byte sequence of a list of runs

Expansion is first described without the array that receives the runs, so that
it has no limit on their number. The decoding loop of the driver, whose array
index has sixteen bits, computes the same expansion below that limit.
-/

namespace NtfsDxe

open Foundation List SignedBytes

/-- The runs of a mapping pairs array and the decoder's variables at its
terminator. -/
structure Expansion where
  runs : List RunlistElement
  buf : Nat
  vcn : Int
  lcn : Int
  deriving DecidableEq

/-- Expand the pairs from `buf` up to the terminator, which must lie inside the
attribute. Each pair is decoded by the body of the driver's loop. -/
def expandPairs (attr : AttrRecord) (buf : Nat) (vcn lcn : Int) : Except Failure Expansion :=
  if buf < attr.length then
    match load attr.mem buf with
    | .error failure => .error failure
    | .ok header =>
      if header = 0 then .ok { runs := [], buf := buf, vcn := vcn, lcn := lcn }
      else
        match decodeRun attr buf header vcn lcn with
        | .error failure => .error failure
        | .ok (e, lcn) =>
          match expandPairs attr (buf + (header.toNat % 16 + header.toNat / 16 + 1))
              (s64 (vcn + e.length)) lcn with
          | .error failure => .error failure
          | .ok x => .ok { x with runs := e :: x.runs }
  else .error (.errno .eio)
termination_by attr.length - buf

/-! ## One pair -/

lemma pairHeader_toNat (hlen : lenLen < 16) (hlcn : lcnLen < 16) :
    (pairHeader lenLen lcnLen).toNat = lcnLen * 16 + lenLen := by
  have hor : lcnLen <<< 4 ||| lenLen = lcnLen * 16 + lenLen := by
    rw [← Nat.shiftLeft_add_eq_or_of_lt (i := 4) (by simpa using hlen), Nat.shiftLeft_eq]
  rw [pairHeader, UInt8.toNat_ofNat']
  omega

/-- A mapped run or hole whose fields are 64-bit numbers. -/
structure Storable (e : RunlistElement) : Prop where
  length_pos : 0 < e.length
  length_isS64 : IsS64 e.length
  hole_le : lcnHole ≤ e.lcn
  lcn_isS64 : IsS64 e.lcn

lemma pairHeader_widths (vol : Volume) (lcn : Int) (he : Storable e) :
    let lenLen := (encode e.length).length
    let lcnLen := (changeBytes (lcnChange vol lcn e)).length
    (pairHeader lenLen lcnLen).toNat % 16 = lenLen ∧
      (pairHeader lenLen lcnLen).toNat / 16 = lcnLen ∧ 0 < lenLen := by
  intro lenLen lcnLen
  have hlen : lenLen ≤ 8 := encode_length_le_eight he.length_isS64
  have hlcn : lcnLen ≤ 8 := changeBytes_length_le (lcnChange_isS64 vol lcn e)
  have hpos : 0 < lenLen := encode_length_pos e.length
  rw [pairHeader_toNat (by omega) (by omega)]
  omega

lemma decodeRun_pairBytes (he : Storable e)
    (hmem : HoldsAt attr.mem buf (pairBytes e.length (lcnChange vol lcn e)))
    (hin : buf + (pairBytes e.length (lcnChange vol lcn e)).length ≤ attr.length) :
    decodeRun attr buf (pairHeader (encode e.length).length
      (changeBytes (lcnChange vol lcn e)).length) e.vcn lcn = .ok (e, followingLcn vol lcn e) := by
  obtain ⟨hmod, hdiv, hpos⟩ := pairHeader_widths vol lcn he
  have hfields := hmem.tail
  have hlength := readDelta_encode he.length_isS64 hfields.left
  have hchange := hfields.right
  rw [pairBytes_length] at hin
  have hnonneg : ¬ e.length < 0 := by have := he.length_pos; omega
  unfold decodeRun
  rw [hmod, hdiv]
  simp only [ne_of_gt hpos, if_false, show ¬ attr.length < buf +
    (encode e.length).length by omega, hlength, hnonneg, bind, Except.bind, pure,
    Except.pure]
  by_cases hstores : storesLcn vol e
  · -- The stored change leads from the previous cluster number back to this one.
    have hcase : lcnChange vol lcn e = some (s64 (e.lcn - lcn)) := by simp [lcnChange, hstores]
    have hfollow : followingLcn vol lcn e = e.lcn := by simp [followingLcn, hstores]
    rw [hcase, changeBytes] at hchange hin
    have hread : readDelta attr.mem (buf + (encode e.length).length)
        ((encode (s64 (e.lcn - lcn))).length - 1) = .ok (s64 (e.lcn - lcn)) := by
      apply readDelta_encode (s64_isS64 _)
      rwa [show buf + 1 + (encode e.length).length =
        buf + (encode e.length).length + 1 by omega] at hchange
    have hne : (encode (s64 (e.lcn - lcn))).length ≠ 0 :=
      ne_of_gt (encode_length_pos _)
    have hhole : ¬ e.lcn < -1 := by have := he.hole_le; unfold lcnHole at this; omega
    rw [hcase, changeBytes, hfollow]
    simp only [hne, if_false, show ¬ attr.length < buf +
      ((encode e.length).length + (encode (s64 (e.lcn - lcn))).length)
        by omega, hread, s64_add_s64_sub he.lcn_isS64, hhole]
  · have hcase : lcnChange vol lcn e = none := by simp [lcnChange, hstores]
    have hfollow : followingLcn vol lcn e = lcn := by simp [followingLcn, hstores]
    have hhole : e.lcn = lcnHole := by
      have hle := he.hole_le
      simp only [storesLcn, Bool.or_eq_true, decide_eq_true_eq] at hstores
      unfold lcnHole at hle ⊢
      omega
    rw [hcase, hfollow]
    simp only [changeBytes, length_nil, if_true, ← hhole]

/-! ## All pairs -/

/-- A chain inside the 64-bit range whose volume clusters are in range. -/
lemma Chain.storable (hchain : Chain a runs b) (ha : 0 ≤ a) (hb : IsS64 b)
    (hrange : ∀ e ∈ runs, LcnInRange e) : ∀ e ∈ runs, Storable e := by
  induction runs generalizing a with
  | nil => simp
  | cons e rest ih =>
    have hlen := hchain.length_isS64 ha hb e mem_cons_self
    obtain ⟨_, hpos, hlcn, hrest⟩ := hchain
    intro e' he'
    rcases mem_cons.mp he' with rfl | htail
    · refine ⟨hpos, hlen, hlcn, ?_⟩
      have hlast := hrange e' mem_cons_self
      unfold LcnInRange at hlast
      unfold lcnHole at hlcn
      rw [isS64_iff]
      omega
    · exact ih hrest (by omega) (fun e he => hrange e (mem_cons_of_mem _ he)) e' htail

/-- Expanding the bytes of a chain of runs followed by a zero byte gives back
exactly those runs. -/
lemma expandPairs_runsBytes (vol : Volume) (buf : Nat) (lcn : Int) (hchain : Chain a runs b)
    (ha : 0 ≤ a) (hb : IsS64 b) (hstorable : ∀ e ∈ runs, Storable e)
    (hmem : HoldsAt attr.mem buf (runsBytes vol runs lcn ++ [0]))
    (hin : buf + (runsBytes vol runs lcn).length < attr.length) :
    expandPairs attr buf a lcn =
      .ok { runs := runs, buf := buf + (runsBytes vol runs lcn).length, vcn := b,
            lcn := lastLcn vol runs lcn } := by
  induction runs generalizing a buf lcn with
  | nil =>
    have hab : a = b := hchain
    have hzero := hmem.head
    rw [expandPairs, if_pos (by simpa [runsBytes] using hin), load_ok hzero, hab]
    rfl
  | cons e rest ih =>
    obtain ⟨hvcn, hpos, _, hrest⟩ := hchain
    have he := hstorable e mem_cons_self
    simp only [runsBytes, length_append] at hin
    rw [runsBytes, append_assoc] at hmem
    have hpairMem := hmem.left
    have htail := ih (buf + (pairBytes e.length (lcnChange vol lcn e)).length)
      (followingLcn vol lcn e) hrest (by omega)
      (fun e he => hstorable e (mem_cons_of_mem _ he)) hmem.right (by omega)
    obtain ⟨hmod, hdiv, hlenPos⟩ := pairHeader_widths vol lcn he
    have hheader := hpairMem.head
    have hnonzero : pairHeader (encode e.length).length
        (changeBytes (lcnChange vol lcn e)).length ≠ 0 := by
      intro hzero
      rw [hzero] at hmod
      simp at hmod
      omega
    have hnextVcn : s64 (a + e.length) = a + e.length := by
      apply s64_of_isS64
      have hle := hrest.le
      rw [isS64_iff] at hb ⊢
      omega
    have hnextBuf : buf + ((encode e.length).length +
        (changeBytes (lcnChange vol lcn e)).length + 1) =
        buf + (pairBytes e.length (lcnChange vol lcn e)).length := by
      rw [pairBytes_length]
      omega
    have hrun := decodeRun_pairBytes he hpairMem (by omega)
    rw [hvcn] at hrun
    rw [expandPairs, if_pos (by omega), load_ok hheader]
    dsimp only
    rw [if_neg hnonzero, hrun]
    dsimp only
    rw [hmod, hdiv, hnextVcn, hnextBuf, htail]
    simp [runsBytes, lastLcn, add_assoc]

/-! ## The driver's array -/

lemma putElement_end : putElement rl rl.length e = rl ++ [e] := by
  simp [putElement]

/-- Below the limit of its array index the driver's loop appends the expansion
to the runs it already holds. -/
lemma decodeLoop_expandPairs (hx : expandPairs attr s.buf s.vcn s.lcn = .ok x)
    (hpos : s.rlpos.toNat = s.rl.length) (hroom : s.rl.length + x.runs.length < 65536) :
    decodeLoop attr s =
        .ok { buf := x.buf, vcn := x.vcn, lcn := x.lcn, rl := s.rl ++ x.runs,
              rlpos := UInt16.ofNat (s.rl.length + x.runs.length) } ∧
      x.buf < attr.length := by
  induction hk : attr.length - s.buf using Nat.strongRecOn generalizing s x with
  | ind k ih =>
    rw [expandPairs] at hx
    rw [decodeLoop]
    split at hx
    next hin =>
      rw [if_pos hin]
      cases hload : load attr.mem s.buf with
      | error failure => simp [hload] at hx
      | ok header =>
        rw [hload] at hx
        dsimp only at hx ⊢
        by_cases hzero : header = 0
        · rw [if_pos hzero] at hx ⊢
          cases hx
          have hrlpos : UInt16.ofNat s.rl.length = s.rlpos := by
            rw [← hpos, UInt16.ofNat_toNat]
          simp_all
        · rw [if_neg hzero] at hx ⊢
          cases hrun : decodeRun attr s.buf header s.vcn s.lcn with
          | error failure => simp [hrun] at hx
          | ok r =>
            obtain ⟨e, lcn⟩ := r
            rw [hrun] at hx
            dsimp only at hx ⊢
            cases hrest : expandPairs attr
                (s.buf + (header.toNat % 16 + header.toNat / 16 + 1))
                (s64 (s.vcn + e.length)) lcn with
            | error failure => simp [hrest] at hx
            | ok y =>
              rw [hrest] at hx
              cases hx
              simp only [length_cons] at hroom
              have hnext : (s.rlpos + 1).toNat = s.rl.length + 1 := by
                rw [UInt16.toNat_add, hpos]
                exact Nat.mod_eq_of_lt (by simpa using (by omega : s.rl.length + 1 < 65536))
              have hput : putElement s.rl s.rlpos.toNat e = s.rl ++ [e] := by
                rw [hpos, putElement_end]
              rw [hput]
              let s' : DecodeState :=
                { buf := s.buf + (header.toNat % 16 + header.toNat / 16 + 1)
                  vcn := s64 (s.vcn + e.length)
                  lcn := lcn
                  rl := s.rl ++ [e]
                  rlpos := s.rlpos + 1 }
              have hdec : attr.length - s'.buf < k := by
                change attr.length - (s.buf + (_ + 1)) < k
                omega
              have hloop := ih (attr.length - s'.buf) hdec (s := s') hrest
                (by simpa [s'] using hnext) (by simp [s']; omega) rfl
              refine ⟨?_, hloop.2⟩
              rw [hloop.1]
              simp [s', add_assoc, add_comm 1]
    next => cases hx

end NtfsDxe
