import NtfsDxe.Compress.Decompressor
import Mathlib.Logic.Relation

/-! # Where a decompression goes

Headers, tags and tokens decide where the decompressor reads and writes next; the bytes that
it copies do not matter for that. The places that a stream leads to are followed here without
any memory, and the decompressor leaves its buffers exactly if one of these places is a
header in the last byte of the stream, a phrase token there, or a symbol token at the end of
the destination.
-/

namespace NtfsDxe

open Foundation List Relation

variable {cbuf : Buffer} {s : DecompressState} {p p' : StreamPlace}
  {destSize cb dest destSbStart destSbEnd cbSbEnd : Nat}

/-- The two bytes at `cb`. -/
def wordAt (cbuf : Buffer) (cb : Nat) : Nat :=
  (cbuf.getD cb 0).toNat + (cbuf.getD (cb + 1) 0).toNat * 256

/-- A position in the stream and one in the destination, before the header of a sub-block, a
tag of a sub-block or the `left` last tokens of a tag. -/
inductive StreamPlace where
  | header (cb dest : Nat)
  | tag (cbSbEnd destSbStart cb dest : Nat)
  | token (left tag cbSbEnd destSbStart cb dest : Nat)

namespace StreamPlace

/-- The place that follows in the stream `cbuf`, unless it ends or is corrupt there. -/
def next (destSize : Nat) (cbuf : Buffer) : StreamPlace → Option StreamPlace
  | header cb dest =>
    let word := wordAt cbuf cb
    let cbSbEnd := cb + word % 0x1000 + 3
    if cb = cbuf.length ∨ word = 0 ∨ dest = destSize then none
    else if destSize < dest + sbSize ∨ cbuf.length < cb + 6 ∨ cbuf.length < cbSbEnd then none
    else if word / 0x8000 = 0 then
      if cbSbEnd - (cb + 2) ≠ sbSize then none
      else some (header (cb + 2 + sbSize) (dest + sbSize))
    else some (tag cbSbEnd dest (cb + 2) dest)
  | tag cbSbEnd destSbStart cb dest =>
    if cb = cbSbEnd then some (header cb (max dest (destSbStart + sbSize)))
    else if cbSbEnd < cb ∨ destSbStart + sbSize < dest then none
    else some (token 8 (cbuf.getD cb 0).toNat cbSbEnd destSbStart (cb + 1) dest)
  | token 0 _ cbSbEnd destSbStart cb dest => some (tag cbSbEnd destSbStart cb dest)
  | token (left + 1) bits cbSbEnd destSbStart cb dest =>
    let shift := 12 - lgOf (dest - destSbStart - 1)
    let length := wordAt cbuf cb % 2 ^ shift + 3
    if cbSbEnd ≤ cb ∨ destSbStart + sbSize < dest then some (tag cbSbEnd destSbStart cb dest)
    else if bits % 2 = 0 then
      some (token left (bits / 2) cbSbEnd destSbStart (cb + 1) (dest + 1))
    else if dest = destSbStart ∨ dest - destSbStart < wordAt cbuf cb / 2 ^ shift + 1 ∨
        destSbStart + sbSize < dest + length then none
    else some (token left (bits / 2) cbSbEnd destSbStart (cb + 2) (dest + length))

/-- A header or a phrase token of which only one byte is left in the stream, or a symbol
token for which no byte is left in the destination. -/
def Outside (destSize cbSize : Nat) : StreamPlace → Prop
  | header cb _ => cb + 1 = cbSize
  | tag _ _ _ _ => False
  | token left bits cbSbEnd destSbStart cb dest =>
    0 < left ∧ cb < cbSbEnd ∧ dest ≤ destSbStart + sbSize ∧
      if bits % 2 = 0 then dest = destSize else dest ≠ destSbStart ∧ cb + 1 = cbSize

/-- The stream leads from one place to another. -/
def Leads (destSize : Nat) (cbuf : Buffer) : StreamPlace → StreamPlace → Prop :=
  ReflTransGen fun p p' => p.next destSize cbuf = some p'

def Leaves (destSize : Nat) (cbuf : Buffer) (p : StreamPlace) : Prop :=
  ∃ p', Leads destSize cbuf p p' ∧ p'.Outside destSize cbuf.length

lemma Leaves.of_next (hnext : p.next destSize cbuf = some p') (h : p'.Leaves destSize cbuf) :
    p.Leaves destSize cbuf := by
  obtain ⟨q, hleads, houtside⟩ := h
  exact ⟨q, .head hnext hleads, houtside⟩

lemma leaves_iff_of_next (hinside : ¬ p.Outside destSize cbuf.length)
    (hnext : p.next destSize cbuf = some p') :
    p.Leaves destSize cbuf ↔ p'.Leaves destSize cbuf := by
  refine ⟨fun h => ?_, .of_next hnext⟩
  obtain ⟨q, hleads, houtside⟩ := h
  rcases hleads.cases_head with rfl | ⟨p'', hnext', hrest⟩
  · exact absurd houtside hinside
  · rw [hnext, Option.some.injEq] at hnext'
    subst hnext'
    exact ⟨q, hrest, houtside⟩

lemma not_leaves_of_next (hinside : ¬ p.Outside destSize cbuf.length)
    (hnext : p.next destSize cbuf = none) : ¬ p.Leaves destSize cbuf := by
  rintro ⟨q, hleads, houtside⟩
  rcases hleads.cases_head with rfl | ⟨p'', hnext', _⟩
  · exact hinside houtside
  · rw [hnext] at hnext'
    cases hnext'

end StreamPlace

open StreamPlace (leaves_iff_of_next not_leaves_of_next)

/-! ## Reading and copying -/

lemma le16_inside (hcb : cb + 1 < cbuf.length) : le16 cbuf cb = .ok (wordAt cbuf cb) := by
  rw [le16, load_inside (by omega), load_inside hcb]
  rfl

lemma le16_outside (hcb : cb + 1 = cbuf.length) : le16 cbuf cb = .error .outOfBounds := by
  have hnone : cbuf[cb + 1]? = none := getElem?_eq_none (by omega)
  rw [le16, load_inside (by omega), load, hnone]
  rfl

lemma copyBytes_inside (buf : Buffer) (dst src n : Nat) (hdst : dst + n ≤ buf.length)
    (hsrc : src + n ≤ buf.length) :
    ∃ buf', copyBytes buf dst src n = .ok buf' ∧ buf'.length = buf.length := by
  induction n generalizing buf dst src with
  | zero => exact ⟨buf, rfl, rfl⟩
  | succ n ih =>
    obtain ⟨buf', hcopy, hlength⟩ := ih (buf.set dst (buf.getD src 0)) (dst + 1) (src + 1)
      (by rw [length_set]; omega) (by rw [length_set]; omega)
    refine ⟨buf', ?_, by rw [hlength, length_set]⟩
    rw [copyBytes, load_inside (by omega)]
    dsimp only
    rw [store_ok _ (by omega)]
    exact hcopy

/-- A phrase token that is read whole either is corrupt or is copied. -/
lemma phraseToken_cases (hcb : s.cb + 1 < cbuf.length) (hroom : destSbEnd ≤ s.buf.length)
    (hfirst : s.dest ≠ destSbStart) (hshift : 12 - lgOf (s.dest - destSbStart - 1) = shift)
    (hword : wordAt cbuf s.cb = word) :
    if s.dest - destSbStart < word / 2 ^ shift + 1 ∨ destSbEnd < s.dest + (word % 2 ^ shift + 3)
    then phraseToken cbuf destSbStart destSbEnd s = .error (.errno .eoverflow)
    else ∃ buf, buf.length = s.buf.length ∧ phraseToken cbuf destSbStart destSbEnd s =
      .ok { cb := s.cb + 2, dest := s.dest + (word % 2 ^ shift + 3), buf := buf } := by
  obtain ⟨back, hback⟩ : ∃ back, word / 2 ^ shift + 1 = back := ⟨_, rfl⟩
  obtain ⟨length, hlength⟩ : ∃ length, word % 2 ^ shift + 3 = length := ⟨_, rfl⟩
  have hle16 : le16 cbuf s.cb = .ok word := hword ▸ le16_inside hcb
  have hpos : 1 ≤ back := hback ▸ Nat.succ_pos _
  rw [hback, hlength]
  by_cases hfar : s.dest - destSbStart < back
  · rw [if_pos (.inl hfar)]
    simp [phraseToken, hfirst, hle16, hshift, hback, hfar, throw, throwThe, MonadExceptOf.throw,
      bind, Except.bind]
  by_cases hlong : destSbEnd < s.dest + length
  · rw [if_pos (.inr hlong)]
    simp [phraseToken, hfirst, hle16, hshift, hback, hlength, hfar, hlong, throw, throwThe,
      MonadExceptOf.throw, bind, Except.bind]
  rw [if_neg (by omega)]
  by_cases hoverlap : length ≤ back
  · obtain ⟨buf, hcopy, hsame⟩ := copyBytes_inside s.buf s.dest (s.dest - back) length
      (by omega) (by omega)
    refine ⟨buf, hsame, ?_⟩
    simp [phraseToken, hfirst, hle16, hshift, hback, hlength, hfar, hlong, hoverlap, hcopy,
      bind, Except.bind, pure, Except.pure]
  · -- The second copy goes on where the first one ended.
    obtain ⟨buf, hcopy, hsame⟩ := copyBytes_inside s.buf s.dest (s.dest - back) back
      (by omega) (by omega)
    obtain ⟨buf', hcopy', hsame'⟩ := copyBytes_inside buf (s.dest + back)
      (s.dest - back + back) (length - back) (by omega) (by omega)
    refine ⟨buf', hsame'.trans hsame, ?_⟩
    simp [phraseToken, hfirst, hle16, hshift, hback, hlength, hfar, hlong, hoverlap, hcopy,
      hcopy', bind, Except.bind, pure, Except.pure]

/-! ## The decompressor follows the places -/

/-- A step from the place `p` fails outside the buffers exactly if the stream leads outside
from there; if it ends, it does so at the place `ends`, and it does not matter from which of
the two the stream is followed. -/
def FollowsPlace (destSize : Nat) (cbuf : Buffer) (p : StreamPlace)
    (ends : DecompressState → StreamPlace) : Except Failure DecompressState → Prop
  | .error .outOfBounds => p.Leaves destSize cbuf
  | .error (.errno _) => ¬ p.Leaves destSize cbuf
  | .ok s => s.buf.length = destSize ∧
      (p.Leaves destSize cbuf ↔ (ends s).Leaves destSize cbuf)

lemma FollowsPlace.of_next (hinside : ¬ p.Outside destSize cbuf.length)
    (hnext : p.next destSize cbuf = some p') (h : FollowsPlace destSize cbuf p' ends r) :
    FollowsPlace destSize cbuf p ends r := by
  have hiff := leaves_iff_of_next hinside hnext
  cases r with
  | error failure =>
    cases failure with
    | outOfBounds => exact hiff.mpr h
    | errno code => exact fun hleaves => h (hiff.mp hleaves)
  | ok s => exact ⟨h.1, hiff.trans h.2⟩

section

variable (hcb : cbSbEnd ≤ cbuf.length) (hdest : destSbStart + sbSize ≤ destSize)
include hcb hdest

lemma tokenLoop_follows (hbuf : s.buf.length = destSize) :
    FollowsPlace destSize cbuf (.token tokens tag cbSbEnd destSbStart s.cb s.dest)
      (fun s => .tag cbSbEnd destSbStart s.cb s.dest)
      (tokenLoop cbuf cbSbEnd destSbStart (destSbStart + sbSize) tokens tag s) := by
  induction tokens generalizing tag s with
  | zero => exact .of_next (fun h => absurd h.1 (Nat.lt_irrefl 0)) rfl ⟨hbuf, Iff.rfl⟩
  | succ tokens ih =>
    rw [tokenLoop]
    by_cases hdone : cbSbEnd ≤ s.cb ∨ destSbStart + sbSize < s.dest
    · rw [if_pos hdone]
      refine .of_next (fun h => ?_) (if_pos hdone) ⟨hbuf, Iff.rfl⟩
      have hbounds := And.intro h.2.1 h.2.2.1
      omega
    rw [if_neg hdone]
    have hnext : (StreamPlace.token (tokens + 1) tag cbSbEnd destSbStart s.cb s.dest).next destSize
        cbuf = _ := if_neg hdone
    have hin : s.cb < cbSbEnd ∧ s.dest ≤ destSbStart + sbSize := by omega
    by_cases hsymbol : tag % 2 = 0
    · simp only [if_pos hsymbol] at hnext ⊢
      rw [symbolToken, load_inside (by omega)]
      by_cases hfull : s.dest = destSize
      · -- The last sub-block is complete, and the symbol is stored behind it.
        have hstore : store s.buf s.dest (cbuf.getD s.cb 0) = .error .outOfBounds :=
          if_neg (by omega)
        simp only [bind, Except.bind, hstore]
        exact ⟨_, .refl, Nat.succ_pos _, hin.1, hin.2, by rw [if_pos hsymbol]; exact hfull⟩
      · simp only [bind, Except.bind, store_ok _ (show s.dest < s.buf.length by omega)]
        refine .of_next (fun h => ?_) hnext (ih (by rw [length_set]; exact hbuf))
        have hlast := h.2.2.2
        rw [if_pos hsymbol] at hlast
        exact hfull hlast
    · simp only [if_neg hsymbol] at hnext ⊢
      by_cases hfirst : s.dest = destSbStart
      · have hcorrupt : phraseToken cbuf destSbStart (destSbStart + sbSize) s =
            .error (.errno .eoverflow) := by
          simp [phraseToken, hfirst, throw, throwThe, MonadExceptOf.throw, bind, Except.bind]
        rw [hcorrupt]
        refine not_leaves_of_next (fun h => ?_) (hnext.trans (if_pos (.inl hfirst)))
        have hlast := h.2.2.2
        rw [if_neg hsymbol] at hlast
        exact hlast.1 hfirst
      by_cases hsplit : s.cb + 1 = cbuf.length
      · have houtside : phraseToken cbuf destSbStart (destSbStart + sbSize) s =
            .error .outOfBounds := by
          simp [phraseToken, hfirst, le16_outside hsplit, bind, Except.bind]
        rw [houtside]
        exact ⟨_, .refl, Nat.succ_pos _, hin.1, hin.2, by
          rw [if_neg hsymbol]; exact ⟨hfirst, hsplit⟩⟩
      · have hphrase := phraseToken_cases (s := s) (by omega : s.cb + 1 < cbuf.length)
          (hbuf ▸ hdest) hfirst rfl rfl
        have hinside :
            ¬ (StreamPlace.token (tokens + 1) tag cbSbEnd destSbStart s.cb s.dest).Outside
              destSize cbuf.length := by
          intro h
          have hlast := h.2.2.2
          rw [if_neg hsymbol] at hlast
          exact hsplit hlast.2
        split_ifs at hphrase with hcorrupt
        · rw [hphrase]
          exact not_leaves_of_next hinside (hnext.trans (if_pos (.inr hcorrupt)))
        · obtain ⟨buf, hlength, hok⟩ := hphrase
          rw [hok]
          exact .of_next hinside (hnext.trans (if_neg (not_or.mpr ⟨hfirst, hcorrupt⟩)))
            (ih (hlength.trans hbuf))

lemma tagLoop_follows (hbuf : s.buf.length = destSize) :
    FollowsPlace destSize cbuf (.tag cbSbEnd destSbStart s.cb s.dest) (fun s => .header s.cb s.dest)
      (tagLoop cbuf cbSbEnd destSbStart (destSbStart + sbSize) s) := by
  induction hk : cbSbEnd - s.cb using Nat.strongRecOn generalizing s with
  | ind k ih =>
    have hinside :
        ¬ (StreamPlace.tag cbSbEnd destSbStart s.cb s.dest).Outside destSize cbuf.length := id
    rw [tagLoop]
    by_cases hend : s.cb = cbSbEnd
    · have hnext : (StreamPlace.tag cbSbEnd destSbStart s.cb s.dest).next destSize cbuf = some _ :=
        if_pos hend
      rw [if_pos hend]
      refine .of_next hinside hnext ?_
      split_ifs with hshort
      · rw [storeBytes, if_pos (by rw [length_replicate]; omega), max_eq_right (by omega)]
        refine ⟨?_, Iff.rfl⟩
        simp only [splice, length_append, length_take, length_drop, length_replicate]
        omega
      · rw [max_eq_left (by omega)]
        exact ⟨hbuf, Iff.rfl⟩
    have hnext : (StreamPlace.tag cbSbEnd destSbStart s.cb s.dest).next destSize cbuf = _ :=
      if_neg hend
    rw [if_neg hend]
    by_cases hover : cbSbEnd < s.cb ∨ destSbStart + sbSize < s.dest
    · rw [if_pos hover]
      exact not_leaves_of_next hinside (hnext.trans (if_pos hover))
    rw [if_neg hover, load_inside (by omega)]
    refine .of_next hinside (hnext.trans (if_neg hover)) ?_
    have htokens : FollowsPlace destSize cbuf
        (.token 8 (cbuf.getD s.cb 0).toNat cbSbEnd destSbStart (s.cb + 1) s.dest)
        (fun s => .tag cbSbEnd destSbStart s.cb s.dest)
        (tokenLoop cbuf cbSbEnd destSbStart (destSbStart + sbSize) 8 (cbuf.getD s.cb 0).toNat
          { s with cb := s.cb + 1 }) :=
      tokenLoop_follows (s := { s with cb := s.cb + 1 }) hcb hdest hbuf
    dsimp only
    split
    next failure herror =>
      rw [herror] at htokens
      cases failure with
      | outOfBounds => exact htokens
      | errno code => exact htokens
    next s' hok =>
      have hle := tokenLoop_cb_le hok
      rw [hok] at htokens
      dsimp only at hle
      have hrest := ih (cbSbEnd - s'.cb) (by omega) htokens.1 rfl
      revert hrest
      cases tagLoop cbuf cbSbEnd destSbStart (destSbStart + sbSize) s' with
      | error failure =>
        cases failure with
        | outOfBounds => exact htokens.2.mpr
        | errno code => exact fun hrest hleaves => hrest (htokens.2.mp hleaves)
      | ok s'' => exact fun hrest => ⟨hrest.1, htokens.2.trans hrest.2⟩

end

/-- The decompressor leaves its buffers exactly if the stream leads outside. -/
lemma sbLoop_outside_iff (hcb : s.cb ≤ cbuf.length) (hbuf : s.buf.length = destSize) :
    sbLoop destSize cbuf.length cbuf s = .error .outOfBounds ↔
      (StreamPlace.header s.cb s.dest).Leaves destSize cbuf := by
  induction hk : cbuf.length - s.cb using Nat.strongRecOn generalizing s with
  | ind k ih =>
    rw [sbLoop]
    by_cases hend : s.cb = cbuf.length
    · rw [if_pos hend]
      refine iff_of_false (fun h => by cases h) (not_leaves_of_next (fun h => ?_)
        (if_pos (.inl hend)))
      change s.cb + 1 = cbuf.length at h
      omega
    rw [if_neg hend]
    by_cases hsplit : s.cb + 1 = cbuf.length
    · rw [le16_outside hsplit]
      exact iff_of_true rfl ⟨_, .refl, hsplit⟩
    rw [le16_inside (by omega)]
    have hinside : ¬ (StreamPlace.header s.cb s.dest).Outside destSize cbuf.length := hsplit
    dsimp only
    by_cases hdone : wordAt cbuf s.cb = 0 ∨ s.dest = destSize
    · rw [if_pos hdone]
      exact iff_of_false (fun h => by cases h)
        (not_leaves_of_next hinside (if_pos (.inr hdone)))
    have hnext : (StreamPlace.header s.cb s.dest).next destSize cbuf = _ :=
      if_neg (not_or.mpr ⟨hend, hdone⟩)
    rw [if_neg hdone]
    by_cases hover : destSize < s.dest + sbSize ∨ cbuf.length < s.cb + 6 ∨
        cbuf.length < s.cb + wordAt cbuf s.cb % 0x1000 + 3
    · rw [if_pos hover]
      exact iff_of_false (fun h => by cases h)
        (not_leaves_of_next hinside (hnext.trans (if_pos hover)))
    rw [if_neg hover] at hnext ⊢
    by_cases hraw : wordAt cbuf s.cb / 0x8000 = 0
    · rw [if_pos hraw] at hnext ⊢
      by_cases hsize : s.cb + wordAt cbuf s.cb % 0x1000 + 3 - (s.cb + 2) ≠ sbSize
      · rw [if_pos hsize] at hnext ⊢
        exact iff_of_false (fun h => by cases h) (not_leaves_of_next hinside hnext)
      · rw [if_neg hsize] at hnext ⊢
        have hlen : ((cbuf.drop (s.cb + 2)).take sbSize).length = sbSize := by
          rw [length_take, length_drop]
          omega
        rw [loadBytes, if_pos (by omega), Except.bind, storeBytes, if_pos (by omega)]
        rw [leaves_iff_of_next hinside hnext]
        refine ih (cbuf.length - (s.cb + 2 + sbSize)) (by omega) (by dsimp only; omega) ?_ rfl
        simp only [splice, length_append, length_take, length_drop, hlen]
        omega
    · rw [if_neg hraw] at hnext ⊢
      rw [leaves_iff_of_next hinside hnext]
      have htags := @tagLoop_follows cbuf { s with cb := s.cb + 2 } destSize s.dest
        (s.cb + wordAt cbuf s.cb % 0x1000 + 3) (by omega) (by omega) hbuf
      dsimp only at htags ⊢
      split
      next failure herror =>
        rw [herror] at htags
        cases failure with
        | outOfBounds => exact iff_of_true rfl htags
        | errno code => exact iff_of_false (fun h => by cases h) htags
      next s' hok =>
        have hcb' := tagLoop_cb hok
        rw [hok] at htags
        rw [htags.2]
        exact ih (cbuf.length - s'.cb) (by omega) (by omega) htags.1 rfl

end NtfsDxe
