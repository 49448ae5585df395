import NtfsDxe.Mft.NewRecord
import Mathlib.Data.Finset.Card
import Mathlib.Data.List.GetD

/-! # What allocating an mft record leaves behind

A record that is allocated was free, and its bit is the only one that changes, but for the
bits of records that are in use: these are set when they are come across. If the allocation
fails, other bits have changed only if something could not be undone.
-/

namespace NtfsDxe

open Foundation Prog LittleEndian List MftState

variable {env : MftEnv} {base : Option ExtentBase} {s s' s'' : MftState}

/-! ## Requests -/

def MftState.tick (s : MftState) : MftState := { s with clock := s.clock + 1 }

@[simp] lemma MftState.tick_bits : s.tick.bits = s.bits := rfl
@[simp] lemma MftState.tick_records : s.tick.records = s.records := rfl

@[simp] lemma wp_mftRequest :
    wp (mftRequest env r) Q E s ↔ (env.fails r s.clock = true → E (.errno r.error) s.tick) ∧
      (env.fails r s.clock = false → Q () s.tick) := by
  simp only [mftRequest, wp_bind, wp_reads]
  cases env.fails r s.clock <;> simp [tick]

/-- A failure, which is not the want of steps if there are `enough`. -/
def Fails (enough : Prop) (P : MftState → Prop) (e : MftError) (s : MftState) : Prop :=
  (enough → e ≠ .fuel) ∧ P s

section

lemma Fails.errno (h : P s) : Fails enough P (.errno code) s :=
  ⟨fun _ heq => (by cases heq), h⟩

lemma Fails.imp (h : Fails enough P e s) (himp : enough' → enough)
    (hP : P s → P' s) : Fails enough' P' e s :=
  ⟨fun he => h.1 (himp he), hP h.2⟩

end

/-! ## What stays -/

/-- The bitmap and the records are the same. -/
structure MftKept (s s' : MftState) : Prop where
  bits : s'.bits = s.bits
  records : s'.records = s.records
  allocated : s.allocated ≤ s'.allocated
  attrList : s.hasAttrList = true → s'.hasAttrList = true
  stale : s'.stale = s.stale

variable {bits : List Bool} {pos bit passEnd count fuel j : Nat}

lemma MftKept.refl (s : MftState) : MftKept s s := ⟨rfl, rfl, le_rfl, id, rfl⟩

lemma MftKept.tick (s : MftState) : MftKept s s.tick := { MftKept.refl s with }

lemma MftKept.trans (h : MftKept s s') (h' : MftKept s' s'') : MftKept s s'' where
  bits := h'.bits.trans h.bits
  records := h'.records.trans h.records
  allocated := h.allocated.trans h'.allocated
  attrList := h'.attrList ∘ h.attrList
  stale := h'.stale.trans h.stale

lemma MftKept.then_tick (h : MftKept s s') : MftKept s s'.tick := h.trans (.tick s')

/-- A record that can be allocated. -/
structure FreeRecord (env : MftEnv) (m : Buffer) : Prop where
  length_eq : m.length = env.recordSize
  usa_le : usaOfs m + 2 ≤ m.length
  free : ¬ (recordMagic m = magicFile ∧ mftRecordInUse (recordFlags m) = true)

abbrev InUseRecord (m : Buffer) : Prop :=
  recordMagic m = magicFile ∧ mftRecordInUse (recordFlags m) = true

/-- A bit has not changed, or it is the one of a record that was in use, and is set. -/
def BitKept (s s' : MftState) (j : Nat) : Prop :=
  s'.bits.getD j false = s.bits.getD j false ∨
    s'.bits.getD j false = true ∧ ∃ m, s.records[j]? = some m ∧ InUseRecord m

lemma BitKept.clear (h : BitKept s s' j) (hclear : s'.bits.getD j false = false) :
    s.bits.getD j false = false := by
  rcases h with heq | ⟨hset, -⟩
  · exact heq ▸ hclear
  · rw [hclear] at hset
    cases hset

lemma BitKept.congr (h : BitKept s s' j) (heq : s''.bits.getD j false = s'.bits.getD j false) :
    BitKept s s'' j := by
  rwa [BitKept, heq]

/-- The bits have not changed but for those of records in use, and the records are the same but
for free ones at the end. -/
structure MftGrown (env : MftEnv) (s s' : MftState) : Prop where
  bits : ∀ j, BitKept s s' j
  length : s.bits.length ≤ s'.bits.length
  records : ∃ new, s'.records = s.records ++ new ∧ ∀ m ∈ new, FreeRecord env m
  stale : s'.stale = s.stale

lemma MftKept.grown (h : MftKept s s') : MftGrown env s s' where
  bits := fun j => .inl (by rw [h.bits])
  length := by rw [h.bits]
  records := ⟨[], by rw [h.records, append_nil], fun _ hm => by cases hm⟩
  stale := h.stale

/-- The records that have been added are not in use. -/
lemma BitKept.trans (h : BitKept s s' j) (hnew : s'.records = s.records ++ new)
    (hfree : ∀ m ∈ new, FreeRecord env m) (h' : BitKept s' s'' j) : BitKept s s'' j := by
  rcases h' with heq | ⟨hset, m, hm, huse⟩
  · rcases h with heq' | ⟨hset, hm⟩
    · exact .inl (heq.trans heq')
    · exact .inr ⟨heq.trans hset, hm⟩
  · refine .inr ⟨hset, m, ?_, huse⟩
    rw [hnew] at hm
    by_cases hj : j < s.records.length
    · rwa [getElem?_append_left hj] at hm
    · rw [getElem?_append_right (le_of_not_gt hj)] at hm
      exact absurd huse (hfree m (mem_of_getElem? hm)).free

lemma MftGrown.trans (h : MftGrown env s s') (h' : MftGrown env s' s'') : MftGrown env s s'' := by
  obtain ⟨new, hnew, hfree⟩ := h.records
  obtain ⟨new', hnew', hfree'⟩ := h'.records
  refine ⟨fun j => (h.bits j).trans hnew hfree (h'.bits j), h.length.trans h'.length,
    ⟨new ++ new', by rw [hnew', hnew, append_assoc], fun m hm => ?_⟩, h'.stale.trans h.stale⟩
  rcases mem_append.mp hm with hm | hm
  · exact hfree m hm
  · exact hfree' m hm

/-- After a failure the bits have not changed but for those of records in use, and for those
that could not be cleared again. -/
structure MftFailed (s s' : MftState) : Prop where
  kept : ∀ j, j ∉ s'.stale → BitKept s s' j
  stale : ∀ j ∈ s'.stale, j ∈ s.stale ∨ s.bits.getD j false = false ∧ s'.bits.getD j false = true

lemma MftGrown.failed (h : MftGrown env s s') : MftFailed s s' :=
  ⟨fun j _ => h.bits j, fun _ hj => .inl (h.stale ▸ hj)⟩

lemma MftKept.failed (h : MftKept s s') : MftFailed s s' :=
  ⟨fun j _ => .inl (by rw [h.bits]), fun _ hj => .inl (h.stale ▸ hj)⟩

/-- A failure after the records in use that were come across have been marked. -/
lemma MftGrown.then_failed (h : MftGrown env s s') (h' : MftFailed s' s'') : MftFailed s s'' := by
  obtain ⟨new, hnew, hfree⟩ := h.records
  refine ⟨fun j hj => (h.bits j).trans hnew hfree (h'.kept j hj), fun j hj => ?_⟩
  rcases h'.stale j hj with hold | ⟨hclear, hset⟩
  · exact .inl (h.stale ▸ hold)
  · exact .inr ⟨(h.bits j).clear hclear, hset⟩

/-- All bits are kept just if those that could not be cleared are the ones of records in use. -/
lemma MftFailed.kept_iff (h : MftFailed s s') (hstale : s.stale = []) :
    (∀ j, BitKept s s' j) ↔ ∀ j ∈ s'.stale, ∃ m, s.records[j]? = some m ∧ InUseRecord m := by
  have hset : ∀ j ∈ s'.stale, s.bits.getD j false = false ∧ s'.bits.getD j false = true := by
    intro j hj
    rcases h.stale j hj with hold | hset
    · rw [hstale] at hold
      cases hold
    · exact hset
  refine ⟨fun hkept j hj => ?_, fun huse j => ?_⟩
  · rcases hkept j with heq | ⟨-, hm⟩
    · rw [(hset j hj).1, (hset j hj).2] at heq
      cases heq
    · exact hm
  · by_cases hj : j ∈ s'.stale
    · exact .inr ⟨(hset j hj).2, huse j hj⟩
    · exact h.kept j hj

/-! ## The search -/

lemma firstZero_some {base b : Nat} (h : firstZero bits base = some b) :
    b < 8 ∧ bits.getD (base + b) true = false :=
  ⟨mem_range.mp (mem_of_find?_eq_some h), of_decide_eq_true (@List.find?_some _ _ b _ h)⟩

lemma firstZero_none {base b : Nat} (h : firstZero bits base = none) (hb : b < 8) :
    bits.getD (base + b) true = true := by
  simpa using find?_eq_none.mp h b (mem_range.mpr hb)

lemma firstZero_before {base b i : Nat} (h : firstZero bits base = some b) (hi : i < b) :
    bits.getD (base + i) true = true := by
  obtain ⟨-, n, hn, hat, hbefore⟩ := find?_eq_some_iff_getElem.mp h
  rw [length_range] at hn
  rw [getElem_range] at hat
  have hfirst := hbefore i (by omega)
  rw [getElem_range] at hfirst
  simpa using hfirst

/-- A bit at which a search from `pos` on does not stop: it is set, or a bit of its byte before
`pos` is clear. Only the first clear bit of a byte is looked at. -/
def Passed (bits : List Bool) (pos j : Nat) : Prop :=
  bits.getD j true = true ∨ ∃ z, j / 8 * 8 ≤ z ∧ z < pos ∧ bits.getD z true = false

lemma Passed.mono (h : Passed bits pos j) (hle : pos ≤ pos') : Passed bits pos' j :=
  h.imp_right fun ⟨z, hz, hlt, hclear⟩ => ⟨z, hz, hlt.trans_le hle, hclear⟩

lemma Passed.of_aligned (h : Passed bits pos j) (haligned : pos % 8 = 0) (hle : pos ≤ j) :
    bits.getD j true = true := by
  rcases h with hset | ⟨z, hz, hlt, -⟩
  · exact hset
  · omega

lemma clear_of_not_passed (h : ¬Passed bits pos j) : bits.getD j true = false :=
  Bool.eq_false_of_not_eq_true fun hset => h (.inl hset)

/-- The outcome of a search from `pos` up to `stop`, whose last byte is searched as a whole. -/
structure SearchResult (bits : List Bool) (pos stop : Nat) (found : Option Nat) : Prop where
  stops : ∀ bit, found = some bit → ¬Passed bits pos bit ∧ pos ≤ bit ∧ bit < (stop + 7) / 8 * 8
  passed : ∀ j, pos ≤ j → (∀ bit, found = some bit → j < bit) → j < (stop + 7) / 8 * 8 →
    Passed bits pos j

lemma SearchResult.empty (hle : (stop + 7) / 8 * 8 ≤ pos) : SearchResult bits pos stop none :=
  ⟨fun _ h => (by cases h), fun j => by omega⟩

lemma SearchResult.extend (h : SearchResult bits pos stop (some bit)) (hle : stop ≤ stop') :
    SearchResult bits pos stop' (some bit) := by
  refine ⟨fun b hb => ?_, fun j hj hbefore _ => ?_⟩
  · obtain ⟨hclear, hpos, hlt⟩ := h.stops b hb
    exact ⟨hclear, hpos, by omega⟩
  · have hlt := (h.stops bit rfl).2.2
    have hj' := hbefore bit rfl
    exact h.passed j hj hbefore (by omega)

lemma SearchResult.trans (h : SearchResult bits pos mid none) (hmid : mid % 8 = 0)
    (hle : pos ≤ mid) (h' : SearchResult bits mid stop r) : SearchResult bits pos stop r := by
  refine ⟨fun bit hbit => ?_, fun j hj hbefore hlt => ?_⟩
  · obtain ⟨hstop, hle', hlt⟩ := h'.stops bit hbit
    exact ⟨fun hpassed => hstop (hpassed.mono hle), hle.trans hle', hlt⟩
  · by_cases hfirst : j < mid
    · exact h.passed j hj (fun _ hb => by cases hb) (by omega)
    · exact .inl ((h'.passed j (le_of_not_gt hfirst) hbefore hlt).of_aligned hmid (by omega))

lemma scanByte_spec : SearchResult bits pos (pos / 8 * 8 + 8) (scanByte bits pos) := by
  rw [scanByte]
  split
  · next b hzero =>
      obtain ⟨hb, hclear⟩ := firstZero_some hzero
      have hbefore : ∀ j, pos / 8 * 8 ≤ j → j < pos / 8 * 8 + b → bits.getD j true = true := by
        intro j hj hlt
        obtain ⟨i, rfl⟩ := Nat.exists_eq_add_of_le hj
        exact firstZero_before hzero (by omega)
      split
      · refine ⟨fun bit hbit => ?_, fun j hj hfirst _ => .inl (hbefore j (by omega) (hfirst _ rfl))⟩
        cases hbit
        refine ⟨?_, by omega, by omega⟩
        rintro (hset | ⟨z, hz, hlt, hzclear⟩)
        · rw [hclear] at hset
          cases hset
        · rw [hbefore z (by omega) (by omega)] at hzclear
          cases hzclear
      · exact ⟨fun _ h => (by cases h),
          fun j _ _ _ => .inr ⟨pos / 8 * 8 + b, by omega, by omega, hclear⟩⟩
  · next hnone =>
      refine ⟨fun _ h => (by cases h), fun j hj _ hlt => .inl ?_⟩
      obtain ⟨b, rfl⟩ := Nat.exists_eq_add_of_le (by omega : pos / 8 * 8 ≤ j)
      exact firstZero_none hnone (by omega)

lemma scanBytes_spec (hpos : pos < passEnd ∨ pos % 8 = 0) :
    SearchResult bits pos (min passEnd (pos / 8 * 8 + n * 8)) (scanBytes bits passEnd n pos) := by
  induction n generalizing pos with
  | zero => exact .empty (by omega)
  | succ n ih =>
    have hbyte := @scanByte_spec bits pos
    rw [scanBytes]
    split
    · exact .empty (by omega)
    cases hfound : scanByte bits pos with
    | some bit =>
      rw [hfound] at hbyte
      obtain ⟨hstop, hle, hlt⟩ := hbyte.stops bit rfl
      refine ⟨fun b hb => ?_, fun j hj hfirst _ => ?_⟩
      · cases hb
        exact ⟨hstop, hle, by omega⟩
      · have hj' := hfirst bit rfl
        exact hbyte.passed j hj hfirst (by omega)
    | none =>
      rw [hfound] at hbyte
      have hnext : (pos / 8 * 8 + 8) / 8 * 8 + n * 8 = pos / 8 * 8 + (n + 1) * 8 := by omega
      exact hbyte.trans (by omega) (by omega) (hnext ▸ ih (.inr (by omega)))

def MftSearched (s : MftState) (pos stop : Nat) (found : Option Nat) (s' : MftState) : Prop :=
  MftKept s s' ∧ SearchResult s.bits pos stop found

/-- The search fails only if something that is asked for fails. -/
def SearchFails (env : MftEnv) (s : MftState) (e : MftError) (s' : MftState) : Prop :=
  Fails True (MftKept s) e s' ∧ ∃ r n, env.fails r n = true

lemma SearchFails.of_request (h : env.fails r n = true) (hkept : MftKept s s') :
    SearchFails env s (.errno code) s' :=
  ⟨.errno hkept, r, n, h⟩

lemma SearchFails.trans (h : MftKept s s') (h' : SearchFails env s' e s'') :
    SearchFails env s e s'' :=
  ⟨h'.1.imp id h.trans, h'.2⟩

lemma scanPass_spec (hpages : passEnd ≤ pos + pages) (hpos : pos < passEnd ∨ pos % 8 = 0) :
    wp (scanPass env passEnd pages pos) (MftSearched s pos passEnd) (SearchFails env s) s := by
  induction pages generalizing pos s with
  | zero => exact ⟨.refl s, .empty (by omega)⟩
  | succ pages ih =>
    simp only [scanPass, wp_bind, wp_mftRequest, wp_reads, tick_bits]
    refine ⟨fun hfail => .of_request hfail (.tick s), fun _ => ?_⟩
    generalize hn : min 4096 ((passEnd + 7) / 8 - pos / 8) = n
    have hpage : SearchResult s.bits pos (min passEnd (pos / 8 * 8 + n * 8))
      (scanBytes s.bits passEnd n pos) := scanBytes_spec hpos
    cases hscan : scanBytes s.bits passEnd n pos with
    | some bit =>
      rw [hscan] at hpage
      exact ⟨.tick s, hpage.extend (by omega)⟩
    | none =>
      rw [hscan] at hpage
      dsimp only
      split
      · next hnext =>
          rw [min_eq_right hnext.le] at hpage
          exact wp_mono (ih (by omega) (.inr (by omega))) (fun _ _ h => ⟨(MftKept.tick s).trans h.1,
            hpage.trans (by omega) (by omega) h.2⟩) fun _ _ h => h.trans (.tick s)
      · next hend =>
          rw [min_eq_left (le_of_not_gt hend)] at hpage
          exact ⟨.tick s, hpage⟩

/-- The end of the records that are searched for a free one. -/
def searchEnd (env : MftEnv) (s : MftState) : Nat :=
  min (s.allocated / env.recordSize) s.bits.length

/-- Where the first pass of the search starts. -/
def searchStart (env : MftEnv) (base : Option ExtentBase) (s : MftState) : Nat :=
  let dataPos := max (base.elim s.dataPos (·.mftNo + 1)) reservedMftRecords
  if searchEnd env s ≤ dataPos then reservedMftRecords else dataPos

/-- If the first pass stops behind the end, in the byte of the last record, it has stopped before
the end already. -/
def StopsInside (env : MftEnv) (base : Option ExtentBase) (s : MftState) : Prop :=
  ∀ z, searchEnd env s ≤ z → z < (searchEnd env s + 7) / 8 * 8 →
    ¬Passed s.bits (searchStart env base s) z →
    ∃ j, searchStart env base s ≤ j ∧ j < searchEnd env s ∧
      ¬Passed s.bits (searchStart env base s) j

/-- What the search finds: a clear bit behind the reserved records. It is one before the end
exactly if the first pass stops inside. -/
structure FreeRecSearched (env : MftEnv) (base : Option ExtentBase) (s : MftState)
    (found : Option Nat) : Prop where
  clear : ∀ bit, found = some bit → s.bits.getD bit true = false ∧ reservedMftRecords ≤ bit
  used : found = none → ∀ j, reservedMftRecords ≤ j → j < searchEnd env s →
    s.bits.getD j true = true
  inside_iff : (∀ bit, found = some bit → bit < searchEnd env s) ↔ StopsInside env base s

/-- The result of the first pass, if it is that of the search. -/
lemma SearchResult.inside_iff (h : SearchResult s.bits pos (searchEnd env s) found)
    (hstart : searchStart env base s = pos) (hpos : pos ≤ searchEnd env s) :
    (∀ bit, found = some bit → bit < searchEnd env s) ↔ StopsInside env base s := by
  unfold StopsInside
  rw [hstart]
  constructor
  · intro hinside z hz hlt hstop
    cases found with
    | none => exact absurd (h.passed z (hpos.trans hz) (fun _ hb => by cases hb) hlt) hstop
    | some bit =>
      obtain ⟨hbit, hle, -⟩ := h.stops bit rfl
      exact ⟨bit, hle, hinside bit rfl, hbit⟩
  · intro hstops bit hbit
    by_contra hbehind
    obtain ⟨hstop, hle, hlt⟩ := h.stops bit hbit
    obtain ⟨j, hj, hjend, hjstop⟩ := hstops bit (le_of_not_gt hbehind) hlt hstop
    refine hjstop (h.passed j hj (fun b hb => ?_) (by omega))
    cases hbit.symm.trans hb
    omega

/-- The result of a search that consists of one pass behind the reserved records. -/
lemma SearchResult.searched_aligned
    (h : SearchResult s.bits reservedMftRecords (searchEnd env s) found)
    (hstart : searchStart env base s = reservedMftRecords)
    (hpos : reservedMftRecords ≤ searchEnd env s) : FreeRecSearched env base s found where
  clear := fun bit hbit => by
    obtain ⟨hstop, hle, -⟩ := h.stops bit hbit
    exact ⟨clear_of_not_passed hstop, hle⟩
  used := fun hnone j hj hlt => by
    subst hnone
    exact (h.passed j hj (fun _ hb => by cases hb) (by omega)).of_aligned rfl hj
  inside_iff := h.inside_iff hstart hpos

lemma mftBitmapFindFreeRec_spec :
    wp (mftBitmapFindFreeRec env base)
      (fun found s' => MftKept s s' ∧ FreeRecSearched env base s found)
      (SearchFails env s) s := by
  have hreserved : reservedMftRecords % 8 = 0 := rfl
  have hstart : searchStart env base s =
    if searchEnd env s ≤ max (base.elim s.dataPos (·.mftNo + 1)) reservedMftRecords
      then reservedMftRecords else max (base.elim s.dataPos (·.mftNo + 1)) reservedMftRecords := rfl
  have hend : min (s.allocated / env.recordSize) s.bits.length = searchEnd env s := rfl
  simp only [mftBitmapFindFreeRec, wp_bind, wp_reads, wp_ite, wp_mftRequest, id, hend]
  have hle := le_max_right (base.elim s.dataPos (·.mftNo + 1)) reservedMftRecords
  generalize max (base.elim s.dataPos (·.mftNo + 1)) reservedMftRecords = dataPos at *
  split
  · next hend =>
    rw [if_pos hend] at hstart
    split
    · next hfew =>
      refine ⟨.refl s, fun _ h => (by cases h), fun _ j => by omega, fun _ z hz hlt hstop => ?_,
        fun _ _ h => by cases h⟩
      -- Nothing is searched, and a clear bit before the reserved end hides itself.
      refine absurd ?_ hstop
      rw [hstart]
      by_cases hset : s.bits.getD z true = true
      · exact .inl hset
      · exact .inr ⟨z, by omega, by omega, Bool.eq_false_of_not_eq_true hset⟩
    · next hmany =>
      refine ⟨fun hfail => .of_request hfail (.tick s), fun _ => ?_⟩
      refine wp_mono (scanPass_spec (by omega) (.inr hreserved)) (fun found _ h => ?_)
        fun _ _ h => h.trans (.tick s)
      have hpass : SearchResult s.bits reservedMftRecords (searchEnd env s) found := h.2
      exact ⟨(MftKept.tick s).trans h.1, hpass.searched_aligned hstart (by omega)⟩
  · next hend =>
    rw [if_neg hend] at hstart
    refine ⟨fun hfail => .of_request hfail (.tick s), fun _ => ?_⟩
    refine wp_mono (scanPass_spec (by omega) (.inl (by omega))) (fun found s₁ h₁ => ?_)
      fun _ _ h => h.trans (.tick s)
    have hkept := (MftKept.tick s).trans h₁.1
    have hfirst : SearchResult s.bits dataPos (searchEnd env s) found := h₁.2
    have hinside := hfirst.inside_iff hstart (by omega)
    cases found with
    | some bit =>
      obtain ⟨hstop, hpos, -⟩ := hfirst.stops bit rfl
      refine ⟨hkept, fun b hb => ?_, fun h => (by cases h), hinside⟩
      cases hb
      exact ⟨clear_of_not_passed hstop, hle.trans hpos⟩
    | none =>
      dsimp only
      split
      · next hzero =>
        obtain rfl := le_antisymm hzero hle
        exact ⟨hkept, hfirst.searched_aligned hstart (by omega)⟩
      · refine wp_mono (scanPass_spec (by omega) (.inr hreserved)) (fun found s₂ h₂ => ?_)
          fun _ _ h => h.trans hkept
        have hsecond := hkept.bits ▸ h₂.2
        -- A bit that the first pass leaves out is before one that the second finds set.
        have hpassed : ∀ j, dataPos ≤ j → j < (searchEnd env s + 7) / 8 * 8 →
            (∀ bit, found = some bit → dataPos ≤ bit) → s.bits.getD j true = true := by
          intro j hj hlt hbehind
          rcases hfirst.passed j hj (fun _ hb => by cases hb) hlt with hset | ⟨z, hz, hz', hclear⟩
          · exact hset
          · have hlast := hsecond.passed z (by omega) (fun bit hb => by
              have := hbehind bit hb
              omega) (by omega)
            rw [hlast.of_aligned hreserved (by omega)] at hclear
            cases hclear
        refine ⟨hkept.trans h₂.1, fun bit hbit => ?_, fun hnone j hj hlt => ?_,
          fun _ => hinside.mp fun _ hb => (by cases hb), fun _ bit hbit => ?_⟩
        · obtain ⟨hstop, hpos, -⟩ := hsecond.stops bit hbit
          exact ⟨clear_of_not_passed hstop, hpos⟩
        · subst hnone
          by_cases hbefore : j < dataPos
          · exact (hsecond.passed j hj (fun _ hb => by cases hb) (by omega)).of_aligned hreserved hj
          · exact hpassed j (le_of_not_gt hbefore) (by omega) fun _ hb => by cases hb
        · by_contra hbehind
          obtain ⟨hstop, hpos, hlt⟩ := hsecond.stops bit hbit
          refine hstop (.inl (hpassed bit (by omega) (by omega) fun b hb => ?_))
          cases hbit.symm.trans hb
          omega

/-! ## Extending `$MFT` -/

lemma allocFirst_spec :
    wp (allocFirst env counts) (fun lcns s' => MftKept s s' ∧ lcns.length ∈ counts)
      (Fails True (MftKept s)) s := by
  induction counts generalizing s with
  | nil => exact .errno (.refl s)
  | cons n rest ih =>
    simp only [allocFirst, wp_bind, wp_reads, wp_modify, id]
    have htick : MftKept s s.tick := .tick s
    cases halloc : env.clusterAlloc s.used n s.clock with
    | ok lcns =>
      refine ⟨{ htick with }, ?_⟩
      rw [env.clusterAlloc_length halloc]
      exact mem_cons_self
    | error e =>
      cases e with
      | enospc =>
        dsimp only
        split
        · exact .errno htick
        · exact wp_mono ih (fun _ _ h => ⟨htick.trans h.1, mem_cons_of_mem n h.2⟩)
            fun _ _ h => h.imp id htick.trans
      | _ => exact .errno htick

lemma freeRun_spec : wp (attempt (freeRun env lcns)) (fun _ => MftKept s) (fun _ _ => False) s := by
  simp only [freeRun, wp_attempt, wp_bind, wp_mftRequest]
  exact ⟨fun _ => .tick s, fun _ => { MftKept.tick s with }⟩

lemma dropBitmapRun_spec :
    wp (attempt (dropBitmapRun env)) (fun _ => MftKept s) (fun _ _ => False) s := by
  simp only [dropBitmapRun, wp_attempt, wp_bind, wp_reads]
  cases s.bitmapRuns.getLast? with
  | none => exact .refl s
  | some run =>
    simp only [wp_bind, wp_modify, freeRun, wp_mftRequest]
    exact ⟨fun _ => { MftKept.refl s with }, fun _ => { MftKept.refl s with }⟩

lemma mftAttrExtend_spec :
    wp (mftAttrExtend env)
      (fun added s' => MftKept s s' ∧
        (added = true → s.hasAttrList = false ∧ s'.hasAttrList = true))
      (Fails True (MftKept s)) s := by
  simp only [mftAttrExtend, wp_bind, wp_reads, wp_ite, wp_mftRequest]
  split
  · exact ⟨fun _ => .errno (.tick s), fun _ => ⟨.tick s, fun h => by cases h⟩⟩
  · next hnone =>
      exact ⟨fun _ => .errno (.tick s), fun _ => ⟨{ MftKept.tick s with attrList := fun _ => rfl },
        fun _ => ⟨Bool.eq_false_of_not_eq_true hnone, rfl⟩⟩⟩

/-- Either an attribute list has been added, or `grow` has been applied. -/
def Extended (counts : List Nat) (grow : Nat → MftState → MftState) (s : MftState) :
    Bool → MftState → Prop
  | true, s' => s.hasAttrList = false ∧ s'.hasAttrList = true
  | false, s' => ∃ n s₁, s' = grow n s₁ ∧ MftKept s s₁ ∧ n ∈ counts

lemma extendAllocation_spec {attach : List Nat → MftState → MftState}
    {undo : List Nat → MftM Unit} {grow : Nat → MftState → MftState}
    (hattach : ∀ lcns s, MftKept s (attach lcns s)) (hundo : ∀ lcns s,
      wp (attempt (undo lcns)) (fun _ => MftKept s) (fun _ _ => False) s)
    (hgrow : ∀ n s, MftKept s (grow n s)) :
    wp (extendAllocation env counts attach undo grow)
      (fun again s' => MftKept s s' ∧ Extended counts grow s again s')
      (Fails True (MftKept s)) s := by
  simp only [extendAllocation, wp_bind, wp_mftRequest]
  refine ⟨fun _ => .errno (.tick s), fun _ => ?_⟩
  refine wp_mono allocFirst_spec (fun lcns s₁ h₁ => ?_)
    fun _ _ h => h.imp id (MftKept.tick s).trans
  have hkept : MftKept s s₁ := (MftKept.tick s).trans h₁.1
  rw [wp_bind, wp_attempt, wp_mftRequest]
  refine ⟨fun _ => ?_, fun _ => ?_⟩
  · rw [wp_bind]
    exact wp_mono freeRun_spec (fun _ _ h => .errno (hkept.then_tick.trans h)) fun _ _ h => h.elim
  simp only [wp_bind, wp_reads, wp_modify]
  have htime := (hkept.then_tick.trans (hattach lcns _)).then_tick
  have hfails : ∀ {e s₃}, MftKept s s₃ → wp (attempt (undo lcns))
      (fun _ s₄ => Fails True (MftKept s) (.errno e) s₄) (Fails True (MftKept s)) s₃ := fun h₃ =>
    wp_mono (hundo lcns _) (fun _ _ h => .errno (h₃.trans h)) fun _ _ h => h.elim
  cases env.extents (attach lcns s₁.tick).clock with
  | ok => exact ⟨htime.trans (hgrow _ _), _, _, rfl, htime, h₁.2⟩
  | error => exact hfails htime
  | unrecorded => exact .errno (htime.trans (hgrow _ _))
  | noRoom =>
    rw [wp_bind, wp_attempt]
    refine wp_mono mftAttrExtend_spec (fun added s₃ h₃ => ?_) fun e s₃ h₃ => ?_
    · have hkept₃ := htime.trans h₃.1
      cases added with
      | false => exact ⟨hkept₃.trans (hgrow _ _), _, _, rfl, hkept₃, h₁.2⟩
      | true =>
        obtain ⟨hnone, hadded⟩ := h₃.2 rfl
        rw [wp_bind]
        refine wp_mono (hundo lcns s₃) (fun _ s₄ h₄ => ⟨hkept₃.trans h₄, ?_, h₄.attrList hadded⟩)
          fun _ _ h => h.elim
        refine Bool.eq_false_of_not_eq_true fun hlist => ?_
        have hlist₂ := htime.attrList hlist
        exact Bool.false_ne_true (hnone.symm.trans hlist₂)
    · rw [wp_bind]
      exact wp_mono (hundo lcns s₃) (fun _ _ h => ⟨h₃.1, htime.trans (h₃.2.trans h)⟩)
        fun _ _ h => h.elim

lemma mftBitmapExtendAllocation_spec :
    wp (mftBitmapExtendAllocation env) (fun _ s' => MftKept s s') (Fails True (MftKept s)) s :=
  wp_mono (extendAllocation_spec (fun _ s => { MftKept.refl s with })
    (fun _ _ => dropBitmapRun_spec) fun _ s => { MftKept.refl s with }) (fun _ _ h => h.1)
    fun _ _ h => h

/-- The steps are enough to extend `$MFT/$DATA`: all of them add a byte at least, but for one
that adds an attribute list. -/
def Enough (env : MftEnv) (count fuel : Nat) (s : MftState) : Prop :=
  ∃ k, count * env.recordSize ≤ s.allocated + k ∧
    k + (if s.hasAttrList = true then 0 else 1) < fuel

lemma mftClusters_pos : 0 < minMftClusters env ∧ 0 < mftClusters env := by
  have hmin : 0 < minMftClusters env := lt_of_lt_of_le Nat.one_pos (le_max_left _ _)
  refine ⟨hmin, ?_⟩
  rw [mftClusters]
  split
  · exact hmin
  · exact Nat.pos_of_ne_zero (by assumption)

lemma Enough.next (h : Enough env count (fuel + 1) s) (hless : s.allocated < count * env.recordSize)
    (hpos : ∀ n ∈ counts, 0 < n) (hkept : MftKept s s') (hext : Extended counts
      (fun n s => { s with allocated := s.allocated + n * env.clusterSize }) s again s') :
    Enough env count fuel s' := by
  obtain ⟨k, hk, hlt⟩ := h
  cases again with
  | true =>
    have hallocated := hkept.allocated
    rw [if_neg (by rw [hext.1]; exact Bool.false_ne_true)] at hlt
    exact ⟨k, by omega, by rw [if_pos hext.2]; omega⟩
  | false =>
    obtain ⟨n, s₁, rfl, h₁, hn⟩ := hext
    have hadded := mul_pos (hpos n hn) env.clusterSize_pos
    have hallocated := h₁.allocated
    have hlist : (if s₁.hasAttrList = true then 0 else 1) ≤
        (if s.hasAttrList = true then 0 else 1) := by
      by_cases hs : s.hasAttrList = true
      · rw [if_pos (h₁.attrList hs)]
        exact Nat.zero_le _
      · rw [if_neg hs]
        split <;> omega
    refine ⟨k - 1, ?_, ?_⟩
    · dsimp only
      omega
    · dsimp only
      omega

lemma mftDataAllocate_spec :
    wp (mftDataAllocate env count fuel) (fun _ s' => MftKept s s')
      (Fails (Enough env count fuel s) (MftKept s)) s := by
  induction fuel generalizing s with
  | zero =>
    refine ⟨fun henough => ?_, .refl s⟩
    obtain ⟨_, -, hlt⟩ := henough
    cases hlt
  | succ fuel ih =>
    simp only [mftDataAllocate, wp_bind, wp_reads, wp_ite]
    split
    · next hless =>
        refine wp_mono (extendAllocation_spec (fun _ s => .refl s) (fun _ _ => freeRun_spec)
          fun _ s => { MftKept.refl s with allocated := Nat.le_add_right _ _ })
          (fun again s₁ h₁ => ?_) fun _ _ h => h.imp (fun _ => trivial) id
        refine wp_mono ih (fun _ _ h => h₁.1.trans h) fun _ _ h =>
          h.imp (fun henough => henough.next hless ?_ h₁.1 h₁.2) h₁.1.trans
        intro n hn
        obtain ⟨hmin, hclusters⟩ := @mftClusters_pos env
        split at hn
        · exact mem_singleton.mp hn ▸ hmin
        · rcases mem_cons.mp hn with rfl | hn
          · exact hclusters
          · exact mem_singleton.mp hn ▸ hmin
    · exact .refl s

/-! ## New records -/

/-- Records have been added. -/
structure MftAppended (env : MftEnv) (s s' : MftState) (new : List Buffer) : Prop where
  bits : s'.bits = s.bits
  records : s'.records = s.records ++ new
  free : ∀ m ∈ new, FreeRecord env m
  allocated : s'.allocated = s.allocated
  attrList : s'.hasAttrList = s.hasAttrList
  stale : s'.stale = s.stale

lemma MftAppended.grown (h : MftAppended env s s' new) : MftGrown env s s' where
  bits := fun j => .inl (by rw [h.bits])
  length := by rw [h.bits]
  records := ⟨new, h.records, h.free⟩
  stale := h.stale

lemma MftAppended.tick (h : MftAppended env s s' new) : MftAppended env s s'.tick new :=
  { h with }

lemma mftRecordLayout_free (h : RecordSizes env) (hlength : m.length = env.recordSize)
    (hn : mftRecordLayout env mref m = .ok n) : FreeRecord env n := by
  obtain ⟨hge, hle, -⟩ := h.newAttrsOffset
  obtain ⟨hdr, term, slack, hlaid, -, hflags⟩ := mftRecordLayout_spec h hlength hn
  have hheader := hlaid.header_eq
  refine ⟨hlaid.length_eq, ?_, fun hin => ?_⟩
  · rw [usaOfs, hlaid.read_eq (by omega), hlaid.usa, hlaid.length_eq]
    split <;> omega
  · rw [recordFlags, hlaid.read_eq (by omega), hflags] at hin
    exact absurd hin.2 (by decide)

lemma mftFormatRecords_spec (hsizes : RecordSizes env) :
    wp (mftFormatRecords env count) (fun _ s' => ∃ new, MftAppended env s s' new ∧
      new.length = count)
      (Fails True fun s' => ∃ new, MftAppended env s s' new) s := by
  induction count generalizing s with
  | zero =>
    exact ⟨[], ⟨rfl, (append_nil _).symm, fun _ hm => (by cases hm), rfl, rfl, rfl⟩, rfl⟩
  | succ count ih =>
    have hnone : MftAppended env s s [] :=
      ⟨rfl, (append_nil _).symm, fun _ hm => (by cases hm), rfl, rfl, rfl⟩
    simp only [mftFormatRecords, mftRecordFormat, wp_bind, wp_mftRequest, wp_reads]
    have hone : ∃ new, MftAppended env s s.tick new := ⟨[], hnone.tick⟩
    refine ⟨fun _ => .errno hone, fun _ => ?_⟩
    cases hlaid : mftRecordLayout env s.tick.records.length (replicate env.recordSize 0) with
    | error e => exact ⟨fun _ h => (by cases h), hone⟩
    | ok m =>
      have hfree := mftRecordLayout_free hsizes length_replicate hlaid
      simp only [wp_bind, wp_mftRequest, wp_modify]
      refine ⟨fun _ => .errno ⟨[], hnone.tick.tick⟩, fun _ => ?_⟩
      have hstep : ∀ s' new, MftAppended env
          { s.tick.tick with records := s.tick.tick.records ++ [m] } s' new →
          MftAppended env s s' (m :: new) := by
        intro s' new hnew
        refine { hnew with records := ?_, free := fun n hn => ?_ }
        · rw [hnew.records]
          exact append_assoc s.records [m] new
        · rcases mem_cons.mp hn with rfl | hn
          · exact hfree
          · exact hnew.free n hn
      refine wp_mono ih (fun _ s' h' => ?_) fun _ s' h' => h'.imp id fun hnew =>
        hnew.elim fun new hnew => ⟨m :: new, hstep s' new hnew⟩
      obtain ⟨new, hnew, hcount⟩ := h'
      exact ⟨m :: new, hstep s' new hnew, by rw [length_cons, hcount]⟩

/-- After a failure there are no new records. -/
lemma mftRecordInit_spec (hsizes : RecordSizes env) :
    wp (mftRecordInit env count fuel)
      (fun _ s' => MftGrown env s s' ∧ s'.bits = s.bits ∧ count ≤ s'.records.length)
      (Fails (count * env.recordSize + 1 < fuel) (MftKept s)) s := by
  simp only [mftRecordInit, wp_bind]
  refine wp_mono mftDataAllocate_spec (fun _ s₁ h₁ => ?_) fun _ _ h =>
    h.imp (fun henough => ⟨_, Nat.le_add_left _ _, ?_⟩) id
  swap
  · refine lt_of_le_of_lt (Nat.add_le_add_left ?_ _) henough
    split <;> omega
  simp only [wp_reads, wp_attempt, wp_bind]
  have hundo : ∀ s₂ new, MftAppended env s₁ s₂ new →
      MftKept s { s₂ with records := s₂.records.take s₁.records.length } := by
    intro s₂ new h₂
    refine h₁.trans ⟨h₂.bits, ?_, h₂.allocated.ge, fun hlist => ?_, h₂.stale⟩
    · rw [h₂.records, take_left]
    · exact h₂.attrList.trans hlist
  refine wp_mono (mftFormatRecords_spec hsizes) (fun _ s₂ h₂ => ?_) fun e s₂ h₂ => ?_
  · obtain ⟨new, hnew, hcount⟩ := h₂
    simp only [wp_bind, wp_mftRequest]
    refine ⟨fun _ => .errno (hundo _ new hnew.tick), fun _ =>
      ⟨fun _ => .errno (hundo _ new hnew.tick.tick), fun _ => ?_⟩⟩
    refine ⟨h₁.grown.trans hnew.tick.tick.grown, hnew.bits.trans h₁.bits, ?_⟩
    change count ≤ s₂.records.length
    rw [hnew.records, length_append]
    omega
  · obtain ⟨hfuel, new, hnew⟩ := h₂
    exact ⟨fun _ => hfuel trivial, hundo s₂ new hnew⟩

/-! ## Choosing a record -/

/-- The bitmap has a bit for each record, the bits behind the records are clear, and a record
whose bit is clear is free. -/
structure MftWellFormed (env : MftEnv) (s : MftState) : Prop where
  records_le : s.records.length ≤ s.bits.length
  behind : ∀ bit, s.records.length ≤ bit → s.bits.getD bit false = false
  free : ∀ bit m, s.records[bit]? = some m → s.bits.getD bit false = false → FreeRecord env m

/-- The bits behind the records are clear. A record whose bit is clear may be in use. -/
structure MftReadable (env : MftEnv) (s : MftState) : Prop where
  behind : ∀ bit, s.records.length ≤ bit → s.bits.getD bit false = false
  free : ∀ bit m, s.records[bit]? = some m → s.bits.getD bit false = false →
    ¬ InUseRecord m → FreeRecord env m

lemma MftWellFormed.mftReadable (h : MftWellFormed env s) : MftReadable env s :=
  ⟨h.behind, fun bit m hm hclear _ => h.free bit m hm hclear⟩

lemma MftReadable.kept (h : MftReadable env s) (hrecords : s'.records = s.records)
    (hbits : ∀ j, BitKept s s' j) : MftReadable env s' where
  behind := by
    intro bit hbit
    rw [hrecords] at hbit
    rcases hbits bit with heq | ⟨-, m, hm, -⟩
    · exact heq.trans (h.behind bit hbit)
    · rw [getElem?_eq_none hbit] at hm
      cases hm
  free := fun bit m hm hclear => h.free bit m (hrecords ▸ hm) ((hbits bit).clear hclear)

lemma getD_true_of_lt (hj : j < bits.length) (h : bits.getD j false = false) :
    bits.getD j true = false := by
  rw [getD_eq_getElem _ _ hj] at h ⊢
  exact h

lemma lt_of_getD_true (h : bits.getD j true = false) : j < bits.length := by
  by_contra hge
  rw [getD_eq_default _ _ (le_of_not_gt hge)] at h
  cases h

lemma getD_false_of_true (h : bits.getD j true = false) : bits.getD j false = false := by
  have hj := lt_of_getD_true h
  rw [getD_eq_getElem _ _ hj] at h ⊢
  exact h

/-- The bits that extend the bitmap are clear. -/
lemma getD_append_replicate : (bits ++ replicate n false).getD j false = bits.getD j false := by
  by_cases hj : j < bits.length
  · rw [getD_append _ _ _ _ hj]
  · rw [getD_append_right _ _ _ _ (le_of_not_gt hj),
      getD_eq_default bits _ (le_of_not_gt hj), getD_eq_getElem?_getD,
      getElem?_getD_replicate_default_eq]

lemma mem_setPositions {base : Nat} :
    j ∈ setPositions base bits ↔ base ≤ j ∧ bits.getD (j - base) false = true := by
  simp only [setPositions, mem_map, mem_filter, mem_range]
  constructor
  · rintro ⟨i, ⟨-, hset⟩, rfl⟩
    exact ⟨Nat.le_add_right _ _, by rwa [Nat.add_sub_cancel_left]⟩
  · rintro ⟨hle, hset⟩
    refine ⟨j - base, ⟨?_, hset⟩, Nat.add_sub_cancel' hle⟩
    by_contra hge
    rw [getD_eq_default _ _ (le_of_not_gt hge)] at hset
    cases hset

/-- The bits on the disk take the place of the zeros that could not be written. -/
lemma unwritten_failed (hbits : s'.bits = s.bits ++ unwritten)
    (hstale : s'.stale = setPositions s.bits.length unwritten ++ s.stale) : MftFailed s s' := by
  have hbehind : ∀ j, s.bits.length ≤ j →
      s'.bits.getD j false = unwritten.getD (j - s.bits.length) false ∧
      s.bits.getD j false = false := fun j hj => by
    rw [hbits, getD_append_right _ _ _ _ hj]
    exact ⟨rfl, getD_eq_default _ _ hj⟩
  refine ⟨fun j hj => .inl ?_, fun j hj => ?_⟩
  · rw [hstale, mem_append, mem_setPositions, not_or] at hj
    by_cases hlt : j < s.bits.length
    · rw [hbits, getD_append _ _ _ _ hlt]
    · obtain ⟨hnew, hold⟩ := hbehind j (le_of_not_gt hlt)
      rw [hnew, hold]
      exact Bool.eq_false_of_not_eq_true fun hset => hj.1 ⟨le_of_not_gt hlt, hset⟩
  · rw [hstale] at hj
    rcases mem_append.mp hj with hnew | hold
    · obtain ⟨hle, hset⟩ := mem_setPositions.mp hnew
      exact .inr ⟨(hbehind j hle).2, (hbehind j hle).1.trans hset⟩
    · exact .inl hold

lemma mftBitmapExtendInitialized_spec :
    wp (mftBitmapExtendInitialized env)
      (fun _ s' => MftGrown env s s' ∧ s'.records = s.records ∧
        s'.bits = s.bits ++ replicate 64 false)
      (Fails True (MftFailed s)) s := by
  simp only [mftBitmapExtendInitialized, wp_bind, wp_mftRequest, wp_reads, wp_attempt]
  have hkept : MftGrown env s s := (MftKept.refl s).grown
  refine ⟨fun _ => .errno (MftKept.tick s).failed, fun _ => ⟨fun _ => ?_, fun _ => ?_⟩⟩
  · simp only [wp_bind, wp_modify, wp_attempt, wp_mftRequest]
    exact ⟨fun _ => .errno (unwritten_failed rfl rfl), fun _ => .errno { hkept.failed with }⟩
  · refine ⟨{ hkept with
      bits := fun j => .inl getD_append_replicate, length := ?_ }, rfl, rfl⟩
    exact length_append.symm ▸ Nat.le_add_right _ _

/-- The result of choosing a record: its bit is clear. If the bitmap does not cover the reserved
records, the first bit behind it is taken. -/
structure MftChosen (env : MftEnv) (s : MftState) (bit : Nat) (s' : MftState) : Prop where
  grown : MftGrown env s s'
  records : s'.records = s.records
  clear : s'.bits.getD bit true = false
  length : s'.bits.length ≤ s.bits.length + 64
  reserved : reservedMftRecords ≤ s.bits.length → reservedMftRecords ≤ bit
  extended : s.bits.length < reservedMftRecords →
    bit = s.bits.length ∧ reservedMftRecords ≤ s'.bits.length

lemma chooseMftRecord_spec (hwf : MftReadable env s) :
    wp (chooseMftRecord env base) (MftChosen env s) (Fails True (MftFailed s)) s := by
  simp only [chooseMftRecord, wp_bind]
  refine wp_mono mftBitmapFindFreeRec_spec (fun found s₁ h₁ => ?_)
    fun _ _ h => h.1.imp id MftKept.failed
  obtain ⟨hkept, hfound⟩ := h₁
  have hlength : s₁.bits.length ≤ s.bits.length + 64 := by
    rw [hkept.bits]
    exact Nat.le_add_right _ _
  cases found with
  | some bit =>
    obtain ⟨hclear, hreserved⟩ := hfound.clear bit rfl
    refine ⟨hkept.grown, hkept.records, hkept.bits ▸ hclear, hlength, fun _ => hreserved,
      fun hfew => ?_⟩
    have hlt := lt_of_getD_true hclear
    omega
  | none =>
    simp only [wp_bind, wp_reads, wp_ite, id]
    split
    · next hbehind =>
        rw [hkept.bits, hkept.records] at hbehind
        refine ⟨hkept.grown, hkept.records, ?_, hlength, fun _ => le_max_right _ _, fun hfew => ?_⟩
        · rw [hkept.bits, hkept.records]
          exact getD_true_of_lt (max_lt hbehind.1 hbehind.2) (hwf.behind _ (le_max_left _ _))
        · exact absurd hbehind.2 (not_lt.mpr hfew.le)
    · have hrest : ∀ s₂, MftKept s s₂ → wp (do
          let bit ← reads (·.bits.length)
          mftBitmapExtendInitialized env
          pure bit) (MftChosen env s) (Fails True (MftFailed s)) s₂ := by
        intro s₂ h₂
        simp only [wp_bind, wp_reads]
        refine wp_mono mftBitmapExtendInitialized_spec (fun _ s₃ h₃ => ?_)
          fun _ _ h => h.imp id (h₂.grown : MftGrown env s s₂).then_failed
        obtain ⟨hgrown, hrecords, hbits⟩ := h₃
        have hlen : s₃.bits.length = s.bits.length + 64 := by
          rw [hbits, length_append, length_replicate, h₂.bits]
        refine ⟨h₂.grown.trans hgrown, hrecords.trans h₂.records, ?_, hlen.le, fun hle => ?_,
          fun _ => ⟨by rw [h₂.bits], ?_⟩⟩
        · rw [hbits, getD_append_right _ _ _ _ (le_refl _), Nat.sub_self]
          rfl
        · rw [h₂.bits]
          exact hle
        · rw [hlen]
          exact Nat.le_add_left _ _
      have hextend : ∀ s₂, MftKept s s₂ → wp (mftBitmapExtendAllocation env)
          (fun _ s' => MftKept s s') (Fails True (MftFailed s)) s₂ := fun s₂ h₂ =>
        wp_mono mftBitmapExtendAllocation_spec (fun _ _ h => h₂.trans h)
          fun _ _ h => h.imp id fun h => (h₂.trans h).failed
      split
      · refine wp_mono (hextend s₁ hkept) (fun again s₂ h₂ => ?_) fun _ _ h => h
        split
        · rw [wp_bind]
          refine wp_mono (hextend s₂ h₂) (fun again' s₃ h₃ => ?_) fun _ _ h => h
          split
          · exact .errno h₃.failed
          · exact hrest s₃ h₃
        · exact hrest s₂ h₂
      · simpa only [wp_bind, wp_reads] using hrest s₁ hkept

/-! ## Opening and allocating a record -/

lemma mkMref_lt (mftNo seqNo : Nat) : mkMref mftNo seqNo < 2 ^ 64 := by
  rw [mkMref]
  omega

/-- A record without attributes that is in use. An extent refers to its base. -/
def NewMftRecord (env : MftEnv) (base : Option ExtentBase) (m : Buffer) : Prop :=
  ∃ hdr term slack, LaidOut env m hdr term slack ∧ read hdr 22 2 = 1 ∧ read hdr 16 2 ≠ 0 ∧
    ∀ b ∈ base, read hdr 32 8 = mkMref b.mftNo b.sequenceNumber

lemma NewMftRecord.attach (h : NewMftRecord env none m) (hsizes : RecordSizes env) :
    NewMftRecord env (some b) (write m 32 8 (mkMref b.mftNo b.sequenceNumber)) := by
  obtain ⟨hdr, term, slack, hlaid, hflags, hseq, -⟩ := h
  have hheader : 48 ≤ hdr.length := hlaid.header_eq ▸ hsizes.newAttrsOffset.1
  refine ⟨_, term, slack, hlaid.writeHeader _ (by omega) (.inr (.inr le_rfl)), ?_, ?_, ?_⟩
  · rw [read_write_of_disjoint _ (by omega) (by omega), hflags]
  · rwa [read_write_of_disjoint _ (by omega) (by omega)]
  · intro b' hb
    cases hb
    rw [read_write_self _ (by omega)]
    exact Nat.mod_eq_of_lt (mkMref_lt _ _)

lemma readMftRecord_spec (hsizes : RecordSizes env) (hm : s.records.getD bit [] = m)
    (hfree : ¬ InUseRecord m → FreeRecord env m) :
    wp (readMftRecord env base bit)
      (fun opened s' => MftKept s s' ∧ (opened = none → InUseRecord m) ∧
        ∀ n, opened = some n → ¬ InUseRecord m ∧ NewMftRecord env base n)
      (Fails True (MftKept s)) s := by
  have hone : MftKept s s.tick := .tick s
  have htwo := hone.then_tick
  have hthree := htwo.then_tick
  simp only [readMftRecord, wp_bind, wp_mftRequest, wp_reads, tick_records, hm]
  refine ⟨fun _ => .errno hone, fun _ => ⟨fun _ => .errno htwo, fun _ => ?_⟩⟩
  split
  · next huse => exact ⟨htwo, fun _ => huse, fun _ h => by cases h⟩
  next hnot =>
  rw [readAt, if_pos (hfree hnot).usa_le]
  dsimp only
  cases hformat : reformatted env bit m (LittleEndian.read m (usaOfs m) 2) with
  | error e => exact .errno htwo
  | ok n =>
    have hnew : NewMftRecord env none n := by
      obtain ⟨hdr, term, slack, hlaid, hflags, hseq⟩ :=
        reformatted_spec hsizes (hfree hnot).length_eq hformat
      refine ⟨hdr, term, slack, hlaid, hflags, ?_, fun b hb => by cases hb⟩
      rw [hseq]
      split
      · exact Nat.one_ne_zero
      · assumption
    rw [wp_bind, wp_mftRequest]
    refine ⟨fun _ => .errno hthree, fun _ => ?_⟩
    cases base with
    | none =>
      refine ⟨hthree, fun h => (by cases h), fun n' h => ?_⟩
      cases h
      exact ⟨hnot, hnew⟩
    | some b =>
      have hdone : ∀ n', some (write n 32 8 (mkMref b.mftNo b.sequenceNumber)) = some n' →
          ¬ InUseRecord m ∧ NewMftRecord env (some b) n' := by
        intro n' h
        cases h
        exact ⟨hnot, hnew.attach hsizes⟩
      simp only [attachExtent, wp_bind, wp_ite, wp_mftRequest]
      split
      · exact ⟨fun _ => .errno hthree.then_tick, fun _ =>
          ⟨hthree.then_tick, fun h => (by cases h), hdone⟩⟩
      · exact ⟨hthree, fun h => (by cases h), hdone⟩

/-- The state while a record is opened: the bits are not touched. -/
structure MftOpening (env : MftEnv) (s s' : MftState) : Prop where
  grown : MftGrown env s s'
  bits : s'.bits = s.bits

lemma MftOpening.kept (h : MftOpening env s s') (hkept : MftKept s' s'') : MftOpening env s s'' :=
  ⟨h.grown.trans hkept.grown, hkept.bits.trans h.bits⟩

/-- A record has been opened, or it is in use. -/
inductive MftOpened (env : MftEnv) (base : Option ExtentBase) (bit : Nat) (s : MftState) :
    Option Buffer → MftState → Prop
  | new {m s'} (opening : MftOpening env s s') (inside : bit < s'.records.length)
      (not_in_use : ∀ r, s.records[bit]? = some r → ¬ InUseRecord r)
      (record : NewMftRecord env base m) : MftOpened env base bit s (some m) s'
  | inUse {r s'} (kept : MftKept s s') (record : s.records[bit]? = some r)
      (in_use : InUseRecord r) : MftOpened env base bit s none s'

lemma openMftRecord_spec (hsizes : RecordSizes env)
    (hfree : ∀ m, s.records[bit]? = some m → ¬ InUseRecord m → FreeRecord env m) :
    wp (openMftRecord env base bit fuel) (MftOpened env base bit s)
      (Fails ((bit + 1) * env.recordSize + 1 < fuel) (MftOpening env s)) s := by
  simp only [openMftRecord, wp_bind, wp_reads, wp_ite, id]
  split
  · next hbehind =>
      -- the record has just been formatted
      refine wp_mono (mftRecordInit_spec hsizes) (fun _ s₁ h₁ => ?_)
        fun _ _ h => h.imp id fun h => ⟨h.grown, h.bits⟩
      obtain ⟨hgrown, hbits, hlt⟩ := h₁
      have hopening : MftOpening env s s₁ := ⟨hgrown, hbits⟩
      obtain ⟨new, hnew, hnewFree⟩ := hgrown.records
      have hrecord : FreeRecord env (s₁.records.getD bit []) := by
        rw [hnew, length_append] at hlt
        rw [hnew, getD_append_right _ _ _ _ (by omega), getD_eq_getElem _ _ (by omega)]
        exact hnewFree _ (getElem_mem _)
      refine wp_mono (readMftRecord_spec hsizes rfl fun _ => hrecord) (fun opened s₂ h₂ => ?_)
        fun _ _ h => h.imp (fun _ => trivial) hopening.kept
      obtain ⟨hkept, hnone, hsome⟩ := h₂
      cases opened with
      | none => exact absurd (hnone rfl) hrecord.free
      | some m =>
        refine .new (hopening.kept hkept) (by rw [hkept.records]; exact hlt) (fun r hr => ?_)
          (hsome m rfl).2
        rw [getElem?_eq_none (by omega)] at hr
        cases hr
  · next hold =>
      have hlt : bit < s.records.length := by omega
      have hget : s.records[bit]? = some (s.records.getD bit []) := by
        rw [getD_eq_getElem _ _ hlt, getElem?_eq_getElem hlt]
      have hopening : MftOpening env s s := ⟨(MftKept.refl s).grown, rfl⟩
      refine wp_mono (readMftRecord_spec hsizes rfl (hfree _ hget)) (fun opened s₂ h₂ => ?_)
        fun _ _ h => h.imp (fun _ => trivial) hopening.kept
      obtain ⟨hkept, hnone, hsome⟩ := h₂
      cases opened with
      | none => exact .inUse hkept hget (hnone rfl)
      | some m =>
        obtain ⟨hnot, hrecord⟩ := hsome m rfl
        refine .new (hopening.kept hkept) (by rw [hkept.records]; exact hlt)
          (fun r hr => ?_) hrecord
        rw [hget] at hr
        cases hr
        exact hnot

/-- A record has been allocated: its bit was clear, and is set now. -/
structure MftTaken (env : MftEnv) (s : MftState) (bit : Nat) (s' : MftState) : Prop where
  was_clear : s.bits.getD bit false = false
  not_in_use : ∀ m, s.records[bit]? = some m → ¬ InUseRecord m
  inside : bit < s'.records.length
  lt : bit < s'.bits.length
  set : s'.bits.getD bit false = true
  others : ∀ j, j ≠ bit → BitKept s s' j
  records : ∃ new, s'.records = s.records ++ new ∧ ∀ m ∈ new, FreeRecord env m

/-- The bitmap covers the reserved records, or it does after the first attempt, since the first
record behind it turns out to be in use. -/
def CoversReserved (s : MftState) : Prop :=
  reservedMftRecords ≤ s.bits.length ∨ ∃ m, s.records[s.bits.length]? = some m ∧ InUseRecord m

lemma getD_set (hbit : bit < bits.length) (b : Bool) (j : Nat) :
    (bits.set bit b).getD j false = if j = bit then b else bits.getD j false := by
  split
  · next heq => rw [heq, getD_set_self b hbit]
  · next hne => exact getD_set_ne b (Ne.symm hne)

def unmarked (s : MftState) : Nat :=
  ((Finset.range s.records.length).filter fun j => s.bits.getD j false = false).card

/-- The steps in which a record is allocated: each one marks a record or extends `$MFT`. -/
def allocSteps (env : MftEnv) (s : MftState) : Nat :=
  unmarked s + (s.bits.length + 64 * (unmarked s + 1)) * env.recordSize + 3

/-- The record of the bit that has been set is in use. -/
structure MftMarked (env : MftEnv) (s : MftState) (bit : Nat) (s' : MftState) : Prop where
  grown : MftGrown env s s'
  records : s'.records = s.records
  length : s'.bits.length ≤ s.bits.length + 64
  was_clear : s.bits.getD bit false = false
  set : s'.bits.getD bit false = true
  in_use : ∃ m, s.records[bit]? = some m ∧ InUseRecord m
  extended : s.bits.length < reservedMftRecords →
    bit = s.bits.length ∧ reservedMftRecords ≤ s'.bits.length

namespace MftMarked

section

variable (h : MftMarked env s bit s')
include h

lemma unmarked_lt : unmarked s' < unmarked s := by
  obtain ⟨m, hm, -⟩ := h.in_use
  rw [unmarked, h.records]
  refine Finset.card_lt_card ((Finset.ssubset_iff_of_subset fun j hj => ?_).mpr ⟨bit, ?_, ?_⟩)
  · rw [Finset.mem_filter] at hj ⊢
    exact ⟨hj.1, (h.grown.bits j).clear hj.2⟩
  · rw [Finset.mem_filter, Finset.mem_range]
    exact ⟨(List.getElem?_eq_some_iff.mp hm).1, h.was_clear⟩
  · rw [Finset.mem_filter, h.set]
    exact fun hj => by cases hj.2

lemma allocSteps_lt : allocSteps env s' < allocSteps env s := by
  have hlt := h.unmarked_lt
  have hle : (s'.bits.length + 64 * (unmarked s' + 1)) * env.recordSize ≤
      (s.bits.length + 64 * (unmarked s + 1)) * env.recordSize :=
    Nat.mul_le_mul_right _ (by have := h.length; omega)
  rw [allocSteps, allocSteps]
  omega

/-- From the second attempt on the bitmap covers the reserved records. -/
lemma coversReserved : CoversReserved s ∧ CoversReserved s' := by
  by_cases hfew : s.bits.length < reservedMftRecords
  · obtain ⟨rfl, hle⟩ := h.extended hfew
    exact ⟨.inr h.in_use, .inl hle⟩
  · exact ⟨.inl (le_of_not_gt hfew), .inl ((le_of_not_gt hfew).trans h.grown.length)⟩

lemma taken (h' : MftTaken env s' b s'') : MftTaken env s b s'' where
  was_clear := (h.grown.bits b).clear h'.was_clear
  not_in_use := fun m hm => h'.not_in_use m (h.records ▸ hm)
  inside := h'.inside
  lt := h'.lt
  set := h'.set
  others := fun j hj => @BitKept.trans env s s' s'' j [] (h.grown.bits j)
    (by rw [h.records, append_nil]) (fun _ hm => by cases hm) (h'.others j hj)
  records := h.records ▸ h'.records

end

end MftMarked

/-! ### What follows the choice of a record -/

namespace MftChosen

section

variable {s₁ s₂ : MftState} (h : MftChosen env s bit s₁)
include h

lemma lt : bit < s₁.bits.length := lt_of_getD_true h.clear

lemma was_clear : s.bits.getD bit false = false :=
  (h.grown.bits bit).clear (getD_false_of_true h.clear)

/-- The bit has been set and is cleared again. -/
lemma undone (hbits : s₂.bits = (s₁.bits.set bit true).set bit false)
    (hstale : s₂.stale = s₁.stale) : MftFailed s s₂ := by
  refine ⟨fun j _ => ?_, fun j hj => .inl (h.grown.stale ▸ hstale ▸ hj)⟩
  have hcleared := getD_set (length_set (i := bit) (a := true) ▸ h.lt) false j
  rw [← hbits, getD_set h.lt] at hcleared
  by_cases hj : j = bit
  · refine .inl (hcleared.trans ?_)
    rw [if_pos hj, hj, h.was_clear]
  · refine (h.grown.bits j).congr (hcleared.trans ?_)
    rw [if_neg hj, if_neg hj]

section

variable (hbits : s₂.bits = s₁.bits.set bit true)
include hbits

lemma is_set : s₂.bits.getD bit false = true := by
  rw [hbits]
  exact (getD_set h.lt true bit).trans (if_pos rfl)

lemma others (hj : j ≠ bit) : BitKept s s₂ j := by
  refine (h.grown.bits j).congr ?_
  rw [hbits]
  exact (getD_set h.lt true j).trans (if_neg hj)

/-- The bit could not be cleared. -/
lemma not_undone (hstale : s₂.stale = bit :: s₁.stale) : MftFailed s s₂ := by
  refine ⟨fun j hj => h.others hbits fun heq => hj ?_, fun j hj => ?_⟩
  · rw [heq, hstale]
    exact mem_cons_self
  · rw [hstale] at hj
    rcases mem_cons.mp hj with rfl | hold
    · exact .inr ⟨h.was_clear, h.is_set hbits⟩
    · exact .inl (h.grown.stale ▸ hold)

/-- The record that was chosen is the one that is allocated. -/
lemma taken (hrecords : ∃ new, s₂.records = s₁.records ++ new ∧ ∀ m ∈ new, FreeRecord env m)
    (hinside : bit < s₂.records.length)
    (hnot : ∀ r, s₁.records[bit]? = some r → ¬ InUseRecord r) :
    (reservedMftRecords ≤ bit ↔ CoversReserved s) ∧ MftTaken env s bit s₂ := by
  rw [h.records] at hrecords hnot
  refine ⟨?_, h.was_clear, hnot, hinside, ?_, h.is_set hbits, fun j hj => h.others hbits hj,
    hrecords⟩
  · by_cases hfew : s.bits.length < reservedMftRecords
    · obtain ⟨rfl, -⟩ := h.extended hfew
      refine iff_of_false (not_le.mpr hfew) ?_
      rintro (hle | ⟨m, hm, huse⟩)
      · exact absurd hfew (not_lt.mpr hle)
      · exact hnot m hm huse
    · exact iff_of_true (h.reserved (le_of_not_gt hfew)) (.inl (le_of_not_gt hfew))
  · rw [hbits, length_set]
    exact h.lt

/-- The record that was chosen is in use, and its bit stays set. -/
lemma marked (hrecords : s₂.records = s₁.records) (hstale : s₂.stale = s₁.stale)
    (hr : s₁.records[bit]? = some r) (huse : InUseRecord r) : MftMarked env s bit s₂ := by
  have hlength : s₂.bits.length = s₁.bits.length := by rw [hbits, length_set]
  rw [h.records] at hr
  refine ⟨⟨fun j => ?_, hlength ▸ h.grown.length, ⟨[], ?_, fun _ hm => by cases hm⟩,
    hstale.trans h.grown.stale⟩, hrecords.trans h.records, hlength ▸ h.length, h.was_clear,
    h.is_set hbits, ⟨r, hr, huse⟩, hlength ▸ h.extended⟩
  · by_cases hj : j = bit
    · rw [hj]
      exact .inr ⟨h.is_set hbits, r, hr, huse⟩
    · exact h.others hbits hj
  · rw [append_nil, hrecords, h.records]

end

end

end MftChosen

/-- A record is allocated, or no bit has changed but for those of records in use and those that
could not be cleared. -/
lemma mftRecordAlloc_spec (hsizes : RecordSizes env) (hwf : MftReadable env s) :
    wp (mftRecordAlloc env base fuel)
      (fun r s' => (reservedMftRecords ≤ r.1 ↔ CoversReserved s) ∧ MftTaken env s r.1 s' ∧
        NewMftRecord env base r.2)
      (Fails (allocSteps env s ≤ fuel) (MftFailed s)) s := by
  -- each record that is found in use has its bit set and is not met again
  induction fuel generalizing s with
  | zero => exact ⟨fun henough => (by cases henough), (MftKept.refl s).failed⟩
  | succ fuel ih =>
    simp only [mftRecordAlloc, wp_bind]
    refine wp_mono (chooseMftRecord_spec hwf) (fun bit s₁ h₁ => ?_)
      fun _ _ h => h.imp (fun _ => trivial) id
    simp only [setMftBit, wp_bind, wp_mftRequest, wp_modify, wp_attempt]
    refine ⟨fun _ => .errno (h₁.grown.trans (MftKept.tick s₁).grown).failed, fun _ => ?_⟩
    refine wp_mono (openMftRecord_spec hsizes fun m hm => ?_) (fun opened s₂ h₂ => ?_)
      fun e s₂ h₂ => ?_
    · exact hwf.free bit m (h₁.records ▸ hm) h₁.was_clear
    · cases h₂ with
      | @new m _ hopening hinside hnot hrecord =>
        obtain ⟨hcovers, htaken⟩ := h₁.taken hopening.bits hopening.grown.records hinside hnot
        exact ⟨hcovers, { htaken with }, hrecord⟩
      | @inUse r _ hkept hr huse =>
        have hmarked := h₁.marked hkept.bits hkept.records hkept.stale hr huse
        refine wp_mono (ih (hwf.kept hmarked.records hmarked.grown.bits)) (fun r s₃ h₃ => ?_)
          fun _ _ h => h.imp (fun henough => ?_) hmarked.grown.then_failed
        · obtain ⟨hcovers, htaken, hnew⟩ := h₃
          exact ⟨iff_of_true (hcovers.mpr hmarked.coversReserved.2) hmarked.coversReserved.1,
            hmarked.taken htaken, hnew⟩
        · exact Nat.le_of_lt_succ (hmarked.allocSteps_lt.trans_le henough)
    · obtain ⟨hfuel, hopening⟩ := h₂
      have hsteps : allocSteps env s ≤ fuel + 1 → e ≠ .fuel := fun henough => hfuel (by
        have hle : (bit + 1) * env.recordSize ≤
            (s.bits.length + 64 * (unmarked s + 1)) * env.recordSize :=
          Nat.mul_le_mul_right _ (by have := h₁.length; have := h₁.lt; omega)
        rw [allocSteps] at henough
        omega)
      simp only [wp_bind, wp_attempt, clearMftBit, wp_mftRequest]
      refine ⟨fun _ => ⟨hsteps, ?_⟩, fun _ => ⟨hsteps, ?_⟩⟩
      · exact h₁.not_undone hopening.bits (congrArg (bit :: ·) hopening.grown.stale)
      · exact h₁.undone (congrArg (·.set bit false) hopening.bits) hopening.grown.stale

end NtfsDxe
