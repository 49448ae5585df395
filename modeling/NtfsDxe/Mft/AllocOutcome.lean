import NtfsDxe.Mft.AllocSound

/-! # The outcomes of allocating an mft record

The allocation ends. It gives a free record, or it fails and changes no bit but those of
records in use, unless the bit that was set for the record, or the size of the bitmap, could not
be restored.
-/

namespace NtfsDxe

open Foundation Prog List

/-- Allocating a record for a new file or an extent of a file other than `$MFT`. The record is
behind the reserved ones just if the bitmap covers these. After a failure no bit is set for a
record that is not in use just if this is so for the bits that could not be cleared. -/
theorem mftRecordAlloc_outcome {s : MftState} (hsizes : RecordSizes env)
    (hwf : MftReadable env s) (hstale : s.stale = []) (base : Option ExtentBase) :
    ∃ steps, ∀ fuel, steps ≤ fuel →
      (∀ bit m s', mftRecordAlloc env base fuel s = (.ok (bit, m), s') →
        (reservedMftRecords ≤ bit ↔ CoversReserved s) ∧ MftTaken env s bit s' ∧
          NewMftRecord env base m) ∧
      (∀ e s', mftRecordAlloc env base fuel s = (.error e, s') →
        e ≠ .fuel ∧ ((∀ j, BitKept s s' j) ↔
          ∀ j ∈ s'.stale, ∃ m, s.records[j]? = some m ∧ InUseRecord m)) := by
  refine ⟨allocSteps env s, fun fuel hfuel => ?_⟩
  have hspec := @mftRecordAlloc_spec env base s fuel hsizes hwf
  refine ⟨fun bit m s' hrun => ?_, fun e s' hrun => ?_⟩
  · obtain ⟨hreserved, htaken, hnew⟩ := wp_ok hspec hrun
    exact ⟨hreserved, htaken, hnew⟩
  · obtain ⟨hsteps, hfailed⟩ := wp_error hspec hrun
    exact ⟨hsteps hfuel, hfailed.kept_iff hstale⟩

/-! ## A small `$MFT` -/

/-- A volume with records of 1024 bytes, on which the clusters from 100 on are free. -/
def smallMftEnv (fails : MftRequest → Nat → Bool) : MftEnv where
  recordSize := 1024
  clusterSize := 4096
  oldFormat := false
  fails := fails
  clusterAlloc := fun used n _ =>
    if (range' 100 n).all (fun c => !used c) then .ok (range' 100 n) else .error .enospc
  extents := fun _ => .ok
  unwritten := []
  clusterSize_pos := by decide
  clusterAlloc_length := by
    intro used n t lcns h
    split at h
    · cases h
      exact length_range'
    · cases h
  clusterAlloc_free := by
    intro used n t lcns h c hc
    split at h
    · next hall =>
        cases h
        simpa using all_eq_true.mp hall c hc
    · cases h

/-- The 64 reserved records, and `free` records behind them. -/
def smallMft (bits free : Nat) : MftState where
  bits := replicate 64 true ++ replicate bits false
  bitmapAllocated := 4096
  bitmapRuns := [(10, 1)]
  records := replicate 64 [] ++ replicate free (replicate 1024 0)
  allocated := (64 + free) * 1024
  hasAttrList := false
  dataPos := 64
  used := fun c => c < 100
  clock := 0
  stale := []

section

variable {fails : MftRequest → Nat → Bool} {bits free : Nat}

lemma smallMft_clear (h : (smallMft bits free).bits.getD bit false = false) : 64 ≤ bit := by
  by_contra hlt
  have hset : (replicate 64 true).getD bit false = true :=
    getD_replicate true (lt_of_not_ge hlt)
  rw [smallMft, getD_append_replicate, hset] at h
  cases h

lemma smallMft_wellFormed (hle : free ≤ bits) :
    MftWellFormed (smallMftEnv fails) (smallMft bits free) where
  records_le := by
    simp only [smallMft, length_append, length_replicate]
    omega
  behind := by
    intro bit hbit
    have hge : 64 ≤ bit := by
      simp only [smallMft, length_append, length_replicate] at hbit
      omega
    rw [smallMft, getD_append_replicate, getD_eq_default]
    exact hge
  free := by
    intro bit m hm hclear
    have hge := smallMft_clear hclear
    have hzeros : m = replicate 1024 0 := by
      rw [smallMft, getElem?_append_right (by exact hge), getElem?_replicate] at hm
      split at hm
      · exact (Option.some.inj hm).symm
      · cases hm
    rw [hzeros]
    exact ⟨length_replicate, by decide +kernel, by decide +kernel⟩

lemma smallMftEnv_sizes : RecordSizes (smallMftEnv fails) where
  ge := le_refl 1024
  le := by
    change 1024 ≤ 2 ^ 23
    decide

end

/-- An extent of the file with record 70 is allocated, on a volume where no bit can be cleared. -/
theorem smallMft_extent :
    (mftRecordAlloc (smallMftEnv fun r _ => decide (r = .bitmapClear))
      (some ⟨70, 3, 0, by decide⟩) 2 (smallMft 64 1)).1.isOk = true ∧
    ∃ steps, ∀ fuel, steps ≤ fuel →
      (∀ bit m s', mftRecordAlloc (smallMftEnv fun r _ => decide (r = .bitmapClear))
          (some ⟨70, 3, 0, by decide⟩) fuel (smallMft 64 1) = (.ok (bit, m), s') →
        (reservedMftRecords ≤ bit ↔ CoversReserved (smallMft 64 1)) ∧
        MftTaken (smallMftEnv fun r _ => decide (r = .bitmapClear)) (smallMft 64 1) bit s' ∧
        NewMftRecord (smallMftEnv fun r _ => decide (r = .bitmapClear))
          (some ⟨70, 3, 0, by decide⟩) m) ∧
      (∀ e s', mftRecordAlloc (smallMftEnv fun r _ => decide (r = .bitmapClear))
          (some ⟨70, 3, 0, by decide⟩) fuel (smallMft 64 1) = (.error e, s') →
        e ≠ .fuel ∧ ((∀ j, BitKept (smallMft 64 1) s' j) ↔
          ∀ j ∈ s'.stale, ∃ m, (smallMft 64 1).records[j]? = some m ∧ InUseRecord m)) :=
  ⟨by decide +kernel, mftRecordAlloc_outcome smallMftEnv_sizes
    (smallMft_wellFormed (by decide)).mftReadable rfl _⟩

/-- The device fails after the bit has been set: the record can neither be read nor its bit be
cleared. -/
theorem smallMft_stays_marked :
    RecordSizes (smallMftEnv fun _ n => decide (4 ≤ n)) ∧
    MftWellFormed (smallMftEnv fun _ n => decide (4 ≤ n)) (smallMft 64 1) ∧
    reservedMftRecords ≤ (smallMft 64 1).bits.length ∧
    (mftRecordAlloc (smallMftEnv fun _ n => decide (4 ≤ n)) none 2 (smallMft 64 1)).1 =
      .error (.errno .eio) ∧
    (smallMft 64 1).bits.getD 64 false = false ∧
    (mftRecordAlloc (smallMftEnv fun _ n => decide (4 ≤ n)) none 2
      (smallMft 64 1)).2.bits.getD 64 false = true ∧
    ¬ InUseRecord ((mftRecordAlloc (smallMftEnv fun _ n => decide (4 ≤ n)) none 2
      (smallMft 64 1)).2.records.getD 64 []) :=
  ⟨smallMftEnv_sizes, smallMft_wellFormed (by decide), by decide +kernel, by decide +kernel,
    by decide +kernel, by decide +kernel, by decide +kernel⟩

/-! ## The search for a free record -/

/-- The search finds a clear bit behind the reserved records and before the end, unless there is
none. -/
def FindsFreeRec (env : MftEnv) (base : Option ExtentBase) (s : MftState) : Prop :=
  wp (mftBitmapFindFreeRec env base)
    (fun found _ => (∀ bit, found = some bit → reservedMftRecords ≤ bit ∧
        bit < searchEnd env s ∧ s.bits.getD bit true = false) ∧
      (found = none → ∀ j, reservedMftRecords ≤ j → j < searchEnd env s →
        s.bits.getD j true = true))
    (fun _ _ => ∃ r n, env.fails r n = true) s

/-- The last byte is searched as a whole. The search is right if its first pass stops before the
end or not at all, and only then unless something that is asked for fails. -/
theorem mftBitmapFindFreeRec_search (env : MftEnv) (base : Option ExtentBase) (s : MftState) :
    (StopsInside env base s → FindsFreeRec env base s) ∧
      ((∀ r n, env.fails r n = false) → FindsFreeRec env base s → StopsInside env base s) := by
  have hspec := @mftBitmapFindFreeRec_spec env base s
  constructor
  · intro hinside
    refine wp_mono hspec (fun found _ h => ⟨fun bit hbit => ?_, h.2.used⟩) fun _ _ h => h.2
    obtain ⟨hclear, hle⟩ := h.2.clear bit hbit
    exact ⟨hle, h.2.inside_iff.mpr hinside bit hbit, hclear⟩
  · intro hworks hfinds
    rcases hrun : mftBitmapFindFreeRec env base s with ⟨_ | found, s'⟩
    · obtain ⟨r, n, hfail⟩ := wp_error hfinds hrun
      rw [hworks] at hfail
      cases hfail
    · exact (wp_ok hspec hrun).2.inside_iff.mp fun bit hbit =>
        ((wp_ok hfinds hrun).1 bit hbit).2.1

/-- There are 75 records, and the first pass stops at the first of them. -/
theorem mftBitmapFindFreeRec_search_padded :
    FindsFreeRec (smallMftEnv fun _ _ => false) none (smallMft 16 11) ∧
      searchEnd (smallMftEnv fun _ _ => false) (smallMft 16 11) = 75 ∧
      (mftBitmapFindFreeRec (smallMftEnv fun _ _ => false) none (smallMft 16 11)).1 =
        .ok (some 64) := by
  have hsearch : searchEnd (smallMftEnv fun _ _ => false) (smallMft 16 11) = 75 := by decide +kernel
  have hstart : searchStart (smallMftEnv fun _ _ => false) none (smallMft 16 11) = 64 := by
    decide +kernel
  refine ⟨(mftBitmapFindFreeRec_search _ none _).1 fun z _ _ _ => ?_, hsearch, by decide +kernel⟩
  rw [hsearch, hstart]
  refine ⟨64, le_rfl, by decide, ?_⟩
  rintro (hset | ⟨z, hz, hlt, -⟩)
  · revert hset
    decide +kernel
  · omega

/-- There are 67 records, all in use: the one behind them is found. -/
theorem mftBitmapFindFreeRec_behind :
    searchEnd (smallMftEnv fun _ _ => false)
      { smallMft 8 3 with bits := replicate 67 true ++ replicate 5 false } = 67 ∧
    (mftBitmapFindFreeRec (smallMftEnv fun _ _ => false) none
      { smallMft 8 3 with bits := replicate 67 true ++ replicate 5 false }).1 = .ok (some 67) := by
  decide +kernel

end NtfsDxe
