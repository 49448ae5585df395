import NtfsDxe.Compress.Compressor

/-! # The search tree finds real matches

Every node of the tree is a position with the same first byte as its parent and
after it. The walk therefore visits later and later positions, ends within the
number of positions, and compares only sequences that start with the same byte.
-/

namespace NtfsDxe

/-- The tree holds positions before `n` under their first byte, and sons come
after their parent. -/
structure SearchTree (inbuf : Buffer) (n : Nat) (ctx : CompressContext) : Prop where
  head_ok : ∀ b node, ctx.head b = some node → node < n ∧ byteAt inbuf node = b
  son_ok : ∀ left node c, ctx.son left node = some c →
    node < c ∧ c < n ∧ byteAt inbuf c = byteAt inbuf node

/-- The bytes from `node` on agree with those from `i` up to `e`. -/
def Agrees (inbuf : Buffer) (node i e : Nat) : Prop :=
  ∀ k, i ≤ k → k < e → byteAt inbuf (k + node - i) = byteAt inbuf k

/-- The context holds a match for position `i`: a size of zero, or an earlier
position from which that many bytes agree. -/
def FoundMatch (inbuf : Buffer) (i : Nat) (ctx : CompressContext) : Prop :=
  ctx.size = 0 ∨ ∃ node : Nat, node < i ∧ ctx.rel = node - i ∧
    i + ctx.size ≤ inbuf.length ∧ Agrees inbuf node i (i + ctx.size)

section Tree

variable {ctx : CompressContext}

lemma SearchTree.mono (htree : SearchTree inbuf n ctx) (hle : n ≤ m) : SearchTree inbuf m ctx := by
  refine ⟨?_, ?_⟩
  · intro b node hnode
    obtain ⟨hlt, hbyte⟩ := htree.head_ok b node hnode
    exact ⟨by omega, hbyte⟩
  · intro left node c hc
    obtain ⟨hlt, hcn, hbyte⟩ := htree.son_ok left node c hc
    exact ⟨hlt, by omega, hbyte⟩

lemma CompressContext.son_setSon :
    (ctx.setSon left node i).son left' node' =
      if left' = left ∧ node' = node then some i else ctx.son left' node' := by
  cases left <;> cases left' <;>
    simp [CompressContext.setSon, CompressContext.son, Function.update_apply]

section

variable (ctx : CompressContext) (left : Bool) (node i : Nat)

lemma CompressContext.head_setSon : (ctx.setSon left node i).head = ctx.head := by
  cases left <;> rfl

lemma CompressContext.mxsz_setSon : (ctx.setSon left node i).mxsz = ctx.mxsz := by
  cases left <;> rfl

end

/-- Inserting a position below an earlier one with the same first byte. -/
lemma SearchTree.setSon (htree : SearchTree inbuf i ctx) (hlt : node < i)
    (hbyte : byteAt inbuf node = byteAt inbuf i) :
    SearchTree inbuf (i + 1) (ctx.setSon left node i) := by
  have hmore := htree.mono (Nat.le_succ i)
  refine ⟨?_, ?_⟩
  · rw [ctx.head_setSon]
    exact hmore.head_ok
  · intro left' node' c hc
    rw [ctx.son_setSon] at hc
    split at hc
    next hsame =>
      obtain ⟨_, rfl⟩ := hsame
      cases hc
      exact ⟨hlt, Nat.lt_succ_self i, hbyte.symm⟩
    next => exact hmore.son_ok left' node' c hc

lemma SearchTree.setHead (htree : SearchTree inbuf i ctx) (size : Nat) (rel : Int) :
    SearchTree inbuf (i + 1) { ctx with
      head := Function.update ctx.head (byteAt inbuf i) (some i), size := size, rel := rel } := by
  have hmore := htree.mono (Nat.le_succ i)
  refine ⟨?_, hmore.son_ok⟩
  intro b node hnode
  dsimp only at hnode
  rw [Function.update_apply] at hnode
  split at hnode
  next hb =>
    cases hnode
    exact ⟨Nat.lt_succ_self i, hb.symm⟩
  next => exact hmore.head_ok b node hnode

lemma SearchTree.setResult (htree : SearchTree inbuf n ctx) (rel : Int) (mxsz : Nat) :
    SearchTree inbuf n { ctx with size := size, rel := rel, mxsz := mxsz } :=
  ⟨htree.head_ok, htree.son_ok⟩

end Tree

/-! ## One search -/

section Search

lemma matchEnd_spec (hle : e ≤ maxpos) :
    e ≤ matchEnd inbuf node i maxpos e ∧ matchEnd inbuf node i maxpos e ≤ maxpos ∧
      ∀ k, e ≤ k → k < matchEnd inbuf node i maxpos e →
        byteAt inbuf (k + node - i) = byteAt inbuf k := by
  induction hk : maxpos - e using Nat.strongRecOn generalizing e with
  | ind m ih =>
    rw [matchEnd]
    split
    next hsame =>
      obtain ⟨hge, hend, hagree⟩ := ih (maxpos - (e + 1)) (by omega) (e := e + 1) (by omega) rfl
      refine ⟨by omega, hend, ?_⟩
      intro k hk hlt
      rcases Nat.eq_or_lt_of_le hk with rfl | hmore
      · exact hsame.2.symm
      · exact hagree k hmore hlt
    next =>
      refine ⟨le_refl e, hle, ?_⟩
      omega

/-- The end of the comparison with a node that has the same first byte. -/
lemma agrees_matchEnd (hi : i + 1 ≤ maxpos) (hbyte : byteAt inbuf node = byteAt inbuf i) :
    Agrees inbuf node i (matchEnd inbuf node i maxpos (i + 1)) := by
  obtain ⟨_, _, hagree⟩ := matchEnd_spec hi
  intro k hk hlt
  rcases Nat.eq_or_lt_of_le hk with rfl | hmore
  · rw [Nat.add_sub_cancel_left]
    exact hbyte
  · exact hagree k hmore hlt

/-- The walk down the tree ends, keeps the tree, and returns a match. -/
lemma searchTree_spec (htree : SearchTree inbuf i ctx) (hi : i + 1 ≤ maxpos) (hnode : node < i)
    (hbyte : byteAt inbuf node = byteAt inbuf i) (hsteps : i ≤ node + steps)
    (hbestNode : bestNode < i) (hbestEnd : i < bestEnd ∧ bestEnd ≤ maxpos)
    (hbest : Agrees inbuf bestNode i bestEnd) :
    ∃ ctx' bestEnd' bestNode', searchTree inbuf i maxpos steps ctx node bestEnd bestNode =
        some (ctx', bestEnd', bestNode') ∧
      SearchTree inbuf (i + 1) ctx' ∧ ctx'.mxsz = ctx.mxsz ∧ bestNode' < i ∧
      (i < bestEnd' ∧ bestEnd' ≤ maxpos) ∧ Agrees inbuf bestNode' i bestEnd' := by
  induction steps generalizing node bestEnd bestNode with
  | zero => omega
  | succ steps ih =>
    obtain ⟨hge, hend, _⟩ := matchEnd_spec hi
    have hagree := agrees_matchEnd hi hbyte
    set e := matchEnd inbuf node i maxpos (i + 1)
    -- Whichever match is remembered, it agrees up to its end.
    have hremember : ∃ best, (if bestEnd < e then (e, node) else (bestEnd, bestNode)) = best ∧
        best.2 < i ∧ (i < best.1 ∧ best.1 ≤ maxpos) ∧ Agrees inbuf best.2 i best.1 := by
      split
      next => exact ⟨_, rfl, hnode, ⟨by omega, hend⟩, hagree⟩
      next => exact ⟨_, rfl, hbestNode, hbestEnd, hbest⟩
    obtain ⟨best, hbestEq, hbestNode', hbestEnd', hbest'⟩ := hremember
    rw [searchTree, hbestEq]
    split
    next hleaf =>
      exact ⟨_, _, _, rfl, htree.setSon hnode hbyte, ctx.mxsz_setSon _ _ _, hbestNode',
        hbestEnd', hbest'⟩
    next next hnext =>
      obtain ⟨hlater, hbefore, hsame⟩ := htree.son_ok _ _ _ hnext
      split
      next => exact ih hbefore (hsame.trans hbyte) (by omega) hbestNode' hbestEnd' hbest'
      next =>
        exact ⟨_, _, _, rfl, htree.mono (Nat.le_succ i), rfl, hbestNode', hbestEnd', hbest'⟩

/-- `ntfs_best_match` finds a match and inserts the position. -/
lemma bestMatch_spec (htree : SearchTree inbuf i ctx)
    (hi : i < inbuf.length) (hsize : inbuf.length ≤ sbSize) :
    ∃ ctx', bestMatch inbuf ctx i = some ctx' ∧ SearchTree inbuf (i + 1) ctx' ∧
      ctx'.mxsz = ctx.mxsz ∧ FoundMatch inbuf i ctx' := by
  rw [bestMatch]
  split
  next => exact ⟨_, rfl, htree.setHead 0 0, rfl, .inl rfl⟩
  next node hnode =>
    obtain ⟨hlt, hbyte⟩ := htree.head_ok _ _ hnode
    dsimp only
    set maxpos := if i + ctx.mxsz < inbuf.length then i + ctx.mxsz else inbuf.length with hmax
    have hmaxLe : maxpos ≤ inbuf.length := by rw [hmax]; split <;> omega
    have hfirst : Agrees inbuf node i (i + 1) := by
      intro k hk hlt
      have hki : k = i := by omega
      rw [hki, Nat.add_sub_cancel_left]
      exact hbyte
    split
    next hlong =>
      obtain ⟨ctx', bestEnd, bestNode, hsearch, htree', hmxsz', hbest, hend, hagree⟩ :=
        searchTree_spec htree (by omega : i + 1 ≤ maxpos) hlt hbyte
          (by omega : i ≤ node + sbSize) hlt (by omega) hfirst
      rw [hsearch]
      refine ⟨_, rfl, htree'.setResult _ _, hmxsz', .inr ⟨bestNode, hbest, rfl, ?_, ?_⟩⟩
      · dsimp only
        omega
      · rwa [Nat.add_sub_cancel' (by omega)]
    next =>
      have hmore := htree.mono (Nat.le_succ i)
      exact ⟨_, rfl, hmore.setResult _ _, rfl, .inr ⟨node, hlt, rfl, hi, hfirst⟩⟩

lemma searchUpTo_spec (htree : SearchTree inbuf searched ctx) (hle : searched ≤ i + 1)
    (hfound : searched = i + 1 → FoundMatch inbuf i ctx) (hi : i < inbuf.length)
    (hsize : inbuf.length ≤ sbSize) :
    ∃ ctx', searchUpTo inbuf ctx searched i = some ctx' ∧ SearchTree inbuf (i + 1) ctx' ∧
      ctx'.mxsz = ctx.mxsz ∧ FoundMatch inbuf i ctx' := by
  induction hk : i + 1 - searched using Nat.strongRecOn generalizing searched ctx with
  | ind m ih =>
    rw [searchUpTo]
    split
    next hmore =>
      obtain ⟨ctx', hmatch, htree', hmxsz', hfound'⟩ := bestMatch_spec htree (by omega) hsize
      rw [hmatch]
      obtain ⟨ctx'', hsearch, htree'', hmxsz'', hfound''⟩ :=
        ih (i + 1 - (searched + 1)) (by omega) htree' (by omega)
          (by
            intro hlast
            have hsame : searched = i := by omega
            rwa [hsame] at hfound') rfl
      exact ⟨ctx'', hsearch, htree'', hmxsz''.trans hmxsz', hfound''⟩
    next hdone =>
      have hall : searched = i + 1 := by omega
      exact ⟨ctx, rfl, hall ▸ htree, rfl, hfound hall⟩

end Search

end NtfsDxe
