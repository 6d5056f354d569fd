import CertTrans.Merkletree.MerkleTreeLevels

/-!
The queries of `MerkleTree` against the RFC 6962 definitions of
`LeftBalanced`, for every state reachable by a sequence of operations.

A past snapshot `s` is answered from levels that reflect more leaves.  The
nodes of a level whose blocks of leaves lie within the first `s` are the same
in both trees; only the right spine of the snapshot tree differs, and
`RecomputePastSnapshot` rehashes it from the highest complete node on its
path up (`lastNodeAt` below).  `PathFromNodeToRootAtSnapshot` reads every
sibling off the tree except the spine node, which it recomputes.
-/

namespace CertTrans

namespace MerkleTree

open LeftBalanced MerkleTreeMath

theorem pred_shiftRight_of_dvd {s l : Nat} (hs : 0 < s) (h : 2 ^ l ∣ s) :
    (s - 1) >>> l = s / 2 ^ l - 1 := by
  obtain ⟨k, rfl⟩ := h
  have ha := Nat.two_pow_pos l
  have hk : 0 < k := Nat.pos_of_mul_pos_left hs
  have hmul : 2 ^ l ≤ 2 ^ l * k := Nat.le_mul_of_pos_right _ hk
  have hlo : (k - 1) * 2 ^ l = 2 ^ l * k - 2 ^ l := by
    rw [Nat.sub_mul, Nat.one_mul, Nat.mul_comm]
  rw [Nat.shiftRight_eq_div_pow, Nat.mul_div_cancel_left k ha]
  refine Nat.div_eq_of_lt_le (by omega) ?_
  rw [Nat.sub_add_cancel hk, Nat.mul_comm k]
  omega

theorem sibling_eq_getElem? {α : Type*} (ys : List α) (m : Nat) :
    LeftBalanced.sibling ys m = ys[MerkleTreeMath.sibling m]?.toList := by
  rw [LeftBalanced.sibling, MerkleTreeMath.sibling_eq]
  split_ifs <;> rfl

variable (th : TreeHasher)

def lastNodeAt (xs : List ByteString) (s l : Nat) : ByteString :=
  (level th.hashChildren (xs.take s) l).getLastD []

def recorded (xs : List ByteString) (s nodeLevel : Nat) (node : Option ByteString) (l : Nat) :
    Option ByteString :=
  if node.isSome ∧ nodeLevel < l then some (lastNodeAt th xs s nodeLevel) else node

section Spine

variable {th} {xs : List ByteString} {s : Nat}

theorem length_level_take (node : ByteString → ByteString → ByteString) (hs0 : 0 < s)
    (hs : s ≤ xs.length) (l : Nat) :
    (level node (xs.take s) l).length = (s - 1) >>> l + 1 := by
  rw [length_level _ _ (List.ne_nil_of_length_pos (by simp; omega)), List.length_take,
    Nat.min_eq_left hs]

theorem lastNodeAt_eq_getD (hs0 : 0 < s) (hs : s ≤ xs.length) (l : Nat) :
    lastNodeAt th xs s l = (level th.hashChildren (xs.take s) l).getD ((s - 1) >>> l) [] := by
  rw [lastNodeAt, List.getLastD_eq_getLast?, List.getLast?_eq_getElem?,
    length_level_take _ hs0 hs, Nat.add_sub_cancel, ← List.getD_eq_getElem?_getD]

variable (th) in
theorem lastNodeAt_succ (hs0 : 0 < s) (hs : s ≤ xs.length) (l : Nat) :
    lastNodeAt th xs s (l + 1) =
      if (s - 1) >>> l % 2 = 1 then
        th.hashChildren ((level th.hashChildren (xs.take s) l).getD ((s - 1) >>> l - 1) [])
          (lastNodeAt th xs s l)
      else lastNodeAt th xs s l := by
  rw [lastNodeAt_eq_getD hs0 hs, lastNodeAt_eq_getD hs0 hs, level_succ, Nat.shiftRight_succ,
    getD_pairUp_last _ (length_level_take _ hs0 hs l)]

theorem lastNodeAt_of_shiftRight_eq_zero (hs0 : 0 < s) (hs : s ≤ xs.length) {l : Nat}
    (hl : (s - 1) >>> l = 0) :
    lastNodeAt th xs s l = LeftBalanced.root th.hashChildren th.hashEmpty (xs.take s) := by
  have hfit : (xs.take s).length ≤ 2 ^ l := by
    rw [Nat.shiftRight_eq_div_pow, Nat.div_eq_zero_iff] at hl
    have := Nat.two_pow_pos l
    rw [List.length_take, Nat.min_eq_left hs]
    omega
  rw [lastNodeAt, level_eq_singleton_root th.hashChildren th.hashEmpty
    (List.ne_nil_of_length_pos (by simp; omega)) hfit]
  rfl

@[simp] theorem recorded_zero (nodeLevel : Nat) (node : Option ByteString) :
    recorded th xs s nodeLevel node 0 = node := by
  simp [recorded]

theorem isSome_recorded (nodeLevel : Nat) (node : Option ByteString) (l : Nat) :
    (recorded th xs s nodeLevel node l).isSome = node.isSome := by
  unfold recorded
  split_ifs with h
  · simp [h.1]
  · rfl

theorem recorded_succ (nodeLevel : Nat) (node : Option ByteString) (l : Nat) :
    (if (recorded th xs s nodeLevel node l).isSome = true ∧ nodeLevel = l then
        some (lastNodeAt th xs s l) else recorded th xs s nodeLevel node l) =
      recorded th xs s nodeLevel node (l + 1) := by
  rw [isSome_recorded]
  unfold recorded
  by_cases hsome : node.isSome = true
  · by_cases hl : nodeLevel = l
    · subst hl
      simp [hsome]
    · simp only [hsome, hl, true_and, if_false]
      split_ifs <;> first | rfl | omega
  · simp [hsome]

end Spine

section Recompute

variable {th} {t : MerkleTree} {xs : List ByteString} {s : Nat}

theorem two_pow_le_of_shiftRight_ne_zero {n l : Nat} (h : n >>> l ≠ 0) : 2 ^ l ≤ n := by
  rw [Nat.shiftRight_eq_div_pow] at h
  by_contra hlt
  exact h (Nat.div_eq_of_lt (by omega))

theorem Represents.node_spine (h : Represents th t xs) (hs0 : 0 < s)
    (hsp : s ≤ t.leavesProcessed) (hs : s ≤ xs.length) {l : Nat} (hdvd : 2 ^ l ∣ s) :
    t.node l ((s - 1) >>> l) = lastNodeAt th xs s l := by
  have hq : 0 < s / 2 ^ l := Nat.div_pos (Nat.le_of_dvd hs0 hdvd) (Nat.two_pow_pos l)
  rw [lastNodeAt_eq_getD hs0 hs]
  refine h.node_eq ?_ hsp
  rw [pred_shiftRight_of_dvd hs0 hdvd, Nat.sub_add_cancel hq, Nat.mul_div_cancel' hdvd]

theorem Represents.climbRightSpine_eq (h : Represents th t xs) (hs0 : 0 < s)
    (hsp : s ≤ t.leavesProcessed) (hs : s ≤ xs.length) (nodeLevel : Nat)
    (node : Option ByteString) (l : Nat) (hdvd : 2 ^ l ∣ s) :
    ∃ L, 2 ^ L ∣ s ∧ (s - 1) >>> L % 2 = 0 ∧
      climbRightSpine t nodeLevel l ((s - 1) >>> l) (recorded th xs s nodeLevel node l) =
        (L, (s - 1) >>> L, recorded th xs s nodeLevel node L) := by
  rw [climbRightSpine]
  by_cases hright : isRightChild ((s - 1) >>> l) = true
  · rw [if_pos hright]
    dsimp only
    have hodd : (s - 1) >>> l % 2 = 1 := (isRightChild_eq_true_iff _).mp hright
    have hdvd' : 2 ^ (l + 1) ∣ s := by
      rw [pred_shiftRight_of_dvd hs0 hdvd] at hodd
      obtain ⟨m, hm⟩ : 2 ∣ s / 2 ^ l := Nat.dvd_of_mod_eq_zero (by omega)
      refine ⟨m, ?_⟩
      rw [Nat.pow_succ, Nat.mul_assoc, ← hm, Nat.mul_div_cancel' hdvd]
    rw [h.node_spine hs0 hsp hs hdvd, recorded_succ, parent_eq, ← Nat.shiftRight_succ]
    exact h.climbRightSpine_eq hs0 hsp hs nodeLevel node (l + 1) hdvd'
  · rw [if_neg hright]
    refine ⟨l, hdvd, ?_, rfl⟩
    simp only [isRightChild_eq_true_iff] at hright
    omega
termination_by (s - 1) >>> l
decreasing_by
  rw [Nat.shiftRight_succ]
  refine Nat.div_lt_self (Nat.pos_of_ne_zero fun h0 => ?_) (by decide)
  rw [h0] at hodd
  exact absurd hodd (by decide)

theorem Represents.rehashRightSpine_eq (h : Represents th t xs) (hs0 : 0 < s)
    (hsp : s ≤ t.leavesProcessed) (hs : s ≤ xs.length) (nodeLevel : Nat)
    (node : Option ByteString) (l : Nat) (hl : l ≤ Nat.size (s - 1)) :
    rehashRightSpine th t nodeLevel l ((s - 1) >>> l) (lastNodeAt th xs s l)
        (recorded th xs s nodeLevel node (l + 1)) =
      (LeftBalanced.root th.hashChildren th.hashEmpty (xs.take s),
        recorded th xs s nodeLevel node (levelsFor s)) := by
  rw [rehashRightSpine]
  by_cases hzero : (s - 1) >>> l = 0
  · -- the top of the snapshot tree
    rw [if_pos hzero]
    have hl' : l = Nat.size (s - 1) := by
      refine le_antisymm hl (Nat.size_le.mpr ?_)
      rw [Nat.shiftRight_eq_div_pow, Nat.div_eq_zero_iff] at hzero
      have := Nat.two_pow_pos l
      omega
    rw [lastNodeAt_of_shiftRight_eq_zero hs0 hs hzero, levelsFor_pos hs0, hl']
  · rw [if_neg hzero]
    have hsucc : (if isRightChild ((s - 1) >>> l) then
          th.hashChildren (t.node l ((s - 1) >>> l - 1)) (lastNodeAt th xs s l)
        else lastNodeAt th xs s l) = lastNodeAt th xs s (l + 1) := by
      rw [lastNodeAt_succ th hs0 hs]
      by_cases hodd : (s - 1) >>> l % 2 = 1
      · -- the left sibling's block lies below the last node's
        have hblock : 2 ^ l * ((s - 1) >>> l - 1 + 1) ≤ s := by
          rw [Nat.sub_add_cancel (Nat.pos_of_ne_zero hzero)]
          exact le_trans (two_pow_mul_shiftRight_le (s - 1) l) (Nat.sub_le s 1)
        rw [if_pos ((isRightChild_eq_true_iff _).mpr hodd), if_pos hodd, h.node_eq hblock hsp]
      · rw [if_neg (by simpa using hodd), if_neg hodd]
    have hnext : l + 1 ≤ Nat.size (s - 1) := Nat.lt_size.mpr (two_pow_le_of_shiftRight_ne_zero hzero)
    dsimp only
    rw [hsucc, recorded_succ, parent_eq, ← Nat.shiftRight_succ]
    exact h.rehashRightSpine_eq hs0 hsp hs nodeLevel node (l + 1) hnext
termination_by (s - 1) >>> l
decreasing_by
  rw [Nat.shiftRight_succ]
  exact Nat.div_lt_self (Nat.pos_of_ne_zero hzero) (by decide)

theorem Represents.recomputePastSnapshot_eq (h : Represents th t xs) (hs0 : 0 < s)
    (hsp : s < t.leavesProcessed) (nodeLevel : Nat) (node : Option ByteString) :
    recomputePastSnapshot th t s nodeLevel node =
      (LeftBalanced.root th.hashChildren th.hashEmpty (xs.take s),
        recorded th xs s nodeLevel node (levelsFor s)) := by
  have hs : s ≤ xs.length := by have := h.leavesProcessed_le; omega
  obtain ⟨L, hdvd, -, hclimb⟩ := h.climbRightSpine_eq hs0 hsp.le hs nodeLevel node 0 (by simp)
  rw [Nat.shiftRight_zero, recorded_zero] at hclimb
  have hL : L ≤ Nat.size (s - 1) := by
    have := lt_levelsFor_of_two_pow_le (Nat.le_of_dvd hs0 hdvd)
    rw [levelsFor_pos hs0] at this
    omega
  unfold recomputePastSnapshot
  rw [if_neg (by omega), hclimb]
  dsimp only
  rw [h.node_spine hs0 hsp.le hs hdvd, recorded_succ,
    h.rehashRightSpine_eq hs0 hsp.le hs nodeLevel node L hL]

theorem Represents.recomputePastSnapshot_snd (h : Represents th t xs) (hs0 : 0 < s)
    (hsp : s ≤ t.leavesProcessed) (nodeLevel : Nat) (node : Option ByteString) :
    (recomputePastSnapshot th t s nodeLevel node).2 = recorded th xs s nodeLevel node (levelsFor s) := by
  rcases Nat.lt_or_eq_of_le hsp with hlt | heq
  · rw [h.recomputePastSnapshot_eq hs0 hlt]
  · -- nothing to recompute: the spine node is the last node of its level
    have hs : s ≤ xs.length := heq ▸ h.leavesProcessed_le
    have hspine : nodeLevel < levelsFor s → (if nodeLevel > 0 then some (t.lastNode nodeLevel)
        else some (t.node nodeLevel (s - 1))) = some (lastNodeAt th xs s nodeLevel) := by
      intro hlev
      split_ifs with hpos
      · rw [MerkleTree.lastNode, h.tree_eq, getD_map_range, ← heq, if_pos hlev,
          lazyLevel_of_pos th xs hpos]
        rfl
      · rw [Nat.eq_zero_of_not_pos hpos, h.node_eq (s := s) (by omega) hsp,
          lastNodeAt_eq_getD hs0 hs, Nat.shiftRight_zero]
    unfold recomputePastSnapshot
    rw [if_pos heq]
    dsimp only
    rw [h.lazyLevelCount, ← heq, recorded]
    by_cases hask : node.isSome = true ∧ nodeLevel < levelsFor s
    · rw [if_pos hask, if_pos hask, hspine hask.2]
    · rw [if_neg hask, if_neg hask]

end Recompute

section Queries

variable {th} {t : MerkleTree} {xs : List ByteString} {s : Nat}

theorem Represents.pathLoop_eq (h : Represents th t xs) (hs0 : 0 < s)
    (hsp : s ≤ t.leavesProcessed) (hs : s ≤ xs.length) (node l : Nat)
    (hnode : node ≤ (s - 1) >>> l) :
    pathLoop th t s node l ((s - 1) >>> l) =
      path th.hashChildren th.hashEmpty node (level th.hashChildren (xs.take s) l) := by
  have hlen := length_level_take th.hashChildren hs0 hs l
  rw [pathLoop]
  by_cases hzero : (s - 1) >>> l = 0
  · rw [if_pos hzero, path_of_length_le _ _ _ (Or.inl (by omega))]
  · rw [if_neg hzero]
    have hhere : (if MerkleTreeMath.sibling node < (s - 1) >>> l then
          [t.node l (MerkleTreeMath.sibling node)]
        else if MerkleTreeMath.sibling node = (s - 1) >>> l then
          [((recomputePastSnapshot th t s l (some [])).2).getD []]
        else []) = LeftBalanced.sibling (level th.hashChildren (xs.take s) l) node := by
      rw [sibling_eq_getElem?]
      by_cases hlt : MerkleTreeMath.sibling node < (s - 1) >>> l
      · -- a sibling left of the spine is read off the tree
        have hblock : 2 ^ l * (MerkleTreeMath.sibling node + 1) ≤ s := by
          have hle := Nat.mul_le_mul_left (2 ^ l)
            (show MerkleTreeMath.sibling node + 1 ≤ (s - 1) >>> l by omega)
          exact le_trans hle (le_trans (two_pow_mul_shiftRight_le (s - 1) l) (Nat.sub_le s 1))
        rw [if_pos hlt, List.getElem?_eq_getElem (by omega), Option.toList_some,
          h.node_eq hblock hsp, List.getD_eq_getElem]
      · rw [if_neg hlt]
        by_cases heq : MerkleTreeMath.sibling node = (s - 1) >>> l
        · -- the spine node is recomputed
          have hlev : l < levelsFor s := lt_levelsFor_of_two_pow_le
            (le_trans (two_pow_le_of_shiftRight_ne_zero hzero) (Nat.sub_le s 1))
          rw [if_pos heq, h.recomputePastSnapshot_snd hs0 hsp, recorded, if_pos ⟨rfl, hlev⟩,
            Option.getD_some, lastNodeAt_eq_getD hs0 hs, ← heq,
            List.getElem?_eq_getElem (by omega), Option.toList_some, List.getD_eq_getElem]
        · rw [if_neg heq, List.getElem?_eq_none (by omega)]
          rfl
    dsimp only
    rw [hhere, path_eq_sibling_append th.hashChildren th.hashEmpty (by omega), ← level_succ,
      parent_eq, parent_eq, ← Nat.shiftRight_succ]
    congr 1
    exact h.pathLoop_eq hs0 hsp hs (node / 2) (l + 1) (by rw [Nat.shiftRight_succ]; omega)
termination_by (s - 1) >>> l
decreasing_by
  rw [Nat.shiftRight_succ]
  exact Nat.div_lt_self (Nat.pos_of_ne_zero hzero) (by decide)

theorem Represents.catchUp (h : Represents th t xs) (hs : s ≤ xs.length) :
    Represents th (if s > t.leavesProcessed then (MerkleTree.updateToSnapshot th t s).2 else t) xs ∧
      s ≤ (if s > t.leavesProcessed then (MerkleTree.updateToSnapshot th t s).2
        else t).leavesProcessed := by
  by_cases hlt : s > t.leavesProcessed
  · rw [if_pos hlt]
    obtain ⟨h', hp⟩ := h.updateToSnapshot hlt.le hs
    exact ⟨h', hp.ge⟩
  · rw [if_neg hlt]
    exact ⟨h, by omega⟩

theorem Represents.pathFromNodeToRootAtSnapshot_represents (h : Represents th t xs)
    (node l s : Nat) : Represents th (pathFromNodeToRootAtSnapshot th t node l s).2 xs := by
  unfold pathFromNodeToRootAtSnapshot
  by_cases h0 : s = 0
  · rw [if_pos h0]
    exact h
  · rw [if_neg h0]
    dsimp only
    by_cases hguard : l ≥ t.levelCount ∨ node > (s - 1) >>> l ∨ s > t.leafCount
    · rw [if_pos hguard]
      exact h
    · rw [if_neg hguard]
      rw [h.leafCount] at hguard
      exact (h.catchUp (by omega)).1

theorem Represents.pathFromNodeToRootAtSnapshot_fst (h : Represents th t xs) {node l : Nat}
    (hs0 : 0 < s) (hs : s ≤ xs.length) (hl : l < levelsFor xs.length)
    (hnode : node ≤ (s - 1) >>> l) :
    (pathFromNodeToRootAtSnapshot th t node l s).1 =
      path th.hashChildren th.hashEmpty node (level th.hashChildren (xs.take s) l) := by
  have hguard : ¬(l ≥ t.levelCount ∨ node > (s - 1) >>> l ∨ s > t.leafCount) := by
    rw [h.levelCount_eq, h.leafCount]
    omega
  unfold pathFromNodeToRootAtSnapshot
  rw [if_neg (Nat.pos_iff_ne_zero.mp hs0)]
  dsimp only
  rw [if_neg hguard]
  obtain ⟨h', hp'⟩ := h.catchUp hs
  exact h'.pathLoop_eq hs0 hp' hs node l hnode

theorem Represents.rootAtSnapshot (h : Represents th t xs) (s : Nat) :
    (rootAtSnapshot th t s).1 = (if s = 0 then th.hashEmpty
        else if s ≤ xs.length then LeftBalanced.root th.hashChildren th.hashEmpty (xs.take s)
        else []) ∧
      Represents th (rootAtSnapshot th t s).2 xs := by
  unfold MerkleTree.rootAtSnapshot
  rw [h.leafCount]
  by_cases h0 : s = 0
  · rw [if_pos h0, if_pos h0]
    exact ⟨rfl, h⟩
  rw [if_neg h0, if_neg h0]
  by_cases hgt : s > xs.length
  · rw [if_pos hgt, if_neg (Nat.not_le.mpr hgt)]
    exact ⟨rfl, h⟩
  have hs : s ≤ xs.length := Nat.not_lt.mp hgt
  rw [if_neg hgt, if_pos hs]
  by_cases hps : s ≥ t.leavesProcessed
  · rw [if_pos hps]
    exact ⟨h.updateToSnapshot_fst hps hs, (h.updateToSnapshot hps hs).1⟩
  · rw [if_neg hps, h.recomputePastSnapshot_eq (Nat.pos_of_ne_zero h0) (Nat.not_le.mp hps)]
    exact ⟨rfl, h⟩

theorem Represents.pathToRootAtSnapshot (h : Represents th t xs) (leaf s : Nat) :
    (pathToRootAtSnapshot th t leaf s).1 =
        (if 0 < leaf ∧ leaf ≤ s ∧ s ≤ xs.length then
          path th.hashChildren th.hashEmpty (leaf - 1) (xs.take s) else []) ∧
      Represents th (pathToRootAtSnapshot th t leaf s).2 xs := by
  unfold MerkleTree.pathToRootAtSnapshot
  rw [h.leafCount]
  by_cases hguard : leaf > s ∨ s > xs.length ∨ leaf = 0
  · have hbad : ¬(0 < leaf ∧ leaf ≤ s ∧ s ≤ xs.length) := by omega
    rw [if_pos hguard, if_neg hbad]
    exact ⟨rfl, h⟩
  · have hgood : 0 < leaf ∧ leaf ≤ s ∧ s ≤ xs.length := by omega
    rw [if_neg hguard, if_pos hgood]
    have hl : 0 < levelsFor xs.length := lt_levelsFor_of_two_pow_le (by simp; omega)
    refine ⟨?_, h.pathFromNodeToRootAtSnapshot_represents _ _ _⟩
    rw [h.pathFromNodeToRootAtSnapshot_fst (by omega) (by omega) hl
      (by rw [Nat.shiftRight_zero]; omega), level_zero]

theorem climbRightChildren_eq (x l : Nat) :
    ∃ k, climbRightChildren x l = (x >>> k, l + k) ∧ x >>> k % 2 = 0 ∧
      x + 1 = 2 ^ k * (x >>> k + 1) := by
  rw [climbRightChildren]
  by_cases hodd : isRightChild x = true
  · rw [if_pos hodd]
    have hx : x % 2 = 1 := (isRightChild_eq_true_iff x).mp hodd
    obtain ⟨k, hk, heven, hblock⟩ := climbRightChildren_eq (parent x) (l + 1)
    rw [parent_eq] at hk heven hblock
    obtain ⟨heven', hblock'⟩ := rightChild_block_succ hx heven hblock
    refine ⟨k + 1, ?_, heven', hblock'⟩
    rw [parent_eq, hk, Nat.shiftRight_succ_inside, Nat.add_right_comm, Nat.add_assoc]
  · rw [if_neg hodd]
    refine ⟨0, by simp, ?_, by simp⟩
    simp only [isRightChild_eq_true_iff] at hodd
    simpa using hodd
termination_by x
decreasing_by
  simp only [parent_eq]
  have := (isRightChild_eq_true_iff x).mp hodd
  omega

theorem Represents.snapshotConsistency (h : Represents th t xs) (m n : Nat) :
    (snapshotConsistency th t m n).1 =
        (if 0 < m ∧ m < n ∧ n ≤ xs.length then
          consistencyProof th.hashChildren th.hashEmpty m (xs.take n) else []) ∧
      Represents th (snapshotConsistency th t m n).2 xs := by
  unfold MerkleTree.snapshotConsistency
  rw [h.leafCount]
  by_cases hguard : m = 0 ∨ m ≥ n ∨ n > xs.length
  · have hbad : ¬(0 < m ∧ m < n ∧ n ≤ xs.length) := by omega
    rw [if_pos hguard, if_neg hbad]
    exact ⟨rfl, h⟩
  have hgood : 0 < m ∧ m < n ∧ n ≤ xs.length := by omega
  rw [if_neg hguard, if_pos hgood]
  obtain ⟨k, hclimb, heven, hblock⟩ := climbRightChildren_eq (m - 1) 0
  generalize (m - 1) >>> k = node at hclimb heven hblock
  rw [hclimb, Nat.zero_add]
  dsimp only
  obtain ⟨h', hp'⟩ := h.catchUp (s := n) hgood.2.2
  have hm : m = 2 ^ k * (node + 1) := by omega
  have hk : 2 ^ k ≤ m := hm ▸ Nat.le_mul_of_pos_right _ (Nat.succ_pos _)
  have hlt : node < (n - 1) >>> k := by
    have hle : (node + 1) * 2 ^ k ≤ n - 1 := by
      rw [Nat.mul_comm]
      omega
    rw [Nat.shiftRight_eq_div_pow]
    exact Nat.lt_of_lt_of_le (Nat.lt_succ_self node)
      ((Nat.le_div_iff_mul_le (Nat.two_pow_pos k)).mpr hle)
  have hlen := length_level_take th.hashChildren (s := n) (by omega) hgood.2.2 k
  have hmn : m < (xs.take n).length := by
    rw [List.length_take, Nat.min_eq_left hgood.2.2]
    omega
  refine ⟨?_, h'.pathFromNodeToRootAtSnapshot_represents _ _ _⟩
  rw [h'.pathFromNodeToRootAtSnapshot_fst (by omega) hgood.2.2
      (lt_levelsFor_of_two_pow_le (by omega)) hlt.le,
    consistencyProof_eq_path th.hashChildren th.hashEmpty hm heven hmn]
  congr 1
  by_cases hzero : node = 0
  · rw [if_neg (not_not.mpr hzero), if_pos hzero]
  · -- the root of the old tree's last complete subtree is recorded first
    have hblk : 2 ^ k * (node + 1) ≤ n := by omega
    have hget : (level th.hashChildren (xs.take n) k)[node]? =
        some ((level th.hashChildren (xs.take n) k).getD node []) := by
      rw [List.getD_eq_getElem _ _ (by omega)]
      exact List.getElem?_eq_getElem _
    rw [if_pos hzero, if_neg hzero, hget, Option.toList_some, h'.node_eq hblk hp']

end Queries

section Runs

variable {th}

theorem addedLeaves_cons (op : Op) (ops : List Op) :
    addedLeaves th (op :: ops) = addedLeaves th [op] ++ addedLeaves th ops := by
  cases op <;> rfl

theorem Represents.step {t : MerkleTree} {xs : List ByteString} (h : Represents th t xs)
    (op : Op) : Represents th (MerkleTree.step th t op) (xs ++ addedLeaves th [op]) := by
  cases op with
  | addLeaf data => exact (h.addLeafHash (th.hashLeaf data)).2
  | addLeafHash hash => exact (h.addLeafHash hash).2
  | currentRoot =>
      simpa only [MerkleTree.step, currentRoot, addedLeaves, List.append_nil] using
        (h.rootAtSnapshot t.leafCount).2
  | rootAtSnapshot s =>
      simpa only [MerkleTree.step, addedLeaves, List.append_nil] using (h.rootAtSnapshot s).2
  | pathToCurrentRoot leaf =>
      simpa only [MerkleTree.step, pathToCurrentRoot, addedLeaves, List.append_nil] using
        (h.pathToRootAtSnapshot leaf t.leafCount).2
  | pathToRootAtSnapshot leaf s =>
      simpa only [MerkleTree.step, addedLeaves, List.append_nil] using (h.pathToRootAtSnapshot leaf s).2
  | snapshotConsistency m n =>
      simpa only [MerkleTree.step, addedLeaves, List.append_nil] using (h.snapshotConsistency m n).2

theorem Represents.foldl_step {t : MerkleTree} {xs : List ByteString} (h : Represents th t xs)
    (ops : List Op) :
    Represents th (ops.foldl (MerkleTree.step th) t) (xs ++ addedLeaves th ops) := by
  induction ops generalizing t xs with
  | nil => simpa [addedLeaves] using h
  | cons op ops ih =>
      rw [List.foldl_cons, addedLeaves_cons, ← List.append_assoc]
      exact ih (h.step op)

theorem represents_run (ops : List Op) : Represents th (run th ops) (addedLeaves th ops) := by
  simpa [run] using represents_empty.foldl_step ops

theorem Represents.currentRoot_fst {t : MerkleTree} {xs : List ByteString}
    (h : Represents th t xs) :
    (MerkleTree.currentRoot th t).1 = LeftBalanced.root th.hashChildren th.hashEmpty xs := by
  rw [MerkleTree.currentRoot, (h.rootAtSnapshot _).1, h.leafCount]
  by_cases h0 : xs.length = 0
  · rw [if_pos h0, List.length_eq_zero_iff.mp h0, root_nil]
  · rw [if_neg h0, if_pos le_rfl, List.take_length]

theorem rootAtSnapshot_run (ops : List Op) (k : Nat) :
    (rootAtSnapshot th (run th ops) k).1 =
      if k = 0 then th.hashEmpty
      else if k ≤ (addedLeaves th ops).length then
        LeftBalanced.root th.hashChildren th.hashEmpty ((addedLeaves th ops).take k)
      else [] :=
  ((represents_run ops).rootAtSnapshot k).1

theorem pathToRootAtSnapshot_run (ops : List Op) (m n : Nat) :
    (pathToRootAtSnapshot th (run th ops) m n).1 =
      if 0 < m ∧ m ≤ n ∧ n ≤ (addedLeaves th ops).length then
        path th.hashChildren th.hashEmpty (m - 1) ((addedLeaves th ops).take n)
      else [] :=
  ((represents_run ops).pathToRootAtSnapshot m n).1

/-- `LevelCount()` after any operations is `⌈log₂ n⌉ + 1` for `n` leaves (none for an
empty tree), the number of leaf counts at which `IsPowerOfTwoPlusOne` held, and the
number of levels `UpdateToSnapshot(n)` evaluates. -/
theorem levelCount_run (ops : List Op) :
    ((run th ops).levelCount =
        if (addedLeaves th ops).length = 0 then 0
        else Nat.clog 2 (addedLeaves th ops).length + 1) ∧
      (run th ops).levelCount =
        (List.range (addedLeaves th ops).length).countP (fun k => isPowerOfTwoPlusOne (k + 1)) ∧
      (updateToSnapshot th (run th ops) (addedLeaves th ops).length).2.lazyLevelCount =
        (run th ops).levelCount := by
  have h : Represents th (run th ops) (addedLeaves th ops) := represents_run ops
  refine ⟨?_, ?_, h.lazyLevelCount_updateToSnapshot⟩
  · rw [h.levelCount_eq]
    split_ifs with h0
    · rw [h0]
      rfl
    · exact levelsFor_eq_clog (Nat.pos_of_ne_zero h0)
  · rw [h.levelCount_eq, levelsFor_eq_countP]

theorem snapshotConsistency_run (ops : List Op) (m n : Nat) :
    (snapshotConsistency th (run th ops) m n).1 =
      if 0 < m ∧ m < n ∧ n ≤ (addedLeaves th ops).length then
        consistencyProof th.hashChildren th.hashEmpty m ((addedLeaves th ops).take n)
      else [] :=
  ((represents_run ops).snapshotConsistency m n).1

end Runs

end MerkleTree

end CertTrans
