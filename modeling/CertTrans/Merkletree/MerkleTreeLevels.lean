import CertTrans.Merkletree.MerkleTree

/-!
The representation invariant of `MerkleTree`, after the comment on `tree_` and
`leaves_processed_` in `merkle_tree.h`, and the proof that `AddLeafHash` and
`UpdateToSnapshot` keep it.

Level 0 of `tree_` holds every leaf hash.  Above it, level `l` holds the
level-`l` nodes of the tree over the first `leaves_processed_` leaves, the
last of them a dummy copy when it has no sibling: that is `LeftBalanced.level`
of those leaves.  `UpdateToSnapshot` rebuilds each level from the parent of
the first new node on, one round of its loop per level; the loop invariant is
`midLevels`, under which the levels up to the current one already reflect the
new snapshot and those above it still the old one.
-/

namespace CertTrans

section RangeMap

variable {β : Type*} (f : Nat → β)

theorem getD_map_range (n i : Nat) (d : β) :
    ((List.range n).map f).getD i d = if i < n then f i else d := by
  rw [List.getD_eq_getElem?_getD, List.getElem?_map]
  by_cases hi : i < n
  · rw [List.getElem?_range hi, if_pos hi]
    rfl
  · rw [List.getElem?_eq_none (by simpa using hi), if_neg hi]
    rfl

theorem modify_map_range (g : β → β) (n i : Nat) :
    ((List.range n).map f).modify i g = (List.range n).map (Function.update f i (g (f i))) := by
  apply List.ext_getElem
  · simp
  · intro j h₁ h₂
    simp only [List.getElem_modify, List.getElem_map, List.getElem_range]
    by_cases hij : i = j
    · subst hij
      simp
    · rw [if_neg hij, Function.update_of_ne (Ne.symm hij)]

theorem map_range_append (n : Nat) (x : β) :
    (List.range n).map f ++ [x] = (List.range (n + 1)).map (Function.update f n x) := by
  rw [List.range_succ, List.map_append, List.map_singleton, Function.update_self]
  congr 1
  refine List.map_congr_left fun i hi => ?_
  rw [Function.update_of_ne (by simp at hi; omega)]

theorem getLastD_map_range (n : Nat) (d : β) :
    ((List.range n).map f).getLastD d = if n = 0 then d else f (n - 1) := by
  rcases n with _ | n
  · rfl
  · rw [List.range_succ, List.map_append, List.map_singleton, List.getLastD_eq_getLast?,
      List.getLast?_append, List.getLast?_singleton]
    simp

theorem drop_take_eq_cons_cons (ys : List β) {j k : Nat} (hj : j + 1 < k) (hk : k ≤ ys.length)
    (d : β) : (ys.take k).drop j = ys.getD j d :: ys.getD (j + 1) d :: (ys.take k).drop (j + 2) := by
  rw [List.drop_eq_getElem_cons (by simp; omega), List.drop_eq_getElem_cons (by simp; omega),
    List.getElem_take, List.getElem_take, List.getD_eq_getElem _ _ (by omega),
    List.getD_eq_getElem _ _ (by omega)]

theorem getD_modify_ne (ys : List β) (g : β → β) {i j : Nat} (h : i ≠ j) (d : β) :
    (ys.modify i g).getD j d = ys.getD j d := by
  rw [List.getD_eq_getElem?_getD, List.getElem?_modify_ne _ _ h, ← List.getD_eq_getElem?_getD]

theorem set_map_range (n i : Nat) (x : β) :
    ((List.range n).map f).set i x = (List.range n).map (Function.update f i x) := by
  rw [List.set_eq_modify, modify_map_range]

theorem map_range_congr {f g : Nat → β} {n : Nat} (h : ∀ i < n, f i = g i) :
    (List.range n).map f = (List.range n).map g :=
  List.map_congr_left fun i hi => h i (List.mem_range.mp hi)

theorem update_ite_lt (g : Nat → β) (l : Nat) :
    Function.update (fun j => if j < l then f j else g j) l (f l) =
      fun j => if j < l + 1 then f j else g j := by
  funext j
  by_cases hj : j = l
  · subst hj
    rw [Function.update_self, if_pos (Nat.lt_succ_self j)]
  · rw [Function.update_of_ne hj]
    by_cases hjl : j < l
    · rw [if_pos hjl, if_pos (by omega)]
    · rw [if_neg hjl, if_neg (by omega)]

theorem update_ite_lt_succ (g : Nat → β) (l : Nat) :
    Function.update (fun j => if j < l + 1 then f j else g j) l (g l) =
      fun j => if j < l then f j else g j := by
  rw [← update_ite_lt f g l, Function.update_idem]
  exact Function.update_eq_self_iff.mpr (if_neg (lt_irrefl l)).symm

theorem ite_lt_succ_of_eq (g : Nat → β) {l : Nat} (h : f l = g l) :
    (fun j => if j < l + 1 then f j else g j) = fun j => if j < l then f j else g j := by
  rw [← update_ite_lt f g l, h]
  exact Function.update_eq_self_iff.mpr (if_neg (lt_irrefl l)).symm

end RangeMap

namespace MerkleTree

open LeftBalanced MerkleTreeMath

section Storage

variable (t : MerkleTree)

@[simp] theorem pushBack_tree (level : Nat) (node : ByteString) :
    (t.pushBack level node).tree = t.tree.modify level (· ++ [node]) := rfl

theorem pushBack_eq (level : Nat) (node : ByteString) :
    t.pushBack level node = { t with tree := t.tree.modify level (· ++ [node]) } := rfl

theorem popBack_eq (level : Nat) :
    t.popBack level = { t with tree := t.tree.modify level List.dropLast } := rfl

theorem addLevel_eq : t.addLevel = { t with tree := t.tree ++ [[]] } := rfl

theorem eq_with_tree {tree : List (List ByteString)} (h : t.tree = tree) :
    t = { t with tree := tree } := by
  cases t
  cases h
  rfl

end Storage

variable (th : TreeHasher)

def lazyLevel (xs : List ByteString) (p l : Nat) : List ByteString :=
  if l = 0 then xs else level th.hashChildren (xs.take p) l

/-- `t` holds the leaf hashes `xs`: its upper levels are those of the first
`leaves_processed_` leaves, and `level_count_` counts the levels of the tree
over all of them. -/
structure Represents (t : MerkleTree) (xs : List ByteString) : Prop where
  levelCount_eq : t.levelCount = levelsFor xs.length
  leavesProcessed_le : t.leavesProcessed ≤ xs.length
  leavesProcessed_pos : xs ≠ [] → 0 < t.leavesProcessed
  tree_eq : t.tree =
    (List.range (levelsFor t.leavesProcessed)).map (lazyLevel th xs t.leavesProcessed)

@[simp] theorem lazyLevel_zero (xs : List ByteString) (p : Nat) : lazyLevel th xs p 0 = xs := rfl

theorem lazyLevel_of_pos (xs : List ByteString) {p l : Nat} (hl : 0 < l) :
    lazyLevel th xs p l = level th.hashChildren (xs.take p) l := by
  rw [lazyLevel, if_neg (by omega)]

theorem take_lazyLevel (xs : List ByteString) {p s l q : Nat} (hp : 2 ^ l * q ≤ p)
    (hs : 2 ^ l * q ≤ s) :
    (lazyLevel th xs p l).take q = (level th.hashChildren (xs.take s) l).take q := by
  rcases Nat.eq_zero_or_pos l with rfl | hl
  · simp only [lazyLevel_zero, level_zero, List.take_take, Nat.min_def]
    rw [if_pos (by simpa using hs)]
  · rw [lazyLevel_of_pos th xs hl, level_take_take _ xs hp, level_take_take _ xs hs]

theorem getD_lazyLevel (xs : List ByteString) {p s l i : Nat} (hp : 2 ^ l * (i + 1) ≤ p)
    (hs : 2 ^ l * (i + 1) ≤ s) (d : ByteString) :
    (lazyLevel th xs p l).getD i d = (level th.hashChildren (xs.take s) l).getD i d := by
  have htake := take_lazyLevel th xs hp hs
  rw [List.getD_eq_getElem?_getD, List.getD_eq_getElem?_getD, ← List.getElem?_take_of_succ,
    htake, List.getElem?_take_of_succ]

theorem take_lazyLevel_self (xs : List ByteString) {s l : Nat} (hs0 : 0 < s)
    (hs : s ≤ xs.length) :
    (lazyLevel th xs s l).take ((s - 1) >>> l + 1) = level th.hashChildren (xs.take s) l := by
  rcases Nat.eq_zero_or_pos l with rfl | hl
  · simp only [lazyLevel_zero, level_zero, Nat.shiftRight_zero]
    rw [Nat.sub_add_cancel hs0]
  · have hne : xs.take s ≠ [] := List.ne_nil_of_length_pos (by simp; omega)
    have hlen := length_level th.hashChildren (xs.take s) hne l
    rw [List.length_take, Nat.min_eq_left hs] at hlen
    rw [lazyLevel_of_pos th xs hl, ← hlen, List.take_length]

section Invariant

variable {th} {t : MerkleTree} {xs : List ByteString}

theorem represents_empty : Represents th empty [] where
  levelCount_eq := rfl
  leavesProcessed_le := le_refl 0
  leavesProcessed_pos h := absurd rfl h
  tree_eq := rfl

theorem Represents.lazyLevelCount (h : Represents th t xs) :
    t.lazyLevelCount = levelsFor t.leavesProcessed := by
  simp [MerkleTree.lazyLevelCount, h.tree_eq]

theorem Represents.leafCount (h : Represents th t xs) : t.leafCount = xs.length := by
  unfold MerkleTree.leafCount nodeCount
  by_cases hxs : xs = []
  · subst hxs
    have hp : t.leavesProcessed = 0 := Nat.le_zero.mp h.leavesProcessed_le
    rw [if_pos (by rw [h.tree_eq, hp]; rfl)]
    rfl
  · have hp := h.leavesProcessed_pos hxs
    have hlev : 0 < levelsFor t.leavesProcessed := by rw [levelsFor_pos hp]; omega
    rw [if_neg (by rw [h.tree_eq]; simp; omega), h.tree_eq, getD_map_range, if_pos hlev,
      lazyLevel_zero]

theorem Represents.leafHash (h : Represents th t xs) {leaf : Nat} (h0 : 0 < leaf)
    (hleaf : leaf ≤ xs.length) : t.leafHash leaf = xs.getD (leaf - 1) [] := by
  have hp := h.leavesProcessed_pos (List.ne_nil_of_length_pos (by omega))
  have hlev : 0 < levelsFor t.leavesProcessed := by
    rw [levelsFor_pos hp]
    omega
  rw [MerkleTree.leafHash, h.leafCount, if_neg (by omega), MerkleTree.node, h.tree_eq,
    getD_map_range, if_pos hlev, lazyLevel_zero]

theorem Represents.node_eq (h : Represents th t xs) {s l i : Nat}
    (hblock : 2 ^ l * (i + 1) ≤ s) (hs : s ≤ t.leavesProcessed) :
    t.node l i = (level th.hashChildren (xs.take s) l).getD i [] := by
  have hp : 2 ^ l * (i + 1) ≤ t.leavesProcessed := le_trans hblock hs
  have hpow : 2 ^ l ≤ t.leavesProcessed := le_trans (Nat.le_mul_of_pos_right _ (by omega)) hp
  rw [MerkleTree.node, h.tree_eq, getD_map_range, if_pos (lt_levelsFor_of_two_pow_le hpow)]
  exact getD_lazyLevel th xs hp hblock []

theorem Represents.root_eq (h : Represents th t xs) (hp : 2 ≤ t.leavesProcessed) :
    t.root = LeftBalanced.root th.hashChildren th.hashEmpty (xs.take t.leavesProcessed) := by
  have hsize : 0 < Nat.size (t.leavesProcessed - 1) := Nat.size_pos.mpr (by omega)
  have hle := h.leavesProcessed_le
  have hne : xs.take t.leavesProcessed ≠ [] := List.ne_nil_of_length_pos (by simp; omega)
  have hfit : (xs.take t.leavesProcessed).length ≤ 2 ^ Nat.size (t.leavesProcessed - 1) := by
    have := Nat.lt_size_self (t.leavesProcessed - 1)
    rw [List.length_take, Nat.min_eq_left hle]
    omega
  rw [MerkleTree.root, h.tree_eq, getLastD_map_range, levelsFor_pos (by omega), if_neg (by omega),
    Nat.add_sub_cancel, lazyLevel_of_pos th xs hsize, level_eq_singleton_root th.hashChildren th.hashEmpty hne hfit]
  simp

theorem Represents.addLeafHash {t : MerkleTree} {xs : List ByteString} (h : Represents th t xs)
    (hash : ByteString) :
    (t.addLeafHash hash).1 = xs.length + 1 ∧ Represents th (t.addLeafHash hash).2 (xs ++ [hash]) := by
  by_cases hxs : xs = []
  · -- the first leaf also creates level 0
    subst hxs
    obtain ⟨tree, p, levelCount⟩ := t
    have hp : p = 0 := Nat.le_zero.mp h.leavesProcessed_le
    have hlc : levelCount = 0 := h.levelCount_eq
    subst hp hlc
    have htree : tree = [] := h.tree_eq
    subst htree
    refine ⟨rfl, ⟨rfl, le_refl 1, fun _ => Nat.one_pos, ?_⟩⟩
    rfl
  · have hp := h.leavesProcessed_pos hxs
    have hlc : t.lazyLevelCount ≠ 0 := by rw [h.lazyLevelCount, levelsFor_pos hp]; omega
    have htree : (t.pushBack 0 hash).tree = (List.range (levelsFor t.leavesProcessed)).map
        (lazyLevel th (xs ++ [hash]) t.leavesProcessed) := by
      rw [pushBack_tree, h.tree_eq, modify_map_range]
      refine map_range_congr fun i _ => ?_
      rcases Nat.eq_zero_or_pos i with rfl | hi
      · rfl
      · rw [Function.update_of_ne (by omega), lazyLevel_of_pos th _ hi, lazyLevel_of_pos th _ hi,
          List.take_append_of_le_length h.leavesProcessed_le]
    have hcount : (t.pushBack 0 hash).leafCount = xs.length + 1 := by
      unfold MerkleTree.leafCount nodeCount
      have hlev : 0 < levelsFor t.leavesProcessed := by rw [levelsFor_pos hp]; omega
      rw [if_neg (by rw [htree]; simp; omega), htree, getD_map_range, if_pos hlev,
        lazyLevel_zero, List.length_append, List.length_singleton]
    have hstate : (t.addLeafHash hash).2 = { t.pushBack 0 hash with
        levelCount := if isPowerOfTwoPlusOne (xs.length + 1) then t.levelCount + 1
          else t.levelCount } := by
      simp only [MerkleTree.addLeafHash, if_neg hlc, hcount]
      split_ifs <;> rfl
    refine ⟨by simp only [MerkleTree.addLeafHash, if_neg hlc, hcount], ?_⟩
    rw [hstate]
    refine ⟨?_, ?_, fun _ => hp, htree⟩
    · rw [List.length_append, List.length_singleton, levelsFor_succ, h.levelCount_eq]
    · have := h.leavesProcessed_le
      simp only [pushBack_eq, List.length_append, List.length_singleton]
      omega

end Invariant

section Update

def midLevel (xs : List ByteString) (p s l i : Nat) : List ByteString :=
  if i ≤ l then lazyLevel th xs s i else lazyLevel th xs p i

def midLevels (xs : List ByteString) (p s l : Nat) : List (List ByteString) :=
  (List.range (max (levelsFor p) (l + 1))).map (midLevel th xs p s l)

theorem two_pow_mul_shiftRight_le (p l : Nat) : 2 ^ l * (p >>> l) ≤ p := by
  rw [Nat.shiftRight_eq_div_pow]
  exact Nat.mul_div_le p (2 ^ l)

theorem prepareParentLevel_eq {xs : List ByteString} {p s l : Nat} {t : MerkleTree}
    (hp : 0 < p) (hpx : p ≤ xs.length) (ht : t.tree = midLevels th xs p s l) :
    prepareParentLevel l (p >>> l) t = { t with tree :=
      (List.range (max (levelsFor p) (l + 2))).map (Function.update (midLevel th xs p s l) (l + 1)
        ((level th.hashChildren xs (l + 1)).take (p >>> (l + 1)))) } := by
  have hcount : t.lazyLevelCount = max (levelsFor p) (l + 1) := by
    simp [MerkleTree.lazyLevelCount, ht, midLevels]
  have hparent : parent (p >>> l) = p >>> (l + 1) := by rw [parent_eq, Nat.shiftRight_succ]
  have hblock := two_pow_mul_shiftRight_le p (l + 1)
  unfold prepareParentLevel
  rw [hcount, hparent]
  split_ifs with hnew hstale
  · -- level `l + 1` is new, and no parent of the first `p` leaves is complete yet
    have hsize : Nat.size (p - 1) ≤ l := by rw [levelsFor_pos hp] at hnew; omega
    have hzero : p >>> (l + 1) = 0 := by
      have hlt := Nat.size_le.mp hsize
      rw [Nat.shiftRight_eq_div_pow]
      exact Nat.div_eq_of_lt (by rw [Nat.pow_succ]; omega)
    rw [addLevel_eq, ht, midLevels, map_range_append, hzero, List.take_zero,
      show max (levelsFor p) (l + 1) = l + 1 by omega,
      show max (levelsFor p) (l + 2) = l + 1 + 1 by omega]
  · -- the last parent may be stale: it is dropped
    have hentry : t.tree.getD (l + 1) [] = level th.hashChildren (xs.take p) (l + 1) := by
      rw [ht, midLevels, getD_map_range, if_pos (by omega), midLevel, if_neg (by omega),
        lazyLevel_of_pos th xs (by omega)]
    have hlen := length_level th.hashChildren (xs.take p) (List.ne_nil_of_length_pos
      (by simp; omega)) (l + 1)
    rw [List.length_take, Nat.min_eq_left hpx] at hlen
    rw [nodeCount, hentry, hlen] at hstale
    rw [popBack_eq, ht, midLevels, modify_map_range,
      show max (levelsFor p) (l + 1) = max (levelsFor p) (l + 2) by omega]
    congr 3
    rw [midLevel, if_neg (by omega), lazyLevel_of_pos th xs (by omega), List.dropLast_eq_take,
      hlen, show (p - 1) >>> (l + 1) + 1 - 1 = p >>> (l + 1) by omega,
      level_take_take _ xs hblock]
  · -- the last parent is complete and stays
    have hentry : midLevel th xs p s l (l + 1) = level th.hashChildren (xs.take p) (l + 1) := by
      rw [midLevel, if_neg (by omega), lazyLevel_of_pos th xs (by omega)]
    have hlen := length_level th.hashChildren (xs.take p) (List.ne_nil_of_length_pos
      (by simp; omega)) (l + 1)
    rw [List.length_take, Nat.min_eq_left hpx] at hlen
    rw [nodeCount, ht, midLevels, getD_map_range, if_pos (by omega), hentry, hlen] at hstale
    have hmono : (p - 1) >>> (l + 1) ≤ p >>> (l + 1) :=
      shiftRight_le_shiftRight (Nat.sub_le p 1) (l + 1)
    rw [← level_take_take _ xs hblock, List.take_of_length_le (by omega), ← hentry,
      Function.update_eq_self, show max (levelsFor p) (l + 2) = max (levelsFor p) (l + 1) by omega,
      ← midLevels, ← ht]

theorem pushParents_eq (level j lastNode : Nat) (t : MerkleTree) (hj : j % 2 = 0)
    (hlast : lastNode < (t.tree.getD level []).length) :
    pushParents th level j lastNode t =
      { t with tree := t.tree.modify (level + 1) (· ++ pairUp th.hashChildren
          (((t.tree.getD level []).take (2 * ((lastNode + 1) / 2))).drop j)) } := by
  rw [pushParents]
  split_ifs with hlt
  · -- the pair `j`, `j + 1` is hashed, the pairs after it by the recursive call
    have hkeep : (t.pushBack (level + 1) (th.hashChildren (t.node level j)
        (t.node level (j + 1)))).tree.getD level [] = t.tree.getD level [] := by
      rw [pushBack_tree, List.getD_eq_getElem?_getD, List.getElem?_modify_ne _ _ (by omega),
        ← List.getD_eq_getElem?_getD]
    rw [pushParents_eq level (j + 2) lastNode _ (by omega) (by rwa [hkeep]), hkeep, pushBack_tree,
      List.modify_modify_eq, drop_take_eq_cons_cons _ (j := j) (by omega) (by omega) [],
      pairUp_cons_cons]
    simp only [Function.comp_def, List.append_assoc, List.singleton_append]
    rfl
  · -- no complete pair is left
    rw [List.drop_eq_nil_of_le (by simp; omega), pairUp_nil]
    rw [show (· ++ []) = @id (List ByteString) from funext List.append_nil, List.modify_id]
termination_by lastNode - j

theorem dummyPropagate_eq (level lastNode : Nat) (t : MerkleTree) :
    dummyPropagate level lastNode t = { t with tree := t.tree.modify (level + 1) (· ++
      if lastNode % 2 = 0 then [t.node level lastNode] else []) } := by
  unfold dummyPropagate
  by_cases hpar : lastNode % 2 = 0
  · rw [if_pos (by simp [hpar]), if_pos hpar, pushBack_eq]
  · rw [if_neg (by simp; omega), if_neg hpar]
    rw [show (· ++ []) = @id (List ByteString) from funext List.append_nil, List.modify_id]

theorem updateLevel_eq {xs : List ByteString} {p s l : Nat} {t : MerkleTree} (hp : 0 < p)
    (hps : p < s) (hs : s ≤ xs.length) (ht : t.tree = midLevels th xs p s l) :
    updateLevel th l (p >>> l) ((s - 1) >>> l) t =
      { t with tree := midLevels th xs p s (l + 1) } := by
  have hprep := prepareParentLevel_eq th hp (by omega) ht
  have hys : (prepareParentLevel l (p >>> l) t).tree.getD l [] = lazyLevel th xs s l := by
    rw [hprep, getD_map_range, if_pos (by omega), Function.update_of_ne (by omega), midLevel,
      if_pos le_rfl]
  have hlevel := take_lazyLevel_self th xs (l := l) (by omega) hs
  have hlast : (s - 1) >>> l < (lazyLevel th xs s l).length := by
    have hlen := length_level th.hashChildren (xs.take s)
      (List.ne_nil_of_length_pos (by simp; omega)) l
    rw [List.length_take, Nat.min_eq_left hs, ← hlevel, List.length_take] at hlen
    omega
  have hmono : p >>> l ≤ (s - 1) >>> l := shiftRight_le_shiftRight (by omega) l
  have hj : p >>> l / 2 * 2 % 2 = 0 := by omega
  have hjl : p >>> l / 2 * 2 ≤ (s - 1) >>> l := by omega
  have hentry : (level th.hashChildren xs (l + 1)).take (p >>> (l + 1)) ++
      (pairUp th.hashChildren (((lazyLevel th xs s l).take (2 * (((s - 1) >>> l + 1) / 2))).drop
        (p >>> l / 2 * 2)) ++ if (s - 1) >>> l % 2 = 0 then [(lazyLevel th xs s l).getD ((s - 1) >>> l) []]
          else []) = lazyLevel th xs s (l + 1) := by
    have hkeep : (level th.hashChildren xs (l + 1)).take (p >>> (l + 1)) =
        (level th.hashChildren (xs.take s) (l + 1)).take (p >>> (l + 1)) := by
      have hblock := two_pow_mul_shiftRight_le p (l + 1)
      rw [level_take_take _ xs (by omega)]
    rw [pairUp_drop_take_append _ hlast hj hjl, hlevel, ← level_succ,
      show p >>> l / 2 * 2 / 2 = p >>> (l + 1) by rw [Nat.shiftRight_succ]; omega, hkeep,
      List.take_append_drop, lazyLevel_of_pos th xs (by omega)]
  unfold updateLevel
  rw [pushParents_eq th l _ _ _ hj (by rwa [hys]), dummyPropagate_eq]
  simp only [MerkleTree.node]
  rw [getD_modify_ne _ _ (by omega), hys, List.modify_modify_eq, hprep, modify_map_range,
    Function.update_idem, Function.update_self]
  simp only [Function.comp_def, List.append_assoc]
  rw [hentry, show max (levelsFor p) (l + 2) = max (levelsFor p) (l + 1 + 1) by omega]
  congr 1
  refine map_range_congr fun i _ => ?_
  rw [Function.update_apply, midLevel, midLevel]
  split_ifs <;> first | rfl | omega | (subst_vars; rfl)

theorem updateLevels_eq {xs : List ByteString} {p s : Nat} (hp : 0 < p) (hps : p < s)
    (hs : s ≤ xs.length) (l : Nat) (t : MerkleTree) (hl : l ≤ Nat.size (s - 1))
    (ht : t.tree = midLevels th xs p s l) :
    updateLevels th l (p >>> l) ((s - 1) >>> l) t =
      { t with tree := (List.range (levelsFor s)).map (lazyLevel th xs s) } := by
  induction hk : Nat.size (s - 1) - l generalizing l t with
  | zero =>
      have hl' : l = Nat.size (s - 1) := by omega
      have hzero : (s - 1) >>> l = 0 := by
        rw [Nat.shiftRight_eq_div_pow, hl']
        exact Nat.div_eq_of_lt (Nat.lt_size_self _)
      have hmax : max (levelsFor p) (l + 1) = levelsFor s := by
        have := Nat.size_le_size (show p - 1 ≤ s - 1 by omega)
        rw [levelsFor_pos hp, levelsFor_pos (by omega)]
        omega
      rw [updateLevels, if_pos hzero]
      refine eq_with_tree t (ht.trans ?_)
      rw [midLevels, hmax]
      exact map_range_congr fun i hi => by
        rw [midLevel, if_pos (by rw [levelsFor_pos (by omega)] at hi; omega)]
  | succ k ih =>
      have hlt : l < Nat.size (s - 1) := by omega
      have hne : (s - 1) >>> l ≠ 0 := by
        rw [Nat.shiftRight_eq_div_pow]
        exact (Nat.div_pos (Nat.lt_size.mp hlt) (Nat.two_pow_pos l)).ne'
      rw [updateLevels, if_neg hne, parent_eq, parent_eq, ← Nat.shiftRight_succ,
        ← Nat.shiftRight_succ, updateLevel_eq th hp hps hs ht, ih (l + 1) _ (by omega) rfl (by omega)]

end Update

section Snapshot

variable {th} {t : MerkleTree} {xs : List ByteString}

theorem updateToSnapshot_fst_of_two_le (t : MerkleTree) {s : Nat} (hs : 2 ≤ s) :
    (updateToSnapshot th t s).1 = (updateToSnapshot th t s).2.root := by
  unfold updateToSnapshot
  rw [if_neg (by omega), if_neg (by omega)]
  split_ifs <;> rfl

theorem Represents.updateToSnapshot (h : Represents th t xs) {s : Nat}
    (hps : t.leavesProcessed ≤ s) (hs : s ≤ xs.length) :
    Represents th (MerkleTree.updateToSnapshot th t s).2 xs ∧
      (MerkleTree.updateToSnapshot th t s).2.leavesProcessed = s := by
  unfold MerkleTree.updateToSnapshot
  split_ifs with h0 h1 hp
  · exact ⟨h, show t.leavesProcessed = s by omega⟩
  · have hne : xs ≠ [] := List.ne_nil_of_length_pos (by omega)
    have hpos := h.leavesProcessed_pos hne
    exact ⟨h, show t.leavesProcessed = s by omega⟩
  · exact ⟨h, hp.symm⟩
  · -- the loop runs from `leaves_processed_` up to `s`
    have hne : xs ≠ [] := List.ne_nil_of_length_pos (by omega)
    have hp0 : 0 < t.leavesProcessed := h.leavesProcessed_pos hne
    have ht : t.tree = midLevels th xs t.leavesProcessed s 0 := by
      have hmax : max (levelsFor t.leavesProcessed) (0 + 1) = levelsFor t.leavesProcessed := by
        rw [levelsFor_pos hp0]
        omega
      rw [h.tree_eq, midLevels, hmax]
      refine map_range_congr fun i _ => ?_
      rw [midLevel]
      split_ifs with hi
      · rw [Nat.le_zero.mp hi, lazyLevel_zero, lazyLevel_zero]
      · rfl
    have hloop := updateLevels_eq th (s := s) hp0 (by omega) hs 0 t (Nat.zero_le _) ht
    rw [Nat.shiftRight_zero, Nat.shiftRight_zero] at hloop
    rw [hloop]
    exact ⟨⟨h.levelCount_eq, hs, fun _ => show 0 < s by omega, rfl⟩, rfl⟩

theorem Represents.updateToSnapshot_fst (h : Represents th t xs) {s : Nat}
    (hps : t.leavesProcessed ≤ s) (hs : s ≤ xs.length) :
    (MerkleTree.updateToSnapshot th t s).1 =
      LeftBalanced.root th.hashChildren th.hashEmpty (xs.take s) := by
  rcases Nat.lt_or_ge s 2 with hs2 | hs2
  · rcases s with _ | _ | s
    · simp [MerkleTree.updateToSnapshot]
    · -- a single leaf is its own root
      have hne : xs ≠ [] := List.ne_nil_of_length_pos (by omega)
      have hpos := h.leavesProcessed_pos hne
      obtain ⟨x, rest, rfl⟩ := List.exists_cons_of_ne_nil hne
      simp only [MerkleTree.updateToSnapshot, if_true]
      rw [h.node_eq (s := 1) (by simp) hpos]
      simp
    · omega
  · obtain ⟨h', hlp⟩ := h.updateToSnapshot hps hs
    rw [updateToSnapshot_fst_of_two_le t hs2, h'.root_eq (by omega), hlp]

theorem Represents.lazyLevelCount_updateToSnapshot (h : Represents th t xs) :
    (MerkleTree.updateToSnapshot th t xs.length).2.lazyLevelCount = t.levelCount := by
  obtain ⟨h', hlp⟩ := h.updateToSnapshot h.leavesProcessed_le le_rfl
  rw [h'.lazyLevelCount, hlp, h.levelCount_eq]

end Snapshot

end MerkleTree

end CertTrans
