import CertTrans.Merkletree.MerkleVerifier

/-!
`CompactMerkleTree` of `compact_merkle_tree.cc`: a tree that keeps one node per
level instead of all of them.

`tree_[l]` is the root of a complete subtree of `2 ^ l` leaves when bit `l` of
the leaf count is set, and empty otherwise, so appending a leaf is a binary
increment that carries the hashes up (`PushBack`), and the root folds the
stored subtrees from the smallest up (`UpdateRoot`).  Emptiness is the only
marker of a missing node, so the hashes must never be empty, as digests are
not.  The constructor from a `MerkleTree` reads the stored nodes off the audit
path of the last leaf.  The results here relate both to the leaf list the
`MerkleTree` model holds: every run of the compact tree answers as the full
tree fed the same leaves.
-/

namespace CertTrans

open MerkleTreeMath LeftBalanced

structure CompactMerkleTree where
  tree : List ByteString
  leafCount : Nat
  leavesProcessed : Nat
  levelCount : Nat
  root : ByteString
deriving DecidableEq, Repr

namespace CompactMerkleTree

variable (th : TreeHasher)

def empty : CompactMerkleTree := ⟨[], 0, 0, 0, th.hashEmpty⟩

/-- `PushBack(level, node)`, which only changes `tree_`. -/
def pushBack (tree : List ByteString) (level : Nat) (node : ByteString) : List ByteString :=
  if tree.length ≤ level then
    tree ++ [node]
  else if (tree.getD level []).isEmpty then
    tree.set level node
  else
    (pushBack tree (level + 1) (th.hashChildren (tree.getD level []) node)).set level []
termination_by tree.length - level

/-- `AddLeafHash(hash)`: returns the new leaf count; the root is evaluated
lazily. -/
def addLeafHash (t : CompactMerkleTree) (hash : ByteString) : Nat × CompactMerkleTree :=
  let tree := pushBack th t.tree 0 hash
  let leafCount := t.leafCount + 1
  let levelCount := if isPowerOfTwoPlusOne leafCount then t.levelCount + 1 else t.levelCount
  (leafCount, { t with tree := tree, leafCount := leafCount, levelCount := levelCount })

def addLeaf (t : CompactMerkleTree) (data : ByteString) : Nat × CompactMerkleTree :=
  addLeafHash th t (th.hashLeaf data)

def pullUp (rightSibling node : ByteString) : ByteString :=
  if node.isEmpty then rightSibling
  else if rightSibling.isEmpty then node
  else th.hashChildren node rightSibling

def updateRoot (t : CompactMerkleTree) : CompactMerkleTree :=
  if t.leavesProcessed = t.leafCount then t
  else { t with root := t.tree.foldl (pullUp th) [], leavesProcessed := t.leafCount }

def currentRoot (t : CompactMerkleTree) : ByteString × CompactMerkleTree :=
  let t := updateRoot th t
  (t.root, t)

def fillLevels (tree : List ByteString) (level sizeOfPreviousTree : Nat)
    (path : List ByteString) : List ByteString × List ByteString :=
  if sizeOfPreviousTree = 0 then (tree, path)
  else
    let (tree, path) := if sizeOfPreviousTree &&& 1 ≠ 0 then
        (tree.set level (path.headD []), path.tail)
      else (tree, path)
    fillLevels tree (level + 1) (sizeOfPreviousTree >>> 1) path
termination_by sizeOfPreviousTree
decreasing_by
  rw [Nat.shiftRight_eq_div_pow]
  omega

/-- `CompactMerkleTree(model)`: the compact tree, and the model, whose lazy
levels `PathToCurrentRoot` brings up to date. -/
def ofMerkleTree (model : MerkleTree) : CompactMerkleTree × MerkleTree :=
  let t : CompactMerkleTree :=
    ⟨List.replicate (model.levelCount - 1) [], model.leafCount, 0, model.levelCount, th.hashEmpty⟩
  if model.leafCount = 0 then (t, model)
  else
    let (path, model) := MerkleTree.pathToCurrentRoot th model model.leafCount
    -- the path of the last leaf holds the tree just before that leaf was added
    let tree := if !path.isEmpty then (fillLevels t.tree 0 (model.leafCount - 1) path).1
      else t.tree
    ({ t with tree := pushBack th tree 0 (model.leafHash model.leafCount) }, model)

inductive Op
  | addLeaf (data : ByteString)
  | addLeafHash (hash : ByteString)
  | currentRoot
deriving DecidableEq, Repr

def step (t : CompactMerkleTree) : Op → CompactMerkleTree
  | .addLeaf data => (addLeaf th t data).2
  | .addLeafHash hash => (addLeafHash th t hash).2
  | .currentRoot => (currentRoot th t).2

def run (ops : List Op) : CompactMerkleTree := ops.foldl (step th) (empty th)

def Op.toMerkleTreeOp : Op → MerkleTree.Op
  | .addLeaf data => .addLeaf data
  | .addLeafHash hash => .addLeafHash hash
  | .currentRoot => .currentRoot

def addedLeaves (ops : List Op) : List ByteString :=
  MerkleTree.addedLeaves th (ops.map Op.toMerkleTreeOp)

/-- `tree_[l]` for the leaf hashes `xs`: the root of the complete subtree of
`2 ^ l` leaves that bit `l` of the leaf count stands for, empty when the bit is
clear. -/
def compactNode (xs : List ByteString) (l : Nat) : ByteString :=
  if xs.length >>> l % 2 = 1 then (level th.hashChildren xs l).getD (xs.length >>> l - 1) []
  else []

def rightSibling (xs : List ByteString) (l : Nat) : ByteString :=
  if xs.length % 2 ^ l = 0 then [] else MerkleTree.lastNodeAt th xs xs.length l

/-- `t` holds the leaf hashes `xs`, none of them empty: one node per set bit
of their count, and a cached root that is current when all leaves are
processed. -/
structure Represents (t : CompactMerkleTree) (xs : List ByteString) : Prop where
  leaves_ne_nil : ∀ x ∈ xs, x ≠ []
  tree_eq : t.tree = (List.range (Nat.size xs.length)).map (compactNode th xs)
  leafCount_eq : t.leafCount = xs.length
  levelCount_eq : t.levelCount = levelsFor xs.length
  leavesProcessed_le : t.leavesProcessed ≤ t.leafCount
  root_eq : t.leavesProcessed = t.leafCount →
    t.root = LeftBalanced.root th.hashChildren th.hashEmpty xs

section Counter

theorem pred_shiftRight_of_not_dvd {s l : Nat} (h : ¬ 2 ^ l ∣ s) :
    (s - 1) >>> l = s >>> l := by
  have hpos := Nat.two_pow_pos l
  have hmod : 0 < s % 2 ^ l := Nat.pos_of_ne_zero fun h0 => h (Nat.dvd_of_mod_eq_zero h0)
  have hsplit := Nat.div_add_mod s (2 ^ l)
  have hlt := Nat.mod_lt s hpos
  rw [Nat.shiftRight_eq_div_pow, Nat.shiftRight_eq_div_pow]
  refine Nat.div_eq_of_lt_le ?_ ?_
  · rw [Nat.mul_comm]
    omega
  · rw [Nat.succ_mul, Nat.mul_comm]
    omega

theorem succ_shiftRight_of_dvd {n l : Nat} (h : 2 ^ l ∣ n + 1) :
    (n + 1) >>> l = n >>> l + 1 := by
  have hpred := MerkleTree.pred_shiftRight_of_dvd (show 0 < n + 1 by omega) h
  have hq : 0 < (n + 1) / 2 ^ l :=
    Nat.div_pos (Nat.le_of_dvd (Nat.succ_pos n) h) (Nat.two_pow_pos l)
  rw [Nat.add_sub_cancel] at hpred
  rw [hpred, Nat.shiftRight_eq_div_pow]
  omega

theorem dvd_succ_of_odd {n l : Nat} (h : 2 ^ l ∣ n + 1) (hodd : n >>> l % 2 = 1) :
    2 ^ (l + 1) ∣ n + 1 := by
  have hsucc := succ_shiftRight_of_dvd h
  have hmul : (n + 1) >>> l * 2 ^ l = n + 1 := by
    rw [Nat.shiftRight_eq_div_pow]
    exact Nat.div_mul_cancel h
  obtain ⟨k, hk⟩ : 2 ∣ (n + 1) >>> l := by omega
  refine ⟨k, ?_⟩
  rw [← hmul, hk, Nat.pow_succ]
  ring

theorem succ_shiftRight_of_even {n l : Nat} (h : 2 ^ l ∣ n + 1) (heven : n >>> l % 2 = 0)
    {j : Nat} (hj : l < j) : (n + 1) >>> j = n >>> j := by
  have hstep : (n + 1) >>> (l + 1) = n >>> (l + 1) := by
    rw [Nat.shiftRight_succ, Nat.shiftRight_succ, succ_shiftRight_of_dvd h]
    omega
  obtain ⟨k, rfl⟩ := Nat.exists_eq_add_of_lt hj
  rw [Nat.add_right_comm, Nat.shiftRight_add (n + 1) (l + 1) k, Nat.shiftRight_add n (l + 1) k,
    hstep]

theorem succ_eq_two_pow_of_size_le {n l : Nat} (h : 2 ^ l ∣ n + 1) (hsize : Nat.size n ≤ l) :
    n + 1 = 2 ^ l := by
  have hlt : n < 2 ^ l := Nat.size_le.mp hsize
  obtain ⟨k, hk⟩ := h
  rcases k with _ | _ | k
  · omega
  · rw [hk, Nat.mul_one]
  · have : 2 ^ l * 2 ≤ 2 ^ l * (k + 1 + 1) := Nat.mul_le_mul_left _ (by omega)
    omega

theorem size_of_succ_eq_two_pow {n l : Nat} (h : n + 1 = 2 ^ l) : Nat.size n = l := by
  have hsize := size_of_isPowerOfTwo (n := n + 1) ⟨l, h⟩
  rw [Nat.add_sub_cancel, h, Nat.size_pow] at hsize
  omega

theorem size_succ_of_even {n l : Nat} (hl : l < Nat.size n) (heven : n >>> l % 2 = 0) :
    Nat.size (n + 1) = Nat.size n := by
  refine le_antisymm (Nat.size_le.mpr ?_) (Nat.size_le_size (Nat.le_succ n))
  have hlt : n < 2 ^ Nat.size n := Nat.lt_size_self n
  refine lt_of_le_of_ne hlt fun heq => ?_
  have hbit := Nat.testBit_two_pow_sub_one (Nat.size n) l
  rw [show 2 ^ Nat.size n - 1 = n by omega, ← Nat.decide_shiftRight_mod_two_eq_one] at hbit
  simp [heven, hl] at hbit

end Counter

section Nodes

variable {th} (hnode : ∀ a b, th.hashChildren a b ≠ [])

theorem two_pow_mul_pred_shiftRight_le {n l : Nat} (h : n >>> l % 2 = 1) :
    2 ^ l * (n >>> l - 1 + 1) ≤ n := by
  have hpos : 1 ≤ n >>> l := by
    generalize n >>> l = i at h
    omega
  rw [Nat.sub_add_cancel hpos]
  exact MerkleTree.two_pow_mul_shiftRight_le n l

include hnode

theorem getD_level_ne_nil {xs : List ByteString} (hxs : ∀ x ∈ xs, x ≠ []) {l i : Nat}
    (hi : i < (level th.hashChildren xs l).length) : (level th.hashChildren xs l).getD i [] ≠ [] := by
  rw [List.getD_eq_getElem _ _ hi]
  exact forall_mem_level th.hashChildren hnode hxs l _ (List.getElem_mem hi)

theorem compactNode_eq_nil_iff {xs : List ByteString} (hxs : ∀ x ∈ xs, x ≠ []) (l : Nat) :
    compactNode th xs l = [] ↔ xs.length >>> l % 2 = 0 := by
  unfold compactNode
  by_cases hodd : xs.length >>> l % 2 = 1
  · rw [if_pos hodd]
    have hi := lt_length_level th.hashChildren (two_pow_mul_pred_shiftRight_le hodd)
    exact ⟨fun h => absurd h (getD_level_ne_nil hnode hxs hi), fun h => by omega⟩
  · rw [if_neg hodd]
    exact ⟨fun _ => by omega, fun _ => rfl⟩

end Nodes

section UpdateRoot

variable {th} (hnode : ∀ a b, th.hashChildren a b ≠ []) {xs : List ByteString}
  (hxs : ∀ x ∈ xs, x ≠ [])
include hnode hxs

theorem lastNodeAt_ne_nil (hn : 0 < xs.length) (l : Nat) :
    MerkleTree.lastNodeAt th xs xs.length l ≠ [] := by
  have hlen := MerkleTree.length_level_take th.hashChildren hn (le_refl xs.length) l
  rw [MerkleTree.lastNodeAt_eq_getD hn le_rfl, List.take_length]
  rw [List.take_length] at hlen
  exact getD_level_ne_nil hnode hxs (by omega)

theorem pullUp_compactNode (j : Nat) :
    pullUp th (rightSibling th xs j) (compactNode th xs j) = rightSibling th xs (j + 1) := by
  rcases Nat.eq_zero_or_pos xs.length with h0 | hn
  · simp [rightSibling, compactNode, pullUp, h0]
  have hmod : xs.length % 2 ^ (j + 1) = xs.length % 2 ^ j + 2 ^ j * (xs.length >>> j % 2) := by
    rw [Nat.mod_pow_succ, Nat.shiftRight_eq_div_pow]
  have hspine := MerkleTree.lastNodeAt_succ th hn (le_refl xs.length) j
  rw [List.take_length] at hspine
  have hpos := Nat.two_pow_pos j
  unfold rightSibling
  by_cases hbit : xs.length >>> j % 2 = 1
  · have hne : compactNode th xs j ≠ [] := fun h =>
      absurd ((compactNode_eq_nil_iff hnode hxs j).mp h) (by omega)
    have hnode_eq : compactNode th xs j =
        (level th.hashChildren xs j).getD (xs.length >>> j - 1) [] := if_pos hbit
    rw [if_neg (show xs.length % 2 ^ (j + 1) ≠ 0 by rw [hmod, hbit]; omega)]
    by_cases hr : xs.length % 2 ^ j = 0
    · -- the first stored subtree becomes the right sibling; it is the last node
      have hpred := MerkleTree.pred_shiftRight_of_dvd hn (Nat.dvd_of_mod_eq_zero hr)
      rw [← Nat.shiftRight_eq_div_pow] at hpred
      rw [if_pos hr, hspine, hpred, if_neg (by omega), MerkleTree.lastNodeAt_eq_getD hn le_rfl,
        List.take_length, hpred, ← hnode_eq, pullUp, if_neg (by simpa using hne),
        List.isEmpty_nil, if_pos rfl]
    · -- a stored left sibling is hashed with the right sibling
      have hpred := pred_shiftRight_of_not_dvd (fun h => hr (Nat.mod_eq_zero_of_dvd h))
      rw [if_neg hr, hspine, hpred, if_pos hbit, ← hnode_eq, pullUp,
        if_neg (by simpa using hne), if_neg (by simpa using lastNodeAt_ne_nil hnode hxs hn j)]
  · have hnil : compactNode th xs j = [] := if_neg hbit
    have hbit0 : xs.length >>> j % 2 = 0 := by
      generalize xs.length >>> j = i at hbit
      omega
    have hmod0 : xs.length % 2 ^ (j + 1) = xs.length % 2 ^ j := by
      rw [hmod, hbit0]
      omega
    rw [hnil, pullUp, List.isEmpty_nil, if_pos rfl, hmod0]
    by_cases hr : xs.length % 2 ^ j = 0
    · rw [if_pos hr, if_pos hr]
    · -- the last node has no sibling at level `j` and is copied up
      have hpred := pred_shiftRight_of_not_dvd (fun h => hr (Nat.mod_eq_zero_of_dvd h))
      rw [if_neg hr, if_neg hr, hspine, hpred, if_neg hbit]

theorem foldl_pullUp (j : Nat) :
    ((List.range j).map (compactNode th xs)).foldl (pullUp th) [] = rightSibling th xs j := by
  induction j with
  | zero => rw [List.range_zero, List.map_nil, List.foldl_nil, rightSibling, pow_zero, Nat.mod_one,
      if_pos rfl]
  | succ j ih =>
      simp only [List.range_succ, List.map_append, List.map_cons, List.map_nil, List.foldl_append,
        List.foldl_cons, List.foldl_nil, ih]
      exact pullUp_compactNode hnode hxs j

theorem foldl_pullUp_size (hne : xs ≠ []) :
    ((List.range (Nat.size xs.length)).map (compactNode th xs)).foldl (pullUp th) [] =
      LeftBalanced.root th.hashChildren th.hashEmpty xs := by
  have hn : 0 < xs.length := List.length_pos_iff.mpr hne
  have hlt := Nat.lt_size_self xs.length
  have htop : (xs.length - 1) >>> Nat.size xs.length = 0 := by
    rw [Nat.shiftRight_eq_div_pow]
    exact Nat.div_eq_of_lt (by omega)
  rw [foldl_pullUp hnode hxs, rightSibling, Nat.mod_eq_of_lt hlt, if_neg (by omega),
    MerkleTree.lastNodeAt_of_shiftRight_eq_zero hn le_rfl htop, List.take_length]

end UpdateRoot

section PushBack

variable {th} (hnode : ∀ a b, th.hashChildren a b ≠ [])

theorem compactNode_append {xs : List ByteString} (x : ByteString) {j : Nat}
    (h : (xs.length + 1) >>> j = xs.length >>> j) :
    compactNode th (xs ++ [x]) j = compactNode th xs j := by
  unfold compactNode
  rw [List.length_append, List.length_singleton, h]
  split_ifs with hodd
  · exact getD_level_append _ xs [x] (two_pow_mul_pred_shiftRight_le hodd) []
  · rfl

theorem hashChildren_compactNode {xs : List ByteString} (x : ByteString) {l : Nat}
    (hl : 2 ^ l ∣ xs.length + 1) (hbit : xs.length >>> l % 2 = 1) :
    th.hashChildren (compactNode th xs l)
        ((level th.hashChildren (xs ++ [x]) l).getD ((xs.length + 1) >>> l - 1) []) =
      (level th.hashChildren (xs ++ [x]) (l + 1)).getD ((xs.length + 1) >>> (l + 1) - 1) [] := by
  have hsucc := succ_shiftRight_of_dvd hl
  have hblock : 2 ^ l * (xs.length >>> l + 1) ≤ (xs ++ [x]).length := by
    rw [List.length_append, List.length_singleton, ← hsucc]
    exact MerkleTree.two_pow_mul_shiftRight_le _ l
  have hi := lt_length_level th.hashChildren hblock
  have hhalf : (xs.length >>> l + 1) / 2 - 1 = xs.length >>> l / 2 := by
    generalize xs.length >>> l = i at hbit
    omega
  rw [level_succ, Nat.shiftRight_succ, hsucc, hhalf,
    getD_pairUp_of_odd th.hashChildren hi hbit, Nat.add_sub_cancel]
  unfold compactNode
  rw [if_pos hbit, getD_level_append _ xs [x] (two_pow_mul_pred_shiftRight_le hbit) []]

include hnode

theorem pushBack_eq {xs : List ByteString} (hxs : ∀ y ∈ xs, y ≠ []) (x : ByteString) (l : Nat)
    (hl : 2 ^ l ∣ xs.length + 1) :
    pushBack th ((List.range (Nat.size xs.length)).map (compactNode th xs)) l
        ((level th.hashChildren (xs ++ [x]) l).getD ((xs.length + 1) >>> l - 1) []) =
      (List.range (Nat.size (xs.length + 1))).map
        (fun j => if j < l then compactNode th xs j else compactNode th (xs ++ [x]) j) := by
  have hsucc := succ_shiftRight_of_dvd hl
  have hlenT : ((List.range (Nat.size xs.length)).map (compactNode th xs)).length =
      Nat.size xs.length := by simp
  rw [pushBack, hlenT]
  by_cases hsize : Nat.size xs.length ≤ l
  · -- a new level: the leaf count was `2 ^ l - 1`
    have hn1 := succ_eq_two_pow_of_size_le hl hsize
    have htop : Nat.size (xs.length + 1) = l + 1 := by rw [hn1, Nat.size_pow]
    have hcount : (xs.length + 1) >>> l = 1 := by
      rw [hn1, Nat.shiftRight_eq_div_pow, Nat.div_self (Nat.two_pow_pos l)]
    rw [if_pos hsize, htop, List.range_succ, List.map_append, size_of_succ_eq_two_pow hn1,
      List.map_singleton, if_neg (lt_irrefl l)]
    congr 1
    · exact map_range_congr fun j hj => (if_pos hj).symm
    · unfold compactNode
      rw [List.length_append, List.length_singleton, hcount, if_pos rfl]
  · have hl' : l < Nat.size xs.length := by omega
    rw [if_neg hsize, getD_map_range, if_pos hl']
    by_cases hbit : xs.length >>> l % 2 = 1
    · -- a left sibling is waiting: carry one level up, then clear this one
      have hne : compactNode th xs l ≠ [] := fun h =>
        absurd ((compactNode_eq_nil_iff hnode hxs l).mp h) (by omega)
      rw [if_neg (by simpa using hne), hashChildren_compactNode x hl hbit,
        pushBack_eq hxs x (l + 1) (dvd_succ_of_odd hl hbit), set_map_range]
      have hclear : compactNode th (xs ++ [x]) l = [] := by
        unfold compactNode
        rw [List.length_append, List.length_singleton, hsucc, if_neg (by omega)]
      have hupdate := update_ite_lt_succ (compactNode th xs) (compactNode th (xs ++ [x])) l
      rw [hclear] at hupdate
      rw [hupdate]
    · -- a lone left sibling: store the carry here
      have hnil : compactNode th xs l = [] := if_neg hbit
      rw [hnil, List.isEmpty_nil, if_pos rfl, size_succ_of_even hl' (by omega), set_map_range]
      refine map_range_congr fun j _ => ?_
      by_cases hj : j = l
      · subst hj
        rw [Function.update_self, if_neg (lt_irrefl j)]
        unfold compactNode
        rw [List.length_append, List.length_singleton, hsucc, if_pos (by omega)]
      · rw [Function.update_of_ne hj]
        by_cases hjl : j < l
        · rw [if_pos hjl]
        · rw [if_neg hjl, compactNode_append x (succ_shiftRight_of_even hl (by omega) (by omega))]
termination_by Nat.size xs.length - l
decreasing_by omega

end PushBack

section Invariant

variable {th} {t : CompactMerkleTree} {xs : List ByteString}

theorem represents_empty : Represents th (empty th) [] where
  leaves_ne_nil := by simp
  tree_eq := by simp [empty]
  leafCount_eq := rfl
  levelCount_eq := by simp [empty, levelsFor]
  leavesProcessed_le := le_rfl
  root_eq _ := (root_nil th.hashChildren th.hashEmpty).symm

theorem addedLeaves_cons (op : Op) (ops : List Op) :
    addedLeaves th (op :: ops) = addedLeaves th [op] ++ addedLeaves th ops := by
  rw [addedLeaves, List.map_cons, MerkleTree.addedLeaves_cons]
  rfl

variable (hnode : ∀ a b, th.hashChildren a b ≠ [])
include hnode

theorem Represents.addLeafHash (h : Represents th t xs) {hash : ByteString} (hhash : hash ≠ []) :
    (CompactMerkleTree.addLeafHash th t hash).1 = xs.length + 1 ∧
      Represents th (CompactMerkleTree.addLeafHash th t hash).2 (xs ++ [hash]) := by
  have hpush := pushBack_eq hnode h.leaves_ne_nil hash 0 (by rw [pow_zero]; exact one_dvd _)
  have harg : (level th.hashChildren (xs ++ [hash]) 0).getD ((xs.length + 1) >>> 0 - 1) [] =
      hash := by simp
  rw [harg, ← h.tree_eq] at hpush
  have hle := h.leavesProcessed_le
  simp only [CompactMerkleTree.addLeafHash]
  refine ⟨by rw [h.leafCount_eq], ⟨?_, ?_, ?_, ?_, by dsimp only; omega,
    fun hp => absurd hp (by dsimp only; omega)⟩⟩
  · intro y hy
    rcases List.mem_append.mp hy with hy | hy
    · exact h.leaves_ne_nil y hy
    · rw [List.mem_singleton.mp hy]
      exact hhash
  · rw [hpush, List.length_append, List.length_singleton]
    exact map_range_congr fun j _ => if_neg (Nat.not_lt_zero j)
  · rw [h.leafCount_eq, List.length_append, List.length_singleton]
  · rw [h.leafCount_eq, h.levelCount_eq, List.length_append, List.length_singleton, levelsFor_succ]

theorem Represents.currentRoot (h : Represents th t xs) :
    (CompactMerkleTree.currentRoot th t).1 = LeftBalanced.root th.hashChildren th.hashEmpty xs ∧
      Represents th (CompactMerkleTree.currentRoot th t).2 xs := by
  simp only [CompactMerkleTree.currentRoot, updateRoot]
  by_cases hp : t.leavesProcessed = t.leafCount
  · rw [if_pos hp]
    exact ⟨h.root_eq hp, h⟩
  · rw [if_neg hp]
    have hne : xs ≠ [] := by
      rintro rfl
      have hle := h.leavesProcessed_le
      rw [h.leafCount_eq] at hle hp
      exact hp (Nat.le_zero.mp hle)
    have hroot : t.tree.foldl (pullUp th) [] = LeftBalanced.root th.hashChildren th.hashEmpty xs := by
      rw [h.tree_eq]
      exact foldl_pullUp_size hnode h.leaves_ne_nil hne
    exact ⟨hroot, ⟨h.leaves_ne_nil, h.tree_eq, h.leafCount_eq, h.levelCount_eq, le_rfl,
      fun _ => hroot⟩⟩

theorem Represents.step (h : Represents th t xs) (op : Op)
    (hop : ∀ x ∈ addedLeaves th [op], x ≠ []) :
    Represents th (CompactMerkleTree.step th t op) (xs ++ addedLeaves th [op]) := by
  cases op with
  | addLeaf data => exact (h.addLeafHash hnode (hop _ (by simp [addedLeaves,
      Op.toMerkleTreeOp, MerkleTree.addedLeaves]))).2
  | addLeafHash hash => exact (h.addLeafHash hnode (hop _ (by simp [addedLeaves,
      Op.toMerkleTreeOp, MerkleTree.addedLeaves]))).2
  | currentRoot =>
      simpa only [CompactMerkleTree.step, addedLeaves, List.map_cons, List.map_nil,
        Op.toMerkleTreeOp, MerkleTree.addedLeaves, List.append_nil] using (h.currentRoot hnode).2

theorem Represents.foldl_step (h : Represents th t xs) (ops : List Op)
    (hops : ∀ x ∈ addedLeaves th ops, x ≠ []) :
    Represents th (ops.foldl (CompactMerkleTree.step th) t) (xs ++ addedLeaves th ops) := by
  induction ops generalizing t xs with
  | nil => simpa [addedLeaves, MerkleTree.addedLeaves] using h
  | cons op ops ih =>
      rw [addedLeaves_cons] at hops ⊢
      rw [List.foldl_cons, ← List.append_assoc]
      exact ih (h.step hnode op fun x hx => hops x (List.mem_append_left _ hx))
        fun x hx => hops x (List.mem_append_right _ hx)

theorem represents_run (ops : List Op) (hops : ∀ x ∈ addedLeaves th ops, x ≠ []) :
    Represents th (run th ops) (addedLeaves th ops) := by
  simpa [run] using (represents_empty : Represents th (empty th) []).foldl_step hnode ops hops

end Invariant

section Constructor

variable {th}

variable (th) in
theorem fillLevels_eq (X : List ByteString) (hX : X ≠ []) (l : Nat) :
    fillLevels ((List.range (Nat.size (X.length - 1))).map
          (fun j => if j < l then compactNode th (X.take (X.length - 1)) j else []))
        l ((X.length - 1) >>> l)
        (path th.hashChildren th.hashEmpty ((X.length - 1) >>> l) (level th.hashChildren X l)) =
      ((List.range (Nat.size (X.length - 1))).map (compactNode th (X.take (X.length - 1))), []) := by
  have hlen := length_level th.hashChildren X hX l
  have hXp : (X.take (X.length - 1)).length = X.length - 1 := by simp
  rw [fillLevels]
  by_cases h0 : (X.length - 1) >>> l = 0
  · -- no bit is left: the levels from `l` up stay empty, and so does the path
    rw [h0] at hlen
    rw [if_pos h0, h0, path_of_length_le th.hashChildren th.hashEmpty 0 (Or.inl (by omega))]
    refine Prod.ext (map_range_congr fun j _ => ?_) rfl
    by_cases hj : j < l
    · rw [if_pos hj]
    · have hj0 : (X.length - 1) >>> j = 0 := by
        obtain ⟨k, rfl⟩ := Nat.exists_eq_add_of_le (not_lt.mp hj)
        rw [Nat.shiftRight_add, h0, Nat.zero_shiftRight]
      unfold compactNode
      rw [if_neg hj, hXp, hj0, if_neg (by decide)]
  · have hi : (X.length - 1) >>> l < (level th.hashChildren X l).length := by
      rw [hlen]
      exact Nat.lt_succ_self _
    have hshift : (X.length - 1) >>> l >>> 1 = (X.length - 1) >>> (l + 1) := by
      rw [← Nat.shiftRight_add]
    have hup : path th.hashChildren th.hashEmpty ((X.length - 1) >>> l / 2)
        (pairUp th.hashChildren (level th.hashChildren X l)) =
        path th.hashChildren th.hashEmpty ((X.length - 1) >>> (l + 1))
          (level th.hashChildren X (l + 1)) := by
      rw [level_succ, Nat.shiftRight_succ]
    rw [if_neg h0, path_eq_sibling_append _ _ hi, Nat.and_one_is_mod]
    by_cases hodd : (X.length - 1) >>> l % 2 = 1
    · -- a set bit: the next path entry is the node stored at this level
      have hstored : (level th.hashChildren X l).getD ((X.length - 1) >>> l - 1) [] =
          compactNode th (X.take (X.length - 1)) l := by
        unfold compactNode
        rw [hXp, if_pos hodd, getD_level_take _ X (two_pow_mul_pred_shiftRight_le hodd) []]
      rw [if_pos (by omega), sibling_of_odd hi hodd [], List.singleton_append]
      dsimp only
      rw [List.headD_cons, List.tail_cons, hstored, set_map_range,
        update_ite_lt (compactNode th (X.take (X.length - 1))) (fun _ => []) l, hshift, hup]
      exact fillLevels_eq X hX (l + 1)
    · -- a clear bit: the last node has no sibling and nothing is stored
      have hempty : compactNode th (X.take (X.length - 1)) l = [] := by
        unfold compactNode
        rw [hXp, if_neg hodd]
      rw [if_neg (by omega), sibling_of_last (by omega) (by omega), List.nil_append]
      dsimp only
      rw [← ite_lt_succ_of_eq (compactNode th (X.take (X.length - 1))) (fun _ => []) hempty,
        hshift, hup]
      exact fillLevels_eq X hX (l + 1)
termination_by (X.length - 1) >>> l
decreasing_by
  all_goals
    rw [Nat.shiftRight_succ]
    exact Nat.div_lt_self (Nat.pos_of_ne_zero h0) (by decide)

variable (hnode : ∀ a b, th.hashChildren a b ≠ [])
include hnode

theorem represents_ofMerkleTree {model : MerkleTree} {X : List ByteString}
    (h : MerkleTree.Represents th model X) (hX : ∀ x ∈ X, x ≠ []) :
    Represents th (ofMerkleTree th model).1 X ∧ MerkleTree.Represents th (ofMerkleTree th model).2 X := by
  have hcount := h.leafCount
  have hlevels := h.levelCount_eq
  unfold ofMerkleTree
  by_cases h0 : model.leafCount = 0
  · rw [if_pos h0]
    have hnil : X = [] := List.length_eq_zero_iff.mp (hcount ▸ h0)
    subst hnil
    refine ⟨⟨hX, ?_, hcount, hlevels, Nat.zero_le _, fun _ => ?_⟩, h⟩
    · simp [hlevels, levelsFor]
    · exact (root_nil th.hashChildren th.hashEmpty).symm
  · rw [if_neg h0]
    have hn : 0 < X.length := by omega
    have hXne : X ≠ [] := List.ne_nil_of_length_pos hn
    obtain ⟨hpath, h'⟩ := h.pathToRootAtSnapshot model.leafCount model.leafCount
    rcases hpc : MerkleTree.pathToCurrentRoot th model model.leafCount with ⟨p, model'⟩
    have hpc' : MerkleTree.pathToRootAtSnapshot th model model.leafCount model.leafCount =
        (p, model') := hpc
    rw [hpc'] at hpath h'
    dsimp only at hpath h'
    rw [if_pos ⟨by omega, le_rfl, by omega⟩, hcount, List.take_length] at hpath
    dsimp only
    set Xp := X.take (X.length - 1) with hXp_def
    have hXp : Xp.length = X.length - 1 := by simp [hXp_def]
    have hlast : Xp ++ [X.getD (X.length - 1) []] = X := by
      rw [hXp_def, List.getD_eq_getElem _ _ (by omega), ← List.getLast_eq_getElem hXne,
        List.take_append_getLast]
    have hrep : List.replicate (model.levelCount - 1) ([] : ByteString) =
        (List.range (Nat.size (X.length - 1))).map
          (fun j => if j < 0 then compactNode th Xp j else []) := by
      rw [hlevels, levelsFor_pos hn, Nat.add_sub_cancel]
      simp
    have hfill := fillLevels_eq th X hXne 0
    rw [Nat.shiftRight_zero, level_zero, ← hpath, ← hXp_def, ← hrep] at hfill
    have htree : (if !p.isEmpty then
          (fillLevels (List.replicate (model.levelCount - 1) []) 0 (model'.leafCount - 1) p).1
        else List.replicate (model.levelCount - 1) []) =
        (List.range (Nat.size Xp.length)).map (compactNode th Xp) := by
      rw [h'.leafCount, hXp]
      by_cases hp : p = []
      · -- a single leaf: nothing is stored below it
        have h1 : X.length - 1 = 0 := by
          by_contra hne1
          exact path_ne_nil th.hashChildren th.hashEmpty (show 2 ≤ X.length by omega)
            (show X.length - 1 < X.length by omega) (hpath ▸ hp)
        rw [if_neg (by simp [hp]), hrep, h1]
        simp
      · rw [if_pos (by simp [hp]), hfill]
    have hpush := pushBack_eq hnode (fun x (hx : x ∈ Xp) => hX x (List.mem_of_mem_take hx))
      (X.getD (X.length - 1) []) 0 (by rw [pow_zero]; exact one_dvd _)
    have harg : (level th.hashChildren (Xp ++ [X.getD (X.length - 1) []]) 0).getD
        ((Xp.length + 1) >>> 0 - 1) [] = X.getD (X.length - 1) [] := by
      rw [level_zero, Nat.shiftRight_zero, Nat.add_sub_cancel, hlast, hXp]
    have hsz : Xp.length + 1 = X.length := by omega
    rw [harg, hlast, hsz] at hpush
    refine ⟨⟨hX, ?_, hcount, hlevels, Nat.zero_le _, fun hp => absurd hp.symm h0⟩, h'⟩
    rw [htree, h'.leafCount, h'.leafHash hn le_rfl, hpush]
    exact map_range_congr fun j _ => if_neg (Nat.not_lt_zero j)

end Constructor

/-- The compact tree answers as the `MerkleTree` fed the same operations:
`CurrentRoot` is the root of all leaves appended, `HashEmpty` for none, and the
two trees count the same leaves and levels, for runs from new trees and for
runs from the compact tree built from any reachable model. -/
theorem refines_merkleTree (hnode : ∀ a b, th.hashChildren a b ≠ []) :
    (∀ ops : List Op, (∀ x ∈ addedLeaves th ops, x ≠ []) →
      (currentRoot th (run th ops)).1 =
          LeftBalanced.root th.hashChildren th.hashEmpty (addedLeaves th ops) ∧
        (run th ops).leafCount = (MerkleTree.run th (ops.map Op.toMerkleTreeOp)).leafCount ∧
        (run th ops).levelCount = (MerkleTree.run th (ops.map Op.toMerkleTreeOp)).levelCount) ∧
    (∀ (modelOps : List MerkleTree.Op) (ops : List Op),
      (∀ x ∈ MerkleTree.addedLeaves th modelOps ++ addedLeaves th ops, x ≠ []) →
      (currentRoot th (ops.foldl (step th) (ofMerkleTree th (MerkleTree.run th modelOps)).1)).1 =
          (MerkleTree.currentRoot th ((ops.map Op.toMerkleTreeOp).foldl (MerkleTree.step th)
            (ofMerkleTree th (MerkleTree.run th modelOps)).2)).1 ∧
        (ops.foldl (step th) (ofMerkleTree th (MerkleTree.run th modelOps)).1).leafCount =
          ((ops.map Op.toMerkleTreeOp).foldl (MerkleTree.step th)
            (ofMerkleTree th (MerkleTree.run th modelOps)).2).leafCount ∧
        (ops.foldl (step th) (ofMerkleTree th (MerkleTree.run th modelOps)).1).levelCount =
          ((ops.map Op.toMerkleTreeOp).foldl (MerkleTree.step th)
            (ofMerkleTree th (MerkleTree.run th modelOps)).2).levelCount) := by
  refine ⟨fun ops hops => ?_, fun modelOps ops hops => ?_⟩
  · have hc := represents_run hnode ops hops
    have hm : MerkleTree.Represents th (MerkleTree.run th (ops.map Op.toMerkleTreeOp))
        (addedLeaves th ops) := MerkleTree.represents_run _
    exact ⟨(hc.currentRoot hnode).1, by rw [hc.leafCount_eq, hm.leafCount],
      by rw [hc.levelCount_eq, hm.levelCount_eq]⟩
  · have hmodel : MerkleTree.Represents th (MerkleTree.run th modelOps)
        (MerkleTree.addedLeaves th modelOps) := MerkleTree.represents_run _
    obtain ⟨hc, hm⟩ := represents_ofMerkleTree hnode hmodel
      fun x hx => hops x (List.mem_append_left _ hx)
    have hc' := hc.foldl_step hnode ops fun x hx => hops x (List.mem_append_right _ hx)
    have hm' := hm.foldl_step (ops.map Op.toMerkleTreeOp)
    exact ⟨by rw [(hc'.currentRoot hnode).1, hm'.currentRoot_fst]; rfl,
      by rw [hc'.leafCount_eq, hm'.leafCount]; rfl, by rw [hc'.levelCount_eq, hm'.levelCount_eq]; rfl⟩

theorem refines_merkleTree_unaryFramed :
    (∀ a b, MerkleVerifier.unaryFramedHasher.hashChildren a b ≠ []) ∧
      (currentRoot MerkleVerifier.unaryFramedHasher (run MerkleVerifier.unaryFramedHasher
          [.addLeafHash [1], .currentRoot, .addLeafHash [2], .addLeafHash [3]])).1 =
        LeftBalanced.root MerkleVerifier.unaryFramedHasher.hashChildren
          MerkleVerifier.unaryFramedHasher.hashEmpty [[1], [2], [3]] :=
  ⟨MerkleVerifier.unaryFramedHasher_hashChildren_ne_nil,
    ((refines_merkleTree MerkleVerifier.unaryFramedHasher
      MerkleVerifier.unaryFramedHasher_hashChildren_ne_nil).1 _ (by decide)).1⟩

end CompactMerkleTree

end CertTrans
