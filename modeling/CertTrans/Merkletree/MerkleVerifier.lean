import CertTrans.Merkletree.MerkleTreeQueries

/-!
`MerkleVerifier` of `merkle_verifier.cc`: the client side, which checks an
audit path against a tree head and a consistency proof between two tree heads.

Both checks walk up from a node, hashing the running value with the next proof
entry as a left or a right sibling, or carrying it up unchanged where the node
has no sibling (a dummy copy).  `walk` states that walk once; `RootFromPath`
is the walk from a leaf, and the two loops of `VerifyConsistency` are the walk
from the last node of the old tree, split where the old root is checked.  The
walk along the RFC 6962 audit path ends at the root, and with a hash that
determines its two children, only the audit path does.
-/

namespace CertTrans

namespace TreeHasher

variable (th : TreeHasher)

def mth (D : List ByteString) : ByteString :=
  LeftBalanced.root th.hashChildren th.hashEmpty (D.map th.hashLeaf)

def auditPath (m : Nat) (D : List ByteString) : List ByteString :=
  LeftBalanced.path th.hashChildren th.hashEmpty m (D.map th.hashLeaf)

def consistencyProof (m : Nat) (D : List ByteString) : List ByteString :=
  LeftBalanced.consistencyProof th.hashChildren th.hashEmpty m (D.map th.hashLeaf)

theorem mth_injective (hleaf : Function.Injective th.hashLeaf)
    (hnode : ∀ a b c d, th.hashChildren a b = th.hashChildren c d → a = c ∧ b = d)
    {D D' : List ByteString} (hlen : D.length = D'.length) (h : th.mth D = th.mth D') :
    D = D' := by
  have hmap : D.map th.hashLeaf = D'.map th.hashLeaf :=
    LeftBalanced.root_injective _ _ hnode (by simpa using hlen) h
  exact List.map_injective_iff.mpr hleaf hmap

end TreeHasher

namespace MerkleVerifier

open MerkleTreeMath

variable (th : TreeHasher)

def leafHash (data : ByteString) : ByteString := th.hashLeaf data

def rootFromPathLoop (node lastNode : Nat) (nodeHash : ByteString) (path : List ByteString) :
    ByteString :=
  if lastNode = 0 then
    if path = [] then nodeHash else []
  else
    match path with
    | [] => []
    | entry :: rest =>
        if isRightChild node then
          rootFromPathLoop (parent node) (parent lastNode) (th.hashChildren entry nodeHash) rest
        else if node < lastNode then
          rootFromPathLoop (parent node) (parent lastNode) (th.hashChildren nodeHash entry) rest
        else
          -- the sibling does not exist and the parent is a dummy copy
          rootFromPathLoop (parent node) (parent lastNode) nodeHash (entry :: rest)
termination_by lastNode
decreasing_by all_goals simp only [parent_eq]; omega

/-- `RootFromPath(leaf, tree_size, path, data)`, with a 1-based leaf index. -/
def rootFromPath (leaf treeSize : Nat) (path : List ByteString) (data : ByteString) :
    ByteString :=
  if leaf > treeSize ∨ leaf = 0 then []
  else rootFromPathLoop th (leaf - 1) (treeSize - 1) (leafHash th data) path

def verifyPath (leaf treeSize : Nat) (path : List ByteString) (root data : ByteString) : Bool :=
  let pathRoot := rootFromPath th leaf treeSize path data
  if pathRoot.isEmpty then false else pathRoot == root

def climbRightChildren (node lastNode : Nat) : Nat × Nat :=
  if isRightChild node then climbRightChildren (parent node) (parent lastNode)
  else (node, lastNode)
termination_by node
decreasing_by
  simp only [parent_eq]
  have : node % 2 = 1 := (isRightChild_eq_true_iff _).mp (by assumption)
  omega

def consistencyLoop (node lastNode : Nat) (node1Hash node2Hash : ByteString)
    (proof : List ByteString) : Option (Nat × ByteString × ByteString × List ByteString) :=
  if node = 0 then some (lastNode, node1Hash, node2Hash, proof)
  else
    match proof with
    | [] => none
    | entry :: rest =>
        if isRightChild node then
          consistencyLoop (parent node) (parent lastNode) (th.hashChildren entry node1Hash)
            (th.hashChildren entry node2Hash) rest
        else if node < lastNode then
          -- the sibling only exists in the later tree
          consistencyLoop (parent node) (parent lastNode) node1Hash
            (th.hashChildren node2Hash entry) rest
        else consistencyLoop (parent node) (parent lastNode) node1Hash node2Hash (entry :: rest)
termination_by node
decreasing_by all_goals simp only [parent_eq]; omega

def extendToRoot (lastNode : Nat) (node2Hash : ByteString) (proof : List ByteString) :
    Option (ByteString × List ByteString) :=
  if lastNode = 0 then some (node2Hash, proof)
  else
    match proof with
    | [] => none
    | entry :: rest => extendToRoot (parent lastNode) (th.hashChildren node2Hash entry) rest
termination_by lastNode
decreasing_by simp only [parent_eq]; omega

def verifyConsistency (snapshot1 snapshot2 : Nat) (root1 root2 : ByteString)
    (proof : List ByteString) : Bool :=
  if snapshot1 > snapshot2 then false
  else if snapshot1 = snapshot2 then root1 == root2 && proof.isEmpty
  else if snapshot1 = 0 then proof.isEmpty
  else
    match proof with
    | [] => false
    | first :: rest =>
        let (node, lastNode) := climbRightChildren (snapshot1 - 1) (snapshot2 - 1)
        let (nodeHash, proof) := if node ≠ 0 then (first, rest) else (root1, first :: rest)
        match consistencyLoop th node lastNode nodeHash nodeHash proof with
        | none => false
        | some (lastNode, node1Hash, node2Hash, proof) =>
            if node1Hash != root1 then false
            else
              match extendToRoot th lastNode node2Hash proof with
              | none => false
              | some (node2Hash, proof) => node2Hash == root2 && proof.isEmpty

def walk (node lastNode : Nat) (nodeHash : ByteString) (proof : List ByteString) :
    Option (ByteString × List ByteString) :=
  if lastNode = 0 then some (nodeHash, proof)
  else
    match proof with
    | [] => none
    | entry :: rest =>
        if node % 2 = 1 then walk (node / 2) (lastNode / 2) (th.hashChildren entry nodeHash) rest
        else if node < lastNode then
          walk (node / 2) (lastNode / 2) (th.hashChildren nodeHash entry) rest
        else walk (node / 2) (lastNode / 2) nodeHash (entry :: rest)
termination_by lastNode

section Walk

variable {th}

theorem walk_zero (node : Nat) (nodeHash : ByteString) (proof : List ByteString) :
    walk th node 0 nodeHash proof = some (nodeHash, proof) := by
  rw [walk.eq_def, if_pos rfl]

theorem walk_nil {node lastNode : Nat} (hlast : lastNode ≠ 0) (nodeHash : ByteString) :
    walk th node lastNode nodeHash [] = none := by
  rw [walk.eq_def, if_neg hlast]

theorem walk_cons {node lastNode : Nat} (hlast : lastNode ≠ 0) (nodeHash entry : ByteString)
    (rest : List ByteString) :
    walk th node lastNode nodeHash (entry :: rest) =
      if node % 2 = 1 then walk th (node / 2) (lastNode / 2) (th.hashChildren entry nodeHash) rest
      else if node < lastNode then
        walk th (node / 2) (lastNode / 2) (th.hashChildren nodeHash entry) rest
      else walk th (node / 2) (lastNode / 2) nodeHash (entry :: rest) := by
  rw [walk.eq_def, if_neg hlast]

theorem rootFromPathLoop_eq_walk (node lastNode : Nat) (nodeHash : ByteString)
    (path : List ByteString) :
    rootFromPathLoop th node lastNode nodeHash path =
      match walk th node lastNode nodeHash path with
      | some (r, []) => r
      | _ => [] := by
  by_cases hlast : lastNode = 0
  · subst hlast
    rw [rootFromPathLoop.eq_def, if_pos rfl, walk_zero]
    cases path <;> rfl
  · rw [rootFromPathLoop.eq_def, if_neg hlast]
    cases path with
    | nil => rw [walk_nil hlast]
    | cons entry rest =>
        rw [walk_cons hlast]
        simp only [parent_eq, isRightChild_eq_true_iff]
        split_ifs <;> exact rootFromPathLoop_eq_walk _ _ _ _
termination_by lastNode
decreasing_by all_goals omega

theorem extendToRoot_eq_walk (lastNode : Nat) (node2Hash : ByteString) (proof : List ByteString) :
    extendToRoot th lastNode node2Hash proof = walk th 0 lastNode node2Hash proof := by
  by_cases hlast : lastNode = 0
  · subst hlast
    rw [extendToRoot.eq_def, if_pos rfl, walk_zero]
  · rw [extendToRoot.eq_def, if_neg hlast]
    cases proof with
    | nil => rw [walk_nil hlast]
    | cons entry rest =>
        rw [walk_cons hlast, if_neg (by decide), if_pos (Nat.pos_of_ne_zero hlast), Nat.zero_div]
        simp only [parent_eq]
        exact extendToRoot_eq_walk _ _ _
termination_by lastNode
decreasing_by omega

variable (th) in
theorem consistencyLoop_bind_extendToRoot (node lastNode : Nat) (hle : node ≤ lastNode)
    (node1Hash node2Hash : ByteString) (proof : List ByteString) :
    (consistencyLoop th node lastNode node1Hash node2Hash proof).bind
        (fun r => extendToRoot th r.1 r.2.2.1 r.2.2.2) =
      walk th node lastNode node2Hash proof := by
  by_cases h0 : node = 0
  · subst h0
    rw [consistencyLoop.eq_def, if_pos rfl, Option.bind_some, extendToRoot_eq_walk]
  · have hlast : lastNode ≠ 0 := by omega
    rw [consistencyLoop.eq_def, if_neg h0]
    cases proof with
    | nil =>
        rw [walk_nil hlast]
        rfl
    | cons entry rest =>
        rw [walk_cons hlast]
        simp only [parent_eq, isRightChild_eq_true_iff]
        split_ifs <;> exact consistencyLoop_bind_extendToRoot _ _ (by omega) _ _ _
termination_by node
decreasing_by all_goals omega

theorem walk_eq_append {node lastNode : Nat} (hle : node ≤ lastNode) {nodeHash r : ByteString}
    {proof rest : List ByteString} (h : walk th node lastNode nodeHash proof = some (r, rest)) :
    ∃ used, proof = used ++ rest ∧ walk th node lastNode nodeHash used = some (r, []) := by
  by_cases hlast : lastNode = 0
  · subst hlast
    rw [walk_zero] at h
    cases h
    exact ⟨[], rfl, walk_zero _ _ _⟩
  · cases proof with
    | nil =>
        rw [walk_nil hlast] at h
        cases h
    | cons entry tail =>
        rw [walk_cons hlast] at h
        split_ifs at h with hodd hlt
        · -- a right child: the entry is used
          obtain ⟨used, htail, hwalk⟩ := walk_eq_append (by omega) h
          refine ⟨entry :: used, by rw [htail]; rfl, ?_⟩
          rw [walk_cons hlast, if_pos hodd]
          exact hwalk
        · -- a left child with a right sibling: the entry is used
          obtain ⟨used, htail, hwalk⟩ := walk_eq_append (by omega) h
          refine ⟨entry :: used, by rw [htail]; rfl, ?_⟩
          rw [walk_cons hlast, if_neg hodd, if_pos hlt]
          exact hwalk
        · -- a dummy copy: the node is the last one, so the walk goes on and
          obtain ⟨used, hproof, hwalk⟩ := walk_eq_append (by omega) h
          have hlast' : lastNode / 2 ≠ 0 := by omega
          obtain ⟨first, more, rfl⟩ : ∃ first more, used = first :: more := by
            cases used with
            | nil =>
                rw [walk_nil hlast'] at hwalk
                cases hwalk
            | cons first more => exact ⟨first, more, rfl⟩
          refine ⟨first :: more, hproof, ?_⟩
          rw [walk_cons hlast, if_neg hodd, if_neg hlt]
          exact hwalk
termination_by lastNode
decreasing_by all_goals omega

theorem consistencyLoop_append {node lastNode : Nat} {node1Hash node2Hash : ByteString}
    {proof : List ByteString} {r : Nat × ByteString × ByteString × List ByteString}
    (h : consistencyLoop th node lastNode node1Hash node2Hash proof = some r)
    (extra : List ByteString) :
    consistencyLoop th node lastNode node1Hash node2Hash (proof ++ extra) =
      some (r.1, r.2.1, r.2.2.1, r.2.2.2 ++ extra) := by
  by_cases h0 : node = 0
  · subst h0
    rw [consistencyLoop.eq_def, if_pos rfl] at h ⊢
    cases h
    rfl
  · rw [consistencyLoop.eq_def, if_neg h0] at h ⊢
    cases proof with
    | nil => cases h
    | cons entry tail =>
        simp only [parent_eq, isRightChild_eq_true_iff] at h ⊢
        split_ifs at h ⊢ <;> exact consistencyLoop_append h extra
termination_by node
decreasing_by all_goals omega

end Walk

section Levels

open LeftBalanced

variable {th}

variable (th) in
theorem walk_path (Y : List ByteString) {i : Nat} (hi : i < Y.length) :
    walk th i (Y.length - 1) (Y.getD i []) (path th.hashChildren th.hashEmpty i Y) =
      some (root th.hashChildren th.hashEmpty Y, []) := by
  induction hn : Y.length using Nat.strong_induction_on generalizing Y i with
  | _ n ih =>
      subst hn
      by_cases h1 : Y.length = 1
      · -- a single node is the root
        obtain ⟨a, rfl⟩ := List.length_eq_one_iff.mp h1
        obtain rfl : i = 0 := by simp at hi; omega
        rw [path_of_length_le _ _ _ (Or.inl le_rfl)]
        simp [walk_zero]
      · have hlast : Y.length - 1 ≠ 0 := by omega
        have hup : (pairUp th.hashChildren Y).length - 1 = (Y.length - 1) / 2 := by
          rw [length_pairUp]
          omega
        have hrec := ih _ (by rw [length_pairUp]; omega) (pairUp th.hashChildren Y) (i := i / 2)
          (by rw [length_pairUp]; omega) rfl
        rw [hup, root_pairUp] at hrec
        rw [path_eq_sibling_append _ _ hi]
        by_cases hodd : i % 2 = 1
        · rw [sibling_of_odd hi hodd [], List.singleton_append, walk_cons hlast, if_pos hodd,
            ← getD_pairUp_of_odd th.hashChildren hi hodd]
          exact hrec
        · by_cases hlt : i + 1 < Y.length
          · rw [sibling_of_even hlt (by omega) [], List.singleton_append, walk_cons hlast,
              if_neg hodd, if_pos (by omega), ← getD_pairUp_of_even th.hashChildren hlt (by omega)]
            exact hrec
          · -- a dummy copy: nothing of the path is used at this level
            have hpath : path th.hashChildren th.hashEmpty (i / 2) (pairUp th.hashChildren Y) ≠ [] :=
              path_ne_nil _ _ (by rw [length_pairUp]; omega) (by rw [length_pairUp]; omega)
            obtain ⟨entry, rest, hcons⟩ := List.exists_cons_of_ne_nil hpath
            rw [sibling_of_last (by omega) (by omega), List.nil_append, hcons, walk_cons hlast,
              if_neg hodd, if_neg (by omega), ← hcons,
              ← getD_pairUp_of_last _ (show i + 1 = Y.length by omega) (by omega)]
            exact hrec

theorem eq_of_walk_eq_root
    (hinj : ∀ a b c d, th.hashChildren a b = th.hashChildren c d → a = c ∧ b = d)
    (Y : List ByteString) {i : Nat} (hi : i < Y.length) {nodeHash : ByteString}
    {proof : List ByteString}
    (hwalk : walk th i (Y.length - 1) nodeHash proof =
      some (root th.hashChildren th.hashEmpty Y, [])) :
    nodeHash = Y.getD i [] ∧ proof = path th.hashChildren th.hashEmpty i Y := by
  induction hn : Y.length using Nat.strong_induction_on generalizing Y i nodeHash proof with
  | _ n ih =>
      subst hn
      by_cases h1 : Y.length = 1
      · obtain ⟨a, rfl⟩ := List.length_eq_one_iff.mp h1
        obtain rfl : i = 0 := by simp at hi; omega
        rw [show [a].length - 1 = 0 from rfl, walk_zero] at hwalk
        simp only [root_singleton, Option.some.injEq, Prod.mk.injEq] at hwalk
        rw [path_of_length_le _ _ _ (Or.inl le_rfl), hwalk.1, hwalk.2]
        exact ⟨rfl, rfl⟩
      · have hlast : Y.length - 1 ≠ 0 := by omega
        have hup : (Y.length - 1) / 2 = (pairUp th.hashChildren Y).length - 1 := by
          rw [length_pairUp]
          omega
        have hi' : i / 2 < (pairUp th.hashChildren Y).length := by
          rw [length_pairUp]
          omega
        have hlen' : (pairUp th.hashChildren Y).length < Y.length := by
          rw [length_pairUp]
          omega
        cases proof with
        | nil =>
            rw [walk_nil hlast] at hwalk
            exact absurd hwalk (by simp)
        | cons entry rest =>
            rw [walk_cons hlast, hup, ← root_pairUp th.hashChildren th.hashEmpty Y] at hwalk
            rw [path_eq_sibling_append _ _ hi]
            by_cases hodd : i % 2 = 1
            · -- a right child: the entry is its left sibling
              rw [if_pos hodd] at hwalk
              obtain ⟨hnode, hrest⟩ := ih _ hlen' _ hi' hwalk rfl
              rw [getD_pairUp_of_odd _ hi hodd] at hnode
              obtain ⟨hentry, hself⟩ := hinj _ _ _ _ hnode
              rw [sibling_of_odd hi hodd [], hentry, hrest]
              exact ⟨hself, rfl⟩
            · rw [if_neg hodd] at hwalk
              by_cases hlt : i + 1 < Y.length
              · -- a left child with a right sibling
                rw [if_pos (by omega)] at hwalk
                obtain ⟨hnode, hrest⟩ := ih _ hlen' _ hi' hwalk rfl
                rw [getD_pairUp_of_even _ hlt (by omega)] at hnode
                obtain ⟨hself, hentry⟩ := hinj _ _ _ _ hnode
                rw [sibling_of_even hlt (by omega) [], hentry, hrest]
                exact ⟨hself, rfl⟩
              · -- a dummy copy: the entry belongs to a level above
                rw [if_neg (by omega)] at hwalk
                obtain ⟨hnode, hrest⟩ := ih _ hlen' _ hi' hwalk rfl
                rw [getD_pairUp_of_last _ (show i + 1 = Y.length by omega) (by omega)] at hnode
                rw [sibling_of_last (by omega) (by omega), List.nil_append, hrest]
                exact ⟨hnode, rfl⟩

theorem climbRightChildren_eq (node lastNode : Nat) :
    ∃ k, climbRightChildren node lastNode = (node >>> k, lastNode >>> k) ∧
      node >>> k % 2 = 0 ∧ node + 1 = 2 ^ k * (node >>> k + 1) := by
  rw [climbRightChildren]
  by_cases hodd : isRightChild node = true
  · rw [if_pos hodd]
    have hx : node % 2 = 1 := (isRightChild_eq_true_iff node).mp hodd
    obtain ⟨k, hk, heven, hblock⟩ := climbRightChildren_eq (parent node) (parent lastNode)
    rw [parent_eq] at heven hblock
    obtain ⟨heven', hblock'⟩ := rightChild_block_succ hx heven hblock
    refine ⟨k + 1, ?_, heven', hblock'⟩
    rw [hk, parent_eq, parent_eq, Nat.shiftRight_succ_inside, Nat.shiftRight_succ_inside]
  · rw [if_neg hodd]
    refine ⟨0, by simp, ?_, by simp⟩
    simp only [isRightChild_eq_true_iff] at hodd
    simpa using hodd
termination_by node
decreasing_by
  simp only [parent_eq]
  have := (isRightChild_eq_true_iff node).mp hodd
  omega

variable (th) in
theorem consistencyLoop_path (X : List ByteString) {m : Nat} (hm0 : 0 < m) (hmX : m < X.length)
    (j : Nat) (node2Hash : ByteString) :
    ∃ lastNode node2Hash' proof,
      consistencyLoop th ((m - 1) >>> j) ((X.length - 1) >>> j) (MerkleTree.lastNodeAt th X m j)
          node2Hash (path th.hashChildren th.hashEmpty ((m - 1) >>> j) (level th.hashChildren X j)) =
        some (lastNode, root th.hashChildren th.hashEmpty (X.take m), node2Hash', proof) := by
  have hlen := length_level th.hashChildren X (List.ne_nil_of_length_pos (by omega)) j
  have hle : (m - 1) >>> j ≤ (X.length - 1) >>> j := shiftRight_le_shiftRight (by omega) j
  by_cases h0 : (m - 1) >>> j = 0
  · -- the old root is reached
    rw [MerkleTree.lastNodeAt_of_shiftRight_eq_zero hm0 hmX.le h0, h0, consistencyLoop.eq_def,
      if_pos rfl]
    exact ⟨_, _, _, rfl⟩
  · have hi : (m - 1) >>> j < (level th.hashChildren X j).length := by omega
    have hlast : (X.length - 1) >>> j ≠ 0 := by
      intro h
      rw [h] at hle
      exact h0 (Nat.le_zero.mp hle)
    have hspine := MerkleTree.lastNodeAt_succ th hm0 hmX.le j
    have hnext := fun node2Hash => consistencyLoop_path X hm0 hmX (j + 1) node2Hash
    rw [Nat.shiftRight_succ, Nat.shiftRight_succ, level_succ] at hnext
    rw [path_eq_sibling_append _ _ hi, consistencyLoop.eq_def, if_neg h0]
    by_cases hodd : (m - 1) >>> j % 2 = 1
    · -- a right child: its left sibling's block is complete in the old tree
      have hleft : (level th.hashChildren (X.take m) j).getD ((m - 1) >>> j - 1) [] =
          (level th.hashChildren X j).getD ((m - 1) >>> j - 1) [] := by
        refine getD_level_take _ X ?_ []
        rw [Nat.sub_add_cancel (Nat.pos_of_ne_zero h0)]
        exact le_trans (MerkleTree.two_pow_mul_shiftRight_le (m - 1) j) (Nat.sub_le m 1)
      rw [sibling_of_odd hi hodd [], List.singleton_append]
      dsimp only
      rw [if_pos ((isRightChild_eq_true_iff _).mpr hodd), parent_eq, parent_eq, ← hleft]
      rw [if_pos hodd] at hspine
      rw [← hspine]
      exact hnext _
    · rw [if_neg hodd] at hspine
      by_cases hlt : (m - 1) >>> j + 1 < (level th.hashChildren X j).length
      · -- a left child whose sibling only exists in the later tree
        rw [sibling_of_even hlt (by omega) [], List.singleton_append]
        dsimp only
        rw [if_neg (by rw [isRightChild_eq_true_iff]; exact hodd), if_pos (by omega), parent_eq,
          parent_eq, ← hspine]
        exact hnext _
      · -- a dummy copy in both trees
        have hpath : path th.hashChildren th.hashEmpty ((m - 1) >>> j / 2)
            (pairUp th.hashChildren (level th.hashChildren X j)) ≠ [] :=
          path_ne_nil _ _ (by rw [length_pairUp]; omega) (by rw [length_pairUp]; omega)
        obtain ⟨entry, rest, hcons⟩ := List.exists_cons_of_ne_nil hpath
        rw [sibling_of_last (by omega) (by omega), List.nil_append, hcons]
        dsimp only
        rw [if_neg (by rw [isRightChild_eq_true_iff]; exact hodd), if_neg (by omega), parent_eq,
          parent_eq, ← hcons, ← hspine]
        exact hnext _
termination_by (m - 1) >>> j
decreasing_by
  rw [Nat.shiftRight_succ]
  exact Nat.div_lt_self (Nat.pos_of_ne_zero h0) (by decide)

end Levels

section Verifier

open LeftBalanced

variable {th}

theorem leafHash_getD (D : List ByteString) {i : Nat} (hi : i < D.length) :
    leafHash th (D.getD i []) = (D.map th.hashLeaf).getD i [] := by
  rw [List.getD_eq_getElem _ _ hi, List.getD_eq_getElem _ _ (by simpa using hi),
    List.getElem_map, leafHash]

theorem verifyPath_auditPath (hleaf : ∀ d, th.hashLeaf d ≠ [])
    (hnode : ∀ a b, th.hashChildren a b ≠ []) (D : List ByteString) {m : Nat} (hm1 : 1 ≤ m)
    (hmn : m ≤ D.length) :
    verifyPath th m D.length (th.auditPath (m - 1) D) (th.mth D) (D.getD (m - 1) []) = true := by
  have hX : (D.map th.hashLeaf).length = D.length := List.length_map _
  have hroot : th.mth D ≠ [] := by
    refine root_of_forall (P := fun x => x ≠ []) th.hashChildren th.hashEmpty hnode
      (List.ne_nil_of_length_pos (by omega)) ?_
    intro x hx
    obtain ⟨d, -, rfl⟩ := List.mem_map.mp hx
    exact hleaf d
  have hwalk := walk_path th (D.map th.hashLeaf) (i := m - 1) (by omega)
  rw [hX] at hwalk
  have hpath : rootFromPath th m D.length (th.auditPath (m - 1) D) (D.getD (m - 1) []) =
      th.mth D := by
    rw [rootFromPath, if_neg (by omega), rootFromPathLoop_eq_walk, leafHash_getD D (by omega),
      TreeHasher.auditPath, hwalk, TreeHasher.mth]
  simp only [verifyPath, hpath]
  simpa using hroot

variable (th) in
theorem consistency_start (X : List ByteString) {m k : Nat} (hm0 : 0 < m) (hmX : m < X.length)
    (hm : m = 2 ^ k * ((m - 1) >>> k + 1)) :
    (level th.hashChildren X k).length - 1 = (X.length - 1) >>> k ∧
      (m - 1) >>> k < (level th.hashChildren X k).length ∧
      MerkleTree.lastNodeAt th X m k = (level th.hashChildren X k).getD ((m - 1) >>> k) [] := by
  have hlen := length_level th.hashChildren X (List.ne_nil_of_length_pos (by omega)) k
  refine ⟨by rw [hlen, Nat.add_sub_cancel], ?_, ?_⟩
  · rw [hlen]
    exact Nat.lt_succ_of_le (shiftRight_le_shiftRight (by omega) k)
  · rw [MerkleTree.lastNodeAt_eq_getD hm0 hmX.le, getD_level_take _ X hm.symm.le []]

theorem verifyConsistency_consistencyProof_of_lt (D : List ByteString) {m : Nat} (hm0 : 0 < m)
    (hmn : m < D.length) :
    verifyConsistency th m D.length (th.mth (D.take m)) (th.mth D) (th.consistencyProof m D) =
      true := by
  set X := D.map th.hashLeaf with hXdef
  have hX : X.length = D.length := List.length_map _
  have hmX : m < X.length := by omega
  have hroot1 : th.mth (D.take m) = root th.hashChildren th.hashEmpty (X.take m) := by
    rw [TreeHasher.mth, List.map_take]
  obtain ⟨k, hclimb, heven, hblock⟩ := climbRightChildren_eq (m - 1) (D.length - 1)
  have hm : m = 2 ^ k * ((m - 1) >>> k + 1) := by omega
  obtain ⟨hlast, hi, hnode⟩ := consistency_start th X hm0 hmX hm
  rw [hX] at hlast
  have hle : (m - 1) >>> k ≤ (D.length - 1) >>> k := shiftRight_le_shiftRight (by omega) k
  have hwalk := walk_path th (level th.hashChildren X k) hi
  rw [hlast, root_level] at hwalk
  obtain ⟨last', h2', q', hloop⟩ := consistencyLoop_path th X hm0 hmX k
    ((level th.hashChildren X k).getD ((m - 1) >>> k) [])
  rw [hnode, hX] at hloop
  have hext := consistencyLoop_bind_extendToRoot th _ _ hle
    ((level th.hashChildren X k).getD ((m - 1) >>> k) [])
    ((level th.hashChildren X k).getD ((m - 1) >>> k) [])
    (path th.hashChildren th.hashEmpty ((m - 1) >>> k) (level th.hashChildren X k))
  rw [hloop, Option.bind_some, hwalk] at hext
  rw [verifyConsistency.eq_def, if_neg (by omega), if_neg (by omega), if_neg (by omega),
    TreeHasher.consistencyProof, ← hXdef,
    consistencyProof_eq_path th.hashChildren th.hashEmpty hm heven hmX]
  by_cases h0 : (m - 1) >>> k = 0
  · -- the old tree is balanced: the verifier starts from the old root
    have h2 : 2 ≤ (level th.hashChildren X k).length := by
      rw [h0] at hm
      have : 1 ≤ (X.length - 1) / 2 ^ k :=
        (Nat.le_div_iff_mul_le (Nat.two_pow_pos k)).mpr (by omega)
      rw [← hX, Nat.shiftRight_eq_div_pow] at hlast
      omega
    have hpath : path th.hashChildren th.hashEmpty ((m - 1) >>> k) (level th.hashChildren X k) ≠
        [] := path_ne_nil _ _ h2 hi
    obtain ⟨entry, rest, hcons⟩ := List.exists_cons_of_ne_nil hpath
    have hstart : root th.hashChildren th.hashEmpty (X.take m) =
        (level th.hashChildren X k).getD ((m - 1) >>> k) [] := by
      rw [← hnode, MerkleTree.lastNodeAt_of_shiftRight_eq_zero hm0 hmX.le h0]
    rw [if_pos h0, List.nil_append, hcons, hclimb]
    dsimp only
    rw [if_neg (by simpa using h0), ← hcons, hroot1, hstart, hloop]
    dsimp only
    rw [← hstart, bne_self_eq_false, if_neg (by decide), hext, ← TreeHasher.mth]
    simp
  · -- the proof starts with the old tree's last complete subtree
    have hfirst : (level th.hashChildren X k)[(m - 1) >>> k]?.toList =
        [(level th.hashChildren X k).getD ((m - 1) >>> k) []] := by
      rw [List.getElem?_eq_getElem hi, List.getD_eq_getElem _ _ hi]
      rfl
    rw [if_neg h0, hfirst, List.singleton_append, hclimb]
    dsimp only
    rw [if_pos h0, hroot1, hloop]
    dsimp only
    rw [bne_self_eq_false, if_neg (by decide), hext, ← TreeHasher.mth]
    simp

theorem verifyConsistency_consistencyProof (D : List ByteString) {m : Nat} (hm0 : 0 < m)
    (hmn : m ≤ D.length) :
    verifyConsistency th m D.length (th.mth (D.take m)) (th.mth D) (th.consistencyProof m D) =
      true := by
  rcases Nat.lt_or_eq_of_le hmn with hlt | rfl
  · exact verifyConsistency_consistencyProof_of_lt D hm0 hlt
  · -- equal sizes: the proof is empty and the roots agree
    have hX : (D.map th.hashLeaf).length = D.length := List.length_map _
    rw [verifyConsistency.eq_def, if_neg (lt_irrefl _), if_pos rfl, TreeHasher.consistencyProof,
      consistencyProof, List.take_length, ← hX, subproof_of_eq_length _ _ _ _ (by omega)]
    simp

theorem verifyPath_sound
    (hinj : ∀ a b c d, th.hashChildren a b = th.hashChildren c d → a = c ∧ b = d)
    (hleaf : Function.Injective th.hashLeaf) (D : List ByteString) {m : Nat}
    {path : List ByteString} {data : ByteString}
    (hv : verifyPath th m D.length path (th.mth D) data = true) :
    1 ≤ m ∧ m ≤ D.length ∧ data = D.getD (m - 1) [] := by
  have hX : (D.map th.hashLeaf).length = D.length := List.length_map _
  obtain ⟨hne, hroot⟩ : rootFromPath th m D.length path data ≠ [] ∧
      rootFromPath th m D.length path data = th.mth D := by
    simpa [verifyPath] using hv
  rw [rootFromPath] at hne hroot
  have hm : ¬ (m > D.length ∨ m = 0) := fun h => hne (if_pos h)
  rw [if_neg hm, rootFromPathLoop_eq_walk] at hne hroot
  rcases hw : walk th (m - 1) (D.length - 1) (leafHash th data) path with _ | ⟨r, _ | ⟨e, rest⟩⟩
  · rw [hw] at hne
    exact absurd rfl hne
  · rw [hw] at hroot
    dsimp only at hroot
    rw [hroot, TreeHasher.mth, ← hX] at hw
    have hi : m - 1 < (D.map th.hashLeaf).length := by omega
    obtain ⟨hdata, -⟩ := eq_of_walk_eq_root hinj (D.map th.hashLeaf) hi hw
    rw [← leafHash_getD D (by omega), leafHash, leafHash] at hdata
    exact ⟨by omega, by omega, hleaf hdata⟩
  · rw [hw] at hne
    exact absurd rfl hne

theorem verifyConsistency_sound
    (hinj : ∀ a b c d, th.hashChildren a b = th.hashChildren c d → a = c ∧ b = d)
    (D : List ByteString) {m : Nat} (hm0 : 0 < m) (hmn : m < D.length) {root1 : ByteString}
    {proof : List ByteString} (hv : verifyConsistency th m D.length root1 (th.mth D) proof = true) :
    root1 = th.mth (D.take m) := by
  set X := D.map th.hashLeaf with hXdef
  have hX : X.length = D.length := List.length_map _
  have hmX : m < X.length := by omega
  obtain ⟨k, hclimb, -, hblock⟩ := climbRightChildren_eq (m - 1) (D.length - 1)
  have hm : m = 2 ^ k * ((m - 1) >>> k + 1) := by omega
  obtain ⟨hlast, hi, hnode⟩ := consistency_start th X hm0 hmX hm
  rw [hX] at hlast
  have hle : (m - 1) >>> k ≤ (D.length - 1) >>> k := shiftRight_le_shiftRight (by omega) k
  rw [verifyConsistency.eq_def, if_neg (by omega), if_neg (by omega), if_neg (by omega)] at hv
  cases proof with
  | nil => simp at hv
  | cons first rest =>
      rw [hclimb] at hv
      dsimp only at hv
      generalize (if (m - 1) >>> k ≠ 0 then (first, rest) else (root1, first :: rest)) = st at hv
      obtain ⟨H, Q⟩ := st
      dsimp only at hv
      rcases hloop : consistencyLoop th ((m - 1) >>> k) ((D.length - 1) >>> k) H H Q with
        _ | ⟨last', h1', h2', q'⟩
      · rw [hloop] at hv
        simp at hv
      rw [hloop] at hv
      dsimp only at hv
      by_cases h1 : h1' = root1
      swap
      · rw [if_pos (by simpa using h1)] at hv
        simp at hv
      rw [if_neg (by simpa using h1)] at hv
      rcases hext : extendToRoot th last' h2' q' with _ | ⟨h2'', q''⟩
      · rw [hext] at hv
        simp at hv
      rw [hext] at hv
      obtain ⟨hroot2, hempty⟩ : h2'' = th.mth D ∧ q'' = [] := by simpa using hv
      have hwalk := consistencyLoop_bind_extendToRoot th _ _ hle H H Q
      rw [hloop, Option.bind_some, hext, hroot2, hempty, TreeHasher.mth, ← hXdef,
        ← root_level th.hashChildren th.hashEmpty X k, ← hlast] at hwalk
      obtain ⟨hH, hQ⟩ := eq_of_walk_eq_root hinj (level th.hashChildren X k) hi hwalk.symm
      obtain ⟨_, _, _, hold⟩ := consistencyLoop_path th X hm0 hmX k H
      rw [hnode, ← hH, ← hQ, hX, hloop] at hold
      simp only [Option.some.injEq, Prod.mk.injEq] at hold
      rw [← h1, hold.2.1, TreeHasher.mth, List.map_take]

end Verifier

def unaryFramedHasher : TreeHasher where
  digestSize := 0
  hashEmpty := []
  hashLeaf data := 2 :: data
  hashChildren leftChild rightChild :=
    List.replicate leftChild.length 1 ++ 0 :: (leftChild ++ rightChild)

theorem replicate_append_zero_inj {a b : Nat} {u v : ByteString}
    (h : List.replicate a (1 : UInt8) ++ 0 :: u = List.replicate b 1 ++ 0 :: v) :
    a = b ∧ u = v := by
  induction a generalizing b with
  | zero =>
      cases b with
      | zero => simpa using h
      | succ b => simp [List.replicate_succ] at h
  | succ a ih =>
      cases b with
      | zero => simp [List.replicate_succ] at h
      | succ b =>
          simp only [List.replicate_succ, List.cons_append, List.cons.injEq, true_and] at h
          obtain ⟨hab, huv⟩ := ih h
          exact ⟨congrArg (· + 1) hab, huv⟩

theorem unaryFramedHasher_hashLeaf_ne_nil (data : ByteString) :
    unaryFramedHasher.hashLeaf data ≠ [] := List.cons_ne_nil _ _

theorem unaryFramedHasher_hashChildren_ne_nil (leftChild rightChild : ByteString) :
    unaryFramedHasher.hashChildren leftChild rightChild ≠ [] := by
  simp [unaryFramedHasher]

theorem unaryFramedHasher_hashLeaf_injective : Function.Injective unaryFramedHasher.hashLeaf :=
  fun _ _ h => List.cons_injective h

theorem unaryFramedHasher_hashChildren_inj (a b c d : ByteString)
    (h : unaryFramedHasher.hashChildren a b = unaryFramedHasher.hashChildren c d) :
    a = c ∧ b = d := by
  obtain ⟨hlen, happ⟩ := replicate_append_zero_inj h
  exact List.append_inj happ hlen

/-- Completeness: both checks accept the RFC 6962 proofs of every tree, for a
hash whose outputs are never empty. -/
theorem verifier_complete (hleaf : ∀ d, th.hashLeaf d ≠ [])
    (hnode : ∀ a b, th.hashChildren a b ≠ []) (D : List ByteString) :
    (∀ m, 1 ≤ m → m ≤ D.length →
      verifyPath th m D.length (th.auditPath (m - 1) D) (th.mth D) (D.getD (m - 1) []) = true) ∧
    (∀ m, 0 < m → m ≤ D.length →
      verifyConsistency th m D.length (th.mth (D.take m)) (th.mth D)
        (th.consistencyProof m D) = true) :=
  ⟨fun _ hm1 hmn => verifyPath_auditPath hleaf hnode D hm1 hmn,
    fun _ hm0 hmn => verifyConsistency_consistencyProof D hm0 hmn⟩

theorem verifier_complete_unaryFramed :
    (∀ d, unaryFramedHasher.hashLeaf d ≠ []) ∧
      (∀ a b, unaryFramedHasher.hashChildren a b ≠ []) ∧
      verifyConsistency unaryFramedHasher 2 3 (unaryFramedHasher.mth ([[1], [2], [3]].take 2))
        (unaryFramedHasher.mth [[1], [2], [3]])
        (unaryFramedHasher.consistencyProof 2 [[1], [2], [3]]) = true :=
  ⟨unaryFramedHasher_hashLeaf_ne_nil, unaryFramedHasher_hashChildren_ne_nil,
    (verifier_complete unaryFramedHasher unaryFramedHasher_hashLeaf_ne_nil
      unaryFramedHasher_hashChildren_ne_nil [[1], [2], [3]]).2 2 (by decide) (by decide)⟩

/-- Soundness: with a hash that determines its two children and an injective
leaf hash, an accepted consistency proof fixes the old root, and an accepted
audit path fixes the leaf's index and data. -/
theorem verifier_sound
    (hinj : ∀ a b c d, th.hashChildren a b = th.hashChildren c d → a = c ∧ b = d)
    (hleaf : Function.Injective th.hashLeaf) (D : List ByteString) :
    (∀ m, 0 < m → m < D.length → ∀ root1 proof,
      verifyConsistency th m D.length root1 (th.mth D) proof = true →
        root1 = th.mth (D.take m)) ∧
    (∀ m path data, verifyPath th m D.length path (th.mth D) data = true →
      1 ≤ m ∧ m ≤ D.length ∧ data = D.getD (m - 1) []) :=
  ⟨fun _ hm0 hmn _ _ hv => verifyConsistency_sound hinj D hm0 hmn hv,
    fun _ _ _ hv => verifyPath_sound hinj hleaf D hv⟩

theorem verifier_sound_unaryFramed :
    (∀ a b c d, unaryFramedHasher.hashChildren a b = unaryFramedHasher.hashChildren c d →
      a = c ∧ b = d) ∧
      Function.Injective unaryFramedHasher.hashLeaf ∧
      ∀ path data, verifyPath unaryFramedHasher 2 3 path (unaryFramedHasher.mth [[1], [2], [3]])
        data = true → data = [2] :=
  ⟨unaryFramedHasher_hashChildren_inj, unaryFramedHasher_hashLeaf_injective, fun path data hv =>
    ((verifier_sound unaryFramedHasher unaryFramedHasher_hashChildren_inj
      unaryFramedHasher_hashLeaf_injective [[1], [2], [3]]).2 2 path data hv).2.2⟩

end MerkleVerifier

end CertTrans
