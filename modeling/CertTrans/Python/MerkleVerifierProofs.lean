import CertTrans.Codec.Bytes
import CertTrans.Merkletree.MerkleVerifier
import CertTrans.Python.Merkle

/-!
The Python `MerkleVerifier` is complete and sound.

Its loops are those of the C++ verifier with Python's errors: the loop of
`_calculate_root_hash_from_audit_path` is the walk of
`CertTrans.MerkleVerifier`, and the two loops of `verify_tree_consistency`
are its `consistencyLoop` and `extendToRoot`, as far as whether they succeed
and what they return.  The one difference in the consistency loop, that
Python asks for a proof node only when it hashes one, changes nothing: a walk
out of nodes at a dummy step fails at a later level.  So the Python verifier
accepts what the C++ one accepts; proof nodes left over, which the C++
verifier rejects and Python ignores, are split off by `walk_eq_append`, and
the soundness of the walk applies to the rest.
-/

namespace CertTrans.Python.Merkle

open Codec

variable (th : TreeHasher)

namespace MerkleVerifier

section Loops

theorem next_cons (node : ByteString) (p : List ByteString) : next (node :: p) = .ok (node, p) :=
  rfl

theorem calculateLoop_toOption (nodeIndex lastNode : Nat) (calculatedHash : ByteString)
    (auditPath : List ByteString) :
    (calculateLoop th nodeIndex lastNode calculatedHash auditPath).toOption =
      CertTrans.MerkleVerifier.walk th nodeIndex lastNode calculatedHash auditPath := by
  by_cases hlast : lastNode = 0
  · subst hlast
    rw [calculateLoop.eq_def, if_neg (Nat.lt_irrefl 0), CertTrans.MerkleVerifier.walk_zero]
    rfl
  · rw [calculateLoop.eq_def, if_pos (Nat.pos_of_ne_zero hlast)]
    cases auditPath with
    | nil =>
        rw [CertTrans.MerkleVerifier.walk_nil hlast]
        rfl
    | cons auditHash rest =>
        rw [CertTrans.MerkleVerifier.walk_cons hlast]
        dsimp only
        split_ifs <;> exact calculateLoop_toOption _ _ _ _
termination_by lastNode
decreasing_by all_goals omega

theorem climbRightChildren_eq (node lastNode : Nat) :
    climbRightChildren node lastNode =
      CertTrans.MerkleVerifier.climbRightChildren node lastNode := by
  rw [climbRightChildren.eq_def, CertTrans.MerkleVerifier.climbRightChildren]
  simp only [MerkleTreeMath.isRightChild_eq_true_iff, MerkleTreeMath.parent_eq]
  split_ifs with hodd
  · exact climbRightChildren_eq _ _
  · rfl
termination_by node
decreasing_by omega

theorem consistencyLoop_nil {node : Nat} (h0 : node ≠ 0) (lastNode : Nat)
    (node1Hash node2Hash : ByteString) :
    CertTrans.MerkleVerifier.consistencyLoop th node lastNode node1Hash node2Hash [] = none := by
  rw [CertTrans.MerkleVerifier.consistencyLoop.eq_def, if_neg h0]

theorem consistencyLoop_toOption (node lastNode : Nat) (oldHash newHash : ByteString)
    (p : List ByteString) :
    (consistencyLoop th node lastNode oldHash newHash p).toOption =
      CertTrans.MerkleVerifier.consistencyLoop th node lastNode oldHash newHash p := by
  by_cases h0 : node = 0
  · subst h0
    rw [consistencyLoop.eq_def, if_pos rfl, CertTrans.MerkleVerifier.consistencyLoop.eq_def,
      if_pos rfl]
    rfl
  rw [consistencyLoop.eq_def, if_neg h0]
  cases p with
  | nil =>
      rw [consistencyLoop_nil th h0]
      split_ifs with hodd hlt
      · rfl
      · rfl
      · -- carried up with no proof left: the next level asks for a node
        rw [consistencyLoop_toOption, consistencyLoop_nil th (by omega)]
  | cons nextNode p =>
      rw [CertTrans.MerkleVerifier.consistencyLoop.eq_def, if_neg h0]
      simp only [MerkleTreeMath.isRightChild_eq_true_iff, MerkleTreeMath.parent_eq, next_cons,
        except_ok_bind]
      split_ifs <;> exact consistencyLoop_toOption _ _ _ _ _
termination_by node
decreasing_by all_goals omega

theorem rootLoop_toOption (lastNode : Nat) (newHash : ByteString) (p : List ByteString) :
    (rootLoop th lastNode newHash p).toOption =
      CertTrans.MerkleVerifier.extendToRoot th lastNode newHash p := by
  by_cases hlast : lastNode = 0
  · subst hlast
    rw [rootLoop.eq_def, if_pos rfl, CertTrans.MerkleVerifier.extendToRoot.eq_def, if_pos rfl]
    rfl
  rw [rootLoop.eq_def, if_neg hlast, CertTrans.MerkleVerifier.extendToRoot.eq_def, if_neg hlast]
  cases p with
  | nil => rfl
  | cons nextNode p =>
      simp only [MerkleTreeMath.parent_eq, next_cons, except_ok_bind]
      exact rootLoop_toOption _ _ _
termination_by lastNode
decreasing_by omega

theorem ite_bind {ε α β : Type} (c : Prop) [Decidable c] (x y : Except ε α)
    (k : α → Except ε β) : (if c then x >>= k else y >>= k) = (if c then x else y) >>= k := by
  split_ifs <;> rfl

theorem eq_ok_of_toOption_eq_some {ε α : Type} {x : Except ε α} {a : α}
    (h : x.toOption = some a) : x = .ok a := by
  cases x with
  | error e => cases h
  | ok b =>
      cases h
      rfl

end Loops

section Inclusion

variable {th}

theorem calculateRootHashFromAuditPath_eq_ok {leafHash : ByteString} {nodeIndex : Nat}
    {auditPath : List ByteString} {treeSize : Nat} {r : ByteString} :
    calculateRootHashFromAuditPath th leafHash nodeIndex auditPath treeSize = .ok r ↔
      CertTrans.MerkleVerifier.walk th nodeIndex (treeSize - 1) leafHash auditPath =
        some (r, []) := by
  have hbridge := calculateLoop_toOption th nodeIndex (treeSize - 1) leafHash auditPath
  rw [calculateRootHashFromAuditPath]
  rcases hloop : calculateLoop th nodeIndex (treeSize - 1) leafHash auditPath with e | ⟨r', rest⟩
  · rw [hloop] at hbridge
    rw [← hbridge]
    constructor <;> intro h <;> cases h
  · rw [hloop] at hbridge
    rw [← hbridge, except_ok_bind]
    dsimp only
    by_cases hrest : rest = []
    · -- the path is used up: the walk's hash is returned
      subst hrest
      rw [if_neg (not_not_intro rfl)]
      constructor <;> intro h <;> cases h <;> rfl
    · -- hashes left over are an error
      rw [if_pos hrest]
      constructor <;> intro h <;> cases h
      exact absurd rfl hrest

theorem verifyLeafHashInclusion_eq_ok_iff {leafHash : ByteString} {leafIndex : Int}
    {proof : List ByteString} {sth : SignedTreeHead} :
    verifyLeafHashInclusion th leafHash leafIndex proof sth = .ok true ↔
      0 ≤ leafIndex ∧ leafIndex < sth.treeSize ∧
        CertTrans.MerkleVerifier.walk th leafIndex.toNat (sth.treeSize.toNat - 1) leafHash proof =
          some (sth.sha256RootHash, []) := by
  constructor
  · intro hv
    rw [verifyLeafHashInclusion] at hv
    dsimp only at hv
    by_cases hsmall : sth.treeSize ≤ leafIndex
    · rw [if_pos hsmall] at hv
      cases hv
    by_cases hneg : sth.treeSize < 0 ∨ leafIndex < 0
    · rw [if_neg hsmall, if_pos hneg] at hv
      cases hv
    rw [if_neg hsmall, if_neg hneg] at hv
    obtain ⟨r, hcalc, hcheck⟩ := except_bind_eq_ok.mp hv
    split_ifs at hcheck with hr
    refine ⟨by omega, by omega, ?_⟩
    rw [← hr]
    exact calculateRootHashFromAuditPath_eq_ok.mp hcalc
  · rintro ⟨hnonneg, hlt, hwalk⟩
    rw [verifyLeafHashInclusion]
    dsimp only
    rw [if_neg (by omega), if_neg (by omega), calculateRootHashFromAuditPath_eq_ok.mpr hwalk,
      except_ok_bind, if_pos rfl]
    rfl

theorem verifyLeafInclusion_auditPath (D : List ByteString) {i : Nat} (hi : i < D.length)
    {sth : SignedTreeHead} (hsize : sth.treeSize = D.length) (hroot : sth.sha256RootHash = th.mth D) :
    verifyLeafInclusion th (D.getD i []) i (th.auditPath i D) sth = .ok true := by
  have hwalk := CertTrans.MerkleVerifier.walk_path th (D.map th.hashLeaf) (i := i)
    (by rwa [List.length_map])
  rw [List.length_map, ← CertTrans.MerkleVerifier.leafHash_getD D hi] at hwalk
  rw [verifyLeafInclusion, verifyLeafHashInclusion_eq_ok_iff, hsize, hroot, Int.toNat_natCast,
    Int.toNat_natCast, TreeHasher.auditPath, TreeHasher.mth]
  exact ⟨by omega, by omega, hwalk⟩

theorem verifyLeafHashInclusion_sound
    (hinj : ∀ a b c d, th.hashChildren a b = th.hashChildren c d → a = c ∧ b = d)
    (D : List ByteString) {leafHash : ByteString} {leafIndex : Int} {proof : List ByteString}
    {sth : SignedTreeHead} (hsize : sth.treeSize = D.length) (hroot : sth.sha256RootHash = th.mth D)
    (hv : verifyLeafHashInclusion th leafHash leafIndex proof sth = .ok true) :
    0 ≤ leafIndex ∧ leafIndex < D.length ∧ leafHash = th.hashLeaf (D.getD leafIndex.toNat []) := by
  obtain ⟨hnonneg, hlt, hwalk⟩ := verifyLeafHashInclusion_eq_ok_iff.mp hv
  rw [hsize] at hlt
  have hlen : (D.map th.hashLeaf).length = D.length := List.length_map _
  have hi : leafIndex.toNat < (D.map th.hashLeaf).length := by
    rw [hlen]
    omega
  rw [hsize, hroot, Int.toNat_natCast, TreeHasher.mth, ← hlen] at hwalk
  obtain ⟨hleaf, -⟩ := CertTrans.MerkleVerifier.eq_of_walk_eq_root hinj (D.map th.hashLeaf) hi hwalk
  rw [← CertTrans.MerkleVerifier.leafHash_getD D (by rwa [hlen] at hi)] at hleaf
  exact ⟨hnonneg, hlt, hleaf⟩

end Inclusion

section Consistency

variable {th}

theorem verifyTreeConsistency_eq_ok {oldTreeSize newTreeSize : Int} {oldRoot newRoot : ByteString}
    {proof : List ByteString} {b : Bool}
    (hv : verifyTreeConsistency th oldTreeSize newTreeSize oldRoot newRoot proof = .ok b) :
    b = true := by
  unfold verifyTreeConsistency at hv
  split_ifs at hv
  · exact (Except.ok.inj hv).symm
  · exact (Except.ok.inj hv).symm
  · -- the first proof node, the two loops, then the two root checks
    generalize climbRightChildren _ _ = nodes at hv
    obtain ⟨node, lastNode⟩ := nodes
    dsimp only at hv
    rw [ite_bind] at hv
    split_ifs at hv <;>
    · obtain ⟨⟨_, _⟩, -, hv⟩ := except_bind_eq_ok.mp hv
      obtain ⟨⟨_, _, _, _⟩, -, hv⟩ := except_bind_eq_ok.mp hv
      obtain ⟨⟨_, _⟩, -, hv⟩ := except_bind_eq_ok.mp hv
      dsimp only at hv
      split_ifs at hv
      exact (Except.ok.inj hv).symm

theorem root_eq_of_verifyTreeConsistency {treeSize : Int} {oldRoot newRoot : ByteString}
    {proof : List ByteString} {b : Bool}
    (hv : verifyTreeConsistency th treeSize treeSize oldRoot newRoot proof = .ok b) :
    oldRoot = newRoot := by
  rw [verifyTreeConsistency] at hv
  split_ifs at hv with _ _ hsize hroot
  · exact hroot
  all_goals exact absurd rfl hsize

theorem verifyTreeConsistency_of_verifyConsistency {m n : Nat} (hm0 : 0 < m) (hmn : m < n)
    {oldRoot newRoot : ByteString} {proof : List ByteString}
    (hv : CertTrans.MerkleVerifier.verifyConsistency th m n oldRoot newRoot proof = true) :
    verifyTreeConsistency th m n oldRoot newRoot proof = .ok true := by
  rw [CertTrans.MerkleVerifier.verifyConsistency.eq_def, if_neg (by omega), if_neg (by omega),
    if_neg (by omega)] at hv
  have hm1 : ((m : Int) - 1).toNat = m - 1 := by omega
  have hn1 : ((n : Int) - 1).toNat = n - 1 := by omega
  rw [verifyTreeConsistency, if_neg (by omega), if_neg (by omega), if_neg (by omega),
    if_neg (by omega), hm1, hn1, climbRightChildren_eq]
  rcases hclimb : CertTrans.MerkleVerifier.climbRightChildren (m - 1) (n - 1) with ⟨node, lastNode⟩
  rw [hclimb] at hv
  dsimp only at hv ⊢
  cases proof with
  | nil => cases hv
  | cons first rest =>
      dsimp only at hv
      have hstart : (if node ≠ 0 then next (first :: rest) else pure (oldRoot, first :: rest)) =
          .ok (if node ≠ 0 then (first, rest) else (oldRoot, first :: rest)) := by
        split_ifs <;> rfl
      rw [ite_bind, hstart, except_ok_bind]
      generalize (if node ≠ 0 then (first, rest) else (oldRoot, first :: rest)) = st at hv ⊢
      obtain ⟨H, Q⟩ := st
      dsimp only at hv ⊢
      rcases hloop : CertTrans.MerkleVerifier.consistencyLoop th node lastNode H H Q with
        _ | ⟨l', a, b, q⟩
      · rw [hloop] at hv
        cases hv
      rw [hloop] at hv
      dsimp only at hv
      by_cases ha : a = oldRoot
      swap
      · rw [if_pos (by simpa using ha)] at hv
        cases hv
      rw [if_neg (by simpa using ha)] at hv
      rcases hext : CertTrans.MerkleVerifier.extendToRoot th l' b q with _ | ⟨b', q'⟩
      · rw [hext] at hv
        cases hv
      rw [hext] at hv
      obtain ⟨hb', -⟩ : b' = newRoot ∧ q' = [] := by simpa using hv
      have hloop' : consistencyLoop th node lastNode H H Q = .ok (l', a, b, q) :=
        eq_ok_of_toOption_eq_some (by rw [consistencyLoop_toOption, hloop])
      have hext' : rootLoop th l' b q = .ok (b', q') :=
        eq_ok_of_toOption_eq_some (by rw [rootLoop_toOption, hext])
      rw [hloop', except_ok_bind]
      dsimp only
      rw [hext', except_ok_bind]
      dsimp only
      rw [if_neg (not_not_intro hb'), if_neg (not_not_intro ha)]
      rfl

theorem verifyTreeConsistency_consistencyProof (D : List ByteString) {m : Nat}
    (hm : m ≤ D.length) :
    verifyTreeConsistency th m D.length (th.mth (D.take m)) (th.mth D)
      (th.consistencyProof m D) = .ok true := by
  rcases Nat.lt_or_eq_of_le hm with hlt | rfl
  · rcases Nat.eq_zero_or_pos m with rfl | hm0
    · -- anything is consistent with the empty tree
      rw [verifyTreeConsistency, if_neg (by omega), if_neg (by omega), if_neg (by omega),
        if_pos Nat.cast_zero]
      rfl
    · exact verifyTreeConsistency_of_verifyConsistency hm0 hlt
        (CertTrans.MerkleVerifier.verifyConsistency_consistencyProof D hm0 hm)
  · -- equal sizes: the roots agree
    rw [verifyTreeConsistency, if_neg (by omega), if_neg (by omega), if_pos rfl, List.take_length,
      if_pos rfl]
    rfl

theorem verifyTreeConsistency_sound
    (hinj : ∀ a b c d, th.hashChildren a b = th.hashChildren c d → a = c ∧ b = d)
    (D : List ByteString) {m : Nat} (hm0 : 0 < m) (hmn : m < D.length) {oldRoot : ByteString}
    {proof : List ByteString}
    (hv : verifyTreeConsistency th m D.length oldRoot (th.mth D) proof = .ok true) :
    oldRoot = th.mth (D.take m) := by
  set X := D.map th.hashLeaf with hXdef
  have hX : X.length = D.length := List.length_map _
  have hmX : m < X.length := by omega
  obtain ⟨k, hclimb, -, hblock⟩ :=
    CertTrans.MerkleVerifier.climbRightChildren_eq (m - 1) (D.length - 1)
  have hm : m = 2 ^ k * ((m - 1) >>> k + 1) := by omega
  obtain ⟨hlast, hi, hnode⟩ := CertTrans.MerkleVerifier.consistency_start th X hm0 hmX hm
  rw [hX] at hlast
  have hle : (m - 1) >>> k ≤ (D.length - 1) >>> k :=
    MerkleTreeMath.shiftRight_le_shiftRight (by omega) k
  have hm1 : ((m : Int) - 1).toNat = m - 1 := by omega
  have hn1 : ((D.length : Int) - 1).toNat = D.length - 1 := by omega
  rw [verifyTreeConsistency, if_neg (by omega), if_neg (by omega), if_neg (by omega),
    if_neg (by omega), hm1, hn1, climbRightChildren_eq, hclimb] at hv
  dsimp only at hv
  rw [ite_bind] at hv
  obtain ⟨⟨H, Q⟩, -, hv⟩ := except_bind_eq_ok.mp hv
  obtain ⟨⟨l', a, b, q⟩, hloop, hv⟩ := except_bind_eq_ok.mp hv
  obtain ⟨⟨b', q'⟩, hext, hv⟩ := except_bind_eq_ok.mp hv
  dsimp only at hv
  split_ifs at hv with hb ha
  rw [not_not] at hb ha
  have hloopC : CertTrans.MerkleVerifier.consistencyLoop th ((m - 1) >>> k)
      ((D.length - 1) >>> k) H H Q = some (l', a, b, q) := by
    rw [← consistencyLoop_toOption, hloop]
    rfl
  have hextC : CertTrans.MerkleVerifier.extendToRoot th l' b q = some (b', q') := by
    rw [← rootLoop_toOption, hext]
    rfl
  have hwalk := CertTrans.MerkleVerifier.consistencyLoop_bind_extendToRoot th _ _ hle H H Q
  rw [hloopC, Option.bind_some, hextC, hb] at hwalk
  obtain ⟨used, hQ, hused⟩ := CertTrans.MerkleVerifier.walk_eq_append hle hwalk.symm
  rw [TreeHasher.mth, ← hXdef, ← LeftBalanced.root_level th.hashChildren th.hashEmpty X k,
    ← hlast] at hused
  obtain ⟨hH, hP⟩ := CertTrans.MerkleVerifier.eq_of_walk_eq_root hinj _ hi hused
  obtain ⟨_, _, _, hold⟩ := CertTrans.MerkleVerifier.consistencyLoop_path th X hm0 hmX k H
  rw [hnode, ← hH, ← hP, hX] at hold
  have hold' := CertTrans.MerkleVerifier.consistencyLoop_append hold q'
  rw [← hQ, hloopC] at hold'
  simp only [Option.some.injEq, Prod.mk.injEq] at hold'
  rw [← ha, hold'.2.1, TreeHasher.mth, List.map_take]

end Consistency

/-- The Python verifier is complete and sound: it accepts the RFC 6962 audit
path of every leaf and the consistency proof of every prefix; with a node hash
that determines its children, an accepted consistency proof between a proper
prefix and the tree fixes the prefix's root, and an accepted audit path fixes
the leaf hash at its index. -/
theorem merkleVerifier_complete_and_sound (D : List ByteString) :
    (∀ (i : Nat) (sth : SignedTreeHead), i < D.length → sth.treeSize = D.length →
      sth.sha256RootHash = th.mth D →
        verifyLeafInclusion th (D.getD i []) i (th.auditPath i D) sth = .ok true) ∧
    (∀ m, m ≤ D.length →
      verifyTreeConsistency th m D.length (th.mth (D.take m)) (th.mth D)
        (th.consistencyProof m D) = .ok true) ∧
    ((∀ a b c d, th.hashChildren a b = th.hashChildren c d → a = c ∧ b = d) →
      (∀ m oldRoot proof, 0 < m → m < D.length →
        verifyTreeConsistency th m D.length oldRoot (th.mth D) proof = .ok true →
          oldRoot = th.mth (D.take m)) ∧
      (∀ leafHash (leafIndex : Int) proof (sth : SignedTreeHead), sth.treeSize = D.length →
        sth.sha256RootHash = th.mth D →
        verifyLeafHashInclusion th leafHash leafIndex proof sth = .ok true →
          0 ≤ leafIndex ∧ leafIndex < D.length ∧
            leafHash = th.hashLeaf (D.getD leafIndex.toNat []))) :=
  ⟨fun _ _ hi hsize hroot => verifyLeafInclusion_auditPath D hi hsize hroot,
    fun _ hm => verifyTreeConsistency_consistencyProof D hm,
    fun hinj => ⟨fun _ _ _ hm0 hmn hv => verifyTreeConsistency_sound hinj D hm0 hmn hv,
      fun _ _ _ _ hsize hroot hv => verifyLeafHashInclusion_sound hinj D hsize hroot hv⟩⟩

/-- With the unary-framed hasher, no proof makes the empty string pass for the
only leaf of a one-leaf tree. -/
theorem merkleVerifier_complete_and_sound_unaryFramed :
    ∀ proof, verifyLeafHashInclusion CertTrans.MerkleVerifier.unaryFramedHasher [] 0 proof
      { treeSize := 1, sha256RootHash := CertTrans.MerkleVerifier.unaryFramedHasher.mth [[1]] } ≠
        .ok true := by
  intro proof hv
  have hsound := ((merkleVerifier_complete_and_sound CertTrans.MerkleVerifier.unaryFramedHasher
    [[1]]).2.2 CertTrans.MerkleVerifier.unaryFramedHasher_hashChildren_inj).2 [] 0 proof _ rfl rfl hv
  exact absurd hsound.2.2 (by decide)

end MerkleVerifier

end CertTrans.Python.Merkle
