import CertTrans.Codec.Bytes
import CertTrans.Keyed.Basic
import CertTrans.Merkletree.MerkleVerifier
import CertTrans.Server.Handler

/-!
The proofs the front end serves, over every state that a run of tree heads
and requests reaches.

`Serves l D` says that a lookup serves the leaf data `D`: its tree holds
their leaf hashes, its index the first position of each, and its latest tree
head has `D`'s size and, once a head has been accepted, `D`'s root.  A new
lookup serves no leaves, an accepted head extends them by the entries the
database scan yields, and a query keeps them, so every reachable state serves
some `D`.  Over such a state a `200` audit path for a leaf inside the
requested tree verifies against that tree's root, and a `200` consistency
proof between sizes within the tree head verifies.  Past those bounds the
front end still answers `200`, with an empty proof that the verifier rejects.
-/

namespace CertTrans

theorem idxOf?_append_singleton {α : Type*} [BEq α] [LawfulBEq α] [DecidableEq α] (X : List α)
    (x a : α) :
    (X ++ [x]).idxOf? a = (X.idxOf? a).or (if x = a then some X.length else none) := by
  unfold List.idxOf?
  rw [List.findIdx?_append]
  by_cases hx : x = a
  · subst hx
    simp
  · simp [hx]

namespace LogLookup

open Codec
open MerkleTree (Represents)

variable {th : TreeHasher}

structure Indexes (th : TreeHasher) (l : LogLookup) (X : List ByteString) : Prop where
  represents : Represents th l.certTree X
  leafIndex_eq : ∀ hash, l.leafIndex hash = X.idxOf? hash

structure Serves (th : TreeHasher) (l : LogLookup) (D : List ByteString) : Prop where
  indexes : Indexes th l (D.map th.hashLeaf)
  treeSize_eq : l.latestTreeHead.treeSize = D.length
  rootHash_eq : 0 < l.latestTreeHead.timestamp → l.latestTreeHead.sha256RootHash = th.mth D

theorem serves_new : Serves th new [] where
  indexes := ⟨MerkleTree.represents_empty, fun _ => rfl⟩
  treeSize_eq := rfl
  rootHash_eq h := absurd h (lt_irrefl 0)

theorem Indexes.leafCount {l : LogLookup} {D : List ByteString}
    (h : Indexes th l (D.map th.hashLeaf)) : l.certTree.leafCount = D.length := by
  rw [h.represents.leafCount, List.length_map]

theorem Indexes.withTree {l : LogLookup} {X : List ByteString} {t : MerkleTree}
    (h : Indexes th l X) (ht : Represents th t X) : Indexes th { l with certTree := t } X :=
  ⟨ht, h.leafIndex_eq⟩

theorem Serves.withTree {l : LogLookup} {D : List ByteString} {t : MerkleTree} (h : Serves th l D)
    (ht : Represents th t (D.map th.hashLeaf)) : Serves th { l with certTree := t } D :=
  ⟨h.indexes.withTree ht, h.treeSize_eq, h.rootHash_eq⟩

theorem insertLeafIndex_eq {leafIndex : ByteString → Option Nat} {X : List ByteString}
    (h : ∀ hash, leafIndex hash = X.idxOf? hash) (x hash : ByteString) :
    insertLeafIndex leafIndex x X.length hash = (X ++ [x]).idxOf? hash := by
  rw [idxOf?_append_singleton, insertLeafIndex, h x]
  cases hx : X.idxOf? x with
  | some i =>
    dsimp only
    rw [h hash]
    by_cases he : x = hash
    · subst he
      simp [hx]
    · simp [he]
  | none =>
    dsimp only
    by_cases he : x = hash
    · subst he
      simp [hx]
    · rw [Function.update_of_ne (Ne.symm he), h hash]
      simp [he]

theorem Indexes.addLeafHash {l : LogLookup} {X : List ByteString} (h : Indexes th l X)
    (hash : ByteString) :
    (l.certTree.addLeafHash hash).1 = X.length + 1 ∧
      Indexes th
        { l with
          certTree := (l.certTree.addLeafHash hash).2
          leafIndex := insertLeafIndex l.leafIndex hash X.length } (X ++ [hash]) := by
  obtain ⟨hcount, hrep⟩ := h.represents.addLeafHash hash
  exact ⟨hcount, hrep, insertLeafIndex_eq h.leafIndex_eq hash⟩

section Update

variable {serializeForLeaf : LoggedEntry → ByteString}

def Numbered (entries : List LoggedEntry) (n k : Nat) : Prop :=
  (entries.take k).map (·.sequenceNumber) = (List.range' n k).map fun i : Nat => some (i : Int)

instance (entries : List LoggedEntry) (n k : Nat) : Decidable (Numbered entries n k) :=
  inferInstanceAs (Decidable (_ = _))

theorem Numbered.of_cons {logged : LoggedEntry} {rest : List LoggedEntry} {n k : Nat}
    (h : Numbered (logged :: rest) n (k + 1)) :
    logged.sequenceNumber = some (n : Int) ∧ Numbered rest (n + 1) k := by
  rw [Numbered, List.take_succ_cons, List.map_cons, List.range'_succ, List.map_cons,
    List.cons.injEq] at h
  exact h

theorem numbered_zero (entries : List LoggedEntry) (n : Nat) : Numbered entries n 0 := by
  simp [Numbered]

theorem Numbered.cons {logged : LoggedEntry} {rest : List LoggedEntry} {n k : Nat}
    (hseq : logged.sequenceNumber = some (n : Int)) (h : Numbered rest (n + 1) k) :
    Numbered (logged :: rest) n (k + 1) := by
  rw [Numbered, List.take_succ_cons, List.map_cons, h, List.range'_succ, List.map_cons, hseq]

theorem appendLeaves_eq_ok {treeSize : Int} {entries : List LoggedEntry} {D : List ByteString}
    {l l' : LogLookup} (h : Indexes th l (D.map th.hashLeaf))
    (hrun : appendLeaves th serializeForLeaf treeSize D.length l entries = .ok l') :
    ∃ k, k ≤ entries.length ∧ D.length + k = max D.length treeSize.toNat ∧
      Numbered entries D.length k ∧
      Indexes th l' ((D ++ (entries.take k).map serializeForLeaf).map th.hashLeaf) := by
  induction entries generalizing D l with
  | nil =>
    rw [appendLeaves] at hrun
    split_ifs at hrun with hlt
    cases hrun
    exact ⟨0, le_rfl, by omega, numbered_zero _ _, by simpa using h⟩
  | cons logged rest ih =>
    rw [appendLeaves] at hrun
    by_cases hlt : (D.length : Int) < treeSize
    · -- the entry is appended and the loop goes on from the next number
      rw [if_pos hlt] at hrun
      split_ifs at hrun with hnone hseq
      have hseq' : logged.sequenceNumber = some (D.length : Int) := not_not.mp hseq
      obtain ⟨hcount, hnext⟩ := h.addLeafHash (leafHash th serializeForLeaf logged)
      rcases hp : l.certTree.addLeafHash (leafHash th serializeForLeaf logged) with ⟨count, t⟩
      rw [hp, List.length_map] at hcount hnext
      dsimp only at hcount hrun
      rw [hp, if_neg (by omega)] at hrun
      have hnext' : Indexes th
          { l with
            certTree := t
            leafIndex := insertLeafIndex l.leafIndex (leafHash th serializeForLeaf logged) D.length }
          ((D ++ [serializeForLeaf logged]).map th.hashLeaf) := by
        simpa [leafHash] using hnext
      obtain ⟨k, hk, hlen, hnum, hidx⟩ :=
        ih hnext' (by rw [List.length_append, List.length_singleton]; exact hrun)
      simp only [List.length_append, List.length_singleton] at hlen hnum
      refine ⟨k + 1, by simpa using hk, by omega, hnum.cons hseq', ?_⟩
      · simpa [List.take_succ_cons] using hidx
    · rw [if_neg hlt] at hrun
      cases hrun
      exact ⟨0, Nat.zero_le _, by omega, numbered_zero _ _, by simpa using h⟩

theorem appendLeaves_of_numbered {E : List LoggedEntry} (rest : List LoggedEntry)
    {D : List ByteString} {l : LogLookup} (h : Indexes th l (D.map th.hashLeaf)) (hnum : Numbered E D.length E.length) :
    ∃ l', appendLeaves th serializeForLeaf (D.length + E.length) D.length l (E ++ rest) = .ok l' ∧
      Indexes th l' ((D ++ E.map serializeForLeaf).map th.hashLeaf) := by
  induction E generalizing D l with
  | nil =>
    refine ⟨l, ?_, by simpa using h⟩
    cases rest <;> simp [appendLeaves] <;> rfl
  | cons logged E ih =>
    obtain ⟨hseq, hnum'⟩ := hnum.of_cons
    obtain ⟨hcount, hnext⟩ := h.addLeafHash (leafHash th serializeForLeaf logged)
    rcases hp : l.certTree.addLeafHash (leafHash th serializeForLeaf logged) with ⟨count, t⟩
    rw [hp, List.length_map] at hcount hnext
    dsimp only at hcount
    have hnext' : Indexes th
        { l with
          certTree := t
          leafIndex := insertLeafIndex l.leafIndex (leafHash th serializeForLeaf logged) D.length }
        ((D ++ [serializeForLeaf logged]).map th.hashLeaf) := by
      simpa [leafHash] using hnext
    have hlen : (D ++ [serializeForLeaf logged]).length = D.length + 1 := by simp
    rw [← hlen] at hnum'
    obtain ⟨l', hrun, hidx⟩ := ih hnext' hnum'
    refine ⟨l', ?_, by simpa using hidx⟩
    rw [List.cons_append, appendLeaves, if_pos (by simp), if_neg (by simp [hseq]),
      if_neg (by simp [hseq])]
    dsimp only
    rw [hp]
    dsimp only
    rw [if_neg (by omega)]
    rw [List.length_append, List.length_singleton] at hrun
    convert hrun using 2
    simp only [List.length_cons, Nat.cast_add, Nat.cast_one]
    omega

theorem updateFromSTH_eq_ok {scanEntries : Int → Except String (List LoggedEntry)}
    {sth : SignedTreeHead} {D : List ByteString} {l l' : LogLookup} (h : Serves th l D)
    (hrun : updateFromSTH th serializeForLeaf scanEntries l sth = .ok l') :
    l' = l ∨ ∃ entries k, scanEntries D.length = .ok entries ∧ k ≤ entries.length ∧
      Numbered entries D.length k ∧ l'.latestTreeHead = sth ∧
      Serves th l' (D ++ (entries.take k).map serializeForLeaf) := by
  have hcount := h.indexes.leafCount
  rw [updateFromSTH] at hrun
  split_ifs at hrun with hsame hneg hold hmax
  · cases hrun
    exact Or.inl rfl
  · cases hrun
    exact Or.inl rfl
  · obtain ⟨_, -, hthrow⟩ := except_bind_eq_ok.mp hrun
    cases hthrow
  · -- a newer head, no smaller: the scanned entries are appended and the root checked
    obtain ⟨entries, hscan, hrest⟩ := except_bind_eq_ok.mp hrun
    obtain ⟨l₁, happ, hfin⟩ := except_bind_eq_ok.mp hrest
    rw [hcount] at hscan happ hold
    obtain ⟨k, hk, hlen, hnum, hidx⟩ := appendLeaves_eq_ok h.indexes happ
    have hroot := hidx.represents.currentRoot_fst
    have hrep := (hidx.represents.rootAtSnapshot l₁.certTree.leafCount).2
    rcases hp : MerkleTree.currentRoot th l₁.certTree with ⟨root, t⟩
    rw [hp] at hroot hfin
    rw [← MerkleTree.currentRoot, hp] at hrep
    dsimp only at hfin hroot hrep
    split_ifs at hfin with hne
    cases hfin
    have hsize : ((D ++ (entries.take k).map serializeForLeaf).length : Int) = sth.treeSize := by
      rw [List.length_append, List.length_map, List.length_take, Nat.min_eq_left hk]
      omega
    refine Or.inr ⟨entries, k, hscan, hk, hnum, rfl, ⟨⟨hrep, hidx.leafIndex_eq⟩, hsize.symm, fun _ => ?_⟩⟩
    rw [← not_not.mp hne, hroot]
    rfl

theorem updateFromSTH_of_numbered {scanEntries : Int → Except String (List LoggedEntry)}
    {sth : SignedTreeHead} {D : List ByteString} {l : LogLookup} {E rest : List LoggedEntry}
    (h : Serves th l D) (hnewer : l.latestTreeHead.timestamp < sth.timestamp)
    (hsize : sth.treeSize = D.length + E.length)
    (hmax : sth.treeSize ≤ EtcdConsistentStore.int64Max)
    (hscan : scanEntries D.length = .ok (E ++ rest)) (hnum : Numbered E D.length E.length)
    (hroot : sth.sha256RootHash = th.mth (D ++ E.map serializeForLeaf)) :
    ∃ l', updateFromSTH th serializeForLeaf scanEntries l sth = .ok l' ∧
      l'.latestTreeHead = sth ∧ Serves th l' (D ++ E.map serializeForLeaf) := by
  have hcount := h.indexes.leafCount
  obtain ⟨l₁, happ, hidx⟩ := appendLeaves_of_numbered rest h.indexes hnum
  have hcurrent := hidx.represents.currentRoot_fst
  have hrep := (hidx.represents.rootAtSnapshot l₁.certTree.leafCount).2
  rcases hp : MerkleTree.currentRoot th l₁.certTree with ⟨root, t⟩
  rw [hp] at hcurrent
  rw [← MerkleTree.currentRoot, hp] at hrep
  dsimp only at hcurrent hrep
  refine ⟨{ certTree := t, leafIndex := l₁.leafIndex, latestTreeHead := sth }, ?_, rfl,
    ⟨⟨hrep, hidx.leafIndex_eq⟩, by simp [hsize], fun _ => hroot⟩⟩
  rw [updateFromSTH, if_neg (by omega), if_neg (by omega), if_neg (by omega)]
  refine except_bind_eq_ok.mpr ⟨E ++ rest, by rw [hcount]; exact hscan, ?_⟩
  rw [if_neg (by omega)]
  refine except_bind_eq_ok.mpr ⟨l₁, by rw [hcount, hsize]; exact happ, ?_⟩
  rw [hp]
  dsimp only
  rw [if_neg (by rw [hcurrent, hroot]; exact not_not.mpr rfl)]
  rfl

end Update

section Queries

variable {l : LogLookup} {D : List ByteString}

theorem Serves.auditProof (h : Serves th l D) (leafIndex treeSize : Nat) :
    (l.auditProof th leafIndex treeSize).1.pathNode =
        (if leafIndex < treeSize ∧ treeSize ≤ D.length then
          th.auditPath leafIndex (D.take treeSize) else []) ∧
      Serves th (l.auditProof th leafIndex treeSize).2 D := by
  obtain ⟨hpath, hrep⟩ := h.indexes.represents.pathToRootAtSnapshot (leafIndex + 1) treeSize
  refine ⟨?_, by rw [auditProof_snd]; exact h.withTree hrep⟩
  rw [auditProof_fst, hpath, List.length_map, Nat.add_sub_cancel, ← List.map_take]
  by_cases hc : leafIndex < treeSize ∧ treeSize ≤ D.length
  · rw [if_pos ⟨Nat.succ_pos _, hc.1, hc.2⟩, if_pos hc]
    rfl
  · rw [if_neg (by omega), if_neg hc]

theorem Serves.consistencyProof (h : Serves th l D) (first second : Nat) :
    (l.consistencyProof th first second).1 =
        (if 0 < first ∧ first < second ∧ second ≤ D.length then
          th.consistencyProof first (D.take second) else []) ∧
      Serves th (l.consistencyProof th first second).2 D := by
  obtain ⟨hproof, hrep⟩ := h.indexes.represents.snapshotConsistency first second
  refine ⟨?_, by rw [consistencyProof_snd]; exact h.withTree hrep⟩
  rw [consistencyProof_fst, hproof, List.length_map, ← List.map_take]
  rfl

theorem Serves.rootAtSnapshot (h : Serves th l D) (treeSize : Nat) :
    (l.rootAtSnapshot th treeSize).1 =
        (if treeSize = 0 then th.hashEmpty
        else if treeSize ≤ D.length then th.mth (D.take treeSize) else []) ∧
      Serves th (l.rootAtSnapshot th treeSize).2 D := by
  obtain ⟨hroot, hrep⟩ := h.indexes.represents.rootAtSnapshot treeSize
  refine ⟨?_, by rw [rootAtSnapshot_snd]; exact h.withTree hrep⟩
  rw [rootAtSnapshot_fst, hroot, List.length_map, ← List.map_take]
  rfl

theorem Serves.getIndex (h : Serves th l D) {hash : ByteString} {leafIndex : Nat}
    (hfound : l.getIndex hash = some leafIndex) :
    leafIndex < D.length ∧ th.hashLeaf (D.getD leafIndex []) = hash := by
  rw [LogLookup.getIndex, h.indexes.leafIndex_eq, List.idxOf?_eq_some_iff] at hfound
  obtain ⟨hlt, hget, -⟩ := hfound
  rw [List.length_map] at hlt
  rw [List.getElem_map] at hget
  exact ⟨hlt, by rw [List.getD_eq_getElem _ _ hlt, hget]⟩

end Queries

end LogLookup

namespace HttpHandler

open LogLookup

variable {th : TreeHasher} {fromBase64 : String → ByteString} {l : LogLookup} {req : Request}

theorem getProof_eq_json {code : Nat} {body : Json}
    (hreply : (getProof th fromBase64 l req).1 = .json code body) :
    ∃ b64 leafIndex, req.command = .get ∧ getParam req.query "hash" = some b64 ∧
      fromBase64 b64 ≠ [] ∧ 0 ≤ getIntParam req.query "tree_size" ∧
      getIntParam req.query "tree_size" ≤ l.latestTreeHead.treeSize ∧
      l.getIndex (fromBase64 b64) = some leafIndex := by
  unfold getProof at hreply
  by_cases hcmd : req.command = .get
  swap
  · rw [if_pos hcmd] at hreply
    cases hreply
  rw [if_neg (not_not.mpr hcmd)] at hreply
  cases hhash : getParam req.query "hash" with
  | none =>
    rw [hhash] at hreply
    cases hreply
  | some b64 =>
    rw [hhash] at hreply
    dsimp only at hreply
    split_ifs at hreply with hempty hsize
    cases hfound : l.getIndex (fromBase64 b64) with
    | none =>
      rw [auditProofByHash, hfound] at hreply
      cases hreply
    | some leafIndex =>
      exact ⟨b64, leafIndex, hcmd, rfl, by simpa using hempty, by omega, by omega, hfound⟩

theorem getProof_of_found {b64 : String} {leafIndex : Nat} (hcmd : req.command = .get)
    (hhash : getParam req.query "hash" = some b64) (hne : fromBase64 b64 ≠ [])
    (hts : 0 ≤ getIntParam req.query "tree_size")
    (hle : getIntParam req.query "tree_size" ≤ l.latestTreeHead.treeSize)
    (hfound : l.getIndex (fromBase64 b64) = some leafIndex) :
    getProof th fromBase64 l req =
      (.json httpOk (.proof leafIndex
          (l.auditProof th leafIndex (getIntParam req.query "tree_size").toNat).1.pathNode),
        (l.auditProof th leafIndex (getIntParam req.query "tree_size").toNat).2) := by
  rw [getProof, if_neg (not_not.mpr hcmd), hhash]
  dsimp only
  rw [if_neg (by simpa using hne), if_neg (by omega), auditProofByHash, hfound]
  rfl

theorem getConsistency_of_le (hcmd : req.command = .get)
    (hfirst : 0 ≤ getIntParam req.query "first")
    (hle : getIntParam req.query "first" ≤ getIntParam req.query "second") :
    getConsistency th l req =
      (.json httpOk (.consistency (l.consistencyProof th (getIntParam req.query "first").toNat
          (getIntParam req.query "second").toNat).1),
        (l.consistencyProof th (getIntParam req.query "first").toNat
          (getIntParam req.query "second").toNat).2) := by
  rw [getConsistency, if_neg (not_not.mpr hcmd)]
  dsimp only
  rw [if_neg (not_lt.mpr hfirst), if_neg (not_lt.mpr hle)]

theorem getConsistency_eq_json {code : Nat} {body : Json}
    (hreply : (getConsistency th l req).1 = .json code body) :
    req.command = .get ∧ 0 ≤ getIntParam req.query "first" ∧
      getIntParam req.query "first" ≤ getIntParam req.query "second" := by
  unfold getConsistency at hreply
  dsimp only at hreply
  split_ifs at hreply with hcmd hfirst hsecond
  exact ⟨not_not.mp hcmd, by omega, by omega⟩

section Verify

variable {D : List ByteString}

theorem getProof_verifies (hleaf : ∀ d, th.hashLeaf d ≠ [])
    (hnode : ∀ a b, th.hashChildren a b ≠ []) (h : Serves th l D) {code leafIndex : Nat}
    {auditPath : List ByteString}
    (hreply : (getProof th fromBase64 l req).1 = .json code (.proof leafIndex auditPath))
    (hlt : (leafIndex : Int) < getIntParam req.query "tree_size") :
    ∃ b64, getParam req.query "hash" = some b64 ∧
      th.hashLeaf (D.getD leafIndex []) = fromBase64 b64 ∧
      MerkleVerifier.verifyPath th (leafIndex + 1) (getIntParam req.query "tree_size").toNat
        auditPath (l.rootAtSnapshot th (getIntParam req.query "tree_size").toNat).1
        (D.getD leafIndex []) = true := by
  obtain ⟨b64, i, hcmd, hhash, hne, hts, hle, hfound⟩ := getProof_eq_json hreply
  rw [getProof_of_found hcmd hhash hne hts hle hfound] at hreply
  simp only [Reply.json.injEq, Json.proof.injEq] at hreply
  obtain ⟨-, rfl, rfl⟩ := hreply
  have hsize : (getIntParam req.query "tree_size").toNat ≤ D.length := by
    have := h.treeSize_eq
    omega
  have hin : i < (getIntParam req.query "tree_size").toNat := by omega
  generalize (getIntParam req.query "tree_size").toNat = n at hsize hin ⊢
  have hpath := (h.auditProof i n).1
  rw [if_pos ⟨hin, hsize⟩] at hpath
  have hroot := (h.rootAtSnapshot n).1
  rw [if_neg (by omega), if_pos hsize] at hroot
  have hget : (D.take n).getD i [] = D.getD i [] := by
    rw [List.getD_eq_getElem?_getD, List.getElem?_take_of_lt hin, ← List.getD_eq_getElem?_getD]
  have hverify := MerkleVerifier.verifyPath_auditPath hleaf hnode (D.take n)
    (Nat.le_add_left 1 i) (by rw [List.length_take_of_le hsize]; omega)
  rw [List.length_take_of_le hsize, Nat.add_sub_cancel, hget] at hverify
  exact ⟨b64, hhash, (h.getIndex hfound).2, by rw [hpath, hroot]; exact hverify⟩

theorem getProof_beyond {code leafIndex : Nat} {auditPath : List ByteString}
    (hreply : (getProof th fromBase64 l req).1 = .json code (.proof leafIndex auditPath))
    (hge : getIntParam req.query "tree_size" ≤ leafIndex) :
    code = httpOk ∧ auditPath = [] ∧ ∀ root data, MerkleVerifier.verifyPath th (leafIndex + 1)
      (getIntParam req.query "tree_size").toNat auditPath root data = false := by
  obtain ⟨b64, i, hcmd, hhash, hne, hts, hle, hfound⟩ := getProof_eq_json hreply
  rw [getProof_of_found hcmd hhash hne hts hle hfound] at hreply
  simp only [Reply.json.injEq, Json.proof.injEq] at hreply
  obtain ⟨rfl, rfl, rfl⟩ := hreply
  have hpath : (l.auditProof th i (getIntParam req.query "tree_size").toNat).1.pathNode = [] := by
    rw [auditProof_fst, MerkleTree.pathToRootAtSnapshot, if_pos (Or.inl (by omega))]
  refine ⟨rfl, hpath, fun root data => ?_⟩
  rw [MerkleVerifier.verifyPath, MerkleVerifier.rootFromPath, if_pos (Or.inl (by omega))]
  rfl

theorem getConsistency_verifies (h : Serves th l D) {code : Nat} {proof : List ByteString}
    (hreply : (getConsistency th l req).1 = .json code (.consistency proof))
    (hsecond : getIntParam req.query "second" ≤ l.latestTreeHead.treeSize) :
    MerkleVerifier.verifyConsistency th (getIntParam req.query "first").toNat
      (getIntParam req.query "second").toNat
      (l.rootAtSnapshot th (getIntParam req.query "first").toNat).1
      (l.rootAtSnapshot th (getIntParam req.query "second").toNat).1 proof = true := by
  obtain ⟨hcmd, hfirst, hle⟩ := getConsistency_eq_json hreply
  rw [getConsistency_of_le hcmd hfirst hle] at hreply
  simp only [Reply.json.injEq, Json.consistency.injEq] at hreply
  obtain ⟨-, rfl⟩ := hreply
  have hmn : (getIntParam req.query "first").toNat ≤ (getIntParam req.query "second").toNat := by
    omega
  have hn : (getIntParam req.query "second").toNat ≤ D.length := by
    have := h.treeSize_eq
    omega
  generalize (getIntParam req.query "first").toNat = m at hmn hn ⊢
  generalize (getIntParam req.query "second").toNat = n at hmn hn ⊢
  rw [(h.consistencyProof m n).1, (h.rootAtSnapshot m).1, (h.rootAtSnapshot n).1]
  rcases Nat.lt_or_eq_of_le hmn with hlt | rfl
  swap
  · -- equal sizes: the proof is empty and the roots agree
    simp [MerkleVerifier.verifyConsistency]
  rcases Nat.eq_zero_or_pos m with rfl | hm0
  · -- from the empty tree the proof is empty
    rw [if_neg (fun hc : 0 < 0 ∧ 0 < n ∧ n ≤ D.length => lt_irrefl 0 hc.1),
      MerkleVerifier.verifyConsistency, if_neg (by omega), if_neg (by omega), if_pos rfl]
    rfl
  have hc : 0 < m ∧ m < n ∧ n ≤ D.length := ⟨hm0, hlt, hn⟩
  have hm : m ≠ 0 := by omega
  have hmD : m ≤ D.length := by omega
  have hn0 : n ≠ 0 := by omega
  rw [if_pos hc, if_neg hm, if_pos hmD, if_neg hn0, if_pos hn]
  have hverify : MerkleVerifier.verifyConsistency th m (D.take n).length
      (th.mth ((D.take n).take m)) (th.mth (D.take n)) (th.consistencyProof m (D.take n)) = true :=
    MerkleVerifier.verifyConsistency_consistencyProof (D.take n) hm0
      (by rw [List.length_take_of_le hn]; exact hmn)
  rwa [List.take_take, Nat.min_eq_left hmn, List.length_take_of_le hn] at hverify

theorem getConsistency_beyond (h : Serves th l D) {code : Nat} {proof : List ByteString}
    (hreply : (getConsistency th l req).1 = .json code (.consistency proof))
    (hfirst : 0 < getIntParam req.query "first")
    (hlt : getIntParam req.query "first" < getIntParam req.query "second")
    (hbeyond : l.latestTreeHead.treeSize < getIntParam req.query "second") :
    code = httpOk ∧ proof = [] ∧ ∀ root1 root2, MerkleVerifier.verifyConsistency th
      (getIntParam req.query "first").toNat (getIntParam req.query "second").toNat
      root1 root2 proof = false := by
  obtain ⟨hcmd, hfirst', hle⟩ := getConsistency_eq_json hreply
  rw [getConsistency_of_le hcmd hfirst' hle] at hreply
  simp only [Reply.json.injEq, Json.consistency.injEq] at hreply
  obtain ⟨rfl, rfl⟩ := hreply
  have hproof := (h.consistencyProof (getIntParam req.query "first").toNat
    (getIntParam req.query "second").toNat).1
  rw [if_neg (by have := h.treeSize_eq; omega)] at hproof
  refine ⟨rfl, hproof, fun root1 root2 => ?_⟩
  rw [hproof, MerkleVerifier.verifyConsistency, if_neg (by omega), if_neg (by omega),
    if_neg (by omega)]

end Verify

section Run

variable {serializeForLeaf : LoggedEntry → ByteString} {D : List ByteString}

theorem serves_getProof (h : Serves th l D) : Serves th (getProof th fromBase64 l req).2 D := by
  unfold HttpHandler.getProof
  split
  · exact h
  split
  · exact h
  dsimp only
  split
  · exact h
  split
  · exact h
  split
  · exact h
  · rename_i heq
    rw [auditProofByHash, Option.map_eq_some_iff] at heq
    obtain ⟨leafIndex, -, hproof⟩ := heq
    have hserves := (h.auditProof leafIndex (getIntParam req.query "tree_size").toNat).2
    rw [hproof] at hserves
    exact hserves

theorem serves_getConsistency (h : Serves th l D) : Serves th (getConsistency th l req).2 D := by
  unfold HttpHandler.getConsistency
  split
  · exact h
  dsimp only
  split
  · exact h
  split
  · exact h
  · exact (h.consistencyProof _ _).2

theorem serves_step (h : Serves th l D) {e : Event} {l' : LogLookup}
    (hstep : step th fromBase64 serializeForLeaf l e = .ok l') : ∃ D', Serves th l' D' := by
  cases e with
  | notifySTH scanEntries sth =>
    rcases updateFromSTH_eq_ok h hstep with rfl | ⟨entries, k, -, -, -, -, h'⟩
    · exact ⟨D, h⟩
    · exact ⟨_, h'⟩
  | getSTH req =>
    cases hstep
    exact ⟨D, h⟩
  | getProof req =>
    cases hstep
    exact ⟨D, serves_getProof h⟩
  | getConsistency req =>
    cases hstep
    exact ⟨D, serves_getConsistency h⟩

theorem run_serves {events : List Event} {l : LogLookup}
    (hrun : run th fromBase64 serializeForLeaf events = .ok l) : ∃ D, Serves th l D := by
  have hstep : ∀ l e l', (∃ D, Serves th l D) →
      step th fromBase64 serializeForLeaf l e = .ok l' → ∃ D, Serves th l' D :=
    fun _ _ _ ⟨_, h⟩ hstep => serves_step h hstep
  exact Keyed.foldlM_invariant hstep events ⟨[], serves_new⟩ hrun

/-- Over every state a run reaches: a `200` audit path for a leaf inside the
requested tree is the requested leaf's and verifies against that tree's root,
and a `200` consistency proof between sizes within the latest tree head
verifies against the roots of the two trees. -/
theorem run_proofs_verify (hleaf : ∀ d, th.hashLeaf d ≠ [])
    (hnode : ∀ a b, th.hashChildren a b ≠ []) {events : List Event} {l : LogLookup}
    (hrun : run th fromBase64 serializeForLeaf events = .ok l) :
    ∃ D : List ByteString, l.latestTreeHead.treeSize = D.length ∧
      (∀ req code leafIndex auditPath,
        (getProof th fromBase64 l req).1 = .json code (.proof leafIndex auditPath) →
        (leafIndex : Int) < getIntParam req.query "tree_size" →
        ∃ b64, getParam req.query "hash" = some b64 ∧
          th.hashLeaf (D.getD leafIndex []) = fromBase64 b64 ∧
          MerkleVerifier.verifyPath th (leafIndex + 1) (getIntParam req.query "tree_size").toNat
            auditPath (l.rootAtSnapshot th (getIntParam req.query "tree_size").toNat).1
            (D.getD leafIndex []) = true) ∧
      (∀ req code proof,
        (getConsistency th l req).1 = .json code (.consistency proof) →
        getIntParam req.query "second" ≤ l.latestTreeHead.treeSize →
        MerkleVerifier.verifyConsistency th (getIntParam req.query "first").toNat
          (getIntParam req.query "second").toNat
          (l.rootAtSnapshot th (getIntParam req.query "first").toNat).1
          (l.rootAtSnapshot th (getIntParam req.query "second").toNat).1 proof = true) := by
  obtain ⟨D, h⟩ := run_serves hrun
  exact ⟨D, h.treeSize_eq, fun _ _ _ _ hreply hlt => getProof_verifies hleaf hnode h hreply hlt,
    fun _ _ _ hreply hsecond => getConsistency_verifies h hreply hsecond⟩

/-- Over every state a run reaches: a `200` audit path for a leaf at or past
the requested tree size is empty and rejected by `VerifyPath` whatever the
root and the leaf, and a `200` consistency proof to a size past the latest
tree head is empty and rejected by `VerifyConsistency` whatever the roots. -/
theorem run_proofs_beyond_rejected {events : List Event} {l : LogLookup}
    (hrun : run th fromBase64 serializeForLeaf events = .ok l) :
    (∀ req code leafIndex auditPath,
      (getProof th fromBase64 l req).1 = .json code (.proof leafIndex auditPath) →
      getIntParam req.query "tree_size" ≤ leafIndex →
      code = httpOk ∧ auditPath = [] ∧ ∀ root data, MerkleVerifier.verifyPath th (leafIndex + 1)
        (getIntParam req.query "tree_size").toNat auditPath root data = false) ∧
    (∀ req code proof,
      (getConsistency th l req).1 = .json code (.consistency proof) →
      0 < getIntParam req.query "first" →
      getIntParam req.query "first" < getIntParam req.query "second" →
      l.latestTreeHead.treeSize < getIntParam req.query "second" →
      code = httpOk ∧ proof = [] ∧ ∀ root1 root2, MerkleVerifier.verifyConsistency th
        (getIntParam req.query "first").toNat (getIntParam req.query "second").toNat
        root1 root2 proof = false) := by
  obtain ⟨D, h⟩ := run_serves hrun
  exact ⟨fun _ _ _ _ hreply hge => getProof_beyond hreply hge,
    fun _ _ _ hreply hfirst hlt hbeyond => getConsistency_beyond h hreply hfirst hlt hbeyond⟩

end Run

open MerkleVerifier in
theorem run_notifySTH_two_leaves (fromBase64 : String → ByteString) :
    ∃ l, run unaryFramedHasher fromBase64 LoggedEntry.contents
        [.notifySTH
          (fun _ => .ok [{ sequenceNumber := some 0, contents := [1] },
            { sequenceNumber := some 1, contents := [2] }])
          { timestamp := 1, treeSize := 2, sha256RootHash := unaryFramedHasher.mth [[1], [2]] }] =
        .ok l ∧
      l.latestTreeHead =
        { timestamp := 1, treeSize := 2, sha256RootHash := unaryFramedHasher.mth [[1], [2]] } ∧
      Serves unaryFramedHasher l [[1], [2]] := by
  have haccept : ∃ l, LogLookup.updateFromSTH unaryFramedHasher LoggedEntry.contents
        (fun _ => .ok ([{ sequenceNumber := some 0, contents := [1] },
          { sequenceNumber := some 1, contents := [2] }] ++ []))
        new { timestamp := 1, treeSize := 2, sha256RootHash := unaryFramedHasher.mth [[1], [2]] } =
          .ok l ∧
      l.latestTreeHead =
        { timestamp := 1, treeSize := 2, sha256RootHash := unaryFramedHasher.mth [[1], [2]] } ∧
      Serves unaryFramedHasher l ([] ++ [{ sequenceNumber := some 0, contents := [1] },
        { sequenceNumber := some 1, contents := [2] }].map LoggedEntry.contents) := by
    refine updateFromSTH_of_numbered serves_new ?_ ?_ ?_ rfl ?_ rfl
    · decide
    · decide
    · decide
    · decide
  obtain ⟨l, hupdate, hsth, h⟩ := haccept
  exact ⟨l, by simpa [run, step] using hupdate, hsth, h⟩

open MerkleVerifier in
/-- After a front end accepts a tree head of two leaves, every `200` audit path
inside a requested tree and every `200` consistency proof within the tree head
verifies. -/
theorem run_proofs_verify_two_leaves :
    ∃ l, run unaryFramedHasher (fun _ => [2, 2]) LoggedEntry.contents
        [.notifySTH
          (fun _ => .ok [{ sequenceNumber := some 0, contents := [1] },
            { sequenceNumber := some 1, contents := [2] }])
          { timestamp := 1, treeSize := 2, sha256RootHash := unaryFramedHasher.mth [[1], [2]] }] =
        .ok l ∧
      ∃ D : List ByteString, l.latestTreeHead.treeSize = D.length ∧
        (∀ req code leafIndex auditPath,
          (getProof unaryFramedHasher (fun _ => [2, 2]) l req).1 =
            .json code (.proof leafIndex auditPath) →
          (leafIndex : Int) < getIntParam req.query "tree_size" →
          ∃ b64, getParam req.query "hash" = some b64 ∧
            unaryFramedHasher.hashLeaf (D.getD leafIndex []) = [2, 2] ∧
            verifyPath unaryFramedHasher (leafIndex + 1) (getIntParam req.query "tree_size").toNat
              auditPath (l.rootAtSnapshot unaryFramedHasher (getIntParam req.query "tree_size").toNat).1
              (D.getD leafIndex []) = true) ∧
        (∀ req code proof,
          (getConsistency unaryFramedHasher l req).1 = .json code (.consistency proof) →
          getIntParam req.query "second" ≤ l.latestTreeHead.treeSize →
          verifyConsistency unaryFramedHasher (getIntParam req.query "first").toNat
            (getIntParam req.query "second").toNat
            (l.rootAtSnapshot unaryFramedHasher (getIntParam req.query "first").toNat).1
            (l.rootAtSnapshot unaryFramedHasher (getIntParam req.query "second").toNat).1 proof = true) := by
  obtain ⟨l, hrun, -⟩ := run_notifySTH_two_leaves (fun _ => [2, 2])
  exact ⟨l, hrun, run_proofs_verify unaryFramedHasher_hashLeaf_ne_nil
    unaryFramedHasher_hashChildren_ne_nil hrun⟩

open MerkleVerifier in
/-- After a front end accepts a tree head of two leaves, a `200` audit path at
or past the requested tree size and a `200` consistency proof past the tree
head are empty and rejected. -/
theorem run_proofs_beyond_rejected_two_leaves :
    ∃ l, run unaryFramedHasher (fun _ => [2, 2]) LoggedEntry.contents
        [.notifySTH
          (fun _ => .ok [{ sequenceNumber := some 0, contents := [1] },
            { sequenceNumber := some 1, contents := [2] }])
          { timestamp := 1, treeSize := 2, sha256RootHash := unaryFramedHasher.mth [[1], [2]] }] =
        .ok l ∧
      (∀ req code leafIndex auditPath,
        (getProof unaryFramedHasher (fun _ => [2, 2]) l req).1 =
          .json code (.proof leafIndex auditPath) →
        getIntParam req.query "tree_size" ≤ leafIndex →
        code = httpOk ∧ auditPath = [] ∧ ∀ root data, verifyPath unaryFramedHasher (leafIndex + 1)
          (getIntParam req.query "tree_size").toNat auditPath root data = false) ∧
      (∀ req code proof,
        (getConsistency unaryFramedHasher l req).1 = .json code (.consistency proof) →
        0 < getIntParam req.query "first" →
        getIntParam req.query "first" < getIntParam req.query "second" →
        l.latestTreeHead.treeSize < getIntParam req.query "second" →
        code = httpOk ∧ proof = [] ∧ ∀ root1 root2, verifyConsistency unaryFramedHasher
          (getIntParam req.query "first").toNat (getIntParam req.query "second").toNat
          root1 root2 proof = false) := by
  obtain ⟨l, hrun, -⟩ := run_notifySTH_two_leaves (fun _ => [2, 2])
  exact ⟨l, hrun, run_proofs_beyond_rejected hrun⟩

open MerkleVerifier in
/-- A front end that has accepted a tree head of two leaves answers `200` to
`get-proof-by-hash` for the second leaf at tree size 1, with leaf index 1 and
an empty path that `VerifyPath` rejects, and `200` to `get-sth-consistency`
from size 1 to size 3, with an empty proof that `VerifyConsistency` rejects. -/
theorem run_serves_unverifiable_proofs (fromBase64 : String → ByteString)
    (hdecode : fromBase64 "AgI=" = [2, 2]) :
    ∃ l, run unaryFramedHasher fromBase64 LoggedEntry.contents
        [.notifySTH
          (fun _ => .ok [{ sequenceNumber := some 0, contents := [1] },
            { sequenceNumber := some 1, contents := [2] }])
          { timestamp := 1, treeSize := 2, sha256RootHash := unaryFramedHasher.mth [[1], [2]] }] =
        .ok l ∧
      (getProof unaryFramedHasher fromBase64 l ⟨.get, [("hash", "AgI="), ("tree_size", "1")]⟩).1 =
        .json httpOk (.proof 1 []) ∧
      verifyPath unaryFramedHasher 2 1 [] (l.rootAtSnapshot unaryFramedHasher 1).1 [2] = false ∧
      (getConsistency unaryFramedHasher l ⟨.get, [("first", "1"), ("second", "3")]⟩).1 =
        .json httpOk (.consistency []) ∧
      verifyConsistency unaryFramedHasher 1 3 (l.rootAtSnapshot unaryFramedHasher 1).1
        (l.rootAtSnapshot unaryFramedHasher 3).1 [] = false := by
  obtain ⟨l, hrun, hsth, h⟩ := run_notifySTH_two_leaves fromBase64
  have hts : getIntParam [("hash", "AgI="), ("tree_size", "1")] "tree_size" = 1 := by decide
  have hfirst : getIntParam [("first", "1"), ("second", "3")] "first" = 1 := by decide
  have hsecond : getIntParam [("first", "1"), ("second", "3")] "second" = 3 := by decide
  have hfound : l.getIndex (fromBase64 "AgI=") = some 1 := by
    rw [hdecode, LogLookup.getIndex, h.indexes.leafIndex_eq]
    decide
  have hhash : getParam [("hash", "AgI="), ("tree_size", "1")] "hash" = some "AgI=" := by decide
  have hne : fromBase64 "AgI=" ≠ [] := by
    rw [hdecode]
    exact List.cons_ne_nil _ _
  have hproof : getProof unaryFramedHasher fromBase64 l
      ⟨.get, [("hash", "AgI="), ("tree_size", "1")]⟩ =
        (.json httpOk (.proof 1 (l.auditProof unaryFramedHasher 1
            (getIntParam [("hash", "AgI="), ("tree_size", "1")] "tree_size").toNat).1.pathNode),
          (l.auditProof unaryFramedHasher 1
            (getIntParam [("hash", "AgI="), ("tree_size", "1")] "tree_size").toNat).2) :=
    getProof_of_found rfl hhash hne (by rw [hts]; decide) (by rw [hts, hsth]; decide) hfound
  refine ⟨l, hrun, ?_, ?_, ?_, ?_⟩
  · rw [hproof, hts, Int.toNat_one, (h.auditProof 1 1).1, if_neg (by decide)]
  · rw [verifyPath, rootFromPath, if_pos (by decide)]
  · rw [getConsistency_of_le rfl (by rw [hfirst]; decide) (by rw [hfirst, hsecond]; decide)]
    dsimp only
    have hthree : (3 : Int).toNat = 3 := rfl
    rw [hfirst, hsecond, Int.toNat_one, hthree, (h.consistencyProof 1 3).1, if_neg (by decide)]
  · rw [verifyConsistency, if_neg (by decide), if_neg (by decide), if_neg (by decide)]

open MerkleVerifier in
theorem run_serves_unverifiable_proofs_decoded :
    ∃ l, run unaryFramedHasher (fun _ => [2, 2]) LoggedEntry.contents
        [.notifySTH
          (fun _ => .ok [{ sequenceNumber := some 0, contents := [1] },
            { sequenceNumber := some 1, contents := [2] }])
          { timestamp := 1, treeSize := 2, sha256RootHash := unaryFramedHasher.mth [[1], [2]] }] =
        .ok l ∧
      (getProof unaryFramedHasher (fun _ => [2, 2]) l
          ⟨.get, [("hash", "AgI="), ("tree_size", "1")]⟩).1 = .json httpOk (.proof 1 []) ∧
      verifyPath unaryFramedHasher 2 1 [] (l.rootAtSnapshot unaryFramedHasher 1).1 [2] = false ∧
      (getConsistency unaryFramedHasher l ⟨.get, [("first", "1"), ("second", "3")]⟩).1 =
        .json httpOk (.consistency []) ∧
      verifyConsistency unaryFramedHasher 1 3 (l.rootAtSnapshot unaryFramedHasher 1).1
        (l.rootAtSnapshot unaryFramedHasher 3).1 [] = false :=
  run_serves_unverifiable_proofs (fun _ => [2, 2]) rfl

end HttpHandler

end CertTrans
