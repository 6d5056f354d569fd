import CertTrans.Log.DatabaseQueries
import CertTrans.Log.TreeSigner

/-!
What `TreeSigner::UpdateTree` signs.

The signer's tree holds the leaf serializations of the first entries of the
database (`Absorbed`).  From such a tree `UpdateTree` reads the entries from
the tree's leaf count on and absorbs them up to the first missing number.  So
the STH it signs covers exactly the run of stored numbers from `0`, its root is
the MTH of their leaf serializations, and its timestamp is at least every SCT
timestamp it newly covers and `LastUpdateTime() + 1` taken modulo `2 ^ 64`.
A database that only gains entries keeps the tree absorbed, so this holds for
every call of a run.  The `uint64_t` sum wraps when the last timestamp is
`2 ^ 64 - 1`, and only then can the next STH be older than the last.
-/

namespace CertTrans

open EtcdConsistentStore Database Keyed Codec
open MerkleVerifier (unaryFramedHasher unaryFramedHasher_hashLeaf_ne_nil
  unaryFramedHasher_hashChildren_ne_nil)

namespace TreeSigner

variable (th : TreeHasher) (serializeForLeaf : LoggedEntry → Option ByteString)

def leafInputs (get : ℕ → Option LoggedEntry) : ℕ → Option (List ByteString)
  | 0 => some []
  | n + 1 => do
      let leaves ← leafInputs get n
      let leaf ← (get n).bind serializeForLeaf
      return leaves ++ [leaf]

/-- `cert_tree_` holds the leaf hashes of the first entries of `get`, as many
as its leaf count. -/
def Absorbed (get : ℕ → Option LoggedEntry) (t : CompactMerkleTree) : Prop :=
  ∃ leaves, leafInputs serializeForLeaf get t.leafCount = some leaves ∧
    CompactMerkleTree.Represents th t (leaves.map th.hashLeaf)

structure Signed (db : Database.State) (prev : Signer) (sth : SignedTreeHead) : Prop where
  timestamp_ge : (lastUpdateTime prev + 1) % 2 ^ 64 ≤ sth.timestamp
  sct_le : ∀ k logged, prev.certTree.leafCount ≤ k → (k : ℤ) < sth.treeSize →
    lookupByIndex db k = some logged → logged.timestamp ≤ sth.timestamp
  treeSize_eq : sth.treeSize = treeSize db
  root_eq : ∃ leaves, leafInputs serializeForLeaf (lookupByIndex db) (treeSize db) = some leaves ∧
    sth.sha256RootHash = th.mth leaves

structure LoopResult (get : ℕ → Option LoggedEntry) (n m : ℕ) (r : CompactMerkleTree × ℕ) :
    Prop where
  absorbed : Absorbed th serializeForLeaf get r.1
  isLeast_gap : IsLeast {k | n ≤ k ∧ get k = none} r.1.leafCount
  le_minTimestamp : m ≤ r.2
  sct_le : ∀ k logged, n ≤ k → k < r.1.leafCount → get k = some logged → logged.timestamp ≤ r.2

def Grows (db db' : Database.State) : Prop :=
  ∀ k logged, lookupByIndex db k = some logged → lookupByIndex db' k = some logged

def UpdateStep (scanEntries : Database.State → Int → Except String (List LoggedEntry)) :
    Database.State × Signer → Database.State × Signer → Prop
  | (db, s), (db', s') =>
      Valid db' ∧ Grows db db' ∧
        ∃ now, updateTree th serializeForLeaf scanEntries db' now s = .ok s'

section LeafInputs

variable {serializeForLeaf} {get get' : ℕ → Option LoggedEntry} {n : ℕ} {leaves : List ByteString}

theorem leafInputs_succ {logged : LoggedEntry} {leaf : ByteString}
    (h : leafInputs serializeForLeaf get n = some leaves) (hget : get n = some logged)
    (hleaf : serializeForLeaf logged = some leaf) :
    leafInputs serializeForLeaf get (n + 1) = some (leaves ++ [leaf]) := by
  simp [leafInputs, h, hget, hleaf]

theorem isSome_of_leafInputs (h : leafInputs serializeForLeaf get n = some leaves) {k : ℕ}
    (hk : k < n) : (get k).isSome := by
  induction n generalizing leaves with
  | zero => omega
  | succ n ih =>
    simp only [leafInputs, Option.bind_eq_bind, Option.bind_eq_some_iff] at h
    obtain ⟨prefix', hprefix, leaf, ⟨logged, hget, -⟩, -⟩ := h
    rcases Nat.lt_succ_iff_lt_or_eq.mp hk with hlt | rfl
    · exact ih hprefix hlt
    · simp [hget]

theorem leafInputs_grows (hg : ∀ k logged, get k = some logged → get' k = some logged)
    (h : leafInputs serializeForLeaf get n = some leaves) :
    leafInputs serializeForLeaf get' n = some leaves := by
  induction n generalizing leaves with
  | zero => exact h
  | succ n ih =>
    simp only [leafInputs, Option.bind_eq_bind, Option.bind_eq_some_iff] at h
    obtain ⟨prefix', hprefix, leaf, ⟨logged, hget, hser⟩, hpure⟩ := h
    cases hpure
    exact leafInputs_succ (ih hprefix) (hg n logged hget) hser

end LeafInputs

section Step

variable {th serializeForLeaf} {get : ℕ → Option LoggedEntry} {t : CompactMerkleTree}

theorem Absorbed.grows {get' : ℕ → Option LoggedEntry} (h : Absorbed th serializeForLeaf get t)
    (hg : ∀ k logged, get k = some logged → get' k = some logged) :
    Absorbed th serializeForLeaf get' t := by
  obtain ⟨leaves, hleaves, hrep⟩ := h
  exact ⟨leaves, leafInputs_grows hg hleaves, hrep⟩

theorem Absorbed.isSome (h : Absorbed th serializeForLeaf get t) {k : ℕ} (hk : k < t.leafCount) :
    (get k).isSome := by
  obtain ⟨leaves, hleaves, -⟩ := h
  exact isSome_of_leafInputs hleaves hk

theorem appendToTree_eq_ok {logged : LoggedEntry} {t' : CompactMerkleTree}
    (h : appendToTree th serializeForLeaf t logged = .ok t') :
    ∃ leaf, serializeForLeaf logged = some leaf ∧
      t' = (CompactMerkleTree.addLeaf th t leaf).2 := by
  unfold appendToTree at h
  split at h
  · cases h
  · next leaf hleaf =>
    cases h
    exact ⟨leaf, hleaf, rfl⟩

theorem Absorbed.currentRoot (hnode : ∀ a b, th.hashChildren a b ≠ [])
    (h : Absorbed th serializeForLeaf get t) :
    (∃ leaves, leafInputs serializeForLeaf get t.leafCount = some leaves ∧
      (CompactMerkleTree.currentRoot th t).1 = th.mth leaves) ∧
    Absorbed th serializeForLeaf get (CompactMerkleTree.currentRoot th t).2 ∧
    (CompactMerkleTree.currentRoot th t).2.leafCount = t.leafCount := by
  obtain ⟨leaves, hleaves, hrep⟩ := h
  obtain ⟨hroot, hrep'⟩ := hrep.currentRoot hnode
  have hcount : (CompactMerkleTree.currentRoot th t).2.leafCount = t.leafCount := by
    rw [hrep'.leafCount_eq, hrep.leafCount_eq]
  exact ⟨⟨leaves, hleaves, hroot⟩, ⟨leaves, hcount ▸ hleaves, hrep'⟩, hcount⟩

variable (hleaf : ∀ d, th.hashLeaf d ≠ []) (hnode : ∀ a b, th.hashChildren a b ≠ [])
include hleaf hnode

theorem Absorbed.addLeaf (h : Absorbed th serializeForLeaf get t) {logged : LoggedEntry}
    {leaf : ByteString} (hget : get t.leafCount = some logged)
    (hser : serializeForLeaf logged = some leaf) :
    Absorbed th serializeForLeaf get (CompactMerkleTree.addLeaf th t leaf).2 ∧
      (CompactMerkleTree.addLeaf th t leaf).2.leafCount = t.leafCount + 1 := by
  obtain ⟨leaves, hleaves, hrep⟩ := h
  have hrep' := (hrep.addLeafHash hnode (hleaf leaf)).2
  have hcount : (CompactMerkleTree.addLeaf th t leaf).2.leafCount = t.leafCount + 1 := by
    rw [CompactMerkleTree.addLeaf, hrep'.leafCount_eq, hrep.leafCount_eq, List.length_append,
      List.length_singleton]
  refine ⟨⟨leaves ++ [leaf], ?_, ?_⟩, hcount⟩
  · rw [hcount]
    exact leafInputs_succ hleaves hget hser
  · rw [List.map_append, List.map_singleton]
    exact hrep'

omit hleaf hnode in
theorem LoopResult.stop {n m : ℕ} (h : Absorbed th serializeForLeaf get t)
    (hn : t.leafCount = n) (hgap : get n = none) :
    LoopResult th serializeForLeaf get n m (t, m) where
  absorbed := h
  isLeast_gap := ⟨⟨hn.ge, hn ▸ hgap⟩, fun _ hk => hn ▸ hk.1⟩
  le_minTimestamp := le_rfl
  sct_le _ _ hk hlt := absurd (hn ▸ hlt) (Nat.not_lt.mpr hk)

omit hleaf hnode in
theorem LoopResult.cons {n m : ℕ} {logged : LoggedEntry} {r : CompactMerkleTree × ℕ}
    (hget : get n = some logged)
    (h : LoopResult th serializeForLeaf get (n + 1) (max m logged.timestamp) r) :
    LoopResult th serializeForLeaf get n m r where
  absorbed := h.absorbed
  isLeast_gap := by
    refine ⟨⟨by have := h.isLeast_gap.1.1; omega, h.isLeast_gap.1.2⟩, ?_⟩
    rintro k ⟨hk, hnone⟩
    have hne : k ≠ n := by
      rintro rfl
      rw [hget] at hnone
      cases hnone
    exact h.isLeast_gap.2 ⟨by omega, hnone⟩
  le_minTimestamp := le_trans (le_max_left _ _) h.le_minTimestamp
  sct_le k logged' hk hlt hget' := by
    rcases Nat.eq_or_lt_of_le hk with rfl | hk
    · rw [hget] at hget'
      cases hget'
      exact le_trans (le_max_right _ _) h.le_minTimestamp
    · exact h.sct_le k logged' hk hlt hget'

omit hleaf hnode in
theorem appendLoop_cons_of_ne {i : ℤ} {m k : ℕ} {logged : LoggedEntry} {rest : List LoggedEntry}
    (hseq : logged.sequenceNumber = some (k : ℤ)) (hne : (k : ℤ) ≠ i) :
    appendLoop th serializeForLeaf i m t (logged :: rest) = .ok (t, m) := by
  rw [appendLoop, hseq, Option.getD_some, if_pos hne]
  rfl

omit hleaf hnode in
theorem appendLoop_cons_of_eq {n m : ℕ} {logged : LoggedEntry} {rest : List LoggedEntry}
    (hseq : logged.sequenceNumber = some (n : ℤ)) :
    appendLoop th serializeForLeaf n m t (logged :: rest) =
      appendToTree th serializeForLeaf t logged >>= fun t₁ =>
        appendLoop th serializeForLeaf (n + 1 : ℕ) (max m logged.timestamp) t₁ rest := by
  rw [appendLoop, hseq, Option.getD_some, if_neg (not_not.mpr rfl), Nat.cast_succ]

theorem appendLoop_spec (hseq : Sequenced get) :
    ∀ {l : List (Σ _ : ℕ, LoggedEntry)} {t : CompactMerkleTree} {n m : ℕ}
      {r : CompactMerkleTree × ℕ}, t.leafCount = n → SortedFrom get n l →
      Absorbed th serializeForLeaf get t →
      appendLoop th serializeForLeaf n m t (l.map Sigma.snd) = .ok r →
      LoopResult th serializeForLeaf get n m r
  | [], t, n, m, r, hn, hsorted, habs, h => by
    cases h
    refine LoopResult.stop habs hn ?_
    cases hget : get n with
    | none => rfl
    | some logged => cases (hsorted.2 ⟨n, logged⟩).mpr ⟨le_rfl, hget⟩
  | ⟨k, logged⟩ :: l, t, n, m, r, hn, hsorted, habs, h => by
    have hget := hsorted.isLeast_head.2
    rw [List.map_cons] at h
    by_cases hk : k = n
    · -- the entry carries the next number: it is appended and the loop goes on
      subst hk
      rw [appendLoop_cons_of_eq (hseq k logged hget)] at h
      obtain ⟨t₁, happ, hloop⟩ := except_bind_eq_ok.mp h
      obtain ⟨leaf, hser, rfl⟩ := appendToTree_eq_ok happ
      obtain ⟨habs₁, hcount⟩ := habs.addLeaf hleaf hnode (hn ▸ hget) hser
      exact (appendLoop_spec hseq (hcount.trans (congrArg (· + 1) hn)) hsorted.tail habs₁
        hloop).cons hget
    · -- the next number is missing, and the loop stops
      rw [appendLoop_cons_of_ne (hseq k logged hget) (Nat.cast_injective.ne hk)] at h
      cases h
      exact LoopResult.stop habs hn (hsorted.eq_none_of_cons hk)

theorem updateTree_signed {scanEntries : Database.State → Int → Except String (List LoggedEntry)}
    {db : Database.State} {now : ℕ} {s s' : Signer} (hv : Valid db)
    (hscan : ∀ n : ℕ, ∃ l, SortedFrom (lookupByIndex db) n l ∧
      scanEntries db n = .ok (l.map Sigma.snd))
    (habs : Absorbed th serializeForLeaf (lookupByIndex db) s.certTree)
    (h : updateTree th serializeForLeaf scanEntries db now s = .ok s') :
    Absorbed th serializeForLeaf (lookupByIndex db) s'.certTree ∧
      Signed th serializeForLeaf db s s'.latestTreeHead := by
  obtain ⟨l, hsorted, hscanned⟩ := hscan s.certTree.leafCount
  simp only [updateTree, hscanned, except_ok_bind] at h
  obtain ⟨⟨t, m⟩, hloop, hsign⟩ := except_bind_eq_ok.mp h
  cases hsign
  have hres := appendLoop_spec hleaf hnode hv.sequenced rfl hsorted habs hloop
  obtain ⟨⟨leaves, hleaves, hroot⟩, habs', hcount⟩ := hres.absorbed.currentRoot hnode
  have htree : t.leafCount = treeSize db := by
    refine hres.isLeast_gap.unique ⟨⟨?_, hv.treeSize.1⟩, fun k hk => hv.treeSize.2 hk.2⟩
    by_contra hlt
    have hstored := habs.isSome (by omega : treeSize db < s.certTree.leafCount)
    rw [hv.treeSize.1] at hstored
    cases hstored
  have hmin := hres.le_minTimestamp
  refine ⟨habs', ?_, fun k logged hk hlt hget => ?_, ?_, ⟨leaves, htree ▸ hleaves, hroot⟩⟩
  · rw [timestampAndSign_timestamp]
    split_ifs <;> omega
  · rw [timestampAndSign_treeSize, hcount] at hlt
    have hle := hres.sct_le k logged hk (by omega) hget
    rw [timestampAndSign_timestamp]
    split_ifs <;> omega
  · rw [timestampAndSign_treeSize, hcount, htree]

end Step

section Run

variable {th serializeForLeaf}

theorem Signed.timestamp_lt {db : Database.State} {prev : Signer} {sth : SignedTreeHead}
    (h : Signed th serializeForLeaf db prev sth) (hwrap : lastUpdateTime prev + 1 < 2 ^ 64) :
    lastUpdateTime prev < sth.timestamp := by
  have hge := h.timestamp_ge
  rw [Nat.mod_eq_of_lt hwrap] at hge
  omega

variable (hleaf : ∀ d, th.hashLeaf d ≠ []) (hnode : ∀ a b, th.hashChildren a b ≠ [])
  {scanEntries : Database.State → Int → Except String (List LoggedEntry)}
  (hscan : ∀ db, Valid db → ∀ n : ℕ, ∃ l, SortedFrom (lookupByIndex db) n l ∧
    scanEntries db n = .ok (l.map Sigma.snd))
include hleaf hnode hscan

theorem UpdateStep.signed {p q : Database.State × Signer}
    (h : UpdateStep th serializeForLeaf scanEntries p q)
    (habs : Absorbed th serializeForLeaf (lookupByIndex p.1) p.2.certTree) :
    Absorbed th serializeForLeaf (lookupByIndex q.1) q.2.certTree ∧
      Signed th serializeForLeaf q.1 p.2 q.2.latestTreeHead := by
  obtain ⟨db, s⟩ := p
  obtain ⟨db', s'⟩ := q
  obtain ⟨hv, hg, now, hupdate⟩ := h
  exact updateTree_signed hleaf hnode hv (hscan db' hv) (habs.grows hg) hupdate

theorem Absorbed.of_run {p q : Database.State × Signer}
    (habs : Absorbed th serializeForLeaf (lookupByIndex p.1) p.2.certTree)
    (hrun : Relation.ReflTransGen (UpdateStep th serializeForLeaf scanEntries) p q) :
    Absorbed th serializeForLeaf (lookupByIndex q.1) q.2.certTree := by
  induction hrun with
  | refl => exact habs
  | tail _ hstep ih => exact (hstep.signed hleaf hnode hscan ih).1

theorem updateTree_run_signed {db₀ db db' : Database.State} {s₀ s s' : Signer}
    (habs : Absorbed th serializeForLeaf (lookupByIndex db₀) s₀.certTree)
    (hrun : Relation.ReflTransGen (UpdateStep th serializeForLeaf scanEntries) (db₀, s₀) (db, s))
    (hstep : UpdateStep th serializeForLeaf scanEntries (db, s) (db', s')) :
    Signed th serializeForLeaf db' s s'.latestTreeHead :=
  (hstep.signed hleaf hnode hscan (habs.of_run hleaf hnode hscan hrun)).2

/-- Along every run of `UpdateTree` calls, at any clock readings and against a
database that only gains entries, from a tree absorbed in the first database:
each STH is newer than the one before whenever that one's timestamp is below
`2 ^ 64 - 1`, no older than the SCTs it newly covers, and signs the run of
stored numbers from `0` with the MTH of their leaf serializations. -/
theorem updateTree_run_newer {db₀ db db' : Database.State} {s₀ s s' : Signer}
    (habs : Absorbed th serializeForLeaf (lookupByIndex db₀) s₀.certTree)
    (hrun : Relation.ReflTransGen (UpdateStep th serializeForLeaf scanEntries) (db₀, s₀) (db, s))
    (hstep : UpdateStep th serializeForLeaf scanEntries (db, s) (db', s')) :
    (lastUpdateTime s + 1 < 2 ^ 64 → lastUpdateTime s < s'.latestTreeHead.timestamp) ∧
      (∀ k logged, s.certTree.leafCount ≤ k → (k : ℤ) < s'.latestTreeHead.treeSize →
        lookupByIndex db' k = some logged → logged.timestamp ≤ s'.latestTreeHead.timestamp) ∧
      s'.latestTreeHead.treeSize = treeSize db' ∧
      ∃ leaves, leafInputs serializeForLeaf (lookupByIndex db') (treeSize db') = some leaves ∧
        s'.latestTreeHead.sha256RootHash = th.mth leaves := by
  have hsigned := updateTree_run_signed hleaf hnode hscan habs hrun hstep
  exact ⟨hsigned.timestamp_lt, hsigned.sct_le, hsigned.treeSize_eq, hsigned.root_eq⟩

end Run

theorem updateTree_empty (now : ℕ) (sth : SignedTreeHead) :
    updateTree th serializeForLeaf LevelDB.scanEntries ⟨∅, {}⟩ now ⟨CompactMerkleTree.empty th, sth⟩ =
      .ok ⟨CompactMerkleTree.empty th, ⟨if now < (sth.timestamp + 1) % 2 ^ 64 then
        (sth.timestamp + 1) % 2 ^ 64 else now, 0, th.hashEmpty⟩⟩ := by
  simp [updateTree, LevelDB.scanEntries, LevelDB.scan, lastUpdateTime, appendLoop,
    timestampAndSign, CompactMerkleTree.currentRoot, CompactMerkleTree.updateRoot,
    CompactMerkleTree.empty, pure, Except.pure]

/-- A new signer called at the clock reading `5` over a database that has
gained one entry of SCT timestamp `9`: the STH covers the entry and is newer
than both. -/
theorem updateTree_run_newer_first_call :
    let logged : LoggedEntry := { sequenceNumber := some 0, timestamp := 9, hash := [1], contents := [1] }
    let s₀ := Signer.new (CompactMerkleTree.empty unaryFramedHasher) none
    ∃ db s', db.storage = (∅ : AList fun _ : ℕ => LoggedEntry).insert 0 logged ∧
      UpdateStep unaryFramedHasher (fun e => some e.contents) LevelDB.scanEntries
        (⟨∅, {}⟩, s₀) (db, s') ∧
      (lastUpdateTime s₀ + 1 < 2 ^ 64 → lastUpdateTime s₀ < s'.latestTreeHead.timestamp) ∧
      (∀ k logged', s₀.certTree.leafCount ≤ k → (k : ℤ) < s'.latestTreeHead.treeSize →
        lookupByIndex db k = some logged' → logged'.timestamp ≤ s'.latestTreeHead.timestamp) ∧
      s'.latestTreeHead.treeSize = treeSize db ∧
      ∃ leaves, leafInputs (fun e => some e.contents) (lookupByIndex db) (treeSize db) = some leaves ∧
        s'.latestTreeHead.sha256RootHash = unaryFramedHasher.mth leaves := by
  intro logged s₀
  obtain ⟨index, hv⟩ := valid_singleton (show logged.sequenceNumber = some 0 from rfl)
  have hupdate : ∃ s', updateTree unaryFramedHasher (fun e => some e.contents) LevelDB.scanEntries
      ⟨(∅ : AList fun _ : ℕ => LoggedEntry).insert 0 logged, index⟩ 5 s₀ = .ok s' := by
    simp [updateTree, LevelDB.scanEntries, LevelDB.scan, lastUpdateTime, s₀, Signer.new, logged,
      appendLoop, appendToTree, timestampAndSign, CompactMerkleTree.currentRoot,
      CompactMerkleTree.updateRoot, CompactMerkleTree.empty, pure, Except.pure]
  obtain ⟨s', hs'⟩ := hupdate
  have hstep : UpdateStep unaryFramedHasher (fun e => some e.contents) LevelDB.scanEntries
      (⟨∅, {}⟩, s₀) (⟨(∅ : AList fun _ : ℕ => LoggedEntry).insert 0 logged, index⟩, s') :=
    ⟨hv, fun k _ h => by simp [lookupByIndex] at h, 5, hs'⟩
  have habs : Absorbed unaryFramedHasher (fun e => some e.contents)
      (lookupByIndex ⟨∅, {}⟩) s₀.certTree :=
    ⟨[], rfl, CompactMerkleTree.represents_empty⟩
  exact ⟨_, s', rfl, hstep, updateTree_run_newer unaryFramedHasher_hashLeaf_ne_nil
    unaryFramedHasher_hashChildren_ne_nil (fun db hv n => LevelDB.scanEntries_sortedFrom hv n) habs
    Relation.ReflTransGen.refl hstep⟩

/-- Two calls of `UpdateTree` on a new signer over an empty database, at the
clock readings `2 ^ 64 - 1` and then `0`: the second STH is older than the
first, since `LastUpdateTime() + 1` wraps to `0`. -/
theorem updateTree_timestamp_wraps :
    ∃ s₁ s₂, updateTree unaryFramedHasher (fun e => some e.contents) LevelDB.scanEntries ⟨∅, {}⟩
        (2 ^ 64 - 1) (Signer.new (CompactMerkleTree.empty unaryFramedHasher) none) = .ok s₁ ∧
      updateTree unaryFramedHasher (fun e => some e.contents) LevelDB.scanEntries ⟨∅, {}⟩ 0 s₁ =
        .ok s₂ ∧
      s₂.latestTreeHead.timestamp < s₁.latestTreeHead.timestamp :=
  ⟨_, _, updateTree_empty _ _ _ _, updateTree_empty _ _ _ _, by decide⟩

end TreeSigner

end CertTrans
