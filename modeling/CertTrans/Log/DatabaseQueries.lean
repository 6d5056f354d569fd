import CertTrans.Codec.Bytes
import CertTrans.Log.DatabaseIndex

/-!
What a database answers, against its map of entries.

On a valid database `TreeSize` is the least number not stored,
`LookupByHash` returns the entry at the least number storing the hash, and a
scan from `s` returns the stored entries from `s` on in increasing order of
number: `FileDB` walks its index to get there, `LevelDB` its keys, and the
two answer alike.  Over every run of writes and reopenings both databases
stay valid and store what `Entries.run` stores (`databases_agree_with_entries`).
-/

namespace CertTrans.Database

open Keyed

open Classical in
noncomputable def firstWithHash (get : ℕ → Option LoggedEntry) (hash : ByteString) :
    Option LoggedEntry :=
  if h : ∃ k, HashAt get hash k then get (Nat.find h) else none

theorem firstWithHash_of_isLeast {get : ℕ → Option LoggedEntry} {hash : ByteString} {k : ℕ}
    (h : IsLeast {k | HashAt get hash k} k) : firstWithHash get hash = get k := by
  classical
  have hex : ∃ k, HashAt get hash k := ⟨k, h.1⟩
  rw [firstWithHash, dif_pos hex, (isLeast_find hex).unique h]

theorem firstWithHash_of_forall {get : ℕ → Option LoggedEntry} {hash : ByteString}
    (h : ∀ k, ¬ HashAt get hash k) : firstWithHash get hash = none := by
  rw [firstWithHash, dif_neg (not_exists.mpr h)]

theorem Entries.create_fst_eq_ok_iff {get : ℕ → Option LoggedEntry} {n : ℕ} {logged : LoggedEntry} :
    (Entries.create get n logged).1 = .ok ↔ get n = none ∨ get n = some logged := by
  cases hget : get n with
  | none => simp [Entries.create, hget]
  | some existing =>
    by_cases he : existing = logged
    · simp [Entries.create, hget, he]
    · simp [Entries.create, hget, he]

section Lookup

variable {db : State}

theorem compl_stored (get : ℕ → Option LoggedEntry) : (stored get)ᶜ = {k | get k = none} := by
  ext k
  simp [stored]

theorem Valid.treeSize (hv : Valid db) : IsLeast {k | lookupByIndex db k = none} (treeSize db) := by
  rw [← compl_stored]
  exact hv.represents.runEncodes.isLeast_compl

theorem Valid.lookupByHash (hv : Valid db) (hash : ByteString) :
    lookupByHash db hash = .ok (firstWithHash (lookupByIndex db) hash) := by
  have hid := hv.represents.idByHash_eq_some hash
  cases hk : db.index.idByHash hash with
  | none =>
    have hempty : {k | HashAt (lookupByIndex db) hash k} = ∅ :=
      eq_empty_of_forall_not_isLeast fun k hleast => by simpa [hk] using (hid k).mpr hleast
    have hnone : ∀ k, ¬ HashAt (lookupByIndex db) hash k := fun k hat =>
      (Set.eq_empty_iff_forall_notMem.mp hempty) k hat
    rw [firstWithHash_of_forall hnone, Database.lookupByHash, hk]
    rfl
  | some k =>
    have hleast := (hid k).mp hk
    obtain ⟨logged, hget, hhash⟩ := hleast.1
    rw [firstWithHash_of_isLeast hleast, hget, Database.lookupByHash, hk]
    simp only [lookupByIndex] at hget
    simp [hget, hhash]
    rfl

theorem Valid.levelDB_lookupByHash (hv : Valid db) (hash : ByteString) :
    LevelDB.lookupByHash db hash = Database.lookupByHash db hash := by
  cases hk : db.index.idByHash hash with
  | none => simp [LevelDB.lookupByHash, Database.lookupByHash, hk]
  | some k =>
    obtain ⟨logged, hget, -⟩ := ((hv.represents.idByHash_eq_some hash k).mp hk).1
    simp only [lookupByIndex] at hget
    simp [LevelDB.lookupByHash, Database.lookupByHash, hk, hget]

end Lookup

section FileDB

variable {db : State} {get : ℕ → Option LoggedEntry} {index : Index} {n i : ℕ}

theorem lowerBound_eq_some {sparse : Finset ℕ} (h : FileDB.lowerBound sparse n = some i) :
    i ∈ sparse ∧ n ≤ i ∧ ∀ k ∈ sparse, n ≤ k → i ≤ k := by
  have hmin : (sparse.filter (n ≤ ·)).min = i := h
  obtain ⟨hmem, hni⟩ := Finset.mem_filter.mp (Finset.mem_of_min hmin)
  refine ⟨hmem, hni, fun k hk hnk => ?_⟩
  exact Finset.min_le_of_eq (Finset.mem_filter.mpr ⟨hk, hnk⟩) hmin

theorem lowerBound_eq_none {sparse : Finset ℕ} (h : FileDB.lowerBound sparse n = none) :
    ∀ k ∈ sparse, ¬ n ≤ k := by
  have hempty : sparse.filter (n ≤ ·) = ∅ := Finset.min_eq_top.mp h
  intro k hk hnk
  have hmem : k ∈ sparse.filter (n ≤ ·) := Finset.mem_filter.mpr ⟨hk, hnk⟩
  rw [hempty] at hmem
  exact Finset.notMem_empty k hmem

theorem Represents.mem_sparse_of_le (hrep : Represents get index)
    (hcs : index.contiguousSize ≤ n) {k : ℕ} (hnk : n ≤ k) (hk : k ∈ stored get) :
    k ∈ index.sparseEntries := by
  have hne : index.contiguousSize ≠ k := fun h => hrep.runEncodes.not_mem (h ▸ hk)
  exact (hrep.runEncodes.mem_sparse k).mpr ⟨hk, lt_of_le_of_ne (le_trans hcs hnk) hne⟩

theorem Represents.nextIndex_eq_some (hrep : Represents get index)
    (h : (if index.contiguousSize ≤ n then FileDB.lowerBound index.sparseEntries n else some n) =
      some i) :
    IsLeast {k | n ≤ k ∧ (get k).isSome} i := by
  by_cases hcs : index.contiguousSize ≤ n
  · rw [if_pos hcs] at h
    obtain ⟨hmem, hni, hleast⟩ := lowerBound_eq_some h
    refine ⟨⟨hni, ((hrep.runEncodes.mem_sparse i).mp hmem).1⟩, ?_⟩
    rintro k ⟨hnk, hk⟩
    exact hleast k (hrep.mem_sparse_of_le hcs hnk hk) hnk
  · rw [if_neg hcs, Option.some_inj] at h
    subst h
    refine ⟨⟨le_rfl, hrep.runEncodes.mem_of_lt (Nat.lt_of_not_le hcs)⟩, ?_⟩
    rintro k ⟨hnk, -⟩
    exact hnk

theorem Represents.nextIndex_eq_none (hrep : Represents get index)
    (h : (if index.contiguousSize ≤ n then FileDB.lowerBound index.sparseEntries n else some n) =
      none) :
    ∀ k, n ≤ k → get k = none := by
  by_cases hcs : index.contiguousSize ≤ n
  · rw [if_pos hcs] at h
    intro k hnk
    by_contra hk
    have hstored : k ∈ stored get := Option.isSome_iff_ne_none.mpr hk
    exact lowerBound_eq_none h k (hrep.mem_sparse_of_le hcs hnk hstored) hnk
  · rw [if_neg hcs] at h
    cases h

theorem FileDB.scanFrom_sortedFrom (hv : Valid db) (n : ℕ) :
    ∃ l, SortedFrom (lookupByIndex db) n l ∧ FileDB.scanFrom db n = .ok (l.map Sigma.snd) := by
  have hrep := hv.represents
  fun_induction FileDB.scanFrom db n with
  | case1 n h =>
    rw [dite_eq_ite] at h
    exact ⟨[], SortedFrom.nil (hrep.nextIndex_eq_none h), rfl⟩
  | case2 n i h hl =>
    rw [dite_eq_ite] at h
    have hstored := (hrep.nextIndex_eq_some h).1.2
    rw [hl] at hstored
    cases hstored
  | case3 n i h logged hl ih =>
    rw [dite_eq_ite] at h
    obtain ⟨l, hsorted, hscan⟩ := ih
    refine ⟨⟨i, logged⟩ :: l, SortedFrom.cons (hrep.nextIndex_eq_some h) hl hsorted, ?_⟩
    rw [hscan]
    rfl

theorem FileDB.scanEntries_sortedFrom (hv : Valid db) (s : ℕ) :
    ∃ l, SortedFrom (lookupByIndex db) s l ∧
      FileDB.scanEntries db s = .ok (l.map Sigma.snd) := by
  have hnonneg : ¬ (s : ℤ) < 0 := by omega
  rw [FileDB.scanEntries, if_neg hnonneg, Int.toNat_natCast]
  exact FileDB.scanFrom_sortedFrom hv s

end FileDB

section LevelDB

variable {db : State}

theorem LevelDB.scan_perm (storage : AList (fun _ : ℕ => LoggedEntry)) :
    (LevelDB.scan storage).Perm storage.entries :=
  List.mergeSort_perm _ _

theorem FileDB.scan_perm (storage : AList (fun _ : ℕ => LoggedEntry)) :
    (FileDB.scan storage).Perm storage.entries :=
  List.mergeSort_perm _ _

theorem LevelDB.pairwise_scan (storage : AList (fun _ : ℕ => LoggedEntry)) :
    (LevelDB.scan storage).Pairwise fun a b => a.1 < b.1 := by
  have hle : (LevelDB.scan storage).Pairwise fun a b => decide (a.1 ≤ b.1) = true := by
    apply List.pairwise_mergeSort
    · intro a b c hab hbc
      simp only [decide_eq_true_eq] at hab hbc ⊢
      omega
    · intro a b
      simp only [Bool.or_eq_true, decide_eq_true_eq]
      omega
  have hne : (LevelDB.scan storage).Pairwise fun a b => a.1 ≠ b.1 :=
    List.nodupKeys_iff_pairwise.mp ((List.perm_nodupKeys (LevelDB.scan_perm storage)).mpr
      storage.nodupKeys)
  refine (hle.and hne).imp ?_
  rintro a b ⟨hab, hne⟩
  simp only [decide_eq_true_eq] at hab
  omega

theorem LevelDB.scanEntries_sortedFrom (hv : Valid db) (s : ℕ) :
    ∃ l, SortedFrom (lookupByIndex db) s l ∧
      LevelDB.scanEntries db s = .ok (l.map Sigma.snd) := by
  refine ⟨(LevelDB.scan db.storage).filter fun e => decide ((s : ℤ) ≤ e.1), ⟨?_, ?_⟩, ?_⟩
  · exact (LevelDB.pairwise_scan db.storage).filter _
  · intro x
    rw [List.mem_filter, (LevelDB.scan_perm db.storage).mem_iff, ← AList.mem_lookup_iff]
    simp only [decide_eq_true_eq, Nat.cast_le, Option.mem_def, lookupByIndex]
    exact And.comm
  · -- every key read carries its own number, so no `CHECK` of the scan fails
    apply Codec.mapM_eq_ok_of_forall
    intro e he
    have hget : lookupByIndex db e.1 = some e.2 := by
      rw [List.mem_filter, (LevelDB.scan_perm db.storage).mem_iff, ← AList.mem_lookup_iff] at he
      exact he.1
    simp [hv.sequenced e.1 e.2 hget]
    rfl

end LevelDB

structure Agrees (lookup : State → ByteString → Except String (Option LoggedEntry))
    (scanEntries : State → ℤ → Except String (List LoggedEntry)) (db : State) : Prop where
  represents : Represents (lookupByIndex db) db.index
  treeSize : IsLeast {k | lookupByIndex db k = none} (treeSize db)
  lookupByHash : ∀ hash, lookup db hash = .ok (firstWithHash (lookupByIndex db) hash)
  scanEntries : ∀ s : ℕ, ∃ l, SortedFrom (lookupByIndex db) s l ∧
    scanEntries db s = .ok (l.map Sigma.snd)
  createSequencedEntry : ∀ (logged : LoggedEntry) (n : ℕ), logged.sequenceNumber = some (n : ℤ) →
    ∃ result db', createSequencedEntry db logged = .ok (result, db') ∧
      (result = .ok ↔ lookupByIndex db n = none ∨ lookupByIndex db n = some logged) ∧
      (lookupByIndex db n = none →
        lookupByIndex db' = Function.update (lookupByIndex db) n (some logged)) ∧
      (lookupByIndex db n ≠ none → db' = db)

section Agrees

variable {db : State}

theorem Valid.createSequencedEntry (hv : Valid db) (logged : LoggedEntry) (n : ℕ)
    (hseq : logged.sequenceNumber = some (n : ℤ)) :
    ∃ result db', createSequencedEntry db logged = .ok (result, db') ∧
      (result = .ok ↔ lookupByIndex db n = none ∨ lookupByIndex db n = some logged) ∧
      (lookupByIndex db n = none →
        lookupByIndex db' = Function.update (lookupByIndex db) n (some logged)) ∧
      (lookupByIndex db n ≠ none → db' = db) := by
  obtain ⟨db', hcreate, hget, -, hsame⟩ := createSequencedEntry_spec hv hseq
  refine ⟨_, db', hcreate, Entries.create_fst_eq_ok_iff, fun hnone => ?_, hsame⟩
  rw [hget, Entries.create, hnone]

theorem Valid.agrees_fileDB (hv : Valid db) : Agrees Database.lookupByHash FileDB.scanEntries db :=
  ⟨hv.represents, hv.treeSize, hv.lookupByHash, FileDB.scanEntries_sortedFrom hv,
    hv.createSequencedEntry⟩

theorem Valid.agrees_levelDB (hv : Valid db) : Agrees LevelDB.lookupByHash LevelDB.scanEntries db :=
  ⟨hv.represents, hv.treeSize, fun hash => (hv.levelDB_lookupByHash hash).trans (hv.lookupByHash hash),
    LevelDB.scanEntries_sortedFrom hv, hv.createSequencedEntry⟩

end Agrees

theorem databases_agree_with_entries (ops : List Op) (hops : ∀ op ∈ ops, op.HasSequenceNumber) :
    (∀ scan : AList (fun _ : ℕ => LoggedEntry) → List (Σ _ : ℕ, LoggedEntry),
        (∀ storage, (scan storage).Perm storage.entries) →
        ∃ db, runWith scan ops = .ok db ∧ lookupByIndex db = Entries.run ops ∧
          Agrees lookupByHash FileDB.scanEntries db ∧
            Agrees LevelDB.lookupByHash LevelDB.scanEntries db) ∧
      (∃ db, FileDB.run ops = .ok db ∧ lookupByIndex db = Entries.run ops ∧
        Agrees lookupByHash FileDB.scanEntries db) ∧
      (∃ db, LevelDB.run ops = .ok db ∧ lookupByIndex db = Entries.run ops ∧
        Agrees LevelDB.lookupByHash LevelDB.scanEntries db) := by
  have hrun : ∀ scan : AList (fun _ : ℕ => LoggedEntry) → List (Σ _ : ℕ, LoggedEntry),
      (∀ storage, (scan storage).Perm storage.entries) →
      ∃ db, runWith scan ops = .ok db ∧ Valid db ∧ lookupByIndex db = Entries.run ops :=
    fun _ hscan => runWith_simulates hscan ops hops
  refine ⟨fun scan hscan => ?_, ?_, ?_⟩
  · obtain ⟨db, hdb, hv, hget⟩ := hrun scan hscan
    exact ⟨db, hdb, hget, hv.agrees_fileDB, hv.agrees_levelDB⟩
  · obtain ⟨db, hdb, hv, hget⟩ := hrun FileDB.scan FileDB.scan_perm
    exact ⟨db, hdb, hget, hv.agrees_fileDB⟩
  · obtain ⟨db, hdb, hv, hget⟩ := hrun LevelDB.scan LevelDB.scan_perm
    exact ⟨db, hdb, hget, hv.agrees_levelDB⟩

theorem Entries.run_range (w : ℕ → LoggedEntry) (hw : ∀ k, (w k).sequenceNumber = some (k : ℤ))
    (N : ℕ) :
    Entries.run ((List.range N).map fun k => .createSequencedEntry (w k)) =
      fun k => if k < N then some (w k) else none := by
  induction N with
  | zero => rfl
  | succ N ih =>
    rw [Entries.run, List.range_succ, List.map_append, List.foldl_append, ← Entries.run, ih]
    funext k
    simp only [List.map_cons, List.map_nil, List.foldl_cons, List.foldl_nil, Entries.apply, hw,
      Int.toNat_natCast, Entries.create, lt_irrefl, if_false, Function.update]
    split_ifs <;> first | rfl | omega | (subst_vars; rfl)

/-- Two writes out of order, with a reopening between them. -/
theorem databases_agree_two_writes :
    (∀ op ∈ [Op.createSequencedEntry { sequenceNumber := some 1 }, .reopen,
        .createSequencedEntry { sequenceNumber := some 0 }], op.HasSequenceNumber) ∧
      ∃ db, FileDB.run [.createSequencedEntry { sequenceNumber := some 1 }, .reopen,
          .createSequencedEntry { sequenceNumber := some 0 }] = .ok db ∧
        lookupByIndex db = Entries.run [.createSequencedEntry { sequenceNumber := some 1 }, .reopen,
          .createSequencedEntry { sequenceNumber := some 0 }] ∧
        Agrees lookupByHash FileDB.scanEntries db := by
  have hops : ∀ op ∈ [Op.createSequencedEntry { sequenceNumber := some 1 }, .reopen,
      .createSequencedEntry { sequenceNumber := some 0 }], op.HasSequenceNumber := by
    intro op hop
    simp only [List.mem_cons, List.not_mem_nil, or_false] at hop
    rcases hop with rfl | rfl | rfl
    · exact ⟨1, rfl⟩
    · trivial
    · exact ⟨0, rfl⟩
  exact ⟨hops, (databases_agree_with_entries _ hops).2.1⟩

end CertTrans.Database
