import CertTrans.Keyed.Basic
import CertTrans.Log.Database

/-!
The index a database keeps in memory, against the entries it stores.

The stored entries are a partial map from sequence number to entry, and an
index is the index of such a map (`Represents`) when `contiguous_size_` is the
least number not stored, `sparse_entries_` holds the stored numbers past it,
and `id_by_hash_` the least number storing each hash.  `InsertEntryMapping`
keeps that for a number not yet stored (`insertEntryMapping_represents`), so
the writes of `CreateSequencedEntry` keep it, and `BuildIndex` builds it over
the stored entries in whatever order the storage scans them
(`buildIndexFrom_perm`).  On the map itself a write is `Entries.create`, and a
run of operations refines `Entries.run` (`runWith_simulates`).
-/

namespace CertTrans.Database

open Keyed

def stored (get : ℕ → Option LoggedEntry) : Set ℕ := {k | (get k).isSome}

def HashAt (get : ℕ → Option LoggedEntry) (hash : ByteString) (k : ℕ) : Prop :=
  ∃ logged, get k = some logged ∧ logged.hash = hash

def Sequenced (get : ℕ → Option LoggedEntry) : Prop :=
  ∀ k logged, get k = some logged → logged.sequenceNumber = some (k : ℤ)

structure Represents (get : ℕ → Option LoggedEntry) (index : Index) : Prop where
  runEncodes : RunEncodes (stored get) index.contiguousSize index.sparseEntries
  idByHash_eq_some : ∀ hash k, index.idByHash hash = some k ↔ IsLeast {k | HashAt get hash k} k

structure Valid (db : State) : Prop where
  sequenced : Sequenced (lookupByIndex db)
  represents : Represents (lookupByIndex db) db.index

/-- `CreateSequencedEntry` on the map: an unused number stores the entry; a
used one is left as it is, and answers `OK` for the same entry only. -/
def Entries.create (get : ℕ → Option LoggedEntry) (n : ℕ) (logged : LoggedEntry) :
    WriteResult × (ℕ → Option LoggedEntry) :=
  match get n with
  | none => (.ok, Function.update get n (some logged))
  | some existing => (if existing = logged then .ok else .sequenceNumberAlreadyInUse, get)

def Entries.apply (get : ℕ → Option LoggedEntry) : Op → ℕ → Option LoggedEntry
  | .createSequencedEntry logged =>
      match logged.sequenceNumber with
      | some n => (Entries.create get n.toNat logged).2
      | none => get
  | .reopen => get

def Entries.run (ops : List Op) : ℕ → Option LoggedEntry :=
  ops.foldl Entries.apply fun _ => none

def Op.HasSequenceNumber : Op → Prop
  | .createSequencedEntry logged => ∃ n : ℕ, logged.sequenceNumber = some (n : ℤ)
  | .reopen => True

section Map

variable {get : ℕ → Option LoggedEntry} {n : ℕ} {logged : LoggedEntry}

theorem stored_update (get : ℕ → Option LoggedEntry) (n : ℕ) (logged : LoggedEntry) :
    stored (Function.update get n (some logged)) = insert n (stored get) := by
  ext k
  by_cases hk : k = n
  · subst hk
    simp [stored]
  · simp [stored, hk]

theorem hashAt_update_of_ne {hash : ByteString} {k : ℕ} (hk : k ≠ n) :
    HashAt (Function.update get n (some logged)) hash k ↔ HashAt get hash k := by
  simp only [HashAt, Function.update_of_ne hk]

theorem setOf_hashAt_update_self (hnew : get n = none) :
    {k | HashAt (Function.update get n (some logged)) logged.hash k} =
      insert n {k | HashAt get logged.hash k} := by
  ext k
  by_cases hk : k = n
  · subst hk
    simp [HashAt]
  · simp [hashAt_update_of_ne hk, hk]

theorem setOf_hashAt_update_of_ne {hash : ByteString} (hnew : get n = none) (hne : logged.hash ≠ hash) :
    {k | HashAt (Function.update get n (some logged)) hash k} = {k | HashAt get hash k} := by
  ext k
  by_cases hk : k = n
  · subst hk
    simp [HashAt, hnew, hne]
  · simp [hashAt_update_of_ne hk]

theorem Sequenced.update (hseq : Sequenced get) (hlogged : logged.sequenceNumber = some (n : ℤ)) :
    Sequenced (Function.update get n (some logged)) := by
  intro k e hk
  by_cases hkn : k = n
  · subst hkn
    rw [Function.update_self, Option.some_inj] at hk
    rw [← hk, hlogged]
  · rw [Function.update_of_ne hkn] at hk
    exact hseq k e hk

theorem represents_empty : Represents (fun _ => none) {} := by
  refine ⟨?_, fun hash k => ?_⟩
  · have : stored (fun _ => none) = ∅ := by
      ext k
      simp [stored]
    rw [this]
    exact RunEncodes.empty
  · simp only [reduceCtorEq, false_iff]
    exact fun h => by simpa [HashAt] using h.1

theorem valid_empty : Valid ⟨∅, {}⟩ where
  sequenced k logged h := by simp [lookupByIndex] at h
  represents := by
    have hnone : lookupByIndex ⟨∅, {}⟩ = fun _ => none := funext fun k => by simp [lookupByIndex]
    rw [hnone]
    exact represents_empty

end Map

section Insert

variable {get : ℕ → Option LoggedEntry} {index : Index} {n : ℕ} {logged : LoggedEntry}

theorem insertIdByHash_eq_some (hrep : ∀ hash k, index.idByHash hash = some k ↔
      IsLeast {k | HashAt get hash k} k)
    (hnew : get n = none) (hash : ByteString) (k : ℕ) :
    insertIdByHash index.idByHash n logged.hash hash = some k ↔
      IsLeast {k | HashAt (Function.update get n (some logged)) hash k} k := by
  by_cases hh : hash = logged.hash
  · subst hh
    rw [insertIdByHash, Function.update_self, setOf_hashAt_update_self hnew, Option.some_inj]
    cases hid : index.idByHash logged.hash with
    | none =>
      have hempty : {k | HashAt get logged.hash k} = ∅ :=
        eq_empty_of_forall_not_isLeast fun k hk => by simpa [hid] using (hrep _ k).mpr hk
      rw [hempty, ← Set.singleton_def, isLeast_singleton.isLeast_iff_eq]
    | some seq =>
      rw [((hrep _ seq).mp hid).insert n |>.isLeast_iff_eq, min_comm]
  · rw [insertIdByHash, Function.update_of_ne hh, setOf_hashAt_update_of_ne hnew (Ne.symm hh), hrep]

theorem drainSparse_runEncodes {s : Set ℕ} {c : ℕ} {sparse : Finset ℕ} (h : Draining s c sparse) :
    RunEncodes s (drainSparse c sparse).1 (drainSparse c sparse).2 := by
  fun_induction drainSparse c sparse with
  | case1 c sparse hmem ih =>
    exact ih (h.erase hmem)
  | case2 c sparse hmem =>
    exact h.runEncodes hmem

theorem insertEntryMapping_of_eq {hash : ByteString} (h : n = index.contiguousSize) :
    insertEntryMapping index n hash =
      .ok { contiguousSize := (drainSparse (index.contiguousSize + 1) index.sparseEntries).1
            sparseEntries := (drainSparse (index.contiguousSize + 1) index.sparseEntries).2
            idByHash := insertIdByHash index.idByHash n hash } := by
  rw [insertEntryMapping, if_pos h]
  rfl

theorem insertEntryMapping_of_ne {hash : ByteString} (h : n ≠ index.contiguousSize)
    (hsparse : n ∉ index.sparseEntries) :
    insertEntryMapping index n hash =
      .ok { index with sparseEntries := insert n index.sparseEntries
                       idByHash := insertIdByHash index.idByHash n hash } := by
  rw [insertEntryMapping, if_neg h, if_neg hsparse]
  rfl

theorem insertEntryMapping_represents (hrep : Represents get index) (hnew : get n = none)
    (logged : LoggedEntry) :
    ∃ index', insertEntryMapping index n logged.hash = .ok index' ∧
      Represents (Function.update get n (some logged)) index' := by
  have hid : ∀ hash k, insertIdByHash index.idByHash n logged.hash hash = some k ↔
      IsLeast {k | HashAt (Function.update get n (some logged)) hash k} k :=
    insertIdByHash_eq_some hrep.idByHash_eq_some hnew
  have hn : n ∉ stored get := by simp [stored, hnew]
  by_cases hcs : n = index.contiguousSize
  · refine ⟨_, insertEntryMapping_of_eq hcs, ⟨?_, hid⟩⟩
    rw [stored_update]
    subst hcs
    exact drainSparse_runEncodes hrep.runEncodes.draining_insert
  · have hsparse : n ∉ index.sparseEntries := fun h => hn ((hrep.runEncodes.mem_sparse n).mp h).1
    refine ⟨_, insertEntryMapping_of_ne hcs hsparse, ⟨?_, hid⟩⟩
    rw [stored_update]
    exact hrep.runEncodes.insert_of_ne hn hcs

end Insert

section Build

variable {get : ℕ → Option LoggedEntry} {index : Index} {n : ℕ} {logged : LoggedEntry}
  {rest : List (Σ _ : ℕ, LoggedEntry)}

theorem buildIndexFrom_cons (hseq : logged.sequenceNumber = some (n : ℤ)) :
    buildIndexFrom index (⟨n, logged⟩ :: rest) =
      insertEntryMapping index n logged.hash >>= fun index => buildIndexFrom index rest := by
  simp [buildIndexFrom, hseq]

theorem dlookup_cons_or (hnotin : n ∉ rest.keys) :
    (fun k => (List.dlookup k (⟨n, logged⟩ :: rest)).or (get k)) =
      fun k => (rest.dlookup k).or (Function.update get n (some logged) k) := by
  funext k
  by_cases hk : k = n
  · subst hk
    simp [List.dlookup_cons_eq, List.dlookup_eq_none.mpr hnotin]
  · simp [List.dlookup_cons_ne rest ⟨n, logged⟩ hk, Function.update_of_ne hk]

theorem buildIndexFrom_represents (entries : List (Σ _ : ℕ, LoggedEntry)) :
    ∀ {get index}, Represents get index → entries.NodupKeys → (∀ x ∈ entries, get x.1 = none) →
      (∀ x ∈ entries, x.2.sequenceNumber = some (x.1 : ℤ)) →
      ∃ index', buildIndexFrom index entries = .ok index' ∧
        Represents (fun k => (entries.dlookup k).or (get k)) index' := by
  induction entries with
  | nil =>
    intro get index hrep _ _ _
    exact ⟨index, rfl, by simpa using hrep⟩
  | cons x rest ih =>
    intro get index hrep hnodup hfresh hseq
    obtain ⟨n, logged⟩ := x
    obtain ⟨hnotin, hnodup'⟩ := List.nodupKeys_cons.mp hnodup
    obtain ⟨index₁, hins, hrep₁⟩ :=
      insertEntryMapping_represents hrep (hfresh _ List.mem_cons_self) logged
    have hfresh₁ : ∀ x ∈ rest, Function.update get n (some logged) x.1 = none := by
      intro x hx
      have hne : x.1 ≠ n := fun h => hnotin (h ▸ List.mem_keys.mpr ⟨x.2, hx⟩)
      rw [Function.update_of_ne hne]
      exact hfresh x (List.mem_cons_of_mem _ hx)
    obtain ⟨index', hbuild, hrep'⟩ :=
      ih hrep₁ hnodup' hfresh₁ fun x hx => hseq x (List.mem_cons_of_mem _ hx)
    refine ⟨index', ?_, ?_⟩
    · rw [buildIndexFrom_cons (hseq _ List.mem_cons_self), hins]
      exact hbuild
    · rw [dlookup_cons_or hnotin]
      exact hrep'

theorem buildIndexFrom_perm {storage : AList (fun _ : ℕ => LoggedEntry)}
    (hseq : Sequenced (storage.lookup ·)) {entries : List (Σ _ : ℕ, LoggedEntry)}
    (hperm : entries.Perm storage.entries) :
    ∃ index, buildIndexFrom {} entries = .ok index ∧ Represents (storage.lookup ·) index := by
  have hnodup : entries.NodupKeys := (List.perm_nodupKeys hperm).mpr storage.nodupKeys
  have hseq' : ∀ x ∈ entries, x.2.sequenceNumber = some (x.1 : ℤ) := fun x hx =>
    hseq x.1 x.2 (AList.mem_lookup_iff.mpr (hperm.mem_iff.mp hx))
  obtain ⟨index, hbuild, hrep⟩ :=
    buildIndexFrom_represents entries represents_empty hnodup (fun _ _ => rfl) hseq'
  have hget : (fun k => (entries.dlookup k).or none) = (storage.lookup ·) := by
    funext k
    rw [Option.or_none]
    exact List.perm_dlookup k hnodup hperm
  exact ⟨index, hbuild, hget ▸ hrep⟩

theorem openWith_valid {scan : AList (fun _ : ℕ => LoggedEntry) → List (Σ _ : ℕ, LoggedEntry)}
    (hscan : ∀ storage, (scan storage).Perm storage.entries) (storage : AList (fun _ : ℕ => LoggedEntry))
    (hseq : Sequenced (storage.lookup ·)) :
    ∃ index, openWith scan storage = .ok { storage, index } ∧ Valid { storage, index } := by
  obtain ⟨index, hbuild, hrep⟩ := buildIndexFrom_perm hseq (hscan storage)
  refine ⟨index, ?_, ⟨hseq, hrep⟩⟩
  rw [openWith, hbuild]
  rfl

end Build

section Create

variable {db : State} {n : ℕ} {logged existing : LoggedEntry}

theorem lookupByIndex_insert (db : State) (index : Index) :
    lookupByIndex { storage := db.storage.insert n logged, index } =
      Function.update (lookupByIndex db) n (some logged) := by
  funext k
  by_cases hk : k = n
  · subst hk
    simp [lookupByIndex, AList.lookup_insert]
  · simp [lookupByIndex, AList.lookup_insert_ne hk, Function.update_of_ne hk]

theorem createSequencedEntry_of_lookup_eq_some (hseq : logged.sequenceNumber = some (n : ℤ))
    (hget : lookupByIndex db n = some existing) :
    createSequencedEntry db logged =
      .ok (if existing = logged then .ok else .sequenceNumberAlreadyInUse, db) := by
  have hnonneg : ¬ (n : ℤ) < 0 := by omega
  simp only [lookupByIndex] at hget
  simp [createSequencedEntry, hseq, hnonneg, hget]
  rfl

theorem createSequencedEntry_of_lookup_eq_none (hseq : logged.sequenceNumber = some (n : ℤ))
    (hget : lookupByIndex db n = none) :
    createSequencedEntry db logged = (do
      let index ← insertEntryMapping db.index n logged.hash
      return (.ok, { storage := db.storage.insert n logged, index })) := by
  have hnonneg : ¬ (n : ℤ) < 0 := by omega
  simp only [lookupByIndex] at hget
  simp [createSequencedEntry, hseq, hnonneg, hget]

theorem createSequencedEntry_spec (hv : Valid db) (hseq : logged.sequenceNumber = some (n : ℤ)) :
    ∃ db', createSequencedEntry db logged = .ok ((Entries.create (lookupByIndex db) n logged).1, db') ∧
      lookupByIndex db' = (Entries.create (lookupByIndex db) n logged).2 ∧ Valid db' ∧
      (lookupByIndex db n ≠ none → db' = db) := by
  cases hget : lookupByIndex db n with
  | some existing =>
    refine ⟨db, ?_, ?_, hv, fun _ => rfl⟩
    · rw [createSequencedEntry_of_lookup_eq_some hseq hget, Entries.create, hget]
    · rw [Entries.create, hget]
  | none =>
    obtain ⟨index, hins, hrep⟩ := insertEntryMapping_represents hv.represents hget logged
    have hcreate : Entries.create (lookupByIndex db) n logged =
        (.ok, Function.update (lookupByIndex db) n (some logged)) := by
      rw [Entries.create, hget]
    refine ⟨{ storage := db.storage.insert n logged, index }, ?_, ?_, ⟨?_, ?_⟩, fun h => absurd rfl h⟩
    · rw [createSequencedEntry_of_lookup_eq_none hseq hget, hins, hcreate]
      rfl
    · rw [lookupByIndex_insert, hcreate]
    · rw [lookupByIndex_insert]
      exact hv.sequenced.update hseq
    · rw [lookupByIndex_insert]
      exact hrep

theorem valid_singleton (hseq : logged.sequenceNumber = some 0) :
    ∃ index, Valid ⟨(∅ : AList fun _ : ℕ => LoggedEntry).insert 0 logged, index⟩ := by
  obtain ⟨db, hcreate, -, hv, -⟩ := createSequencedEntry_spec valid_empty (n := 0) hseq
  rw [createSequencedEntry_of_lookup_eq_none (n := 0) hseq (by simp [lookupByIndex]),
    insertEntryMapping_of_eq rfl] at hcreate
  obtain ⟨-, rfl⟩ := Prod.mk.inj (Except.ok.inj hcreate)
  exact ⟨_, hv⟩

end Create

section Run

variable {scan : AList (fun _ : ℕ => LoggedEntry) → List (Σ _ : ℕ, LoggedEntry)}

theorem stepWith_simulates (hscan : ∀ storage, (scan storage).Perm storage.entries) (db : State)
    (op : Op) (hv : Valid db) (hop : op.HasSequenceNumber) :
    ∃ db', stepWith scan db op = .ok db' ∧ Valid db' ∧
      lookupByIndex db' = Entries.apply (lookupByIndex db) op := by
  cases op with
  | createSequencedEntry logged =>
    obtain ⟨n, hseq⟩ := hop
    obtain ⟨db', hcreate, hget, hv', -⟩ := createSequencedEntry_spec hv hseq
    refine ⟨db', ?_, hv', ?_⟩
    · rw [stepWith, hcreate]
      rfl
    · rw [hget, Entries.apply, hseq]
      rfl
  | reopen =>
    obtain ⟨index, hopen, hv'⟩ := openWith_valid hscan db.storage hv.sequenced
    exact ⟨_, hopen, hv', rfl⟩

theorem runWith_simulates (hscan : ∀ storage, (scan storage).Perm storage.entries) (ops : List Op)
    (hops : ∀ op ∈ ops, op.HasSequenceNumber) :
    ∃ db, runWith scan ops = .ok db ∧ Valid db ∧ lookupByIndex db = Entries.run ops := by
  obtain ⟨index, hopen, hv₀⟩ := openWith_valid hscan ∅ fun k e h => by simp at h
  obtain ⟨db, hrun, hv, habs⟩ := foldlM_simulates (stepWith_simulates hscan) ops hops hv₀
  refine ⟨db, ?_, hv, ?_⟩
  · rw [runWith, hopen]
    exact hrun
  · rw [habs, Entries.run]
    rfl

end Run

end CertTrans.Database
