import CertTrans.Fetcher.FetchStateProofs

/-!
What `FetchLogEntries` leaves in the database when its task returns `OK`.

The database is a parameter of the fetcher; `DatabaseOps.Stores` is what the fetcher relies on
it for: every entry below `TreeSize()` is stored, an entry `CreateSequencedEntry` answers `OK`
for is stored under its sequence number, and nothing stored is lost.  Over a run, the ranges
fetched are stored, and every entry before `start_` is stored, or was given up by a walk that saw
a remote tree ending before it.  So when the task returns `OK`, every entry up to the size of the
remote tree seen at the start is in the database, unless some walk saw the peers' tree end
before it.
-/

namespace CertTrans

structure DatabaseOps.Stores {DB : Type} (database : DatabaseOps DB) (stored : DB → Nat → Prop) :
    Prop where
  lt_treeSize : ∀ db i, i < database.treeSize db → stored db i
  create_ok : ∀ db (e : LoggedEntryPB) (n : Nat) db', e.sequenceNumber = some (n : Int) →
    database.createSequencedEntry db e = (.ok, db') → stored db' n
  create_keeps : ∀ db e i, stored db i → stored (database.createSequencedEntry db e).2 i

namespace FetchState

open Keyed

theorem writeToDatabaseEntry_sequenceNumber {config : SerializerConfig} {verifier : LogVerifier}
    {now : UInt64} {index : Int} {entry : AsyncLogClient.Entry} {cert : LoggedEntryPB}
    (h : writeToDatabaseEntry config verifier now index entry = .ok (.ok cert)) :
    cert.sequenceNumber = some index := by
  unfold writeToDatabaseEntry at h
  cases hc : LoggedEntryPB.copyFromClientLogEntry entry with
  | error e =>
    rw [hc] at h
    cases h
  | ok c =>
    rw [hc, Codec.except_ok_bind] at h
    rcases c with _ | c
    · cases h
    · cases hs : entry.sct with
      | none =>
        simp only [hs, pure, Except.pure, Except.ok.injEq] at h
        rw [← h]
      | some sct =>
        simp only [hs] at h
        split_ifs at h
        · cases h
        · simp only [pure, Except.pure, Except.ok.injEq] at h
          rw [← h]

section Write

variable {DB : Type} {database : DatabaseOps DB} {stored : DB → Nat → Prop}
  (config : SerializerConfig) (verifier : LogVerifier) (now : UInt64)

theorem writeEntries_stores (hdb : database.Stores stored) :
    ∀ (entries : List AsyncLogClient.Entry) (index : Nat) (db : DB) {n : Nat}
      {stop : Option WriteStop} {db' : DB},
      writeEntries database config verifier now index entries db = .ok (n, stop, db') →
        (∀ i, stored db i → stored db' i) ∧ ∀ i, index ≤ i → i < index + n → stored db' i
  | [], index, db, n, stop, db', h => by
    simp only [writeEntries, Except.ok.injEq, Prod.mk.injEq] at h
    obtain ⟨rfl, -, rfl⟩ := h
    exact ⟨fun _ hi => hi, fun i h₁ h₂ => by omega⟩
  | entry :: rest, index, db, n, stop, db', h => by
    simp only [writeEntries] at h
    cases hw : writeToDatabaseEntry config verifier now index entry with
    | error e =>
      rw [hw] at h
      cases h
    | ok r =>
      rw [hw, Codec.except_ok_bind] at h
      rcases r with (_ | _) | cert
      · simp only [pure, Except.pure, Except.ok.injEq, Prod.mk.injEq] at h
        obtain ⟨rfl, -, rfl⟩ := h
        exact ⟨fun _ hi => hi, fun i h₁ h₂ => by omega⟩
      · simp only [pure, Except.pure, Except.ok.injEq, Prod.mk.injEq] at h
        obtain ⟨rfl, -, rfl⟩ := h
        exact ⟨fun _ hi => hi, fun i h₁ h₂ => by omega⟩
      dsimp only at h
      have hseq := writeToDatabaseEntry_sequenceNumber hw
      have hkeep := hdb.create_keeps db cert
      cases hc : database.createSequencedEntry db cert with
      | mk res db₁ =>
        rw [hc] at hkeep h
        cases res with
        | ok =>
          dsimp only at h
          have hstored := hdb.create_ok db cert index db₁ hseq hc
          cases hrest : writeEntries database config verifier now (index + 1) rest db₁ with
          | error e =>
            rw [hrest] at h
            cases h
          | ok written =>
            obtain ⟨n', stop', db''⟩ := written
            rw [hrest, Codec.except_ok_bind] at h
            simp only [pure, Except.pure, Except.ok.injEq, Prod.mk.injEq] at h
            obtain ⟨rfl, -, rfl⟩ := h
            obtain ⟨hmono, hrange⟩ := writeEntries_stores hdb rest (index + 1) db₁ hrest
            refine ⟨fun i hi => hmono i (hkeep i hi), fun i h₁ h₂ => ?_⟩
            rcases Nat.eq_or_lt_of_le h₁ with rfl | h₁
            · exact hmono _ hstored
            · exact hrange i h₁ (by omega)
        | sequenceNumberAlreadyInUse =>
          simp only [pure, Except.pure, Except.ok.injEq, Prod.mk.injEq] at h
          obtain ⟨rfl, -, rfl⟩ := h
          exact ⟨hkeep, fun i h₁ h₂ => by omega⟩

end Write

theorem markFetched_covers {S : Nat → Prop} {o nextId processed : Nat} {r : Range}
    (h : ∀ i, o ≤ i → i < o + processed → S i) :
    ForallOffsets Range.size (Covers S) o (markFetched nextId processed r) := by
  unfold markFetched
  split_ifs with hprocessed hsplit
  · exact ⟨fun _ => h, (fun hh => nomatch hh), trivial⟩
  · refine ⟨fun _ i h₁ h₂ => h i h₁ ?_, trivial⟩
    simp only at h₂
    omega
  · exact ⟨(fun hh => nomatch hh), trivial⟩

theorem prune_settled {S : Nat → Prop} (remoteTreeSize : Int) {start : Nat} {ranges : List Range}
    (h : ForallOffsets Range.size (Covers S) start ranges) :
    ForallOffsets Range.size (Covers S) (prune remoteTreeSize start ranges).1
        (prune remoteTreeSize start ranges).2 ∧
      ∀ i, start ≤ i → i < (prune remoteTreeSize start ranges).1 → S i ∨ remoteTreeSize < i := by
  obtain ⟨dropped, hsplit, hstart, hdropped⟩ := prune_spec remoteTreeSize start ranges
  generalize prune remoteTreeSize start ranges = pruned at hsplit hstart hdropped ⊢
  subst hsplit
  rw [forallOffsets_append] at h
  refine ⟨hstart ▸ h.2, fun i h₁ h₂ => ?_⟩
  have hcovers := (h.1.and hdropped).imp
    (Q := fun o d => ∀ i, o ≤ i → i < o + d.size → S i ∨ remoteTreeSize < i)
    fun o d ⟨hc, hd⟩ i h₁ h₂ => hd.elim (fun hhave => .inl (hc hhave i h₁ h₂))
      fun ⟨_, hlt⟩ => .inr (by omega)
  exact hcovers.forall_lt i h₁ (by omega)

section Run

variable {DB : Type} (stored : DB → Nat → Prop)

structure Fetcher.Settled (history : List Event) (f : Fetcher DB) : Prop where
  covers : ForallOffsets Range.size (Covers (stored f.db)) f.state.start f.state.entries
  settled : ∀ i < f.state.start, stored f.db i ∨
    ∃ remoteTreeSize cancelRequested, Event.walk remoteTreeSize cancelRequested ∈ history ∧
      remoteTreeSize < i

variable {stored} {batchSize concurrentFetches : Nat} {target : Nat}
  {database : DatabaseOps DB} (config : SerializerConfig) (verifier : LogVerifier)

theorem Fetcher.settled_start (hdb : database.Stores stored) (db : DB) (remoteTreeSize : Int) :
    (Fetcher.start database db remoteTreeSize).Settled stored [] := by
  unfold Fetcher.start init
  split_ifs
  · exact ⟨trivial, fun i hi => .inl (hdb.lt_treeSize db i hi)⟩
  · exact ⟨⟨(fun hh => nomatch hh), trivial⟩, fun i hi => .inl (hdb.lt_treeSize db i hi)⟩

theorem Fetcher.Settled.append {history : List Event} {f : Fetcher DB}
    (h : f.Settled stored history) (e : Event) : f.Settled stored (history ++ [e]) :=
  ⟨h.covers, fun i hi => (h.settled i hi).imp_right fun ⟨r, c, hmem, hlt⟩ =>
    ⟨r, c, List.mem_append_left _ hmem, hlt⟩⟩

theorem Fetcher.Settled.walk {history : List Event} {f : Fetcher DB}
    (h : f.Settled stored history) (remoteTreeSize : Int) (cancelRequested : Bool) :
    Fetcher.Settled stored (history ++ [.walk remoteTreeSize cancelRequested])
      { f with state := (f.state.walkEntries batchSize concurrentFetches remoteTreeSize
                  cancelRequested).1,
               pending := f.pending ++ (f.state.walkEntries batchSize concurrentFetches remoteTreeSize
                  cancelRequested).2 } := by
  have h' := h.append (.walk remoteTreeSize cancelRequested)
  by_cases hsome : f.state.status.isSome
  · rw [walkEntries_of_isSome _ _ _ _ hsome]
    exact ⟨h'.covers, h'.settled⟩
  have hnone : f.state.status = none := Option.not_isSome_iff_eq_none.mp hsome
  cases cancelRequested
  case true =>
    rw [walkEntries_of_cancel _ _ _ hnone]
    exact ⟨by simpa using h'.covers, by simpa using h'.settled⟩
  case false =>
  obtain ⟨hcovers, hstart⟩ := prune_settled remoteTreeSize h.covers
  have hsettled : ∀ i < (prune remoteTreeSize f.state.start f.state.entries).1, stored f.db i ∨
      ∃ r c, Event.walk r c ∈ history ++ [.walk remoteTreeSize false] ∧ r < i := by
    intro i hi
    by_cases hlt : i < f.state.start
    · exact h'.settled i hlt
    · exact (hstart i (by omega) hi).imp_right fun hr => ⟨remoteTreeSize, false, by simp, hr⟩
  by_cases hnil : (prune remoteTreeSize f.state.start f.state.entries).2 = []
  · rw [walkEntries_of_prune_eq_nil _ _ _ hnone hnil]
    exact ⟨by simp, by simpa using hsettled⟩
  · rw [walkEntries_of_prune_ne_nil _ _ _ hnone hnil]
    exact ⟨walkFrom_covers _ _ _ _ _ _ _ hcovers, hsettled⟩

theorem Fetcher.Settled.complete (hdb : database.Stores stored) (hb : 0 < batchSize)
    {history : List Event} {f : Fetcher DB} (h : f.Settled stored history)
    (hinv : f.Inv batchSize concurrentFetches target) {fetch : Fetch} (hmem : fetch ∈ f.pending)
    {now : UInt64} {result : FetchResult} {s' : FetchState} {db' : DB}
    (hw : writeToDatabase database config verifier now f.state f.db fetch result = .ok (s', db')) :
    Fetcher.Settled stored (history ++ [.complete fetch now result]) ⟨s', db', f.pending.erase fetch⟩ := by
  have h' := h.append (.complete fetch now result)
  obtain ⟨hstart, -, hcases⟩ := writeToDatabase_eq_ok database config verifier now hw
  obtain ⟨o, r, hloc, hidx, hr, -⟩ := hinv.located fetch hmem
  have hrmem : r ∈ f.state.entries := mem_of_locate_eq_some hloc
  obtain ⟨pre, post, hsplit, hsum, hupd⟩ := updateRange_of_locate hloc
  have hcovers : ∀ {db'' : DB}, (∀ i, stored f.db i → stored db'' i) →
      ForallOffsets Range.size (Covers (stored db'')) f.state.start (pre ++ [r] ++ post) := by
    intro db'' hmono
    have hc := h.covers.imp (Q := Covers (stored db''))
      fun o d hc hhave i h₁ h₂ => hmono i (hc hhave i h₁ h₂)
    rwa [hsplit, ← List.singleton_append, ← List.append_assoc] at hc
  have hsettled : ∀ {db'' : DB}, (∀ i, stored f.db i → stored db'' i) → ∀ i < s'.start,
      stored db'' i ∨ ∃ r c, Event.walk r c ∈ history ++ [.complete fetch now result] ∧ r < i := by
    intro db'' hmono i hi
    rw [hstart] at hi
    exact (h'.settled i hi).imp_left (hmono i)
  rcases hcases with ⟨hentries, -, rfl⟩ | ⟨entries, n, stop, hwe, ⟨hentries, -⟩ | ⟨hentries, -⟩⟩
  · -- the fetch failed: its range is wanted again, and covers nothing
    refine ⟨?_, hsettled fun _ hi => hi⟩
    show ForallOffsets _ _ s'.start s'.entries
    rw [hentries, hupd, hstart]
    exact (hcovers fun _ hi => hi).replace_of_eq ⟨(fun hh => nomatch hh), trivial⟩ (by simp)
  · obtain ⟨hmono, -⟩ := writeEntries_stores config verifier now hdb _ _ _ hwe
    refine ⟨?_, hsettled hmono⟩
    show ForallOffsets _ _ s'.start s'.entries
    rw [hentries, hstart]
    exact h.covers.imp fun o d hc hhave i h₁ h₂ => hmono i (hc hhave i h₁ h₂)
  · -- the entries written are stored from the fetch's index on, where its range starts
    obtain ⟨hmono, hrange⟩ := writeEntries_stores config verifier now hdb _ _ _ hwe
    have hrep : Replaces batchSize f.state.nextId r (markFetched f.state.nextId n r) :=
      markFetched_replaces hb (hinv.ranges.size_pos r hrmem) (hinv.ranges.fetching_le r hrmem hr) n
    refine ⟨?_, hsettled hmono⟩
    show ForallOffsets _ _ s'.start s'.entries
    rw [hentries, hupd, hstart]
    refine (hcovers hmono).replace_of_eq (markFetched_covers fun i h₁ h₂ => hrange i ?_ ?_) hrep.sum
    · omega
    · omega

variable (stored) (batchSize concurrentFetches) (database)

theorem Fetcher.Settled.step (hdb : database.Stores stored) (hb : 0 < batchSize)
    {history : List Event} {f f' : Fetcher DB} (h : f.Settled stored history)
    (hinv : f.Inv batchSize concurrentFetches target) {e : Event}
    (hstep : f.step batchSize concurrentFetches database config verifier e = .ok f') :
    f'.Settled stored (history ++ [e]) := by
  rcases Fetcher.step_eq_ok batchSize concurrentFetches database config verifier hstep with
    ⟨remoteTreeSize, cancelRequested, rfl, rfl⟩ | ⟨fetch, now, result, s', db', rfl, hmem, hw, rfl⟩ |
      ⟨-, -, -, -, rfl⟩
  · exact h.walk remoteTreeSize cancelRequested
  · exact h.complete config verifier hdb hb hinv hmem hw
  · exact h.append e

theorem Fetcher.settled_run (hdb : database.Stores stored) (hb : 0 < batchSize)
    (hc : 0 < concurrentFetches) (db : DB) (remoteTreeSize : Int) (events : List Event)
    {f : Fetcher DB}
    (hrun : (Fetcher.start database db remoteTreeSize).run batchSize concurrentFetches database config
      verifier events = .ok f) :
    f.Inv batchSize concurrentFetches (max (database.treeSize db) remoteTreeSize.toNat) ∧
      f.Settled stored events := by
  have h := foldlM_history_invariant
    (I := fun history f => f.Inv batchSize concurrentFetches
      (max (database.treeSize db) remoteTreeSize.toNat) ∧ f.Settled stored history)
    (fun history f e f' hf hstep => ⟨hf.1.step batchSize concurrentFetches database config verifier
      hb hc hstep, hf.2.step stored batchSize concurrentFetches database config verifier hdb hb hf.1
      hstep⟩)
    events ⟨Fetcher.inv_start database db remoteTreeSize, Fetcher.settled_start hdb db remoteTreeSize⟩
    hrun
  simpa using h

/-- When the task returns `OK`, no fetch is in flight, and every entry below the size of the
remote tree seen at the start is stored, unless a walk saw the remote tree end before it. -/
theorem Fetcher.run_ok_stored (hdb : database.Stores stored) (hb : 0 < batchSize)
    (hc : 0 < concurrentFetches) (db : DB) (remoteTreeSize : Int) (events : List Event)
    {f : Fetcher DB}
    (hrun : (Fetcher.start database db remoteTreeSize).run batchSize concurrentFetches database config
      verifier events = .ok f)
    (hok : f.state.status = some .ok) :
    f.pending = [] ∧ ∀ i < max (database.treeSize db) remoteTreeSize.toNat, stored f.db i ∨
      ∃ r c, Event.walk r c ∈ events ∧ r < i := by
  obtain ⟨hinv, hsettled⟩ := Fetcher.settled_run stored batchSize concurrentFetches database config
    verifier hdb hb hc db remoteTreeSize events hrun
  have hnil := hinv.done hok
  have htiles := hinv.tiles
  rw [hnil, List.map_nil, List.sum_nil, Nat.add_zero] at htiles
  refine ⟨List.eq_nil_iff_forall_not_mem.mpr fun p hp => ?_, fun i hi => hsettled.settled i (by omega)⟩
  obtain ⟨o, r, hloc, -⟩ := hinv.located p hp
  rw [hnil] at hloc
  cases hloc

theorem appendOnly_stores : appendOnly.Stores fun n i => i < n where
  lt_treeSize _ _ hi := hi
  create_ok db e n db' hseq hcreate := by
    simp only [appendOnly] at hcreate
    split_ifs at hcreate with hat
    · cases hcreate
      rw [hseq, Option.some.injEq] at hat
      omega
    · cases hcreate
  create_keeps db e i hi := by
    simp only [appendOnly]
    split_ifs <;> simp only <;> omega

theorem Fetcher.run_ok_stored_no_peers :
    ∃ f, (Fetcher.start appendOnly 0 5).run 2 2 appendOnly .v1CT acceptAll
        [.walk 5 false, .complete ⟨0, 0, 1⟩ 0 .failed, .complete ⟨2, 1, 3⟩ 0 .failed,
          .walk (-1) false] = .ok f ∧
      f.state.status = some .ok ∧ f.pending = [] ∧
      ∀ i < max (appendOnly.treeSize 0) (5 : Int).toNat, i < f.db ∨
        ∃ r c, Event.walk r c ∈ [.walk 5 false, .complete ⟨0, 0, 1⟩ 0 .failed,
          .complete ⟨2, 1, 3⟩ 0 .failed, .walk (-1) false] ∧ r < i := by
  have hrun : (Fetcher.start appendOnly 0 5).run 2 2 appendOnly .v1CT acceptAll
      [.walk 5 false, .complete ⟨0, 0, 1⟩ 0 .failed, .complete ⟨2, 1, 3⟩ 0 .failed,
        .walk (-1) false] = .ok ⟨⟨5, [], 3, some .ok⟩, 0, []⟩ := by
    simp [Fetcher.run, Fetcher.step, walkEntries, Fetcher.start, init, prune, appendOnly, walkFrom,
      coalesceRange, coalesce, splitRange, writeToDatabase, updateRange, returnTask]
  exact ⟨_, hrun, rfl, Fetcher.run_ok_stored (fun n i => i < n) 2 2 appendOnly .v1CT acceptAll
    appendOnly_stores (by decide) (by decide) 0 5 _ hrun rfl⟩

end Run

end FetchState

end CertTrans
