import CertTrans.Keyed.Basic
import CertTrans.Fetcher.WalkEntriesProofs

/-!
What a run of `FetchLogEntries` (`fetcher.cc`) keeps, over every order in which walks and the
completions of the fetches they start come in.

The ranges tile the entries from `start_` to the size of the remote tree seen at the start;
they have positive sizes and distinct addresses; a range being fetched is no bigger than a
batch, and the weight of the ranges before it (a batch per wanted batch, one per range being
fetched) stays under `fetcher_concurrent_fetches`.  Every fetch in flight finds its range, being
fetched, at its index; no two fetches in flight share a range.  The task returns `OK` only with
nothing left to fetch.
-/

namespace CertTrans

namespace FetchState

open Keyed

@[simp] theorem returnTask_start (s : FetchState) (status : TaskStatus) :
    (s.returnTask status).start = s.start := by
  unfold returnTask
  split <;> rfl

@[simp] theorem returnTask_entries (s : FetchState) (status : TaskStatus) :
    (s.returnTask status).entries = s.entries := by
  unfold returnTask
  split <;> rfl

@[simp] theorem returnTask_nextId (s : FetchState) (status : TaskStatus) :
    (s.returnTask status).nextId = s.nextId := by
  unfold returnTask
  split <;> rfl

theorem returnTask_status_eq_ok {s : FetchState} {status : TaskStatus}
    (h : (s.returnTask status).status = some .ok) : s.status = some .ok ∨ status = .ok := by
  unfold returnTask at h
  split at h
  · exact .inr (Option.some.inj h)
  · rename_i hs
    exact .inl (hs ▸ h)

theorem updateRange_append {id : Nat} {f : Range → List Range} {r : Range} (hr : r.id = id)
    (post : List Range) :
    ∀ {pre : List Range}, (∀ a ∈ pre, a.id ≠ id) → updateRange id f (pre ++ r :: post) = pre ++ f r ++ post
  | [], _ => by rw [List.nil_append, updateRange, if_pos hr, List.nil_append]
  | a :: pre, h => by
    rw [List.cons_append, updateRange, if_neg (h a List.mem_cons_self),
      updateRange_append hr post fun b hb => h b (List.mem_cons_of_mem _ hb)]
    rfl

theorem updateRange_of_locate {id o : Nat} {r : Range} {ranges : List Range}
    (h : locate Range.id Range.size id ranges = some (o, r)) :
    ∃ pre post, ranges = pre ++ r :: post ∧ (pre.map Range.size).sum = o ∧
      ∀ g : Range → List Range, updateRange id g ranges = pre ++ g r ++ post := by
  obtain ⟨pre, post, hsplit, hpre, hsum⟩ := exists_of_locate_eq_some h
  refine ⟨pre, post, hsplit, hsum, fun g => ?_⟩
  rw [hsplit]
  exact updateRange_append (key_of_locate_eq_some h) post hpre

/-- `ys` can take the place of the range `r` being fetched: the same entries, none of them being
fetched, at the address of `r` and at most the fresh address `nextId`, and no more than one
batch of weight. -/
structure Replaces (batchSize nextId : Nat) (r : Range) (ys : List Range) : Prop where
  sum : (ys.map Range.size).sum = r.size
  size_pos : ∀ y ∈ ys, 0 < y.size
  not_fetching : ∀ y ∈ ys, y.state ≠ .fetching
  ids : (ys.map Range.id).Sublist [r.id, nextId]
  weight : (ys.map (Range.weight batchSize)).sum ≤ 1

section Replaces

variable {batchSize nextId : Nat} {r : Range}

theorem want_replaces (hb : 0 < batchSize) (hpos : 0 < r.size) (hle : r.size ≤ batchSize) :
    Replaces batchSize nextId r [{ r with state := .want }] where
  sum := by simp
  size_pos := by simpa using hpos
  not_fetching := by simp
  ids := by simp
  weight := by simpa [Range.weight] using (ceilDiv_le_iff_le_mul hb).2 (by omega)

theorem markFetched_replaces (hb : 0 < batchSize) (hpos : 0 < r.size) (hle : r.size ≤ batchSize)
    (processed : Nat) : Replaces batchSize nextId r (markFetched nextId processed r) := by
  unfold markFetched
  split_ifs with hprocessed hsplit
  · exact { sum := by simp; omega
            size_pos := by simp; omega
            not_fetching := by simp
            ids := by simp
            weight := by simpa [Range.weight] using (ceilDiv_le_iff_le_mul hb).2 (by omega) }
  · exact { sum := by simp
            size_pos := by simpa using hpos
            not_fetching := by simp
            ids := by simp
            weight := by simp [Range.weight] }
  · exact want_replaces hb hpos hle

end Replaces

structure RangesInv (batchSize concurrentFetches nextId : Nat) (ranges : List Range) : Prop where
  size_pos : ∀ r ∈ ranges, 0 < r.size
  id_lt : ∀ r ∈ ranges, r.id < nextId
  nodup : (ranges.map Range.id).Nodup
  fetching_le : ∀ r ∈ ranges, r.state = .fetching → r.size ≤ batchSize
  budget : ForallOffsets (Range.weight batchSize) (Budget concurrentFetches) 0 ranges

section RangesInv

variable {batchSize concurrentFetches : Nat}

theorem rangesInv_nil (nextId : Nat) : RangesInv batchSize concurrentFetches nextId [] :=
  ⟨by simp, by simp, List.nodup_nil, by simp, trivial⟩

theorem RangesInv.replace {nextId nextId' : Nat} {pre post ys : List Range} {r : Range}
    (h : RangesInv batchSize concurrentFetches nextId (pre ++ r :: post)) (hr : r.state = .fetching)
    (hys : Replaces batchSize nextId r ys) (hle : nextId ≤ nextId') (hlt : ∀ y ∈ ys, y.id < nextId') :
    RangesInv batchSize concurrentFetches nextId' (pre ++ ys ++ post) where
  size_pos y hy := (mem_or_mem_of_mem_replace hy).elim (hys.size_pos y) (h.size_pos y)
  id_lt y hy := (mem_or_mem_of_mem_replace hy).elim (hlt y) fun hy => by
    have := h.id_lt y hy
    omega
  nodup := by
    have hfresh : nextId ∉ (pre ++ [r] ++ post).map Range.id := fun hin => by
      obtain ⟨a, ha, hid⟩ := List.mem_map.mp hin
      have := h.id_lt a (by simpa using ha)
      omega
    have hnd : (pre.map Range.id ++ [r.id] ++ nextId :: post.map Range.id).Nodup := by
      rw [List.nodup_middle, List.nodup_cons]
      refine ⟨by simpa using hfresh, ?_⟩
      simpa using h.nodup
    have hshape : pre.map Range.id ++ [r.id] ++ nextId :: post.map Range.id =
        pre.map Range.id ++ [r.id, nextId] ++ post.map Range.id := by simp
    rw [hshape] at hnd
    refine hnd.sublist ?_
    rw [List.map_append, List.map_append]
    exact ((List.Sublist.refl _).append hys.ids).append (List.Sublist.refl _)
  fetching_le y hy hf := (mem_or_mem_of_mem_replace hy).elim
    (fun hy => absurd hf (hys.not_fetching y hy)) (fun hy => h.fetching_le y hy hf)
  budget := by
    have hbudget := h.budget
    rw [← List.singleton_append, ← List.append_assoc] at hbudget
    refine hbudget.replace (budget_antitone concurrentFetches)
      (ForallOffsets.of_forall fun o y hy hf => absurd hf (hys.not_fetching y hy)) ?_
    simpa [Range.weight, hr] using hys.weight

end RangesInv

def Located (start : Nat) (ranges : List Range) (p : Fetch) : Prop :=
  ∃ o r, locate Range.id Range.size p.range ranges = some (o, r) ∧ p.index = start + o ∧
    r.state = .fetching ∧ p.endIndex = p.index + r.size - 1

theorem Located.replace {start : Nat} {pre post ys : List Range} {r : Range} {p : Fetch}
    (h : Located start (pre ++ r :: post) p) (hne : r.id ≠ p.range) (hys : ∀ y ∈ ys, y.id ≠ p.range)
    (hsum : (ys.map Range.size).sum = r.size) : Located start (pre ++ ys ++ post) p := by
  obtain ⟨o, r', hloc, hrest⟩ := h
  have hxs : ∀ a ∈ [r], a.id ≠ p.range := by simpa using hne
  refine ⟨o, r', ?_, hrest⟩
  rw [locate_replace hxs hys (by simpa using hsum)]
  simpa using hloc

theorem Located.range_lt {start nextId : Nat} {ranges : List Range} {p : Fetch}
    (h : Located start ranges p) (hlt : ∀ r ∈ ranges, r.id < nextId) : p.range < nextId := by
  obtain ⟨o, r, hloc, -⟩ := h
  have := hlt r (mem_of_locate_eq_some hloc)
  rwa [key_of_locate_eq_some hloc] at this

theorem Replaces.id_mem {batchSize nextId : Nat} {r y : Range} {ys : List Range}
    (h : Replaces batchSize nextId r ys) (hy : y ∈ ys) : y.id = r.id ∨ y.id = nextId := by
  have := h.ids.subset (List.mem_map_of_mem hy)
  simpa using this

section Prune

variable {batchSize concurrentFetches nextId : Nat} (remoteTreeSize : Int)

theorem prune_tiles (start : Nat) (ranges : List Range) :
    (prune remoteTreeSize start ranges).1 + ((prune remoteTreeSize start ranges).2.map Range.size).sum =
      start + (ranges.map Range.size).sum := by
  obtain ⟨dropped, hsplit, hstart, -⟩ := prune_spec remoteTreeSize start ranges
  generalize prune remoteTreeSize start ranges = pruned at hsplit hstart ⊢
  subst hsplit
  rw [hstart, List.map_append, List.sum_append, Nat.add_assoc]

theorem prune_rangesInv {start : Nat} {ranges : List Range}
    (h : RangesInv batchSize concurrentFetches nextId ranges) :
    RangesInv batchSize concurrentFetches nextId (prune remoteTreeSize start ranges).2 := by
  obtain ⟨dropped, hsplit, -, -⟩ := prune_spec remoteTreeSize start ranges
  generalize prune remoteTreeSize start ranges = pruned at hsplit ⊢
  subst hsplit
  have hmem : ∀ r ∈ pruned.2, r ∈ dropped ++ pruned.2 := fun r hr => List.mem_append_right _ hr
  refine ⟨fun r hr => h.size_pos r (hmem r hr), fun r hr => h.id_lt r (hmem r hr), ?_,
    fun r hr => h.fetching_le r (hmem r hr), ?_⟩
  · have hnd := h.nodup
    rw [List.map_append] at hnd
    exact hnd.of_append_right
  · have hbudget := (forallOffsets_append.mp h.budget).2
    exact hbudget.anti (budget_antitone concurrentFetches) (Nat.zero_le _)

theorem prune_located {start : Nat} {ranges : List Range} {p : Fetch} (h : Located start ranges p) :
    Located (prune remoteTreeSize start ranges).1 (prune remoteTreeSize start ranges).2 p := by
  obtain ⟨dropped, hsplit, hstart, hdropped⟩ := prune_spec remoteTreeSize start ranges
  generalize prune remoteTreeSize start ranges = pruned at hsplit hstart hdropped ⊢
  subst hsplit
  obtain ⟨o, r, hloc, hidx, hr, hend⟩ := h
  have hnot : r ∉ dropped := fun hin => by
    obtain ⟨o', h'⟩ := hdropped.exists_of_mem r hin
    rcases h' with h' | ⟨h', -⟩ <;> rw [hr] at h' <;> cases h'
  obtain ⟨o', hloc', ho⟩ := locate_append_eq_some hloc hnot
  refine ⟨o', r, hloc', ?_, hr, hend⟩
  simp only at ho
  omega

theorem prune_ne_nil {start : Nat} {ranges : List Range} {p : Fetch} (h : Located start ranges p) :
    (prune remoteTreeSize start ranges).2 ≠ [] := by
  obtain ⟨o, r, hloc, -⟩ := prune_located remoteTreeSize h
  intro hnil
  rw [hnil] at hloc
  cases hloc

end Prune

section Walk

variable (batchSize concurrentFetches : Nat) (remoteTreeSize : Int)

theorem walkEntries_of_isSome {s : FetchState} (cancelRequested : Bool) (h : s.status.isSome) :
    walkEntries batchSize concurrentFetches remoteTreeSize cancelRequested s = (s, []) := by
  rw [walkEntries, if_pos h]

theorem walkEntries_of_cancel {s : FetchState} (h : s.status = none) :
    walkEntries batchSize concurrentFetches remoteTreeSize true s = (s.returnTask .cancelled, []) := by
  simp [walkEntries, h]

theorem walkEntries_of_prune_eq_nil {s : FetchState} (h : s.status = none)
    (hnil : (prune remoteTreeSize s.start s.entries).2 = []) :
    walkEntries batchSize concurrentFetches remoteTreeSize false s =
      ({ s with start := (prune remoteTreeSize s.start s.entries).1, entries := [] }.returnTask .ok,
        []) := by
  simp [walkEntries, h, hnil]

theorem walkEntries_of_prune_ne_nil {s : FetchState} (h : s.status = none)
    (hne : (prune remoteTreeSize s.start s.entries).2 ≠ []) :
    walkEntries batchSize concurrentFetches remoteTreeSize false s =
      ({ s with start := (prune remoteTreeSize s.start s.entries).1,
                entries := (walkFrom batchSize concurrentFetches remoteTreeSize
                  (prune remoteTreeSize s.start s.entries).1 0 s.nextId
                  (prune remoteTreeSize s.start s.entries).2).1,
                nextId := (walkFrom batchSize concurrentFetches remoteTreeSize
                  (prune remoteTreeSize s.start s.entries).1 0 s.nextId
                  (prune remoteTreeSize s.start s.entries).2).2.2 },
        (walkFrom batchSize concurrentFetches remoteTreeSize (prune remoteTreeSize s.start s.entries).1
          0 s.nextId (prune remoteTreeSize s.start s.entries).2).2.1) := by
  simp [walkEntries, h, hne]

theorem walkFrom_rangesInv (hb : 0 < batchSize) (hc : 0 < concurrentFetches) {index nextId : Nat}
    {ranges : List Range} (h : RangesInv batchSize concurrentFetches nextId ranges) :
    RangesInv batchSize concurrentFetches
      (walkFrom batchSize concurrentFetches remoteTreeSize index 0 nextId ranges).2.2
      (walkFrom batchSize concurrentFetches remoteTreeSize index 0 nextId ranges).1 := by
  obtain ⟨-, hids, hnd⟩ := walkFrom_ids batchSize concurrentFetches remoteTreeSize index 0 nextId ranges
    h.id_lt h.nodup
  exact ⟨walkFrom_size_pos batchSize concurrentFetches remoteTreeSize hb index 0 nextId ranges h.size_pos,
    fun r hr => (hids r hr).1, hnd,
    walkFrom_fetching_le batchSize concurrentFetches remoteTreeSize index 0 nextId ranges h.fetching_le,
    walkFrom_budget batchSize concurrentFetches remoteTreeSize hb index 0 nextId ranges h.size_pos hc
      h.budget⟩

end Walk

section Write

variable {DB : Type} (database : DatabaseOps DB) (config : SerializerConfig) (verifier : LogVerifier)
  (now : UInt64)

theorem writeToDatabase_eq_ok {s s' : FetchState} {db db' : DB} {fetch : Fetch}
    {result : FetchResult}
    (hw : writeToDatabase database config verifier now s db fetch result = .ok (s', db')) :
    s'.start = s.start ∧ (s'.status = some .ok → s.status = some .ok) ∧
      ((s'.entries = updateRange fetch.range (fun r => [{ r with state := .want }]) s.entries ∧
          s'.nextId = s.nextId ∧ db' = db) ∨
        ∃ entries n stop,
          writeEntries database config verifier now fetch.index entries db = .ok (n, stop, db') ∧
          ((s'.entries = s.entries ∧ s'.nextId = s.nextId) ∨
            (s'.entries = updateRange fetch.range (markFetched s.nextId n) s.entries ∧
              s'.nextId = s.nextId + 1))) := by
  cases result with
  | failed =>
    simp only [writeToDatabase, Except.ok.injEq, Prod.mk.injEq] at hw
    obtain ⟨rfl, rfl⟩ := hw
    exact ⟨rfl, id, .inl ⟨rfl, rfl, rfl⟩⟩
  | fetched entries =>
    simp only [writeToDatabase] at hw
    split_ifs at hw with hnil
    · cases hw
    cases hwe : writeEntries database config verifier now fetch.index entries db with
    | error e =>
      rw [hwe] at hw
      cases hw
    | ok written =>
      obtain ⟨n, stop, db₁⟩ := written
      rw [hwe, Codec.except_ok_bind] at hw
      split at hw
      · -- a bad SCT returns the task, and the ranges stay as they are
        simp only [pure, Except.pure, Except.ok.injEq, Prod.mk.injEq] at hw
        obtain ⟨rfl, rfl⟩ := hw
        refine ⟨returnTask_start _ _, fun h => (returnTask_status_eq_ok h).resolve_right (by simp),
          .inr ⟨entries, n, stop, hwe, .inl ⟨returnTask_entries _ _, returnTask_nextId _ _⟩⟩⟩
      · split_ifs at hw <;> simp only [pure, Except.pure, Except.ok.injEq, Prod.mk.injEq] at hw <;>
          obtain ⟨rfl, rfl⟩ := hw
        · refine ⟨returnTask_start _ _, fun h => (returnTask_status_eq_ok h).resolve_right (by simp),
            .inr ⟨entries, n, stop, hwe, .inr ⟨returnTask_entries _ _, returnTask_nextId _ _⟩⟩⟩
        · exact ⟨rfl, id, .inr ⟨entries, n, stop, hwe, .inr ⟨rfl, rfl⟩⟩⟩

end Write

section Run

variable (batchSize concurrentFetches : Nat) {DB : Type}

structure Fetcher.Inv (target : Nat) (f : Fetcher DB) : Prop where
  ranges : RangesInv batchSize concurrentFetches f.state.nextId f.state.entries
  tiles : f.state.start + (f.state.entries.map Range.size).sum = target
  located : ∀ p ∈ f.pending, Located f.state.start f.state.entries p
  pending_nodup : (f.pending.map Fetch.range).Nodup
  done : f.state.status = some .ok → f.state.entries = []

variable {batchSize concurrentFetches} {target : Nat}

theorem Fetcher.inv_start (database : DatabaseOps DB) (db : DB) (remoteTreeSize : Int) :
    (Fetcher.start database db remoteTreeSize).Inv batchSize concurrentFetches
      (max (database.treeSize db) remoteTreeSize.toNat) := by
  unfold Fetcher.start init
  split_ifs with h
  · exact ⟨rangesInv_nil _, by simp; omega, by simp, List.nodup_nil, fun _ => rfl⟩
  · refine ⟨⟨?_, by simp, by simp, by simp, ⟨(fun hf => nomatch hf), trivial⟩⟩, ?_, by simp,
      List.nodup_nil, by simp⟩
    · simp only [List.mem_singleton, forall_eq]
      omega
    · simp only [List.map_cons, List.map_nil, List.sum_cons, List.sum_nil, Nat.add_zero]
      omega

theorem Fetcher.Inv.returnTask {f : Fetcher DB} (h : f.Inv batchSize concurrentFetches target)
    {status : TaskStatus} (hstatus : status ≠ .ok) :
    Fetcher.Inv batchSize concurrentFetches target { f with state := f.state.returnTask status } where
  ranges := by simpa using h.ranges
  tiles := by simpa using h.tiles
  located := by simpa using h.located
  pending_nodup := h.pending_nodup
  done hok := (returnTask_status_eq_ok hok).elim (fun hok => by simpa using h.done hok)
    fun hok => absurd hok hstatus

theorem Fetcher.Inv.walk (hb : 0 < batchSize) (hc : 0 < concurrentFetches) {f : Fetcher DB}
    (h : f.Inv batchSize concurrentFetches target) (remoteTreeSize : Int) (cancelRequested : Bool) :
    Fetcher.Inv batchSize concurrentFetches target
      { f with state := (f.state.walkEntries batchSize concurrentFetches remoteTreeSize
                  cancelRequested).1,
               pending := f.pending ++ (f.state.walkEntries batchSize concurrentFetches remoteTreeSize
                  cancelRequested).2 } := by
  by_cases hsome : f.state.status.isSome
  · rw [walkEntries_of_isSome _ _ _ _ hsome]
    simpa using h
  have hnone : f.state.status = none := Option.not_isSome_iff_eq_none.mp hsome
  cases cancelRequested
  case true =>
    rw [walkEntries_of_cancel _ _ _ hnone]
    simpa using h.returnTask (show TaskStatus.cancelled ≠ .ok by decide)
  case false =>
  have htiles := prune_tiles remoteTreeSize f.state.start f.state.entries
  by_cases hnil : (prune remoteTreeSize f.state.start f.state.entries).2 = []
  · -- nothing left: no fetch was in flight, and the task returns `OK`
    have hpending : f.pending = [] := List.eq_nil_iff_forall_not_mem.mpr fun p hp =>
      prune_ne_nil remoteTreeSize (h.located p hp) hnil
    rw [walkEntries_of_prune_eq_nil _ _ _ hnone hnil]
    rw [hnil] at htiles
    refine ⟨by simpa using rangesInv_nil _, ?_, by simp [hpending], by simp [hpending], by simp⟩
    simp only [List.map_nil, List.sum_nil, Nat.add_zero] at htiles
    simpa [htiles] using h.tiles
  rw [walkEntries_of_prune_ne_nil _ _ _ hnone hnil]
  generalize hpruned : prune remoteTreeSize f.state.start f.state.entries = pruned at htiles hnil
  have hinv : RangesInv batchSize concurrentFetches f.state.nextId pruned.2 := by
    rw [← hpruned]
    exact prune_rangesInv remoteTreeSize h.ranges
  have hlocated : ∀ p ∈ f.pending, Located pruned.1 pruned.2 p := fun p hp => by
    simpa [hpruned] using prune_located remoteTreeSize (h.located p hp)
  obtain ⟨-, -, hnd⟩ := walkFrom_ids batchSize concurrentFetches remoteTreeSize pruned.1 0 f.state.nextId
    pruned.2 hinv.id_lt hinv.nodup
  refine ⟨walkFrom_rangesInv batchSize concurrentFetches remoteTreeSize hb hc hinv, ?_, ?_, ?_, ?_⟩
  · show pruned.1 + _ = target
    rw [walkFrom_sum, htiles, h.tiles]
  · intro p hp
    rcases List.mem_append.mp hp with hp | hp
    · -- a fetch already in flight: the walk leaves its range where it was
      obtain ⟨o, r, hloc, hidx, hr, hend⟩ := hlocated p hp
      exact ⟨o, r, walkFrom_locate_fetching batchSize concurrentFetches remoteTreeSize pruned.1 0
        f.state.nextId pruned.2 hinv.id_lt p.range o r hloc hr, hidx, hr, hend⟩
    · exact walkFrom_fetches batchSize concurrentFetches remoteTreeSize pruned.1 0 f.state.nextId
        pruned.2 hinv.id_lt hinv.nodup p hp
  · rw [List.map_append, List.nodup_append]
    refine ⟨h.pending_nodup, hnd.sublist (walkFrom_fetches_sublist _ _ _ _ _ _ _), ?_⟩
    intro a ha b hb' hab
    obtain ⟨q, hq, rfl⟩ := List.mem_map.mp ha
    obtain ⟨p, hp, rfl⟩ := List.mem_map.mp hb'
    obtain ⟨o, r, hloc, -, hr, -⟩ := hlocated q hq
    rcases walkFrom_fetch_ranges batchSize concurrentFetches remoteTreeSize pruned.1 0 f.state.nextId
      pruned.2 p hp with ⟨w, hw, hwant, hid⟩ | hle
    · have hwr : w = r := List.inj_on_of_nodup_map hinv.nodup hw (mem_of_locate_eq_some hloc)
        (by rw [hid, ← hab, key_of_locate_eq_some hloc])
      rw [hwr, hr] at hwant
      cases hwant
    · have := (hlocated q hq).range_lt hinv.id_lt
      omega
  · intro hok
    simp [hnone] at hok

theorem Fetcher.Inv.update {f : Fetcher DB} (h : f.Inv batchSize concurrentFetches target)
    {fetch : Fetch} (hmem : fetch ∈ f.pending) {g : Range → List Range} {nextId' : Nat}
    (hle : f.state.nextId ≤ nextId')
    (hg : ∀ r, r.state = .fetching → 0 < r.size → r.size ≤ batchSize → r.id < f.state.nextId →
      Replaces batchSize f.state.nextId r (g r) ∧ ∀ y ∈ g r, y.id < nextId')
    {s' : FetchState} (hstart : s'.start = f.state.start)
    (hentries : s'.entries = updateRange fetch.range g f.state.entries) (hnext : s'.nextId = nextId')
    (hstatus : s'.status = some .ok → f.state.status = some .ok) (db' : DB) :
    Fetcher.Inv batchSize concurrentFetches target ⟨s', db', f.pending.erase fetch⟩ := by
  obtain ⟨o, r, hloc, -, hr, -⟩ := h.located fetch hmem
  have hkey : r.id = fetch.range := key_of_locate_eq_some hloc
  have hrmem : r ∈ f.state.entries := mem_of_locate_eq_some hloc
  obtain ⟨pre, post, hsplit, -, hupd⟩ := updateRange_of_locate hloc
  obtain ⟨hrep, hlt⟩ := hg r hr (h.ranges.size_pos r hrmem) (h.ranges.fetching_le r hrmem hr)
    (h.ranges.id_lt r hrmem)
  have hupdate : s'.entries = pre ++ g r ++ post := by rw [hentries, hupd]
  have hinv := h.ranges
  rw [hsplit] at hinv
  have hnd : f.pending.Nodup := h.pending_nodup.of_map _
  refine ⟨?_, ?_, ?_, ?_, ?_⟩
  · show RangesInv _ _ s'.nextId s'.entries
    rw [hupdate, hnext]
    exact hinv.replace hr hrep hle hlt
  · show s'.start + _ = target
    rw [hupdate, hstart, ← h.tiles, hsplit]
    simp [hrep.sum]
  · intro q hq
    obtain ⟨hne, hq⟩ := (hnd.mem_erase_iff).mp hq
    have hrange : fetch.range ≠ q.range := fun heq =>
      hne (List.inj_on_of_nodup_map h.pending_nodup hq hmem heq.symm)
    have hqlt := (h.located q hq).range_lt h.ranges.id_lt
    have hqloc := h.located q hq
    rw [hsplit] at hqloc
    show Located s'.start s'.entries q
    rw [hupdate, hstart]
    refine hqloc.replace (hkey ▸ hrange) (fun y hy => ?_) hrep.sum
    rcases hrep.id_mem hy with hid | hid
    · rw [hid, hkey]
      exact hrange
    · omega
  · exact h.pending_nodup.sublist (List.erase_sublist.map _)
  · intro hok
    have hnil := h.done (hstatus hok)
    rw [hnil] at hloc
    cases hloc

theorem Fetcher.Inv.erase {f : Fetcher DB} (h : f.Inv batchSize concurrentFetches target)
    {fetch : Fetch} (hmem : fetch ∈ f.pending) {s' : FetchState} (hstart : s'.start = f.state.start)
    (hentries : s'.entries = f.state.entries) (hnext : s'.nextId = f.state.nextId)
    (hstatus : s'.status = some .ok → f.state.status = some .ok) (db' : DB) :
    Fetcher.Inv batchSize concurrentFetches target ⟨s', db', f.pending.erase fetch⟩ where
  ranges := by
    show RangesInv _ _ s'.nextId s'.entries
    rw [hentries, hnext]
    exact h.ranges
  tiles := by
    show s'.start + _ = target
    rw [hentries, hstart]
    exact h.tiles
  located q hq := by
    show Located s'.start s'.entries q
    rw [hentries, hstart]
    exact h.located q (List.mem_of_mem_erase hq)
  pending_nodup := h.pending_nodup.sublist (List.erase_sublist.map _)
  done hok := by
    obtain ⟨o, r, hloc, -⟩ := h.located fetch hmem
    rw [h.done (hstatus hok)] at hloc
    cases hloc

end Run

section Steps

variable {batchSize concurrentFetches : Nat} {DB : Type} {target : Nat}
  (database : DatabaseOps DB) (config : SerializerConfig) (verifier : LogVerifier)

theorem Fetcher.Inv.complete (hb : 0 < batchSize) {f : Fetcher DB}
    (h : f.Inv batchSize concurrentFetches target) {fetch : Fetch} (hmem : fetch ∈ f.pending)
    {now : UInt64} {result : FetchResult} {s' : FetchState} {db' : DB}
    (hw : writeToDatabase database config verifier now f.state f.db fetch result = .ok (s', db')) :
    Fetcher.Inv batchSize concurrentFetches target ⟨s', db', f.pending.erase fetch⟩ := by
  obtain ⟨hstart, hstatus, hcases⟩ := writeToDatabase_eq_ok database config verifier now hw
  rcases hcases with ⟨hentries, hnext, -⟩ | ⟨entries, n, stop, -, ⟨hentries, hnext⟩ | ⟨hentries, hnext⟩⟩
  · -- the fetch failed: its range is wanted again
    refine h.update hmem (g := fun r => [{ r with state := .want }]) le_rfl ?_ hstart hentries hnext
      hstatus db'
    intro r _ hpos hle hlt
    exact ⟨want_replaces hb hpos hle, by simpa using hlt⟩
  · exact h.erase hmem hstart hentries hnext hstatus db'
  · refine h.update hmem (g := markFetched f.state.nextId n) (Nat.le_succ _) ?_ hstart hentries hnext
      hstatus db'
    intro r _ hpos hle hlt
    refine ⟨markFetched_replaces hb hpos hle n, fun y hy => ?_⟩
    rcases (markFetched_replaces hb hpos hle n).id_mem hy with hid | hid <;> omega

variable (batchSize concurrentFetches)

theorem Fetcher.step_eq_ok {f f' : Fetcher DB} {e : Event}
    (hstep : f.step batchSize concurrentFetches database config verifier e = .ok f') :
    (∃ remoteTreeSize cancelRequested, e = .walk remoteTreeSize cancelRequested ∧
      f' = { f with state := (f.state.walkEntries batchSize concurrentFetches remoteTreeSize
                  cancelRequested).1,
                    pending := f.pending ++ (f.state.walkEntries batchSize concurrentFetches
                      remoteTreeSize cancelRequested).2 }) ∨
    (∃ fetch now result s' db', e = .complete fetch now result ∧ fetch ∈ f.pending ∧
      writeToDatabase database config verifier now f.state f.db fetch result = .ok (s', db') ∧
      f' = ⟨s', db', f.pending.erase fetch⟩) ∨
    (∃ fetch now result, e = .complete fetch now result ∧ f' = f) := by
  cases e with
  | walk remoteTreeSize cancelRequested =>
    simp only [Fetcher.step, Except.ok.injEq] at hstep
    exact .inl ⟨remoteTreeSize, cancelRequested, rfl, hstep.symm⟩
  | complete fetch now result =>
    simp only [Fetcher.step] at hstep
    split_ifs at hstep with hmem
    · cases hw : writeToDatabase database config verifier now f.state f.db fetch result with
      | error e =>
        rw [hw] at hstep
        cases hstep
      | ok written =>
        rw [hw, Codec.except_ok_bind] at hstep
        cases hstep
        exact .inr (.inl ⟨fetch, now, result, written.1, written.2, rfl, hmem, hw, rfl⟩)
    · cases hstep
      exact .inr (.inr ⟨fetch, now, result, rfl, rfl⟩)

theorem Fetcher.Inv.step (hb : 0 < batchSize) (hc : 0 < concurrentFetches) {f f' : Fetcher DB}
    (h : f.Inv batchSize concurrentFetches target) {e : Event}
    (hstep : f.step batchSize concurrentFetches database config verifier e = .ok f') :
    f'.Inv batchSize concurrentFetches target := by
  rcases Fetcher.step_eq_ok batchSize concurrentFetches database config verifier hstep with
    ⟨remoteTreeSize, cancelRequested, -, rfl⟩ | ⟨fetch, now, result, s', db', -, hmem, hw, rfl⟩ |
      ⟨-, -, -, -, rfl⟩
  · exact h.walk hb hc remoteTreeSize cancelRequested
  · exact h.complete database config verifier hb hmem hw
  · exact h

theorem Fetcher.Inv.run (hb : 0 < batchSize) (hc : 0 < concurrentFetches) {f f' : Fetcher DB}
    (h : f.Inv batchSize concurrentFetches target) (events : List Event)
    (hrun : f.run batchSize concurrentFetches database config verifier events = .ok f') :
    f'.Inv batchSize concurrentFetches target :=
  foldlM_invariant (fun _ _ _ hf hstep => hf.step batchSize concurrentFetches database config verifier
    hb hc hstep) events h hrun

theorem Fetcher.inv_run (hb : 0 < batchSize) (hc : 0 < concurrentFetches) (db : DB)
    (remoteTreeSize : Int) (events : List Event) {f : Fetcher DB}
    (hrun : (Fetcher.start database db remoteTreeSize).run batchSize concurrentFetches database config
      verifier events = .ok f) :
    f.Inv batchSize concurrentFetches (max (database.treeSize db) remoteTreeSize.toNat) :=
  (Fetcher.inv_start database db remoteTreeSize).run batchSize concurrentFetches database config
    verifier hb hc events hrun

end Steps

section InFlight

variable {batchSize concurrentFetches : Nat} {DB : Type} {target : Nat} {f : Fetcher DB}

theorem Fetcher.Inv.fetch_bounds (h : f.Inv batchSize concurrentFetches target) {p : Fetch}
    (hp : p ∈ f.pending) :
    f.state.start ≤ p.index ∧ (p.index : Int) ≤ p.endIndex ∧ p.endIndex < target ∧
      p.endIndex + 1 - p.index ≤ batchSize := by
  obtain ⟨o, r, hloc, hidx, hr, hend⟩ := h.located p hp
  have hmem := mem_of_locate_eq_some hloc
  have hpos := h.ranges.size_pos r hmem
  have hle := h.ranges.fetching_le r hmem hr
  have hsum := locate_add_size_le_sum hloc
  have htiles := h.tiles
  refine ⟨by omega, by omega, by omega, by omega⟩

theorem Fetcher.Inv.fetches_disjoint (h : f.Inv batchSize concurrentFetches target) {p q : Fetch}
    (hp : p ∈ f.pending) (hq : q ∈ f.pending) (hne : p ≠ q) :
    p.endIndex < q.index ∨ q.endIndex < p.index := by
  have hrange : p.range ≠ q.range := fun heq => hne (List.inj_on_of_nodup_map h.pending_nodup hp hq heq)
  obtain ⟨o, r, hloc, hidx, hr, hend⟩ := h.located p hp
  obtain ⟨o', r', hloc', hidx', hr', hend'⟩ := h.located q hq
  have hpos := h.ranges.size_pos r (mem_of_locate_eq_some hloc)
  have hpos' := h.ranges.size_pos r' (mem_of_locate_eq_some hloc')
  rcases locate_disjoint hrange hloc hloc' with hlt | hlt <;> [left; right] <;> omega

theorem Fetcher.Inv.pending_length_le (h : f.Inv batchSize concurrentFetches target) :
    f.pending.length ≤ f.state.entries.countP (fun r => r.state = .fetching) ∧
      f.state.entries.countP (fun r => r.state = .fetching) ≤ concurrentFetches := by
  constructor
  · have hsub : f.pending.map Fetch.range ⊆
        (f.state.entries.filter fun r => r.state = .fetching).map Range.id := by
      intro x hx
      obtain ⟨p, hp, rfl⟩ := List.mem_map.mp hx
      obtain ⟨o, r, hloc, -, hr, -⟩ := h.located p hp
      rw [← key_of_locate_eq_some hloc]
      exact List.mem_map_of_mem (List.mem_filter.mpr ⟨mem_of_locate_eq_some hloc, by simpa using hr⟩)
    have := h.pending_nodup.length_le_of_subset hsub
    rwa [List.length_map, List.length_map, ← List.countP_eq_length_filter] at this
  · -- a range being fetched weighs one, and the weight before it stays under the limit
    have hbudget : ForallOffsets (Range.weight batchSize)
        (fun o r => decide (r.state = .fetching) = true → o < concurrentFetches) 0 f.state.entries :=
      h.ranges.budget.imp fun o r hr hf => hr (of_decide_eq_true hf)
    have hw : ∀ r : Range, decide (r.state = .fetching) = true → 1 ≤ r.weight batchSize := by
      intro r hf
      simp [Range.weight, of_decide_eq_true hf]
    exact ForallOffsets.countP_le hw hbudget

end InFlight

def appendOnly : DatabaseOps Nat where
  treeSize n := n
  createSequencedEntry n e := if e.sequenceNumber = some (n : Int) then (.ok, n + 1)
    else (.sequenceNumberAlreadyInUse, n)

def acceptAll : LogVerifier := ⟨List.replicate 32 0, .none, .anonymous, fun _ _ => true⟩

section Extras

variable (batchSize concurrentFetches : Nat) {DB : Type} (database : DatabaseOps DB)
  (config : SerializerConfig) (verifier : LogVerifier)

theorem Fetcher.run_tiles (hb : 0 < batchSize) (hc : 0 < concurrentFetches) (db : DB)
    (remoteTreeSize : Int) (events : List Event) {f : Fetcher DB}
    (hrun : (Fetcher.start database db remoteTreeSize).run batchSize concurrentFetches database config
      verifier events = .ok f) :
    f.state.start + (f.state.entries.map Range.size).sum =
        max (database.treeSize db) remoteTreeSize.toNat ∧ ∀ r ∈ f.state.entries, 0 < r.size := by
  have h := Fetcher.inv_run batchSize concurrentFetches database config verifier hb hc db remoteTreeSize
    events hrun
  exact ⟨h.tiles, h.ranges.size_pos⟩

theorem run_walk_two_fetches :
    (Fetcher.start appendOnly 0 5).run 2 2 appendOnly .v1CT acceptAll [.walk 5 false] =
      .ok ⟨⟨0, [⟨0, .fetching, 2⟩, ⟨1, .fetching, 2⟩, ⟨2, .want, 1⟩], 3, none⟩, 0,
        [⟨0, 0, 1⟩, ⟨2, 1, 3⟩]⟩ := by
  simp [Fetcher.run, Fetcher.step, walkEntries, Fetcher.start, init, prune, appendOnly, walkFrom,
    coalesceRange, coalesce, splitRange]

theorem Fetcher.run_tiles_two_fetches :
    ∃ f, (Fetcher.start appendOnly 0 5).run 2 2 appendOnly .v1CT acceptAll [.walk 5 false] = .ok f ∧
      f.state.start + (f.state.entries.map Range.size).sum = max (appendOnly.treeSize 0) (5 : Int).toNat ∧
        ∀ r ∈ f.state.entries, 0 < r.size :=
  ⟨_, run_walk_two_fetches,
    Fetcher.run_tiles 2 2 appendOnly .v1CT acceptAll (by decide) (by decide) 0 5 _ run_walk_two_fetches⟩

/-- Every fetch in flight asks `PeerGroup::FetchEntries` for a nonempty run of at most
`fetcher_batch_size` entries, past `start_` and below the size of the remote tree at the start. -/
theorem Fetcher.run_fetch_bounds (hb : 0 < batchSize) (hc : 0 < concurrentFetches) (db : DB)
    (remoteTreeSize : Int) (events : List Event) {f : Fetcher DB}
    (hrun : (Fetcher.start database db remoteTreeSize).run batchSize concurrentFetches database config
      verifier events = .ok f) :
    ∀ p ∈ f.pending, f.state.start ≤ p.index ∧ (p.index : Int) ≤ p.endIndex ∧
      p.endIndex < max (database.treeSize db) remoteTreeSize.toNat ∧
      p.endIndex + 1 - p.index ≤ batchSize := fun _ hp =>
  (Fetcher.inv_run batchSize concurrentFetches database config verifier hb hc db remoteTreeSize events
    hrun).fetch_bounds hp

theorem Fetcher.run_fetch_bounds_two_fetches :
    ∃ f, (Fetcher.start appendOnly 0 5).run 2 2 appendOnly .v1CT acceptAll [.walk 5 false] = .ok f ∧
      f.pending ≠ [] ∧
      ∀ p ∈ f.pending, f.state.start ≤ p.index ∧ (p.index : Int) ≤ p.endIndex ∧
        p.endIndex < max (appendOnly.treeSize 0) (5 : Int).toNat ∧ p.endIndex + 1 - p.index ≤ 2 :=
  ⟨_, run_walk_two_fetches, by simp,
    Fetcher.run_fetch_bounds 2 2 appendOnly .v1CT acceptAll (by decide) (by decide) 0 5 _
      run_walk_two_fetches⟩

/-- No two fetches in flight ask for the same entry. -/
theorem Fetcher.run_fetches_disjoint (hb : 0 < batchSize) (hc : 0 < concurrentFetches) (db : DB)
    (remoteTreeSize : Int) (events : List Event) {f : Fetcher DB}
    (hrun : (Fetcher.start database db remoteTreeSize).run batchSize concurrentFetches database config
      verifier events = .ok f) :
    ∀ p ∈ f.pending, ∀ q ∈ f.pending, p ≠ q → p.endIndex < q.index ∨ q.endIndex < p.index :=
  fun _ hp _ hq hne => (Fetcher.inv_run batchSize concurrentFetches database config verifier hb hc db
    remoteTreeSize events hrun).fetches_disjoint hp hq hne

theorem Fetcher.run_fetches_disjoint_two_fetches :
    ∃ f, (Fetcher.start appendOnly 0 5).run 2 2 appendOnly .v1CT acceptAll [.walk 5 false] = .ok f ∧
      f.pending.length = 2 ∧
      ∀ p ∈ f.pending, ∀ q ∈ f.pending, p ≠ q → p.endIndex < q.index ∨ q.endIndex < p.index :=
  ⟨_, run_walk_two_fetches, rfl,
    Fetcher.run_fetches_disjoint 2 2 appendOnly .v1CT acceptAll (by decide) (by decide) 0 5 _
      run_walk_two_fetches⟩

/-- At no point are more ranges being fetched than `fetcher_concurrent_fetches`, nor more fetches
in flight. -/
theorem Fetcher.run_concurrent_fetches_le (hb : 0 < batchSize) (hc : 0 < concurrentFetches) (db : DB)
    (remoteTreeSize : Int) (events : List Event) {f : Fetcher DB}
    (hrun : (Fetcher.start database db remoteTreeSize).run batchSize concurrentFetches database config
      verifier events = .ok f) :
    f.pending.length ≤ f.state.entries.countP (fun r => r.state = .fetching) ∧
      f.state.entries.countP (fun r => r.state = .fetching) ≤ concurrentFetches :=
  (Fetcher.inv_run batchSize concurrentFetches database config verifier hb hc db remoteTreeSize events
    hrun).pending_length_le

theorem Fetcher.run_concurrent_fetches_le_two_fetches :
    ∃ f, (Fetcher.start appendOnly 0 5).run 2 2 appendOnly .v1CT acceptAll [.walk 5 false] = .ok f ∧
      f.pending.length ≤ f.state.entries.countP (fun r => r.state = .fetching) ∧
        f.state.entries.countP (fun r => r.state = .fetching) ≤ 2 :=
  ⟨_, run_walk_two_fetches,
    Fetcher.run_concurrent_fetches_le 2 2 appendOnly .v1CT acceptAll (by decide) (by decide) 0 5 _
      run_walk_two_fetches⟩

end Extras

end FetchState

end CertTrans
