import CertTrans.Log.DatabaseQueries
import CertTrans.Server.Handler

/-!
What `get-entries` answers.

The loop of `BlockingGetEntries` reads the database's scan from `start` and
stops at the first entry that does not carry the next number, or past `end`.
Over a database it therefore answers the entries at `start, start + 1, …` up
to the first missing number and up to `end` included.  `GetEntries` clamps
`end` to `start + max_leaf_entries_per_response`, so a reply can hold one
entry more than the flag.
-/

namespace CertTrans

open Database Keyed Codec

namespace HttpHandler

theorem entriesReply_of_ne_nil {jsonEntries : List EntryJson} (h : jsonEntries ≠ []) :
    entriesReply (some jsonEntries) = .json httpOk (.entries jsonEntries) := by
  cases jsonEntries with
  | nil => exact absurd rfl h
  | cons _ _ => rfl

section GetEntries

variable {serializeForLeaf serializeExtraData serializeSCT : LoggedEntry → Option ByteString}
  {get : ℕ → Option LoggedEntry}

theorem getEntriesFrom_sortedFrom (hseq : Sequenced get) (includeScts : Bool) (last : ℤ) :
    ∀ {l : List (Σ _ : ℕ, LoggedEntry)} {n : ℕ}, SortedFrom get n l →
      getEntriesFrom serializeForLeaf serializeExtraData serializeSCT includeScts n last
          (l.map Sigma.snd) =
        (consecutiveFrom get n (last + 1 - n).toNat).mapM
          (entryJson serializeForLeaf serializeExtraData serializeSCT includeScts)
  | [], n, hsorted => by
    have hnone : get n = none := by
      cases hget : get n with
      | none => rfl
      | some logged => cases (hsorted.2 ⟨n, logged⟩).mpr ⟨le_rfl, hget⟩
    rw [consecutiveFrom_of_none hnone]
    rfl
  | ⟨k, logged⟩ :: l, n, hsorted => by
    have hget := hsorted.isLeast_head.2
    have hnum : logged.sequenceNumber.getD 0 = k := by rw [hseq k logged hget]; rfl
    rw [List.map_cons, getEntriesFrom, hnum]
    by_cases hlast : last < n
    · -- past `end`: the loop ends before reading
      rw [if_pos (.inl hlast), show (last + 1 - n).toNat = 0 by omega]
      rfl
    by_cases hk : k = n
    · -- the entry carries the next number: it is answered and the loop goes on
      subst hk
      rw [if_neg (by omega),
        show (last + 1 - k).toNat = (last + 1 - (k + 1 : ℕ)).toNat + 1 by omega,
        consecutiveFrom_succ_of_some hget, List.mapM_cons, ← Nat.cast_succ,
        getEntriesFrom_sortedFrom hseq includeScts last hsorted.tail]
    · -- the next number is missing
      rw [if_pos (.inr (by omega)), consecutiveFrom_of_none (hsorted.eq_none_of_cons hk)]
      rfl

variable (hseq : Sequenced get) {scanEntries : Int → Except String (List LoggedEntry)}
  (hscan : ∀ n : ℕ, ∃ l, SortedFrom get n l ∧ scanEntries n = .ok (l.map Sigma.snd))
include hseq hscan

theorem getEntries_eq {maxLeafEntriesPerResponse : ℤ} {req : Request} (hcmd : req.command = .get)
    (hstart : 0 ≤ getIntParam req.query "start")
    (hend : getIntParam req.query "start" ≤ getIntParam req.query "end") :
    getEntries serializeForLeaf serializeExtraData serializeSCT maxLeafEntriesPerResponse
        scanEntries req =
      .ok (entriesReply ((consecutiveFrom get (getIntParam req.query "start").toNat
        (min (getIntParam req.query "end")
            (getIntParam req.query "start" + maxLeafEntriesPerResponse) + 1 -
          getIntParam req.query "start").toNat).mapM
        (entryJson serializeForLeaf serializeExtraData serializeSCT
          (getBoolParam req.query "include_scts")))) := by
  obtain ⟨start, hs⟩ : ∃ start : ℕ, getIntParam req.query "start" = start :=
    ⟨_, (Int.toNat_of_nonneg hstart).symm⟩
  obtain ⟨l, hsorted, hscanned⟩ := hscan start
  rw [hs] at hend ⊢
  simp only [getEntries, hcmd, ne_eq, not_true_eq_false, if_false, hs, Int.natCast_nonneg,
    not_lt.mpr, not_lt.mpr hend, blockingGetEntries, hscanned, except_ok_bind,
    getEntriesFrom_sortedFrom hseq _ _ hsorted, Int.toNat_natCast]
  rfl

end GetEntries

/-- `get-entries?start=0&end=1000`, with the default flag `1000`, on a log
database holding the entries `0` to `1000`: the reply holds `1001` entries. -/
theorem getEntries_answers_extra_entry :
    ∃ db jsonEntries, LevelDB.run ((List.range 1001).map fun k : ℕ =>
        .createSequencedEntry { sequenceNumber := some (k : ℤ) }) = .ok db ∧
      getEntries (fun _ => some []) (fun _ => some []) (fun _ => some []) 1000
        (LevelDB.scanEntries db) ⟨.get, [("start", "0"), ("end", "1000")]⟩ =
          .ok (.json httpOk (.entries jsonEntries)) ∧
      jsonEntries.length = 1001 := by
  have hops : ∀ op ∈ (List.range 1001).map (fun k : ℕ =>
      Op.createSequencedEntry { sequenceNumber := some (k : ℤ) }), op.HasSequenceNumber := by
    simp only [List.mem_map]
    rintro _ ⟨k, -, rfl⟩
    exact ⟨k, rfl⟩
  obtain ⟨db, hrun, hv, hget⟩ := runWith_simulates LevelDB.scan_perm _ hops
  rw [Entries.run_range (fun k => { sequenceNumber := some (k : ℤ) }) (fun _ => rfl)] at hget
  have hstored : ∀ k, 0 ≤ k → k < 0 + 1001 → (lookupByIndex db k).isSome := by
    intro k _ hk
    simp [hget, show k < 1001 by omega]
  have hstart : getIntParam [("start", "0"), ("end", "1000")] "start" = 0 := by decide
  have hend : getIntParam [("start", "0"), ("end", "1000")] "end" = 1000 := by decide
  have hscts : getBoolParam [("start", "0"), ("end", "1000")] "include_scts" = false := by decide
  refine ⟨db, (consecutiveFrom (lookupByIndex db) 0 1001).map fun _ => ⟨[], [], none⟩, ?_, ?_,
    by rw [List.length_map, length_consecutiveFrom hstored]⟩
  · exact (show LevelDB.run _ = runWith LevelDB.scan _ from rfl).trans hrun
  rw [getEntries_eq hv.sequenced (LevelDB.scanEntries_sortedFrom hv) rfl (by rw [hstart])
    (by rw [hstart, hend]; decide)]
  simp only [hstart, hend, hscts]
  rw [show (min 1000 (0 + 1000) + 1 - 0 : ℤ).toNat = 1001 by decide, Int.toNat_zero,
    mapM_eq_some_of_forall (f := entryJson (fun _ => some []) (fun _ => some []) (fun _ => some [])
      false) (g := fun _ => ⟨[], [], none⟩) fun _ _ => rfl,
    entriesReply_of_ne_nil (List.ne_nil_of_length_pos (by
      rw [List.length_map, length_consecutiveFrom hstored]; omega))]

end HttpHandler

end CertTrans
