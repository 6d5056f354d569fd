import CertTrans.Log.DatabaseIndex
import CertTrans.Log.TreeSigner
import CertTrans.Log.SequenceMapping

/-!
What `SequenceNewEntries` does to a mapping that satisfies `MappingInvariant`.

The loop over the pending entries is proved against `assignFrom`, the numbers
it gives the entries in order: an entry within the guard window gets none, an
entry whose hash is mapped keeps its number, and the others take consecutive
numbers from `NextAvailableSequenceNumber()`.  When every mapped hash at or
above the serving tree size has a pending entry past the guard window, no
`CHECK` fails and the new mapping satisfies the invariant again.  Without that
the sanity check on vanished hashes ends the process: the guard window is
tested before the lookup of the hash, so an entry already sequenced counts as
vanished while it lies within the guard window of the clock.
-/

namespace CertTrans.TreeSigner

open EtcdConsistentStore

/-- `sequenced_hashes` built from the mapping, with the hashes in `seen`
marked present. -/
def flagged (mapping : List Mapping) (seen : List ByteString) : SequencedHashes :=
  mapping.map fun m => (m.entryHash, m.sequenceNumber, decide (m.entryHash ∈ seen))

def assignFrom (mapping : List Mapping) (guardWindow now : Int) :
    Int → List LoggedEntry → List (Int × LoggedEntry)
  | _, [] => []
  | next, p :: rest =>
      if now - p.timestamp < guardWindow then assignFrom mapping guardWindow now next rest
      else
        match mappedNumber mapping p.hash with
        | some seq => (seq, p) :: assignFrom mapping guardWindow now next rest
        | none => (next, p) :: assignFrom mapping guardWindow now (next + 1) rest

def Assigned.mapping (e : Int × LoggedEntry) : Mapping := Mapping.mk e.2.hash e.1

def Assigned.entry (e : Int × LoggedEntry) : Int × LoggedEntry :=
  (e.1, { e.2 with sequenceNumber := some e.1 })

section Flags

variable {mapping : List Mapping} {seen seen' : List ByteString}

theorem flagged_congr (h : ∀ m ∈ mapping, m.entryHash ∈ seen ↔ m.entryHash ∈ seen') :
    flagged mapping seen = flagged mapping seen' := by
  apply List.map_congr_left
  intro m hm
  simp [h m hm]

theorem markPresent_flagged (hash : ByteString) :
    markPresent hash (flagged mapping seen) = flagged mapping (hash :: seen) := by
  simp only [markPresent, flagged, List.map_map]
  apply List.map_congr_left
  intro m _
  by_cases hm : m.entryHash = hash
  · simp [hm]
  · simp [hm]

theorem find?_flagged (hash : ByteString) :
    (flagged mapping seen).find? (·.1 = hash) =
      (mapping.find? (·.entryHash = hash)).map
        fun m => (m.entryHash, m.sequenceNumber, decide (m.entryHash ∈ seen)) := by
  rw [flagged, List.find?_map]
  rfl

theorem insertSequencedHashes_eq (mapping : List Mapping) :
    ∀ acc : SequencedHashes, (acc.map (·.1) ++ mapping.map (·.entryHash)).Nodup →
      insertSequencedHashes acc mapping = .ok (acc ++ flagged mapping []) := by
  induction mapping with
  | nil =>
    intro acc _
    simp [insertSequencedHashes, flagged]
    rfl
  | cons m rest ih =>
    intro acc hnodup
    have hnotin : m.entryHash ∉ acc.map (·.1) := by
      intro hin
      exact (List.nodup_append.mp hnodup).2.2 _ hin _ List.mem_cons_self rfl
    have hany : acc.any (fun s => decide (s.1 = m.entryHash)) = false :=
      Keyed.any_eq_false_of_not_mem_map hnotin
    rw [insertSequencedHashes, hany, if_neg Bool.false_ne_true,
      ih _ (by simpa using hnodup)]
    simp [flagged]

end Flags

section Step

variable {guardWindow now : Int} {st : Sequencing} {p : LoggedEntry}

theorem sequenceEntry_of_lt (h : now - p.timestamp < guardWindow) :
    sequenceEntry guardWindow now st p = .ok st := by
  rw [sequenceEntry, if_pos h]
  rfl

theorem sequenceEntry_of_find?_eq_none (h : ¬ now - p.timestamp < guardWindow)
    (hfind : st.sequencedHashes.find? (·.1 = p.hash) = none)
    (hkey : st.nextSequenceNumber ∉ st.seqToEntry.map (·.1)) :
    sequenceEntry guardWindow now st p = .ok { st with
      newMapping := st.newMapping ++ [Mapping.mk p.hash st.nextSequenceNumber]
      seqToEntry := st.seqToEntry ++
        [(st.nextSequenceNumber, { p with sequenceNumber := some st.nextSequenceNumber })]
      numSequenced := st.numSequenced + 1
      nextSequenceNumber := st.nextSequenceNumber + 1 } := by
  have hany : st.seqToEntry.any (fun e => decide (e.1 = st.nextSequenceNumber)) = false :=
    Keyed.any_eq_false_of_not_mem_map hkey
  simp only [sequenceEntry, if_neg h, hfind]
  simp [hany]
  rfl

theorem sequenceEntry_of_find?_eq_some {hash : ByteString} {seq : Int}
    (h : ¬ now - p.timestamp < guardWindow)
    (hfind : st.sequencedHashes.find? (·.1 = p.hash) = some (hash, seq, false))
    (hnone : p.sequenceNumber = none) (hkey : seq ∉ st.seqToEntry.map (·.1)) :
    sequenceEntry guardWindow now st p = .ok { st with
      sequencedHashes := markPresent hash st.sequencedHashes
      newMapping := st.newMapping ++ [Mapping.mk hash seq]
      seqToEntry := st.seqToEntry ++ [(seq, { p with sequenceNumber := some seq })] } := by
  have hany : st.seqToEntry.any (fun e => decide (e.1 = seq)) = false :=
    Keyed.any_eq_false_of_not_mem_map hkey
  simp only [sequenceEntry, if_neg h, hfind]
  simp [hnone, hany]
  rfl

end Step

section Loop

variable {guardWindow now : Int} {mapping : List Mapping}

theorem assignFrom_cons_of_lt {next : Int} {p : LoggedEntry} {rest : List LoggedEntry}
    (h : now - p.timestamp < guardWindow) :
    assignFrom mapping guardWindow now next (p :: rest) =
      assignFrom mapping guardWindow now next rest := by
  rw [assignFrom, if_pos h]

theorem assignFrom_cons_of_some {next seq : Int} {p : LoggedEntry} {rest : List LoggedEntry}
    (h : ¬ now - p.timestamp < guardWindow) (hmap : mappedNumber mapping p.hash = some seq) :
    assignFrom mapping guardWindow now next (p :: rest) =
      (seq, p) :: assignFrom mapping guardWindow now next rest := by
  rw [assignFrom, if_neg h, hmap]

theorem assignFrom_cons_of_none {next : Int} {p : LoggedEntry} {rest : List LoggedEntry}
    (h : ¬ now - p.timestamp < guardWindow) (hmap : mappedNumber mapping p.hash = none) :
    assignFrom mapping guardWindow now next (p :: rest) =
      (next, p) :: assignFrom mapping guardWindow now (next + 1) rest := by
  rw [assignFrom, if_neg h, hmap]

theorem keys_append_nodup {entries : List (Int × LoggedEntry)} {k : Int} {e : LoggedEntry}
    (hnodup : (entries.map (·.1)).Nodup) (hk : k ∉ entries.map (·.1)) :
    ((entries ++ [(k, e)]).map (·.1)).Nodup := by
  rw [List.map_append, List.map_singleton]
  refine List.nodup_append.mpr ⟨hnodup, List.nodup_singleton k, ?_⟩
  intro a ha b hb hab
  rw [List.mem_singleton] at hb
  subst hb hab
  exact hk ha

theorem mem_keys_append {entries : List (Int × LoggedEntry)} {k k' : Int} {e : LoggedEntry} :
    k' ∈ (entries ++ [(k, e)]).map (·.1) ↔ k' ∈ entries.map (·.1) ∨ k' = k := by
  rw [List.map_append, List.map_singleton, List.mem_append, List.mem_singleton]

structure LoopInvariant (mapping : List Mapping) (seen : List ByteString)
    (rest : List LoggedEntry) (st : Sequencing) : Prop where
  flags : st.sequencedHashes = flagged mapping seen
  keys_nodup : (st.seqToEntry.map (·.1)).Nodup
  keys_lt : ∀ k ∈ st.seqToEntry.map (·.1), k < st.nextSequenceNumber
  keys_not_mapped : ∀ k ∈ st.seqToEntry.map (·.1), ∀ p ∈ rest, mappedNumber mapping p.hash ≠ some k
  mapped_lt : ∀ p ∈ rest, ∀ s, mappedNumber mapping p.hash = some s → s < st.nextSequenceNumber

theorem LoopInvariant.tail {seen : List ByteString} {p : LoggedEntry} {rest : List LoggedEntry}
    {st : Sequencing} (h : LoopInvariant mapping seen (p :: rest) st) :
    LoopInvariant mapping seen rest st :=
  ⟨h.flags, h.keys_nodup, h.keys_lt,
    fun k hk q hq => h.keys_not_mapped k hk q (List.mem_cons_of_mem p hq),
    fun q hq => h.mapped_lt q (List.mem_cons_of_mem p hq)⟩

theorem foldlM_sequenceEntry
    (hinj : ∀ h₁ h₂ s, mappedNumber mapping h₁ = some s → mappedNumber mapping h₂ = some s → h₁ = h₂) :
    ∀ (pending : List LoggedEntry) (st : Sequencing) (seen : List ByteString),
      LoopInvariant mapping seen pending st → (∀ p ∈ pending, p.sequenceNumber = none) →
      (pending.map (·.hash)).Nodup → (∀ p ∈ pending, p.hash ∉ seen) →
      ∃ st', pending.foldlM (sequenceEntry guardWindow now) st = .ok st' ∧
        st'.newMapping = st.newMapping ++
          (assignFrom mapping guardWindow now st.nextSequenceNumber pending).map Assigned.mapping ∧
        st'.seqToEntry = st.seqToEntry ++
          (assignFrom mapping guardWindow now st.nextSequenceNumber pending).map Assigned.entry ∧
        (st'.seqToEntry.map (·.1)).Nodup ∧
        st'.sequencedHashes = flagged mapping
          (seen ++ (pending.filter fun p => decide (guardWindow ≤ now - p.timestamp)).map (·.hash)) := by
  intro pending
  induction pending with
  | nil =>
    intro st seen hinv _ _ _
    refine ⟨st, rfl, by simp [assignFrom], by simp [assignFrom], hinv.keys_nodup, ?_⟩
    simpa using hinv.flags
  | cons p rest ih =>
    intro st seen hinv hnone hnodup hseen
    have hpnone := hnone p List.mem_cons_self
    have hrestnone : ∀ q ∈ rest, q.sequenceNumber = none := fun q hq => hnone q (List.mem_cons_of_mem p hq)
    obtain ⟨hpnotin, hrestnodup⟩ := List.nodup_cons.mp hnodup
    have hne : ∀ q ∈ rest, q.hash ≠ p.hash := by
      intro q hq hqp
      apply hpnotin
      show p.hash ∈ rest.map (·.hash)
      rw [← hqp]
      exact List.mem_map_of_mem hq
    by_cases hrecent : now - p.timestamp < guardWindow
    · -- within the guard window: skipped
      obtain ⟨st', hrun, hmapping, hentries, hkeys, hflags⟩ :=
        ih st seen hinv.tail hrestnone hrestnodup fun q hq => hseen q (List.mem_cons_of_mem p hq)
      refine ⟨st', ?_, ?_, ?_, hkeys, ?_⟩
      · rw [List.foldlM_cons, sequenceEntry_of_lt hrecent]
        exact hrun
      · rw [hmapping, assignFrom_cons_of_lt hrecent]
      · rw [hentries, assignFrom_cons_of_lt hrecent]
      · rw [hflags, List.filter_cons_of_neg (by simpa using hrecent)]
    · have hold : guardWindow ≤ now - p.timestamp := Int.not_lt.mp hrecent
      cases hmap : mappedNumber mapping p.hash with
      | none =>
        have hfind : st.sequencedHashes.find? (·.1 = p.hash) = none := by
          rw [hinv.flags, find?_flagged]
          simpa [mappedNumber] using hmap
        have hkey : st.nextSequenceNumber ∉ st.seqToEntry.map (·.1) :=
          fun hk => lt_irrefl _ (hinv.keys_lt _ hk)
        have hinv' : LoopInvariant mapping seen rest { st with
            newMapping := st.newMapping ++ [Mapping.mk p.hash st.nextSequenceNumber]
            seqToEntry := st.seqToEntry ++
              [(st.nextSequenceNumber, { p with sequenceNumber := some st.nextSequenceNumber })]
            numSequenced := st.numSequenced + 1
            nextSequenceNumber := st.nextSequenceNumber + 1 } := by
          refine ⟨hinv.flags, keys_append_nodup hinv.keys_nodup hkey, ?_, ?_, ?_⟩
          · intro k hk
            show k < st.nextSequenceNumber + 1
            rcases mem_keys_append.mp hk with hk | rfl
            · have := hinv.keys_lt k hk
              omega
            · omega
          · intro k hk q hq
            rcases mem_keys_append.mp hk with hk | rfl
            · exact hinv.keys_not_mapped k hk q (List.mem_cons_of_mem p hq)
            · intro hq'
              have := hinv.mapped_lt q (List.mem_cons_of_mem p hq) _ hq'
              omega
          · intro q hq s hs
            show s < st.nextSequenceNumber + 1
            have := hinv.mapped_lt q (List.mem_cons_of_mem p hq) s hs
            omega
        obtain ⟨st', hrun, hmapping, hentries, hkeys, hflags⟩ :=
          ih _ seen hinv' hrestnone hrestnodup fun q hq => hseen q (List.mem_cons_of_mem p hq)
        refine ⟨st', ?_, ?_, ?_, hkeys, ?_⟩
        · rw [List.foldlM_cons, sequenceEntry_of_find?_eq_none hrecent hfind hkey]
          exact hrun
        · rw [hmapping, assignFrom_cons_of_none hrecent hmap]
          simp [Assigned.mapping]
        · rw [hentries, assignFrom_cons_of_none hrecent hmap]
          simp [Assigned.entry]
        · -- no mapped hash is the new one, so the flags do not change
          rw [hflags, List.filter_cons_of_pos (by simpa using hold)]
          apply flagged_congr
          intro m hm
          have hfindnone : mapping.find? (·.entryHash = p.hash) = none := by
            simpa [mappedNumber] using hmap
          have hmne : m.entryHash ≠ p.hash := by
            intro heq
            have := List.find?_eq_none.mp hfindnone m hm
            simp [heq] at this
          simp [hmne]
      | some seq =>
        obtain ⟨m, hfindm, rfl⟩ : ∃ m, mapping.find? (·.entryHash = p.hash) = some m ∧
            m.sequenceNumber = seq := by
          simpa [mappedNumber] using hmap
        have hmhash : m.entryHash = p.hash := by
          simpa using List.find?_some hfindm
        have hfind : st.sequencedHashes.find? (·.1 = p.hash) =
            some (m.entryHash, m.sequenceNumber, false) := by
          have hnotseen : m.entryHash ∉ seen := hmhash ▸ hseen p List.mem_cons_self
          rw [hinv.flags, find?_flagged, hfindm]
          simp [hnotseen]
        have hkey : m.sequenceNumber ∉ st.seqToEntry.map (·.1) :=
          fun hk => hinv.keys_not_mapped _ hk p List.mem_cons_self hmap
        have hinv' : LoopInvariant mapping (p.hash :: seen) rest { st with
            sequencedHashes := markPresent m.entryHash st.sequencedHashes
            newMapping := st.newMapping ++ [Mapping.mk m.entryHash m.sequenceNumber]
            seqToEntry := st.seqToEntry ++
              [(m.sequenceNumber, { p with sequenceNumber := some m.sequenceNumber })] } := by
          refine ⟨?_, ?_, ?_, ?_, ?_⟩
          · rw [hinv.flags, hmhash, markPresent_flagged]
          · exact keys_append_nodup hinv.keys_nodup hkey
          · intro k hk
            rcases mem_keys_append.mp hk with hk | rfl
            · exact hinv.keys_lt k hk
            · exact hinv.mapped_lt p List.mem_cons_self _ hmap
          · intro k hk q hq
            rcases mem_keys_append.mp hk with hk | rfl
            · exact hinv.keys_not_mapped k hk q (List.mem_cons_of_mem p hq)
            · -- distinct hashes have distinct numbers
              exact fun hq' => hne q hq (hinj _ _ _ hq' hmap)
          · intro q hq s hs
            exact hinv.mapped_lt q (List.mem_cons_of_mem p hq) s hs
        have hseen' : ∀ q ∈ rest, q.hash ∉ p.hash :: seen := by
          intro q hq hmem
          rcases List.mem_cons.mp hmem with heq | hmem
          · exact hne q hq heq
          · exact hseen q (List.mem_cons_of_mem p hq) hmem
        obtain ⟨st', hrun, hmapping, hentries, hkeys, hflags⟩ :=
          ih _ (p.hash :: seen) hinv' hrestnone hrestnodup hseen'
        refine ⟨st', ?_, ?_, ?_, hkeys, ?_⟩
        · rw [List.foldlM_cons, sequenceEntry_of_find?_eq_some hrecent hfind hpnone hkey]
          exact hrun
        · rw [hmapping, assignFrom_cons_of_some hrecent hmap]
          simp [Assigned.mapping, hmhash]
        · rw [hentries, assignFrom_cons_of_some hrecent hmap]
          simp [Assigned.entry]
        · rw [hflags, List.filter_cons_of_pos (by simpa using hold)]
          apply flagged_congr
          intro m' _
          simp only [List.mem_append, List.mem_cons, List.map_cons]
          tauto

end Loop

def isFresh (mapping : List Mapping) (guardWindow now : Int) (p : LoggedEntry) : Bool :=
  decide (guardWindow ≤ now - p.timestamp) && (mappedNumber mapping p.hash).isNone

section Assign

variable {guardWindow now : Int} {mapping : List Mapping}

theorem isFresh_eq_true_iff {p : LoggedEntry} :
    isFresh mapping guardWindow now p = true ↔
      ¬ now - p.timestamp < guardWindow ∧ mappedNumber mapping p.hash = none := by
  simp [isFresh]

theorem mem_assignFrom_of_mapped {p : LoggedEntry} {seq : Int} (hold : ¬ now - p.timestamp < guardWindow)
    (hmap : mappedNumber mapping p.hash = some seq) :
    ∀ (pending : List LoggedEntry) (next : Int), p ∈ pending →
      (seq, p) ∈ assignFrom mapping guardWindow now next pending := by
  intro pending
  induction pending with
  | nil => intro _ hp; cases hp
  | cons q rest ih =>
    intro next hp
    rcases List.mem_cons.mp hp with rfl | hp
    · rw [assignFrom_cons_of_some hold hmap]
      exact List.mem_cons_self
    · by_cases hq : now - q.timestamp < guardWindow
      · rw [assignFrom_cons_of_lt hq]
        exact ih next hp
      · cases hqmap : mappedNumber mapping q.hash with
        | none =>
          rw [assignFrom_cons_of_none hq hqmap]
          exact List.mem_cons_of_mem _ (ih _ hp)
        | some s =>
          rw [assignFrom_cons_of_some hq hqmap]
          exact List.mem_cons_of_mem _ (ih _ hp)

theorem getElem_fresh_mem_assignFrom :
    ∀ (pending : List LoggedEntry) (next : Int) (i : ℕ)
      (hi : i < (pending.filter (isFresh mapping guardWindow now)).length),
      (next + i, (pending.filter (isFresh mapping guardWindow now))[i]) ∈
        assignFrom mapping guardWindow now next pending := by
  intro pending
  induction pending with
  | nil => intro _ i hi; simp at hi
  | cons q rest ih =>
    intro next i hi
    by_cases hq : now - q.timestamp < guardWindow
    · have hfresh : isFresh mapping guardWindow now q = false :=
        Bool.eq_false_iff.mpr fun h => (isFresh_eq_true_iff.mp h).1 hq
      simp only [List.filter_cons_of_neg (by simpa using hfresh)] at hi ⊢
      rw [assignFrom_cons_of_lt hq]
      exact ih next i hi
    · cases hqmap : mappedNumber mapping q.hash with
      | none =>
        have hfresh : isFresh mapping guardWindow now q = true :=
          isFresh_eq_true_iff.mpr ⟨hq, hqmap⟩
        simp only [List.filter_cons_of_pos hfresh] at hi ⊢
        rw [assignFrom_cons_of_none hq hqmap]
        cases i with
        | zero => simp
        | succ j =>
          have := ih (next + 1) j (by simpa using hi)
          rw [List.getElem_cons_succ]
          refine List.mem_cons_of_mem _ ?_
          have heq : next + ((j + 1 : ℕ) : Int) = next + 1 + (j : Int) := by push_cast; ring
          rw [heq]
          exact this
      | some s =>
        have hfresh : isFresh mapping guardWindow now q = false := by
          simp [isFresh, hqmap]
        simp only [List.filter_cons_of_neg (by simpa using hfresh)] at hi ⊢
        rw [assignFrom_cons_of_some hq hqmap]
        exact List.mem_cons_of_mem _ (ih next i hi)

theorem mem_assignFrom :
    ∀ (pending : List LoggedEntry) (next : Int) {seq : Int} {p : LoggedEntry},
      (seq, p) ∈ assignFrom mapping guardWindow now next pending →
      p ∈ pending ∧ ¬ now - p.timestamp < guardWindow ∧
        (mappedNumber mapping p.hash = some seq ∨
          ∃ i, ∃ hi : i < (pending.filter (isFresh mapping guardWindow now)).length,
            (pending.filter (isFresh mapping guardWindow now))[i] = p ∧ seq = next + i) := by
  intro pending
  induction pending with
  | nil => intro _ _ _ h; simp [assignFrom] at h
  | cons q rest ih =>
    intro next seq p h
    by_cases hq : now - q.timestamp < guardWindow
    · have hfresh : isFresh mapping guardWindow now q = false :=
        Bool.eq_false_iff.mpr fun h => (isFresh_eq_true_iff.mp h).1 hq
      rw [assignFrom_cons_of_lt hq] at h
      obtain ⟨hp, hold, hcase⟩ := ih next h
      rw [List.filter_cons_of_neg (by simpa using hfresh)]
      exact ⟨List.mem_cons_of_mem q hp, hold, hcase⟩
    · cases hqmap : mappedNumber mapping q.hash with
      | none =>
        have hfresh : isFresh mapping guardWindow now q = true :=
          isFresh_eq_true_iff.mpr ⟨hq, hqmap⟩
        rw [assignFrom_cons_of_none hq hqmap] at h
        rw [List.filter_cons_of_pos hfresh]
        rcases List.mem_cons.mp h with heq | h
        · -- the head takes `next`
          obtain ⟨rfl, rfl⟩ := Prod.mk.inj heq
          exact ⟨List.mem_cons_self, hq, .inr ⟨0, by simp, by simp, by simp⟩⟩
        · obtain ⟨hp, hold, hcase⟩ := ih (next + 1) h
          refine ⟨List.mem_cons_of_mem q hp, hold, ?_⟩
          rcases hcase with hcase | ⟨i, hi, hget, hseq⟩
          · exact .inl hcase
          · refine .inr ⟨i + 1, by simpa using hi, by simpa using hget, ?_⟩
            rw [hseq]
            push_cast
            ring
      | some s =>
        have hfresh : isFresh mapping guardWindow now q = false := by
          simp [isFresh, hqmap]
        rw [assignFrom_cons_of_some hq hqmap] at h
        rw [List.filter_cons_of_neg (by simpa using hfresh)]
        rcases List.mem_cons.mp h with heq | h
        · obtain ⟨rfl, rfl⟩ := Prod.mk.inj heq
          exact ⟨List.mem_cons_self, hq, .inl hqmap⟩
        · obtain ⟨hp, hold, hcase⟩ := ih next h
          exact ⟨List.mem_cons_of_mem q hp, hold, hcase⟩

theorem sublist_assignFrom :
    ∀ (pending : List LoggedEntry) (next : Int),
      List.Sublist ((assignFrom mapping guardWindow now next pending).map (·.2)) pending := by
  intro pending
  induction pending with
  | nil => intro _; simp [assignFrom]
  | cons q rest ih =>
    intro next
    by_cases hq : now - q.timestamp < guardWindow
    · rw [assignFrom_cons_of_lt hq]
      exact (ih next).cons q
    · cases hqmap : mappedNumber mapping q.hash with
      | none =>
        rw [assignFrom_cons_of_none hq hqmap]
        exact (ih (next + 1)).cons_cons q
      | some s =>
        rw [assignFrom_cons_of_some hq hqmap]
        exact (ih next).cons_cons q

end Assign

theorem perm_sortBySequence (mapping : List Mapping) : (sortBySequence mapping).Perm mapping :=
  List.perm_insertionSort _ _

theorem pairwise_sortBySequence (mapping : List Mapping) :
    (sortBySequence mapping).Pairwise fun a b => a.sequenceNumber ≤ b.sequenceNumber := by
  have : Std.Total fun a b : Mapping => a.sequenceNumber ≤ b.sequenceNumber :=
    ⟨fun a b => le_total _ _⟩
  have : IsTrans Mapping fun a b => a.sequenceNumber ≤ b.sequenceNumber := ⟨fun _ _ _ => le_trans⟩
  exact List.pairwise_insertionSort _ _

theorem perm_sortPending (pending : List LoggedEntry) : (sortPending pending).Perm pending :=
  List.perm_insertionSort _ _

section Written

variable {guardWindow now ts : Int} {mapping : List Mapping} {pending : List LoggedEntry}

theorem mem_written_of_seen (hinv : MappingInvariant ts mapping) {next : Int} {m : Mapping}
    (hm : m ∈ mapping) {p : LoggedEntry} (hp : p ∈ pending) (hhash : p.hash = m.entryHash)
    (hold : ¬ now - p.timestamp < guardWindow) :
    m ∈ (assignFrom mapping guardWindow now next pending).map Assigned.mapping := by
  have hmap : mappedNumber mapping p.hash = some m.sequenceNumber := by
    rw [hhash]
    exact mappedNumber_of_mem hinv.distinctHashes hm
  refine List.mem_map.mpr ⟨_, mem_assignFrom_of_mapped hold hmap pending next hp, ?_⟩
  simp [Assigned.mapping, hhash]

theorem mem_written_of_fresh {next : Int} (i : ℕ)
    (hi : i < (pending.filter (isFresh mapping guardWindow now)).length) :
    Mapping.mk (pending.filter (isFresh mapping guardWindow now))[i].hash (next + i) ∈
      (assignFrom mapping guardWindow now next pending).map Assigned.mapping :=
  List.mem_map.mpr ⟨_, getElem_fresh_mem_assignFrom pending next i hi, rfl⟩

theorem mem_written_cases {next : Int} {x : Mapping}
    (hx : x ∈ (assignFrom mapping guardWindow now next pending).map Assigned.mapping) :
    x ∈ mapping ∨ ∃ i, ∃ hi : i < (pending.filter (isFresh mapping guardWindow now)).length,
      x = Mapping.mk (pending.filter (isFresh mapping guardWindow now))[i].hash (next + i) := by
  obtain ⟨⟨seq, p⟩, he, rfl⟩ := List.mem_map.mp hx
  obtain ⟨-, -, hcase⟩ := mem_assignFrom pending next he
  rcases hcase with hmap | ⟨i, hi, hget, rfl⟩
  · obtain ⟨m, hm, hhash, hseq⟩ := exists_of_mappedNumber hmap
    left
    have : Assigned.mapping (seq, p) = m := by
      simp only [Assigned.mapping, ← hhash, ← hseq]
    rw [this]
    exact hm
  · right
    exact ⟨i, hi, by simp [Assigned.mapping, hget]⟩

theorem mappingInvariant_written (hinv : MappingInvariant ts mapping)
    (hseen : ∀ m ∈ mapping, ts ≤ m.sequenceNumber →
      ∃ p ∈ pending, p.hash = m.entryHash ∧ ¬ now - p.timestamp < guardWindow)
    (hhashes : (pending.map (·.hash)).Nodup)
    (hkeys : ((assignFrom mapping guardWindow now (nextAfter ts mapping) pending).map (·.1)).Nodup) :
    MappingInvariant ts (sortBySequence
      ((assignFrom mapping guardWindow now (nextAfter ts mapping) pending).map Assigned.mapping)) := by
  set written := (assignFrom mapping guardWindow now (nextAfter ts mapping) pending).map Assigned.mapping
  have hperm := perm_sortBySequence written
  have hmem : ∀ x, x ∈ sortBySequence written ↔ x ∈ written := fun x => hperm.mem_iff
  have hkept : ∀ m ∈ mapping, ts ≤ m.sequenceNumber → m ∈ written := by
    intro m hm hts
    obtain ⟨p, hp, hhash, hold⟩ := hseen m hm hts
    exact mem_written_of_seen hinv hm hp hhash hold
  have hseqs : written.map (·.sequenceNumber) =
      (assignFrom mapping guardWindow now (nextAfter ts mapping) pending).map (·.1) := by
    simp [written, Assigned.mapping]
  refine ⟨?_, ?_, ?_, ?_⟩
  · -- sorted by number, and no number twice
    have hne : (sortBySequence written).Pairwise fun a b => a.sequenceNumber ≠ b.sequenceNumber := by
      have hnodup : ((sortBySequence written).map (·.sequenceNumber)).Nodup :=
        (hperm.map _).nodup_iff.mpr (hseqs ▸ hkeys)
      exact List.pairwise_map.mp hnodup
    exact ((pairwise_sortBySequence written).and hne).imp fun ⟨hle, hne⟩ => lt_of_le_of_ne hle hne
  · -- the hashes are those of distinct pending entries
    have hsub : List.Sublist (written.map (·.entryHash)) (pending.map (·.hash)) := by
      have : written.map (·.entryHash) =
          ((assignFrom mapping guardWindow now (nextAfter ts mapping) pending).map (·.2)).map (·.hash) := by
        simp [written, Assigned.mapping]
      rw [this]
      exact (sublist_assignFrom pending _).map _
    exact (hperm.map _).nodup_iff.mpr (hhashes.sublist hsub)
  · -- the lowest number written is at most the tree size
    intro x hx
    obtain ⟨y, hy, hyts⟩ : ∃ y ∈ written, y.sequenceNumber ≤ ts := by
      have hxw := (hmem x).mp (List.mem_of_mem_head? hx)
      by_cases hhigh : ∃ m ∈ mapping, ts ≤ m.sequenceNumber
      · obtain ⟨m, hm, hts⟩ := hhigh
        obtain ⟨m', hm', hseq⟩ := hinv.contiguous m hm ts le_rfl hts
        exact ⟨m', hkept m' hm' (le_of_eq hseq.symm), le_of_eq hseq⟩
      · push Not at hhigh
        rcases mem_written_cases hxw with hxm | ⟨i, hi, rfl⟩
        · exact ⟨x, hxw, le_of_lt (hhigh x hxm)⟩
        · refine ⟨_, mem_written_of_fresh 0 (by omega), ?_⟩
          rcases nextAfter_cases ts mapping with ⟨-, hnext⟩ | ⟨m, hm, hnext⟩
          · simp [hnext]
          · have := hhigh m hm
            simp only [Nat.cast_zero, add_zero, hnext]
            omega
    obtain ⟨rest, hsplit⟩ : ∃ rest, sortBySequence written = x :: rest := by
      cases h : sortBySequence written with
      | nil => rw [h] at hx; cases hx
      | cons a rest =>
        rw [h, List.head?_cons, Option.mem_some_iff] at hx
        exact ⟨rest, by rw [hx]⟩
    have hsorted := pairwise_sortBySequence written
    rw [hsplit] at hsorted
    have hy' : y ∈ x :: rest := hsplit ▸ (hmem y).mpr hy
    rcases List.mem_cons.mp hy' with rfl | hy'
    · exact hyts
    · exact le_trans ((List.pairwise_cons.mp hsorted).1 y hy') hyts
  · -- every number from the tree size to one written is written
    intro x hx k hk hkx
    rcases mem_written_cases ((hmem x).mp hx) with hxm | ⟨i, hi, rfl⟩
    · obtain ⟨m', hm', hseq⟩ := hinv.contiguous x hxm k hk hkx
      exact ⟨m', (hmem m').mpr (hkept m' hm' (hseq ▸ hk)), hseq⟩
    · by_cases hlow : nextAfter ts mapping ≤ k
      · -- a number numbered anew
        obtain ⟨j, rfl⟩ : ∃ j : ℕ, k = nextAfter ts mapping + j := ⟨(k - nextAfter ts mapping).toNat, by omega⟩
        have hj : j < (pending.filter (isFresh mapping guardWindow now)).length := by
          have : nextAfter ts mapping + j ≤ nextAfter ts mapping + i := hkx
          omega
        exact ⟨_, (hmem _).mpr (mem_written_of_fresh j hj), rfl⟩
      · -- a number below the first new one, so mapped already
        rcases nextAfter_cases ts mapping with ⟨-, hnext⟩ | ⟨m, hm, hnext⟩
        · omega
        · obtain ⟨m', hm', hseq⟩ := hinv.contiguous m hm k hk (by omega)
          exact ⟨m', (hmem m').mpr (hkept m' hm' (hseq ▸ hk)), hseq⟩

end Written

theorem checkVanished_flagged {ts : Int} {seen : List ByteString} :
    ∀ {mapping : List Mapping}, (∀ m ∈ mapping, m.entryHash ∉ seen → m.sequenceNumber < ts) →
      checkVanished ts (flagged mapping seen) = .ok ()
  | [], _ => rfl
  | m :: rest, h => by
    have hm : ¬ ((!decide (m.entryHash ∈ seen)) = true ∧ ¬ m.sequenceNumber < ts) := by
      rintro ⟨hnot, hge⟩
      exact hge (h m List.mem_cons_self (by simpa using hnot))
    simp only [flagged, List.map_cons, checkVanished, hm, if_false]
    exact checkVanished_flagged fun m' hm' => h m' (List.mem_cons_of_mem _ hm')

theorem checkLowest_eq_ok {ts : Int} {mapping : List Mapping}
    (h : ∀ m ∈ mapping.head?, m.sequenceNumber ≤ ts) : checkLowest ts mapping = .ok () := by
  cases mapping with
  | nil => rfl
  | cons m rest =>
    have hle : ¬ m.sequenceNumber > ts := not_lt.mpr (h m rfl)
    simp only [checkLowest, hle, if_false]
    rfl

theorem getPendingEntries_eq {store : EtcdState}
    (h : ∀ p ∈ store.pendingEntries, p.sequenceNumber = none) :
    getPendingEntries store = .ok store.pendingEntries := by
  have hany : store.pendingEntries.any (·.sequenceNumber.isSome) = false := by
    simpa using h
  simp only [getPendingEntries, hany, Bool.false_eq_true, if_false]
  rfl

theorem addToDatabase_eq_ok :
    ∀ (entries : List (Int × LoggedEntry)) (db : Database.State), Database.Valid db →
      (entries.map (·.1)).Nodup →
      (∀ e ∈ entries, 0 ≤ e.1 ∧ e.2.sequenceNumber = some e.1 ∧
        Database.lookupByIndex db e.1.toNat = none) →
      ∃ db', addToDatabase db entries = .ok db' ∧ Database.Valid db'
  | [], db, hdb, _, _ => ⟨db, rfl, hdb⟩
  | (k, logged) :: rest, db, hdb, hkeys, hentries => by
    obtain ⟨hk, hseq, hfree⟩ := hentries (k, logged) List.mem_cons_self
    have hseq' : logged.sequenceNumber = some k := hseq
    have hk' : ((k.toNat : ℕ) : ℤ) = k := Int.toNat_of_nonneg hk
    obtain ⟨db₁, hcreate, hget, hdb₁, -⟩ :=
      Database.createSequencedEntry_spec hdb (hseq.trans (congrArg some hk'.symm))
    have hnew : Database.Entries.create (Database.lookupByIndex db) k.toNat logged =
        (.ok, Function.update (Database.lookupByIndex db) k.toNat (some logged)) := by
      rw [Database.Entries.create, hfree]
    rw [hnew] at hcreate hget
    have hrest : ∀ e ∈ rest, 0 ≤ e.1 ∧ e.2.sequenceNumber = some e.1 ∧
        Database.lookupByIndex db₁ e.1.toNat = none := by
      intro e he
      obtain ⟨he0, heseq, hefree⟩ := hentries e (List.mem_cons_of_mem _ he)
      have hne : e.1 ≠ k := by
        rintro h
        exact (List.nodup_cons.mp hkeys).1 (List.mem_map.mpr ⟨e, he, h⟩)
      have hne' : e.1.toNat ≠ k.toNat := by omega
      refine ⟨he0, heseq, ?_⟩
      rw [hget]
      exact (Function.update_of_ne hne' _ _).trans hefree
    obtain ⟨db', hrun, hdb'⟩ := addToDatabase_eq_ok rest db₁ hdb₁ (List.nodup_cons.mp hkeys).2 hrest
    refine ⟨db', ?_, hdb'⟩
    simp only [addToDatabase, hseq', ne_eq, not_true_eq_false, if_false, hcreate, bind,
      Except.bind]
    exact hrun

theorem le_of_mem_dropWhile {c : Int} :
    ∀ {entries : List (Int × LoggedEntry)}, entries.Pairwise (fun x y => x.1 ≤ y.1) →
      ∀ {e}, e ∈ entries.dropWhile (fun e => e.1 ≠ c) → c ≤ e.1
  | [], _, _, he => by simp at he
  | x :: rest, hsorted, e, he => by
    rw [List.pairwise_cons] at hsorted
    by_cases hx : x.1 = c
    · have hdrop : (x :: rest).dropWhile (fun e => e.1 ≠ c) = x :: rest := by
        simp [hx]
      rw [hdrop, List.mem_cons] at he
      rcases he with rfl | he
      · exact le_of_eq hx.symm
      · exact hx ▸ hsorted.1 e he
    · have hdrop : (x :: rest).dropWhile (fun e => e.1 ≠ c) = rest.dropWhile (fun e => e.1 ≠ c) := by
        simp [hx]
      rw [hdrop] at he
      exact le_of_mem_dropWhile hsorted.2 he

theorem pairwise_sortByKey (entries : List (Int × LoggedEntry)) :
    (entries.insertionSort fun x y => x.1 ≤ y.1).Pairwise fun x y => x.1 ≤ y.1 := by
  have : Std.Total fun x y : Int × LoggedEntry => x.1 ≤ y.1 := ⟨fun x y => le_total _ _⟩
  have : IsTrans (Int × LoggedEntry) fun x y => x.1 ≤ y.1 := ⟨fun _ _ _ => le_trans⟩
  exact List.pairwise_insertionSort _ _

theorem addToDatabase_entriesFromTreeSize {db : Database.State} (hdb : Database.Valid db)
    (htail : ∀ n, Database.treeSize db ≤ n → Database.lookupByIndex db n = none)
    {entries : List (Int × LoggedEntry)} (hkeys : (entries.map (·.1)).Nodup)
    (hseq : ∀ e ∈ entries, e.2.sequenceNumber = some e.1) :
    ∃ db', addToDatabase db (entriesFromTreeSize db entries) = .ok db' ∧ Database.Valid db' := by
  have hperm := List.perm_insertionSort (fun x y : Int × LoggedEntry => x.1 ≤ y.1) entries
  have hsub : List.Sublist (entriesFromTreeSize db entries)
      (entries.insertionSort fun x y => x.1 ≤ y.1) :=
    (List.dropWhile_suffix _).sublist
  refine addToDatabase_eq_ok _ db hdb ((hperm.map _).nodup_iff.mpr hkeys |>.sublist (hsub.map _)) ?_
  intro e he
  have hle : (Database.treeSize db : Int) ≤ e.1 := le_of_mem_dropWhile (pairwise_sortByKey entries) he
  refine ⟨by omega, hseq e (hperm.mem_iff.mp (hsub.subset he)), htail _ (by omega)⟩

structure Resequenced (guardWindow now treeSize next : Int) (mapping : List Mapping)
    (pending : List LoggedEntry) (written : List Mapping) : Prop where
  invariant : MappingInvariant treeSize written
  keeps : ∀ m ∈ mapping,
    (∃ p ∈ pending, p.hash = m.entryHash ∧ ¬ now - p.timestamp < guardWindow) → m ∈ written
  drops_below : ∀ m ∈ mapping, m ∉ written → m.sequenceNumber < treeSize
  numbers_fresh : ∀ i (hi : i < ((sortPending pending).filter (isFresh mapping guardWindow now)).length),
    Mapping.mk ((sortPending pending).filter (isFresh mapping guardWindow now))[i].hash (next + i) ∈
      written
  only : ∀ x ∈ written, x ∈ mapping ∨
    ∃ i, ∃ hi : i < ((sortPending pending).filter (isFresh mapping guardWindow now)).length,
      x = Mapping.mk ((sortPending pending).filter (isFresh mapping guardWindow now))[i].hash (next + i)

section Run

variable {guardWindow now ts : Int} {mapping : List Mapping} {pending : List LoggedEntry}

theorem resequenced_written (hinv : MappingInvariant ts mapping)
    (hseen : ∀ m ∈ mapping, ts ≤ m.sequenceNumber →
      ∃ p ∈ pending, p.hash = m.entryHash ∧ ¬ now - p.timestamp < guardWindow)
    (hhashes : (pending.map (·.hash)).Nodup)
    (hkeys : ((assignFrom mapping guardWindow now (nextAfter ts mapping) (sortPending pending)).map
      (·.1)).Nodup) :
    Resequenced guardWindow now ts (nextAfter ts mapping) mapping pending (sortBySequence
      ((assignFrom mapping guardWindow now (nextAfter ts mapping) (sortPending pending)).map
        Assigned.mapping)) := by
  have hperm := perm_sortPending pending
  have hwritten := perm_sortBySequence
    ((assignFrom mapping guardWindow now (nextAfter ts mapping) (sortPending pending)).map
      Assigned.mapping)
  have hkeeps : ∀ m ∈ mapping,
      (∃ p ∈ pending, p.hash = m.entryHash ∧ ¬ now - p.timestamp < guardWindow) →
        m ∈ sortBySequence ((assignFrom mapping guardWindow now (nextAfter ts mapping)
          (sortPending pending)).map Assigned.mapping) := by
    rintro m hm ⟨p, hp, hhash, hold⟩
    exact hwritten.mem_iff.mpr (mem_written_of_seen hinv hm (hperm.mem_iff.mpr hp) hhash hold)
  refine ⟨?_, hkeeps, ?_, ?_, ?_⟩
  · refine mappingInvariant_written hinv ?_ ((hperm.map _).nodup_iff.mpr hhashes) hkeys
    intro m hm hts
    obtain ⟨p, hp, hhash, hold⟩ := hseen m hm hts
    exact ⟨p, hperm.mem_iff.mpr hp, hhash, hold⟩
  · intro m hm hnot
    by_contra hge
    exact hnot (hkeeps m hm (hseen m hm (not_lt.mp hge)))
  · intro i hi
    exact hwritten.mem_iff.mpr (mem_written_of_fresh i hi)
  · intro x hx
    exact mem_written_cases (hwritten.mem_iff.mp hx)

/-- A run from a store whose serving tree size is not negative, whose mapping
satisfies the invariant, whose pending entries are unsequenced with distinct
hashes, and where every hash mapped at or above the serving tree size has its
pending entry past the guard window, and a database holding nothing past its
tree size: no `CHECK` fails, the mapping written is `Resequenced` from
`NextAvailableSequenceNumber`, and the database stays valid. -/
theorem sequenceNewEntries_spec {store : EtcdState} {db : Database.State} {sth : SignedTreeHead}
    (hsth : store.servingSth = some sth) (hts : 0 ≤ sth.treeSize)
    (hsize : sth.treeSize ≤ int64Max) (hinv : MappingInvariant sth.treeSize store.sequenceMapping)
    (hnonneg : ∀ m ∈ store.sequenceMapping, 0 ≤ m.sequenceNumber)
    (hunseq : ∀ p ∈ store.pendingEntries, p.sequenceNumber = none)
    (hhashes : (store.pendingEntries.map (·.hash)).Nodup)
    (hseen : ∀ m ∈ store.sequenceMapping, sth.treeSize ≤ m.sequenceNumber →
      ∃ p ∈ store.pendingEntries, p.hash = m.entryHash ∧ ¬ now - p.timestamp < guardWindow)
    (hdb : Database.Valid db)
    (htail : ∀ n, Database.treeSize db ≤ n → Database.lookupByIndex db n = none) :
    ∃ next written db', nextAvailableSequenceNumber store = .ok next ∧
      sequenceNewEntries guardWindow now store db =
        .ok (.ok ({ store with sequenceMapping := written }, db')) ∧
      Resequenced guardWindow now sth.treeSize next store.sequenceMapping store.pendingEntries
        written ∧
      Database.Valid db' := by
  have hperm := perm_sortPending store.pendingEntries
  have hnext := nextAvailableSequenceNumber_eq hsth hsize hinv
  have hnext0 : ¬ nextAfter sth.treeSize store.sequenceMapping < 0 := by
    rcases nextAfter_cases sth.treeSize store.sequenceMapping with ⟨-, h⟩ | ⟨m, hm, h⟩
    · omega
    · have := hnonneg m hm
      omega
  have hflagged : insertSequencedHashes [] store.sequenceMapping =
      .ok (flagged store.sequenceMapping []) := by
    simpa using insertSequencedHashes_eq store.sequenceMapping [] (by simpa using hinv.distinctHashes)
  have hloop : LoopInvariant store.sequenceMapping [] (sortPending store.pendingEntries)
      { sequencedHashes := flagged store.sequenceMapping [], newMapping := [], seqToEntry := [],
        numSequenced := 0, nextSequenceNumber := nextAfter sth.treeSize store.sequenceMapping } := by
    refine ⟨rfl, List.nodup_nil, by simp, by simp, ?_⟩
    intro p _ s hs
    obtain ⟨m, hm, -, rfl⟩ := exists_of_mappedNumber hs
    exact lt_nextAfter hinv.increasing hm
  obtain ⟨st, hfold, hnew, hentries, hkeys, hflags⟩ :=
    foldlM_sequenceEntry (fun _ _ _ => mappedNumber_inj hinv.increasing)
      (sortPending store.pendingEntries) _ [] hloop
      (fun p hp => hunseq p (hperm.mem_iff.mp hp)) ((hperm.map _).nodup_iff.mpr hhashes) (by simp)
  have hkeys' : ((assignFrom store.sequenceMapping guardWindow now
      (nextAfter sth.treeSize store.sequenceMapping) (sortPending store.pendingEntries)).map
        (·.1)).Nodup := by
    rw [hentries] at hkeys
    simpa [Assigned.entry, Function.comp_def] using hkeys
  have hres := resequenced_written hinv hseen hhashes hkeys'
  have hvanished : checkVanished sth.treeSize st.sequencedHashes = .ok () := by
    rw [hflags]
    apply checkVanished_flagged
    intro m hm hnot
    by_contra hge
    obtain ⟨p, hp, hhash, hold⟩ := hseen m hm (not_lt.mp hge)
    apply hnot
    refine List.mem_append_right _ (List.mem_map.mpr ⟨p, List.mem_filter.mpr ⟨hperm.mem_iff.mpr hp, ?_⟩, hhash⟩)
    simpa using hold
  have hlowest := checkLowest_eq_ok hres.invariant.lowest_le
  have hupdate := updateSequenceMapping_eq hsth hsize hres.invariant
  obtain ⟨db', hadd, hdb'⟩ := addToDatabase_entriesFromTreeSize hdb htail hkeys (by
    rw [hentries]
    intro e he
    obtain ⟨a, -, rfl⟩ := List.mem_map.mp (List.mem_append.mp he |>.resolve_left List.not_mem_nil)
    rfl)
  have hserving : getServingSTH store = .ok sth := by
    simp only [getServingSTH, hsth]
    rfl
  refine ⟨_, _, db', hnext, ?_, hres, hdb'⟩
  rw [sequenceNewEntries, hnext]
  simp only [bind, Except.bind, hnext0, if_false, getSequenceMapping_eq hsth hsize hinv, hflagged,
    getPendingEntries_eq hunseq, hfold, hserving, not_lt.mpr hsize, hvanished]
  simp only [hnew, List.nil_append, hlowest, hupdate, hadd]
  rfl

/-- A store with no mapping and one pending entry, serving the empty tree:
the run numbers the entry `0` over an empty database. -/
theorem sequenceNewEntries_spec_one_pending :
    let store : EtcdState := ⟨[], [{ timestamp := 0, hash := [1] }], some { treeSize := 0 }⟩
    ∃ next written db', nextAvailableSequenceNumber store = .ok next ∧
      sequenceNewEntries 1 1000 store ⟨∅, {}⟩ =
        .ok (.ok ({ store with sequenceMapping := written }, db')) ∧
      Resequenced 1 1000 0 next store.sequenceMapping store.pendingEntries written ∧
      Database.Valid db' := by
  intro store
  have hinv : MappingInvariant 0 store.sequenceMapping :=
    ⟨List.Pairwise.nil, List.nodup_nil, by simp [store], by simp [store]⟩
  exact sequenceNewEntries_spec (rfl : store.servingSth = some { treeSize := 0 }) le_rfl
    (by decide) hinv (fun m hm => by simp [store] at hm)
    (fun p hp => by simp only [store, List.mem_singleton] at hp; rw [hp]) (by decide)
    (fun m hm => by simp [store] at hm) Database.valid_empty
    (fun n _ => by simp [Database.lookupByIndex])

/-- A hash mapped at number `0` whose pending entry is still within the guard
window, as after the clock is set back or on a new master whose clock lags
the old one's: the loop skips the entry before it looks the hash up, so the
pair is not carried over.  With serving tree size `0` the vanished-entry
`CHECK` fails; with serving tree size `1` the run succeeds and drops the pair
although its pending entry exists.  Both stores satisfy the invariant. -/
theorem sequenceNewEntries_drops_recent_mapped :
    MappingInvariant 0 [⟨[1], 0⟩] ∧ MappingInvariant 1 [⟨[1], 0⟩] ∧
    sequenceNewEntries 1 1000
        ⟨[⟨[1], 0⟩], [{ timestamp := 1000, hash := [1] }], some { treeSize := 0 }⟩ ⟨∅, {}⟩ =
      .error "Check failed: s.second.first < serving_tree_size" ∧
    sequenceNewEntries 1 1000
        ⟨[⟨[1], 0⟩], [{ timestamp := 1000, hash := [1] }], some { treeSize := 1 }⟩ ⟨∅, {}⟩ =
      .ok (.ok (⟨[], [{ timestamp := 1000, hash := [1] }], some { treeSize := 1 }⟩, ⟨∅, {}⟩)) :=
  ⟨MappingInvariant.singleton le_rfl, MappingInvariant.singleton zero_le_one, rfl, rfl⟩

end Run

end CertTrans.TreeSigner
