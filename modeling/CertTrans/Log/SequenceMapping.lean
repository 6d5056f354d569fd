import CertTrans.Log.EtcdConsistentStore

/-!
The invariant of `/sequence_mapping` against the serving tree size: the
mapping is strictly increasing in sequence number, maps no hash twice, starts
at or below the serving tree size, and maps every number from the serving
tree size up to its last one.  Under it the `CHECK`s of `GetSequenceMapping`
and `UpdateSequenceMapping` pass, and `NextAvailableSequenceNumber` is one past
the last mapped number, or the serving tree size for an empty mapping.

`CheckMappingIsContiguousWithServingTree` itself checks less: only that
consecutive mappings at or above the tree size are consecutive numbers, so
it lets a gap straddle the tree size.
-/

namespace CertTrans

open EtcdConsistentStore

def mappedNumber (mapping : List Mapping) (hash : ByteString) : Option Int :=
  (mapping.find? (·.entryHash = hash)).map (·.sequenceNumber)

structure MappingInvariant (treeSize : Int) (mapping : List Mapping) : Prop where
  increasing : mapping.Pairwise fun a b => a.sequenceNumber < b.sequenceNumber
  distinctHashes : (mapping.map (·.entryHash)).Nodup
  lowest_le : ∀ m ∈ mapping.head?, m.sequenceNumber ≤ treeSize
  contiguous : ∀ m ∈ mapping, ∀ k, treeSize ≤ k → k ≤ m.sequenceNumber →
    ∃ m' ∈ mapping, m'.sequenceNumber = k

def ContiguousAbove (treeSize : Int) (mapping : List Mapping) : Prop :=
  ∀ m ∈ mapping, ∀ k, treeSize ≤ k → k ≤ m.sequenceNumber →
    (∃ x ∈ mapping, x.sequenceNumber ≤ k) → ∃ m' ∈ mapping, m'.sequenceNumber = k

section Contiguous

variable {ts : Int} {a b : Mapping} {mapping : List Mapping}

theorem ContiguousAbove.tail (h : ContiguousAbove ts (a :: mapping))
    (hsorted : (a :: mapping).Pairwise fun a b => a.sequenceNumber < b.sequenceNumber) :
    ContiguousAbove ts mapping := by
  have ha := (List.pairwise_cons.mp hsorted).1
  rintro m hm k hk hkm ⟨x, hx, hxk⟩
  obtain ⟨m', hm', hseq⟩ := h m (List.mem_cons_of_mem a hm) k hk hkm ⟨x, List.mem_cons_of_mem a hx, hxk⟩
  rcases List.mem_cons.mp hm' with rfl | hm'
  · -- the head lies below every later number, so it is not `k`
    have := ha x hx
    omega
  · exact ⟨m', hm', hseq⟩

theorem ContiguousAbove.succ_eq (h : ContiguousAbove ts (a :: b :: mapping))
    (hsorted : (a :: b :: mapping).Pairwise fun a b => a.sequenceNumber < b.sequenceNumber)
    (ha : ts ≤ a.sequenceNumber) : a.sequenceNumber + 1 = b.sequenceNumber := by
  obtain ⟨hab, hrest⟩ := List.pairwise_cons.mp hsorted
  have hlt := hab b List.mem_cons_self
  obtain ⟨m', hm', hseq⟩ := h b (by simp) (a.sequenceNumber + 1) (by omega) (by omega)
    ⟨a, List.mem_cons_self, by omega⟩
  rcases List.mem_cons.mp hm' with rfl | hm'
  · omega
  rcases List.mem_cons.mp hm' with rfl | hm'
  · exact hseq.symm
  · have := (List.pairwise_cons.mp hrest).1 m' hm'
    omega

theorem MappingInvariant.contiguousAbove (h : MappingInvariant ts mapping) :
    ContiguousAbove ts mapping := fun m hm k hk hkm _ => h.contiguous m hm k hk hkm

theorem MappingInvariant.singleton (h : a.sequenceNumber ≤ ts) : MappingInvariant ts [a] := by
  refine ⟨List.pairwise_singleton _ _, List.nodup_singleton _, ?_, ?_⟩
  · intro m hm
    rw [List.head?_cons, Option.mem_some_iff] at hm
    exact hm ▸ h
  · intro m hm k hk hkm
    rw [List.mem_singleton] at hm
    subst hm
    exact ⟨m, List.mem_singleton_self m, by omega⟩

end Contiguous

section Mapped

variable {mapping : List Mapping} {hash : ByteString} {s : Int}

theorem exists_of_mappedNumber (h : mappedNumber mapping hash = some s) :
    ∃ m ∈ mapping, m.entryHash = hash ∧ m.sequenceNumber = s := by
  obtain ⟨m, hfind, rfl⟩ := Option.map_eq_some_iff.mp h
  exact ⟨m, List.mem_of_find?_eq_some hfind, by simpa using List.find?_some hfind, rfl⟩

theorem mappedNumber_of_mem (hnodup : (mapping.map (·.entryHash)).Nodup) {m : Mapping}
    (hm : m ∈ mapping) : mappedNumber mapping m.entryHash = some m.sequenceNumber := by
  induction mapping with
  | nil => cases hm
  | cons a rest ih =>
    obtain ⟨hnotin, hrest⟩ := List.nodup_cons.mp hnodup
    rcases List.mem_cons.mp hm with rfl | hm
    · simp [mappedNumber]
    · -- the head has another hash, so the search goes past it
      have hne : a.entryHash ≠ m.entryHash := by
        intro h
        apply hnotin
        show a.entryHash ∈ rest.map (·.entryHash)
        rw [h]
        exact List.mem_map_of_mem hm
      simpa [mappedNumber, List.find?_cons, hne] using ih hrest hm

theorem mappedNumber_inj (h : mapping.Pairwise fun a b => a.sequenceNumber < b.sequenceNumber)
    {h₁ h₂ : ByteString} (hm₁ : mappedNumber mapping h₁ = some s)
    (hm₂ : mappedNumber mapping h₂ = some s) : h₁ = h₂ := by
  obtain ⟨m₁, hmem₁, rfl, rfl⟩ := exists_of_mappedNumber hm₁
  obtain ⟨m₂, hmem₂, rfl, hseq⟩ := exists_of_mappedNumber hm₂
  have hne : mapping.Pairwise fun a b => a.sequenceNumber ≠ b.sequenceNumber := h.imp ne_of_lt
  have : Std.Symm fun a b : Mapping => a.sequenceNumber ≠ b.sequenceNumber :=
    ⟨fun _ _ h => Ne.symm h⟩
  by_contra hhash
  exact hne.forall hmem₁ hmem₂ (fun heq => hhash (congrArg Mapping.entryHash heq)) hseq.symm

end Mapped

section Checks

variable {ts : Int} {mapping : List Mapping}

theorem checkMappingIsOrdered_eq_ok
    (h : mapping.Pairwise fun a b => a.sequenceNumber < b.sequenceNumber) :
    checkMappingIsOrdered mapping = .ok () := by
  fun_induction checkMappingIsOrdered mapping with
  | case1 m₁ m₂ rest hlt ih =>
    exact ih (List.pairwise_cons.mp h).2
  | case2 m₁ m₂ rest hlt =>
    exact absurd ((List.pairwise_cons.mp h).1 m₂ List.mem_cons_self) hlt
  | case3 => rfl

theorem checkContiguousFrom_eq_ok (ts : Int) :
    ∀ (above : Bool) (mapping : List Mapping),
      mapping.Pairwise (fun a b => a.sequenceNumber < b.sequenceNumber) →
      ContiguousAbove ts mapping → (above = true → ∀ m ∈ mapping.head?, ts ≤ m.sequenceNumber) →
      checkContiguousFrom ts above mapping = .ok () := by
  intro above mapping
  fun_induction checkContiguousFrom ts above mapping with
  | case1 above m₁ m₂ rest hts hsucc ih =>
    intro hsorted hcont _
    refine ih (List.pairwise_cons.mp hsorted).2 (hcont.tail hsorted) ?_
    intro _ m hm
    rw [List.head?_cons, Option.mem_some_iff] at hm
    subst hm
    have := (List.pairwise_cons.mp hsorted).1 m₂ List.mem_cons_self
    omega
  | case2 above m₁ m₂ rest hts hsucc =>
    intro hsorted hcont _
    exact absurd (hcont.succ_eq hsorted hts) hsucc
  | case3 m₁ m₂ rest hts =>
    intro _ _ habove
    have := habove rfl m₁ rfl
    omega
  | case4 above m₁ m₂ rest hts habove ih =>
    intro hsorted hcont _
    exact ih (List.pairwise_cons.mp hsorted).2 (hcont.tail hsorted) (fun h => absurd h habove)
  | case5 => intro _ _ _; rfl

theorem MappingInvariant.checkMappingIsContiguousWithServingTree {sth : SignedTreeHead}
    (h : MappingInvariant sth.treeSize mapping) (hsize : sth.treeSize ≤ int64Max) :
    checkMappingIsContiguousWithServingTree (some sth) mapping = .ok () := by
  cases mapping with
  | nil => rfl
  | cons m rest =>
    have hlow : m.sequenceNumber ≤ sth.treeSize := h.lowest_le m rfl
    simp only [EtcdConsistentStore.checkMappingIsContiguousWithServingTree, gt_iff_lt,
      Int.not_lt.mpr hsize, Int.not_lt.mpr hlow, if_false]
    exact checkContiguousFrom_eq_ok _ false _ h.increasing h.contiguousAbove (fun h => by cases h)

theorem getSequenceMapping_eq {store : EtcdState} {sth : SignedTreeHead}
    (hsth : store.servingSth = some sth) (hsize : sth.treeSize ≤ int64Max)
    (h : MappingInvariant sth.treeSize store.sequenceMapping) :
    getSequenceMapping store = .ok store.sequenceMapping := by
  rw [getSequenceMapping, checkMappingIsOrdered_eq_ok h.increasing, hsth,
    h.checkMappingIsContiguousWithServingTree hsize]
  rfl

theorem updateSequenceMapping_eq {store : EtcdState} {sth : SignedTreeHead}
    (hsth : store.servingSth = some sth) (hsize : sth.treeSize ≤ int64Max)
    (h : MappingInvariant sth.treeSize mapping) :
    updateSequenceMapping store mapping = .ok { store with sequenceMapping := mapping } := by
  rw [updateSequenceMapping, checkMappingIsOrdered_eq_ok h.increasing, hsth,
    h.checkMappingIsContiguousWithServingTree hsize]
  rfl

end Checks

def nextAfter (treeSize : Int) (mapping : List Mapping) : Int :=
  match mapping.getLast? with
  | some last => last.sequenceNumber + 1
  | none => treeSize

section Next

variable {ts : Int} {mapping : List Mapping}

theorem nextAvailableSequenceNumber_eq {store : EtcdState} {sth : SignedTreeHead}
    (hsth : store.servingSth = some sth) (hsize : sth.treeSize ≤ int64Max)
    (h : MappingInvariant sth.treeSize store.sequenceMapping) :
    nextAvailableSequenceNumber store = .ok (nextAfter sth.treeSize store.sequenceMapping) := by
  rw [nextAvailableSequenceNumber, getSequenceMapping_eq hsth hsize h]
  simp only [bind, Except.bind, nextAfter]
  cases store.sequenceMapping.getLast? with
  | some last => rfl
  | none => rw [hsth]; rfl

theorem lt_nextAfter (h : mapping.Pairwise fun a b => a.sequenceNumber < b.sequenceNumber)
    {m : Mapping} (hm : m ∈ mapping) : m.sequenceNumber < nextAfter ts mapping := by
  obtain ⟨last, hlast⟩ : ∃ last, mapping.getLast? = some last := by
    cases hl : mapping.getLast? with
    | none => simp_all
    | some last => exact ⟨last, rfl⟩
  have hnext : nextAfter ts mapping = last.sequenceNumber + 1 := by rw [nextAfter, hlast]
  rw [hnext]
  rw [List.getLast?_eq_some_iff] at hlast
  obtain ⟨init, rfl⟩ := hlast
  rcases List.mem_append.mp hm with hm | hm
  · have := List.pairwise_append.mp h |>.2.2 m hm last List.mem_cons_self
    omega
  · rw [List.mem_singleton] at hm
    subst hm
    omega

theorem nextAfter_cases (ts : Int) (mapping : List Mapping) :
    (mapping = [] ∧ nextAfter ts mapping = ts) ∨
      ∃ m ∈ mapping, nextAfter ts mapping = m.sequenceNumber + 1 := by
  cases hl : mapping.getLast? with
  | none =>
    left
    exact ⟨List.getLast?_eq_none_iff.mp hl, by rw [nextAfter, hl]⟩
  | some last =>
    right
    exact ⟨last, List.mem_of_getLast? hl, by rw [nextAfter, hl]⟩

end Next

end CertTrans
