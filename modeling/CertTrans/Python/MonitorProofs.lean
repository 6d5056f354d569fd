import CertTrans.Python.Monitor
import CertTrans.Python.MerkleProofs
import CertTrans.Python.MerkleVerifierProofs

/-!
The monitor is safe against any log server.

`Inv` is what holds of every monitor a run reaches: the verified tree has the
size of the verified STH and its root, a pending STH is larger and passed the
checks of `_set_pending_sth` against the verified one, and a fetch under way
builds a tree that reaches the pending size with the entries still to come.
`SthChange` says once what a step can do to the two STHs and the verified
tree: nothing, accept an STH, or verify the pending one with a tree of its
size and root.  `Inv.step` proves both for every event, and the guarantees
follow: every written state has its verified tree between the two STHs, every
new STH was checked, the assertions of `_set_verified_tree` hold, and, with
injective hashing, the leaves of the verified tree only grow and stay a prefix
of the leaves of every STH the monitor accepted.
-/

namespace CertTrans.Python.Client

open Codec
open CertTrans.Python.Merkle
open CertTrans.Python.Merkle.CompactMerkleTree (Represents ofLeaves represents_ofLeaves)

variable {th : TreeHasher} {verifySignature : ByteString → ByteString → Bool}

section Checks

theorem length_of_verifySth {sth : SthResponse} (h : verifySth verifySignature sth = true) :
    sth.sha256RootHash.length = 32 := by
  by_contra hlen
  simp [verifySth, encodeSthInput, hlen] at h

theorem treeSize_le_of_verifySthTemporalConsistency {oldSth newSth : SthResponse}
    (h : verifySthTemporalConsistency oldSth newSth = .ok ()) :
    oldSth.treeSize ≤ newSth.treeSize := by
  unfold verifySthTemporalConsistency at h
  split_ifs at h with hlater hsame holder
  omega

theorem verifySthConsistency_eq_ok {oldSth newSth : SthResponse} {proof : List ByteString}
    (h : verifySthConsistency th oldSth newSth proof = .ok ()) :
    verifySthTemporalConsistency oldSth newSth = .ok () ∧
      ∃ b, Merkle.MerkleVerifier.verifyTreeConsistency th oldSth.treeSize newSth.treeSize
        oldSth.sha256RootHash newSth.sha256RootHash proof = .ok b := by
  obtain ⟨⟨⟩, htemporal, h⟩ := except_bind_eq_ok.mp h
  obtain ⟨b, hb, -⟩ := except_bind_eq_ok.mp h
  exact ⟨htemporal, b, hb⟩

theorem treeSize_le_of_verifySthConsistency {oldSth newSth : SthResponse}
    {proof : List ByteString} (h : verifySthConsistency th oldSth newSth proof = .ok ()) :
    oldSth.treeSize ≤ newSth.treeSize :=
  treeSize_le_of_verifySthTemporalConsistency (verifySthConsistency_eq_ok h).1

theorem root_eq_of_verifySthConsistency {oldSth newSth : SthResponse} {proof : List ByteString}
    (h : verifySthConsistency th oldSth newSth proof = .ok ())
    (hsize : oldSth.treeSize = newSth.treeSize) :
    oldSth.sha256RootHash = newSth.sha256RootHash := by
  obtain ⟨-, b, hb⟩ := verifySthConsistency_eq_ok h
  rw [hsize] at hb
  exact Merkle.MerkleVerifier.root_eq_of_verifyTreeConsistency hb

theorem root_eq_mth_take_of_verifySthConsistency
    (hnode : ∀ a b c d, th.hashChildren a b = th.hashChildren c d → a = c ∧ b = d)
    {oldSth newSth : SthResponse} {proof P : List ByteString} (hP : P.length = newSth.treeSize)
    (hroot : th.mth P = newSth.sha256RootHash) (h0 : 0 < oldSth.treeSize)
    (hlt : oldSth.treeSize < newSth.treeSize)
    (h : verifySthConsistency th oldSth newSth proof = .ok ()) :
    oldSth.sha256RootHash = th.mth (P.take oldSth.treeSize) := by
  obtain ⟨-, b, hb⟩ := verifySthConsistency_eq_ok h
  obtain rfl := Merkle.MerkleVerifier.verifyTreeConsistency_eq_ok hb
  rw [← hP, ← hroot] at hb
  exact Merkle.MerkleVerifier.verifyTreeConsistency_sound hnode P h0 (hP ▸ hlt) hb

theorem computeProjectedSthFromTree_of_represents {tree : Merkle.CompactMerkleTree}
    {D : List ByteString} (hD : Represents th tree D) (extraLeaves : List ByteString) :
    ∃ t, Represents th t (D ++ extraLeaves) ∧ computeProjectedSthFromTree th tree extraLeaves =
      .ok (⟨(D ++ extraLeaves).length, 0, th.mth (D ++ extraLeaves), []⟩, t) := by
  obtain ⟨t₁, hext, ht₁⟩ := hD.extended extraLeaves
  obtain ⟨t₂, hroot, ht₂⟩ := ht₁.rootHash
  refine ⟨t₂, ht₂, ?_⟩
  rw [computeProjectedSthFromTree, hext, except_ok_bind, hroot, except_ok_bind, hD.treeSize_eq,
    List.length_append]
  rfl

end Checks

section Spec

variable (th verifySignature)

def Accepted (verifiedSth sth : SthResponse) : Prop :=
  verifySth verifySignature sth = true ∧ verifiedSth.timestamp < sth.timestamp ∧
    ∃ proof, verifySthConsistency th verifiedSth sth proof = .ok ()

def StateSafe (s : MonitorState) : Prop :=
  (s.pendingSth = none → ∃ v t t', s.verifiedSth = some v ∧
      s.verifiedTree.treeSize = v.treeSize ∧
      Merkle.CompactMerkleTree.load s.verifiedTree = .ok t ∧
      t.rootHash th = .ok (v.sha256RootHash, t')) ∧
  ∀ p, s.pendingSth = some p → s.verified.treeSize ≤ s.verifiedTree.treeSize ∧
    s.verifiedTree.treeSize ≤ p.treeSize ∧ s.verified.treeSize < p.treeSize

def NewSthsChecked (m m' : Monitor) : Prop :=
  (∀ p, m'.state.pendingSth = some p → m.state.pendingSth ≠ some p →
    Accepted th verifySignature m.state.verified p) ∧
  ∀ v, m'.state.verifiedSth = some v → m.state.verifiedSth ≠ some v →
    Accepted th verifySignature m.state.verified v

end Spec

namespace Monitor

@[simp] theorem updateState_consumer (m : Monitor) (s : MonitorState) :
    (m.updateState s).consumer = m.consumer :=
  rfl

end Monitor

section Invariant

variable (th verifySignature)

structure ConsumerOk (p : SthResponse) (c : EntryConsumer) : Prop where
  fetched_le : c.fetched ≤ c.querySize
  treeSize_add : c.unverifiedTree.treeSize + c.querySize = p.treeSize + c.fetched
  leaves : ∃ D, Represents th c.unverifiedTree D ∧
    ∀ partialSth, c.partialSth = some partialSth → partialSth = ⟨D.length, 0, th.mth D, []⟩

structure Inv (m : Monitor) : Prop where
  /-- The verified tree has the size of the verified STH and, once there is
  one, its root. -/
  verifiedLeaves : ∃ D, Represents th m.verifiedTree D ∧
    D.length = m.state.verified.treeSize ∧
    ∀ v, m.state.verifiedSth = some v → th.mth D = v.sha256RootHash
  unverifiedLeaves : ∃ D, Represents th m.unverifiedTree D
  savedVerified : m.state.verifiedTree = m.verifiedTree.save
  savedUnverified : m.state.unverifiedTree = m.unverifiedTree.save
  written : m.stateFile = none ∨ m.stateFile = some m.state
  /-- Before an STH is accepted nothing is written and nothing fetched. -/
  started : m.state.verifiedSth.isSome ∨ m.state.pendingSth.isSome ∨
    (m.stateFile = none ∧ m.consumer = none ∧ m.scans = 0)
  pending : ∀ p, m.state.pendingSth = some p →
    m.state.verified.treeSize < p.treeSize ∧ Accepted th verifySignature m.state.verified p
  consumer : ∀ c, m.consumer = some c → ∃ p, m.state.pendingSth = some p ∧ ConsumerOk th p c

inductive SthChange (m m' : Monitor) : Prop
  | keep (hverified : m'.state.verifiedSth = m.state.verifiedSth)
      (hpending : m'.state.pendingSth = m.state.pendingSth)
      (htree : m'.verifiedTree = m.verifiedTree)
  | accept (sth : SthResponse) (hnone : m.state.pendingSth = none)
      (hsth : Accepted th verifySignature m.state.verified sth)
      (htree : m'.verifiedTree = m.verifiedTree)
      (hsets : m'.state.pendingSth = some sth ∧ m'.state.verifiedSth = m.state.verifiedSth ∨
        m'.state.pendingSth = none ∧ m'.state.verifiedSth = some sth)
  | promote (p : SthResponse) (D : List ByteString) (hp : m.state.pendingSth = some p)
      (hpending : m'.state.pendingSth = none) (hverified : m'.state.verifiedSth = some p)
      (hD : Represents th m'.verifiedTree D) (hsize : D.length = p.treeSize)
      (hroot : th.mth D = p.sha256RootHash)

end Invariant

namespace Monitor

variable {m m' : Monitor}

theorem setPendingSth_eq_ok {newSth : SthResponse} (h : m.setPendingSth newSth = .ok m') :
    m.state.verified.timestamp < newSth.timestamp ∧
      (m.state.verified.treeSize < newSth.treeSize ∧
          m' = m.updateState { m.state with pendingSth := some newSth } ∨
        newSth.treeSize = m.state.verified.treeSize ∧
          m' = m.updateState { m.state with verifiedSth := some newSth }) := by
  unfold setPendingSth at h
  split_ifs at h with hsmaller holder hlarger
  · exact ⟨by omega, .inl ⟨hlarger, (Except.ok.inj h).symm⟩⟩
  · exact ⟨by omega, .inr ⟨by omega, (Except.ok.inj h).symm⟩⟩

theorem updateSth_cases (sthResponse : Option SthResponse) (proof : Option (List ByteString)) :
    m.updateSth th verifySignature sthResponse proof = m ∨
      ∃ sth proof', m.state.pendingSth = none ∧ verifySth verifySignature sth = true ∧
        verifySthConsistency th m.state.verified sth proof' = .ok () ∧
        m.setPendingSth sth = .ok (m.updateSth th verifySignature sthResponse proof) := by
  unfold updateSth
  by_cases hpending : m.state.pendingSth.isSome
  · exact .inl (if_pos hpending)
  rw [if_neg hpending]
  rcases sthResponse with _ | sth
  · exact .inl rfl
  dsimp only
  split_ifs with hsame holder hsig
  · exact .inl rfl
  · exact .inl rfl
  · exact .inl rfl
  rcases proof with _ | proof
  · exact .inl rfl
  dsimp only
  rcases hc : verifySthConsistency th m.state.verified sth proof with e | ⟨⟨⟩⟩
  · exact .inl rfl
  rcases hset : m.setPendingSth sth with e | m'
  · exact .inl rfl
  refine .inr ⟨sth, proof, Option.not_isSome_iff_eq_none.mp hpending, ?_, hc, hset⟩
  simpa using hsig

theorem setVerifiedTree_of_leaves {p : SthResponse} (hp : m.state.pendingSth = some p)
    {t : Merkle.CompactMerkleTree} {D : List ByteString} (hD : Represents th t D)
    (hsize : D.length = p.treeSize) (hroot : th.mth D = p.sha256RootHash) :
    ∃ t', Represents th t' D ∧ m.setVerifiedTree th t =
      .ok ({ m with verifiedTree := t' }.updateState
        { m.state with verifiedSth := some p, pendingSth := none }) := by
  obtain ⟨t', hroot', ht'⟩ := hD.rootHash
  have hpending : m.state.pending = p := by simp [MonitorState.pending, hp]
  have htsize : t.treeSize = p.treeSize := hD.treeSize_eq.trans hsize
  refine ⟨t', ht', ?_⟩
  simp [setVerifiedTree, hpending, htsize, hroot', hroot]
  rfl

theorem consume_sthChange (c : EntryConsumer) (entryBatch : List ByteString) :
    SthChange th verifySignature m (m.consume th c entryBatch) := by
  rw [consume]
  dsimp only
  split <;> exact .keep rfl rfl rfl

end Monitor

namespace Inv

variable {m : Monitor}

theorem consumer_eq_none (hi : Inv th verifySignature m) (hnone : m.state.pendingSth = none) :
    m.consumer = none := by
  cases hc : m.consumer with
  | none => rfl
  | some c =>
      obtain ⟨p, hp, -⟩ := hi.consumer c hc
      rw [hnone] at hp
      cases hp

theorem mth_of_pos (hi : Inv th verifySignature m) {D : List ByteString}
    (hD : Represents th m.verifiedTree D) (hpos : 0 < m.state.verified.treeSize) :
    th.mth D = m.state.verified.sha256RootHash := by
  obtain ⟨DV, hDV, -, hroot⟩ := hi.verifiedLeaves
  cases hv : m.state.verifiedSth with
  | none => simp [MonitorState.verified, hv, SthResponse.empty] at hpos
  | some v =>
      rw [hD.mth_eq hDV, hroot v hv]
      simp [MonitorState.verified, hv]

theorem dropConsumer (hi : Inv th verifySignature m) :
    Inv th verifySignature { m with consumer := none } :=
  { hi with
    started := hi.started.imp_right
      (Or.imp_right fun ⟨hfile, _, hscans⟩ => ⟨hfile, rfl, hscans⟩)
    consumer := fun _ h => by cases h }

theorem updateUnverifiedData (hi : Inv th verifySignature m)
    (hstarted : m.state.verifiedSth.isSome ∨ m.state.pendingSth.isSome)
    {t : Merkle.CompactMerkleTree} (ht : ∃ D, Represents th t D) :
    Inv th verifySignature (m.updateUnverifiedData t) where
  verifiedLeaves := hi.verifiedLeaves
  unverifiedLeaves := ht
  savedVerified := rfl
  savedUnverified := rfl
  written := .inr rfl
  started := hstarted.imp_right .inl
  pending := hi.pending
  consumer := hi.consumer

theorem acceptPending (hi : Inv th verifySignature m) (hnone : m.state.pendingSth = none)
    {sth : SthResponse} (hlarger : m.state.verified.treeSize < sth.treeSize)
    (hsth : Accepted th verifySignature m.state.verified sth) :
    Inv th verifySignature (m.updateState { m.state with pendingSth := some sth }) where
  verifiedLeaves := hi.verifiedLeaves
  unverifiedLeaves := hi.unverifiedLeaves
  savedVerified := rfl
  savedUnverified := rfl
  written := .inr rfl
  started := .inr (.inl rfl)
  pending := by
    intro p hp
    obtain rfl : sth = p := Option.some.inj hp
    exact ⟨hlarger, hsth⟩
  consumer := by
    intro c hc
    rw [Monitor.updateState_consumer, hi.consumer_eq_none hnone] at hc
    cases hc

theorem replaceVerified (hi : Inv th verifySignature m) (hnone : m.state.pendingSth = none)
    {sth : SthResponse} (hsize : sth.treeSize = m.state.verified.treeSize)
    (hsth : Accepted th verifySignature m.state.verified sth) :
    Inv th verifySignature (m.updateState { m.state with verifiedSth := some sth }) where
  verifiedLeaves := by
    obtain ⟨D, hD, hlen, hroot⟩ := hi.verifiedLeaves
    obtain ⟨hsig, -, proof, hc⟩ := hsth
    have hsame := root_eq_of_verifySthConsistency hc hsize.symm
    have hroot' : th.mth D = sth.sha256RootHash := by
      cases hv : m.state.verifiedSth with
      | none =>
          have h32 := length_of_verifySth hsig
          rw [← hsame] at h32
          simp [MonitorState.verified, hv, SthResponse.empty] at h32
      | some v =>
          rw [hroot v hv, ← hsame]
          simp [MonitorState.verified, hv]
    refine ⟨D, hD, hlen.trans hsize.symm, ?_⟩
    intro v hv
    obtain rfl : sth = v := Option.some.inj hv
    exact hroot'
  unverifiedLeaves := hi.unverifiedLeaves
  savedVerified := rfl
  savedUnverified := rfl
  written := .inr rfl
  started := .inl rfl
  pending := fun _ hp => by cases hnone.symm.trans hp
  consumer := by
    intro c hc
    rw [Monitor.updateState_consumer, hi.consumer_eq_none hnone] at hc
    cases hc

theorem promote (hi : Inv th verifySignature m) (hconsumer : m.consumer = none)
    {p : SthResponse} {t : Merkle.CompactMerkleTree} {D : List ByteString} (ht : Represents th t D)
    (hsize : D.length = p.treeSize) (hroot : th.mth D = p.sha256RootHash) :
    Inv th verifySignature ({ m with verifiedTree := t }.updateState
      { m.state with verifiedSth := some p, pendingSth := none }) where
  verifiedLeaves := by
    refine ⟨D, ht, hsize, ?_⟩
    intro v hv
    obtain rfl : p = v := Option.some.inj hv
    exact hroot
  unverifiedLeaves := hi.unverifiedLeaves
  savedVerified := rfl
  savedUnverified := rfl
  written := .inr rfl
  started := .inl rfl
  pending := fun _ hp => by cases hp
  consumer := by
    intro c hc
    rw [Monitor.updateState_consumer] at hc
    exact absurd (hconsumer.symm.trans hc) (by simp)

end Inv

namespace Inv

variable {m : Monitor}

theorem started_of_pending {p : SthResponse} (hp : m.state.pendingSth = some p) :
    m.state.verifiedSth.isSome ∨ m.state.pendingSth.isSome :=
  .inr (by simp [hp])

theorem fetchEntries (hi : Inv th verifySignature m) {p : SthResponse}
    (hp : m.state.pendingSth = some p) (hlt : m.unverifiedTree.treeSize < p.treeSize) :
    Inv th verifySignature (m.fetchEntries m.unverifiedTree.treeSize (p.treeSize - 1)) :=
  { hi with
    started := (started_of_pending hp).imp_right .inl
    consumer := by
      intro c hc
      obtain rfl := Option.some.inj hc
      obtain ⟨DU, hDU⟩ := hi.unverifiedLeaves
      refine ⟨p, hp, ⟨Nat.zero_le _, ?_, DU, hDU, fun _ h => by cases h⟩⟩
      dsimp only
      omega }

theorem consume (hi : Inv th verifySignature m) {c : EntryConsumer} (hc : m.consumer = some c)
    {entryBatch : List ByteString} (hfits : c.fetched + entryBatch.length ≤ c.querySize) :
    Inv th verifySignature (m.consume th c entryBatch) := by
  obtain ⟨p, hp, hcok⟩ := hi.consumer c hc
  obtain ⟨DC, hDC, -⟩ := hcok.leaves
  obtain ⟨t, ht, hcomp⟩ := computeProjectedSthFromTree_of_represents hDC entryBatch
  have hsize : t.treeSize = c.unverifiedTree.treeSize + entryBatch.length := by
    rw [ht.treeSize_eq, List.length_append, hDC.treeSize_eq]
  have htotal := hcok.treeSize_add
  rw [Monitor.consume]
  dsimp only
  rw [hcomp]
  dsimp only
  refine updateUnverifiedData ?_ ?_ ⟨_, ht⟩
  · -- the consumer takes the batch, and a scan starts
    exact { hi with
      started := (started_of_pending hp).imp_right .inl
      consumer := by
        intro c' hc'
        obtain rfl := Option.some.inj hc'
        refine ⟨p, hp, ⟨hfits, ?_, _, ht, fun _ h => (Option.some.inj h).symm⟩⟩
        dsimp only
        omega }
  · exact started_of_pending hp

theorem scanFinished (hi : Inv th verifySignature m) (hscans : m.scans ≠ 0) (failed : Bool) :
    Inv th verifySignature (if failed then { m with scans := m.scans - 1 }.updateUnverifiedData
      m.verifiedTree else { m with scans := m.scans - 1 }) := by
  have hstarted : m.state.verifiedSth.isSome ∨ m.state.pendingSth.isSome := by
    rcases hi.started with h | h | ⟨-, -, h⟩
    · exact .inl h
    · exact .inr h
    · exact absurd h hscans
  have hi₁ : Inv th verifySignature { m with scans := m.scans - 1 } :=
    { hi with started := hstarted.imp_right .inl }
  cases failed
  · exact hi₁
  · obtain ⟨DV, hDV, -⟩ := hi.verifiedLeaves
    exact hi₁.updateUnverifiedData hstarted ⟨DV, hDV⟩

theorem verifyNewTree (hi : Inv th verifySignature m) (hconsumer : m.consumer = none)
    {p : SthResponse} (hp : m.state.pendingSth = some p) {t : Merkle.CompactMerkleTree}
    {D : List ByteString} (hD : Represents th t D) (hsize : p.treeSize ≤ D.length)
    (proof : Option (List ByteString)) :
    ∃ m', m.verifyNewTree th ⟨D.length, 0, th.mth D, []⟩ t proof = .ok m' ∧
      Inv th verifySignature m' ∧ SthChange th verifySignature m m' := by
  rcases proof with _ | proof
  · exact ⟨m, rfl, hi, .keep rfl rfl rfl⟩
  rcases hc : verifySthConsistency th ⟨D.length, 0, th.mth D, []⟩ m.state.pending proof
    with e | ⟨⟨⟩⟩
  · by_cases he : isVerifyError e = true
    · obtain ⟨DV, hDV, -⟩ := hi.verifiedLeaves
      refine ⟨m.updateUnverifiedData m.verifiedTree, ?_,
        hi.updateUnverifiedData (started_of_pending hp) ⟨DV, hDV⟩, .keep rfl rfl rfl⟩
      simp [Monitor.verifyNewTree, hc, he]
      rfl
    · refine ⟨m, ?_, hi, .keep rfl rfl rfl⟩
      simp [Monitor.verifyNewTree, hc, he]
      rfl
  · -- the partial STH is no larger than the pending one, so it has its size and root
    have hpending : m.state.pending = p := by simp [MonitorState.pending, hp]
    have hc' := hpending ▸ hc
    have heq : D.length = p.treeSize := le_antisymm (treeSize_le_of_verifySthConsistency hc') hsize
    have hroot := root_eq_of_verifySthConsistency hc' heq
    obtain ⟨t', ht', hset⟩ := Monitor.setVerifiedTree_of_leaves hp hD heq hroot
    refine ⟨_, ?_, hi.promote hconsumer ht' heq hroot, .promote p D hp rfl rfl ht' heq hroot⟩
    simp only [Monitor.verifyNewTree, hc]
    exact hset

end Inv

namespace SthChange

variable {m m' : Monitor}

theorem of_dropConsumer (h : SthChange th verifySignature { m with consumer := none } m') :
    SthChange th verifySignature m m' := by
  cases h with
  | keep hverified hpending htree => exact .keep hverified hpending htree
  | accept sth hnone hsth htree hsets => exact .accept sth hnone hsth htree hsets
  | promote p D hp hpending hverified hD hsize hroot =>
      exact .promote p D hp hpending hverified hD hsize hroot

end SthChange

namespace Inv

variable {m : Monitor}

theorem updateSth (hi : Inv th verifySignature m) (sthResponse : Option SthResponse)
    (proof : Option (List ByteString)) :
    Inv th verifySignature (m.updateSth th verifySignature sthResponse proof) ∧
      SthChange th verifySignature m (m.updateSth th verifySignature sthResponse proof) := by
  rcases Monitor.updateSth_cases sthResponse proof with
    hsame | ⟨sth, proof', hnone, hsig, hc, hset⟩
  · rw [hsame]
    exact ⟨hi, .keep rfl rfl rfl⟩
  · obtain ⟨hts, ⟨hlarger, heq⟩ | ⟨hsize, heq⟩⟩ := Monitor.setPendingSth_eq_ok hset
    · rw [heq]
      exact ⟨hi.acceptPending hnone hlarger ⟨hsig, hts, proof', hc⟩,
        .accept sth hnone ⟨hsig, hts, proof', hc⟩ rfl (.inl ⟨rfl, rfl⟩)⟩
    · rw [heq]
      exact ⟨hi.replaceVerified hnone hsize ⟨hsig, hts, proof', hc⟩,
        .accept sth hnone ⟨hsig, hts, proof', hc⟩ rfl (.inr ⟨hnone, rfl⟩)⟩

theorem done (hi : Inv th verifySignature m) {c : EntryConsumer} (hc : m.consumer = some c)
    {result : Option Nat}
    (hresult : result = none ∨ result = some c.querySize ∧ c.fetched = c.querySize)
    (proof : Option (List ByteString)) :
    ∃ m', m.done th c result proof = .ok m' ∧ Inv th verifySignature m' ∧
      SthChange th verifySignature m m' := by
  obtain ⟨p, hp, hcok⟩ := hi.consumer c hc
  have hi₀ := hi.dropConsumer
  have hkeep : SthChange th verifySignature m { m with consumer := none } := .keep rfl rfl rfl
  rcases hresult with rfl | ⟨rfl, hfetched⟩
  · exact ⟨_, rfl, hi₀, hkeep⟩
  rcases hq : c.querySize with _ | q
  · exact ⟨_, rfl, hi₀, hkeep⟩
  obtain ⟨DC, hDC, hpartial⟩ := hcok.leaves
  rcases hps : c.partialSth with _ | ps
  · refine ⟨_, ?_, hi₀, hkeep⟩
    simp [Monitor.done, hq, hps]
    rfl
  · -- all entries are in: the consumer's tree has the pending size
    have hsize : p.treeSize ≤ DC.length := by
      have htotal := hcok.treeSize_add
      rw [hDC.treeSize_eq] at htotal
      omega
    obtain ⟨m', hv, hi', hchange⟩ := hi₀.verifyNewTree rfl hp hDC hsize proof
    refine ⟨m', ?_, hi', hchange.of_dropConsumer⟩
    simp only [Monitor.done, hq, hps, hpartial ps hps, lt_irrefl, if_false]
    exact hv

theorem verifyEntries (hi : Inv th verifySignature m) (hconsumer : m.consumer = none)
    {p : SthResponse} (hp : m.state.pendingSth = some p)
    (hsize : p.treeSize ≤ m.unverifiedTree.treeSize) (proof : Option (List ByteString)) :
    ∃ m', m.verifyEntries th proof = .ok m' ∧ Inv th verifySignature m' ∧
      SthChange th verifySignature m m' := by
  obtain ⟨DU, hDU⟩ := hi.unverifiedLeaves
  obtain ⟨t, ht, hcomp⟩ := computeProjectedSthFromTree_of_represents hDU []
  rw [List.append_nil] at ht hcomp
  rw [hDU.treeSize_eq] at hsize
  obtain ⟨m', hv, hi', hchange⟩ := hi.verifyNewTree hconsumer hp ht hsize proof
  refine ⟨m', ?_, hi', hchange⟩
  rw [Monitor.verifyEntries, hcomp, except_ok_bind]
  exact hv

theorem step (hi : Inv th verifySignature m) {e : Event} {r : Except Error Monitor}
    (h : m.step th verifySignature e = some r) :
    ∃ m', r = .ok m' ∧ Inv th verifySignature m' ∧ SthChange th verifySignature m m' := by
  cases e with
  | updateSth sthResponse proof =>
      simp only [Monitor.step] at h
      split_ifs at h
      cases h
      exact ⟨_, rfl, hi.updateSth sthResponse proof⟩
  | fetchEntries =>
      simp only [Monitor.step] at h
      split at h
      · rename_i p hconsumer hp
        split_ifs at h with hlt
        cases h
        exact ⟨_, rfl, hi.fetchEntries hp hlt, .keep rfl rfl rfl⟩
      · cases h
  | verifyEntries proof =>
      simp only [Monitor.step] at h
      split at h
      · rename_i p hconsumer hp
        split_ifs at h with hsize
        cases h
        exact hi.verifyEntries hconsumer hp hsize proof
      · cases h
  | consume entryBatch =>
      simp only [Monitor.step] at h
      split at h
      · rename_i c hc
        split_ifs at h with hfits
        cases h
        exact ⟨_, rfl, hi.consume hc hfits.2, Monitor.consume_sthChange c entryBatch⟩
      · cases h
  | finish proof =>
      simp only [Monitor.step] at h
      split at h
      · rename_i c hc
        split_ifs at h with hfetched
        cases h
        exact hi.done hc (.inr ⟨rfl, hfetched⟩) proof
      · cases h
  | fail =>
      simp only [Monitor.step] at h
      split at h
      · rename_i c hc
        cases h
        exact hi.done hc (.inl rfl) none
      · cases h
  | scanFinished failed =>
      simp only [Monitor.step] at h
      by_cases hscans : m.scans = 0
      · rw [if_pos hscans] at h
        cases h
      · rw [if_neg hscans] at h
        cases h
        refine ⟨_, rfl, hi.scanFinished hscans failed, ?_⟩
        cases failed <;> exact .keep rfl rfl rfl

theorem new {m : Monitor} (h : Monitor.new none = .ok m) : Inv th verifySignature m := by
  have hsave : (ofLeaves th []).save = ⟨0, []⟩ := by
    simp [Merkle.CompactMerkleTree.save, ofLeaves]
  have hempty : Represents th (ofLeaves th []) [] := represents_ofLeaves []
  have hload : Merkle.CompactMerkleTree.load ⟨0, []⟩ = .ok (ofLeaves th []) :=
    hsave ▸ hempty.load_save
  have hnew : Monitor.new none =
      .ok ⟨.empty, none, ofLeaves th [], ofLeaves th [], none, 0⟩ := by
    simp only [Monitor.new, Option.getD_none, MonitorState.empty, hload, except_ok_bind]
    rfl
  rw [hnew] at h
  cases h
  exact {
    verifiedLeaves := ⟨[], represents_ofLeaves [], rfl, fun _ hv => by cases hv⟩
    unverifiedLeaves := ⟨[], represents_ofLeaves []⟩
    savedVerified := hsave.symm
    savedUnverified := hsave.symm
    written := .inl rfl
    started := .inr (.inr ⟨rfl, rfl, rfl⟩)
    pending := fun _ hp => by cases hp
    consumer := fun _ hc => by cases hc }

theorem of_steps {m m' : Monitor} (hi : Inv th verifySignature m)
    (h : Relation.ReflTransGen (Monitor.Steps th verifySignature) m m') :
    Inv th verifySignature m' := by
  induction h with
  | refl => exact hi
  | tail _ hstep ih =>
      obtain ⟨e, he⟩ := hstep
      obtain ⟨_, hr, hi', -⟩ := ih.step he
      cases hr
      exact hi'

theorem of_reachable {m : Monitor} (h : Monitor.Reachable th verifySignature m) :
    Inv th verifySignature m := by
  obtain ⟨m₀, hnew, hsteps⟩ := h
  exact (Inv.new hnew).of_steps hsteps

end Inv

section Safety

variable {m m' : Monitor}

theorem Inv.stateSafe (hi : Inv th verifySignature m) {s : MonitorState}
    (hs : m.stateFile = some s) : StateSafe th s := by
  have hstate : s = m.state := by
    rcases hi.written with h | h
    · rw [h] at hs
      cases hs
    · rw [h] at hs
      exact (Option.some.inj hs).symm
  subst hstate
  obtain ⟨D, hD, hlen, hroot⟩ := hi.verifiedLeaves
  have htree : m.state.verifiedTree.treeSize = m.state.verified.treeSize := by
    rw [hi.savedVerified, Merkle.CompactMerkleTree.save, hD.treeSize_eq, hlen]
  unfold StateSafe
  refine ⟨fun hnone => ?_, fun p hp => ?_⟩
  · -- something was written, so an STH was accepted, and none is pending
    obtain ⟨v, hv⟩ : ∃ v, m.state.verifiedSth = some v := by
      rcases hi.started with h | h | ⟨hfile, -⟩
      · exact Option.isSome_iff_exists.mp h
      · rw [hnone] at h
        cases h
      · rw [hfile] at hs
        cases hs
    have hleaves : Represents th (ofLeaves th D) D := represents_ofLeaves D
    obtain ⟨t', hroot', -⟩ := hleaves.rootHash
    refine ⟨v, ofLeaves th D, t', hv, ?_, ?_, ?_⟩
    · rw [htree]
      simp [MonitorState.verified, hv]
    · rw [hi.savedVerified]
      exact hD.load_save
    · rw [hroot', hroot v hv]
  · obtain ⟨hlt, -⟩ := hi.pending p hp
    rw [htree]
    exact ⟨le_rfl, hlt.le, hlt⟩

theorem SthChange.newSthsChecked (hi : Inv th verifySignature m)
    (h : SthChange th verifySignature m m') : NewSthsChecked th verifySignature m m' := by
  cases h with
  | keep hverified hpending _ =>
      exact ⟨fun _ hp hne => absurd (hpending.symm.trans hp) hne,
        fun _ hv hne => absurd (hverified.symm.trans hv) hne⟩
  | accept sth hnone hsth _ hsets =>
      rcases hsets with ⟨hpending, hverified⟩ | ⟨hpending, hverified⟩
      · refine ⟨fun p hp _ => ?_, fun _ hv hne => absurd (hverified.symm.trans hv) hne⟩
        obtain rfl : sth = p := Option.some.inj (hpending.symm.trans hp)
        exact hsth
      · refine ⟨(fun _ hp _ => by cases hpending.symm.trans hp), fun v hv _ => ?_⟩
        obtain rfl : sth = v := Option.some.inj (hverified.symm.trans hv)
        exact hsth
  | promote p _ hp hpending hverified _ _ _ =>
      refine ⟨(fun _ hq _ => by cases hpending.symm.trans hq), fun v hv _ => ?_⟩
      obtain rfl : p = v := Option.some.inj (hverified.symm.trans hv)
      exact (hi.pending p hp).2

variable (th) in
def HeldOrPassed (sth : SthResponse) (m : Monitor) : Prop :=
  m.state.pendingSth = some sth ∨
    ∀ P, P.length = sth.treeSize → th.mth P = sth.sha256RootHash →
      ∀ D, Represents th m.verifiedTree D → P <+: D

section Leaves

variable (hleaf : Function.Injective th.hashLeaf)
  (hnode : ∀ a b c d, th.hashChildren a b = th.hashChildren c d → a = c ∧ b = d)
include hleaf hnode

theorem prefix_of_accepted {v p : SthResponse} (hacc : Accepted th verifySignature v p)
    (hlt : v.treeSize < p.treeSize) {D P : List ByteString} (hD : D.length = v.treeSize)
    (hDroot : 0 < v.treeSize → th.mth D = v.sha256RootHash) (hP : P.length = p.treeSize)
    (hProot : th.mth P = p.sha256RootHash) : D <+: P := by
  obtain ⟨-, -, proof, hc⟩ := hacc
  rcases Nat.eq_zero_or_pos v.treeSize with h0 | h0
  · rw [List.eq_nil_of_length_eq_zero (hD.trans h0)]
    exact List.nil_prefix
  · -- the consistency proof fixes the verified root as that of a prefix of `P`
    have htake := root_eq_mth_take_of_verifySthConsistency hnode hP hProot h0 hlt hc
    have heq : D = P.take D.length := by
      apply TreeHasher.mth_injective th hleaf hnode
      · rw [List.length_take]
        omega
      · rw [hDroot h0, htake, hD]
    rw [heq]
    exact List.take_prefix _ _

theorem Inv.prefix_pending (hi : Inv th verifySignature m) {p : SthResponse}
    (hp : m.state.pendingSth = some p) {D P : List ByteString}
    (hD : Represents th m.verifiedTree D) (hP : P.length = p.treeSize)
    (hProot : th.mth P = p.sha256RootHash) : D <+: P := by
  obtain ⟨hlt, hacc⟩ := hi.pending p hp
  obtain ⟨DV, hDV, hlen, -⟩ := hi.verifiedLeaves
  exact prefix_of_accepted hleaf hnode hacc hlt
    (hD.treeSize_eq.symm.trans (hDV.treeSize_eq.trans hlen))
    (hi.mth_of_pos hD) hP hProot

theorem SthChange.verifiedLeaves_prefix (hi : Inv th verifySignature m)
    (h : SthChange th verifySignature m m') {D D' : List ByteString}
    (hD : Represents th m.verifiedTree D) (hD' : Represents th m'.verifiedTree D') : D <+: D' := by
  cases h with
  | keep _ _ htree =>
      rw [htree] at hD'
      obtain rfl := hD.unique hleaf hnode hD'
      exact List.prefix_rfl
  | accept _ _ _ htree _ =>
      rw [htree] at hD'
      obtain rfl := hD.unique hleaf hnode hD'
      exact List.prefix_rfl
  | promote p D₀ hp _ _ hD₀ hsize hroot =>
      obtain rfl := hD'.unique hleaf hnode hD₀
      exact hi.prefix_pending hleaf hnode hp hD hsize hroot

theorem Inv.heldOrPassed (hi : Inv th verifySignature m) {sth : SthResponse}
    (h : m.state.verifiedSth = some sth ∨ m.state.pendingSth = some sth) :
    HeldOrPassed th sth m := by
  rcases h with hv | hp
  · -- the verified tree has the leaves of the verified STH
    right
    intro P hP hProot D hD
    obtain ⟨DV, hDV, hlen, hroot⟩ := hi.verifiedLeaves
    have hverified : m.state.verified = sth := by simp [MonitorState.verified, hv]
    obtain rfl := hD.unique hleaf hnode hDV
    obtain rfl : P = D := TreeHasher.mth_injective th hleaf hnode
      (by rw [hP, hlen, hverified]) (by rw [hProot, hroot sth hv])
    exact List.prefix_rfl
  · exact .inl hp

theorem HeldOrPassed.step (hi : Inv th verifySignature m) (hc : SthChange th verifySignature m m')
    {sth : SthResponse} (h : HeldOrPassed th sth m) : HeldOrPassed th sth m' := by
  rcases h with hp | hpassed
  · cases hc with
    | keep _ hpending _ => exact .inl (hpending.trans hp)
    | accept _ hnone _ _ _ =>
        rw [hnone] at hp
        cases hp
    | promote p D₀ hp' _ _ hD₀ hsize hroot =>
        obtain rfl : p = sth := Option.some.inj (hp'.symm.trans hp)
        right
        intro P hP hProot D hD
        obtain rfl := hD₀.unique hleaf hnode hD
        obtain rfl : P = D₀ := TreeHasher.mth_injective th hleaf hnode (hP.trans hsize.symm)
          (hProot.trans hroot.symm)
        exact List.prefix_rfl
  · right
    intro P hP hProot D' hD'
    obtain ⟨D, hD, -⟩ := hi.verifiedLeaves
    exact (hpassed P hP hProot D hD).trans (hc.verifiedLeaves_prefix hleaf hnode hi hD hD')

theorem HeldOrPassed.of_steps (hi : Inv th verifySignature m) {sth : SthResponse}
    (h : HeldOrPassed th sth m)
    (hsteps : Relation.ReflTransGen (Monitor.Steps th verifySignature) m m') :
    Inv th verifySignature m' ∧ HeldOrPassed th sth m' := by
  induction hsteps with
  | refl => exact ⟨hi, h⟩
  | tail _ hstep ih =>
      obtain ⟨hi₁, hh⟩ := ih
      obtain ⟨e, he⟩ := hstep
      obtain ⟨_, hr, hi', hc⟩ := hi₁.step he
      cases hr
      exact ⟨hi', hh.step hleaf hnode hi₁ hc⟩

theorem HeldOrPassed.comparable (hi : Inv th verifySignature m) {sth : SthResponse}
    (h : HeldOrPassed th sth m) {P : List ByteString} (hP : P.length = sth.treeSize)
    (hProot : th.mth P = sth.sha256RootHash) {D : List ByteString}
    (hD : Represents th m.verifiedTree D) :
    (D.length ≤ P.length → D <+: P) ∧ (P.length ≤ D.length → P <+: D) := by
  rcases h with hp | hpassed
  · -- still pending, so larger than the verified tree
    have hpre := hi.prefix_pending hleaf hnode hp hD hP hProot
    refine ⟨fun _ => hpre, fun hle => ?_⟩
    obtain ⟨hlt, -⟩ := hi.pending sth hp
    obtain ⟨DV, hDV, hlen, -⟩ := hi.verifiedLeaves
    have hDlen : D.length = m.state.verified.treeSize :=
      hD.treeSize_eq.symm.trans (hDV.treeSize_eq.trans hlen)
    omega
  · have hpre := hpassed P hP hProot D hD
    refine ⟨fun hle => ?_, fun _ => hpre⟩
    obtain rfl := hpre.eq_of_length (le_antisymm hpre.length_le hle)
    exact List.prefix_rfl

end Leaves

variable (th verifySignature) in
structure MonitorSafe : Prop where
  /-- A written state has the verified tree of its STHs. -/
  persisted : ∀ m, Monitor.Reachable th verifySignature m → ∀ s, m.stateFile = some s →
    StateSafe th s
  /-- Every STH put in the state was checked against the verified STH it
  replaces. -/
  newSths : ∀ m e m', Monitor.Reachable th verifySignature m →
    m.step th verifySignature e = some (.ok m') → NewSthsChecked th verifySignature m m'
  /-- The leaves of the verified tree only grow. -/
  leavesExtend : ∀ m e m', Monitor.Reachable th verifySignature m →
    m.step th verifySignature e = some (.ok m') →
    ∀ D D', Represents th m.verifiedTree D → Represents th m'.verifiedTree D' → D <+: D'
  /-- Later in a run, the leaves of the verified tree are a prefix of those of
  every STH the monitor accepted that is no smaller, and contain those of
  every other. -/
  acceptedPrefix : ∀ m₁ m₂, Monitor.Reachable th verifySignature m₁ →
    Relation.ReflTransGen (Monitor.Steps th verifySignature) m₁ m₂ →
    ∀ sth, m₁.state.verifiedSth = some sth ∨ m₁.state.pendingSth = some sth →
    ∀ P, P.length = sth.treeSize → th.mth P = sth.sha256RootHash →
    ∀ D, Represents th m₂.verifiedTree D →
      (D.length ≤ P.length → D <+: P) ∧ (P.length ≤ D.length → P <+: D)
  /-- The assertions of `_set_verified_tree` never fail. -/
  noAssertionError : ∀ m e, Monitor.Reachable th verifySignature m →
    m.step th verifySignature e ≠ some (.error .assertionError)

theorem monitor_state_safe (hleaf : Function.Injective th.hashLeaf)
    (hnode : ∀ a b c d, th.hashChildren a b = th.hashChildren c d → a = c ∧ b = d) :
    MonitorSafe th verifySignature where
  persisted m hm _ hs := (Inv.of_reachable hm).stateSafe hs
  newSths m e m' hm h := by
    have hi := Inv.of_reachable hm
    obtain ⟨_, hr, -, hc⟩ := hi.step h
    cases hr
    exact hc.newSthsChecked hi
  leavesExtend m e m' hm h D D' hD hD' := by
    have hi := Inv.of_reachable hm
    obtain ⟨_, hr, -, hc⟩ := hi.step h
    cases hr
    exact hc.verifiedLeaves_prefix hleaf hnode hi hD hD'
  acceptedPrefix m₁ m₂ h₁ h₁₂ sth hheld P hP hProot D hD := by
    have hi₁ := Inv.of_reachable h₁
    obtain ⟨hi₂, hheld₂⟩ :=
      (hi₁.heldOrPassed hleaf hnode hheld).of_steps hleaf hnode hi₁ h₁₂
    exact hheld₂.comparable hleaf hnode hi₂ hP hProot hD
  noAssertionError m e hm h := by
    obtain ⟨_, hr, -⟩ := (Inv.of_reachable hm).step h
    cases hr

theorem monitor_state_safe_unaryFramed :
    MonitorSafe CertTrans.MerkleVerifier.unaryFramedHasher (fun _ _ => true) :=
  monitor_state_safe CertTrans.MerkleVerifier.unaryFramedHasher_hashLeaf_injective
    CertTrans.MerkleVerifier.unaryFramedHasher_hashChildren_inj

end Safety

end CertTrans.Python.Client
