import Mathlib.Algebra.Order.Field.Rat
import CertTrans.Codec.Bytes
import CertTrans.Log.ClusterStateController

/-!
What `CalculateServingSTH` selects, and how the selection moves over runs of
the controller.

The first loop tallies, per reported tree size, the number of reports and the
newest STH (`Tallies`, against `newestAt`); the second walks the sizes from the
largest down with the number of reports seen so far (`Remaining`).  An STH the
controller sets is `Servable` for the state it read: the STH kept at a
reported size at least the previous calculated size read as an `int`, with
enough nodes at or above that size, and newer than the actual serving STH.
-/

namespace CertTrans.ClusterStateController

open Keyed List Codec

def reports (allPeers : List (Σ _ : String, ClusterNodeState)) : List SignedTreeHead :=
  allPeers.filterMap (·.2.newestSth)

def newestAt (rs : List SignedTreeHead) (size : Int) : SignedTreeHead :=
  rs.foldl (fun sth r => if r.treeSize = size ∧ r.timestamp > sth.timestamp then r else sth) {}

def numAtLeast (rs : List SignedTreeHead) (size : Int) : Nat :=
  rs.countP fun r => size ≤ r.treeSize

def ValidReport (r : SignedTreeHead) : Prop :=
  0 ≤ r.treeSize ∧ r.timestamp < 2 ^ 63

section Newest

variable {size : Int}

theorem foldl_newest (size : Int) : ∀ (rs : List SignedTreeHead) (sth : SignedTreeHead),
    let result := rs.foldl
      (fun sth r => if r.treeSize = size ∧ r.timestamp > sth.timestamp then r else sth) sth
    (result = sth ∨ result ∈ rs ∧ result.treeSize = size ∧ sth.timestamp < result.timestamp) ∧
      sth.timestamp ≤ result.timestamp ∧
      ∀ r ∈ rs, r.treeSize = size → r.timestamp ≤ result.timestamp
  | [], sth => ⟨Or.inl rfl, le_rfl, fun _ h => absurd h not_mem_nil⟩
  | r :: rest, sth => by
    intro result
    by_cases hr : r.treeSize = size ∧ r.timestamp > sth.timestamp
    · -- the report replaces the STH kept so far
      have hstep : result = rest.foldl
          (fun sth r => if r.treeSize = size ∧ r.timestamp > sth.timestamp then r else sth) r := by
        simp only [result, foldl_cons, if_pos hr]
      obtain ⟨hcase, hle, hmax⟩ := foldl_newest size rest r
      rw [← hstep] at hcase hle hmax
      refine ⟨Or.inr ?_, le_of_lt (lt_of_lt_of_le hr.2 hle), ?_⟩
      · rcases hcase with heq | ⟨hmem, hsize, hlt⟩
        · exact ⟨heq ▸ mem_cons_self, heq ▸ hr.1, heq ▸ hr.2⟩
        · exact ⟨mem_cons_of_mem _ hmem, hsize, lt_trans hr.2 hlt⟩
      · intro r' hr' hsize
        rcases mem_cons.mp hr' with rfl | hr'
        · exact hle
        · exact hmax r' hr' hsize
    · have hstep : result = rest.foldl
          (fun sth r => if r.treeSize = size ∧ r.timestamp > sth.timestamp then r else sth) sth := by
        simp only [result, foldl_cons, if_neg hr]
      obtain ⟨hcase, hle, hmax⟩ := foldl_newest size rest sth
      rw [← hstep] at hcase hle hmax
      refine ⟨?_, hle, ?_⟩
      · rcases hcase with heq | ⟨hmem, hsize, hlt⟩
        · exact Or.inl heq
        · exact Or.inr ⟨mem_cons_of_mem _ hmem, hsize, hlt⟩
      · intro r' hr' hsize
        rcases mem_cons.mp hr' with rfl | hr'
        · exact le_trans (not_lt.mp fun h => hr ⟨hsize, h⟩) hle
        · exact hmax r' hr' hsize

theorem newestAt_cases (rs : List SignedTreeHead) (size : Int) :
    newestAt rs size = {} ∨
      newestAt rs size ∈ rs ∧ (newestAt rs size).treeSize = size ∧ 0 < (newestAt rs size).timestamp :=
  (foldl_newest size rs {}).1

theorem timestamp_le_newestAt {rs : List SignedTreeHead} {r : SignedTreeHead} (hr : r ∈ rs)
    (hsize : r.treeSize = size) : r.timestamp ≤ (newestAt rs size).timestamp :=
  (foldl_newest size rs {}).2.2 r hr hsize

theorem newestAt_append_singleton (rs : List SignedTreeHead) (r : SignedTreeHead) :
    newestAt (rs ++ [r]) size =
      if r.treeSize = size ∧ r.timestamp > (newestAt rs size).timestamp then r else newestAt rs size := by
  rw [newestAt, newestAt, foldl_append]
  rfl

theorem newestAt_of_not_mem {rs : List SignedTreeHead} (h : size ∉ rs.map (·.treeSize)) :
    newestAt rs size = {} := by
  rcases newestAt_cases rs size with hdef | ⟨hmem, hsize, -⟩
  · exact hdef
  · exact absurd (hsize ▸ mem_map_of_mem hmem) h

theorem newestAt_of_pos {rs : List SignedTreeHead} (hpos : 0 < (newestAt rs size).timestamp) :
    newestAt rs size ∈ rs ∧ (newestAt rs size).treeSize = size ∧
      ∀ r ∈ rs, r.treeSize = size → r.timestamp ≤ (newestAt rs size).timestamp := by
  rcases newestAt_cases rs size with hdef | ⟨hmem, hsize, -⟩
  · rw [hdef] at hpos
    exact absurd hpos (lt_irrefl 0)
  · exact ⟨hmem, hsize, fun r hr hs => timestamp_le_newestAt hr hs⟩

end Newest

theorem numAtLeast_anti {rs : List SignedTreeHead} {a b : Int} (h : a ≤ b) :
    numAtLeast rs b ≤ numAtLeast rs a :=
  countP_mono_left fun r _ hr => by
    simp only [decide_eq_true_eq] at hr ⊢
    exact le_trans h hr

structure Tallies (rs : List SignedTreeHead) (tally : Tally) : Prop where
  sorted_numNodes : Sorted tally.1
  sorted_sthBySize : Sorted tally.2
  numNodes_eq : ∀ size, tally.1.dlookup size =
    if size ∈ rs.map (·.treeSize) then some (rs.countP (·.treeSize = size)) else none
  sthBySize_eq : ∀ size, tally.2.dlookup size =
    if size ∈ rs.map (·.treeSize) then some (newestAt rs size) else none

theorem tallies_nil : Tallies [] ([], []) :=
  ⟨sorted_nil, sorted_nil, fun _ => rfl, fun _ => rfl⟩

section Tally

variable {rs : List SignedTreeHead} {tally : Tally}

theorem countP_treeSize_eq_zero {size : Int} (h : size ∉ rs.map (·.treeSize)) :
    rs.countP (·.treeSize = size) = 0 :=
  countP_eq_zero.mpr fun r hr hsize => h (mem_map.mpr ⟨r, hr, of_decide_eq_true hsize⟩)

theorem Tallies.getD_numNodes (h : Tallies rs tally) (size : Int) :
    (tally.1.dlookup size).getD 0 = rs.countP (·.treeSize = size) := by
  rw [h.numNodes_eq]
  split_ifs with hs
  · rfl
  · exact (countP_treeSize_eq_zero hs).symm

theorem Tallies.getD_sthBySize (h : Tallies rs tally) (size : Int) :
    (tally.2.dlookup size).getD {} = newestAt rs size := by
  rw [h.sthBySize_eq]
  split_ifs with hs
  · rfl
  · exact (newestAt_of_not_mem hs).symm

theorem Tallies.append (h : Tallies rs tally) (r : SignedTreeHead) :
    Tallies (rs ++ [r]) (alterD r.treeSize 0 (· + 1) tally.1,
      alterD r.treeSize {} (fun sth => if r.timestamp > sth.timestamp then r else sth) tally.2) := by
  refine ⟨h.sorted_numNodes.alterD, h.sorted_sthBySize.alterD, ?_, ?_⟩
  · intro size
    by_cases hs : size = r.treeSize
    · subst hs
      rw [dlookup_alterD_self h.sorted_numNodes, h.getD_numNodes, if_pos (by simp)]
      simp [countP_append]
    · have hmem : size ∈ (rs ++ [r]).map (·.treeSize) ↔ size ∈ rs.map (·.treeSize) := by
        simp [hs]
      rw [dlookup_alterD_ne hs, h.numNodes_eq, countP_append]
      simp only [hmem]
      simp [Ne.symm hs]
  · intro size
    by_cases hs : size = r.treeSize
    · subst hs
      have hmem : r.treeSize ∈ (rs ++ [r]).map (·.treeSize) := by simp
      rw [dlookup_alterD_self h.sorted_sthBySize, h.getD_sthBySize, if_pos hmem,
        newestAt_append_singleton]
      simp only [true_and]
    · have hmem : size ∈ (rs ++ [r]).map (·.treeSize) ↔ size ∈ rs.map (·.treeSize) := by
        simp [hs]
      rw [dlookup_alterD_ne hs, h.sthBySize_eq, newestAt_append_singleton]
      simp only [hmem]
      simp [Ne.symm hs]

theorem tallyNode_eq_ok {node : Σ _ : String, ClusterNodeState} {tally' : Tally}
    (h : tallyNode tally node = .ok tally') (ht : Tallies rs tally) :
    (∀ r ∈ node.2.newestSth, ValidReport r) ∧ Tallies (rs ++ node.2.newestSth.toList) tally' := by
  unfold tallyNode at h
  cases hnode : node.2.newestSth with
  | none =>
    rw [hnode] at h
    cases h
    simpa using ht
  | some r =>
    rw [hnode] at h
    by_cases hsize : 0 ≤ r.treeSize
    · by_cases hts : r.timestamp < 2 ^ 63
      · simp only [hsize, hts, not_true_eq_false, if_false] at h
        cases h
        exact ⟨fun r' hr' => Option.mem_some_iff.mp hr' ▸ ⟨hsize, hts⟩, ht.append r⟩
      · simp only [hsize, hts, not_true_eq_false, not_false_eq_true, if_false, if_true] at h
        cases h
    · simp only [hsize, not_false_eq_true, if_true] at h
      cases h

theorem reports_cons (node : Σ _ : String, ClusterNodeState) (rest : List (Σ _ : String, ClusterNodeState)) :
    reports (node :: rest) = node.2.newestSth.toList ++ reports rest := by
  cases h : node.2.newestSth <;> simp [reports, h]

theorem foldlM_tallyNode_eq_ok :
    ∀ (nodes : List (Σ _ : String, ClusterNodeState)) (rs : List SignedTreeHead) (tally tally' : Tally),
      Tallies rs tally → nodes.foldlM tallyNode tally = .ok tally' →
        (∀ r ∈ reports nodes, ValidReport r) ∧ Tallies (rs ++ reports nodes) tally'
  | [], rs, tally, tally', ht, h => by
    cases h
    exact ⟨fun _ h => absurd h not_mem_nil, by simpa [reports] using ht⟩
  | node :: rest, rs, tally, tally', ht, h => by
    rw [foldlM_cons] at h
    obtain ⟨tally₁, h₁, hrest⟩ := except_bind_eq_ok.mp h
    obtain ⟨hvalid₁, ht₁⟩ := tallyNode_eq_ok h₁ ht
    obtain ⟨hvalid, ht'⟩ := foldlM_tallyNode_eq_ok rest _ tally₁ tally' ht₁ hrest
    rw [reports_cons]
    refine ⟨fun r hr => ?_, by rwa [← append_assoc]⟩
    rcases mem_append.mp hr with hr | hr
    · exact hvalid₁ r (Option.mem_toList.mp hr)
    · exact hvalid r hr

end Tally

structure Remaining (rs : List SignedTreeHead) (numNodesSeen : Nat) (l : List (Σ _ : Int, Nat)) :
    Prop where
  descending : l.Pairwise fun a b => b.1 < a.1
  count_eq : ∀ e ∈ l, e.2 = rs.countP (·.treeSize = e.1)
  covers : ∀ r ∈ rs, (∃ e ∈ l, e.1 = r.treeSize) ∨ ∀ e ∈ l, e.1 < r.treeSize
  seen_eq : ∀ e ∈ l.head?, numNodesSeen = rs.countP (e.1 < ·.treeSize)

section Select

variable {rs : List SignedTreeHead} {seen : Nat} {size : Int} {n : Nat}
  {rest : List (Σ _ : Int, Nat)}

theorem countP_lt_add_countP_eq (rs : List SignedTreeHead) (size : Int) :
    rs.countP (size < ·.treeSize) + rs.countP (·.treeSize = size) = numAtLeast rs size := by
  unfold numAtLeast
  induction rs with
  | nil => rfl
  | cons r rest ih =>
    simp only [countP_cons]
    rcases lt_trichotomy size r.treeSize with hlt | heq | hgt
    · have hne : r.treeSize ≠ size := ne_of_gt hlt
      simp [hlt, hne, le_of_lt hlt]
      omega
    · subst heq
      simp
      omega
    · simp [not_lt.mpr (le_of_lt hgt), ne_of_lt hgt, not_le.mpr hgt]
      omega

theorem le_of_mem_head? {l : List (Σ _ : Int, Nat)} (h : l.Pairwise fun a b => b.1 < a.1)
    {e e' : Σ _ : Int, Nat} (he : e ∈ l.head?) (he' : e' ∈ l) : e'.1 ≤ e.1 := by
  cases l with
  | nil => cases he
  | cons e₀ rest =>
    rw [head?_cons, Option.mem_some_iff] at he
    subst he
    rcases mem_cons.mp he' with rfl | he'
    · exact le_rfl
    · exact le_of_lt (rel_of_pairwise_cons h he')

theorem Remaining.head (h : Remaining rs seen (⟨size, n⟩ :: rest)) :
    seen + n = numAtLeast rs size := by
  have hseen : seen = rs.countP (size < ·.treeSize) := h.seen_eq _ rfl
  have hn : n = rs.countP (·.treeSize = size) := h.count_eq _ mem_cons_self
  rw [hseen, hn]
  exact countP_lt_add_countP_eq rs size

theorem Remaining.tail (h : Remaining rs seen (⟨size, n⟩ :: rest)) :
    Remaining rs (seen + n) rest := by
  have hbelow : ∀ e ∈ rest, e.1 < size := fun e he => rel_of_pairwise_cons h.descending he
  refine ⟨h.descending.of_cons, fun e he => h.count_eq e (mem_cons_of_mem _ he), ?_, ?_⟩
  · intro r hr
    rcases h.covers r hr with ⟨e, he, hsize⟩ | habove
    · rcases mem_cons.mp he with rfl | he
      · exact Or.inr fun e' he' => hsize ▸ hbelow e' he'
      · exact Or.inl ⟨e, he, hsize⟩
    · exact Or.inr fun e he => habove e (mem_cons_of_mem _ he)
  · intro e he
    obtain ⟨rest', rfl⟩ : ∃ rest', rest = e :: rest' := by
      cases rest with
      | nil => cases he
      | cons e' rest' =>
        rw [head?_cons, Option.mem_some_iff] at he
        exact ⟨rest', by rw [he]⟩
    have hnext : ∀ e' ∈ e :: rest', e'.1 ≤ e.1 := fun e' he' =>
      le_of_mem_head? h.descending.of_cons rfl he'
    rw [h.head, numAtLeast]
    refine countP_congr fun r hr => ?_
    simp only [decide_eq_true_eq]
    constructor
    · exact lt_of_lt_of_le (hbelow e mem_cons_self)
    · intro hlt
      rcases h.covers r hr with ⟨e', he', hsize⟩ | habove
      · rcases mem_cons.mp he' with rfl | he'
        · exact le_of_eq hsize
        · exact absurd (hsize ▸ hnext e' he') (not_le.mpr hlt)
      · exact le_of_lt (habove _ mem_cons_self)

theorem selectServingSth_spec {config : ClusterConfig} {numPeers : Nat}
    {actual : Option SignedTreeHead} {current : Int} {sthBySize : List (Σ _ : Int, SignedTreeHead)}
    {sth : SignedTreeHead} :
    ∀ {seen : Nat} {l : List (Σ _ : Int, Nat)}, Remaining rs seen l →
      selectServingSth config numPeers actual current sthBySize seen l = some sth →
      ∃ size ∈ l.map (·.1), sth = (sthBySize.dlookup size).getD {} ∧ current ≤ size ∧
        config.minimumServingFraction ≤ Binary64.toNearest ((numAtLeast rs size : ℚ) / numPeers) ∧
        config.minimumServingNodes ≤ numAtLeast rs size ∧
        ∀ a ∈ actual, a.timestamp < sth.timestamp
  | _, [], _, h => by cases h
  | seen, ⟨size, n⟩ :: rest, hrem, h => by
    have hseen := hrem.head
    have hlater : selectServingSth config numPeers actual current sthBySize (seen + n) rest = some sth →
        ∃ size' ∈ (⟨size, n⟩ :: rest : List (Σ _ : Int, Nat)).map (·.1),
          sth = (sthBySize.dlookup size').getD {} ∧ current ≤ size' ∧
          config.minimumServingFraction ≤ Binary64.toNearest ((numAtLeast rs size' : ℚ) / numPeers) ∧
          config.minimumServingNodes ≤ numAtLeast rs size' ∧
          ∀ a ∈ actual, a.timestamp < sth.timestamp := by
      intro hrest
      obtain ⟨size', hmem, hrest'⟩ := selectServingSth_spec hrem.tail hrest
      exact ⟨size', mem_cons_of_mem _ hmem, hrest'⟩
    simp only [selectServingSth] at h
    split_ifs at h with hcur henough
    · rw [hseen] at henough
      cases actual with
      | none =>
        cases h
        exact ⟨size, mem_cons_self, rfl, not_lt.mp hcur, henough.1, henough.2, fun a ha => by cases ha⟩
      | some a =>
        simp only at h
        split_ifs at h with hold
        · exact hlater h
        · cases h
          refine ⟨size, mem_cons_self, rfl, not_lt.mp hcur, henough.1, henough.2, ?_⟩
          intro a' ha'
          rw [Option.mem_some_iff] at ha'
          subst ha'
          exact not_le.mp hold
    · exact hlater h

theorem Tallies.remaining {tally : Tally} (h : Tallies rs tally) : Remaining rs 0 tally.1.reverse := by
  have hdesc : tally.1.reverse.Pairwise fun a b => b.1 < a.1 :=
    pairwise_reverse.mpr h.sorted_numNodes
  have hcovers : ∀ r ∈ rs, ∃ e ∈ tally.1.reverse, e.1 = r.treeSize := by
    intro r hr
    have hlook := h.numNodes_eq r.treeSize
    rw [if_pos (mem_map_of_mem hr)] at hlook
    exact ⟨_, mem_reverse.mpr (of_mem_dlookup (Option.mem_def.mpr hlook)), rfl⟩
  refine ⟨hdesc, ?_, fun r hr => Or.inl (hcovers r hr), ?_⟩
  · intro e he
    have hlook := h.numNodes_eq e.1
    rw [mem_dlookup h.sorted_numNodes.nodupKeys (mem_reverse.mp he)] at hlook
    split_ifs at hlook
    exact Option.some.inj hlook
  · -- no report is above the largest tallied size
    intro e he
    refine (countP_eq_zero.mpr fun r hr hlt => ?_).symm
    obtain ⟨e', he', hsize⟩ := hcovers r hr
    exact absurd (hsize ▸ le_of_mem_head? hdesc he he') (not_le.mpr (of_decide_eq_true hlt))

end Select

structure Servable (s : State) (size : Int) (sth : SignedTreeHead) : Prop where
  reports_valid : ∀ r ∈ reports s.allPeers, ValidReport r
  reported : size ∈ (reports s.allPeers).map (·.treeSize)
  newest : sth = newestAt (reports s.allPeers) size
  not_smaller : toInt32 ((s.calculatedServingSth.map (·.treeSize)).getD 0) ≤ size
  enough_fraction : s.clusterConfig.minimumServingFraction ≤
    Binary64.toNearest ((numAtLeast (reports s.allPeers) size : ℚ) / s.allPeers.length)
  enough_nodes : s.clusterConfig.minimumServingNodes ≤ numAtLeast (reports s.allPeers) size
  newer : ∀ a ∈ s.actualServingSth, a.timestamp < sth.timestamp

theorem calculateServingSTH_eq_ok {s s' : State} (h : calculateServingSTH s = .ok s') :
    s' = s ∨ ∃ size sth, Servable s size sth ∧
      s' = { s with calculatedServingSth := some sth, updateRequired := s.updateRequired || s.isMaster } := by
  unfold calculateServingSTH at h
  obtain ⟨⟨numNodes, sthBySize⟩, htally, hrest⟩ := except_bind_eq_ok.mp h
  obtain ⟨hvalid, ht⟩ := foldlM_tallyNode_eq_ok s.allPeers [] _ _ tallies_nil htally
  rw [nil_append] at ht
  dsimp only at hrest
  split_ifs at hrest with hcur
  · cases hsel : selectServingSth s.clusterConfig s.allPeers.length s.actualServingSth
        (toInt32 ((s.calculatedServingSth.map (·.treeSize)).getD 0)) sthBySize 0 numNodes.reverse with
    | none =>
      rw [hsel] at hrest
      cases hrest
      exact Or.inl rfl
    | some sth =>
      rw [hsel] at hrest
      cases hrest
      obtain ⟨size, hmem, hsth, hnot, hfrac, hnodes, hnewer⟩ :=
        selectServingSth_spec ht.remaining hsel
      have hreported : size ∈ (reports s.allPeers).map (·.treeSize) := by
        obtain ⟨e, he, rfl⟩ := mem_map.mp hmem
        have hlook := ht.numNodes_eq e.1
        rw [mem_dlookup ht.sorted_numNodes.nodupKeys (mem_reverse.mp he)] at hlook
        split_ifs at hlook with hin
        exact hin
      have hkept : sth = newestAt (reports s.allPeers) size := by
        rw [hsth, ht.getD_sthBySize]
      exact Or.inr ⟨size, sth, ⟨hvalid, hreported, hkept, hnot, hfrac, hnodes, hnewer⟩, rfl⟩
  · -- a negative `current_tree_size` throws
    cases hrest

theorem Servable.of_agree {s₁ s₂ : State} {size : Int} {sth : SignedTreeHead}
    (h : Servable s₁ size sth) (hpeers : s₂.allPeers = s₁.allPeers)
    (hconfig : s₂.clusterConfig = s₁.clusterConfig)
    (hcalc : s₂.calculatedServingSth = s₁.calculatedServingSth)
    (hactual : s₂.actualServingSth = s₁.actualServingSth) : Servable s₂ size sth := by
  obtain ⟨hvalid, hreported, hnewest, hnot, hfrac, hnodes, hnewer⟩ := h
  rw [← hpeers] at hvalid hreported hnewest hfrac hnodes
  rw [← hconfig] at hfrac hnodes
  rw [← hcalc] at hnot
  rw [← hactual] at hnewer
  exact ⟨hvalid, hreported, hnewest, hnot, hfrac, hnodes, hnewer⟩

theorem toInt32_of_lt {x : Int} (h0 : 0 ≤ x) (h : x < 2 ^ 31) : toInt32 x = x :=
  Int.bmod_eq_of_le (by omega) (by omega)

section Servable

variable {s : State} {size : Int} {sth : SignedTreeHead}

theorem Servable.newest_reported (h : Servable s size sth) (hpos : 0 < sth.timestamp) :
    sth ∈ reports s.allPeers ∧ sth.treeSize = size ∧
      ∀ r ∈ reports s.allPeers, r.treeSize = sth.treeSize → r.timestamp ≤ sth.timestamp := by
  rw [h.newest] at hpos ⊢
  obtain ⟨hmem, hsize, hmax⟩ := newestAt_of_pos hpos
  exact ⟨hmem, hsize, fun r hr hr' => hmax r hr (hr'.trans hsize)⟩

theorem Servable.eq_default (h : Servable s size sth) (hzero : sth.timestamp = 0) : sth = {} := by
  rw [h.newest] at hzero ⊢
  rcases newestAt_cases (reports s.allPeers) size with hdef | ⟨-, -, hpos⟩
  · exact hdef
  · exact absurd hzero (Nat.pos_iff_ne_zero.mp hpos)

theorem Servable.treeSize_le (h : Servable s size sth) : sth.treeSize ≤ size := by
  by_cases hpos : 0 < sth.timestamp
  · exact le_of_eq (h.newest_reported hpos).2.1
  · -- the default STH, below every reported size
    rw [h.eq_default (Nat.eq_zero_of_not_pos hpos)]
    obtain ⟨r, hr, rfl⟩ := mem_map.mp h.reported
    exact (h.reports_valid r hr).1

theorem Servable.enough (h : Servable s size sth) :
    s.clusterConfig.minimumServingNodes ≤ numAtLeast (reports s.allPeers) sth.treeSize ∧
      s.clusterConfig.minimumServingFraction ≤
        Binary64.toNearest ((numAtLeast (reports s.allPeers) sth.treeSize : ℚ) / s.allPeers.length) := by
  have hmono : numAtLeast (reports s.allPeers) size ≤ numAtLeast (reports s.allPeers) sth.treeSize :=
    numAtLeast_anti h.treeSize_le
  refine ⟨le_trans h.enough_nodes (by exact_mod_cast hmono), le_trans h.enough_fraction ?_⟩
  exact Binary64.toNearest_mono (by positivity)
    (div_le_div_of_nonneg_right (by exact_mod_cast hmono) (Nat.cast_nonneg _))

theorem Servable.le_of_calculated (h : Servable s size sth) (hpos : 0 < sth.timestamp)
    {prev : SignedTreeHead} (hprev : s.calculatedServingSth = some prev) (h0 : 0 ≤ prev.treeSize)
    (h31 : prev.treeSize < 2 ^ 31) : prev.treeSize ≤ sth.treeSize := by
  have hnot := h.not_smaller
  rw [hprev, Option.map_some, Option.getD_some, toInt32_of_lt h0 h31] at hnot
  rw [(h.newest_reported hpos).2.1]
  exact hnot

end Servable

/-- Every STH `CalculateServingSTH` sets is newer than the actual serving STH
and served by enough nodes: at least `minimum_serving_nodes` of them, and a
share of all nodes that rounds to a double of at least
`minimum_serving_fraction`, report a tree at least as large.  Unless it is the
default STH, it is the newest report at its tree size. -/
theorem calculateServingSTH_served {s s' : State} (h : calculateServingSTH s = .ok s') :
    s' = s ∨ ∃ sth, s'.calculatedServingSth = some sth ∧
      (∀ a ∈ s.actualServingSth, a.timestamp < sth.timestamp) ∧
      s.clusterConfig.minimumServingNodes ≤ numAtLeast (reports s.allPeers) sth.treeSize ∧
      s.clusterConfig.minimumServingFraction ≤
        Binary64.toNearest ((numAtLeast (reports s.allPeers) sth.treeSize : ℚ) / s.allPeers.length) ∧
      (sth = {} ∨ sth ∈ reports s.allPeers ∧
        ∀ r ∈ reports s.allPeers, r.treeSize = sth.treeSize → r.timestamp ≤ sth.timestamp) := by
  rcases calculateServingSTH_eq_ok h with hsame | ⟨size, sth, hserv, rfl⟩
  · exact Or.inl hsame
  · obtain ⟨hnodes, hfrac⟩ := hserv.enough
    have hnewest : sth = {} ∨ sth ∈ reports s.allPeers ∧
        ∀ r ∈ reports s.allPeers, r.treeSize = sth.treeSize → r.timestamp ≤ sth.timestamp := by
      rcases Nat.eq_zero_or_pos sth.timestamp with hzero | hpos
      · exact Or.inl (hserv.eq_default hzero)
      · obtain ⟨hmem, -, hmax⟩ := hserv.newest_reported hpos
        exact Or.inr ⟨hmem, hmax⟩
    exact Or.inr ⟨sth, rfl, hserv.newer, hnodes, hfrac, hnewest⟩

/-- One node of ten reporting, at a minimum serving fraction of the double
nearest `0.1`: the quotient `1 / 10` rounds to that double, so its STH is set. -/
theorem calculateServingSTH_served_one_of_ten :
    let s : State :=
      { clusterConfig :=
          { minimumServingNodes := 1, minimumServingFraction := 3602879701896397 / 36028797018963968 },
        allPeers := (List.range 10).map fun i =>
          ⟨toString i, { newestSth := if i = 0 then some { timestamp := 2, treeSize := 5 } else none }⟩ }
    ∃ s', calculateServingSTH s = .ok s' ∧
      s'.calculatedServingSth = some { timestamp := 2, treeSize := 5 } ∧
      (s' = s ∨ ∃ sth, s'.calculatedServingSth = some sth ∧
        (∀ a ∈ s.actualServingSth, a.timestamp < sth.timestamp) ∧
        s.clusterConfig.minimumServingNodes ≤ numAtLeast (reports s.allPeers) sth.treeSize ∧
        s.clusterConfig.minimumServingFraction ≤
          Binary64.toNearest ((numAtLeast (reports s.allPeers) sth.treeSize : ℚ) / s.allPeers.length) ∧
        (sth = {} ∨ sth ∈ reports s.allPeers ∧
          ∀ r ∈ reports s.allPeers, r.treeSize = sth.treeSize → r.timestamp ≤ sth.timestamp)) := by
  intro s
  have h : calculateServingSTH s =
      .ok { s with calculatedServingSth := some { timestamp := 2, treeSize := 5 } } := by
    decide +kernel
  exact ⟨_, h, rfl, calculateServingSTH_served h⟩

theorem mem_reports {r : SignedTreeHead} {allPeers : List (Σ _ : String, ClusterNodeState)} :
    r ∈ reports allPeers ↔ ∃ e ∈ allPeers, e.2.newestSth = some r := by
  simp [reports, mem_filterMap]

def Event.reported : Event → List SignedTreeHead
  | .clusterStateUpdated updates => updates.filterMap fun u => u.2.bind (·.newestSth)
  | _ => []

section Steps

variable {s s' : State} {e : Event}

theorem updateNode_reports {allPeers allPeers' : List (Σ _ : String, ClusterNodeState)}
    {u : String × Option ClusterNodeState} (h : updateNode allPeers u = .ok allPeers') :
    ∀ r ∈ reports allPeers', r ∈ reports allPeers ∨ u.2.bind (·.newestSth) = some r := by
  intro r hr
  obtain ⟨e, he, hsth⟩ := mem_reports.mp hr
  obtain ⟨nodeId, state⟩ := u
  cases state with
  | some state =>
    cases h
    rcases mem_alterD he with he | ⟨-, v, hv⟩
    · exact Or.inl (mem_reports.mpr ⟨e, he, hsth⟩)
    · exact Or.inr (by rw [← hsth, hv]; rfl)
  | none =>
    simp only [updateNode] at h
    split_ifs at h
    cases h
    exact Or.inl (mem_reports.mpr ⟨e, (kerase_sublist _ _).subset he, hsth⟩)

theorem foldlM_updateNode_reports :
    ∀ (updates : List (String × Option ClusterNodeState))
      (allPeers allPeers' : List (Σ _ : String, ClusterNodeState)),
      updates.foldlM updateNode allPeers = .ok allPeers' →
      ∀ r ∈ reports allPeers', r ∈ reports allPeers ∨
        r ∈ updates.filterMap fun u => u.2.bind (·.newestSth)
  | [], allPeers, allPeers', h => by
    cases h
    exact fun r hr => Or.inl hr
  | u :: rest, allPeers, allPeers', h => by
    rw [foldlM_cons] at h
    obtain ⟨allPeers₁, h₁, hrest⟩ := except_bind_eq_ok.mp h
    intro r hr
    rcases foldlM_updateNode_reports rest allPeers₁ allPeers' hrest r hr with hr | hr
    · rcases updateNode_reports h₁ r hr with hr | hr
      · exact Or.inl hr
      · exact Or.inr (mem_filterMap.mpr ⟨u, mem_cons_self, hr⟩)
    · obtain ⟨u', hu', hr'⟩ := mem_filterMap.mp hr
      exact Or.inr (mem_filterMap.mpr ⟨u', mem_cons_of_mem _ hu', hr'⟩)

theorem calculateServingSTH_allPeers (h : calculateServingSTH s = .ok s') : s'.allPeers = s.allPeers := by
  rcases calculateServingSTH_eq_ok h with rfl | ⟨-, -, -, rfl⟩ <;> rfl

theorem step_reports (h : step s e = .ok s') :
    ∀ r ∈ reports s'.allPeers, r ∈ reports s.allPeers ∨ r ∈ e.reported := by
  cases e with
  | clusterStateUpdated updates =>
    obtain ⟨allPeers, hpeers, hcalc⟩ := except_bind_eq_ok.mp h
    rw [calculateServingSTH_allPeers hcalc]
    exact foldlM_updateNode_reports updates s.allPeers allPeers hpeers
  | clusterConfigUpdated config =>
    cases config with
    | none =>
      cases h
      exact fun r hr => Or.inl hr
    | some config =>
      rw [calculateServingSTH_allPeers h]
      exact fun r hr => Or.inl hr
  | servingSthUpdated sth =>
    cases h
    cases sth with
    | none => exact fun r hr => Or.inl hr
    | some sth =>
      simp only [onServingSthUpdated]
      split_ifs <;> exact fun r hr => Or.inl hr
  | masterChanged isMaster =>
    cases h
    exact fun r hr => Or.inl hr

theorem step_calculated (h : step s e = .ok s') :
    s'.calculatedServingSth = s.calculatedServingSth ∨
      ∃ size sth, s'.calculatedServingSth = some sth ∧
        Servable { s' with calculatedServingSth := s.calculatedServingSth } size sth := by
  have hcalc : ∀ s₀ : State, calculateServingSTH s₀ = .ok s' →
      s₀.calculatedServingSth = s.calculatedServingSth →
      s'.calculatedServingSth = s.calculatedServingSth ∨
        ∃ size sth, s'.calculatedServingSth = some sth ∧
          Servable { s' with calculatedServingSth := s.calculatedServingSth } size sth := by
    intro s₀ h₀ hs₀
    rcases calculateServingSTH_eq_ok h₀ with rfl | ⟨size, sth, hserv, rfl⟩
    · exact Or.inl hs₀
    · exact Or.inr ⟨size, sth, rfl, hserv.of_agree rfl rfl hs₀.symm rfl⟩
  cases e with
  | clusterStateUpdated updates =>
    obtain ⟨allPeers, -, h₀⟩ := except_bind_eq_ok.mp h
    exact hcalc _ h₀ rfl
  | clusterConfigUpdated config =>
    cases config with
    | none =>
      cases h
      exact Or.inl rfl
    | some config =>
      have h₀ : calculateServingSTH { s with clusterConfig := config } = .ok s' := h
      exact hcalc _ h₀ rfl
  | servingSthUpdated sth =>
    cases h
    cases sth with
    | none => exact Or.inl rfl
    | some sth =>
      left
      simp only [onServingSthUpdated]
      split_ifs <;> rfl
  | masterChanged isMaster =>
    cases h
    exact Or.inl rfl

end Steps

def BoundedReport (r : SignedTreeHead) : Prop :=
  0 < r.timestamp ∧ r.treeSize < 2 ^ 31

structure Bounded (s : State) : Prop where
  reports_bounded : ∀ r ∈ reports s.allPeers, BoundedReport r
  calculated_bounded : ∀ sth ∈ s.calculatedServingSth, 0 ≤ sth.treeSize ∧ sth.treeSize < 2 ^ 31

section Bounded

variable {s s' : State} {e : Event}

theorem Servable.pos_of_bounded {size : Int} {sth : SignedTreeHead} (h : Servable s size sth)
    (hb : ∀ r ∈ reports s.allPeers, BoundedReport r) : 0 < sth.timestamp := by
  obtain ⟨r, hr, hsize⟩ := mem_map.mp h.reported
  rw [h.newest]
  exact lt_of_lt_of_le (hb r hr).1 (timestamp_le_newestAt hr hsize)

theorem step_bounded (hs : Bounded s) (he : ∀ r ∈ e.reported, BoundedReport r)
    (h : step s e = .ok s') :
    Bounded s' ∧ ∀ prev ∈ s.calculatedServingSth, ∃ sth ∈ s'.calculatedServingSth,
      prev.treeSize ≤ sth.treeSize := by
  have hreports : ∀ r ∈ reports s'.allPeers, BoundedReport r := by
    intro r hr
    rcases step_reports h r hr with hr | hr
    · exact hs.reports_bounded r hr
    · exact he r hr
  rcases step_calculated h with hsame | ⟨size, sth, hset, hserv⟩
  · refine ⟨⟨hreports, hsame ▸ hs.calculated_bounded⟩, fun prev hprev => ?_⟩
    exact ⟨prev, hsame ▸ hprev, le_rfl⟩
  · have hpos := hserv.pos_of_bounded hreports
    obtain ⟨hmem, hsize, -⟩ := hserv.newest_reported hpos
    have hvalid := hserv.reports_valid sth hmem
    have hbound := hreports sth hmem
    refine ⟨⟨hreports, ?_⟩, ?_⟩
    · rw [hset]
      intro sth' hsth'
      rw [Option.mem_some_iff] at hsth'
      subst hsth'
      exact ⟨hvalid.1, hbound.2⟩
    · intro prev hprev
      obtain ⟨h0, h31⟩ := hs.calculated_bounded prev hprev
      exact ⟨sth, hset, hserv.le_of_calculated hpos hprev h0 h31⟩

/-- Over a run whose node states report bounded STHs, the calculated serving
STH, once set, is never unset and its tree size never decreases. -/
theorem run_bounded :
    ∀ (events : List Event) (s s' : State), Bounded s →
      (∀ e ∈ events, ∀ r ∈ e.reported, BoundedReport r) → run s events = .ok s' →
      Bounded s' ∧ ∀ prev ∈ s.calculatedServingSth, ∃ sth ∈ s'.calculatedServingSth,
        prev.treeSize ≤ sth.treeSize
  | [], s, s', hs, _, h => by
    cases h
    exact ⟨hs, fun prev hprev => ⟨prev, hprev, le_rfl⟩⟩
  | e :: rest, s, s', hs, hevents, h => by
    rw [run, foldlM_cons] at h
    obtain ⟨s₁, h₁, hrest⟩ := except_bind_eq_ok.mp h
    obtain ⟨hs₁, hmono₁⟩ := step_bounded hs (hevents e mem_cons_self) h₁
    obtain ⟨hs', hmono⟩ := run_bounded rest s₁ s' hs₁
      (fun e' he' => hevents e' (mem_cons_of_mem _ he')) hrest
    refine ⟨hs', fun prev hprev => ?_⟩
    obtain ⟨sth₁, hsth₁, hle₁⟩ := hmono₁ prev hprev
    obtain ⟨sth, hsth, hle⟩ := hmono sth₁ hsth₁
    exact ⟨sth, hsth, le_trans hle₁ hle⟩

end Bounded

/-- From a calculated STH of tree size `3` and no peers, a configuration and
then a node reporting tree size `5` move the calculated STH up to that node's. -/
theorem run_bounded_one_node :
    let s : State := { calculatedServingSth := some { timestamp := 1, treeSize := 3 } }
    let events : List Event :=
      [.clusterConfigUpdated (some { minimumServingNodes := 1, minimumServingFraction := 1 / 2 }),
        .clusterStateUpdated
          [("/nodes/node1", some { newestSth := some { timestamp := 2, treeSize := 5 } })]]
    ∃ s', run s events = .ok s' ∧ s'.calculatedServingSth = some { timestamp := 2, treeSize := 5 } ∧
      Bounded s' ∧ ∀ prev ∈ s.calculatedServingSth, ∃ sth ∈ s'.calculatedServingSth,
        prev.treeSize ≤ sth.treeSize := by
  intro s events
  have hrun : run s events = .ok
      { clusterConfig := { minimumServingNodes := 1, minimumServingFraction := 1 / 2 },
        allPeers := [⟨"/nodes/node1", { newestSth := some { timestamp := 2, treeSize := 5 } }⟩],
        calculatedServingSth := some { timestamp := 2, treeSize := 5 } } := by
    decide +kernel
  have hs : Bounded s := ⟨fun r hr => by simp [s, reports] at hr, fun sth hsth => by
    simp only [s, Option.mem_some_iff] at hsth
    subst hsth
    decide⟩
  have hevents : ∀ e ∈ events, ∀ r ∈ e.reported, BoundedReport r := by
    simp [events, Event.reported, BoundedReport]
  exact ⟨_, hrun, rfl, run_bounded events s _ hs hevents hrun⟩

/-- Runs of a fresh controller with `minimum_serving_nodes = 1` and
`minimum_serving_fraction = 0.5`.  With an actual serving STH of tree size 10
and timestamp 5, a node reporting tree size 3 at timestamp 7 gets its STH
calculated, and the master's push of it to a store serving that STH fails the
`CHECK_LE` of `SetServingSTH`.  After a calculated STH of tree size `2^32 + 5`,
read as the `int` 5, a report of tree size 10 is calculated.  A report of tree
size 7 at timestamp 0 makes the default STH, of tree size 0 and reported by no
node, the calculated one.  After a calculated STH of tree size `2^31`, read as
a negative `int`, the next node update fails `CHECK_LE(0, current_tree_size)`. -/
theorem calculateServingSTH_selects_smaller_sth :
    (run {} [.masterChanged true, .servingSthUpdated (some { timestamp := 5, treeSize := 10 }),
        .clusterConfigUpdated (some { minimumServingNodes := 1, minimumServingFraction := 1 / 2 }),
        .clusterStateUpdated
          [("/nodes/node1", some { newestSth := some { timestamp := 7, treeSize := 3 } })]]).map
      (fun s => (s.calculatedServingSth, s.actualServingSth)) =
      .ok (some { timestamp := 7, treeSize := 3 }, some { timestamp := 5, treeSize := 10 }) ∧
    (run {} [.masterChanged true, .servingSthUpdated (some { timestamp := 5, treeSize := 10 }),
        .clusterConfigUpdated (some { minimumServingNodes := 1, minimumServingFraction := 1 / 2 }),
        .clusterStateUpdated
          [("/nodes/node1", some { newestSth := some { timestamp := 7, treeSize := 3 } })]] >>=
      fun s => clusterServingSTHUpdater s ⟨[], [], some { timestamp := 5, treeSize := 10 }⟩) =
      .error "Check failed: serving_sth_->Entry().tree_size() <= new_sth.tree_size()" ∧
    (run {} [.clusterConfigUpdated (some { minimumServingNodes := 1, minimumServingFraction := 1 / 2 }),
        .clusterStateUpdated
          [("/nodes/node1", some { newestSth := some { timestamp := 1, treeSize := 2 ^ 32 + 5 } })]]).map
      (·.calculatedServingSth) = .ok (some { timestamp := 1, treeSize := 2 ^ 32 + 5 }) ∧
    (run {} [.clusterConfigUpdated (some { minimumServingNodes := 1, minimumServingFraction := 1 / 2 }),
        .clusterStateUpdated
          [("/nodes/node1", some { newestSth := some { timestamp := 1, treeSize := 2 ^ 32 + 5 } })],
        .clusterStateUpdated
          [("/nodes/node1", some { newestSth := some { timestamp := 2, treeSize := 10 } })]]).map
      (·.calculatedServingSth) = .ok (some { timestamp := 2, treeSize := 10 }) ∧
    (run {} [.clusterConfigUpdated (some { minimumServingNodes := 1, minimumServingFraction := 1 / 2 }),
        .clusterStateUpdated
          [("/nodes/node1", some { newestSth := some { timestamp := 0, treeSize := 7 } })]]).map
      (·.calculatedServingSth) = .ok (some {}) ∧
    (run {} [.clusterConfigUpdated (some { minimumServingNodes := 1, minimumServingFraction := 1 / 2 }),
        .clusterStateUpdated
          [("/nodes/node1", some { newestSth := some { timestamp := 1, treeSize := 2 ^ 31 } })],
        .clusterStateUpdated
          [("/nodes/node1", some { newestSth := some { timestamp := 2, treeSize := 2 ^ 31 } })]]).map
      (·.calculatedServingSth) = .error "Check failed: 0 <= current_tree_size" := by
  refine ⟨?_, ?_, ?_, ?_, ?_, ?_⟩ <;> decide +kernel

end CertTrans.ClusterStateController
