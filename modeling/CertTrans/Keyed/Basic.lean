import Mathlib.Order.ConditionallyCompleteLattice.Basic
import Mathlib.Order.Lattice.Nat
import Mathlib.Data.Finset.Basic
import Mathlib.Data.List.Pairwise

/-!
Partial maps keyed by natural numbers, as a store keeps them.

The set of used keys is kept as a run from zero, whose end is the least key
not used, and the used keys past it (`RunEncodes`); adding the key at the end
of the run moves the run on over the keys past it (`Draining`).  The entries
from a key on, in increasing order of key, are determined by the map
(`SortedFrom`).  A run of a fallible step that, from every state in an
invariant, succeeds and moves an abstract state by a total step, succeeds over
any list of operations and ends in the abstract state of the whole list
(`foldlM_simulates`); an invariant that each successful step keeps holds after
each successful run (`foldlM_invariant`).
-/

namespace CertTrans.Keyed

theorem eq_empty_of_forall_not_isLeast {s : Set ℕ} (h : ∀ k, ¬ IsLeast s k) : s = ∅ := by
  by_contra hne
  exact h _ (isLeast_csInf (Set.nonempty_iff_ne_empty.mpr hne))

theorem isLeast_find {p : ℕ → Prop} [DecidablePred p] (h : ∃ k, p k) :
    IsLeast {k | p k} (Nat.find h) :=
  ⟨Nat.find_spec h, fun _ hk => Nat.find_min' h hk⟩

/-- `(c, sparse)` encodes the set `s`: `c` is the least number not in `s`, and
`sparse` holds the members of `s` past `c`. -/
structure RunEncodes (s : Set ℕ) (c : ℕ) (sparse : Finset ℕ) : Prop where
  isLeast_compl : IsLeast sᶜ c
  mem_sparse : ∀ k, k ∈ sparse ↔ k ∈ s ∧ c < k

structure Draining (s : Set ℕ) (c : ℕ) (sparse : Finset ℕ) : Prop where
  mem_of_lt : ∀ k < c, k ∈ s
  mem_sparse : ∀ k, k ∈ sparse ↔ k ∈ s ∧ c ≤ k

variable {s : Set ℕ} {c a : ℕ} {sparse : Finset ℕ}

namespace RunEncodes

theorem empty : RunEncodes ∅ 0 ∅ :=
  ⟨⟨Set.notMem_empty 0, fun k _ => Nat.zero_le k⟩, fun k => by simp⟩

theorem not_mem (h : RunEncodes s c sparse) : c ∉ s := h.isLeast_compl.1

theorem le_of_not_mem (h : RunEncodes s c sparse) {k : ℕ} (hk : k ∉ s) : c ≤ k :=
  h.isLeast_compl.2 hk

theorem mem_of_lt (h : RunEncodes s c sparse) {k : ℕ} (hk : k < c) : k ∈ s := by
  by_contra hks
  exact absurd (h.le_of_not_mem hks) (Nat.not_le.mpr hk)

theorem insert_of_ne (h : RunEncodes s c sparse) (ha : a ∉ s) (hne : a ≠ c) :
    RunEncodes (insert a s) c (insert a sparse) := by
  have hlt : c < a := lt_of_le_of_ne (h.le_of_not_mem ha) (Ne.symm hne)
  refine ⟨⟨?_, fun k hk => h.le_of_not_mem fun hks => hk (Set.mem_insert_of_mem a hks)⟩, ?_⟩
  · simp only [Set.mem_compl_iff, Set.mem_insert_iff, not_or]
    exact ⟨Ne.symm hne, h.not_mem⟩
  · intro k
    rw [Finset.mem_insert, h.mem_sparse, Set.mem_insert_iff]
    constructor
    · rintro (rfl | ⟨hk, hck⟩)
      · exact ⟨.inl rfl, hlt⟩
      · exact ⟨.inr hk, hck⟩
    · rintro ⟨rfl | hk, hck⟩
      · exact .inl rfl
      · exact .inr ⟨hk, hck⟩

theorem draining_insert (h : RunEncodes s c sparse) : Draining (insert c s) (c + 1) sparse := by
  refine ⟨fun k hk => ?_, fun k => ?_⟩
  · rcases Nat.lt_succ_iff_lt_or_eq.mp hk with hk | rfl
    · exact Set.mem_insert_of_mem c (h.mem_of_lt hk)
    · exact Set.mem_insert k s
  · rw [h.mem_sparse, Set.mem_insert_iff]
    constructor
    · rintro ⟨hk, hck⟩
      exact ⟨.inr hk, hck⟩
    · rintro ⟨rfl | hk, hck⟩
      · omega
      · exact ⟨hk, hck⟩

end RunEncodes

namespace Draining

theorem erase (h : Draining s c sparse) (hc : c ∈ sparse) :
    Draining s (c + 1) (sparse.erase c) := by
  refine ⟨fun k hk => ?_, fun k => ?_⟩
  · rcases Nat.lt_succ_iff_lt_or_eq.mp hk with hk | rfl
    · exact h.mem_of_lt k hk
    · exact ((h.mem_sparse k).mp hc).1
  · rw [Finset.mem_erase, h.mem_sparse]
    constructor
    · rintro ⟨hne, hk, hck⟩
      exact ⟨hk, by omega⟩
    · rintro ⟨hk, hck⟩
      exact ⟨by omega, hk, by omega⟩

theorem runEncodes (h : Draining s c sparse) (hc : c ∉ sparse) : RunEncodes s c sparse := by
  have hcs : c ∉ s := fun hcs => hc ((h.mem_sparse c).mpr ⟨hcs, le_rfl⟩)
  refine ⟨⟨hcs, fun k hk => ?_⟩, fun k => ?_⟩
  · by_contra hlt
    exact hk (h.mem_of_lt k (Nat.lt_of_not_le hlt))
  · rw [h.mem_sparse]
    constructor
    · rintro ⟨hk, hck⟩
      exact ⟨hk, lt_of_le_of_ne hck fun hkc => hcs (hkc ▸ hk)⟩
    · rintro ⟨hk, hck⟩
      exact ⟨hk, le_of_lt hck⟩

end Draining

section SortedFrom

variable {α : Type*} {get : ℕ → Option α} {n i : ℕ} {v : α} {l l₁ l₂ : List (Σ _ : ℕ, α)}

/-- `l` lists the entries of `get` from the key `n` on, in increasing order of key. -/
def SortedFrom (get : ℕ → Option α) (n : ℕ) (l : List (Σ _ : ℕ, α)) : Prop :=
  l.Pairwise (fun a b => a.1 < b.1) ∧ ∀ x, x ∈ l ↔ n ≤ x.1 ∧ get x.1 = some x.2

theorem SortedFrom.nil (h : ∀ k, n ≤ k → get k = none) : SortedFrom get n [] := by
  refine ⟨List.Pairwise.nil, fun x => ?_⟩
  simp only [List.not_mem_nil, false_iff, not_and]
  intro hx
  simp [h x.1 hx]

theorem SortedFrom.cons (hleast : IsLeast {k | n ≤ k ∧ (get k).isSome} i) (hget : get i = some v)
    (hrest : SortedFrom get (i + 1) l) : SortedFrom get n (⟨i, v⟩ :: l) := by
  refine ⟨List.pairwise_cons.mpr ⟨fun x hx => ?_, hrest.1⟩, fun x => ?_⟩
  · exact ((hrest.2 x).mp hx).1
  · rw [List.mem_cons, hrest.2 x]
    constructor
    · rintro (rfl | ⟨hx, hgetx⟩)
      · exact ⟨hleast.1.1, hget⟩
      · exact ⟨le_trans hleast.1.1 (Nat.le_of_succ_le hx), hgetx⟩
    · rintro ⟨hx, hgetx⟩
      have hle : i ≤ x.1 := hleast.2 ⟨hx, by simp [hgetx]⟩
      rcases Nat.lt_or_eq_of_le hle with hlt | heq
      · exact .inr ⟨hlt, hgetx⟩
      · obtain ⟨k, w⟩ := x
        subst heq
        rw [hget, Option.some_inj] at hgetx
        exact .inl (by rw [hgetx])

theorem SortedFrom.isLeast_head (h : SortedFrom get n (⟨i, v⟩ :: l)) :
    IsLeast {k | n ≤ k ∧ (get k).isSome} i ∧ get i = some v := by
  have hi := (h.2 ⟨i, v⟩).mp List.mem_cons_self
  refine ⟨⟨⟨hi.1, by simp [hi.2]⟩, ?_⟩, hi.2⟩
  rintro k ⟨hk, hget⟩
  obtain ⟨w, hw⟩ := Option.isSome_iff_exists.mp hget
  rcases List.mem_cons.mp ((h.2 ⟨k, w⟩).mpr ⟨hk, hw⟩) with heq | hmem
  · exact (congrArg Sigma.fst heq).ge
  · exact le_of_lt ((List.pairwise_cons.mp h.1).1 _ hmem)

theorem SortedFrom.tail (h : SortedFrom get n (⟨i, v⟩ :: l)) : SortedFrom get (i + 1) l := by
  obtain ⟨hlt, hpw⟩ := List.pairwise_cons.mp h.1
  have hni : n ≤ i := ((h.2 ⟨i, v⟩).mp List.mem_cons_self).1
  refine ⟨hpw, fun x => ⟨fun hx => ⟨hlt x hx, ((h.2 x).mp (List.mem_cons_of_mem _ hx)).2⟩, ?_⟩⟩
  rintro ⟨hx, hget⟩
  rcases List.mem_cons.mp ((h.2 x).mpr ⟨by omega, hget⟩) with rfl | hmem
  · exact absurd hx (Nat.not_succ_le_self i)
  · exact hmem

theorem SortedFrom.eq_none_of_cons (h : SortedFrom get n (⟨i, v⟩ :: l)) (hne : i ≠ n) :
    get n = none := by
  cases hn : get n with
  | none => rfl
  | some w =>
    have hle := h.isLeast_head.1.2 ⟨le_rfl, by simp [hn]⟩
    exact absurd (le_antisymm hle h.isLeast_head.1.1.1) hne

end SortedFrom

section ConsecutiveFrom

variable {α : Type*}

def consecutiveFrom (get : ℕ → Option α) (n : ℕ) : ℕ → List α
  | 0 => []
  | count + 1 =>
      match get n with
      | none => []
      | some v => v :: consecutiveFrom get (n + 1) count

variable {get : ℕ → Option α} {n : ℕ}

theorem consecutiveFrom_of_none (h : get n = none) (count : ℕ) :
    consecutiveFrom get n count = [] := by
  cases count with
  | zero => rfl
  | succ count => simp [consecutiveFrom, h]

theorem consecutiveFrom_succ_of_some {v : α} (h : get n = some v) (count : ℕ) :
    consecutiveFrom get n (count + 1) = v :: consecutiveFrom get (n + 1) count := by
  simp [consecutiveFrom, h]

theorem length_consecutiveFrom (h : ∀ k, n ≤ k → k < n + count → (get k).isSome) :
    (consecutiveFrom get n count).length = count := by
  induction count generalizing n with
  | zero => rfl
  | succ count ih =>
    obtain ⟨v, hv⟩ := Option.isSome_iff_exists.mp (h n le_rfl (by omega))
    rw [consecutiveFrom_succ_of_some hv, List.length_cons,
      ih fun k hk hlt => h k (by omega) (by omega)]

end ConsecutiveFrom

theorem any_eq_false_of_not_mem_map {α β : Type*} [DecidableEq β] {l : List α} {f : α → β} {x : β}
    (h : x ∉ l.map f) : l.any (fun e => decide (f e = x)) = false := by
  rw [List.any_eq_false]
  intro e he hfe
  exact h (List.mem_map.mpr ⟨e, he, of_decide_eq_true hfe⟩)

section Simulation

variable {σ τ α ε : Type*} {step : σ → α → Except ε σ} {abs : σ → τ} {astep : τ → α → τ}
  {Inv : σ → Prop} {Pre : α → Prop}

theorem foldlM_simulates
    (hstep : ∀ s a, Inv s → Pre a → ∃ s', step s a = .ok s' ∧ Inv s' ∧ abs s' = astep (abs s) a)
    (ops : List α) (hops : ∀ a ∈ ops, Pre a) {s : σ} (hs : Inv s) :
    ∃ s', ops.foldlM step s = .ok s' ∧ Inv s' ∧ abs s' = ops.foldl astep (abs s) := by
  induction ops generalizing s with
  | nil => exact ⟨s, rfl, hs, rfl⟩
  | cons a ops ih =>
    obtain ⟨s₁, hstep₁, hinv₁, habs₁⟩ := hstep s a hs (hops a List.mem_cons_self)
    obtain ⟨s', hrun, hinv', habs'⟩ := ih (fun a ha => hops a (List.mem_cons_of_mem _ ha)) hinv₁
    refine ⟨s', ?_, hinv', ?_⟩
    · rw [List.foldlM_cons, hstep₁]
      exact hrun
    · rw [habs', habs₁, List.foldl_cons]

theorem foldlM_invariant (hstep : ∀ s a s', Inv s → step s a = .ok s' → Inv s') :
    ∀ (ops : List α) {s s' : σ}, Inv s → ops.foldlM step s = .ok s' → Inv s'
  | [], _, _, hs, hrun => by
    cases hrun
    exact hs
  | a :: ops, s, _, hs, hrun => by
    rw [List.foldlM_cons] at hrun
    cases h₁ : step s a with
    | error e =>
      rw [h₁] at hrun
      cases hrun
    | ok s₁ =>
      rw [h₁] at hrun
      exact foldlM_invariant hstep ops (hstep s a s₁ hs h₁) hrun

theorem foldlM_history_invariant {I : List α → σ → Prop}
    (hstep : ∀ hist s a s', I hist s → step s a = .ok s' → I (hist ++ [a]) s') :
    ∀ (ops : List α) {hist : List α} {s s' : σ}, I hist s → ops.foldlM step s = .ok s' →
      I (hist ++ ops) s'
  | [], _, _, _, hs, hrun => by
    cases hrun
    simpa using hs
  | a :: ops, hist, s, _, hs, hrun => by
    rw [List.foldlM_cons] at hrun
    cases h₁ : step s a with
    | error e =>
      rw [h₁] at hrun
      cases hrun
    | ok s₁ =>
      rw [h₁] at hrun
      have h := foldlM_history_invariant hstep ops (hstep hist s a s₁ hs h₁) hrun
      rwa [List.append_assoc, List.singleton_append] at h

end Simulation

end CertTrans.Keyed
