import Mathlib

/-!
A `std::map` held as its entries in strictly increasing order of key, so that
iterating it, forwards or backwards, is iterating the list or its reverse.

`alterD k d f` is `m[k] = f(m[k])`, where `operator[]` first makes a missing
entry `d`; erasing is Mathlib's `List.kerase`.  Both keep the entries sorted,
and a lookup after either is known from the lookup before.
-/

namespace CertTrans.Keyed

open List

variable {κ α : Type*} [LinearOrder κ]

def Sorted (l : List (Σ _ : κ, α)) : Prop :=
  l.Pairwise fun a b => a.1 < b.1

theorem Sorted.nodupKeys {l : List (Σ _ : κ, α)} (h : Sorted l) : l.NodupKeys :=
  nodupKeys_iff_pairwise.mpr (h.imp ne_of_lt)

theorem sorted_nil : Sorted ([] : List (Σ _ : κ, α)) := Pairwise.nil

/-- `m[k] = f(m[k])`, with a missing entry first set to `d`. -/
def alterD (k : κ) (d : α) (f : α → α) : List (Σ _ : κ, α) → List (Σ _ : κ, α)
  | [] => [⟨k, f d⟩]
  | ⟨k', v⟩ :: rest =>
      if k < k' then ⟨k, f d⟩ :: ⟨k', v⟩ :: rest
      else if k = k' then ⟨k, f v⟩ :: rest
      else ⟨k', v⟩ :: alterD k d f rest

section Alter

variable {k k' : κ} {d : α} {f : α → α}

theorem dlookup_cons_of_ne {v : α} {l : List (Σ _ : κ, α)} (hne : k' ≠ k) :
    (⟨k, v⟩ :: l : List (Σ _ : κ, α)).dlookup k' = l.dlookup k' :=
  dlookup_cons_ne l (⟨k, v⟩ : Σ _ : κ, α) hne

theorem mem_keys_alterD {l : List (Σ _ : κ, α)} :
    k' ∈ (alterD k d f l).keys ↔ k' = k ∨ k' ∈ l.keys := by
  induction l with
  | nil => simp [alterD]
  | cons e rest ih =>
    obtain ⟨k₀, v⟩ := e
    rw [alterD]
    split_ifs with hlt heq
    · simp
    · subst heq
      simp
    · simp only [keys_cons, mem_cons, ih]
      tauto

theorem mem_alterD {e : Σ _ : κ, α} {l : List (Σ _ : κ, α)} (he : e ∈ alterD k d f l) :
    e ∈ l ∨ e.1 = k ∧ ∃ v, e.2 = f v := by
  induction l with
  | nil =>
    rw [alterD, mem_singleton] at he
    subst he
    exact Or.inr ⟨rfl, d, rfl⟩
  | cons e' rest ih =>
    obtain ⟨k₀, v⟩ := e'
    rw [alterD] at he
    split_ifs at he with hlt heq
    · rcases mem_cons.mp he with rfl | he
      · exact Or.inr ⟨rfl, d, rfl⟩
      · exact Or.inl he
    · rcases mem_cons.mp he with rfl | he
      · exact Or.inr ⟨rfl, v, rfl⟩
      · exact Or.inl (mem_cons_of_mem _ he)
    · rcases mem_cons.mp he with rfl | he
      · exact Or.inl mem_cons_self
      · rcases ih he with he | he
        · exact Or.inl (mem_cons_of_mem _ he)
        · exact Or.inr he

theorem Sorted.alterD {l : List (Σ _ : κ, α)} (h : Sorted l) : Sorted (alterD k d f l) := by
  induction l with
  | nil => exact pairwise_singleton _ _
  | cons e rest ih =>
    obtain ⟨k₀, v⟩ := e
    have hrest : Sorted rest := h.of_cons
    have hhead : ∀ e ∈ rest, k₀ < e.1 := fun e he => rel_of_pairwise_cons h he
    rw [CertTrans.Keyed.alterD]
    split_ifs with hlt heq
    · refine h.cons fun e he => ?_
      rcases mem_cons.mp he with rfl | he
      · exact hlt
      · exact lt_trans hlt (hhead e he)
    · subst heq
      exact hrest.cons hhead
    · refine (ih hrest).cons fun e he => ?_
      have hkey : e.1 ∈ (CertTrans.Keyed.alterD k d f rest).keys := mem_keys.mpr ⟨e.2, he⟩
      rcases mem_keys_alterD.mp hkey with hk | hk
      · rw [hk]
        exact lt_of_le_of_ne (not_lt.mp hlt) (Ne.symm heq)
      · obtain ⟨v', hv'⟩ := mem_keys.mp hk
        exact hhead ⟨e.1, v'⟩ hv'

theorem dlookup_alterD_ne (hne : k' ≠ k) (l : List (Σ _ : κ, α)) :
    (alterD k d f l).dlookup k' = l.dlookup k' := by
  induction l with
  | nil =>
    rw [alterD, dlookup_cons_of_ne hne]
  | cons e rest ih =>
    obtain ⟨k₀, v⟩ := e
    rw [alterD]
    split_ifs with hlt heq
    · exact dlookup_cons_of_ne hne
    · subst heq
      rw [dlookup_cons_of_ne hne, dlookup_cons_of_ne hne]
    · by_cases hk : k' = k₀
      · subst hk
        rw [dlookup_cons_eq, dlookup_cons_eq]
      · rw [dlookup_cons_of_ne hk, dlookup_cons_of_ne hk, ih]

theorem dlookup_alterD_self {l : List (Σ _ : κ, α)} (h : Sorted l) :
    (alterD k d f l).dlookup k = some (f ((l.dlookup k).getD d)) := by
  induction l with
  | nil => simp [alterD]
  | cons e rest ih =>
    obtain ⟨k₀, v⟩ := e
    rw [alterD]
    split_ifs with hlt heq
    · have hnone : (⟨k₀, v⟩ :: rest : List (Σ _ : κ, α)).dlookup k = none := by
        rw [dlookup_eq_none, keys_cons, mem_cons]
        rintro (hk | hk)
        · exact absurd hk (ne_of_lt hlt)
        · obtain ⟨v', hv'⟩ := mem_keys.mp hk
          exact absurd (rel_of_pairwise_cons h hv') (not_lt.mpr (le_of_lt hlt))
      rw [dlookup_cons_eq, hnone]
      rfl
    · subst heq
      rw [dlookup_cons_eq, dlookup_cons_eq]
      rfl
    · rw [dlookup_cons_of_ne heq, dlookup_cons_of_ne heq, ih h.of_cons]

end Alter

end CertTrans.Keyed
