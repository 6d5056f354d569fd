import Mathlib.Algebra.Order.Floor.Div
import Mathlib.Algebra.BigOperators.Group.List.Basic

/-!
Lists laid out one element after the other, each `a` taking `size a` places from where the one
before it ends, as a list of ranges covers the run of indices it describes.

`ForallOffsets size P o l` says `P` of each element and the place it starts at.  With a weight
in place of the size it bounds what comes before each marked element: that is a budget of
marked elements along the list (`ForallOffsets.countP_le`).  `locate key size k l` finds the
first element with key `k` and its place; it does not move when a segment that does not hold
the key is replaced by one of the same total size (`locate_replace`).  Both survive the
replacement of a segment by one of no greater total size where `P` only asks for room
(`ForallOffsets.replace`).
-/

namespace CertTrans.Keyed

variable {α κ : Type*} (size : α → ℕ)

/-- `P o a` for each element `a` of the list and the place `o` it starts at, the list laid out
from the place given. -/
def ForallOffsets (P : ℕ → α → Prop) : ℕ → List α → Prop
  | _, [] => True
  | o, a :: l => P o a ∧ ForallOffsets P (o + size a) l

variable {size} {P Q : ℕ → α → Prop} {o o' : ℕ} {a : α} {l l₁ l₂ : List α}

@[simp] theorem forallOffsets_nil : ForallOffsets size P o [] := trivial

@[simp] theorem forallOffsets_cons :
    ForallOffsets size P o (a :: l) ↔ P o a ∧ ForallOffsets size P (o + size a) l := Iff.rfl

theorem forallOffsets_append :
    ForallOffsets size P o (l₁ ++ l₂) ↔
      ForallOffsets size P o l₁ ∧ ForallOffsets size P (o + (l₁.map size).sum) l₂ := by
  induction l₁ generalizing o with
  | nil => simp
  | cons a l₁ ih =>
    rw [List.cons_append, forallOffsets_cons, forallOffsets_cons, ih, List.map_cons,
      List.sum_cons, Nat.add_assoc, and_assoc]

theorem ForallOffsets.imp (h : ∀ o a, P o a → Q o a) :
    ∀ {o : ℕ} {l : List α}, ForallOffsets size P o l → ForallOffsets size Q o l
  | _, [], _ => trivial
  | _, _ :: _, ⟨ha, hl⟩ => ⟨h _ _ ha, ForallOffsets.imp h hl⟩

theorem ForallOffsets.imp_of_mem :
    ∀ {o : ℕ} {l : List α}, (∀ o, ∀ a ∈ l, P o a → Q o a) → ForallOffsets size P o l →
      ForallOffsets size Q o l
  | _, [], _, _ => trivial
  | _, _ :: _, h, ⟨ha, hl⟩ =>
    ⟨h _ _ List.mem_cons_self ha,
      ForallOffsets.imp_of_mem (fun o b hb => h o b (List.mem_cons_of_mem _ hb)) hl⟩

theorem ForallOffsets.of_forall :
    ∀ {o : ℕ} {l : List α}, (∀ o, ∀ a ∈ l, P o a) → ForallOffsets size P o l
  | _, [], _ => trivial
  | _, _ :: _, h =>
    ⟨h _ _ List.mem_cons_self, ForallOffsets.of_forall fun o b hb => h o b (List.mem_cons_of_mem _ hb)⟩

theorem ForallOffsets.and :
    ∀ {o : ℕ} {l : List α}, ForallOffsets size P o l → ForallOffsets size Q o l →
      ForallOffsets size (fun o a => P o a ∧ Q o a) o l
  | _, [], _, _ => trivial
  | _, _ :: _, ⟨hp, hl⟩, ⟨hq, hl'⟩ => ⟨⟨hp, hq⟩, ForallOffsets.and hl hl'⟩

theorem ForallOffsets.exists_of_mem :
    ∀ {o : ℕ} {l : List α}, ForallOffsets size P o l → ∀ a ∈ l, ∃ o', P o' a
  | _, [], _, _, ha => by cases ha
  | o, b :: l, ⟨hb, hl⟩, a, ha => by
    rcases List.mem_cons.mp ha with rfl | ha
    · exact ⟨o, hb⟩
    · exact ForallOffsets.exists_of_mem hl a ha

theorem mem_or_mem_of_mem_replace {pre ys post : List α} {a b : α} (hb : b ∈ pre ++ ys ++ post) :
    b ∈ ys ∨ b ∈ pre ++ a :: post := by
  simp only [List.mem_append, List.mem_cons] at hb ⊢
  tauto

def Antitone (P : ℕ → α → Prop) : Prop := ∀ o o' a, o' ≤ o → P o a → P o' a

theorem ForallOffsets.anti (hP : Antitone P) :
    ∀ {o o' : ℕ} {l : List α}, o' ≤ o → ForallOffsets size P o l → ForallOffsets size P o' l
  | _, _, [], _, _ => trivial
  | _, _, _ :: _, ho, ⟨ha, hl⟩ => ⟨hP _ _ _ ho ha, ForallOffsets.anti hP (by omega) hl⟩

theorem ForallOffsets.replace (hP : Antitone P) {pre xs ys post : List α}
    (h : ForallOffsets size P o (pre ++ xs ++ post))
    (hys : ForallOffsets size P (o + (pre.map size).sum) ys)
    (hsum : (ys.map size).sum ≤ (xs.map size).sum) :
    ForallOffsets size P o (pre ++ ys ++ post) := by
  rw [forallOffsets_append, forallOffsets_append] at h ⊢
  obtain ⟨⟨hpre, -⟩, hpost⟩ := h
  refine ⟨⟨hpre, hys⟩, hpost.anti hP ?_⟩
  simp only [List.map_append, List.sum_append]
  omega

theorem ForallOffsets.replace_of_eq {pre xs ys post : List α}
    (h : ForallOffsets size P o (pre ++ xs ++ post))
    (hys : ForallOffsets size P (o + (pre.map size).sum) ys)
    (hsum : (ys.map size).sum = (xs.map size).sum) :
    ForallOffsets size P o (pre ++ ys ++ post) := by
  rw [forallOffsets_append, forallOffsets_append] at h ⊢
  obtain ⟨⟨hpre, -⟩, hpost⟩ := h
  refine ⟨⟨hpre, hys⟩, ?_⟩
  simp only [List.map_append, List.sum_append, hsum] at hpost ⊢
  exact hpost

theorem ForallOffsets.forall_lt {S : ℕ → Prop} :
    ∀ {o : ℕ} {l : List α}, ForallOffsets size (fun o a => ∀ i, o ≤ i → i < o + size a → S i) o l →
      ∀ i, o ≤ i → i < o + (l.map size).sum → S i
  | _, [], _, i, h₁, h₂ => by simp at h₂; omega
  | o, a :: l, ⟨ha, hl⟩, i, h₁, h₂ => by
    rw [List.map_cons, List.sum_cons] at h₂
    by_cases hi : i < o + size a
    · exact ha i h₁ hi
    · exact ForallOffsets.forall_lt hl i (by omega) (by omega)

theorem ForallOffsets.countP_le {w : α → ℕ} {p : α → Bool} (hw : ∀ a, p a → 1 ≤ w a) :
    ∀ {budget o : ℕ} {l : List α},
      ForallOffsets w (fun o a => p a → o < budget) o l → l.countP p ≤ budget - o
  | _, _, [], _ => by simp
  | budget, o, a :: l, ⟨ha, hl⟩ => by
    have ih := ForallOffsets.countP_le hw hl
    rw [List.countP_cons]
    by_cases hpa : p a
    · have := ha hpa
      have := hw a hpa
      simp only [hpa, if_true]
      omega
    · simp only [hpa, Bool.false_eq_true, if_false]
      omega

variable [DecidableEq κ] (key : α → κ)

def locate (size : α → ℕ) (k : κ) : List α → Option (ℕ × α)
  | [] => none
  | a :: l => if key a = k then some (0, a) else (locate size k l).map fun x => (size a + x.1, x.2)

variable {key} {k : κ}

theorem locate_cons_of_eq (h : key a = k) : locate key size k (a :: l) = some (0, a) := by
  rw [locate, if_pos h]

theorem locate_cons_of_ne (h : key a ≠ k) :
    locate key size k (a :: l) = (locate key size k l).map fun x => (size a + x.1, x.2) := by
  rw [locate, if_neg h]

theorem locate_append_of_forall_ne (h : ∀ a ∈ l₁, key a ≠ k) :
    locate key size k (l₁ ++ l₂) =
      (locate key size k l₂).map fun x => ((l₁.map size).sum + x.1, x.2) := by
  induction l₁ with
  | nil => simp
  | cons a l₁ ih =>
    rw [List.cons_append, locate_cons_of_ne (h a List.mem_cons_self),
      ih fun b hb => h b (List.mem_cons_of_mem a hb), Option.map_map]
    congr 1
    funext x
    simp only [Function.comp, List.map_cons, List.sum_cons, Nat.add_assoc]

theorem locate_cons_of_ne_of_eq_some {x : ℕ × α} (ha : key a ≠ k)
    (h : locate key size k l = some x) : locate key size k (a :: l) = some (size a + x.1, x.2) := by
  rw [locate_cons_of_ne ha, h, Option.map_some]

theorem locate_of_locate_cons_of_ne {x : ℕ × α} (ha : key a ≠ k)
    (h : locate key size k (a :: l) = some x) :
    ∃ o', locate key size k l = some (o', x.2) ∧ x.1 = size a + o' := by
  rw [locate_cons_of_ne ha, Option.map_eq_some_iff] at h
  obtain ⟨y, hy, rfl⟩ := h
  exact ⟨y.1, hy, rfl⟩

theorem locate_eq_none : ∀ {l : List α}, (∀ a ∈ l, key a ≠ k) → locate key size k l = none
  | [], _ => rfl
  | a :: l, h => by
    rw [locate_cons_of_ne (h a List.mem_cons_self),
      locate_eq_none fun b hb => h b (List.mem_cons_of_mem a hb), Option.map_none]

theorem locate_append_of_locate_eq_some {x : ℕ × α} (h : locate key size k l₁ = some x) :
    locate key size k (l₁ ++ l₂) = some x := by
  induction l₁ generalizing x with
  | nil => cases h
  | cons a l₁ ih =>
    by_cases ha : key a = k
    · rw [locate_cons_of_eq ha] at h
      rw [List.cons_append, locate_cons_of_eq ha, h]
    · rw [locate_cons_of_ne ha, Option.map_eq_some_iff] at h
      obtain ⟨y, hy, rfl⟩ := h
      rw [List.cons_append, locate_cons_of_ne ha, ih hy, Option.map_some]

theorem key_of_locate_eq_some {x : ℕ × α} :
    ∀ {l : List α}, locate key size k l = some x → key x.2 = k
  | [], h => by cases h
  | a :: l, h => by
    by_cases ha : key a = k
    · rw [locate_cons_of_eq ha] at h
      cases h
      exact ha
    · rw [locate_cons_of_ne ha, Option.map_eq_some_iff] at h
      obtain ⟨y, hy, rfl⟩ := h
      exact key_of_locate_eq_some (x := y) hy

theorem mem_of_locate_eq_some {x : ℕ × α} :
    ∀ {l : List α}, locate key size k l = some x → x.2 ∈ l
  | [], h => by cases h
  | a :: l, h => by
    by_cases ha : key a = k
    · rw [locate_cons_of_eq ha] at h
      cases h
      exact List.mem_cons_self
    · rw [locate_cons_of_ne ha, Option.map_eq_some_iff] at h
      obtain ⟨y, hy, rfl⟩ := h
      exact List.mem_cons_of_mem a (mem_of_locate_eq_some (x := y) hy)

theorem locate_eq_none_iff : locate key size k l = none ↔ ∀ a ∈ l, key a ≠ k := by
  refine ⟨fun h a ha hk => ?_, locate_eq_none⟩
  induction l with
  | nil => cases ha
  | cons b l ih =>
    by_cases hb : key b = k
    · rw [locate_cons_of_eq hb] at h
      cases h
    · rw [locate_cons_of_ne hb, Option.map_eq_none_iff] at h
      rcases List.mem_cons.mp ha with rfl | ha
      · exact hb hk
      · exact ih h ha

theorem locate_append_eq_some {x : ℕ × α} (h : locate key size k (l₁ ++ l₂) = some x)
    (hx : x.2 ∉ l₁) : ∃ o', locate key size k l₂ = some (o', x.2) ∧ x.1 = (l₁.map size).sum + o' := by
  cases h₁ : locate key size k l₁ with
  | none =>
    rw [locate_append_of_forall_ne (locate_eq_none_iff.mp h₁), Option.map_eq_some_iff] at h
    obtain ⟨y, hy, rfl⟩ := h
    exact ⟨y.1, hy, rfl⟩
  | some y =>
    rw [locate_append_of_locate_eq_some h₁, Option.some.injEq] at h
    subst h
    exact absurd (mem_of_locate_eq_some h₁) hx

theorem locate_disjoint {k₁ k₂ : κ} (hne : k₁ ≠ k₂) :
    ∀ {l : List α} {o₁ o₂ : ℕ} {a₁ a₂ : α}, locate key size k₁ l = some (o₁, a₁) →
      locate key size k₂ l = some (o₂, a₂) → o₁ + size a₁ ≤ o₂ ∨ o₂ + size a₂ ≤ o₁
  | [], _, _, _, _, h₁, _ => by cases h₁
  | b :: l, o₁, o₂, a₁, a₂, h₁, h₂ => by
    by_cases hb₁ : key b = k₁
    · -- the head holds the first key: the second lies past it
      rw [locate_cons_of_eq hb₁, Option.some.injEq, Prod.mk.injEq] at h₁
      obtain ⟨rfl, rfl⟩ := h₁
      obtain ⟨o', -, ho⟩ := locate_of_locate_cons_of_ne (hb₁ ▸ hne) h₂
      exact .inl (by simp only at ho; omega)
    by_cases hb₂ : key b = k₂
    · rw [locate_cons_of_eq hb₂, Option.some.injEq, Prod.mk.injEq] at h₂
      obtain ⟨rfl, rfl⟩ := h₂
      obtain ⟨o', -, ho⟩ := locate_of_locate_cons_of_ne hb₁ h₁
      exact .inr (by simp only at ho; omega)
    obtain ⟨o₁', h₁', ho₁⟩ := locate_of_locate_cons_of_ne hb₁ h₁
    obtain ⟨o₂', h₂', ho₂⟩ := locate_of_locate_cons_of_ne hb₂ h₂
    have := locate_disjoint hne h₁' h₂'
    simp only at ho₁ ho₂ this
    omega

theorem exists_of_locate_eq_some {x : ℕ × α} :
    ∀ {l : List α}, locate key size k l = some x →
      ∃ pre post, l = pre ++ x.2 :: post ∧ (∀ b ∈ pre, key b ≠ k) ∧ (pre.map size).sum = x.1
  | [], h => by cases h
  | a :: l, h => by
    by_cases ha : key a = k
    · rw [locate_cons_of_eq ha, Option.some.injEq] at h
      subst h
      exact ⟨[], l, rfl, (fun _ hb => by cases hb), rfl⟩
    · obtain ⟨o', hl, ho⟩ := locate_of_locate_cons_of_ne ha h
      obtain ⟨pre, post, hsplit, hpre, hsum⟩ := exists_of_locate_eq_some hl
      refine ⟨a :: pre, post, by rw [hsplit]; rfl, ?_, ?_⟩
      · intro b hb
        rcases List.mem_cons.mp hb with rfl | hb
        · exact ha
        · exact hpre b hb
      · rw [List.map_cons, List.sum_cons, hsum, ho]

theorem locate_add_size_le_sum {o : ℕ} {a : α} (h : locate key size k l = some (o, a)) :
    o + size a ≤ (l.map size).sum := by
  obtain ⟨pre, post, hsplit, -, hsum⟩ := exists_of_locate_eq_some h
  simp only at hsplit hsum
  rw [hsplit, List.map_append, List.sum_append, List.map_cons, List.sum_cons]
  omega

theorem locate_replace {pre xs ys post : List α} (hxs : ∀ a ∈ xs, key a ≠ k)
    (hys : ∀ a ∈ ys, key a ≠ k) (hsum : (ys.map size).sum = (xs.map size).sum) :
    locate key size k (pre ++ ys ++ post) = locate key size k (pre ++ xs ++ post) := by
  induction pre with
  | nil =>
    rw [List.nil_append, List.nil_append, locate_append_of_forall_ne hys,
      locate_append_of_forall_ne hxs, hsum]
  | cons a pre ih =>
    simp only [List.cons_append] at ih ⊢
    by_cases ha : key a = k
    · rw [locate_cons_of_eq ha, locate_cons_of_eq ha]
    · rw [locate_cons_of_ne ha, locate_cons_of_ne ha, ih]

theorem le_mul_ceilDiv {n : ℕ} (hn : 0 < n) (x : ℕ) : x ≤ n * (x ⌈/⌉ n) :=
  (ceilDiv_le_iff_le_mul hn).1 le_rfl

theorem add_ceilDiv_le {n : ℕ} (hn : 0 < n) (x y : ℕ) : (x + y) ⌈/⌉ n ≤ x ⌈/⌉ n + y ⌈/⌉ n := by
  rw [ceilDiv_le_iff_le_mul hn, Nat.mul_add]
  exact Nat.add_le_add (le_mul_ceilDiv hn x) (le_mul_ceilDiv hn y)

theorem sum_ceilDiv_le {n : ℕ} (hn : 0 < n) (f : α → ℕ) :
    ∀ l : List α, (l.map f).sum ⌈/⌉ n ≤ (l.map fun a => f a ⌈/⌉ n).sum
  | [] => by simp
  | a :: l => by
    rw [List.map_cons, List.map_cons, List.sum_cons, List.sum_cons]
    exact (add_ceilDiv_le hn _ _).trans (Nat.add_le_add_left (sum_ceilDiv_le hn f l) _)

theorem one_le_ceilDiv {n x : ℕ} (hn : 0 < n) (hx : 0 < x) : 1 ≤ x ⌈/⌉ n := by
  have hle := le_mul_ceilDiv hn x
  by_contra h
  rw [show x ⌈/⌉ n = 0 by omega, Nat.mul_zero] at hle
  omega

theorem ceilDiv_eq_one {n x : ℕ} (hx : 0 < x) (hxn : x ≤ n) : x ⌈/⌉ n = 1 := by
  have hn : 0 < n := lt_of_lt_of_le hx hxn
  apply le_antisymm
  · rw [ceilDiv_le_iff_le_mul hn, Nat.mul_one]
    exact hxn
  · exact one_le_ceilDiv hn hx

theorem sub_ceilDiv_add_one_le {n x : ℕ} (hn : 0 < n) (hx : n < x) :
    (x - n) ⌈/⌉ n + 1 ≤ x ⌈/⌉ n := by
  have hle := le_mul_ceilDiv hn x
  have hpos := one_le_ceilDiv hn (lt_trans hn hx)
  have : (x - n) ⌈/⌉ n ≤ x ⌈/⌉ n - 1 := by
    rw [ceilDiv_le_iff_le_mul hn, Nat.mul_sub, Nat.mul_one]
    omega
  omega

end CertTrans.Keyed
