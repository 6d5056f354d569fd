import CertTrans.Fetcher.FetchState
import CertTrans.Keyed.Layout

/-!
What one `WalkEntries` does to the list of ranges.

`coalesceRange` takes a run of ranges in the state of the current one off the list and adds
their sizes to it; `splitRange` cuts a wanted range at the batch size.  From these, by induction
along `walkFrom`, the second loop of the walk keeps the places the ranges cover, their sizes
positive and their addresses distinct, leaves each range being fetched where it was, and starts
each fetch on a range at the index it asks for.  The bound on concurrent fetches is a budget
along the list: a range being fetched weighs one, a wanted one the batches it would take, and
each range being fetched has less than `fetcher_concurrent_fetches` weight before it.
-/

namespace CertTrans

open Keyed

def Range.weight (batchSize : Nat) (r : Range) : Nat :=
  match r.state with
  | .haveEntries => 0
  | .fetching => 1
  | .want => r.size ⌈/⌉ batchSize

namespace FetchState

def Budget (concurrentFetches o : Nat) (r : Range) : Prop :=
  r.state = .fetching → o < concurrentFetches

theorem budget_antitone (concurrentFetches : Nat) : Keyed.Antitone (Budget concurrentFetches) :=
  fun _ _ _ ho h hr => lt_of_le_of_lt ho (h hr)

def Covers (S : Nat → Prop) (o : Nat) (r : Range) : Prop :=
  r.state = .haveEntries → ∀ i, o ≤ i → i < o + r.size → S i

theorem coalesce_spec (current : Range) (rest : List Range) :
    ∃ taken, rest = taken ++ (coalesce current rest).2 ∧
      (coalesce current rest).1 = { current with size := current.size + (taken.map Range.size).sum } ∧
      ∀ r ∈ taken, r.state = current.state := by
  induction rest generalizing current with
  | nil => exact ⟨[], rfl, by simp [coalesce], by simp⟩
  | cons next rest ih =>
    rw [coalesce]
    split
    case isTrue hnext =>
      obtain ⟨taken, hrest, hcur, hstate⟩ := ih { current with size := current.size + next.size }
      refine ⟨next :: taken, by rw [List.cons_append, ← hrest], ?_, ?_⟩
      · rw [hcur, List.map_cons, List.sum_cons, Nat.add_assoc]
      · intro r hr
        rcases List.mem_cons.mp hr with rfl | hr
        · exact hnext
        · exact hstate r hr
    case isFalse => exact ⟨[], rfl, by simp, by simp⟩

theorem coalesceRange_spec (current : Range) (rest : List Range) :
    ∃ taken, rest = taken ++ (coalesceRange current rest).2 ∧
      (coalesceRange current rest).1 =
        { current with size := current.size + (taken.map Range.size).sum } ∧
      ∀ r ∈ taken, r.state = current.state ∧ r.state ≠ .fetching := by
  unfold coalesceRange
  split
  case isTrue hcur =>
    obtain ⟨taken, hrest, hsize, hstate⟩ := coalesce_spec current rest
    exact ⟨taken, hrest, hsize, fun r hr => ⟨hstate r hr, hstate r hr ▸ hcur⟩⟩
  case isFalse => exact ⟨[], rfl, by simp, by simp⟩

theorem coalesceRange_of_fetching {current : Range} (h : current.state = .fetching)
    (rest : List Range) : coalesceRange current rest = (current, rest) := by
  rw [coalesceRange, if_neg (not_not.mpr h)]

variable {current r : Range} {rest : List Range}

@[simp] theorem coalesceRange_id : (coalesceRange current rest).1.id = current.id := by
  obtain ⟨taken, -, hcur, -⟩ := coalesceRange_spec current rest
  rw [hcur]

@[simp] theorem coalesceRange_state : (coalesceRange current rest).1.state = current.state := by
  obtain ⟨taken, -, hcur, -⟩ := coalesceRange_spec current rest
  rw [hcur]

theorem le_coalesceRange_size : current.size ≤ (coalesceRange current rest).1.size := by
  obtain ⟨taken, -, hcur, -⟩ := coalesceRange_spec current rest
  rw [hcur]
  exact Nat.le_add_right _ _

theorem coalesceRange_sum :
    (coalesceRange current rest).1.size + ((coalesceRange current rest).2.map Range.size).sum =
      current.size + (rest.map Range.size).sum := by
  obtain ⟨taken, hrest, hcur, -⟩ := coalesceRange_spec current rest
  conv_rhs => rw [hrest]
  rw [hcur, List.map_append, List.sum_append, Nat.add_assoc]

theorem coalesceRange_ids_sublist :
    (((coalesceRange current rest).1 :: (coalesceRange current rest).2).map Range.id).Sublist
      ((current :: rest).map Range.id) := by
  obtain ⟨taken, hrest, -, -⟩ := coalesceRange_spec current rest
  conv_rhs => rw [hrest]
  rw [List.map_cons, List.map_cons, coalesceRange_id, List.map_append]
  exact (List.sublist_append_right _ _).cons_cons _

theorem mem_of_mem_coalesceRange (h : r ∈ (coalesceRange current rest).2) : r ∈ rest := by
  obtain ⟨taken, hrest, -, -⟩ := coalesceRange_spec current rest
  rw [hrest]
  exact List.mem_append_right _ h

theorem mem_ids_of_mem_coalesceRange {x : Nat}
    (h : x ∈ ((coalesceRange current rest).1 :: (coalesceRange current rest).2).map Range.id) :
    x ∈ (current :: rest).map Range.id :=
  coalesceRange_ids_sublist.subset h

theorem coalesceRange_ids_lt {n : Nat} (hlt : ∀ r ∈ current :: rest, r.id < n) :
    ∀ r ∈ (coalesceRange current rest).1 :: (coalesceRange current rest).2, r.id < n := by
  intro r hr
  obtain ⟨r', hr', hid⟩ := List.mem_map.mp (mem_ids_of_mem_coalesceRange (List.mem_map_of_mem hr))
  exact hid ▸ hlt r' hr'

theorem locate_coalesceRange {k o : Nat}
    (h : locate Range.id Range.size k (current :: rest) = some (o, r)) (hr : r.state = .fetching) :
    locate Range.id Range.size k
      ((coalesceRange current rest).1 :: (coalesceRange current rest).2) = some (o, r) := by
  obtain ⟨taken, hrest, hcur, htaken⟩ := coalesceRange_spec current rest
  have hsplit : current :: rest = [] ++ (current :: taken) ++ (coalesceRange current rest).2 := by
    conv_lhs => rw [hrest]
    rfl
  cases hl : locate Range.id Range.size k (current :: taken) with
  | some y =>
    have hy := h
    rw [hsplit, List.nil_append, locate_append_of_locate_eq_some hl] at hy
    cases hy
    rcases List.mem_cons.mp (mem_of_locate_eq_some hl) with hcurr | hmem
    · rw [coalesceRange_of_fetching (hcurr ▸ hr)]
      exact h
    · exact absurd hr (htaken r hmem).2
  | none =>
    have hne := locate_eq_none_iff.mp hl
    have hreplace : locate Range.id Range.size k ([] ++ [(coalesceRange current rest).1] ++
          (coalesceRange current rest).2) =
        locate Range.id Range.size k ([] ++ (current :: taken) ++ (coalesceRange current rest).2) :=
      locate_replace hne (by simpa using hne current List.mem_cons_self)
        (by simp [hcur])
    rw [← hsplit] at hreplace
    simpa [h] using hreplace

theorem coalesceRange_weight_le (current : Range) (rest : List Range) {batchSize : Nat}
    (hb : 0 < batchSize) :
    ∃ taken, rest = taken ++ (coalesceRange current rest).2 ∧
      (coalesceRange current rest).1.weight batchSize ≤
        ((current :: taken).map (Range.weight batchSize)).sum := by
  obtain ⟨taken, hrest, hcur, htaken⟩ := coalesceRange_spec current rest
  refine ⟨taken, hrest, ?_⟩
  rw [hcur]
  cases hstate : current.state
  case haveEntries => simp only [Range.weight, Nat.zero_le]
  case fetching =>
    have htaken_nil : taken = [] := List.eq_nil_iff_forall_not_mem.mpr fun t ht =>
      (htaken t ht).2 ((htaken t ht).1.trans hstate)
    simp [Range.weight, hstate, htaken_nil]
  case want =>
    have hsum := sum_ceilDiv_le hb Range.size (current :: taken)
    have hweights : (current :: taken).map (Range.weight batchSize) =
        (current :: taken).map fun t => t.size ⌈/⌉ batchSize := by
      refine List.map_congr_left fun t ht => ?_
      have htw : t.state = .want := by
        rcases List.mem_cons.mp ht with rfl | ht
        · exact hstate
        · exact (htaken t ht).1.trans hstate
      simp only [Range.weight, htw]
    rw [hweights]
    simpa [Range.weight, hstate] using hsum

theorem coalesceRange_budget {batchSize concurrentFetches o : Nat} (hb : 0 < batchSize)
    (h : ForallOffsets (Range.weight batchSize) (Budget concurrentFetches) o (current :: rest)) :
    ForallOffsets (Range.weight batchSize) (Budget concurrentFetches) o
      ((coalesceRange current rest).1 :: (coalesceRange current rest).2) := by
  obtain ⟨taken, hrest, hweight⟩ := coalesceRange_weight_le current rest hb
  have hsplit : current :: rest = [] ++ (current :: taken) ++ (coalesceRange current rest).2 := by
    conv_lhs => rw [hrest]
    rfl
  rw [hsplit] at h
  have hhead : ForallOffsets (Range.weight batchSize) (Budget concurrentFetches)
      (o + (([] : List Range).map (Range.weight batchSize)).sum) [(coalesceRange current rest).1] := by
    refine ⟨fun hf => h.1 ?_, trivial⟩
    rwa [coalesceRange_state] at hf
  exact ForallOffsets.replace (budget_antitone _) h hhead (by simpa using hweight)

theorem coalesceRange_covers {S : Nat → Prop} {o : Nat}
    (h : ForallOffsets Range.size (Covers S) o (current :: rest)) :
    ForallOffsets Range.size (Covers S) o
      ((coalesceRange current rest).1 :: (coalesceRange current rest).2) := by
  obtain ⟨taken, hrest, hcur, htaken⟩ := coalesceRange_spec current rest
  have hsplit : current :: rest = [] ++ (current :: taken) ++ (coalesceRange current rest).2 := by
    conv_lhs => rw [hrest]
    rfl
  rw [hsplit] at h
  have hhead : ForallOffsets Range.size (Covers S)
      (o + (([] : List Range).map Range.size).sum) [(coalesceRange current rest).1] := by
    refine ⟨fun hhave i hi₁ hi₂ => ?_, trivial⟩
    rw [coalesceRange_state] at hhave
    have hparts := (forallOffsets_append.mp (forallOffsets_append.mp h).1).2
    have hhaves : ∀ t ∈ current :: taken, t.state = .haveEntries := by
      intro t ht
      rcases List.mem_cons.mp ht with rfl | ht
      · exact hhave
      · exact (htaken t ht).1.trans hhave
    refine ForallOffsets.forall_lt (hparts.imp_of_mem fun o' t ht hcov => hcov (hhaves t ht)) i
      (by simpa using hi₁) ?_
    simpa [hcur, Nat.add_assoc] using hi₂
  exact ForallOffsets.replace_of_eq h hhead (by simp [hcur])

theorem splitRange_cases (batchSize nextId : Nat) (current : Range) (rest : List Range) :
    batchSize < current.size ∧ splitRange batchSize nextId current rest =
        ({ current with size := batchSize }, ⟨nextId, .want, current.size - batchSize⟩ :: rest,
          nextId + 1) ∨
      current.size ≤ batchSize ∧ splitRange batchSize nextId current rest = (current, rest, nextId) := by
  unfold splitRange
  split
  case isTrue h => exact .inl ⟨h, rfl⟩
  case isFalse h => exact .inr ⟨Nat.le_of_not_lt h, rfl⟩

section Split

variable {batchSize nextId : Nat}

@[simp] theorem splitRange_id : (splitRange batchSize nextId current rest).1.id = current.id := by
  rcases splitRange_cases batchSize nextId current rest with ⟨-, h⟩ | ⟨-, h⟩ <;> rw [h]

theorem splitRange_size_le :
    (splitRange batchSize nextId current rest).1.size ≤ batchSize := by
  rcases splitRange_cases batchSize nextId current rest with ⟨-, h⟩ | ⟨hle, h⟩ <;> rw [h]
  exact hle

theorem le_splitRange_nextId : nextId ≤ (splitRange batchSize nextId current rest).2.2 := by
  rcases splitRange_cases batchSize nextId current rest with ⟨-, h⟩ | ⟨-, h⟩ <;> simp [h]

theorem splitRange_sum :
    (splitRange batchSize nextId current rest).1.size +
        ((splitRange batchSize nextId current rest).2.1.map Range.size).sum =
      current.size + (rest.map Range.size).sum := by
  rcases splitRange_cases batchSize nextId current rest with ⟨hlt, h⟩ | ⟨-, h⟩ <;> rw [h]
  simp only [List.map_cons, List.sum_cons]
  omega

theorem splitRange_ids (batchSize nextId : Nat) (hlt : ∀ r ∈ current :: rest, r.id < nextId)
    (hnd : ((current :: rest).map Range.id).Nodup) :
    nextId ≤ (splitRange batchSize nextId current rest).2.2 ∧
      (∀ r ∈ (splitRange batchSize nextId current rest).2.1,
        r.id < (splitRange batchSize nextId current rest).2.2 ∧
          (r.id ∈ rest.map Range.id ∨ r.id = nextId)) ∧
      (current.id :: (splitRange batchSize nextId current rest).2.1.map Range.id).Nodup := by
  rw [List.map_cons, List.nodup_cons] at hnd
  rcases splitRange_cases batchSize nextId current rest with ⟨-, h⟩ | ⟨-, h⟩ <;> rw [h]
  · refine ⟨Nat.le_succ _, fun r hr => ?_, ?_⟩
    · rcases List.mem_cons.mp hr with rfl | hr
      · exact ⟨Nat.lt_succ_self _, .inr rfl⟩
      · exact ⟨Nat.lt_succ_of_lt (hlt r (List.mem_cons_of_mem _ hr)),
          .inl (List.mem_map_of_mem hr)⟩
    · -- the new address is past every address in use
      have hfresh : nextId ∉ rest.map Range.id := fun hmem => by
        obtain ⟨r, hr, hrid⟩ := List.mem_map.mp hmem
        exact absurd (hlt r (List.mem_cons_of_mem _ hr)) (by omega)
      refine List.nodup_cons.mpr ⟨?_, List.nodup_cons.mpr ⟨hfresh, hnd.2⟩⟩
      intro hid
      rcases List.mem_cons.mp hid with hid | hid
      · have hid : current.id = nextId := hid
        exact absurd (hlt current List.mem_cons_self) (by omega)
      · exact hnd.1 hid
  · exact ⟨le_refl _, fun r hr => ⟨hlt r (List.mem_cons_of_mem _ hr), .inl (List.mem_map_of_mem hr)⟩,
      List.nodup_cons.mpr hnd⟩

theorem splitRange_size_pos (hb : 0 < batchSize) (h : ∀ r ∈ current :: rest, 0 < r.size) :
    ∀ r ∈ (splitRange batchSize nextId current rest).1 :: (splitRange batchSize nextId current rest).2.1,
      0 < r.size := by
  intro r hr
  rcases splitRange_cases batchSize nextId current rest with ⟨hlt, hsplit⟩ | ⟨-, hsplit⟩ <;>
    rw [hsplit] at hr <;> simp only [List.mem_cons] at hr
  · rcases hr with rfl | rfl | hr
    · exact hb
    · exact Nat.sub_pos_of_lt hlt
    · exact h r (List.mem_cons_of_mem _ hr)
  · rcases hr with rfl | hr
    · exact h _ List.mem_cons_self
    · exact h r (List.mem_cons_of_mem _ hr)

theorem splitRange_ids_lt (hlt : ∀ r ∈ current :: rest, r.id < nextId) :
    ∀ r ∈ (splitRange batchSize nextId current rest).2.1,
      r.id < (splitRange batchSize nextId current rest).2.2 := by
  intro r hr
  rcases splitRange_cases batchSize nextId current rest with ⟨-, hsplit⟩ | ⟨-, hsplit⟩ <;>
    rw [hsplit] at hr ⊢
  · rcases List.mem_cons.mp hr with rfl | hr
    · exact Nat.lt_succ_self _
    · exact Nat.lt_succ_of_lt (hlt r (List.mem_cons_of_mem _ hr))
  · exact hlt r (List.mem_cons_of_mem _ hr)

theorem mem_splitRange (hr : r ∈ (splitRange batchSize nextId current rest).2.1) :
    r ∈ rest ∨ r.id = nextId ∧ r.state = .want := by
  rcases splitRange_cases batchSize nextId current rest with ⟨-, hsplit⟩ | ⟨-, hsplit⟩ <;>
    rw [hsplit] at hr
  · rcases List.mem_cons.mp hr with rfl | hr
    · exact .inr ⟨rfl, rfl⟩
    · exact .inl hr
  · exact .inl hr

theorem locate_splitRange (batchSize nextId : Nat) (current : Range) {k o : Nat} (hnk : nextId ≠ k)
    (h : locate Range.id Range.size k rest = some (o, r)) :
    ∃ o', locate Range.id Range.size k (splitRange batchSize nextId current rest).2.1 = some (o', r) ∧
      (splitRange batchSize nextId current rest).1.size + o' = current.size + o := by
  rcases splitRange_cases batchSize nextId current rest with ⟨hlt, hsplit⟩ | ⟨-, hsplit⟩ <;>
    rw [hsplit]
  · refine ⟨_, locate_cons_of_ne_of_eq_some hnk h, ?_⟩
    simp only
    omega
  · exact ⟨o, h, rfl⟩

theorem issue_budget {concurrentFetches n : Nat} (hb : 0 < batchSize) (hwant : current.state = .want)
    (hpos : 0 < current.size)
    (h : ForallOffsets (Range.weight batchSize) (Budget concurrentFetches)
      (n + current.weight batchSize) rest) :
    ForallOffsets (Range.weight batchSize) (Budget concurrentFetches) (n + 1)
      (splitRange batchSize nextId current rest).2.1 := by
  rcases splitRange_cases batchSize nextId current rest with ⟨hlt, hsplit⟩ | ⟨hle, hsplit⟩ <;>
    rw [hsplit]
  · refine ⟨(fun hf => by cases hf), h.anti (budget_antitone _) ?_⟩
    have := sub_ceilDiv_add_one_le hb hlt
    simp only [Range.weight, hwant]
    omega
  · have hw : current.weight batchSize = 1 := by
      simp only [Range.weight, hwant]
      exact ceilDiv_eq_one hpos hle
    rwa [hw] at h

end Split

theorem locate_of_want_head (batchSize nextId : Nat) {current r : Range} {rest : List Range}
    {k o : Nat} (hstate : (coalesceRange current rest).1.state = .want)
    (hlt : ∀ r ∈ current :: rest, r.id < nextId)
    (h : locate Range.id Range.size k (current :: rest) = some (o, r)) (hr : r.state = .fetching) :
    (splitRange batchSize nextId (coalesceRange current rest).1 (coalesceRange current rest).2).1.id ≠ k ∧
      ∃ o', locate Range.id Range.size k
          (splitRange batchSize nextId (coalesceRange current rest).1
            (coalesceRange current rest).2).2.1 = some (o', r) ∧
        (splitRange batchSize nextId (coalesceRange current rest).1
          (coalesceRange current rest).2).1.size + o' = o := by
  have h' := locate_coalesceRange h hr
  have hk : (coalesceRange current rest).1.id ≠ k := fun hk => by
    rw [locate_cons_of_eq hk] at h'
    cases h'
    rw [hstate] at hr
    cases hr
  obtain ⟨o', hloc, ho⟩ := locate_of_locate_cons_of_ne hk h'
  have hnk : nextId ≠ k := fun hnk => by
    have := hlt r (mem_of_locate_eq_some h)
    rw [key_of_locate_eq_some h] at this
    omega
  obtain ⟨o'', hloc', ho'⟩ := locate_splitRange batchSize nextId _ hnk hloc
  have ho : o = _ := ho
  exact ⟨by simpa using hk, o'', hloc', by omega⟩

section Walk

variable (batchSize concurrentFetches : Nat) (remoteTreeSize : Int)

theorem walkFrom_sum (index numFetch nextId : Nat) (ranges : List Range) :
    ((walkFrom batchSize concurrentFetches remoteTreeSize index numFetch nextId ranges).1.map
      Range.size).sum = (ranges.map Range.size).sum := by
  fun_induction walkFrom batchSize concurrentFetches remoteTreeSize index numFetch nextId ranges
  case case1 => rfl
  case case2 current rest _ _ | case4 current rest _ _ | case6 current rest _ _ =>
    simp only [List.map_cons, List.sum_cons, coalesceRange_sum]
  case case3 current rest _ _ next ih | case5 current rest _ _ next ih =>
    simp only [List.map_cons, List.sum_cons, next, ih, coalesceRange_sum]
  case case7 current rest _ _ split fetching _ _ =>
    simp only [List.map_cons, List.sum_cons, fetching, split, splitRange_sum, coalesceRange_sum]
  case case8 current rest _ _ split fetching _ _ next ih =>
    simp only [List.map_cons, List.sum_cons, next, ih, fetching, split, splitRange_sum,
      coalesceRange_sum]

theorem walkFrom_forall {Q : Range → Prop}
    (hcoalesce : ∀ current rest, (∀ r ∈ current :: rest, Q r) →
      ∀ r ∈ (coalesceRange current rest).1 :: (coalesceRange current rest).2, Q r)
    (hissue : ∀ nextId (current : Range) rest, current.state = .want →
      (∀ r ∈ current :: rest, Q r) →
        ∀ r ∈ { (splitRange batchSize nextId current rest).1 with state := .fetching } ::
          (splitRange batchSize nextId current rest).2.1, Q r)
    (index numFetch nextId : Nat) (ranges : List Range) :
    (∀ r ∈ ranges, Q r) →
      ∀ r ∈ (walkFrom batchSize concurrentFetches remoteTreeSize index numFetch nextId ranges).1, Q r := by
  fun_induction walkFrom batchSize concurrentFetches remoteTreeSize index numFetch nextId ranges
  case case1 => exact fun _ r hr => by cases hr
  case case2 current rest _ _ | case4 current rest _ _ | case6 current rest _ _ =>
    exact hcoalesce current rest
  case case3 current rest _ _ next ih | case5 current rest _ _ next ih =>
    intro h r hr
    have h' := hcoalesce current rest h
    rcases List.mem_cons.mp hr with rfl | hr
    · exact h' _ List.mem_cons_self
    · exact ih (fun r hr => h' r (List.mem_cons_of_mem _ hr)) r hr
  case case7 nextId current rest hstate _ _ _ _ _ =>
    exact fun h => hissue nextId _ _ hstate (hcoalesce current rest h)
  case case8 nextId current rest hstate _ _ _ _ _ next ih =>
    intro h r hr
    have h' := hissue nextId _ _ hstate (hcoalesce current rest h)
    rcases List.mem_cons.mp hr with rfl | hr
    · exact h' _ List.mem_cons_self
    · exact ih (fun r hr => h' r (List.mem_cons_of_mem _ hr)) r hr

theorem walkFrom_forallOffsets {P : Nat → Range → Prop}
    (hcoalesce : ∀ o current rest, ForallOffsets Range.size P o (current :: rest) →
      ForallOffsets Range.size P o ((coalesceRange current rest).1 :: (coalesceRange current rest).2))
    (hissue : ∀ o nextId (current : Range) rest, current.state = .want →
      ForallOffsets Range.size P o (current :: rest) →
        ForallOffsets Range.size P o ({ (splitRange batchSize nextId current rest).1 with
          state := .fetching } :: (splitRange batchSize nextId current rest).2.1))
    (index numFetch nextId : Nat) (ranges : List Range) :
    ForallOffsets Range.size P index ranges →
      ForallOffsets Range.size P index
        (walkFrom batchSize concurrentFetches remoteTreeSize index numFetch nextId ranges).1 := by
  fun_induction walkFrom batchSize concurrentFetches remoteTreeSize index numFetch nextId ranges
  case case1 => exact fun _ => trivial
  case case2 index _ _ current rest _ _ | case4 index _ _ current rest _ _
    | case6 index _ _ current rest _ _ =>
    exact hcoalesce index current rest
  case case3 index _ _ current rest _ _ next ih | case5 index _ _ current rest _ _ next ih =>
    intro h
    have h' := hcoalesce index current rest h
    exact ⟨h'.1, ih h'.2⟩
  case case7 index _ nextId current rest hstate _ _ _ _ _ =>
    exact fun h => hissue index nextId _ _ hstate (hcoalesce index current rest h)
  case case8 index _ nextId current rest hstate _ _ _ _ _ next ih =>
    intro h
    have h' := hissue index nextId _ _ hstate (hcoalesce index current rest h)
    exact ⟨h'.1, ih h'.2⟩

theorem coalesceRange_size_pos (h : ∀ r ∈ current :: rest, 0 < r.size) :
    ∀ r ∈ (coalesceRange current rest).1 :: (coalesceRange current rest).2, 0 < r.size := by
  intro r hr
  rcases List.mem_cons.mp hr with rfl | hr
  · exact lt_of_lt_of_le (h current List.mem_cons_self) le_coalesceRange_size
  · exact h r (List.mem_cons_of_mem _ (mem_of_mem_coalesceRange hr))

theorem walkFrom_size_pos (hb : 0 < batchSize) (index numFetch nextId : Nat) (ranges : List Range) :
    (∀ r ∈ ranges, 0 < r.size) →
      ∀ r ∈ (walkFrom batchSize concurrentFetches remoteTreeSize index numFetch nextId ranges).1,
        0 < r.size := by
  refine walkFrom_forall batchSize concurrentFetches remoteTreeSize ?_ ?_ index numFetch nextId ranges
  · exact fun current rest h => coalesceRange_size_pos h
  · intro nextId current rest _ h r hr
    have hsplit : ∀ r ∈ (splitRange batchSize nextId current rest).1 ::
        (splitRange batchSize nextId current rest).2.1, 0 < r.size := splitRange_size_pos hb h
    rcases List.mem_cons.mp hr with rfl | hr
    · exact (hsplit _ List.mem_cons_self : 0 < (splitRange batchSize nextId current rest).1.size)
    · exact hsplit r (List.mem_cons_of_mem _ hr)

theorem walkFrom_fetching_le (index numFetch nextId : Nat) (ranges : List Range) :
    (∀ r ∈ ranges, r.state = .fetching → r.size ≤ batchSize) →
      ∀ r ∈ (walkFrom batchSize concurrentFetches remoteTreeSize index numFetch nextId ranges).1,
        r.state = .fetching → r.size ≤ batchSize := by
  refine walkFrom_forall batchSize concurrentFetches remoteTreeSize ?_ ?_ index numFetch nextId ranges
  · intro current rest h r hr hf
    rcases List.mem_cons.mp hr with rfl | hr
    · rw [coalesceRange_state] at hf
      rw [coalesceRange_of_fetching hf]
      exact h current List.mem_cons_self hf
    · exact h r (List.mem_cons_of_mem _ (mem_of_mem_coalesceRange hr)) hf
  · intro nextId current rest hwant h r hr hf
    rcases List.mem_cons.mp hr with rfl | hr
    · exact splitRange_size_le
    · rcases splitRange_cases batchSize nextId current rest with ⟨-, hsplit⟩ | ⟨-, hsplit⟩ <;>
        rw [hsplit] at hr
      · rcases List.mem_cons.mp hr with rfl | hr
        · cases hf
        · exact h r (List.mem_cons_of_mem _ hr) hf
      · exact h r (List.mem_cons_of_mem _ hr) hf

theorem walkFrom_covers {S : Nat → Prop} (index numFetch nextId : Nat) (ranges : List Range) :
    ForallOffsets Range.size (Covers S) index ranges →
      ForallOffsets Range.size (Covers S) index
        (walkFrom batchSize concurrentFetches remoteTreeSize index numFetch nextId ranges).1 := by
  refine walkFrom_forallOffsets batchSize concurrentFetches remoteTreeSize
    (fun o current rest h => coalesceRange_covers h) ?_ index numFetch nextId ranges
  intro o nextId current rest hwant h
  refine ⟨(fun hhave => by cases hhave), ?_⟩
  rcases splitRange_cases batchSize nextId current rest with ⟨hlt, hsplit⟩ | ⟨-, hsplit⟩ <;>
    rw [hsplit]
  · refine ⟨(fun hhave => by cases hhave), ?_⟩
    have ho : o + batchSize + (current.size - batchSize) = o + current.size := by omega
    simpa only [ho] using h.2
  · exact h.2

theorem walkFrom_budget (hb : 0 < batchSize) (index numFetch nextId : Nat) (ranges : List Range) :
    (∀ r ∈ ranges, 0 < r.size) → numFetch < concurrentFetches →
      ForallOffsets (Range.weight batchSize) (Budget concurrentFetches) numFetch ranges →
      ForallOffsets (Range.weight batchSize) (Budget concurrentFetches) numFetch
        (walkFrom batchSize concurrentFetches remoteTreeSize index numFetch nextId ranges).1 := by
  fun_induction walkFrom batchSize concurrentFetches remoteTreeSize index numFetch nextId ranges
  case case1 => exact fun _ _ _ => trivial
  case case2 | case4 | case6 => exact fun _ _ h => coalesceRange_budget hb h
  case case3 current rest hstate hcont next ih =>
    intro hpos hlt h
    have h' := coalesceRange_budget hb h
    have hw : (coalesceRange current rest).1.weight batchSize = 0 := by
      simp only [Range.weight, hstate]
    rw [forallOffsets_cons, hw, Nat.add_zero] at h' ⊢
    exact ⟨h'.1, ih (fun r hr => hpos r (List.mem_cons_of_mem _ (mem_of_mem_coalesceRange hr)))
      (by omega) h'.2⟩
  case case5 current rest hstate hcont next ih =>
    intro hpos hlt h
    have h' := coalesceRange_budget hb h
    have hw : (coalesceRange current rest).1.weight batchSize = 1 := by
      simp only [Range.weight, hstate]
    rw [forallOffsets_cons, hw] at h' ⊢
    exact ⟨h'.1, ih (fun r hr => hpos r (List.mem_cons_of_mem _ (mem_of_mem_coalesceRange hr)))
      (by omega) h'.2⟩
  case case7 current rest hstate _ split fetching _ _ =>
    intro hpos hlt h
    have h' := coalesceRange_budget hb h
    refine ⟨fun _ => hlt, ?_⟩
    exact issue_budget hb hstate (lt_of_lt_of_le (hpos current List.mem_cons_self)
      le_coalesceRange_size) h'.2
  case case8 current rest hstate _ split fetching _ hnum next ih =>
    intro hpos hlt h
    have h' := coalesceRange_budget hb h
    refine ⟨fun _ => hlt, ih ?_ (by omega) ?_⟩
    · exact fun r hr => splitRange_size_pos hb (coalesceRange_size_pos hpos) r
        (List.mem_cons_of_mem _ hr)
    · exact issue_budget hb hstate (lt_of_lt_of_le (hpos current List.mem_cons_self)
        le_coalesceRange_size) h'.2

theorem walkFrom_ids (index numFetch nextId : Nat) (ranges : List Range) :
    (∀ r ∈ ranges, r.id < nextId) → (ranges.map Range.id).Nodup →
      nextId ≤ (walkFrom batchSize concurrentFetches remoteTreeSize index numFetch nextId ranges).2.2 ∧
      (∀ r ∈ (walkFrom batchSize concurrentFetches remoteTreeSize index numFetch nextId ranges).1,
        r.id < (walkFrom batchSize concurrentFetches remoteTreeSize index numFetch nextId ranges).2.2 ∧
          (r.id ∈ ranges.map Range.id ∨ nextId ≤ r.id)) ∧
      ((walkFrom batchSize concurrentFetches remoteTreeSize index numFetch nextId ranges).1.map
        Range.id).Nodup := by
  fun_induction walkFrom batchSize concurrentFetches remoteTreeSize index numFetch nextId ranges
  case case1 => exact fun _ _ => ⟨le_refl _, (fun r hr => by cases hr), List.nodup_nil⟩
  case case2 current rest _ _ | case4 current rest _ _ | case6 current rest _ _ =>
    intro hlt hnd
    refine ⟨le_refl _, fun r hr => ⟨coalesceRange_ids_lt hlt r hr,
      .inl (mem_ids_of_mem_coalesceRange (List.mem_map_of_mem hr))⟩,
      hnd.sublist coalesceRange_ids_sublist⟩
  case case3 current rest _ _ next ih | case5 current rest _ _ next ih =>
    intro hlt hnd
    have hnd' := hnd.sublist coalesceRange_ids_sublist
    have hlt' := coalesceRange_ids_lt hlt
    rw [List.map_cons, List.nodup_cons] at hnd'
    obtain ⟨hle, hmem, hndNext⟩ := ih (fun r hr => hlt' r (List.mem_cons_of_mem _ hr)) hnd'.2
    refine ⟨hle, fun r hr => ?_, ?_⟩
    · rcases List.mem_cons.mp hr with rfl | hr
      · exact ⟨lt_of_lt_of_le (hlt' _ List.mem_cons_self) hle,
          .inl (mem_ids_of_mem_coalesceRange (List.mem_map_of_mem List.mem_cons_self))⟩
      · exact ⟨(hmem r hr).1, (hmem r hr).2.imp_left fun h =>
          mem_ids_of_mem_coalesceRange (List.mem_cons_of_mem _ h)⟩
    · -- the address of the head is neither further on in the list nor fresh
      rw [List.map_cons, List.nodup_cons]
      refine ⟨fun hin => ?_, hndNext⟩
      obtain ⟨r, hr, hid⟩ := List.mem_map.mp hin
      rcases (hmem r hr).2 with h | h
      · exact hnd'.1 (hid ▸ h)
      · exact absurd (hlt' _ List.mem_cons_self) (by omega)
  case case7 nextId current rest _ _ split fetching _ _ =>
    intro hlt hnd
    have hnd' := hnd.sublist coalesceRange_ids_sublist
    have hlt' := coalesceRange_ids_lt hlt
    have hfetching : fetching.id = current.id := by simp [fetching, split]
    obtain ⟨hle, hmem, hndSplit⟩ := splitRange_ids batchSize nextId hlt' hnd'
    have hle : nextId ≤ split.2.2 := hle
    refine ⟨hle, fun r hr => ?_, ?_⟩
    · rcases List.mem_cons.mp hr with rfl | hr
      · rw [hfetching]
        exact ⟨lt_of_lt_of_le (hlt _ List.mem_cons_self) hle,
          .inl (List.mem_map_of_mem List.mem_cons_self)⟩
      · exact ⟨(hmem r hr).1, (hmem r hr).2.imp
          (fun h => mem_ids_of_mem_coalesceRange (List.mem_cons_of_mem _ h)) fun h => le_of_eq h.symm⟩
    · show (fetching.id :: split.2.1.map Range.id).Nodup
      rw [coalesceRange_id] at hndSplit
      rw [hfetching]
      exact hndSplit
  case case8 nextId current rest _ _ split fetching _ _ next ih =>
    intro hlt hnd
    have hnd' := hnd.sublist coalesceRange_ids_sublist
    have hlt' := coalesceRange_ids_lt hlt
    have hfetching : fetching.id = current.id := by simp [fetching, split]
    obtain ⟨hle, hmem, hndSplit⟩ := splitRange_ids batchSize nextId hlt' hnd'
    have hle : nextId ≤ split.2.2 := hle
    rw [List.nodup_cons, coalesceRange_id] at hndSplit
    obtain ⟨hleNext, hmemNext, hndNext⟩ := ih (fun r hr => (hmem r hr).1) hndSplit.2
    refine ⟨hle.trans hleNext, fun r hr => ?_, ?_⟩
    · rcases List.mem_cons.mp hr with rfl | hr
      · rw [hfetching]
        exact ⟨lt_of_lt_of_le (hlt _ List.mem_cons_self) (hle.trans hleNext),
          .inl (List.mem_map_of_mem List.mem_cons_self)⟩
      · refine ⟨(hmemNext r hr).1, ?_⟩
        rcases (hmemNext r hr).2 with h | h
        · obtain ⟨r', hr', hid⟩ := List.mem_map.mp h
          exact hid ▸ (hmem r' hr').2.imp
            (fun h => mem_ids_of_mem_coalesceRange (List.mem_cons_of_mem _ h)) fun h => le_of_eq h.symm
        · exact .inr (hle.trans h)
    · show (fetching.id :: next.1.map Range.id).Nodup
      rw [List.nodup_cons, hfetching]
      refine ⟨fun hin => ?_, hndNext⟩
      obtain ⟨r, hr, hid⟩ := List.mem_map.mp hin
      rcases (hmemNext r hr).2 with h | h
      · exact hndSplit.1 (hid ▸ h)
      · exact absurd (hlt current List.mem_cons_self) (by omega)

theorem walkFrom_locate_fetching (index numFetch nextId : Nat) (ranges : List Range) :
    (∀ r ∈ ranges, r.id < nextId) → ∀ k o r, locate Range.id Range.size k ranges = some (o, r) →
      r.state = .fetching →
      locate Range.id Range.size k
        (walkFrom batchSize concurrentFetches remoteTreeSize index numFetch nextId ranges).1 =
          some (o, r) := by
  fun_induction walkFrom batchSize concurrentFetches remoteTreeSize index numFetch nextId ranges
  case case1 => exact fun _ k o r h => by cases h
  case case2 | case4 | case6 => exact fun _ k o r h hr => locate_coalesceRange h hr
  case case3 current rest _ _ next ih | case5 current rest _ _ next ih =>
    intro hlt k o r h hr
    have h' := locate_coalesceRange h hr
    by_cases hk : (coalesceRange current rest).1.id = k
    · rw [locate_cons_of_eq hk] at h' ⊢
      exact h'
    · obtain ⟨o', hloc, ho⟩ := locate_of_locate_cons_of_ne hk h'
      have hlt' := coalesceRange_ids_lt hlt
      rw [locate_cons_of_ne_of_eq_some hk (ih (fun r hr => hlt' r (List.mem_cons_of_mem _ hr)) k o' r
        hloc hr)]
      rw [show o = _ from ho]
  case case7 nextId current rest hstate _ split fetching _ _ =>
    intro hlt k o r h hr
    obtain ⟨hk, o', hloc, ho⟩ := locate_of_want_head batchSize nextId hstate hlt h hr
    have hk : fetching.id ≠ k := hk
    show locate Range.id Range.size k (fetching :: split.2.1) = some (o, r)
    rw [locate_cons_of_ne_of_eq_some hk hloc, ← ho]
  case case8 nextId current rest hstate _ split fetching _ _ next ih =>
    intro hlt k o r h hr
    obtain ⟨hk, o', hloc, ho⟩ := locate_of_want_head batchSize nextId hstate hlt h hr
    have hk : fetching.id ≠ k := hk
    show locate Range.id Range.size k (fetching :: next.1) = some (o, r)
    rw [locate_cons_of_ne_of_eq_some hk
      (ih (splitRange_ids_lt (coalesceRange_ids_lt hlt)) k o' r hloc hr), ← ho]

theorem walkFrom_fetch_ranges (index numFetch nextId : Nat) (ranges : List Range) :
    ∀ p ∈ (walkFrom batchSize concurrentFetches remoteTreeSize index numFetch nextId ranges).2.1,
      (∃ r ∈ ranges, r.state = .want ∧ r.id = p.range) ∨ nextId ≤ p.range := by
  fun_induction walkFrom batchSize concurrentFetches remoteTreeSize index numFetch nextId ranges
  case case1 | case2 | case4 | case6 => exact fun p hp => by cases hp
  case case3 current rest _ _ next ih | case5 current rest _ _ next ih =>
    intro p hp
    rcases ih p hp with ⟨r, hr, hw, hid⟩ | h
    · exact .inl ⟨r, List.mem_cons_of_mem _ (mem_of_mem_coalesceRange hr), hw, hid⟩
    · exact .inr h
  case case7 nextId current rest hstate _ split fetching fetch _ =>
    intro p hp
    rw [List.mem_singleton.mp hp]
    exact .inl ⟨current, List.mem_cons_self, by simpa using hstate, by simp [fetch, fetching, split]⟩
  case case8 nextId current rest hstate _ split fetching fetch _ next ih =>
    intro p hp
    rcases List.mem_cons.mp hp with rfl | hp
    · exact .inl ⟨current, List.mem_cons_self, by simpa using hstate, by simp [fetch, fetching, split]⟩
    · have hle : nextId ≤ split.2.2 := le_splitRange_nextId
      rcases ih p hp with ⟨r, hr, hw, hid⟩ | h
      · rcases mem_splitRange hr with hr | ⟨hid', -⟩
        · exact .inl ⟨r, List.mem_cons_of_mem _ (mem_of_mem_coalesceRange hr), hw, hid⟩
        · exact .inr (by omega)
      · exact .inr (by omega)

theorem id_ne_of_fetch_range {a : Range} {l : List Range} {n x : Nat}
    (hnd : ((a :: l).map Range.id).Nodup) (hlt : a.id < n)
    (h : (∃ r ∈ l, r.state = .want ∧ r.id = x) ∨ n ≤ x) : a.id ≠ x := by
  rintro rfl
  rcases h with ⟨r, hr, -, hid⟩ | h
  · rw [List.map_cons, List.nodup_cons] at hnd
    exact hnd.1 (hid ▸ List.mem_map_of_mem hr)
  · omega

theorem walkFrom_fetches (index numFetch nextId : Nat) (ranges : List Range) :
    (∀ r ∈ ranges, r.id < nextId) → (ranges.map Range.id).Nodup →
      ∀ p ∈ (walkFrom batchSize concurrentFetches remoteTreeSize index numFetch nextId ranges).2.1,
        ∃ o r, locate Range.id Range.size p.range
            (walkFrom batchSize concurrentFetches remoteTreeSize index numFetch nextId ranges).1 =
              some (o, r) ∧
          p.index = index + o ∧ r.state = .fetching ∧ p.endIndex = p.index + r.size - 1 := by
  fun_induction walkFrom batchSize concurrentFetches remoteTreeSize index numFetch nextId ranges
  case case1 | case2 | case4 | case6 => exact fun _ _ p hp => by cases hp
  case case3 index _ nextId current rest _ _ next ih | case5 index _ nextId current rest _ _ next ih =>
    intro hlt hnd p hp
    have hnd' := hnd.sublist coalesceRange_ids_sublist
    have hlt' := coalesceRange_ids_lt hlt
    obtain ⟨o, r, hloc, hidx, hr, hend⟩ :=
      ih (fun r hr => hlt' r (List.mem_cons_of_mem _ hr)) (List.nodup_cons.mp hnd').2 p hp
    have hne := id_ne_of_fetch_range hnd' (hlt' _ List.mem_cons_self)
      (walkFrom_fetch_ranges _ _ _ _ _ _ _ p hp)
    exact ⟨_, r, locate_cons_of_ne_of_eq_some hne hloc, by rw [hidx]; omega, hr, hend⟩
  case case7 =>
    intro _ _ p hp
    rw [List.mem_singleton.mp hp]
    exact ⟨0, _, locate_cons_of_eq rfl, rfl, rfl, rfl⟩
  case case8 index _ nextId current rest _ _ split fetching _ _ next ih =>
    intro hlt hnd p hp
    rcases List.mem_cons.mp hp with rfl | hp
    · exact ⟨0, _, locate_cons_of_eq rfl, rfl, rfl, rfl⟩
    have hnd' := hnd.sublist coalesceRange_ids_sublist
    have hlt' := coalesceRange_ids_lt hlt
    have hfetching : fetching.id = current.id := by simp [fetching, split]
    obtain ⟨hle, hmem, hndSplit⟩ := splitRange_ids batchSize nextId hlt' hnd'
    rw [coalesceRange_id, ← hfetching] at hndSplit
    obtain ⟨o, r, hloc, hidx, hr, hend⟩ :=
      ih (fun r hr => (hmem r hr).1) (List.nodup_cons.mp hndSplit).2 p hp
    have hne := id_ne_of_fetch_range hndSplit
      (hfetching ▸ lt_of_lt_of_le (hlt current List.mem_cons_self) hle)
      (walkFrom_fetch_ranges _ _ _ _ _ _ _ p hp)
    exact ⟨_, r, locate_cons_of_ne_of_eq_some hne hloc, by rw [hidx]; omega, hr, hend⟩

end Walk

theorem prune_spec (remoteTreeSize : Int) :
    ∀ (start : Nat) (ranges : List Range), ∃ dropped,
      ranges = dropped ++ (prune remoteTreeSize start ranges).2 ∧
      (prune remoteTreeSize start ranges).1 = start + (dropped.map Range.size).sum ∧
      ForallOffsets Range.size
        (fun o r => r.state = .haveEntries ∨ (r.state = .want ∧ remoteTreeSize < o)) start dropped
  | start, [] => ⟨[], rfl, rfl, trivial⟩
  | start, r :: rest => by
    by_cases h : r.state = .haveEntries ∨ (r.state = .want ∧ remoteTreeSize < start)
    · obtain ⟨dropped, hrest, hstart, hdropped⟩ := prune_spec remoteTreeSize (start + r.size) rest
      refine ⟨r :: dropped, ?_, ?_, h, hdropped⟩
      · rw [prune, if_pos h, List.cons_append, ← hrest]
      · rw [prune, if_pos h, hstart, List.map_cons, List.sum_cons, Nat.add_assoc]
    · exact ⟨[], by rw [prune, if_neg h]; rfl, by rw [prune, if_neg h]; rfl, trivial⟩

end FetchState

end CertTrans
