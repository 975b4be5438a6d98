import Mathlib.Data.List.Dedup
import Mathlib.Order.Lattice

/-! Queries of one table. The list of its rows is the order in which the database returns those
that a query does not put in order; it may be any. -/
namespace Sql

section lists
variable {α : Type} {rows : List α} {first second : α}

theorem pair_sublist_total (one : first ∈ rows) (two : second ∈ rows) (apart : first ≠ second) :
    [first,second].Sublist rows ∨ [second,first].Sublist rows := by
  obtain ⟨front,back,rfl⟩ := List.append_of_mem one
  rcases List.mem_append.mp two with early | late
  · exact .inr ((List.singleton_sublist.mpr early).append (List.singleton_sublist.mpr List.mem_cons_self))
  · have there : second ∈ back := (List.mem_cons.mp late).resolve_left (Ne.symm apart)
    exact .inl (((List.singleton_sublist.mpr there).cons_cons first).trans (List.sublist_append_right front _))

theorem pair_sublist_asymm (distinct : rows.Nodup) (forth : [first,second].Sublist rows) :
    ¬[second,first].Sublist rows := by
  intro back
  induction rows with
  | nil => cases forth
  | cons head rest ih =>
    obtain ⟨absent,others⟩ := List.nodup_cons.mp distinct
    rcases List.sublist_cons_iff.mp forth with forth | ⟨_,same,ahead⟩
    · rcases List.sublist_cons_iff.mp back with back | ⟨_,same,_⟩
      · exact ih others forth back
      · refine absent ?_
        rw [← (List.cons.inj same).1]
        exact forth.mem (List.mem_cons_of_mem _ List.mem_cons_self)
    · rcases List.sublist_cons_iff.mp back with back | ⟨_,also,_⟩
      · refine absent ?_
        rw [← (List.cons.inj same).1]
        exact back.mem (List.mem_cons_of_mem _ List.mem_cons_self)
      · refine absent ?_
        rw [← (List.cons.inj also).1]
        obtain ⟨_,rfl⟩ := List.cons.inj same
        exact ahead.mem List.mem_cons_self

end lists

section order
variable {α β : Type} [LinearOrder β]

/-- `ORDER BY column DESC` -/
def orderByDesc (column : α → β) (rows : List α) : List α :=
  rows.mergeSort (fun first second => decide (column second ≤ column first))

/-- The first row is returned before the second. -/
def Precedes (column : α → β) (rows : List α) (first second : α) : Prop :=
  column second < column first ∨ column second = column first ∧ [first,second].Sublist rows

variable {column : α → β} {rows : List α} {first second row : α}

theorem mem_orderByDesc : row ∈ orderByDesc column rows ↔ row ∈ rows := List.mem_mergeSort

theorem nodup_orderByDesc (distinct : rows.Nodup) : (orderByDesc column rows).Nodup :=
  (List.mergeSort_perm _ _).nodup_iff.mpr distinct

theorem descending_trans (first second third : α) (above : decide (column second ≤ column first) = true)
    (below : decide (column third ≤ column second) = true) : decide (column third ≤ column first) = true :=
  decide_eq_true (le_trans (of_decide_eq_true below) (of_decide_eq_true above))

theorem descending_total (first second : α) :
    (decide (column second ≤ column first) || decide (column first ≤ column second)) = true := by
  simpa using le_total (column second) (column first)

theorem pairwise_orderByDesc : (orderByDesc column rows).Pairwise (fun first second => column second ≤ column first) :=
  (List.pairwise_mergeSort descending_trans descending_total rows).imp of_decide_eq_true

theorem Precedes.total (column : α → β) (one : first ∈ rows) (two : second ∈ rows) (apart : first ≠ second) :
    Precedes column rows first second ∨ Precedes column rows second first := by
  rcases lt_trichotomy (column first) (column second) with less | same | more
  · exact .inr (.inl less)
  · exact (pair_sublist_total one two apart).imp (fun early => .inr ⟨same.symm,early⟩) fun late => .inr ⟨same,late⟩
  · exact .inl (.inl more)

theorem Precedes.asymm (distinct : rows.Nodup) (forth : Precedes column rows first second) :
    ¬Precedes column rows second first := by
  rintro (less | ⟨same,late⟩)
  · rcases forth with more | ⟨same,_⟩
    · exact lt_asymm less more
    · exact less.ne same.symm
  · rcases forth with more | ⟨_,early⟩
    · exact more.ne same.symm
    · exact pair_sublist_asymm distinct early late

/-- The order of the query, in its result. -/
theorem Precedes.sublist (before : Precedes column rows first second) (one : first ∈ rows) (two : second ∈ rows) :
    [first,second].Sublist (orderByDesc column rows) := by
  rcases before with more | ⟨same,early⟩
  · have apart : first ≠ second := fun equal => more.ne (congrArg column equal.symm)
    refine (pair_sublist_total (mem_orderByDesc.mpr one) (mem_orderByDesc.mpr two) apart).resolve_right fun late => ?_
    have ordered := pairwise_orderByDesc.sublist late
    exact absurd more (List.rel_of_pairwise_cons ordered List.mem_cons_self).not_gt
  · exact List.pair_sublist_mergeSort descending_trans descending_total (decide_eq_true same.le) early

/-- All but the first row of a result: the rows that another one precedes. -/
theorem mem_tail_orderByDesc (distinct : rows.Nodup) : row ∈ (orderByDesc column rows).drop 1 ↔
    row ∈ rows ∧ ∃ other ∈ rows, Precedes column rows other row := by
  have sorted : (orderByDesc column rows).Nodup := nodup_orderByDesc distinct
  constructor
  · intro late
    have there : row ∈ rows := mem_orderByDesc.mp (List.mem_of_mem_drop late)
    refine ⟨there,?_⟩
    cases result : orderByDesc column rows with
    | nil =>
      rw [result] at late
      exact absurd late List.not_mem_nil
    | cons head rest =>
      rw [result] at late sorted
      have first : head ∈ rows := mem_orderByDesc.mp (result ▸ List.mem_cons_self)
      have apart : head ≠ row := fun same => (List.nodup_cons.mp sorted).1 (same ▸ late)
      refine ⟨head,first,(Precedes.total column first there apart).resolve_right fun before => ?_⟩
      have behind := before.sublist there first
      rw [result] at behind
      exact pair_sublist_asymm sorted ((List.singleton_sublist.mpr late).cons_cons head) behind
  · rintro ⟨there,other,also,before⟩
    rw [List.drop_one]
    exact (before.sublist also there).tail.mem List.mem_cons_self

/-- Some row is not preceded by another. -/
theorem exists_first (column : α → β) (distinct : rows.Nodup) (there : row ∈ rows) :
    ∃ first ∈ rows, ∀ other ∈ rows, ¬Precedes column rows other first := by
  have sorted : (orderByDesc column rows).Nodup := nodup_orderByDesc distinct
  have some_row : row ∈ orderByDesc column rows := mem_orderByDesc.mpr there
  cases result : orderByDesc column rows with
  | nil =>
    rw [result] at some_row
    exact absurd some_row List.not_mem_nil
  | cons head rest =>
    have first : head ∈ rows := mem_orderByDesc.mp (result ▸ List.mem_cons_self)
    refine ⟨head,first,fun other also before => ?_⟩
    have late := (mem_tail_orderByDesc distinct).mpr ⟨first,other,also,before⟩
    rw [result] at late sorted
    exact (List.nodup_cons.mp sorted).1 late

theorem precedes_filter {p : α → Bool} (one : p first = true) (two : p second = true) :
    Precedes column (rows.filter p) first second ↔ Precedes column rows first second := by
  refine or_congr_right (and_congr_right fun _ => ⟨fun early => early.trans List.filter_sublist,fun early => ?_⟩)
  have kept := early.filter p
  rwa [List.filter_cons_of_pos one,List.filter_cons_of_pos two] at kept

end order

section groups
variable {α κ : Type} [DecidableEq κ] (key : α → κ)

/-- `GROUP BY key HAVING COUNT(*) > 1`; a null is a key like another. -/
def repeatedKeys (rows : List α) : List κ :=
  (rows.map key).dedup.filter (fun value => 1 < (rows.filter (key · = value)).length)

theorem nodup_repeatedKeys (rows : List α) : (repeatedKeys key rows).Nodup := (List.nodup_dedup _).filter _

/-- A row whose key is not repeated is the only one of its group. -/
theorem eq_of_not_repeated {rows : List α} {first second : α} (one : first ∈ rows) (two : second ∈ rows)
    (same : key first = key second) (single : key second ∉ repeatedKeys key rows) : first = second := by
  have few : (rows.filter (key · = key second)).length ≤ 1 := by
    refine Nat.not_lt.mp fun many => single ?_
    exact List.mem_filter.mpr ⟨List.mem_dedup.mpr (List.mem_map_of_mem two),decide_eq_true many⟩
  have here : first ∈ rows.filter (key · = key second) := List.mem_filter.mpr ⟨one,decide_eq_true same⟩
  have also : second ∈ rows.filter (key · = key second) := List.mem_filter.mpr ⟨two,decide_eq_true rfl⟩
  obtain ⟨only,found⟩ := List.length_eq_one_iff.mp (Nat.le_antisymm few (List.length_pos_of_mem here))
  rw [found,List.mem_singleton] at here also
  rw [here,also]

/-- Within a group rows are ordered as in the whole table. -/
theorem precedes_group {β : Type} [LinearOrder β] {column : α → β} {rows : List α} {first second : α}
    (same : key first = key second) :
    Precedes column (rows.filter (key · = key second)) first second ↔ Precedes column rows first second :=
  precedes_filter (p := fun row => decide (key row = key second)) (decide_eq_true same) (decide_eq_true rfl)

end groups
end Sql
