import Mathlib.Data.List.Nodup

/-! Python dictionaries: entries with distinct keys, in the order in which the keys came in. -/
namespace Python

@[ext] structure Dict (κ α : Type) where
  items : List (κ × α)
  distinct : (items.map Prod.fst).Nodup

namespace Dict
variable {κ α : Type}

/-- `dict.keys()` -/
def keys (dict : Dict κ α) : List κ := dict.items.map Prod.fst

/-- `{}` -/
def empty : Dict κ α := ⟨[],List.nodup_nil⟩

variable [DecidableEq κ]

/-- `dict.get(key)` -/
def get? (dict : Dict κ α) (key : κ) : Option α := dict.items.lookup key

/-- A key that is there keeps its place, a new one comes last. -/
def assign (key : κ) (value : α) : List (κ × α) → List (κ × α)
  | [] => [(key,value)]
  | entry::rest => if entry.1 = key then (key,value)::rest else entry::assign key value rest

theorem keys_assign (key : κ) (value : α) (entries : List (κ × α)) : (assign key value entries).map Prod.fst =
    if key ∈ entries.map Prod.fst then entries.map Prod.fst else entries.map Prod.fst ++ [key] := by
  induction entries with
  | nil => rfl
  | cons entry rest ih =>
    unfold assign
    by_cases same : entry.1 = key
    · simp [same]
    · rw [if_neg same,List.map_cons,ih,List.map_cons]
      by_cases later : key ∈ rest.map Prod.fst
      · rw [if_pos later,if_pos (List.mem_cons_of_mem _ later)]
      · rw [if_neg later,if_neg (List.not_mem_cons_of_ne_of_not_mem (Ne.symm same) later),List.cons_append]

theorem nodup_assign {entries : List (κ × α)} (key : κ) (value : α) (distinct : (entries.map Prod.fst).Nodup) :
    ((assign key value entries).map Prod.fst).Nodup := by
  rw [keys_assign]
  split
  · exact distinct
  next fresh => exact distinct.append (List.nodup_singleton key) (List.disjoint_singleton.mpr fresh)

theorem mem_assign {key : κ} {value : α} {entry : κ × α} {entries : List (κ × α)} (member : entry ∈ assign key value entries) :
    entry = (key,value) ∨ entry ∈ entries := by
  induction entries with
  | nil => exact .inl (List.mem_singleton.mp member)
  | cons head rest ih =>
    simp only [assign] at member
    split at member
    · rcases List.mem_cons.mp member with here | inside
      · exact .inl here
      · exact .inr (List.mem_cons_of_mem _ inside)
    · rcases List.mem_cons.mp member with rfl | inside
      · exact .inr List.mem_cons_self
      · exact (ih inside).imp_right (List.mem_cons_of_mem _)

/-- Where all entries of the key are chosen or none is, those that are chosen are a dictionary of their own. -/
theorem filter_assign {key : κ} {value : α} {entries : List (κ × α)} (p : κ × α → Bool)
    (same : ∀ entry ∈ entries, entry.1 = key → p entry = p (key,value)) :
    (assign key value entries).filter p =
      if p (key,value) then assign key value (entries.filter p) else entries.filter p := by
  induction entries with
  | nil =>
    simp only [assign,List.filter_cons,List.filter_nil]
  | cons head rest ih =>
    rw [List.forall_mem_cons] at same
    have tail := ih same.2
    cases chosen : p (key,value) with
    | true =>
      rw [chosen] at tail same
      simp only [assign,if_true] at tail ⊢
      by_cases here : head.1 = key
      · simp [here,chosen,same.1 here,assign]
      · cases keeps : p head with
        | true => simp [here,keeps,assign,tail]
        | false => simp [here,keeps,tail]
    | false =>
      rw [chosen] at tail same
      simp only [assign,Bool.false_eq_true,if_false] at tail ⊢
      by_cases here : head.1 = key
      · simp [here,chosen,same.1 here]
      · simp [here,List.filter_cons,tail]

/-- `dict[key] = value` -/
def set (dict : Dict κ α) (key : κ) (value : α) : Dict κ α :=
  ⟨assign key value dict.items,nodup_assign key value dict.distinct⟩

theorem lookup_cons_of_ne {key other : κ} (apart : other ≠ key) (value : α) (rest : List (κ × α)) :
    ((key,value)::rest).lookup other = rest.lookup other := by
  rw [List.lookup_cons,beq_eq_false_iff_ne.mpr apart]

theorem lookup_assign (key other : κ) (value : α) (entries : List (κ × α)) :
    (assign key value entries).lookup other = if other = key then some value else entries.lookup other := by
  induction entries with
  | nil =>
    by_cases same : other = key
    · rw [if_pos same,same]
      exact List.lookup_cons_self
    · rw [if_neg same]
      exact lookup_cons_of_ne same value []
  | cons entry rest ih =>
    obtain ⟨first,held⟩ := entry
    unfold assign
    by_cases here : first = key
    · subst here
      rw [if_pos rfl]
      by_cases same : other = first
      · rw [if_pos same,same,List.lookup_cons_self]
      · rw [if_neg same,lookup_cons_of_ne same,lookup_cons_of_ne same]
    · rw [if_neg here]
      by_cases same : other = first
      · rw [same,List.lookup_cons_self,List.lookup_cons_self,if_neg here]
      · rw [lookup_cons_of_ne same,lookup_cons_of_ne same,ih]

theorem assign_assign (key : κ) (first second : α) (entries : List (κ × α)) :
    assign key second (assign key first entries) = assign key second entries := by
  induction entries with
  | nil => simp [assign]
  | cons entry rest ih =>
    by_cases here : entry.1 = key
    · simp [assign,here]
    · simp [assign,here,ih]

theorem assign_eq_self {key : κ} {value : α} {entries : List (κ × α)} (held : entries.lookup key = some value) :
    assign key value entries = entries := by
  induction entries with
  | nil => cases held
  | cons entry rest ih =>
    obtain ⟨first,kept⟩ := entry
    by_cases here : first = key
    · subst here
      rw [List.lookup_cons_self] at held
      rw [assign,if_pos rfl,Option.some.inj held]
    · rw [lookup_cons_of_ne (Ne.symm here)] at held
      rw [assign,if_neg here,ih held]

theorem filter_entries {key : κ} {entries : List (κ × α)} (distinct : (entries.map Prod.fst).Nodup) :
    entries.filter (fun entry => entry.1 = key) = ((entries.lookup key).map (fun value => (key,value))).toList := by
  induction entries with
  | nil => rfl
  | cons entry rest ih =>
    obtain ⟨first,held⟩ := entry
    obtain ⟨absent,others⟩ := List.nodup_cons.mp distinct
    by_cases here : first = key
    · subst here
      have none_left : rest.filter (fun entry => entry.1 = first) = [] := by
        refine List.filter_eq_nil_iff.mpr fun entry member same => ?_
        exact absent (List.mem_map.mpr ⟨entry,member,of_decide_eq_true same⟩)
      rw [List.filter_cons,if_pos (by simp),none_left,List.lookup_cons_self]
      rfl
    · rw [List.filter_cons_of_neg (by simpa using here),lookup_cons_of_ne (Ne.symm here)]
      exact ih others

variable {dict : Dict κ α} {key other : κ} {value first second : α}

@[simp] theorem get?_empty : (empty : Dict κ α).get? key = none := rfl

theorem get?_set : (dict.set key value).get? other = if other = key then some value else dict.get? other :=
  lookup_assign key other value dict.items

@[simp] theorem get?_set_self : (dict.set key value).get? key = some value := by rw [get?_set,if_pos rfl]

@[simp] theorem set_set : (dict.set key first).set key second = dict.set key second :=
  Dict.ext (assign_assign key first second dict.items)

theorem set_eq_self (held : dict.get? key = some value) : dict.set key value = dict :=
  Dict.ext (assign_eq_self held)

theorem mem_keys : key ∈ dict.keys ↔ (dict.get? key).isSome = true := by
  rw [get?,List.lookup_isSome_iff,keys,List.mem_map]
  constructor
  · rintro ⟨entry,member,rfl⟩
    exact ⟨entry,member,beq_self_eq_true _⟩
  · rintro ⟨entry,member,same⟩
    exact ⟨entry,member,(beq_iff_eq.mp same).symm⟩

/-- The one entry that a key may have. -/
theorem filter_items (dict : Dict κ α) (key : κ) :
    dict.items.filter (fun entry => entry.1 = key) = ((dict.get? key).map (fun value => (key,value))).toList :=
  filter_entries dict.distinct

end Dict
end Python
