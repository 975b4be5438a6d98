import Mathlib.Data.List.Perm.Basic

/-! Bags of tokens, counted in any order.
Tokens are kept in places: in the entries of a list that is changed at one index at a
time, or in items that hold some each. Taking a token away leaves the bags of all other
places as they are. -/
namespace Interleave
open List
variable {A I T : Type}

theorem filterMap_eraseIdx {items : List A} {index : Nat} {item : A} (token : A → Option T)
    (found : items[index]? = some item) :
    items.filterMap token ~ (token item).toList ++ (items.eraseIdx index).filterMap token := by
  obtain ⟨bound,rfl⟩ := List.getElem?_eq_some_iff.mp found
  have taken := (List.getElem_cons_eraseIdx_perm bound).symm.filterMap token
  rw [List.filterMap_cons] at taken
  cases held : token items[index] with
  | none => simpa only [held,Option.toList_none,List.nil_append] using taken
  | some one => simpa only [held,Option.toList_some,List.singleton_append] using taken

theorem filterMap_set {items : List A} {index : Nat} (bound : index < items.length) (token : A → Option T) (item : A) :
    (items.set index item).filterMap token ~ (token item).toList ++ (items.eraseIdx index).filterMap token := by
  have put := (List.set_perm_cons_eraseIdx bound item).filterMap token
  rw [List.filterMap_cons] at put
  cases held : token item with
  | none => simpa only [held,Option.toList_none,List.nil_append] using put
  | some one => simpa only [held,Option.toList_some,List.singleton_append] using put

/-- A token of a bag is held by one of the items, which holds the rest of its own with those of the others. -/
theorem flatMap_cons {items : List I} {bag : I → List T} {token : T} {others : List T}
    (held : token::others ~ items.flatMap bag) :
    ∃ item rest own, items ~ item::rest ∧ bag item ~ token::own ∧ others ~ own ++ rest.flatMap bag := by
  have member : token ∈ items.flatMap bag := held.subset List.mem_cons_self
  obtain ⟨item,among,inside⟩ := List.mem_flatMap.mp member
  obtain ⟨front,back,rfl⟩ := List.append_of_mem among
  obtain ⟨before,after,holds⟩ := List.append_of_mem inside
  have first : front ++ item::back ~ item::(front ++ back) := List.perm_middle
  have own : bag item ~ token::(before ++ after) := holds ▸ List.perm_middle
  refine ⟨item,front ++ back,before ++ after,first,own,?_⟩
  have whole : (front ++ item::back).flatMap bag ~ token::((before ++ after) ++ (front ++ back).flatMap bag) :=
    (first.flatMap_right bag).trans (own.append_right _)
  exact (held.trans whole).cons_inv

end Interleave
