import Mathlib.Data.Set.Card
import Mathlib.Data.Set.Finite.List
import Mathlib.Data.Fintype.Card
import Mathlib.Logic.Relation
import Mathlib.Algebra.Order.BigOperators.Group.List

/-! Walks in a finite directed multigraph, from start vertices to a vertex.
A walk is the list of the positions of its edges, so that parallel edges make
different walks. A quantity that every edge passes on at most once is bounded by
the number of walks wherever its support has no infinite past. -/
namespace Interleave
open Relation

variable {V E : Type} (edges : List E) (source target : E → V) (start : V → Prop)

/-- A walk to a vertex, the last edge first. -/
inductive Walk : V → List Nat → Prop
  | here (vertex : V) (starts : start vertex) : Walk vertex []
  | step (index : Nat) (edge : E) (rest : List Nat) (found : edges[index]? = some edge)
      (before : Walk (source edge) rest) : Walk (target edge) (index::rest)

def walks (vertex : V) : Set (List Nat) := {walk | Walk edges source target start vertex walk}

/-- An edge leads from the first vertex to the second. -/
def Feeds (first second : V) : Prop := ∃ edge ∈ edges, source edge = first ∧ target edge = second

/-- A vertex on a cycle, or behind one. -/
def Cyclic (vertex : V) : Prop :=
  ∃ turn, TransGen (Feeds edges source target) turn turn ∧ ReflTransGen (Feeds edges source target) turn vertex

section ranked
variable {edges source target start} {live : V → Prop} {rank : V → Nat}
  (ranked : ∀ first second, Feeds edges source target first second → live second → live first ∧ rank first < rank second)
include ranked

theorem ranked_trans {first second : V} (leads : TransGen (Feeds edges source target) first second) (alive : live second) :
    live first ∧ rank first < rank second := by
  induction leads with
  | single edge => exact ranked _ _ edge alive
  | tail _ edge ih =>
    obtain ⟨before,lower⟩ := ranked _ _ edge alive
    obtain ⟨first,below⟩ := ih before
    exact ⟨first,Nat.lt_trans below lower⟩

/-- A set of vertices that is closed under predecessors of smaller rank meets no cycle. -/
theorem ranked_acyclic {vertex : V} (alive : live vertex) : ¬Cyclic edges source target vertex := by
  rintro ⟨turn,cycle,leads⟩
  have there : live turn := by
    rcases ReflTransGen.cases_head_iff.mp leads with rfl | ⟨middle,edge,rest⟩
    · exact alive
    · exact (ranked_trans ranked (TransGen.head' edge rest) alive).1
  exact Nat.lt_irrefl _ (ranked_trans ranked cycle there).2

end ranked

section counting
variable {edges source target start} [DecidableEq V]

/-- The edges into a vertex, with their positions. -/
def incoming (edges : List E) (target : E → V) (vertex : V) : List (E × Nat) :=
  edges.zipIdx.filter (fun entry => target entry.1 = vertex)

theorem mem_incoming {vertex : V} {edge : E} {index : Nat} :
    (edge,index) ∈ incoming edges target vertex ↔ edges[index]? = some edge ∧ target edge = vertex := by
  simp [incoming,List.mk_mem_zipIdx_iff_getElem?]

theorem incoming_nodup (edges : List E) (target : E → V) (vertex : V) :
    ((incoming edges target vertex).map Prod.snd).Nodup := by
  have all : (edges.zipIdx.map Prod.snd).Nodup := by
    rw [List.zipIdx_map_snd]
    exact List.nodup_range'
  exact all.sublist (List.filter_sublist.map _)

/-- Walks to the sources of the edges into a vertex, each continued along its edge. -/
def extended (edges : List E) (source target : E → V) (before : V → List (List Nat)) (vertex : V) : List (List Nat) :=
  (incoming edges target vertex).flatMap (fun entry => (before (source entry.1)).map (entry.2::·))

theorem extended_nodup {before : V → List (List Nat)} {vertex : V}
    (distinct : ∀ edge ∈ edges, target edge = vertex → (before (source edge)).Nodup) :
    (extended edges source target before vertex).Nodup := by
  refine List.nodup_flatMap.mpr ⟨fun entry member => ?_,?_⟩
  · obtain ⟨edge,index⟩ := entry
    obtain ⟨found,arrives⟩ := mem_incoming.mp member
    exact (distinct edge (List.mem_of_getElem? found) arrives).map (List.cons_injective)
  · refine (List.pairwise_map.mp (incoming_nodup edges target vertex)).imp (fun differ => ?_)
    intro walk first second
    obtain ⟨_,_,rfl⟩ := List.mem_map.mp first
    obtain ⟨_,_,same⟩ := List.mem_map.mp second
    exact differ (List.cons.inj same).1.symm

theorem extended_walk {before : V → List (List Nat)} {vertex : V} {walk : List Nat}
    (walks : ∀ edge ∈ edges, target edge = vertex → ∀ rest ∈ before (source edge), Walk edges source target start (source edge) rest)
    (member : walk ∈ extended edges source target before vertex) : Walk edges source target start vertex walk := by
  obtain ⟨⟨edge,index⟩,inside,continued⟩ := List.mem_flatMap.mp member
  obtain ⟨found,rfl⟩ := mem_incoming.mp inside
  obtain ⟨rest,among,rfl⟩ := List.mem_map.mp continued
  exact .step index edge rest found (walks edge (List.mem_of_getElem? found) rfl rest among)

theorem extended_length (before : V → List (List Nat)) (vertex : V) :
    (extended edges source target before vertex).length =
      ((edges.filter (fun edge => target edge = vertex)).map (fun edge => (before (source edge)).length)).sum := by
  have same : edges.filter (fun edge => target edge = vertex) = (incoming edges target vertex).map Prod.fst := by
    conv => lhs; rw [← List.zipIdx_map_fst 0 edges]
    rw [incoming,List.filter_map]
    rfl
  rw [extended,List.length_flatMap,same,List.map_map]
  simp [Function.comp_def]

variable [DecidablePred start] {count rank : V → Nat}
  (ranked : ∀ first second, Feeds edges source target first second → 0 < count second →
    0 < count first ∧ rank first < rank second)
  (passed : ∀ vertex, count vertex ≤ (if start vertex then 1 else 0) +
    ((edges.filter (fun edge => target edge = vertex)).map (fun edge => count (source edge))).sum)
include ranked passed

theorem counted_list (vertex : V) : ∃ list : List (List Nat),
    list.Nodup ∧ (∀ walk ∈ list, Walk edges source target start vertex walk) ∧ count vertex ≤ list.length := by
  induction same : rank vertex using Nat.strong_induction_on generalizing vertex with
  | _ height ih =>
    rcases Nat.eq_zero_or_pos (count vertex) with none | some
    · exact ⟨[],List.nodup_nil,fun _ member => absurd member List.not_mem_nil,none.le⟩
    have lower (edge : E) (member : edge ∈ edges) (arrives : target edge = vertex) : rank (source edge) < height :=
      same ▸ (ranked _ _ ⟨edge,member,rfl,arrives⟩ some).2
    have earlier (other : V) : ∃ list : List (List Nat), rank other < height → list.Nodup ∧
        (∀ walk ∈ list, Walk edges source target start other walk) ∧ count other ≤ list.length := by
      by_cases below : rank other < height
      · obtain ⟨list,good⟩ := ih _ below other rfl
        exact ⟨list,fun _ => good⟩
      · exact ⟨[],fun less => absurd less below⟩
    choose before good using earlier
    refine ⟨(if start vertex then [[]] else []) ++ extended edges source target before vertex,?_,?_,?_⟩
    · have rest := extended_nodup (fun edge member arrives => (good (source edge) (lower edge member arrives)).1)
      split
      · refine List.nodup_cons.mpr ⟨fun inside => ?_,rest⟩
        obtain ⟨_,_,continued⟩ := List.mem_flatMap.mp inside
        obtain ⟨_,_,absurd⟩ := List.mem_map.mp continued
        cases absurd
      · exact rest
    · intro walk member
      rcases List.mem_append.mp member with here | inside
      · split at here
        next starts =>
          cases List.mem_singleton.mp here
          exact .here vertex starts
        next => cases here
      · exact extended_walk (fun edge member arrives => (good (source edge) (lower edge member arrives)).2.1) inside
    · refine Nat.le_trans (passed vertex) ?_
      rw [List.length_append,extended_length]
      refine Nat.add_le_add ?_ (List.sum_le_sum ?_)
      · split <;> exact Nat.le_refl _
      · intro edge member
        obtain ⟨inside,arrives⟩ := List.mem_filter.mp member
        exact (good (source edge) (lower edge inside (of_decide_eq_true arrives))).2.2

/-- A count that every edge passes on at most once, from predecessors of smaller rank,
is at most the number of walks. -/
theorem counted_walks (vertex : V) :
    (count vertex : ℕ∞) ≤ (walks edges source target start vertex).encard := by
  obtain ⟨list,distinct,walk,enough⟩ := counted_list ranked passed vertex
  have inside : (list.toFinset : Set (List Nat)) ⊆ walks edges source target start vertex :=
    fun path member => walk path (List.mem_toFinset.mp member)
  calc (count vertex : ℕ∞) ≤ list.length := Nat.cast_le.mpr enough
    _ = (list.toFinset : Set (List Nat)).encard := by
      rw [Set.encard_coe_eq_coe_finsetCard,List.toFinset_card_of_nodup distinct]
    _ ≤ _ := Set.encard_le_encard inside

end counting

section finite
variable {edges source target start}

theorem Cyclic.feeds {first second : V} (cyclic : Cyclic edges source target first)
    (edge : Feeds edges source target first second) : Cyclic edges source target second := by
  obtain ⟨turn,cycle,leads⟩ := cyclic
  exact ⟨turn,cycle,leads.tail edge⟩

theorem Walk.feeds {index : Nat} {edge : E} (found : edges[index]? = some edge) :
    Feeds edges source target (source edge) (target edge) :=
  ⟨edge,List.mem_of_getElem? found,rfl,rfl⟩

/-- The rest of a walk leads from each of its edges to its end. -/
theorem Walk.leads {vertex : V} {walk : List Nat} (path : Walk edges source target start vertex walk) {index : Nat}
    {edge : E} (found : edges[index]? = some edge) (member : index ∈ walk) :
    ReflTransGen (Feeds edges source target) (target edge) vertex := by
  induction path with
  | here => cases member
  | step last final rest present before ih =>
    rcases List.mem_cons.mp member with rfl | inside
    · cases Option.some.inj (found.symm.trans present)
      exact .refl
    · exact (ih inside).tail (Walk.feeds present)

theorem Walk.nodup {vertex : V} {walk : List Nat} (path : Walk edges source target start vertex walk)
    (acyclic : ¬Cyclic edges source target vertex) : walk.Nodup := by
  induction path with
  | here => exact List.nodup_nil
  | step index edge rest found before ih =>
    have feeds : Feeds edges source target (source edge) (target edge) := Walk.feeds found
    refine List.nodup_cons.mpr ⟨fun again => acyclic ?_,ih (fun cyclic => acyclic (cyclic.feeds feeds))⟩
    exact ⟨target edge,TransGen.tail' (before.leads found again) feeds,.refl⟩

theorem Walk.bounded {vertex : V} {walk : List Nat} (path : Walk edges source target start vertex walk) :
    ∀ index ∈ walk, index < edges.length := by
  induction path with
  | here => exact fun _ member => absurd member List.not_mem_nil
  | step index edge rest found _ ih =>
    exact List.forall_mem_cons.mpr ⟨(List.getElem?_eq_some_iff.mp found).1,ih⟩

/-- Only a vertex on or behind a cycle has infinitely many walks. -/
theorem walks_finite {vertex : V} (acyclic : ¬Cyclic edges source target vertex) :
    (walks edges source target start vertex).Finite := by
  refine ((List.finite_length_le (Fin edges.length) edges.length).image (List.map Fin.val)).subset ?_
  intro walk path
  have bounded := Walk.bounded path
  have distinct := Walk.nodup path acyclic
  refine ⟨walk.pmap Fin.mk bounded,?_,?_⟩
  · have short : (walk.pmap Fin.mk bounded).length ≤ Fintype.card (Fin edges.length) :=
      List.Nodup.length_le_card (distinct.pmap (fun _ _ _ _ same => Fin.mk.inj same))
    simpa using short
  · rw [List.map_pmap]
    exact List.pmap_eq_self.mpr (fun _ _ => rfl)

section acyclic
variable {vertices : List V} (within : ∀ edge ∈ edges, source edge ∈ vertices)
  (acyclic : ∀ vertex ∈ vertices, ¬Cyclic edges source target vertex)
include within acyclic

/-- Where no vertex lies on a cycle, what passes along the edges from all sources reaches every vertex. -/
theorem acyclic_induction {P : V → Prop} {vertex : V} (member : vertex ∈ vertices)
    (step : ∀ vertex ∈ vertices, (∀ edge ∈ edges, target edge = vertex → P (source edge)) → P vertex) : P vertex := by
  let before (first second : {vertex // vertex ∈ vertices}) : Prop := TransGen (Feeds edges source target) first.1 second.1
  have : Finite {vertex // vertex ∈ vertices} := List.finite_toSet vertices
  have : IsTrans {vertex // vertex ∈ vertices} before := ⟨fun _ _ _ => TransGen.trans⟩
  have : Std.Irrefl before := ⟨fun vertex cycle => acyclic vertex.1 vertex.2 ⟨vertex.1,cycle,.refl⟩⟩
  have least : WellFounded before := Finite.wellFounded_of_trans_of_irrefl before
  have reached (vertex : {vertex // vertex ∈ vertices}) : P vertex.1 := by
    induction vertex using least.induction with
    | _ vertex ih =>
      refine step vertex.1 vertex.2 (fun edge inside arrives => ?_)
      exact ih ⟨source edge,within edge inside⟩ (.single ⟨edge,inside,rfl,arrives⟩)
  exact reached ⟨vertex,member⟩

/-- Where no vertex lies on a cycle, one of finitely many has no edge into it. -/
theorem source_exists (some_ : vertices ≠ []) : ∃ vertex ∈ vertices, ∀ edge ∈ edges, target edge ≠ vertex := by
  obtain ⟨any,member⟩ := List.exists_mem_of_ne_nil vertices some_
  by_contra fed
  refine acyclic_induction within acyclic (P := fun _ => False) member (fun vertex inside unreached => ?_)
  exact fed ⟨vertex,inside,unreached⟩

end acyclic

end finite

end Interleave
