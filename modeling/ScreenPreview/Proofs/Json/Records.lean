import Mathlib.Data.List.Induction
import ScreenPreview.Json.Basic

/-!
Objects made of members in any order.

The members of a record stand in the order of their keys, each key once, and the one that came last
counts (`member?_record`). Members that come in order stay as they are (`record_of_sorted`).
-/
namespace ScreenPreview.Json

def Sorted (ms : List (String × Json)) : Prop := ms.Pairwise fun a b => a.1 < b.1

def inOrder (ms : List (String × Json)) : List (String × Json) :=
  ms.foldl (fun sorted m => insertMember m.1 m.2 sorted) []

theorem record_eq (ms : List (String × Json)) : record ms = .object (inOrder ms) := rfl

variable {key : String} {x : Json} {m : String × Json} {ms : List (String × Json)}

theorem inOrder_concat (ms : List (String × Json)) (m : String × Json) :
    inOrder (ms ++ [m]) = insertMember m.1 m.2 (inOrder ms) := by
  rw [inOrder, List.foldl_append]
  rfl

/-! ### Putting a member at its place -/

theorem mem_of_insertMember (member : m ∈ insertMember key x ms) : m = (key, x) ∨ m ∈ ms := by
  induction ms with
  | nil => exact Or.inl (List.mem_singleton.mp member)
  | cons n ms ih =>
    rw [insertMember] at member
    split at member
    · exact List.mem_cons.mp member
    · split at member
      · rcases List.mem_cons.mp member with new | old
        · exact Or.inl new
        · exact Or.inr (List.mem_cons_of_mem n old)
      · rcases List.mem_cons.mp member with rfl | later
        · exact Or.inr List.mem_cons_self
        · exact (ih later).imp_right (List.mem_cons_of_mem n)

theorem Sorted.insertMember (sorted : Sorted ms) (key : String) (x : Json) :
    Sorted (insertMember key x ms) := by
  induction ms with
  | nil => exact List.pairwise_singleton _ _
  | cons n ms ih =>
    obtain ⟨smallest, rest⟩ := List.pairwise_cons.mp sorted
    rw [Json.insertMember]
    split
    · next less =>
      refine List.pairwise_cons.mpr ⟨?_, sorted⟩
      intro m member
      rcases List.mem_cons.mp member with rfl | later
      · exact less
      · exact String.lt_trans less (smallest m later)
    · next no_less =>
      split
      · next same =>
        subst same
        exact List.pairwise_cons.mpr ⟨smallest, rest⟩
      · next other =>
        refine List.pairwise_cons.mpr ⟨?_, ih rest⟩
        intro m member
        rcases mem_of_insertMember member with rfl | old
        · by_contra no_more
          exact other (String.le_antisymm (String.not_lt.mp no_more) (String.not_lt.mp no_less))
        · exact smallest m old

theorem lookup_members (key : String) (m : String × Json) (ms : List (String × Json)) :
    (m :: ms).lookup key = if key = m.1 then some m.2 else ms.lookup key := by
  obtain ⟨first, x⟩ := m
  rw [List.lookup_cons]
  by_cases same : key = first
  · rw [same, beq_self_eq_true, if_pos rfl]
  · rw [beq_false_of_ne same, if_neg same]

theorem lookup_insertMember (other key : String) (x : Json) (ms : List (String × Json)) :
    (insertMember key x ms).lookup other = if other = key then some x else ms.lookup other := by
  induction ms with
  | nil => exact lookup_members other (key, x) []
  | cons n ms ih =>
    rw [insertMember]
    split
    · rw [lookup_members]
    · split
      · next same =>
        rw [lookup_members, lookup_members, same]
        split <;> rfl
      · next differ =>
        rw [lookup_members, ih, lookup_members]
        split
        · next first => rw [if_neg fun same => differ (same.symm.trans first)]
        · rfl

/-! ### Records -/

theorem sorted_inOrder (ms : List (String × Json)) : Sorted (inOrder ms) := by
  induction ms using List.reverseRecOn with
  | nil => exact List.Pairwise.nil
  | append_singleton ms m ih =>
    rw [inOrder_concat]
    exact ih.insertMember m.1 m.2

theorem mem_of_inOrder (member : m ∈ inOrder ms) : m ∈ ms := by
  induction ms using List.reverseRecOn with
  | nil => cases member
  | append_singleton ms n ih =>
    rw [inOrder_concat] at member
    rcases mem_of_insertMember member with rfl | old
    · exact List.mem_append_right ms List.mem_cons_self
    · exact List.mem_append_left [n] (ih old)

theorem member?_record (key : String) (ms : List (String × Json)) :
    (record ms).member? key = ms.reverse.lookup key := by
  induction ms using List.reverseRecOn with
  | nil => rfl
  | append_singleton ms m ih =>
    rw [record_eq, inOrder_concat, member?, lookup_insertMember, List.reverse_append,
      List.reverse_singleton, List.singleton_append, lookup_members]
    exact congrArg (ite (key = m.1) (some m.2)) ih

theorem insertMember_of_largest (x : Json) (largest : ∀ m ∈ ms, m.1 < key) :
    insertMember key x ms = ms ++ [(key, x)] := by
  induction ms with
  | nil => rfl
  | cons m ms ih =>
    rw [List.forall_mem_cons] at largest
    have no_less : ¬ key < m.1 := String.lt_asymm largest.1
    have other : key ≠ m.1 := fun same => String.lt_irrefl m.1 (same ▸ largest.1)
    rw [insertMember, if_neg no_less, if_neg other, ih largest.2, List.cons_append]

theorem inOrder_of_sorted (sorted : Sorted ms) : inOrder ms = ms := by
  induction ms using List.reverseRecOn with
  | nil => rfl
  | append_singleton ms m ih =>
    obtain ⟨before, -, largest⟩ := List.pairwise_append.mp sorted
    rw [inOrder_concat, ih before]
    exact insertMember_of_largest m.2 fun n member => largest n member m List.mem_cons_self

theorem record_of_sorted (sorted : Sorted ms) : record ms = .object ms := by
  rw [record_eq, inOrder_of_sorted sorted]

end ScreenPreview.Json
