import FurthestMatch.Value
import Mathlib.Data.String.Basic

/-!
# The fields of an object

An object is built field by field. Whatever the order in which they come, its members stand in the order of their keys,
each key once, and of several fields with one key the last one counts. That determines the members.
-/

namespace FurthestMatch.Value

/-- Members in the order of their keys, each with the last of the values that the fields give to its key. -/
structure Gathers (fields members : List (String × Value)) : Prop where
  sorted : members.Pairwise fun a b => a.1 < b.1
  last : ∀ key, members.lookup key = fields.reverse.lookup key

variable {key : String} {value : Value} {fields members members' : List (String × Value)}

theorem lookup_eq_none_of_lt (h : ∀ m ∈ members, key < m.1) : members.lookup key = none := by
  refine List.lookup_eq_none_iff.mpr fun m hm => ?_
  simpa using ne_of_lt (h m hm)

theorem lookup_field (k : String) : ((key, value) :: members).lookup k =
    if k = key then some value else members.lookup k := by
  rw [List.lookup_cons]
  by_cases hk : k = key
  · simp [hk]
  · rw [beq_false_of_ne hk, if_neg hk]

theorem lookup_insertField (k : String) : (insertField key value members).lookup k =
    if k = key then some value else members.lookup k := by
  induction members with
  | nil => exact lookup_field k
  | cons m members ih =>
    obtain ⟨l, w⟩ := m
    rw [insertField]
    split
    · exact lookup_field k
    · split
      · rename_i hl
        subst hl
        rw [lookup_field, lookup_field]
        split <;> rfl
      · rename_i hl
        rw [lookup_field, lookup_field, ih]
        by_cases hk : k = l
        · subst hk
          rw [if_pos rfl, if_neg (Ne.symm hl), if_pos rfl]
        · rw [if_neg hk, if_neg hk]

theorem mem_insertField {m : String × Value} : ∀ {members : List (String × Value)},
    m ∈ insertField key value members → m = (key, value) ∨ m ∈ members
  | [], h => .inl (List.mem_singleton.mp h)
  | (l, w) :: members, h => by
    rw [insertField] at h
    split at h
    · exact List.mem_cons.mp h
    · split at h
      · exact (List.mem_cons.mp h).imp_right (List.mem_cons_of_mem _)
      · rcases List.mem_cons.mp h with rfl | h
        · exact .inr List.mem_cons_self
        · exact (mem_insertField h).imp_right (List.mem_cons_of_mem _)

theorem sorted_insertField : ∀ {members : List (String × Value)}, (members.Pairwise fun a b => a.1 < b.1) →
    (insertField key value members).Pairwise fun a b => a.1 < b.1
  | [], _ => List.pairwise_singleton _ _
  | (l, w) :: members, h => by
    obtain ⟨hl, hs⟩ := List.pairwise_cons.mp h
    rw [insertField]
    split
    · rename_i hlt
      refine List.pairwise_cons.mpr ⟨fun m hm => ?_, h⟩
      rcases List.mem_cons.mp hm with rfl | hm
      · exact hlt
      · exact lt_trans hlt (hl m hm)
    · rename_i hlt
      split
      · rename_i he
        exact List.pairwise_cons.mpr ⟨fun m hm => he ▸ hl m hm, hs⟩
      · rename_i hne
        refine List.pairwise_cons.mpr ⟨fun m hm => ?_, sorted_insertField hs⟩
        rcases mem_insertField hm with rfl | hm
        · exact lt_of_le_of_ne (not_lt.mp hlt) (Ne.symm hne)
        · exact hl m hm

theorem Gathers.insertField (h : Gathers fields members) :
    Gathers (fields ++ [(key, value)]) (insertField key value members) := by
  refine ⟨sorted_insertField h.sorted, fun k => ?_⟩
  rw [lookup_insertField, List.reverse_append, h.last k]
  exact (lookup_field k).symm

theorem Gathers.foldl (more : List (String × Value)) : ∀ {fields members : List (String × Value)},
    Gathers fields members →
      Gathers (fields ++ more) (more.foldl (fun acc (k, v) => Value.insertField k v acc) members) := by
  induction more with
  | nil =>
    intro fields members h
    rwa [List.append_nil]
  | cons m more ih =>
    intro fields members h
    have hm : Gathers (fields ++ [m]) (Value.insertField m.1 m.2 members) := h.insertField
    have hall := ih hm
    rwa [List.append_assoc] at hall

/-- The members of the object with given fields. -/
theorem exists_gathers (fields : List (String × Value)) : ∃ members, ofFields fields = .object members ∧
    Gathers fields members := by
  have h : Gathers [] [] := ⟨.nil, fun _ => rfl⟩
  exact ⟨_, rfl, h.foldl fields⟩

theorem eq_of_lookup_eq : ∀ {members members' : List (String × Value)}, (members.Pairwise fun a b => a.1 < b.1) →
    (members'.Pairwise fun a b => a.1 < b.1) → (∀ key, members.lookup key = members'.lookup key) → members = members'
  | [], [], _, _, _ => rfl
  | [], (k, v) :: _, _, _, h => by
    have hk := h k
    rw [lookup_field, if_pos rfl] at hk
    cases hk
  | (k, v) :: _, [], _, _, h => by
    have hk := h k
    rw [lookup_field, if_pos rfl] at hk
    cases hk
  | (k, v) :: members, (l, w) :: members', hs, hs', h => by
    obtain ⟨hk, htail⟩ := List.pairwise_cons.mp hs
    obtain ⟨hl, htail'⟩ := List.pairwise_cons.mp hs'
    have hkl : k = l := by
      by_contra hne
      have hlook := h k
      have hlook' := h l
      rw [lookup_field, lookup_field, if_pos rfl, if_neg hne] at hlook
      rw [lookup_field, lookup_field, if_pos rfl, if_neg (Ne.symm hne)] at hlook'
      rcases lt_or_gt_of_ne hne with hlt | hlt
      · rw [lookup_eq_none_of_lt fun m hm => lt_trans hlt (hl m hm)] at hlook
        cases hlook
      · rw [lookup_eq_none_of_lt fun m hm => lt_trans hlt (hk m hm)] at hlook'
        cases hlook'
    subst hkl
    have hvw := h k
    rw [lookup_field, lookup_field, if_pos rfl, if_pos rfl] at hvw
    cases hvw
    refine congrArg ((k, v) :: ·) (eq_of_lookup_eq htail htail' fun key => ?_)
    by_cases hkey : key = k
    · rw [hkey, lookup_eq_none_of_lt hk, lookup_eq_none_of_lt hl]
    · have hlook := h key
      rwa [lookup_field, lookup_field, if_neg hkey, if_neg hkey] at hlook

theorem Gathers.unique (h : Gathers fields members) (h' : Gathers fields members') : members = members' :=
  eq_of_lookup_eq h.sorted h'.sorted fun key => (h.last key).trans (h'.last key).symm

end FurthestMatch.Value
