import Mathlib.Data.List.Sort

/-!
# Members of objects

An object keeps its members in the order of their keys. A member that is inserted
takes the place of the one with its key, so two objects are equal when they have the
same member at every key. A record is the object of its fields, some of which may be
left out: written under the same different keys, different fields make different
records.
-/

namespace Members

variable {κ ν : Type*} [LinearOrder κ]

/-- Insert a member, in place of the one with its key. -/
def insert (key : κ) (value : ν) : List (κ × ν) → List (κ × ν)
  | [] => [(key, value)]
  | (k, v) :: rest =>
    if key < k then (key, value) :: (k, v) :: rest
    else if key = k then (key, value) :: rest
    else (k, v) :: insert key value rest

/-- Insert members one after another. -/
def extend (members new : List (κ × ν)) : List (κ × ν) :=
  new.foldl (fun members member => insert member.1 member.2 members) members

/-- The object of the fields that are not left out. -/
def record (fields : List (κ × Option ν)) : List (κ × ν) :=
  extend [] (fields.filterMap fun field => field.2.map (field.1, ·))

/-- The keys come in order, each of them once. -/
def Sorted (members : List (κ × ν)) : Prop := members.Pairwise fun a b => a.1 < b.1

variable {key k : κ} {value v : ν} {members members' new : List (κ × ν)}

/-! ## What is found -/

/-- The first member is found at its key. -/
theorem lookup_cons_ite :
    ((key, value) :: members).lookup k = if k = key then some value else members.lookup k := by
  rw [List.lookup_cons]
  by_cases hk : k = key
  · simp only [hk, BEq.rfl, if_true]
  · simp only [beq_eq_false_iff_ne.mpr hk, if_neg hk]

/-- A key that no member has is not found. -/
theorem lookup_eq_none_of_not_mem (h : k ∉ members.map Prod.fst) : members.lookup k = none := by
  rw [List.lookup_eq_none_iff]
  intro member hmem
  rw [bne_iff_ne]
  rintro rfl
  exact h (List.mem_map_of_mem hmem)

/-- Members with different keys are what is found at them. -/
theorem mem_iff_lookup (h : (members.map Prod.fst).Nodup) :
    (key, value) ∈ members ↔ members.lookup key = some value := by
  induction members with
  | nil => simp
  | cons first members ih =>
    obtain ⟨k', v'⟩ := first
    rw [List.map_cons, List.nodup_cons] at h
    rw [List.mem_cons, ih h.2, lookup_cons_ite]
    by_cases hk : key = k'
    · subst hk
      simp [lookup_eq_none_of_not_mem h.1, eq_comm]
    · simp [hk]

/-- The same is found in the other direction. -/
theorem lookup_reverse (h : (members.map Prod.fst).Nodup) :
    members.reverse.lookup k = members.lookup k := by
  have h' : (members.reverse.map Prod.fst).Nodup := by
    rwa [List.map_reverse, List.nodup_reverse]
  apply Option.ext
  intro v
  rw [← mem_iff_lookup h', List.mem_reverse, mem_iff_lookup h]

/-- What is found among members that are changed alike. -/
theorem lookup_map {ν' : Type*} (f : ν → ν') :
    (members.map fun member => (member.1, f member.2)).lookup k = (members.lookup k).map f := by
  induction members with
  | nil => rfl
  | cons member members ih =>
    obtain ⟨key, value⟩ := member
    rw [List.map_cons, lookup_cons_ite, lookup_cons_ite, ih]
    split
    · rfl
    · rfl

/-! ## Insertion -/

/-- What is inserted is found at its key, and what was there at every other key. -/
theorem lookup_insert :
    (insert key value members).lookup k = if k = key then some value else members.lookup k := by
  induction members with
  | nil => exact lookup_cons_ite
  | cons member members ih =>
    obtain ⟨k', v'⟩ := member
    unfold insert
    by_cases hlt : key < k'
    · rw [if_pos hlt, lookup_cons_ite]
    by_cases heq : key = k'
    · subst heq
      rw [if_neg hlt, if_pos rfl, lookup_cons_ite, lookup_cons_ite]
      split
      · rfl
      · rfl
    · rw [if_neg hlt, if_neg heq, lookup_cons_ite, lookup_cons_ite, ih]
      by_cases hk : k = k'
      · subst hk
        rw [if_pos rfl, if_pos rfl, if_neg (Ne.symm heq)]
      · rw [if_neg hk, if_neg hk]

/-- Of the members that are inserted, the last one with a key is found at it. -/
theorem lookup_extend :
    (extend members new).lookup k = (new.reverse.lookup k).or (members.lookup k) := by
  induction new generalizing members with
  | nil => rfl
  | cons member new ih =>
    obtain ⟨key, value⟩ := member
    have hfirst : extend members ((key, value) :: new) = extend (insert key value members) new :=
      rfl
    rw [hfirst, ih, lookup_insert, List.reverse_cons, List.lookup_append, Option.or_assoc,
      lookup_cons_ite]
    split
    · rfl
    · rfl

/-! ## Order -/

/-- An inserted member comes with the others. -/
theorem mem_insert {member : κ × ν} (h : member ∈ insert key value members) :
    member = (key, value) ∨ member ∈ members := by
  induction members with
  | nil => exact Or.inl (List.mem_singleton.mp h)
  | cons first members ih =>
    obtain ⟨k', v'⟩ := first
    unfold insert at h
    split at h
    · exact List.mem_cons.mp h
    split at h
    · exact (List.mem_cons.mp h).imp_right (List.mem_cons_of_mem _)
    · rcases List.mem_cons.mp h with rfl | h
      · exact Or.inr List.mem_cons_self
      · exact (ih h).imp_right (List.mem_cons_of_mem _)

/-- Insertion keeps the order. -/
theorem Sorted.insert (h : Sorted members) : Sorted (insert key value members) := by
  induction members with
  | nil => exact List.pairwise_singleton _ _
  | cons first members ih =>
    obtain ⟨k', v'⟩ := first
    obtain ⟨hfirst, hrest⟩ := List.pairwise_cons.mp h
    unfold Members.insert
    split
    · rename_i hlt
      refine List.pairwise_cons.mpr ⟨?_, h⟩
      exact List.forall_mem_cons.mpr ⟨hlt, fun member hmem => lt_trans hlt (hfirst member hmem)⟩
    split
    · rename_i heq
      exact List.pairwise_cons.mpr ⟨fun member hmem => heq ▸ hfirst member hmem, hrest⟩
    · rename_i hle hne
      refine List.pairwise_cons.mpr ⟨fun member hmem => ?_, ih hrest⟩
      rcases mem_insert hmem with rfl | hmem
      · exact lt_of_le_of_ne (not_lt.mp hle) (Ne.symm hne)
      · exact hfirst member hmem

/-- So does insertion of many. -/
theorem Sorted.extend (h : Sorted members) : Sorted (extend members new) := by
  induction new generalizing members with
  | nil => exact h
  | cons member new ih => exact ih h.insert

/-- The keys of an object are different. -/
theorem Sorted.nodup (h : Sorted members) : (members.map Prod.fst).Nodup :=
  List.Pairwise.map Prod.fst (fun _ _ hlt => ne_of_lt hlt) h

/-- Objects with the same member at every key are equal. -/
theorem Sorted.ext (h : Sorted members) (h' : Sorted members')
    (hlookup : ∀ k, members.lookup k = members'.lookup k) : members = members' := by
  have hirrefl : Std.Irrefl fun a b : κ × ν => a.1 < b.1 := ⟨fun a => lt_irrefl a.1⟩
  have hantisymm : Std.Antisymm fun a b : κ × ν => a.1 < b.1 :=
    ⟨fun a b hab hba => absurd hab (lt_asymm hba)⟩
  refine List.Pairwise.eq_of_mem_iff h h' fun member => ?_
  obtain ⟨key, value⟩ := member
  rw [mem_iff_lookup h.nodup, mem_iff_lookup h'.nodup, hlookup]

/-! ## Records -/

variable {fields fields' : List (κ × Option ν)}

/-- A record is in order. -/
theorem sorted_record (fields : List (κ × Option ν)) : Sorted (record fields) :=
  Sorted.extend List.Pairwise.nil

/-- In a record a field is found under its key unless it is left out. -/
theorem lookup_record (h : (fields.map Prod.fst).Nodup) :
    (record fields).lookup k = (fields.lookup k).join := by
  unfold record
  rw [lookup_extend, List.lookup_nil, Option.or_none]
  induction fields with
  | nil => rfl
  | cons field fields ih =>
    obtain ⟨key, value⟩ := field
    rw [List.map_cons, List.nodup_cons] at h
    rw [lookup_cons_ite]
    cases value with
    | none =>
      rw [List.filterMap_cons_none rfl, ih h.2]
      split
      · rename_i hk
        rw [hk, lookup_eq_none_of_not_mem h.1]
        rfl
      · rfl
    | some value =>
      rw [List.filterMap_cons, Option.map_some, List.reverse_cons, List.lookup_append, ih h.2,
        lookup_cons_ite]
      split
      · rename_i hk
        rw [hk, lookup_eq_none_of_not_mem h.1]
        rfl
      · exact Option.or_none

/-- Records of the same different keys are equal only if all their fields are. -/
theorem record_inj (hkeys : fields.map Prod.fst = fields'.map Prod.fst)
    (h : (fields.map Prod.fst).Nodup) : record fields = record fields' ↔ fields = fields' := by
  refine ⟨fun heq => ?_, congrArg record⟩
  have hlookup : ∀ k, (fields.lookup k).join = (fields'.lookup k).join := by
    intro k
    rw [← lookup_record h, ← lookup_record (hkeys ▸ h), heq]
  clear heq
  induction fields generalizing fields' with
  | nil => exact (List.map_eq_nil_iff.mp hkeys.symm).symm
  | cons field fields ih =>
    obtain ⟨key, value⟩ := field
    cases fields' with
    | nil => cases hkeys
    | cons field' fields' =>
      obtain ⟨key', value'⟩ := field'
      obtain ⟨hkey, htail⟩ := List.cons.inj hkeys
      change key = key' at hkey
      subst hkey
      rw [List.map_cons, List.nodup_cons] at h
      have hnone' : fields'.lookup key = none := lookup_eq_none_of_not_mem (htail ▸ h.1)
      have hvalue := hlookup key
      rw [lookup_cons_ite, lookup_cons_ite, if_pos rfl, if_pos rfl] at hvalue
      have hfields : fields = fields' := by
        refine ih htail h.2 fun k => ?_
        by_cases hk : k = key
        · rw [hk, lookup_eq_none_of_not_mem h.1, hnone']
        · have hother := hlookup k
          rwa [lookup_cons_ite, lookup_cons_ite, if_neg hk, if_neg hk] at hother
      rw [Option.join_some, Option.join_some] at hvalue
      rw [hvalue, hfields]

end Members
