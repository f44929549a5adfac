import Mathlib.Data.List.Induction
import Mathlib.Data.List.Nodup
import SlimTemplate.Slim.Attributes

/-!
Attributes as maps that remember the order of their keys. Setting a key keeps its place or adds it
at the end. What merging does to keys and values follows, for explicit attributes without repeated
keys.
-/

namespace SlimTemplate.Slim.Attributes

def keys (attributes : Attributes) : List String :=
  attributes.map Prod.fst

theorem keys_cons (key value : String) (attributes : Attributes) :
    keys ((key, value) :: attributes) = key :: attributes.keys :=
  rfl

theorem get?_set (attributes : Attributes) (key value other : String) :
    (attributes.set key value).get? other =
      if other = key then some value else attributes.get? other := by
  induction attributes with
  | nil =>
      by_cases h : other = key
      · simp [set, get?, h]
      · simp [set, get?, List.lookup_cons, h, beq_false_of_ne h]
  | cons first rest ih =>
      obtain ⟨k, v⟩ := first
      simp only [get?] at ih ⊢
      by_cases hk : k = key
      · by_cases h : other = key
        · simp [set, hk, h]
        · simp [set, List.lookup_cons, hk, h, beq_false_of_ne h]
      · by_cases h : other = k
        · simp [set, hk, h]
        · simp [set, List.lookup_cons, hk, beq_false_of_ne h, ih]

theorem keys_set (attributes : Attributes) (key value : String) :
    (attributes.set key value).keys =
      if key ∈ attributes.keys then attributes.keys else attributes.keys ++ [key] := by
  induction attributes with
  | nil => rfl
  | cons first rest ih =>
      obtain ⟨k, v⟩ := first
      by_cases hk : k = key
      · rw [set, if_pos hk, keys_cons, keys_cons, if_pos (by simp [hk])]
      · rw [set, if_neg hk, keys_cons, keys_cons, ih]
        by_cases hmem : key ∈ keys rest
        · rw [if_pos hmem, if_pos (List.mem_cons_of_mem _ hmem)]
        · rw [if_neg hmem, if_neg (by simp [hmem, Ne.symm hk]), List.cons_append]

theorem get?_eq_none_iff (attributes : Attributes) (key : String) :
    attributes.get? key = none ↔ key ∉ attributes.keys := by
  induction attributes with
  | nil => simp [get?, keys]
  | cons first rest ih =>
      obtain ⟨k, v⟩ := first
      rw [keys_cons, List.mem_cons, not_or, ← ih]
      by_cases hk : key = k
      · simp [get?, hk]
      · simp [get?, List.lookup_cons, hk, beq_false_of_ne hk]

/-- Pairs without repeated keys are attributes as they are. -/
theorem ofPairs_of_nodup {pairs : List (String × String)} (h : (pairs.map Prod.fst).Nodup) :
    ofPairs pairs = pairs := by
  suffices ∀ attributes : Attributes, (attributes.keys ++ pairs.map Prod.fst).Nodup →
      pairs.foldl (fun attributes pair => attributes.set pair.1 pair.2) attributes =
        attributes ++ pairs from this [] h
  have hadd : ∀ (attributes : Attributes) (key value : String), key ∉ attributes.keys →
      attributes.set key value = attributes ++ [(key, value)] := by
    intro attributes key value hkey
    induction attributes with
    | nil => rfl
    | cons first rest ih =>
        obtain ⟨k, v⟩ := first
        simp only [keys, List.map_cons, List.mem_cons, not_or] at hkey
        simp [set, Ne.symm hkey.1, ih hkey.2]
  clear h
  induction pairs with
  | nil => simp
  | cons first rest ih =>
      intro attributes hnodup
      obtain ⟨key, value⟩ := first
      have hkey : key ∉ attributes.keys := fun hmem =>
        List.disjoint_of_nodup_append hnodup hmem List.mem_cons_self
      rw [List.foldl_cons, hadd _ _ _ hkey, ih]
      · simp
      · simpa [keys] using hnodup

theorem ofPairs_concat (pairs : List (String × String)) (key value : String) :
    ofPairs (pairs ++ [(key, value)]) = (ofPairs pairs).set key value := by
  rw [ofPairs, List.foldl_append]
  rfl

/-- Repeated keys stay where they come first. -/
theorem keys_ofPairs (pairs : List (String × String)) :
    (ofPairs pairs).keys = (pairs.map Prod.fst).eraseDups := by
  induction pairs using List.reverseRecOn with
  | nil => rfl
  | append_singleton pairs pair ih =>
      obtain ⟨key, value⟩ := pair
      rw [ofPairs_concat, keys_set, ih, List.map_append, List.map_singleton, List.eraseDups_append]
      by_cases hkey : key ∈ pairs.map Prod.fst
      · have hnone : [key].removeAll (pairs.map Prod.fst) = [] :=
          List.filter_eq_nil_iff.mpr (by simpa using hkey)
        rw [if_pos (List.mem_eraseDups.mpr hkey), hnone, List.eraseDups_nil, List.append_nil]
      · have hone : [key].removeAll (pairs.map Prod.fst) = [key] :=
          List.filter_eq_self.mpr (by simpa using hkey)
        rw [if_neg fun hmem => hkey (List.mem_eraseDups.mp hmem), hone, List.eraseDups_cons]
        rfl

/-- Repeated keys have the values that come last. -/
theorem get?_ofPairs (pairs : List (String × String)) (key : String) :
    (ofPairs pairs).get? key = pairs.reverse.lookup key := by
  induction pairs using List.reverseRecOn with
  | nil => rfl
  | append_singleton pairs pair ih =>
      obtain ⟨k, v⟩ := pair
      rw [ofPairs_concat, get?_set, ih, List.reverse_append, List.reverse_singleton,
        List.singleton_append, List.lookup_cons]
      by_cases hkey : key = k
      · simp [hkey]
      · simp [hkey, beq_false_of_ne hkey]

def mergedValue (attributes : Attributes) (key value : String) : String :=
  match if key = "class" then attributes.get? key else none with
  | some classes => classes ++ " " ++ value
  | none => value

theorem merge_cons (attributes : Attributes) (key value : String) (explicit : Attributes) :
    attributes.merge ((key, value) :: explicit) =
      (attributes.set key (attributes.mergedValue key value)).merge explicit := by
  rw [merge, List.foldl_cons, mergedValue, merge]
  dsimp only
  cases if key = "class" then attributes.get? key else none with
  | some classes => rfl
  | none => rfl

section Merge

variable {explicit : Attributes} (hnodup : explicit.keys.Nodup)

include hnodup

/-- New keys are added at the end, in their order. -/
theorem keys_merge (attributes : Attributes) :
    (attributes.merge explicit).keys =
      attributes.keys ++ explicit.keys.filter (· ∉ attributes.keys) := by
  induction explicit generalizing attributes with
  | nil => simp [merge, keys]
  | cons first rest ih =>
      obtain ⟨key, value⟩ := first
      obtain ⟨hfirst, hrest⟩ := List.nodup_cons.mp hnodup
      rw [merge_cons, ih hrest, keys_set]
      change _ = attributes.keys ++ (key :: keys rest).filter _
      by_cases hkey : key ∈ attributes.keys
      · rw [if_pos hkey, List.filter_cons_of_neg (by simpa using hkey)]
      · rw [if_neg hkey, List.filter_cons_of_pos (by simpa using hkey), List.append_assoc,
          List.singleton_append]
        congr 2
        refine List.filter_congr fun other hother => ?_
        have hne : other ≠ key := fun heq => hfirst (heq ▸ hother)
        simp [hne]

/-- Explicit keys have their merged values, and all others the values they had. -/
theorem get?_merge (attributes : Attributes) (key : String) :
    (attributes.merge explicit).get? key =
      match explicit.get? key with
      | some value => some (attributes.mergedValue key value)
      | none => attributes.get? key := by
  induction explicit generalizing attributes with
  | nil => rfl
  | cons first rest ih =>
      obtain ⟨k, v⟩ := first
      obtain ⟨hfirst, hrest⟩ := List.nodup_cons.mp hnodup
      rw [merge_cons, ih hrest]
      by_cases hkey : key = k
      · subst hkey
        have hnone : get? rest key = none := (get?_eq_none_iff rest key).mpr hfirst
        have hsome : get? ((key, v) :: rest) key = some v := by simp [get?]
        rw [hnone, hsome, get?_set, if_pos rfl]
      · have hskip : get? ((k, v) :: rest) key = get? rest key := by
          simp [get?, List.lookup_cons, beq_false_of_ne hkey]
        rw [hskip, get?_set, if_neg hkey]
        simp only [mergedValue, get?_set, if_neg hkey]

end Merge

end SlimTemplate.Slim.Attributes
