/-!
# Tables

Entries in order, each key once. A key that is given a value again keeps its
place; a new one comes last.
-/

namespace Mailgrid.Table

variable {κ ν : Type} [BEq κ]

/-- Gives a key a value. -/
def assign (key : κ) (value : ν) : List (κ × ν) → List (κ × ν)
  | [] => [(key, value)]
  | (k, v) :: rest => if key == k then (k, value) :: rest else (k, v) :: assign key value rest

/-- The table of entries, of which a later one with the same key counts. -/
def ofList (entries : List (κ × ν)) : List (κ × ν) :=
  entries.foldl (fun table (key, value) => assign key value table) []

theorem lookup_assign [ReflBEq κ] (key : κ) (value : ν) (table : List (κ × ν)) :
    (assign key value table).lookup key = some value := by
  induction table with
  | nil => simp [assign]
  | cons entry rest ih =>
    obtain ⟨k, v⟩ := entry
    cases h : key == k with
    | true => simp [assign, List.lookup_cons, h]
    | false => simp [assign, List.lookup_cons, h, ih]

theorem lookup_assign_of_ne [LawfulBEq κ] {key other : κ} (h : other ≠ key) (value : ν)
    (table : List (κ × ν)) : (assign key value table).lookup other = table.lookup other := by
  induction table with
  | nil => simp [assign, List.lookup_cons, beq_false_of_ne h]
  | cons entry rest ih =>
    obtain ⟨k, v⟩ := entry
    by_cases hk : key = k
    · subst hk; simp [assign, List.lookup_cons, beq_false_of_ne h]
    · simp [assign, hk, List.lookup_cons, ih]

theorem assign_of_lookup {key : κ} {table : List (κ × ν)} (h : table.lookup key = none)
    (value : ν) : assign key value table = table ++ [(key, value)] := by
  induction table with
  | nil => rfl
  | cons entry rest ih =>
    obtain ⟨k, v⟩ := entry
    rw [List.lookup_cons] at h
    split at h
    · cases h
    · rename_i hk
      simp [assign, hk, ih h]

theorem foldl_assign_of_nodup [LawfulBEq κ] {table entries : List (κ × ν)}
    (h : ((table ++ entries).map (·.1)).Nodup) :
    entries.foldl (fun table (key, value) => assign key value table) table = table ++ entries := by
  induction entries generalizing table with
  | nil => simp
  | cons entry rest ih =>
    obtain ⟨k, v⟩ := entry
    have hnone : table.lookup k = none := by
      rw [List.lookup_eq_none_iff]
      intro a ha
      simp only [List.map_append, List.map_cons, List.nodup_append] at h
      simpa using fun he => h.2.2 a.1 (List.mem_map_of_mem ha) k (by simp) he.symm
    simp only [List.foldl_cons, assign_of_lookup hnone]
    rw [ih]
    · simp
    · simpa using h

theorem ofList_of_nodup [LawfulBEq κ] {entries : List (κ × ν)}
    (h : (entries.map (·.1)).Nodup) : ofList entries = entries :=
  @foldl_assign_of_nodup κ ν _ _ [] entries h

theorem keys_assign [LawfulBEq κ] (key : κ) (value : ν) (table : List (κ × ν)) :
    (assign key value table).map (·.1) =
      if key ∈ table.map (·.1) then table.map (·.1) else table.map (·.1) ++ [key] := by
  induction table with
  | nil => simp [assign]
  | cons entry rest ih =>
    obtain ⟨k, v⟩ := entry
    by_cases h : key = k
    · simp [assign, h]
    · by_cases hm : key ∈ rest.map (·.1)
      · simp only [assign, beq_false_of_ne h, Bool.false_eq_true, if_false, List.map_cons, ih, hm,
          if_true, List.mem_cons, or_true]
      · simp only [assign, beq_false_of_ne h, Bool.false_eq_true, if_false, List.map_cons, ih, hm,
          List.mem_cons, h, or_self, List.cons_append]

theorem mem_of_mem_assign [LawfulBEq κ] {key : κ} {value : ν} {table : List (κ × ν)} {a : κ × ν}
    (h : a ∈ assign key value table) : a = (key, value) ∨ a ∈ table := by
  induction table with
  | nil => simpa [assign] using h
  | cons entry rest ih =>
    obtain ⟨k, v⟩ := entry
    rw [assign] at h
    split at h
    · rename_i hk
      rw [← eq_of_beq hk] at h
      rcases List.mem_cons.mp h with h | h
      · exact .inl h
      · exact .inr (List.mem_cons_of_mem _ h)
    · rcases List.mem_cons.mp h with h | h
      · exact .inr (h ▸ List.mem_cons_self)
      · exact (ih h).imp id (List.mem_cons_of_mem _)

theorem nodup_assign [LawfulBEq κ] (key : κ) (value : ν) {table : List (κ × ν)}
    (h : (table.map (·.1)).Nodup) : ((assign key value table).map (·.1)).Nodup := by
  rw [keys_assign]
  split
  · exact h
  · rename_i hn
    rw [List.nodup_append]
    refine ⟨h, by simp, ?_⟩
    rintro a ha b hb rfl
    exact hn (List.mem_singleton.mp hb ▸ ha)

/-- A table holds entries of its list, each key once. -/
theorem ofList_spec [LawfulBEq κ] (entries : List (κ × ν)) :
    ((ofList entries).map (·.1)).Nodup ∧ ∀ a ∈ ofList entries, a ∈ entries := by
  have step (table : List (κ × ν)) (hn : (table.map (·.1)).Nodup) :
      ((entries.foldl (fun table (key, value) => assign key value table) table).map (·.1)).Nodup ∧
        ∀ a ∈ entries.foldl (fun table (key, value) => assign key value table) table,
          a ∈ table ∨ a ∈ entries := by
    induction entries generalizing table with
    | nil => exact ⟨hn, fun a ha => .inl ha⟩
    | cons entry rest ih =>
      obtain ⟨k, v⟩ := entry
      obtain ⟨hnodup, hmem⟩ := ih (assign k v table) (nodup_assign k v hn)
      refine ⟨hnodup, fun a ha => ?_⟩
      rcases hmem a ha with h | h
      · rcases mem_of_mem_assign h with rfl | h
        · exact .inr List.mem_cons_self
        · exact .inl h
      · exact .inr (List.mem_cons_of_mem _ h)
  obtain ⟨hnodup, hmem⟩ := step [] .nil
  exact ⟨hnodup, fun a ha => (hmem a ha).resolve_left (by simp)⟩

theorem lookup_ofList [LawfulBEq κ] (entries : List (κ × ν)) (key : κ) :
    (ofList entries).lookup key = entries.reverse.lookup key := by
  have step (table : List (κ × ν)) :
      (entries.foldl (fun table (key, value) => assign key value table) table).lookup key =
        (entries.reverse.lookup key).or (table.lookup key) := by
    induction entries generalizing table with
    | nil => rfl
    | cons entry rest ih =>
      obtain ⟨k, v⟩ := entry
      rw [List.foldl_cons, ih, List.reverse_cons, List.lookup_append]
      by_cases hk : key = k
      · subst hk
        simp [lookup_assign]
      · simp [lookup_assign_of_ne hk, List.lookup_cons, beq_false_of_ne hk]
  simpa [ofList] using step []

end Mailgrid.Table
