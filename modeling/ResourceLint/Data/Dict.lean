/-!
Maps from text to values, as lists of entries with distinct keys. A later entry for a key takes
the place of the earlier one.
-/

namespace ResourceLint.Data

structure Dict (α : Type) where
  entries : List (String × α)
  nodup_keys : (entries.map Prod.fst).Nodup

namespace Dict

variable {α : Type}

def empty : Dict α := ⟨[], by simp⟩

instance : Inhabited (Dict α) := ⟨empty⟩

def isEmpty (d : Dict α) : Bool := d.entries.isEmpty

def get? (d : Dict α) (key : String) : Option α := d.entries.lookup key

def insert (d : Dict α) (key : String) (value : α) : Dict α where
  entries := d.entries.filter (fun e => e.1 != key) ++ [(key, value)]
  nodup_keys := by
    have kept : ((d.entries.filter (fun e => e.1 != key)).map Prod.fst).Nodup :=
      d.nodup_keys.sublist (List.filter_sublist.map _)
    rw [List.map_append, List.nodup_append]
    refine ⟨kept, by simp, ?_⟩
    intro a ha b hb
    obtain ⟨e, he, rfl⟩ := List.mem_map.1 ha
    have hne := (List.mem_filter.1 he).2
    have hb' : b = key := by simpa using hb
    subst hb'
    simpa using hne

def ofList (entries : List (String × α)) : Dict α :=
  entries.foldl (fun d e => d.insert e.1 e.2) empty

theorem eq_of_entries_eq {d d' : Dict α} (h : d.entries = d'.entries) : d = d' := by
  cases d
  cases d'
  cases h
  rfl

/-- A new key comes after all others. -/
theorem entries_insert_of_notMem {d : Dict α} {key : String} (h : key ∉ d.entries.map Prod.fst)
    (value : α) : (d.insert key value).entries = d.entries ++ [(key, value)] := by
  have hkept : d.entries.filter (fun e => e.1 != key) = d.entries := by
    rw [List.filter_eq_self]
    intro e he
    have hne : e.1 ≠ key := fun heq => h (heq ▸ List.mem_map_of_mem he)
    simpa using hne
  exact congrArg (· ++ [(key, value)]) hkept

theorem entries_foldl_insert (d : Dict α) (es : List (String × α))
    (h : ((d.entries ++ es).map Prod.fst).Nodup) :
    (es.foldl (fun d e => d.insert e.1 e.2) d).entries = d.entries ++ es := by
  induction es generalizing d with
  | nil => simp
  | cons e es ih =>
    have hnew : e.1 ∉ d.entries.map Prod.fst := by
      rw [List.map_append, List.nodup_append] at h
      exact fun hmem => h.2.2 e.1 hmem e.1 (by simp) rfl
    have hinsert := entries_insert_of_notMem hnew e.2
    rw [List.foldl_cons, ih (d.insert e.1 e.2) (by simpa [hinsert] using h), hinsert]
    simp

/-- The entries of a map make the same map again. -/
theorem ofList_entries (d : Dict α) : ofList d.entries = d :=
  eq_of_entries_eq (entries_foldl_insert empty d.entries d.nodup_keys)

end Dict

end ResourceLint.Data
