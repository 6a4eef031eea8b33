/-! # Maps that keep their order

`OrderedMap` is a finite map whose entries stay in the order in which their keys first arrived:
a key that is inserted again keeps its place and takes the new value.  It is a list of entries with
distinct keys, so two maps are equal exactly if they list the same entries in the same order.

The view of a map is its list of `entries`.  Key results:

* `keys_insert`: inserting adds a new key at the end and leaves the keys alone otherwise
* `get?_insert`: inserting changes the value of one key
* `keys_ofList`: the keys of a list of entries are in the order of their first occurrences
* `ofList_entries`: a map is what its entries give
* `keys_modify`, `get?_modify`: the same for changing a value in place -/

namespace LayerGraph

/-- A map from `κ` to `α` whose entries keep the order of their first insertion. -/
structure OrderedMap (κ α : Type) where
  entries : List (κ × α)
  distinct : (entries.map Prod.fst).Nodup

namespace OrderedMap

variable {κ α β : Type}

/-- Maps with the same entries in the same order are equal. -/
@[ext] theorem ext {m m' : OrderedMap κ α} (h : m.entries = m'.entries) : m = m' := by
  cases m; cases m'; cases h; rfl

/-- The map without entries. -/
def empty : OrderedMap κ α := ⟨[], by simp⟩

instance : EmptyCollection (OrderedMap κ α) := ⟨empty⟩

instance : Inhabited (OrderedMap κ α) := ⟨empty⟩

instance [Repr κ] [Repr α] : Repr (OrderedMap κ α) := ⟨fun m n => reprPrec m.entries n⟩

instance [DecidableEq κ] [DecidableEq α] : DecidableEq (OrderedMap κ α) := fun m m' =>
  decidable_of_iff (m.entries = m'.entries) ⟨ext, congrArg entries⟩

/-- The keys, in order. -/
def keys (m : OrderedMap κ α) : List κ := m.entries.map Prod.fst

/-- The number of entries. -/
def size (m : OrderedMap κ α) : Nat := m.entries.length

/-- Changes every value and keeps the keys and their order. -/
def mapValues (m : OrderedMap κ α) (f : κ → α → β) : OrderedMap κ β :=
  ⟨m.entries.map fun e => (e.1, f e.1 e.2), by
    simpa [List.map_map, Function.comp_def] using m.distinct⟩

/-- New values leave the keys alone. -/
@[simp] theorem keys_mapValues (m : OrderedMap κ α) (f : κ → α → β) :
    (m.mapValues f).keys = m.keys := by
  simp [keys, mapValues, List.map_map, Function.comp_def]

variable [DecidableEq κ]

/-- Gives `k` the value `v`, in the place that `k` has or at the end. -/
def put (k : κ) (v : α) : List (κ × α) → List (κ × α)
  | [] => [(k, v)]
  | e :: rest => if e.1 = k then (k, v) :: rest else e :: put k v rest

/-- A new key comes last, and a known key keeps its place. -/
theorem keys_put (k : κ) (v : α) (entries : List (κ × α)) :
    (put k v entries).map Prod.fst =
      if k ∈ entries.map Prod.fst then entries.map Prod.fst
      else entries.map Prod.fst ++ [k] := by
  induction entries with
  | nil => simp [put]
  | cons e rest ih =>
    by_cases h : e.1 = k
    · simp [put, h]
    · have h' : k ≠ e.1 := fun hk => h hk.symm
      by_cases hm : k ∈ rest.map Prod.fst <;> simp_all [put]

/-- Putting an entry into a list does not make a key stand there twice. -/
theorem nodup_put (k : κ) (v : α) {entries : List (κ × α)}
    (h : (entries.map Prod.fst).Nodup) : ((put k v entries).map Prod.fst).Nodup := by
  rw [keys_put]
  split
  · exact h
  · next hm =>
    refine List.nodup_append.mpr ⟨h, by simp, fun a ha b hb => ?_⟩
    rw [List.mem_singleton.mp hb]
    exact fun hak => hm (hak ▸ ha)

/-- Gives `k` the value `v`.  A new key comes last. -/
def insert (m : OrderedMap κ α) (k : κ) (v : α) : OrderedMap κ α :=
  ⟨put k v m.entries, nodup_put k v m.distinct⟩

/-- The map that the entries give when they are inserted from left to right. -/
def ofList (entries : List (κ × α)) : OrderedMap κ α :=
  entries.foldl (fun m e => m.insert e.1 e.2) empty

/-- The value of a key. -/
def get? (m : OrderedMap κ α) (k : κ) : Option α :=
  (m.entries.find? fun e => e.1 = k).map Prod.snd

/-- Whether the map has a value for the key. -/
def contains (m : OrderedMap κ α) (k : κ) : Bool := (m.get? k).isSome

/-- Changes the value of one key, if the map has it. -/
def modify (m : OrderedMap κ α) (k : κ) (f : α → α) : OrderedMap κ α :=
  m.mapValues fun k' v => if k' = k then f v else v

/-- A new key comes last, and a known key keeps its place. -/
theorem keys_insert (m : OrderedMap κ α) (k : κ) (v : α) :
    (m.insert k v).keys = if k ∈ m.keys then m.keys else m.keys ++ [k] :=
  keys_put k v m.entries

/-- What is found after an insertion. -/
theorem get?_insert (m : OrderedMap κ α) (k : κ) (v : α) (k' : κ) :
    (m.insert k v).get? k' = if k' = k then some v else m.get? k' := by
  have go : ∀ entries : List (κ × α), ((put k v entries).find? fun e => e.1 = k').map Prod.snd =
      if k' = k then some v else (entries.find? fun e => e.1 = k').map Prod.snd := by
    intro entries
    induction entries with
    | nil => by_cases h : k = k' <;> simp [put, h, eq_comm]
    | cons e rest ih => by_cases h : e.1 = k <;> by_cases h' : k' = k <;> grind [put]
  exact go m.entries

/-- Looking a key up finds the one entry that has it. -/
theorem get?_eq_some_iff (m : OrderedMap κ α) (k : κ) (v : α) :
    m.get? k = some v ↔ (k, v) ∈ m.entries := by
  have go : ∀ entries : List (κ × α), (entries.map Prod.fst).Nodup →
      ((entries.find? fun e => e.1 = k).map Prod.snd = some v ↔ (k, v) ∈ entries) := by
    intro entries
    induction entries with
    | nil => simp
    | cons e rest ih =>
      intro h
      simp only [List.map_cons, List.nodup_cons, List.mem_map, not_exists, not_and] at h
      by_cases he : e.1 = k
      · -- No later entry has the same key.
        have hne : (k, v) ∉ rest := fun hm => h.1 (k, v) hm he.symm
        obtain ⟨a, b⟩ := e
        simp_all [eq_comm]
      · obtain ⟨a, b⟩ := e
        have hk : ¬ k = a := fun hk => he hk.symm
        simpa [List.find?_cons, he, hk] using ih h.2
  exact go m.entries m.distinct

/-- The keys are those under which something is found. -/
theorem mem_keys_iff (m : OrderedMap κ α) (k : κ) : k ∈ m.keys ↔ (m.get? k).isSome := by
  simp only [keys, List.mem_map, Option.isSome_iff_exists, get?_eq_some_iff]
  exact ⟨fun ⟨e, he, hk⟩ => ⟨e.2, hk ▸ he⟩, fun ⟨v, hv⟩ => ⟨(k, v), hv, rfl⟩⟩

/-- Inserting entries adds the keys that are new, in the order of their first occurrences. -/
theorem keys_foldl_insert (entries : List (κ × α)) (m : OrderedMap κ α) :
    (entries.foldl (fun m e => m.insert e.1 e.2) m).keys =
      m.keys ++ ((entries.map Prod.fst).filter fun k => k ∉ m.keys).eraseDups := by
  induction entries generalizing m with
  | nil => simp
  | cons e rest ih =>
    rw [List.foldl_cons, ih, keys_insert, List.map_cons]
    by_cases hk : e.1 ∈ m.keys
    · simp [hk]
    · -- The key is new, and from here on it is not new any more.
      rw [if_neg hk, List.filter_cons_of_pos (by simpa using hk), List.eraseDups_cons,
        List.append_assoc, List.singleton_append, List.filter_filter]
      congr 4
      funext k
      by_cases hke : k = e.1 <;> simp [hke, hk]

/-- The keys of a list of entries, in the order of their first occurrences. -/
theorem keys_ofList (entries : List (κ × α)) :
    (ofList entries).keys = (entries.map Prod.fst).eraseDups := by
  have hnew : (entries.map Prod.fst).filter (fun k => k ∉ (empty : OrderedMap κ α).keys) =
      entries.map Prod.fst := List.filter_eq_self.mpr (by simp [empty, keys])
  rw [ofList, keys_foldl_insert, hnew]
  rfl

/-- An entry with a new key is put behind the others. -/
theorem put_eq_append {k : κ} {entries : List (κ × α)} (h : k ∉ entries.map Prod.fst) (v : α) :
    put k v entries = entries ++ [(k, v)] := by
  induction entries with
  | nil => rfl
  | cons e entries ih =>
    rw [List.map_cons, List.mem_cons, not_or] at h
    rw [put, if_neg (Ne.symm h.1), ih h.2, List.cons_append]

/-- Inserting new keys adds them at the end. -/
theorem entries_foldl_insert {entries : List (κ × α)} {m : OrderedMap κ α}
    (h : ((m.entries ++ entries).map Prod.fst).Nodup) :
    (entries.foldl (fun m e => m.insert e.1 e.2) m).entries = m.entries ++ entries := by
  induction entries generalizing m with
  | nil => rw [List.foldl_nil, List.append_nil]
  | cons e entries ih =>
    -- The key is new, so the entry goes to the end.
    have hnew : e.1 ∉ m.entries.map Prod.fst := by
      rw [List.map_append, List.map_cons] at h
      intro hmem
      exact (List.nodup_append.mp h).2.2 e.1 hmem e.1 List.mem_cons_self rfl
    have hentries : (m.insert e.1 e.2).entries = m.entries ++ [e] := put_eq_append hnew e.2
    rw [List.foldl_cons, ih]
    · rw [hentries, List.append_assoc, List.cons_append, List.nil_append]
    · rwa [hentries, List.append_assoc, List.cons_append, List.nil_append]

/-- A map is what its entries give when they are inserted in their order. -/
theorem ofList_entries (m : OrderedMap κ α) : ofList m.entries = m :=
  ext (entries_foldl_insert m.distinct)

/-- What the entry of one key contributes, if the others contribute nothing. -/
theorem filterMap_entries {m : OrderedMap κ α} {k : κ} {v : α} (h : m.get? k = some v)
    {f : κ × α → Option β} (hf : ∀ e, e.1 ≠ k → f e = none) :
    m.entries.filterMap f = (f (k, v)).toList := by
  obtain ⟨before, after, hsplit⟩ := List.append_of_mem ((m.get?_eq_some_iff k v).mp h)
  have hdistinct := m.distinct
  rw [hsplit, List.map_append, List.map_cons, List.nodup_append] at hdistinct
  -- Every other entry has another key.
  have hbefore : before.filterMap f = [] := by
    rw [List.filterMap_eq_nil_iff]
    intro e he
    exact hf e (hdistinct.2.2 e.1 (List.mem_map_of_mem he) k List.mem_cons_self)
  have hafter : after.filterMap f = [] := by
    rw [List.filterMap_eq_nil_iff]
    intro e he
    have hkey : e.1 ∈ after.map Prod.fst := List.mem_map_of_mem he
    exact hf e fun hek => (List.nodup_cons.mp hdistinct.2.1).1 (hek ▸ hkey)
  rw [hsplit, List.filterMap_append, hbefore, List.filterMap_cons, hafter]
  cases f (k, v) <;> rfl

/-- The value of a key after all values have been changed. -/
theorem get?_mapValues (m : OrderedMap κ α) (f : κ → α → β) (k : κ) :
    (m.mapValues f).get? k = (m.get? k).map (f k) := by
  simp only [get?, mapValues, List.find?_map, Option.map_map, Function.comp_def]
  cases h : m.entries.find? fun e => e.1 = k with
  | none => simp
  | some e =>
    have he : e.1 = k := by simpa using List.find?_some h
    simp [he]

@[simp] theorem keys_modify (m : OrderedMap κ α) (k : κ) (f : α → α) :
    (m.modify k f).keys = m.keys := by
  simp [modify]

/-- Modifying the value of a key changes what is found under it and nothing else. -/
theorem get?_modify (m : OrderedMap κ α) (k : κ) (f : α → α) (k' : κ) :
    (m.modify k f).get? k' = if k' = k then (m.get? k').map f else m.get? k' := by
  rw [modify, get?_mapValues]
  by_cases h : k' = k <;> simp [h]

end OrderedMap

end LayerGraph
