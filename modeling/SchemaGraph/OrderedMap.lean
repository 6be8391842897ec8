/-!
# Ordered maps

A map from names to values that remembers the order in which the names came. Giving a name a new
value leaves it in its place.
-/

namespace SchemaGraph

/-- A map from names to values, as its entries in the order in which their names came. -/
structure OrderedMap (α : Type) where
  entries : List (String × α)
  /-- No name has two entries. -/
  distinct : (entries.map Prod.fst).Nodup
  deriving DecidableEq

namespace OrderedMap

variable {α : Type}

/-- The map without entries. -/
def empty : OrderedMap α :=
  ⟨[], by simp⟩

instance : EmptyCollection (OrderedMap α) := ⟨empty⟩

instance : Inhabited (OrderedMap α) := ⟨empty⟩

/-- Entries with a new value for a name: in the name's place, or behind the others. -/
def put (name : String) (value : α) : List (String × α) → List (String × α)
  | [] => [(name, value)]
  | (n, v) :: rest => if n = name then (name, value) :: rest else (n, v) :: put name value rest

/-- A new value is entered under a name that was there, or under one name more. -/
theorem map_fst_put (name : String) (value : α) (entries : List (String × α)) :
    (put name value entries).map Prod.fst =
      if name ∈ entries.map Prod.fst then entries.map Prod.fst
      else entries.map Prod.fst ++ [name] := by
  induction entries with
  | nil => simp [put]
  | cons e rest ih =>
    obtain ⟨n, v⟩ := e
    by_cases h : n = name
    · simp [put, h]
    · simp only [put, h, if_false, List.map_cons, ih, List.mem_cons]
      have h' : ¬ name = n := fun hn => h hn.symm
      by_cases hm : name ∈ rest.map Prod.fst <;> simp [hm, h']

/-- Give a name a value. -/
def insert (m : OrderedMap α) (name : String) (value : α) : OrderedMap α where
  entries := put name value m.entries
  distinct := by
    rw [map_fst_put]
    split
    · exact m.distinct
    · next h => exact List.nodup_append.2 ⟨m.distinct, by simp, by grind⟩

/-- The value of a name. -/
def get? (m : OrderedMap α) (name : String) : Option α :=
  m.entries.lookup name

/-- The names, in order. -/
def names (m : OrderedMap α) : List String :=
  m.entries.map Prod.fst

/-- Whether there are no entries. -/
def isEmpty (m : OrderedMap α) : Bool :=
  m.entries.isEmpty

/-- Forget a name. -/
def erase (m : OrderedMap α) (name : String) : OrderedMap α where
  entries := m.entries.filter (·.1 != name)
  distinct := m.distinct.sublist (List.filter_sublist.map Prod.fst)

/-- Change the value of a name, where it has one. -/
def modify (m : OrderedMap α) (name : String) (change : α → α) : OrderedMap α :=
  match m.get? name with
  | some value => m.insert name (change value)
  | none => m

end OrderedMap

end SchemaGraph
