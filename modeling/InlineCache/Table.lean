/-! # Tables

A table maps distinct keys to values, in the order the keys were first put in. `get?` is its view:
each operation has one law that says what it does to every look-up.
-/

namespace InlineCache

/-- A finite map, kept as a list of pairs with distinct keys. -/
structure Table (κ ν : Type) where
  entries : List (κ × ν)
  nodup : (entries.map Prod.fst).Nodup

namespace Table

variable {κ ν : Type}

def empty : Table κ ν where
  entries := []
  nodup := List.nodup_nil

instance : EmptyCollection (Table κ ν) := ⟨empty⟩
instance : Inhabited (Table κ ν) := ⟨empty⟩

def size (t : Table κ ν) : Nat := t.entries.length

/-- The keys, oldest first. -/
def keys (t : Table κ ν) : List κ := t.entries.map Prod.fst

/-- The values, in the order of their keys. -/
def values (t : Table κ ν) : List ν := t.entries.map Prod.snd

/-- The pairs whose value passes the test. -/
def filterValues (t : Table κ ν) (p : ν → Bool) : Table κ ν where
  entries := t.entries.filter fun e => p e.2
  nodup := t.nodup.sublist (List.filter_sublist.map _)

variable [DecidableEq κ]

/-- The value of the first pair with this key. -/
def find (k : κ) : List (κ × ν) → Option ν
  | [] => none
  | e :: rest => if e.1 = k then some e.2 else find k rest

/-- The pairs after `k` is given the value `v`: in its old place, or last. -/
def put (k : κ) (v : ν) : List (κ × ν) → List (κ × ν)
  | [] => [(k, v)]
  | e :: rest => if e.1 = k then (k, v) :: rest else e :: put k v rest

theorem mem_keys_put (k x : κ) (v : ν) (l : List (κ × ν)) :
    x ∈ (put k v l).map Prod.fst ↔ x = k ∨ x ∈ l.map Prod.fst := by
  induction l with
  | nil => simp [put]
  | cons e rest ih =>
    by_cases h : e.1 = k
    · simp [put, h]
    · simp only [put, if_neg h, List.map_cons, List.mem_cons, ih]
      grind

theorem nodup_put (k : κ) (v : ν) {l : List (κ × ν)} (h : (l.map Prod.fst).Nodup) :
    ((put k v l).map Prod.fst).Nodup := by
  induction l with
  | nil => simp [put]
  | cons e rest ih =>
    simp only [List.map_cons, List.nodup_cons] at h
    by_cases hk : e.1 = k
    · subst hk
      simpa [put] using h
    · simp only [put, if_neg hk, List.map_cons, List.nodup_cons, mem_keys_put]
      exact ⟨by grind, ih h.2⟩

/-- The value under a key. -/
def get? (t : Table κ ν) (k : κ) : Option ν := find k t.entries

def contains (t : Table κ ν) (k : κ) : Bool := (t.get? k).isSome

/-- Gives a key a value; an older value is forgotten. -/
def insert (t : Table κ ν) (k : κ) (v : ν) : Table κ ν :=
  ⟨put k v t.entries, nodup_put k v t.nodup⟩

def erase (t : Table κ ν) (k : κ) : Table κ ν where
  entries := t.entries.filter fun e => e.1 ≠ k
  nodup := t.nodup.sublist (List.filter_sublist.map _)

/-- The table of a list of pairs; a later pair wins over an earlier one with the same key. -/
def ofList (l : List (κ × ν)) : Table κ ν := l.foldl (fun t e => t.insert e.1 e.2) empty

/-! ## What each operation does to a look-up -/

@[simp] theorem get?_empty (k : κ) : (empty : Table κ ν).get? k = none := rfl

theorem find_put (k x : κ) (v : ν) (l : List (κ × ν)) :
    find x (put k v l) = if k = x then some v else find x l := by
  induction l with
  | nil => simp [put, find]
  | cons e rest ih =>
    by_cases h : e.1 = k
    · by_cases hx : k = x <;> simp [put, find, h, hx]
    · by_cases hx : k = x
      · subst hx
        simp [put, find, h, ih]
      · simp [put, find, h, ih, hx]

theorem get?_insert (t : Table κ ν) (k x : κ) (v : ν) :
    (t.insert k v).get? x = if k = x then some v else t.get? x :=
  find_put k x v t.entries

theorem find_filter_ne (k x : κ) (l : List (κ × ν)) :
    find x (l.filter fun e => e.1 ≠ k) = if k = x then none else find x l := by
  induction l with
  | nil => simp [find]
  | cons e rest ih =>
    by_cases h : e.1 = k
    · by_cases hx : k = x <;> simp_all [find]
    · by_cases hx : k = x
      · subst hx; simp_all [find]
      · by_cases he : e.1 = x <;> simp_all [find]

theorem get?_erase (t : Table κ ν) (k x : κ) :
    (t.erase k).get? x = if k = x then none else t.get? x :=
  find_filter_ne k x t.entries

end Table

end InlineCache
