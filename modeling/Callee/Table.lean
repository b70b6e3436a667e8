set_option autoImplicit false

/-! # Tables

A finite table from keys to values: a list of entries in which no key stands twice. Everything
else looks at a table through `get?`, and the lemmas here say what each operation does to it, at the
key it touches and at every other key. -/

namespace Callee

/-- A finite table from keys to values. -/
structure Table (κ α : Type) where
  /-- The entries, the one written last in front. -/
  entries : List (κ × α) := []
  nodup_keys : (entries.map Prod.fst).Nodup := by simp

namespace Table

variable {κ α : Type}

/-- The table without entries. -/
def empty : Table κ α := {}

/-- The keys that have a value. -/
def keys (t : Table κ α) : List κ := t.entries.map Prod.fst

/-- The values, in the order of their keys. -/
def values (t : Table κ α) : List α := t.entries.map Prod.snd

/-- The number of entries. -/
def size (t : Table κ α) : Nat := t.entries.length

/-- The table with `f` applied to every value. -/
def mapValues (t : Table κ α) (f : α → α) : Table κ α where
  entries := t.entries.map fun e => (e.1, f e.2)
  nodup_keys := by
    have h : (t.entries.map fun e => (e.1, f e.2)).map Prod.fst = t.entries.map Prod.fst := by simp
    rw [h]; exact t.nodup_keys

variable [DecidableEq κ]

/-- The value under a key in a list of entries. -/
def find (k : κ) : List (κ × α) → Option α
  | [] => none
  | e :: rest => if e.1 = k then some e.2 else find k rest

/-- The value under a key. -/
def get? (t : Table κ α) (k : κ) : Option α := find k t.entries

/-- Whether a key has a value. -/
def contains (t : Table κ α) (k : κ) : Bool := (t.get? k).isSome

/-- Takes a key out. -/
def erase (t : Table κ α) (k : κ) : Table κ α where
  entries := t.entries.filter fun e => !decide (e.1 = k)
  nodup_keys := (List.filter_sublist.map Prod.fst).nodup t.nodup_keys

/-- Writes a value under a key, in place of the one that was there. -/
def insert (t : Table κ α) (k : κ) (v : α) : Table κ α where
  entries := (k, v) :: (t.erase k).entries
  nodup_keys := by
    refine List.nodup_cons.2 ⟨?_, (t.erase k).nodup_keys⟩
    simp [erase]

/-- Changes the value under a key, if there is one. -/
def modify (t : Table κ α) (k : κ) (f : α → α) : Table κ α :=
  match t.get? k with
  | some v => t.insert k (f v)
  | none => t

/-! ## Reading back -/

@[simp] theorem get?_empty (k : κ) : (empty : Table κ α).get? k = none := rfl

theorem find_filter_self (k : κ) (es : List (κ × α)) :
    find k (es.filter fun e => !decide (e.1 = k)) = none := by
  induction es with
  | nil => rfl
  | cons e rest ih =>
      by_cases h : e.1 = k
      · simp [h, ih]
      · simp [h, find, ih]

theorem find_filter_of_ne {k j : κ} (h : j ≠ k) (es : List (κ × α)) :
    find j (es.filter fun e => !decide (e.1 = k)) = find j es := by
  induction es with
  | nil => rfl
  | cons e rest ih =>
      by_cases hk : e.1 = k
      · have hj : e.1 ≠ j := fun he => h (he ▸ hk)
        simp [find, hk, ih, hk ▸ hj]
      · simp [find, hk, ih]

@[simp] theorem get?_erase_self (t : Table κ α) (k : κ) : (t.erase k).get? k = none :=
  find_filter_self k t.entries

theorem get?_erase_of_ne (t : Table κ α) {k j : κ} (h : j ≠ k) : (t.erase k).get? j = t.get? j :=
  find_filter_of_ne h t.entries

@[simp] theorem get?_insert_self (t : Table κ α) (k : κ) (v : α) :
    (t.insert k v).get? k = some v := by
  simp [insert, get?, find]

theorem get?_insert_of_ne (t : Table κ α) {k j : κ} (h : j ≠ k) (v : α) :
    (t.insert k v).get? j = t.get? j := by
  have hk : ¬ k = j := fun he => h he.symm
  simp only [insert, get?, find, hk, if_false]
  exact get?_erase_of_ne t h

theorem get?_insert (t : Table κ α) (k j : κ) (v : α) :
    (t.insert k v).get? j = if j = k then some v else t.get? j := by
  by_cases h : j = k
  · simp [h]
  · simp [h, get?_insert_of_ne t h]

theorem get?_erase (t : Table κ α) (k j : κ) :
    (t.erase k).get? j = if j = k then none else t.get? j := by
  by_cases h : j = k
  · simp [h]
  · simp [h, get?_erase_of_ne t h]

theorem get?_modify (t : Table κ α) (k j : κ) (f : α → α) :
    (t.modify k f).get? j = if j = k then (t.get? k).map f else t.get? j := by
  unfold modify
  cases hk : t.get? k with
  | none => by_cases h : j = k <;> simp [h, hk]
  | some v => by_cases h : j = k <;> simp [h, get?_insert]

theorem find_map (k : κ) (f : α → α) (es : List (κ × α)) :
    find k (es.map fun e => (e.1, f e.2)) = (find k es).map f := by
  induction es with
  | nil => rfl
  | cons e rest ih => by_cases h : e.1 = k <;> simp [find, h, ih]

@[simp] theorem get?_mapValues (t : Table κ α) (f : α → α) (k : κ) :
    (t.mapValues f).get? k = (t.get? k).map f :=
  find_map k f t.entries

end Table

end Callee
