import Cmusic.Lib.DirtyPair
import Cmusic.Lib.Lru

/-! A table of a database with a cache of its rows. -/

open Std

/-- A table and the cache of its rows; the cache has keys of its own. -/
structure Table (κ η ν : Type) (cmp : κ → κ → Ordering) where
  cache : Lru η ν
  db : TreeMap κ ν cmp := ∅

namespace Table

variable {κ η ν : Type} {cmp : κ → κ → Ordering} [DecidableEq η] (rowKey : κ → η)

section Operations

variable (t : Table κ η ν cmp) (k : κ)

def write (v : ν) : Table κ η ν cmp := ⟨t.cache.put (rowKey k) v, t.db.insert k v⟩

/-- A write that drops the cached row. -/
def overwrite (v : ν) : Table κ η ν cmp := ⟨t.cache.erase (rowKey k), t.db.insert k v⟩

def erase : Table κ η ν cmp := ⟨t.cache.erase (rowKey k), t.db.erase k⟩

/-- A row of the database that is found goes into the cache. -/
def load : Option ν × Table κ η ν cmp :=
  match t.db[k]? with
  | some v => (some v, { t with cache := t.cache.put (rowKey k) v })
  | none => (none, t)

/-- A lookup that only asks whether the cache has the row. -/
def lookup : Option ν × Table κ η ν cmp :=
  match t.cache.find? (rowKey k) with
  | some v => (some v, t)
  | none => t.load rowKey k

/-- A lookup that takes the row out of the cache, which makes it the most recent one. -/
def get : Option ν × Table κ η ν cmp :=
  match t.cache.find? (rowKey k) with
  | some v => (some v, { t with cache := t.cache.touch (rowKey k) })
  | none => t.load rowKey k

end Operations

/-- Every cached row is the one the database has under a key in use. -/
def Coherent (K : κ → Prop) (t : Table κ η ν cmp) : Prop :=
  ∀ h v, t.cache.find? h = some v → ∃ k, K k ∧ rowKey k = h ∧ t.db[k]? = some v

/-- No two keys in use share a key of the cache. -/
def Distinct (K : κ → Prop) : Prop := ∀ k n, K k → K n → rowKey k = rowKey n → k = n

variable [TransCmp cmp] [LawfulEqCmp cmp] {rowKey} {K : κ → Prop} {t : Table κ η ν cmp} {k : κ}

omit [TransCmp cmp] [LawfulEqCmp cmp] in
theorem coherent_empty (maxSize : Nat) :
    Coherent rowKey K ({ cache := { maxSize } } : Table κ η ν cmp) := by
  intro h v hv
  simp [Lru.find?] at hv

omit [DecidableEq η] in
theorem getElem?_insert_of_ne {n : κ} (h : rowKey n ≠ rowKey k) (db : TreeMap κ ν cmp) (v : ν) :
    (db.insert k v)[n]? = db[n]? := by
  have hc : ¬cmp k n = .eq := fun heq => h (LawfulEqCmp.eq_of_compare heq ▸ rfl)
  rw [TreeMap.getElem?_insert, if_neg hc]

theorem coherent_write (h : Coherent rowKey K t) (hk : K k) (v : ν) :
    Coherent rowKey K (t.write rowKey k v) := by
  intro q w hw
  rcases Lru.find?_put hw with ⟨rfl, rfl⟩ | ⟨hne, ho⟩
  · exact ⟨k, hk, rfl, TreeMap.getElem?_insert_self⟩
  · obtain ⟨n, hn, rfl, hr⟩ := h q w ho
    exact ⟨n, hn, rfl, (getElem?_insert_of_ne hne t.db v).trans hr⟩

theorem coherent_overwrite (h : Coherent rowKey K t) (v : ν) :
    Coherent rowKey K (t.overwrite rowKey k v) := by
  intro q w hw
  obtain ⟨hne, ho⟩ := Lru.find?_erase hw
  obtain ⟨n, hn, rfl, hr⟩ := h q w ho
  exact ⟨n, hn, rfl, (getElem?_insert_of_ne hne t.db v).trans hr⟩

theorem coherent_erase (h : Coherent rowKey K t) : Coherent rowKey K (t.erase rowKey k) := by
  intro q w hw
  obtain ⟨hne, ho⟩ := Lru.find?_erase hw
  obtain ⟨n, hn, rfl, hr⟩ := h q w ho
  refine ⟨n, hn, rfl, ?_⟩
  have hkn : k ≠ n := fun heq => hne (heq ▸ rfl)
  exact (DirtyPair.getElem?_erase_ne hkn t.db).trans hr

omit [TransCmp cmp] [LawfulEqCmp cmp] in
theorem coherent_load (h : Coherent rowKey K t) (hk : K k) :
    Coherent rowKey K (t.load rowKey k).2 := by
  unfold load
  split
  next v hv =>
    intro q w hw
    rcases Lru.find?_put hw with ⟨rfl, rfl⟩ | ⟨-, ho⟩
    · exact ⟨k, hk, rfl, hv⟩
    · exact h q w ho
  · exact h

omit [TransCmp cmp] [LawfulEqCmp cmp] in
theorem coherent_lookup (h : Coherent rowKey K t) (hk : K k) :
    Coherent rowKey K (t.lookup rowKey k).2 := by
  unfold lookup
  split
  · exact h
  · exact coherent_load h hk

omit [TransCmp cmp] [LawfulEqCmp cmp] in
theorem coherent_get (h : Coherent rowKey K t) (hk : K k) :
    Coherent rowKey K (t.get rowKey k).2 := by
  unfold get
  split
  · intro q w hw
    rw [Lru.find?_touch] at hw
    exact h q w hw
  · exact coherent_load h hk

omit [TransCmp cmp] [LawfulEqCmp cmp] in
@[simp] theorem db_load : (t.load rowKey k).2.db = t.db := by
  unfold load
  split <;> rfl

omit [TransCmp cmp] [LawfulEqCmp cmp] in
@[simp] theorem db_lookup : (t.lookup rowKey k).2.db = t.db := by
  unfold lookup
  split
  · rfl
  · exact db_load

omit [TransCmp cmp] [LawfulEqCmp cmp] in
@[simp] theorem db_get : (t.get rowKey k).2.db = t.db := by
  unfold get
  split
  · rfl
  · exact db_load

omit [TransCmp cmp] [LawfulEqCmp cmp] in
theorem fst_load : (t.load rowKey k).1 = t.db[k]? := by
  unfold load
  split
  next v hv => exact hv.symm
  next hv => exact hv.symm

omit [TransCmp cmp] [LawfulEqCmp cmp] in
theorem db_of_cached (h : Coherent rowKey K t) (hd : Distinct rowKey K) (hk : K k) {v : ν}
    (hv : t.cache.find? (rowKey k) = some v) : t.db[k]? = some v := by
  obtain ⟨n, hn, heq, hr⟩ := h _ v hv
  rwa [← hd n k hn hk heq]

omit [TransCmp cmp] [LawfulEqCmp cmp] in
/-- What a lookup answers is what the database has. -/
theorem fst_lookup (h : Coherent rowKey K t) (hd : Distinct rowKey K) (hk : K k) :
    (t.lookup rowKey k).1 = t.db[k]? := by
  unfold lookup
  split
  next v hv => exact (db_of_cached h hd hk hv).symm
  · exact fst_load

omit [TransCmp cmp] [LawfulEqCmp cmp] in
theorem fst_get (h : Coherent rowKey K t) (hd : Distinct rowKey K) (hk : K k) :
    (t.get rowKey k).1 = t.db[k]? := by
  unfold get
  split
  next v hv => exact (db_of_cached h hd hk hv).symm
  · exact fst_load

end Table
