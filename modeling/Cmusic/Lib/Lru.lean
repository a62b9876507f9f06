import Mathlib.Tactic

/-! A cache of bounded size that drops the least recently used row. -/

/-- The rows from the most to the least recently used; no key has two. -/
structure Lru (κ ν : Type) where
  maxSize : Nat
  rows : List (κ × ν) := []
  nodup : (rows.map Prod.fst).Nodup := by simp

namespace Lru

variable {κ ν : Type} [DecidableEq κ]

def find? (c : Lru κ ν) (k : κ) : Option ν := (c.rows.find? (·.1 = k)).map Prod.snd

omit [DecidableEq κ] in
theorem nodup_filter (c : Lru κ ν) (p : κ × ν → Bool) : ((c.rows.filter p).map Prod.fst).Nodup :=
  c.nodup.sublist (List.filter_sublist.map Prod.fst)

def erase (c : Lru κ ν) (k : κ) : Lru κ ν where
  maxSize := c.maxSize
  rows := c.rows.filter (·.1 ≠ k)
  nodup := c.nodup_filter _

/-- The rows with one for `k` in front, in place of an earlier one. -/
def renewed (c : Lru κ ν) (k : κ) (v : ν) : List (κ × ν) := (k, v) :: (c.erase k).rows

theorem nodup_renewed (c : Lru κ ν) (k : κ) (v : ν) : ((c.renewed k v).map Prod.fst).Nodup := by
  rw [renewed, List.map_cons, List.nodup_cons]
  refine ⟨?_, (c.erase k).nodup⟩
  simp [erase]

/-- `Put`: one row too many drops the last one. -/
def put (c : Lru κ ν) (k : κ) (v : ν) : Lru κ ν where
  maxSize := c.maxSize
  rows := if (c.renewed k v).length > c.maxSize then (c.renewed k v).dropLast else c.renewed k v
  nodup := by
    split
    · exact (c.nodup_renewed k v).sublist ((List.dropLast_sublist _).map Prod.fst)
    · exact c.nodup_renewed k v

/-- `Get` moves the row to the front. -/
def touch (c : Lru κ ν) (k : κ) : Lru κ ν :=
  match c.find? k with
  | none => c
  | some v => { maxSize := c.maxSize, rows := c.renewed k v, nodup := c.nodup_renewed k v }

variable {c : Lru κ ν} {k q : κ} {v w : ν}

theorem find?_eq_some_iff : c.find? q = some w ↔ (q, w) ∈ c.rows := by
  constructor
  · intro h
    obtain ⟨row, hr, rfl⟩ := Option.map_eq_some_iff.1 h
    have hm := List.mem_of_find?_eq_some hr
    have hkey : row.1 = q := by simpa using List.find?_some hr
    rw [← hkey]
    exact hm
  · intro h
    cases hf : c.rows.find? (·.1 = q) with
    | none =>
      have hne := List.find?_eq_none.1 hf (q, w) h
      simp at hne
    | some row =>
      have hm := List.mem_of_find?_eq_some hf
      have hkey : row.1 = q := by simpa using List.find?_some hf
      have hr : row = (q, w) := List.inj_on_of_nodup_map c.nodup hm h hkey
      simp [find?, hf, hr]

theorem find?_erase (h : (c.erase k).find? q = some w) : q ≠ k ∧ c.find? q = some w := by
  rw [find?_eq_some_iff] at h ⊢
  simpa [erase, and_comm] using h

theorem mem_renewed (h : (q, w) ∈ c.renewed k v) : q = k ∧ w = v ∨ q ≠ k ∧ c.find? q = some w := by
  rcases List.mem_cons.1 h with heq | hm
  · exact Or.inl (Prod.mk.inj heq)
  · exact Or.inr (find?_erase (find?_eq_some_iff.2 hm))

/-- A row found after `Put` is the new one or an old one of another key. -/
theorem find?_put (h : (c.put k v).find? q = some w) :
    q = k ∧ w = v ∨ q ≠ k ∧ c.find? q = some w := by
  rw [find?_eq_some_iff] at h
  apply mem_renewed
  simp only [put] at h
  split at h
  · exact List.mem_of_mem_dropLast h
  · exact h

theorem find?_touch : (c.touch k).find? q = c.find? q := by
  unfold touch
  split
  · rfl
  next v hv =>
    ext w
    constructor
    · intro h
      rcases mem_renewed (find?_eq_some_iff.1 h) with ⟨rfl, rfl⟩ | ⟨-, hw⟩
      · exact hv
      · exact hw
    · intro h
      rw [find?_eq_some_iff]
      by_cases hq : q = k
      · subst hq
        rw [hv] at h
        cases h
        exact List.mem_cons_self
      · refine List.mem_cons_of_mem _ ?_
        simpa [erase, hq] using find?_eq_some_iff.1 h

end Lru
