import Mathlib.Tactic

/-! Reads of ordered maps and sets after writes, where keys compare equal only if they are equal. -/

open Std

namespace Maps

variable {κ ν : Type} {cmp : κ → κ → Ordering} [TransCmp cmp] {m : TreeMap κ ν cmp}
  {s : TreeSet κ cmp} {k n : κ} {v : ν}

theorem mem_of_getElem? (h : m[k]? = some v) : k ∈ m := (TreeMap.getElem?_eq_some_iff.1 h).fst

theorem exists_getElem? (h : k ∈ m) : ∃ v, m[k]? = some v := ⟨_, TreeMap.getElem?_eq_some_getElem h⟩

variable [LawfulEqCmp cmp]

theorem mem_insert_iff : n ∈ m.insert k v ↔ n = k ∨ n ∈ m := by
  rw [TreeMap.mem_insert, LawfulEqCmp.compare_eq_iff_eq, eq_comm]

theorem mem_erase_iff : n ∈ m.erase k ↔ n ≠ k ∧ n ∈ m := by
  rw [TreeMap.mem_erase, ne_eq, LawfulEqCmp.compare_eq_iff_eq, eq_comm]

theorem mem_set_insert : n ∈ s.insert k ↔ n = k ∨ n ∈ s := by
  rw [TreeSet.mem_insert, LawfulEqCmp.compare_eq_iff_eq, eq_comm]

theorem mem_set_erase : n ∈ s.erase k ↔ n ≠ k ∧ n ∈ s := by
  rw [TreeSet.mem_erase, ne_eq, LawfulEqCmp.compare_eq_iff_eq, eq_comm]

theorem getElem?_insert_of_ne (h : n ≠ k) (m : TreeMap κ ν cmp) (v : ν) :
    (m.insert k v)[n]? = m[n]? := by
  simp [TreeMap.getElem?_insert, Ne.symm h]

theorem getElem?_erase_of_ne (h : n ≠ k) (m : TreeMap κ ν cmp) : (m.erase k)[n]? = m[n]? := by
  simp [TreeMap.getElem?_erase, Ne.symm h]

variable [DecidableEq κ]

theorem getElem?_insert_eq : (m.insert k v)[n]? = if n = k then some v else m[n]? := by
  simp only [TreeMap.getElem?_insert, LawfulEqCmp.compare_eq_iff_eq, @eq_comm _ k]

theorem getElem?_erase_eq : (m.erase k)[n]? = if n = k then none else m[n]? := by
  simp only [TreeMap.getElem?_erase, LawfulEqCmp.compare_eq_iff_eq, @eq_comm _ k]

theorem getElem?_foldl_erase (keys : List κ) (m : TreeMap κ ν cmp) :
    (keys.foldl (fun m key => m.erase key) m)[n]? = if n ∈ keys then none else m[n]? := by
  induction keys generalizing m with
  | nil => simp
  | cons key keys ih =>
    rw [List.foldl_cons, ih, getElem?_erase_eq]
    by_cases h : n = key <;> simp [h]

end Maps
