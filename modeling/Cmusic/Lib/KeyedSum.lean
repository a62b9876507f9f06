import Mathlib.Algebra.BigOperators.Finprod
import Mathlib.Tactic

/-! Sums over the entries of a map, and maps written key by key. -/

open Std

namespace KeyedSum

section Update

variable {α : Type} {f g : α → ℤ}

/-- A function that differs from a finitely supported one at one key only. -/
theorem finite_support_of_agree {a : α} (hf : f.support.Finite) (h : ∀ k, k ≠ a → g k = f k) :
    g.support.Finite := by
  refine (hf.insert a).subset fun k hk => ?_
  by_cases hka : k = a
  · exact Or.inl hka
  · right
    rw [Function.mem_support, ← h k hka]
    exact hk

/-- The sum changes by what changes at the one key. -/
theorem finsum_of_agree {a : α} (hf : f.support.Finite) (h : ∀ k, k ≠ a → g k = f k) :
    ∑ᶠ k, g k = ∑ᶠ k, f k + (g a - f a) := by
  have hg := finite_support_of_agree hf h
  have hn : (fun k => -f k).support.Finite := by simpa [Function.support] using hf
  have hd : ∑ᶠ k, (g k + -f k) = g a - f a := by
    rw [finsum_eq_single (fun k => g k + -f k) a fun k hk => by rw [h k hk]; ring]
    ring
  rw [finsum_add_distrib hg hn, finsum_neg_distrib] at hd
  omega

theorem finsum_mono (hf : f.support.Finite) (hg : g.support.Finite) (h : ∀ k, f k ≤ g k) :
    ∑ᶠ k, f k ≤ ∑ᶠ k, g k := by
  classical
  have hfs : f.support ⊆ ↑(hf.toFinset ∪ hg.toFinset) := by
    intro k hk
    simp_all
  have hgs : g.support ⊆ ↑(hf.toFinset ∪ hg.toFinset) := by
    intro k hk
    simp_all
  rw [finsum_eq_sum_of_support_subset f hfs, finsum_eq_sum_of_support_subset g hgs]
  exact Finset.sum_le_sum fun k _ => h k

end Update

section Map

variable {α β γ : Type} {cmp : α → α → Ordering} [TransCmp cmp] [LawfulEqCmp cmp]

/-- The sum of `w` over the values of a map. -/
def mapTotal (w : β → ℤ) (m : TreeMap α β cmp) : ℤ := (m.toList.map fun p => w p.2).sum

/-- What a map holds at a key, as an amount. -/
def valueAt (w : β → ℤ) (m : TreeMap α β cmp) (k : α) : ℤ := m[k]?.elim 0 w

theorem nodup_keys (m : TreeMap α β cmp) : (m.toList.map Prod.fst).Nodup := by
  rw [List.Nodup, List.pairwise_map]
  refine m.distinct_keys_toList.imp fun {p q} hne heq => ?_
  exact hne (heq ▸ ReflCmp.compare_self)

theorem mem_keys_of_valueAt {w : β → ℤ} {m : TreeMap α β cmp} {k : α} (h : valueAt w m k ≠ 0) :
    k ∈ m.toList.map Prod.fst := by
  cases hk : m[k]? with
  | none => simp [valueAt, hk] at h
  | some v => exact List.mem_map.2 ⟨(k, v), TreeMap.mem_toList_iff_getElem?_eq_some.2 hk, rfl⟩

theorem finite_support_valueAt (w : β → ℤ) (m : TreeMap α β cmp) : (valueAt w m).support.Finite :=
  (List.finite_toSet (m.toList.map Prod.fst)).subset fun _ hk => mem_keys_of_valueAt hk

theorem mapTotal_eq_finsum (w : β → ℤ) (m : TreeMap α β cmp) :
    mapTotal w m = ∑ᶠ k, valueAt w m k := by
  classical
  have hsu : (valueAt w m).support ⊆ ↑(m.toList.map Prod.fst).toFinset := by
    intro k hk
    exact List.mem_toFinset.2 (mem_keys_of_valueAt hk)
  rw [finsum_eq_sum_of_support_subset _ hsu, List.sum_toFinset _ (nodup_keys m), List.map_map,
    mapTotal]
  refine congrArg List.sum (List.map_congr_left fun p hp => ?_)
  have hg : m[p.1]? = some p.2 := TreeMap.mem_toList_iff_getElem?_eq_some.1 hp
  simp [valueAt, hg]

variable {write : TreeMap α β cmp → α → γ → TreeMap α β cmp} {effect : γ → Option β → Option β}

omit [TransCmp cmp] [LawfulEqCmp cmp] in
theorem getElem?_foldl_of_notMem (ho : ∀ m a c k, k ≠ a → (write m a c)[k]? = m[k]?)
    {l : List (α × γ)} {k : α} (h : k ∉ l.map Prod.fst) (m : TreeMap α β cmp) :
    (l.foldl (fun m p => write m p.1 p.2) m)[k]? = m[k]? := by
  induction l generalizing m with
  | nil => rfl
  | cons p l ih =>
    rw [List.map_cons, List.mem_cons, not_or] at h
    rw [List.foldl_cons, ih h.2, ho _ _ _ _ h.1]

omit [TransCmp cmp] [LawfulEqCmp cmp] in
theorem getElem?_foldl_of_mem (hse : ∀ m a c, (write m a c)[a]? = effect c m[a]?)
    (ho : ∀ m a c k, k ≠ a → (write m a c)[k]? = m[k]?) {l : List (α × γ)}
    (hn : (l.map Prod.fst).Nodup) {k : α} {c : γ} (h : (k, c) ∈ l) (m : TreeMap α β cmp) :
    (l.foldl (fun m p => write m p.1 p.2) m)[k]? = effect c m[k]? := by
  induction l generalizing m with
  | nil => cases h
  | cons p l ih =>
    rw [List.map_cons, List.nodup_cons] at hn
    rw [List.foldl_cons]
    rcases List.mem_cons.1 h with rfl | h
    · rw [getElem?_foldl_of_notMem ho hn.1, hse]
    · have hne : k ≠ p.1 := by
        rintro rfl
        exact hn.1 (List.mem_map.2 ⟨_, h, rfl⟩)
      rw [ih hn.2 h, ho _ _ _ _ hne]

/-- Writing the entries of one map into another, when each write changes its own key only. -/
theorem getElem?_foldl_write (hse : ∀ m a c, (write m a c)[a]? = effect c m[a]?)
    (ho : ∀ m a c k, k ≠ a → (write m a c)[k]? = m[k]?) (t : TreeMap α γ cmp)
    (m : TreeMap α β cmp) (k : α) :
    (t.foldl write m)[k]? = t[k]?.elim m[k]? fun c => effect c m[k]? := by
  rw [TreeMap.foldl_eq_foldl_toList]
  cases hk : t[k]? with
  | none =>
    refine getElem?_foldl_of_notMem ho ?_ m
    intro hm
    obtain ⟨p, hp, rfl⟩ := List.mem_map.1 hm
    rw [TreeMap.mem_toList_iff_getElem?_eq_some.1 hp] at hk
    cases hk
  | some c =>
    exact getElem?_foldl_of_mem hse ho (nodup_keys t)
      (TreeMap.mem_toList_iff_getElem?_eq_some.2 hk) m

end Map

end KeyedSum
