import Cmusic.Lib.Fallible

/-! Running totals per key, kept in machine words, against the exact sums they stand for. -/
namespace Totals

open Std

variable {κ : Type} {cmp : κ → κ → Ordering}

/-- Adds to the running total of a key; the addition wraps around. -/
def add (totals : TreeMap κ Int64 cmp) (key : κ) (amount : Int64) : TreeMap κ Int64 cmp :=
  match totals[key]? with
  | some total => totals.insert key (total + amount)
  | none => totals.insert key amount

variable [DecidableEq κ]

/-- The sum of the entries of a key as an integer. -/
def exactSum (entries : List (κ × Int64)) (key : κ) : Int :=
  ((entries.filter (·.1 = key)).map (·.2.toInt)).sum

/-- The overflows of a running total: one for each addition that leaves the range upwards, minus
one for each that leaves it downwards. -/
def carries (total : Int64) : List Int64 → Int
  | [] => 0
  | amount :: amounts =>
    (total.toInt + amount.toInt).bdiv (2 ^ 64) + carries (total + amount) amounts

/-- The overflows while the entries of a key are added up. -/
def overflows (entries : List (κ × Int64)) (key : κ) : Int :=
  carries 0 ((entries.filter (·.1 = key)).map (·.2))

theorem exactSum_append (entries entries' : List (κ × Int64)) (key : κ) :
    exactSum (entries ++ entries') key = exactSum entries key + exactSum entries' key := by
  simp [exactSum]

theorem exactSum_singleton (k key : κ) (amount : Int64) :
    exactSum [(k, amount)] key = if k = key then amount.toInt else 0 := by
  by_cases h : k = key <;> simp [exactSum, h]

theorem exactSum_eq_zero {entries : List (κ × Int64)} {key : κ}
    (h : key ∉ entries.map Prod.fst) : exactSum entries key = 0 := by
  have hn : entries.filter (·.1 = key) = [] := by
    rw [List.filter_eq_nil_iff]
    intro e he hk
    exact h (List.mem_map.2 ⟨e, he, by simpa using hk⟩)
  simp [exactSum, hn]

theorem bdiv_add_mul {m : Nat} (hm : 0 < m) (x c : Int) : (x + m * c).bdiv m = x.bdiv m + c := by
  have hx := Int.bmod_add_bdiv x m
  have hxc := Int.bmod_add_bdiv (x + m * c) m
  rw [Int.add_mul_bmod_self_left] at hxc
  have hmu : (m : Int) * (x + m * c).bdiv m = m * (x.bdiv m + c) := by
    rw [mul_add]
    omega
  exact Int.eq_of_mul_eq_mul_left (by omega) hmu

/-- The overflows are what the machine word loses of the exact sum. -/
theorem carries_eq (total : Int64) (amounts : List Int64) :
    carries total amounts = (total.toInt + (amounts.map Int64.toInt).sum).bdiv (2 ^ 64) := by
  induction amounts generalizing total with
  | nil =>
    have hl := total.le_toInt
    have hh := total.toInt_lt
    have hd := Int.bmod_add_bdiv total.toInt (2 ^ 64)
    rw [Int.bmod_eq_of_le (by omega) (by omega)] at hd
    simp only [carries, List.map_nil, List.sum_nil, add_zero]
    omega
  | cons amount amounts ih =>
    -- the exact sum is the one of the wrapped total, plus what this addition lost
    have hstep := Int.bmod_add_bdiv (total.toInt + amount.toInt) (2 ^ 64)
    rw [← Int64.toInt_add] at hstep
    rw [List.map_cons, List.sum_cons, ← add_assoc, ← hstep, add_right_comm,
      bdiv_add_mul (by decide), ← ih, carries, add_comm]

theorem overflows_eq (entries : List (κ × Int64)) (key : κ) :
    overflows entries key = (exactSum entries key).bdiv (2 ^ 64) := by
  simp [overflows, carries_eq, exactSum, Function.comp_def]

/-- The totals hold what the entries add up to, each modulo `2 ^ 64`. -/
structure Collects (entries : List (κ × Int64)) (totals : TreeMap κ Int64 cmp) : Prop where
  mem_iff : ∀ key, key ∈ totals ↔ key ∈ entries.map Prod.fst
  value : ∀ key total, totals[key]? = some total →
    total.toInt = (exactSum entries key).bmod (2 ^ 64)

section

variable [TransCmp cmp] {es fs : List (κ × Int64)}

theorem collects_nil : Collects [] (∅ : TreeMap κ Int64 cmp) :=
  ⟨by simp, by simp⟩

variable [LawfulEqCmp cmp] {ins outs : TreeMap κ Int64 cmp}

theorem getElem?_add (totals : TreeMap κ Int64 cmp) (k key : κ) (amount : Int64) :
    (add totals k amount)[key]? =
      if k = key then some (totals[k]?.elim amount (· + amount)) else totals[key]? := by
  by_cases h : k = key
  · subst h
    cases hk : totals[k]? <;> simp [add, hk]
  · cases hk : totals[k]? <;> simp [add, hk, TreeMap.getElem?_insert, h]

/-- A step of the loop that adds the entries up. -/
theorem Collects.add {entries : List (κ × Int64)} {totals : TreeMap κ Int64 cmp}
    (h : Collects entries totals) (k : κ) (amount : Int64) :
    Collects (entries ++ [(k, amount)]) (Totals.add totals k amount) := by
  constructor
  · intro key
    have hm := h.mem_iff key
    rw [← TreeMap.isSome_getElem?_iff_mem, getElem?_add]
    by_cases hk : k = key
    · simp [hk]
    · simpa [hk, Ne.symm hk, TreeMap.isSome_getElem?_iff_mem] using hm
  · intro key total ht
    rw [getElem?_add] at ht
    rw [exactSum_append, exactSum_singleton]
    by_cases hk : k = key
    · subst hk
      simp only [if_true, Option.some.injEq] at ht ⊢
      subst ht
      cases ho : totals[k]? with
      | none =>
        have hnew : k ∉ entries.map Prod.fst := by
          rw [← h.mem_iff, ← TreeMap.isSome_getElem?_iff_mem, ho]
          simp
        simp [exactSum_eq_zero hnew]
      | some old => simp [h.value k old ho, Int64.toInt_add]
    · simp only [hk, if_false, add_zero] at ht ⊢
      exact h.value key total ht

omit [TransCmp cmp] [LawfulEqCmp cmp] in
/-- A loop whose every step adds at most one entry collects the entries of the whole list. -/
theorem collects_foldlM {α β ε : Type} {entry : α → Option (κ × Int64)}
    (totals : β → TreeMap κ Int64 cmp) {step : β → α → Except ε β} {l : List α} {b b' : β}
    (h : l.foldlM step b = .ok b') (h0 : Collects [] (totals b))
    (hstep : ∀ entries a c c', Collects entries (totals c) → step c a = .ok c' →
      Collects (entries ++ (entry a).toList) (totals c')) :
    Collects (l.filterMap entry) (totals b') := by
  refine Fallible.foldlM_invariant (fun pre c => Collects (pre.filterMap entry) (totals c)) h h0 ?_
  intro pre a c c' hp hc
  have hsn : (pre ++ [a]).filterMap entry = pre.filterMap entry ++ (entry a).toList := by
    cases ha : entry a <;> simp [ha]
  rw [hsn]
  exact hstep _ a c c' hp hc

/-- Every output total is an input total, and there are as many of either. -/
structure Agree (ins outs : TreeMap κ Int64 cmp) : Prop where
  sub : ∀ (key : κ) (total : Int64), outs[key]? = some total → ins[key]? = some total
  size_eq : outs.size = ins.size

omit [DecidableEq κ] in
theorem Agree.mem_iff (h : Agree ins outs) (key : κ) : key ∈ ins ↔ key ∈ outs := by
  have hsu : outs.keys ⊆ ins.keys := by
    intro k hk
    rw [TreeMap.mem_keys, ← TreeMap.isSome_getElem?_iff_mem, Option.isSome_iff_exists] at hk ⊢
    obtain ⟨total, ht⟩ := hk
    exact ⟨total, h.sub k total ht⟩
  -- the keys are distinct, so a sublist of the same length is all of them
  have hp : outs.keys.Perm ins.keys := by
    refine (List.subperm_of_subset TreeMap.nodup_keys hsu).perm_of_length_le ?_
    rw [TreeMap.length_keys, TreeMap.length_keys, h.size_eq]
  rw [← TreeMap.mem_keys, ← TreeMap.mem_keys]
  exact hp.mem_iff.symm

theorem Agree.bmod_eq (h : Agree ins outs) (hin : Collects es ins) (hout : Collects fs outs)
    (key : κ) : (exactSum es key).bmod (2 ^ 64) = (exactSum fs key).bmod (2 ^ 64) := by
  by_cases hm : key ∈ outs
  · obtain ⟨total, ht⟩ := Option.isSome_iff_exists.1 (TreeMap.isSome_getElem?_iff_mem.2 hm)
    rw [← hout.value key total ht, ← hin.value key total (h.sub key total ht)]
  · have hes := fun hk => hm ((h.mem_iff key).1 ((hin.mem_iff key).2 hk))
    have hfs := fun hk => hm ((hout.mem_iff key).2 hk)
    rw [exactSum_eq_zero hes, exactSum_eq_zero hfs]

/-- Agreeing totals stand for equal sums exactly when both sides overflowed alike. -/
theorem Agree.exactSum_eq_iff (h : Agree ins outs) (hin : Collects es ins) (hout : Collects fs outs)
    (key : κ) : exactSum es key = exactSum fs key ↔ overflows es key = overflows fs key := by
  have hm := h.bmod_eq hin hout key
  have hes := Int.bmod_add_bdiv (exactSum es key) (2 ^ 64)
  have hfs := Int.bmod_add_bdiv (exactSum fs key) (2 ^ 64)
  rw [overflows_eq, overflows_eq]
  constructor
  · intro heq
    rw [heq]
  · intro hc
    rw [← hes, ← hfs, hm, hc]

end

end Totals
