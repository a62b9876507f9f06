import Cmusic.Coins
import Cmusic.Lib.KeyedSum

/-! The exact value of the coins in a view, and what each operation on the view does to it. -/
namespace Cmusic

open Std KeyedSum

/-- The value of a coin; a spent one has none. -/
def Coin.amount (coin : Coin) : ℤ := if coin.isSpent then 0 else coin.out.nValue.toInt

@[simp] theorem Coin.amount_cleared : Coin.cleared.amount = 0 := by decide

theorem Coin.amount_of_nonneg {coin : Coin} (h : 0 ≤ coin.out.nValue.toInt) :
    coin.amount = coin.out.nValue.toInt := by
  have hne : coin.isSpent = false := by
    rw [Coin.isSpent, decide_eq_false_iff_not]
    intro heq
    rw [heq] at h
    exact absurd h (by decide)
  simp [Coin.amount, hne]

/-- The exact total of the unspent outputs. -/
def utxoTotal (base : TreeMap COutPoint Coin) : ℤ := mapTotal (fun coin => coin.out.nValue.toInt) base

namespace CCoinsViewCache

/-- What the parent holds at an outpoint. -/
def baseAmount (view : CCoinsViewCache) (outpoint : COutPoint) : ℤ :=
  (view.baseCoin outpoint).elim 0 Coin.amount

/-- A fresh entry does not hide the parent's coin: spending it brings that coin back. -/
def entryAmount (view : CCoinsViewCache) (outpoint : COutPoint) (entry : CCoinsCacheEntry) : ℤ :=
  (if entry.fresh then view.baseAmount outpoint else 0) + entry.coin.amount

def held (view : CCoinsViewCache) (outpoint : COutPoint) : ℤ :=
  view.cacheCoins[outpoint]?.elim (view.baseAmount outpoint) (view.entryAmount outpoint)

/-- The value in the view, with the coins that fresh entries may bring back. -/
noncomputable def total (view : CCoinsViewCache) : ℤ := ∑ᶠ outpoint, view.held outpoint

/-- No value is negative, and an entry that is not dirty is the parent's coin. -/
structure Sound (view : CCoinsViewCache) : Prop where
  base : ∀ (outpoint : COutPoint) (coin : Coin), view.base[outpoint]? = some coin →
    0 ≤ coin.out.nValue.toInt
  entries : ∀ (outpoint : COutPoint) (entry : CCoinsCacheEntry),
    view.cacheCoins[outpoint]? = some entry → 0 ≤ entry.coin.amount
  clean : ∀ (outpoint : COutPoint) (entry : CCoinsCacheEntry), view.cacheCoins[outpoint]? = some entry → entry.dirty = false →
    entry.fresh = false ∧ view.base[outpoint]? = some entry.coin

variable {view : CCoinsViewCache} {outpoint : COutPoint} {entry : CCoinsCacheEntry} {k : COutPoint}
  {coin : Coin} {view' : CCoinsViewCache} {base : TreeMap COutPoint Coin}

theorem Sound.baseCoin_eq (h : view.Sound) (outpoint : COutPoint) :
    view.baseCoin outpoint = view.base[outpoint]? := by
  cases hb : view.base[outpoint]? with
  | none => simp [baseCoin, hb]
  | some coin =>
    have hne : coin.out.nValue ≠ -1 := by
      intro heq
      have := h.base outpoint coin hb
      rw [heq] at this
      exact absurd this (by decide)
    simp [baseCoin, hb, Coin.isSpent, hne]

theorem Sound.baseAmount_eq (h : view.Sound) (outpoint : COutPoint) :
    view.baseAmount outpoint = valueAt (fun coin => coin.out.nValue.toInt) view.base outpoint := by
  rw [baseAmount, h.baseCoin_eq, valueAt]
  cases hb : view.base[outpoint]? with
  | none => rfl
  | some coin => exact Coin.amount_of_nonneg (h.base outpoint coin hb)

theorem Sound.baseAmount_nonneg (h : view.Sound) (outpoint : COutPoint) :
    0 ≤ view.baseAmount outpoint := by
  rw [h.baseAmount_eq, valueAt]
  cases hb : view.base[outpoint]? with
  | none => simp
  | some coin => exact h.base outpoint coin hb

theorem finite_support_held (view : CCoinsViewCache) : view.held.support.Finite := by
  have hba := List.finite_toSet (view.base.toList.map Prod.fst)
  have hca := List.finite_toSet (view.cacheCoins.toList.map Prod.fst)
  refine (hba.union hca).subset fun k hk => ?_
  cases hc : view.cacheCoins[k]? with
  | some entry =>
    exact Or.inr (List.mem_map.2 ⟨_, TreeMap.mem_toList_iff_getElem?_eq_some.2 hc, rfl⟩)
  | none =>
    cases hb : view.base[k]? with
    | none => simp [held, hc, baseAmount, baseCoin, hb] at hk
    | some coin =>
      exact Or.inl (List.mem_map.2 ⟨_, TreeMap.mem_toList_iff_getElem?_eq_some.2 hb, rfl⟩)

/-- A view over the same parent whose cache differs at one outpoint. -/
theorem total_of_agree (view view' : CCoinsViewCache) (hb : view'.base = view.base)
    (hc : ∀ k, k ≠ outpoint → view'.cacheCoins[k]? = view.cacheCoins[k]?) :
    view'.total = view.total + (view'.held outpoint - view.held outpoint) := by
  refine finsum_of_agree view.finite_support_held fun k hk => ?_
  have ha : view'.baseAmount k = view.baseAmount k := by
    rw [baseAmount, baseAmount, baseCoin, baseCoin, hb]
  rw [held, held, hc k hk, ha]
  cases view.cacheCoins[k]? with
  | none => rfl
  | some entry => simp only [Option.elim_some, entryAmount, ha]

theorem held_of_entry (h : view.cacheCoins[outpoint]? = some entry) :
    view.held outpoint = view.entryAmount outpoint entry := by
  simp [held, h]

theorem held_of_none (h : view.cacheCoins[outpoint]? = none) :
    view.held outpoint = view.baseAmount outpoint := by
  simp [held, h]

/-- Writing one entry keeps the invariant when the entry is dirty and not negative. -/
theorem Sound.insert (h : view.Sound) (hd : entry.dirty = true)
    (ha : 0 ≤ entry.coin.amount) :
    Sound { view with cacheCoins := view.cacheCoins.insert outpoint entry } where
  base := h.base
  entries := by
    intro k e hk
    simp only [TreeMap.getElem?_insert] at hk
    split at hk
    · cases hk
      exact ha
    · exact h.entries k e hk
  clean := by
    intro k e hk hc
    simp only [TreeMap.getElem?_insert] at hk
    split at hk
    · cases hk
      rw [hd] at hc
      cases hc
    · exact h.clean k e hk hc

theorem Sound.erase (h : view.Sound) :
    Sound { view with cacheCoins := view.cacheCoins.erase outpoint } where
  base := h.base
  entries := by
    intro k e hk
    simp only [TreeMap.getElem?_erase] at hk
    split at hk
    · cases hk
    · exact h.entries k e hk
  clean := by
    intro k e hk hc
    simp only [TreeMap.getElem?_erase] at hk
    split at hk
    · cases hk
    · exact h.clean k e hk hc

theorem total_insert (view : CCoinsViewCache) (outpoint : COutPoint) (entry : CCoinsCacheEntry) :
    total { view with cacheCoins := view.cacheCoins.insert outpoint entry } =
      view.total + (view.entryAmount outpoint entry - view.held outpoint) := by
  rw [total_of_agree view { view with cacheCoins := view.cacheCoins.insert outpoint entry } rfl
    fun k hk => Maps.getElem?_insert_of_ne hk _ entry, held_of_entry TreeMap.getElem?_insert_self]
  rfl

theorem total_erase (view : CCoinsViewCache) (outpoint : COutPoint) :
    total { view with cacheCoins := view.cacheCoins.erase outpoint } =
      view.total + (view.baseAmount outpoint - view.held outpoint) := by
  rw [total_of_agree view { view with cacheCoins := view.cacheCoins.erase outpoint } rfl
    fun k hk => Maps.getElem?_erase_of_ne hk _, held_of_none TreeMap.getElem?_erase_self]
  rfl

/-- A spent entry is dirty: what was only read is a coin of the parent. -/
theorem Sound.dirty_of_isSpent (h : view.Sound) (he : view.cacheCoins[outpoint]? = some entry)
    (hsp : entry.coin.isSpent = true) : entry.dirty = true := by
  by_contra hc
  obtain ⟨-, hb⟩ := h.clean outpoint entry he (Bool.eq_false_iff.2 hc)
  have hv := h.base outpoint entry.coin hb
  rw [Coin.isSpent, decide_eq_true_eq] at hsp
  rw [hsp] at hv
  exact absurd hv (by decide)

/-- Adding a coin adds at most its value: an overwritten coin only takes value away. -/
theorem Sound.addSpendable (h : view.Sound) {possibleOverwrite : Bool} (hc : 0 ≤ coin.amount)
    (had : view.addSpendable outpoint coin possibleOverwrite = some view') :
    view'.Sound ∧ view'.base = view.base ∧ view'.total ≤ view.total + coin.amount := by
  have hb := h.baseAmount_nonneg outpoint
  simp only [CCoinsViewCache.addSpendable] at had
  split at had
  · cases had
  next hr =>
    cases had
    refine ⟨h.insert rfl hc, rfl, ?_⟩
    rw [total_insert, entryAmount]
    dsimp only
    -- the cases follow what the cache knew about the outpoint
    cases he : view.cacheCoins[outpoint]? with
    | none =>
      rw [held_of_none he]
      split <;> omega
    | some entry =>
      have ha := h.entries outpoint entry he
      rw [held_of_entry he, entryAmount]
      simp only [entryOrEmpty, he, Option.getD_some] at hr ⊢
      cases possibleOverwrite with
      | true =>
        simp only [Bool.not_true, Bool.false_and, Bool.or_false]
        omega
      | false =>
        have hsp : entry.coin.isSpent = true := by simpa using hr
        rw [h.dirty_of_isSpent he hsp]
        simp only [Bool.not_true, Bool.and_false, Bool.or_false]
        omega

/-- Spending takes exactly the value of the coin it returns. -/
theorem Sound.spendEntry (h : view.Sound) (hsp : view.spendEntry outpoint = some (coin, view')) :
    view'.Sound ∧ view'.base = view.base ∧ view'.total = view.total - coin.amount := by
  simp only [CCoinsViewCache.spendEntry] at hsp
  split at hsp
  · cases hsp
  next entry hfi =>
    have hh : view.held outpoint = view.entryAmount outpoint entry := by
      cases he : view.cacheCoins[outpoint]? with
      | some e =>
        obtain rfl : e = entry := by simpa [findEntry, he] using hfi
        exact held_of_entry he
      | none =>
        rw [held_of_none he]
        cases hb : view.baseCoin outpoint with
        | none => simp [findEntry, he, hb] at hfi
        | some c =>
          obtain rfl : ⟨c, false, false⟩ = entry := by simpa [findEntry, he, hb] using hfi
          simp [baseAmount, hb, entryAmount]
    split at hsp
    next hf =>
      cases hsp
      refine ⟨h.erase, rfl, ?_⟩
      rw [total_erase, hh, entryAmount, if_pos hf]
      omega
    next hf =>
      cases hsp
      refine ⟨h.insert rfl (by simp), rfl, ?_⟩
      rw [total_insert, hh, entryAmount, entryAmount, if_neg hf]
      simp only [Bool.false_eq_true, if_false, Coin.amount_cleared]
      omega

theorem getCoin_of_agree (hb : view'.base = view.base)
    (hc : view'.cacheCoins[k]? = view.cacheCoins[k]?) : view'.getCoin k = view.getCoin k := by
  rw [getCoin, getCoin, findEntry, findEntry, hc, baseCoin, baseCoin, hb]

/-- Spending one coin leaves the others as they were. -/
theorem getCoin_of_spendEntry (hsp : view.spendEntry outpoint = some (coin, view'))
    (hne : k ≠ outpoint) : view'.getCoin k = view.getCoin k := by
  simp only [CCoinsViewCache.spendEntry] at hsp
  split at hsp
  · cases hsp
  · split at hsp
    · cases hsp
      exact getCoin_of_agree rfl (Maps.getElem?_erase_of_ne hne _)
    · cases hsp
      exact getCoin_of_agree rfl (Maps.getElem?_insert_of_ne hne _ _)

/-- The coin that is spent is the one that the view shows. -/
theorem eq_of_spendEntry {c : Coin} (hsp : view.spendEntry outpoint = some (coin, view'))
    (hg : view.getCoin outpoint = some c) : coin = c := by
  obtain ⟨he, -⟩ := Option.filter_eq_some_iff.1 hg
  obtain ⟨entry, hf, rfl⟩ := Option.map_eq_some_iff.1 he
  simp only [CCoinsViewCache.spendEntry, hf] at hsp
  split at hsp <;> cases hsp <;> rfl

/-- A view with nothing cached holds what its parent holds. -/
theorem total_of_empty (h : Sound { base }) : total { base } = utxoTotal base := by
  rw [utxoTotal, mapTotal_eq_finsum, total]
  refine finsum_congr fun k => ?_
  rw [held_of_none (by simp), h.baseAmount_eq]

theorem sound_of_empty
    (h : ∀ (outpoint : COutPoint) (coin : Coin), base[outpoint]? = some coin →
      0 ≤ coin.out.nValue.toInt) : Sound { base } where
  base := h
  entries := by simp
  clean := by simp

/-- What a flush leaves at an outpoint. -/
def flushed (entry : CCoinsCacheEntry) (below : Option Coin) : Option Coin :=
  if entry.dirty then if entry.coin.isSpent then none else some entry.coin else below

theorem getElem?_flush (view : CCoinsViewCache) (k : COutPoint) :
    view.flush[k]? = view.cacheCoins[k]?.elim view.base[k]? fun entry => flushed entry view.base[k]? := by
  refine getElem?_foldl_write ?_ ?_ view.cacheCoins view.base k
  · intro m a entry
    unfold flushed
    split
    · split
      · exact TreeMap.getElem?_erase_self
      · exact TreeMap.getElem?_insert_self
    · rfl
  · intro m a entry k hne
    split
    · split
      · exact Maps.getElem?_erase_of_ne hne m
      · exact Maps.getElem?_insert_of_ne hne m _
    · rfl

/-- A flush keeps every value non-negative. -/
theorem Sound.flush_nonneg (h : view.Sound) (hk : view.flush[k]? = some coin) :
    0 ≤ coin.out.nValue.toInt := by
  rw [getElem?_flush] at hk
  cases he : view.cacheCoins[k]? with
  | none =>
    rw [he] at hk
    exact h.base k coin hk
  | some entry =>
    have ha := h.entries k entry he
    rw [he, Option.elim_some, flushed] at hk
    split at hk
    · split at hk
      · cases hk
      next hu =>
        cases hk
        simpa [Coin.amount, hu] using ha
    · exact h.base k coin hk

/-- A flush writes at most the value of the view; what it loses are overwritten coins. -/
theorem Sound.utxoTotal_flush_le (h : view.Sound) : utxoTotal view.flush ≤ view.total := by
  rw [utxoTotal, mapTotal_eq_finsum]
  refine finsum_mono (finite_support_valueAt _ _) view.finite_support_held fun k => ?_
  have hb := h.baseAmount_nonneg k
  rw [valueAt, getElem?_flush]
  cases he : view.cacheCoins[k]? with
  | none => rw [held_of_none he, h.baseAmount_eq, valueAt, Option.elim_none]
  | some entry =>
    have ha := h.entries k entry he
    rw [held_of_entry he, entryAmount, Option.elim_some, flushed]
    split
    · split
      · rw [Option.elim_none]
        split <;> omega
      next hu =>
        have hv : entry.coin.amount = entry.coin.out.nValue.toInt := by
          simp [Coin.amount, hu]
        rw [Option.elim_some, hv]
        split <;> omega
    next hcl =>
      obtain ⟨hf, hc⟩ := h.clean k entry he (Bool.eq_false_iff.2 hcl)
      rw [hc, Option.elim_some, hf, Coin.amount_of_nonneg (h.base k _ hc)]
      simp

end CCoinsViewCache

end Cmusic
