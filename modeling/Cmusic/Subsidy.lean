import Cmusic.ConnectBlock

/-! The subsidies of all blocks together make up the whole money supply. -/
namespace Cmusic

open Finset

/-- What the blocks up to a height may create, in whole coins. -/
def coinsUpTo (n : Nat) : Nat :=
  if n ≤ 200000 then 300 * n
  else if n ≤ 400000 then 20000000 + 200 * n
  else if n ≤ 600000 then 40000000 + 150 * n
  else if n ≤ 800000 then 70000000 + 100 * n
  else if n ≤ 1000000 then 90000000 + 75 * n
  else if n ≤ 1200000 then 115000000 + 50 * n
  else 175000000

/-- The subsidy of a height in whole coins. -/
def subsidyCoins (nHeight : Nat) : Nat :=
  if nHeight ≤ 200000 then 300
  else if nHeight ≤ 400000 then 200
  else if nHeight ≤ 600000 then 150
  else if nHeight ≤ 800000 then 100
  else if nHeight ≤ 1000000 then 75
  else if nHeight ≤ 1200000 then 50
  else 0

theorem toInt_coin : coin.toInt = 100000000 := by decide

/-- The products of the source stay in range. -/
theorem toInt_mul_coin {coins : CAmount} (hp : 0 ≤ coins.toInt) (hle : coins.toInt ≤ 300) :
    (coins * coin).toInt = coins.toInt * coin.toInt := by
  rw [Int64.toInt_mul, toInt_coin]
  apply Int.bmod_eq_of_le <;> omega

theorem toInt_getBlockSubsidy (nHeight : Nat) :
    (getBlockSubsidy nHeight).toInt = subsidyCoins nHeight * coin.toInt := by
  unfold getBlockSubsidy subsidyCoins
  split_ifs
  all_goals
    rw [toInt_mul_coin (by decide) (by decide)]
    rfl

theorem coinsUpTo_succ (n : Nat) : coinsUpTo (n + 1) = coinsUpTo n + subsidyCoins (n + 1) := by
  unfold coinsUpTo subsidyCoins
  split_ifs <;> omega

theorem coinsUpTo_le (n : Nat) : coinsUpTo n ≤ 175000000 := by
  unfold coinsUpTo
  split_ifs <;> omega

theorem coinsUpTo_of_le {n : Nat} (h : 1200000 ≤ n) : coinsUpTo n = 175000000 := by
  unfold coinsUpTo
  split_ifs <;> omega

theorem subsidyCoins_succ_le (n : Nat) : subsidyCoins (n + 1) ≤ subsidyCoins n := by
  unfold subsidyCoins
  split_ifs <;> omega

/-- The sum of the subsidies, over the integers. -/
def totalSubsidy (n : Nat) : Int := ∑ h ∈ Icc 1 n, (getBlockSubsidy h).toInt

theorem totalSubsidy_succ (n : Nat) :
    totalSubsidy (n + 1) = totalSubsidy n + (getBlockSubsidy (n + 1)).toInt := by
  unfold totalSubsidy
  rw [sum_Icc_succ_top (by omega)]

theorem totalSubsidy_eq (n : Nat) : totalSubsidy n = coinsUpTo n * coin.toInt := by
  induction n with
  | zero => rfl
  | succ n ih =>
    rw [totalSubsidy_succ, ih, toInt_getBlockSubsidy, coinsUpTo_succ]
    push_cast
    ring

/-- The sum of the subsidies as 64-bit additions give it. -/
def cumulativeSubsidy : Nat → CAmount
  | 0 => 0
  | n + 1 => cumulativeSubsidy n + getBlockSubsidy (n + 1)

/-- No addition leaves the range of the type. -/
theorem toInt_cumulativeSubsidy (n : Nat) : (cumulativeSubsidy n).toInt = totalSubsidy n := by
  induction n with
  | zero => rfl
  | succ n ih =>
    have hb : (coinsUpTo (n + 1) : Int) ≤ 175000000 := by exact_mod_cast coinsUpTo_le (n + 1)
    have ht := totalSubsidy_eq (n + 1)
    rw [totalSubsidy_succ, toInt_coin] at ht
    rw [cumulativeSubsidy, Int64.toInt_add, ih, totalSubsidy_succ, ht]
    apply Int.bmod_eq_of_le <;> omega

theorem toInt_maxMoney_eq : maxMoney.toInt = 175000000 * coin.toInt := by decide

theorem totalSubsidy_le_succ (n : Nat) : totalSubsidy n ≤ totalSubsidy (n + 1) := by
  rw [totalSubsidy_succ, toInt_getBlockSubsidy, toInt_coin]
  omega

/-- The subsidies up to any height stay within the money supply and reach it exactly at the end of the
last era; each block adds at most what the one before it has added, and no product or sum leaves the
range of the type. -/
theorem cumulative_subsidy : (∀ n, totalSubsidy n ≤ maxMoney.toInt) ∧ Monotone totalSubsidy ∧
    (∀ n, totalSubsidy (n + 2) - totalSubsidy (n + 1) ≤ totalSubsidy (n + 1) - totalSubsidy n) ∧
    (∀ n, 1200000 ≤ n → totalSubsidy n = maxMoney.toInt) ∧
    (∀ n, (getBlockSubsidy n).toInt = subsidyCoins n * coin.toInt) ∧
    ∀ n, (cumulativeSubsidy n).toInt = totalSubsidy n := by
  refine ⟨?_, monotone_nat_of_le_succ totalSubsidy_le_succ, ?_, ?_, toInt_getBlockSubsidy,
    toInt_cumulativeSubsidy⟩
  · intro n
    have hb : (coinsUpTo n : Int) ≤ 175000000 := by exact_mod_cast coinsUpTo_le n
    rw [toInt_maxMoney_eq, totalSubsidy_eq, toInt_coin]
    omega
  · intro n
    have hd : (subsidyCoins (n + 2) : Int) ≤ subsidyCoins (n + 1) := by
      exact_mod_cast subsidyCoins_succ_le (n + 1)
    have hfirst := totalSubsidy_succ n
    have hse : totalSubsidy (n + 2) = totalSubsidy (n + 1) + (getBlockSubsidy (n + 2)).toInt :=
      totalSubsidy_succ (n + 1)
    rw [toInt_getBlockSubsidy, toInt_coin] at hfirst hse
    omega
  · intro n hn
    rw [toInt_maxMoney_eq, totalSubsidy_eq, coinsUpTo_of_le hn]
    rfl

end Cmusic
