import Cmusic.Basic

/-! The compressed form of amounts in the coin database. -/
namespace Cmusic

/-- The value of a `uint64_t` expression that does not wrap. -/
def fits (v : ℤ) : Option ℤ := if 0 ≤ v ∧ v < 2 ^ 64 then some v else none

/-- The loop of `CompressAmount`: the quotient and the power of ten it was divided by. -/
def stripZeros : (left : ℕ) → ℤ → ℤ × ℕ
  | 0, n => (n, 9)
  | left + 1, n => if n % 10 = 0 then stripZeros left (n / 10) else (n, 9 - (left + 1))

/-- `CompressAmount`; `none` where a value wraps or the assertion fails. -/
def compressAmount (n : ℤ) : Option ℤ := do
  if n = 0 then return 0
  let (n, e) := stripZeros 9 n
  if e < 9 then
    let d := n % 10
    guard (1 ≤ d ∧ d ≤ 9)
    let q ← fits (n / 10 * 9)
    let q ← fits (q + d)
    let q ← fits (q - 1)
    let q ← fits (q * 10)
    let q ← fits (1 + q)
    fits (q + e)
  else
    let q ← fits (n - 1)
    let q ← fits (q * 10)
    let q ← fits (1 + q)
    fits (q + 9)

/-- The loop of `DecompressAmount`. -/
def timesTen : ℕ → ℤ → Option ℤ
  | 0, n => some n
  | e + 1, n => do timesTen e (← fits (n * 10))

/-- `DecompressAmount`; `none` where a value wraps. -/
def decompressAmount (x : ℤ) : Option ℤ := do
  if x = 0 then return 0
  let x ← fits (x - 1)
  let e := (x % 10).toNat
  let x := x / 10
  if e < 9 then
    let d := x % 9 + 1
    let n ← fits (x / 9 * 10)
    timesTen e (← fits (n + d))
  else
    timesTen e (← fits (x + 1))

theorem fits_eq {v : ℤ} (h0 : 0 ≤ v) (h : v < 2 ^ 64) : fits v = some v := if_pos ⟨h0, h⟩

theorem stripZeros_spec {left : ℕ} (hle : left ≤ 9) {n : ℤ} (hn : 0 < n) :
    ∃ m e, stripZeros left n = (m, e) ∧ 0 < m ∧ e ≤ 9 ∧ n * 10 ^ (9 - left) = m * 10 ^ e ∧
      (e < 9 → m % 10 ≠ 0) := by
  induction left generalizing n with
  | zero => exact ⟨n, 9, rfl, hn, le_rfl, rfl, by simp⟩
  | succ left ih =>
    rw [stripZeros]
    split
    next hz =>
      obtain ⟨m, e, hst, hm, he, hp, hl⟩ := ih (by omega) (n := n / 10) (by omega)
      refine ⟨m, e, hst, hm, he, ?_, hl⟩
      rw [← hp, show 9 - left = 9 - (left + 1) + 1 by omega, pow_succ']
      nth_rewrite 1 [show n = n / 10 * 10 by omega]
      ring
    next hl => exact ⟨n, _, rfl, hn, by omega, rfl, fun _ => hl⟩

theorem timesTen_eq {n : ℤ} {e : ℕ} (hn : 0 ≤ n) (h : n * 10 ^ e < 2 ^ 64) :
    timesTen e n = some (n * 10 ^ e) := by
  induction e generalizing n with
  | zero => simp [timesTen]
  | succ e ih =>
    rw [pow_succ', ← mul_assoc] at h ⊢
    have ht : n * 10 ≤ n * 10 * 10 ^ e := le_mul_of_one_le_right (by omega) (one_le_pow₀ (by omega))
    rw [timesTen, fits_eq (by omega) (by omega), Option.bind_eq_bind, Option.bind_some]
    exact ih (by omega) h

theorem exists_compressAmount {n : ℤ} (hn : 0 < n) (hma : n ≤ maxMoney.toInt) :
    ∃ x, compressAmount n = some x ∧ decompressAmount x = some n := by
  obtain ⟨m, e, hst, hm, he, hp, hl⟩ := stripZeros_spec le_rfl hn
  rw [Nat.sub_self, pow_zero, mul_one] at hp
  have hmo : maxMoney.toInt = 17500000000000000 := by decide
  have hle : m ≤ n := hp ▸ le_mul_of_one_le_right hm.le (one_le_pow₀ (by omega))
  have ht : timesTen e m = some n := hp ▸ timesTen_eq hm.le (by omega)
  by_cases hni : e < 9
  · have hne := hl hni
    obtain ⟨q, d, rfl, hd⟩ : ∃ q d, m = q * 10 + d ∧ 1 ≤ d ∧ d ≤ 9 := ⟨m / 10, m % 10, by omega⟩
    have hq : (q * 10 + d) / 10 = q := by omega
    have hmod : (q * 10 + d) % 10 = d := by omega
    refine ⟨1 + (q * 9 + d - 1) * 10 + e, ?_, ?_⟩
    · simp (disch := omega) [compressAmount, hst, hni, fits_eq, hn.ne', guard, hq, hmod, hd]
    · have hx : 1 + (q * 9 + d - 1) * 10 + e - 1 = (q * 9 + d - 1) * 10 + (e : ℤ) := by ring
      have he : ((q * 9 + d - 1) * 10 + (e : ℤ)) % 10 = e := by omega
      have hr : ((q * 9 + d - 1) * 10 + (e : ℤ)) / 10 = q * 9 + d - 1 := by omega
      have hdi : (q * 9 + d - 1) % 9 + 1 = d := by omega
      have hqu : (q * 9 + d - 1) / 9 = q := by omega
      simp (disch := omega) [decompressAmount, hx, fits_eq, he, hr, hni, hdi, hqu, ht]
      omega
  · obtain rfl : e = 9 := by omega
    refine ⟨1 + (m - 1) * 10 + 9, ?_, ?_⟩
    · simp (disch := omega) [compressAmount, hst, fits_eq, hn.ne']
    · have hx : 1 + (m - 1) * 10 + 9 - 1 = (m - 1) * 10 + (9 : ℤ) := by ring
      have he : ((m - 1) * 10 + (9 : ℤ)) % 10 = 9 := by omega
      have hr : ((m - 1) * 10 + (9 : ℤ)) / 10 = m - 1 := by omega
      simp (disch := omega) [decompressAmount, hx, fits_eq, he, hr, ht]
      omega

/-- In the range of money no value of the two functions wraps, and the compression is undone. -/
theorem decompressAmount_compressAmount {n : ℤ} (hn : 0 ≤ n) (hmax : n ≤ maxMoney.toInt) :
    (∃ x, compressAmount n = some x ∧ decompressAmount x = some n) ∧
      ∀ m, 0 ≤ m → m ≤ maxMoney.toInt → compressAmount m = compressAmount n → m = n := by
  have hr : ∀ k : ℤ, 0 ≤ k → k ≤ maxMoney.toInt →
      ∃ x, compressAmount k = some x ∧ decompressAmount x = some k := by
    intro k hk hkm
    obtain rfl | hp := hk.eq_or_lt
    · exact ⟨0, rfl, rfl⟩
    · exact exists_compressAmount hp hkm
  refine ⟨hr n hn hmax, fun m hm hmm heq => ?_⟩
  obtain ⟨x, hx, hb⟩ := hr n hn hmax
  obtain ⟨y, hy, hsa⟩ := hr m hm hmm
  obtain rfl : y = x := Option.some.inj (hy.symm.trans (heq.trans hx))
  exact Option.some.inj (hsa.symm.trans hb)

theorem decompressAmount_compressAmount_maxMoney :
    ∃ x, compressAmount maxMoney.toInt = some x ∧ decompressAmount x = some maxMoney.toInt :=
  (decompressAmount_compressAmount (by decide) le_rfl).1

end Cmusic
