import Cmusic.Retarget

/-! The limb arithmetic of 256-bit numbers: products carry 32 bits at a time, quotients are found by
shifting and subtracting. -/
namespace Cmusic

section Limbs

/-- The lowest limbs of a number, as `pn` holds them. -/
def limbs : (width : Nat) → Nat → List UInt32
  | 0, _ => []
  | width + 1, v => UInt32.ofNat v :: limbs width (v / 2 ^ 32)

/-- The number that limbs stand for. -/
def limbValue : List UInt32 → Nat
  | [] => 0
  | x :: xs => x.toNat + 2 ^ 32 * limbValue xs

/-- The inner loop of `operator*=`, over the limbs from the `j`-th on. -/
def mulRow (a : UInt32) : (pn b : List UInt32) → (carry : UInt64) → List UInt32
  | p :: pn, b :: bs, carry =>
    let n := carry + p.toUInt64 + a.toUInt64 * b.toUInt64
    n.toUInt32 :: mulRow a pn bs (n >>> 32)
  | pn, _, _ => pn

/-- The outer loop of `operator*=`: a row leaves its lowest limb as it is in the product. -/
def mulLimbs : (a pn b : List UInt32) → List UInt32
  | a :: as, pn, b =>
    match mulRow a pn b 0 with
    | [] => []
    | p :: pn => p :: mulLimbs as pn b
  | [], pn, _ => pn

/-- `operator*=`. -/
def mulAssign (a b : UInt256) : UInt256 :=
  BitVec.ofNat 256 (limbValue (mulLimbs (limbs 8 a.toNat) (limbs 8 0) (limbs 8 b.toNat)))

variable {a : UInt32} {as pn b : List UInt32} {carry : UInt64} {w v : Nat}

theorem length_limbs : (limbs w v).length = w := by
  induction w generalizing v with
  | zero => rfl
  | succ w ih => rw [limbs, List.length_cons, ih]

theorem limbValue_limbs : limbValue (limbs w v) = v % 2 ^ (32 * w) := by
  induction w generalizing v with
  | zero => simp [limbs, limbValue, Nat.mod_one]
  | succ w ih =>
    rw [limbs, limbValue, ih, UInt32.toNat_ofNat', Nat.mul_succ, pow_add, mul_comm (2 ^ (32 * w)),
      Nat.mod_mul]

theorem length_mulRow : (mulRow a pn b carry).length = pn.length := by
  induction pn generalizing b carry with
  | nil => cases b <;> rfl
  | cons p pn ih =>
    cases b with
    | nil => rfl
    | cons b bs => rw [mulRow, List.length_cons, ih, List.length_cons]

/-- The carry and the two limbs fill 64 bits at most. -/
theorem toNat_step {p b : UInt32} (hc : carry.toNat < 2 ^ 32) :
    (carry + p.toUInt64 + a.toUInt64 * b.toUInt64).toNat =
      carry.toNat + p.toNat + a.toNat * b.toNat := by
  have hp := p.toNat_lt
  have hpr : a.toNat * b.toNat ≤ (2 ^ 32 - 1) * (2 ^ 32 - 1) :=
    Nat.mul_le_mul (Nat.le_pred_of_lt a.toNat_lt) (Nat.le_pred_of_lt b.toNat_lt)
  simp only [UInt64.toNat_add, UInt64.toNat_mul, UInt32.toNat_toUInt64]
  omega

theorem mulRow_spec (hl : pn.length ≤ b.length) (hc : carry.toNat < 2 ^ 32) :
    limbValue (mulRow a pn b carry) ≡ limbValue pn + a.toNat * limbValue b + carry.toNat
      [MOD 2 ^ (32 * pn.length)] := by
  induction pn generalizing b carry with
  | nil => simp [Nat.modEq_one]
  | cons p pn ih =>
    cases b with
    | nil => simp at hl
    | cons b bs =>
      have hstep := toNat_step (a := a) (p := p) (b := b) hc
      generalize hn : carry + p.toUInt64 + a.toUInt64 * b.toUInt64 = n at hstep
      have hn64 := n.toNat_lt
      have hnext : (n >>> 32).toNat = n.toNat / 2 ^ 32 := by simp [Nat.shiftRight_eq_div_pow]
      have hlo : n.toUInt32.toNat = n.toNat % 2 ^ 32 := by simp
      have hr := (@ih bs (n >>> 32) (by simpa using hl) (by omega)).mul_left' (2 ^ 32)
      rw [mulRow]
      simp only [hn, limbValue, List.length_cons, Nat.mul_succ, pow_add]
      rw [mul_comm (2 ^ (32 * pn.length))]
      refine (hr.add_left _).trans (congrArg (· % _) ?_)
      rw [hnext, hlo]
      linarith [Nat.mod_add_div n.toNat (2 ^ 32)]

theorem mulLimbs_spec (hle : pn.length ≤ b.length) :
    limbValue (mulLimbs as pn b) ≡ limbValue pn + limbValue as * limbValue b
      [MOD 2 ^ (32 * pn.length)] := by
  induction as generalizing pn with
  | nil => simp [mulLimbs, limbValue, Nat.ModEq.refl]
  | cons a as ih =>
    have hro := @mulRow_spec a pn b 0 hle (by decide)
    have hl := @length_mulRow a pn b 0
    rw [mulLimbs]
    cases hc : mulRow a pn b 0 with
    | nil =>
      rw [hc] at hl
      simp [← hl, Nat.modEq_one]
    | cons p rest =>
      rw [hc] at hro hl
      rw [List.length_cons] at hl
      have hr := (@ih rest (by omega)).mul_left' (2 ^ 32)
      rw [← pow_add, show 32 + 32 * rest.length = 32 * pn.length by omega] at hr
      refine (hr.add_left p.toNat).trans ?_
      have hsu := hro.add_right (2 ^ 32 * (limbValue as * limbValue b))
      simp only [limbValue, UInt64.toNat_zero] at hsu ⊢
      rw [mul_add, ← add_assoc, add_mul, mul_assoc, ← add_assoc]
      exact hsu

theorem mulAssign_eq (a b : UInt256) : mulAssign a b = a * b := by
  refine BitVec.eq_of_toNat_eq ?_
  have hsp := @mulLimbs_spec (limbs 8 a.toNat) (limbs 8 0) (limbs 8 b.toNat)
    (by rw [length_limbs, length_limbs])
  simp only [limbValue_limbs, length_limbs, Nat.mod_eq_of_lt a.isLt, Nat.mod_eq_of_lt b.isLt] at hsp
  rw [Nat.zero_mod, zero_add] at hsp
  rw [BitVec.toNat_mul]
  exact hsp

end Limbs

section Division

/-- The inner loop of `bits`: the highest bit of a limb that is not zero, counted from one. -/
def limbBits (x : Nat) : (nbits : Nat) → Nat
  | 0 => 1
  | nbits + 1 => if x.testBit (nbits + 1) then nbits + 2 else limbBits x nbits

/-- The loop of `bits` from the limb below `pos` down. -/
def bitsFrom (a : Nat) : (pos : Nat) → Nat
  | 0 => 0
  | pos + 1 =>
    let x := a / 2 ^ (32 * pos) % 2 ^ 32
    if x ≠ 0 then 32 * pos + limbBits x 31 else bitsFrom a pos

/-- The loop of `operator/=` with `shift + 1` passes left. -/
def divLoop : (passes : Nat) → (num div quot : UInt256) → UInt256
  | 0, _, _, quot => quot
  | shift + 1, num, div, quot =>
    if num ≥ div then divLoop shift (num - div) (div >>> 1) (quot ||| (1 : UInt256) <<< shift)
    else divLoop shift num (div >>> 1) quot

/-- `operator/=`; `none` is the error of a division by zero. -/
def divAssign (a b : UInt256) : Option UInt256 :=
  let num_bits := bitsFrom a.toNat 8
  let div_bits := bitsFrom b.toNat 8
  if div_bits = 0 then none
  else if div_bits > num_bits then some 0
  else
    let shift := num_bits - div_bits
    some (divLoop (shift + 1) a (b <<< shift) 0)

theorem limbBits_eq {x n : Nat} (hne : x ≠ 0) (hlt : x < 2 ^ (n + 1)) : limbBits x n = x.log2 + 1 := by
  induction n with
  | zero =>
    obtain rfl : x = 1 := by omega
    rfl
  | succ n ih =>
    rw [limbBits]
    split
    next hb =>
      have hle : n + 1 ≤ x.log2 := (Nat.le_log2 hne).2 (Nat.ge_two_pow_of_testBit hb)
      have hup := (Nat.log2_lt hne).2 hlt
      omega
    next hb =>
      refine ih (Nat.lt_of_not_le fun hle => hb ?_)
      exact Nat.testBit_of_two_pow_le_and_two_pow_add_one_gt hle hlt

theorem bitsFrom_eq {a pos : Nat} (h : a < 2 ^ (32 * pos)) :
    bitsFrom a pos = if a = 0 then 0 else a.log2 + 1 := by
  induction pos with
  | zero =>
    rw [bitsFrom, if_pos (by simpa using h)]
  | succ pos ih =>
    have hp := Nat.two_pow_pos (32 * pos)
    rw [Nat.mul_succ, pow_add] at h
    have hl : a / 2 ^ (32 * pos) < 2 ^ 32 := Nat.div_lt_of_lt_mul h
    rw [bitsFrom, Nat.mod_eq_of_lt hl]
    split
    next hne =>
      have hle : 2 ^ (32 * pos) ≤ a := by
        by_contra hlt
        exact hne (Nat.div_eq_of_lt (by omega))
      rw [limbBits_eq hne hl, if_neg (by omega), ← add_assoc]
      congr 1
      refine ((Nat.log2_eq_iff (by omega)).2 ⟨?_, ?_⟩).symm
      · rw [pow_add, mul_comm]
        exact (Nat.le_div_iff_mul_le hp).1 (Nat.log2_self_le hne)
      · rw [add_assoc, pow_add, mul_comm]
        exact (Nat.div_lt_iff_lt_mul hp).1 Nat.lt_log2_self
    next hz =>
      refine ih (Nat.lt_of_not_le fun hle => hz ?_)
      exact (Nat.div_pos hle hp).ne'

variable {num div quot b : UInt256} {n : Nat}

/-- With the divisor aligned, the bits still to set are those of the quotient of what is left. -/
theorem divLoop_spec (hb : b.toNat ≠ 0) (hn : n ≤ 256) (hd : div.toNat = b.toNat * 2 ^ n / 2)
    (hnu : num.toNat < b.toNat * 2 ^ n) (hq : quot.toNat % 2 ^ n = 0) :
    (divLoop n num div quot).toNat = quot.toNat + num.toNat / b.toNat := by
  induction n generalizing num div quot with
  | zero => rw [divLoop, Nat.div_eq_of_lt (by simpa using hnu), add_zero]
  | succ n ih =>
    rw [pow_succ, ← mul_assoc] at hd hnu
    rw [Nat.mul_div_cancel _ (by decide)] at hd
    have hsh : (div >>> 1).toNat = b.toNat * 2 ^ n / 2 := by
      rw [BitVec.toNat_ushiftRight, Nat.shiftRight_eq_div_pow, hd, pow_one]
    have hm : quot.toNat % 2 ^ n = 0 :=
      Nat.mod_eq_zero_of_dvd ((pow_dvd_pow 2 n.le_succ).trans (Nat.dvd_of_mod_eq_zero hq))
    rw [divLoop]
    split
    next hge =>
      have hge : div.toNat ≤ num.toNat := hge
      have hsu : (num - div).toNat = num.toNat - div.toNat := BitVec.toNat_sub_of_le hge
      have hse : (quot ||| (1 : UInt256) <<< n).toNat = quot.toNat + 2 ^ n := by
        obtain ⟨k, hk⟩ := Nat.dvd_of_mod_eq_zero hq
        have hbi : (1 <<< n % 2 ^ 256 : Nat) = 2 ^ n := by
          rw [Nat.one_shiftLeft, Nat.mod_eq_of_lt (Nat.pow_lt_pow_right (by decide) hn)]
        rw [BitVec.toNat_or, BitVec.toNat_shiftLeft, show (1 : UInt256).toNat = 1 from rfl, hbi, hk,
          ← Nat.two_pow_add_eq_or_of_lt (Nat.pow_lt_pow_right (by decide) n.lt_succ_self)]
      rw [ih (by omega) hsh (by omega) (by rw [hse, Nat.add_mod_right, hm]), hse, hsu, hd]
      have hsum : num.toNat = num.toNat - b.toNat * 2 ^ n + b.toNat * 2 ^ n := by omega
      conv_rhs => rw [hsum, Nat.add_mul_div_left _ _ (Nat.pos_of_ne_zero hb)]
      omega
    next hlt =>
      have hlt : ¬div.toNat ≤ num.toNat := hlt
      exact ih (by omega) hsh (by omega) hm

theorem divAssign_eq (a b : UInt256) : divAssign a b = if b = 0 then none else some (a / b) := by
  have hbi : ∀ x : UInt256, bitsFrom x.toNat 8 = bits x := fun x => bitsFrom_eq x.isLt
  have hm : bits a ≤ 256 := bits_le_iff.2 a.isLt
  have ha : a.toNat < 2 ^ bits a := bits_le_iff.1 le_rfl
  have hb : b.toNat < 2 ^ bits b := bits_le_iff.1 le_rfl
  unfold divAssign
  simp only [hbi]
  by_cases hz : b = 0
  · subst hz
    rfl
  · have hne : b.toNat ≠ 0 := fun h => hz (BitVec.eq_of_toNat_eq h)
    have hp : 0 < bits b := lt_bits_iff.2 (by omega)
    have hlo : 2 ^ (bits b - 1) ≤ b.toNat := lt_bits_iff.1 (by omega)
    rw [if_neg hp.ne', if_neg hz]
    split
    next hsh =>
      congr 1
      refine BitVec.eq_of_toNat_eq ?_
      have hle : 2 ^ bits a ≤ 2 ^ (bits b - 1) := Nat.pow_le_pow_right (by decide) (by omega)
      rw [BitVec.toNat_udiv, Nat.div_eq_of_lt (by omega)]
      rfl
    next hl =>
      congr 1
      refine BitVec.eq_of_toNat_eq ?_
      have hf : b.toNat * 2 ^ (bits a - bits b) < 2 ^ 256 := by
        refine (Nat.mul_lt_mul_of_pos_right hb (Nat.two_pow_pos _)).trans_le ?_
        rw [← pow_add]
        exact Nat.pow_le_pow_right (by decide) (by omega)
      have hal : a.toNat < b.toNat * 2 ^ (bits a - bits b + 1) := by
        refine ha.trans_le (le_trans ?_ (Nat.mul_le_mul_right _ hlo))
        rw [← pow_add]
        exact Nat.pow_le_pow_right (by decide) (by omega)
      have hd : (b <<< (bits a - bits b)).toNat = b.toNat * 2 ^ (bits a - bits b + 1) / 2 := by
        rw [BitVec.toNat_shiftLeft, Nat.shiftLeft_eq, Nat.mod_eq_of_lt hf, pow_succ, ← mul_assoc,
          Nat.mul_div_cancel _ (by decide)]
      rw [divLoop_spec hne (by omega) hd hal (Nat.zero_mod _), BitVec.toNat_udiv]
      exact Nat.zero_add _

end Division

/-- Products are exact modulo `2 ^ 256` and quotients are exact. -/
theorem mulAssign_divAssign_exact (a b : UInt256) :
    (mulAssign a b).toNat = a.toNat * b.toNat % 2 ^ 256 ∧
      (b ≠ 0 → ∃ q, divAssign a b = some q ∧ q.toNat = a.toNat / b.toNat) := by
  rw [mulAssign_eq, divAssign_eq]
  refine ⟨BitVec.toNat_mul a b, fun hne => ⟨a / b, if_neg hne, BitVec.toNat_udiv⟩⟩

/-- `GetBlockProof`; `none` is a division by zero. -/
def getBlockProof (nBits : UInt32) : Option UInt256 :=
  let bnTarget := setCompact nBits
  if bnTarget.fNegative || bnTarget.fOverflow || bnTarget.target = 0 then some 0
  else (divAssign (~~~bnTarget.target) (bnTarget.target + 1)).map (· + 1)

theorem target_setCompact_lt (nBits : UInt32) : (setCompact nBits).target.toNat + 1 < 2 ^ 256 := by
  simp only [setCompact, BitVec.toNat_ofNat]
  by_cases hs : nBits.toNat / 2 ^ 24 ≤ 3
  · rw [if_pos hs, if_pos hs]
    refine (Nat.succ_le_succ ((Nat.mod_le _ _).trans (Nat.div_le_self _ _))).trans_lt ?_
    omega
  · -- the lowest bit of the shifted mantissa is clear
    have hp := mul_pow_sub_one (show 8 * (nBits.toNat / 2 ^ 24 - 3) ≠ 0 by omega) 2
    rw [if_neg hs, if_neg hs, ← hp, mul_left_comm]
    omega

/-- The work of a block is `2 ^ 256 / (target + 1)`. -/
theorem getBlockProof_exact (nBits : UInt32) : ∃ work, getBlockProof nBits = some work ∧
    work.toNat = let bnTarget := setCompact nBits
      if bnTarget.fNegative || bnTarget.fOverflow || bnTarget.target = 0 then 0
      else 2 ^ 256 / (bnTarget.target.toNat + 1) := by
  have hlt := target_setCompact_lt nBits
  unfold getBlockProof
  dsimp only
  generalize (setCompact nBits).target = t at hlt
  split
  · exact ⟨0, rfl, rfl⟩
  next hv =>
    have ht : t.toNat ≠ 0 := fun h0 => hv (by simp [← BitVec.toNat_inj, h0])
    have h1 : (t + 1).toNat = t.toNat + 1 := (BitVec.toNat_add t 1).trans (Nat.mod_eq_of_lt hlt)
    have hb : t + 1 ≠ 0 := fun h0 => by cases h1.symm.trans (congrArg BitVec.toNat h0)
    refine ⟨_, by rw [divAssign_eq, if_neg hb]; rfl, ?_⟩
    have hq := Nat.div_eq_sub_div t.toNat.succ_pos hlt.le
    have hl := Nat.div_lt_self (Nat.two_pow_pos 256) (by omega : 1 < t.toNat + 1)
    rw [BitVec.toNat_add, BitVec.toNat_udiv, BitVec.toNat_not, h1, Nat.sub_sub, Nat.add_comm 1]
    exact (Nat.mod_eq_of_lt (hq ▸ hl)).trans hq.symm

end Cmusic
