import Cmusic.HeaderAdmission

/-! The retarget of the main network against exact arithmetic. -/
namespace Cmusic

section Compact

variable {a b : UInt256} {n m : Nat}

/-- The bytes that a number other than zero takes. -/
def byteSize (a : UInt256) : Nat := (bits a + 7) / 8

theorem bits_le_iff : bits a ≤ n ↔ a.toNat < 2 ^ n := by
  unfold bits
  split
  next hz => simp [hz]
  next hne =>
    rw [← Nat.log2_lt hne]
    omega

theorem lt_bits_iff : n < bits a ↔ 2 ^ n ≤ a.toNat := by
  rw [← not_le, bits_le_iff, not_lt]

/-- Either shift of `GetCompact` counts the number in units of its size. -/
theorem mantissa_eq : (if n ≤ 3 then m * 2 ^ (8 * (3 - n)) else m / 2 ^ (8 * (n - 3))) =
    m * 2 ^ 24 / 2 ^ (8 * n) := by
  split
  next hle =>
    rw [show 24 = 8 * (3 - n) + 8 * n by omega, pow_add, ← mul_assoc,
      Nat.mul_div_cancel _ (Nat.two_pow_pos _)]
  next hlt =>
    rw [show 8 * n = 8 * (n - 3) + 24 by omega, pow_add, Nat.mul_div_mul_right _ _ (Nat.two_pow_pos _)]

theorem mantissa_lt_iff {k : Nat} (h : 24 ≤ k + 8 * n) :
    a.toNat * 2 ^ 24 / 2 ^ (8 * n) < 2 ^ k ↔ bits a + 24 ≤ k + 8 * n := by
  obtain ⟨j, hj⟩ := Nat.exists_eq_add_of_le' h
  rw [Nat.div_lt_iff_lt_mul (Nat.two_pow_pos _), ← pow_add, hj, pow_add,
    Nat.mul_lt_mul_right (by decide), ← bits_le_iff]
  omega

/-- The size that leaves the sign bit clear is one more than the number of whole bytes. -/
theorem getCompact_eq (hne : a.toNat ≠ 0) :
    getCompact a = UInt32.ofNat (a.toNat * 2 ^ 24 / 2 ^ (8 * (bits a / 8 + 1)) +
      (bits a / 8 + 1) * 2 ^ 24) := by
  have hp : 0 < bits a := lt_bits_iff.2 (by omega)
  have hsiz : byteSize a = (bits a + 7) / 8 := rfl
  obtain ⟨m, hm⟩ : ∃ m, m = a.toNat * 2 ^ 24 / 2 ^ (8 * byteSize a) := ⟨_, rfl⟩
  have hc : getCompact a = if m / 2 ^ 23 % 2 = 1 then
      UInt32.ofNat (m / 2 ^ 8 + (byteSize a + 1) * 2 ^ 24) else UInt32.ofNat (m + byteSize a * 2 ^ 24) := by
    rw [hm, ← mantissa_eq]
    rfl
  have ht := (mantissa_lt_iff (a := a) (n := byteSize a) (k := 24) (by omega)).2 (by omega)
  have hsi := mantissa_lt_iff (a := a) (n := byteSize a) (k := 23) (by omega)
  rw [← hm] at ht hsi
  rw [hc]
  by_cases hcl : bits a < 8 * byteSize a
  · rw [if_neg (by omega), hm, show bits a / 8 + 1 = byteSize a by omega]
  · rw [if_pos (by omega), hm, Nat.div_div_eq_div_mul, ← pow_add,
      show bits a / 8 + 1 = byteSize a + 1 by omega]
    rfl

/-- Decoding a mantissa that leaves the sign bit clear. -/
theorem setCompact_ofNat (hm : m < 2 ^ 23) (hn : n ≤ 32 ∨ n = 33 ∧ m < 2 ^ 16) :
    setCompact (UInt32.ofNat (m + n * 2 ^ 24)) =
      { target := BitVec.ofNat 256 (if n ≤ 3 then m / 2 ^ (8 * (3 - n)) else m * 2 ^ (8 * (n - 3)))
        fNegative := false
        fOverflow := false } := by
  have hna : (UInt32.ofNat (m + n * 2 ^ 24)).toNat = m + n * 2 ^ 24 := by
    rw [UInt32.toNat_ofNat']
    omega
  have hsi : (m + n * 2 ^ 24) / 2 ^ 24 = n := by omega
  have hw : (m + n * 2 ^ 24) % 2 ^ 23 = m := by omega
  have hsig : (m + n * 2 ^ 24) / 2 ^ 23 % 2 = 0 := by omega
  have hl : ¬n > 34 ∧ ¬n > 33 := by omega
  unfold setCompact
  rw [hna, hsi, hw, hsig]
  by_cases hle : n ≤ 3
  · simp [hle, hl, show ¬n > 32 by omega]
  · simp [hle, hl]
    omega

/-- The bits below the bytes that the mantissa keeps. -/
def lowBits (a : UInt256) : Nat := 8 * (bits a / 8 - 2)

/-- Encoding a target clears the bits below its mantissa. -/
theorem setCompact_getCompact (a : UInt256) : setCompact (getCompact a) =
    { target := BitVec.ofNat 256 (a.toNat / 2 ^ lowBits a * 2 ^ lowBits a)
      fNegative := false
      fOverflow := false } := by
  by_cases hne : a.toNat = 0
  · obtain rfl : a = 0 := BitVec.eq_of_toNat_eq hne
    rfl
  · have hma : bits a ≤ 256 := bits_le_iff.2 a.isLt
    have hm := (mantissa_lt_iff (a := a) (n := bits a / 8 + 1) (k := 23) (by omega)).2 (by omega)
    have ht := mantissa_lt_iff (a := a) (n := bits a / 8 + 1) (k := 16)
    rw [getCompact_eq hne, setCompact_ofNat hm (by omega), lowBits]
    split
    next hle =>
      rw [Nat.div_div_eq_div_mul, ← pow_add,
        show 8 * (bits a / 8 + 1) + 8 * (3 - (bits a / 8 + 1)) = 24 by omega,
        Nat.mul_div_cancel _ (by decide), show 8 * (bits a / 8 - 2) = 0 by omega]
      simp
    next hlt =>
      rw [← mantissa_eq, if_neg hlt]
      rfl

/-- The target that the compact form of a number stands for. -/
def decoded (a : UInt256) : UInt256 := (setCompact (getCompact a)).target

theorem toNat_decoded (a : UInt256) : (decoded a).toNat = a.toNat / 2 ^ lowBits a * 2 ^ lowBits a := by
  rw [decoded, setCompact_getCompact]
  exact Nat.mod_eq_of_lt ((Nat.div_mul_le_self _ _).trans_lt a.isLt)

theorem decoded_le (a : UInt256) : (decoded a).toNat ≤ a.toNat := by
  rw [toNat_decoded]
  exact Nat.div_mul_le_self _ _

/-- The highest bit is kept. -/
theorem le_decoded (hne : a.toNat ≠ 0) : 2 ^ (bits a - 1) ≤ (decoded a).toNat := by
  have hp : 0 < bits a := lt_bits_iff.2 (by omega)
  have hle : 2 ^ (bits a - 1) ≤ a.toNat := lt_bits_iff.1 (by omega)
  obtain ⟨k, hk⟩ := Nat.exists_eq_add_of_le' (show lowBits a ≤ bits a - 1 by rw [lowBits]; omega)
  rw [hk, pow_add] at hle ⊢
  rw [toNat_decoded]
  exact Nat.mul_le_mul_right _ ((Nat.le_div_iff_mul_le (Nat.two_pow_pos _)).2 hle)

theorem bits_decoded (hne : a.toNat ≠ 0) : bits (decoded a) = bits a := by
  have hle : bits (decoded a) ≤ bits a :=
    bits_le_iff.2 ((decoded_le a).trans_lt (bits_le_iff.1 le_rfl))
  have hlt := lt_bits_iff.2 (le_decoded hne)
  omega

theorem decoded_div (a : UInt256) : (decoded a).toNat / 2 ^ lowBits a = a.toNat / 2 ^ lowBits a := by
  rw [toNat_decoded, Nat.mul_div_cancel _ (Nat.two_pow_pos _)]

theorem getCompact_decoded (a : UInt256) : getCompact (decoded a) = getCompact a := by
  by_cases hne : a.toNat = 0
  · obtain rfl : a = 0 := BitVec.eq_of_toNat_eq hne
    rfl
  · have hke := le_decoded hne
    have hp := Nat.two_pow_pos (bits a - 1)
    rw [getCompact_eq (by omega), getCompact_eq hne, bits_decoded hne, ← mantissa_eq, ← mantissa_eq]
    split
    next hle => simp [toNat_decoded, show lowBits a = 0 by rw [lowBits]; omega]
    next hlt =>
      have hu := decoded_div a
      rw [lowBits] at hu
      rw [show bits a / 8 + 1 - 3 = bits a / 8 - 2 by omega, hu]

theorem decoded_mono (h : a.toNat ≤ b.toNat) : (decoded a).toNat ≤ (decoded b).toNat := by
  have hb : bits a ≤ bits b := bits_le_iff.2 (h.trans_lt (bits_le_iff.1 le_rfl))
  obtain heq | hlt := hb.eq_or_lt
  · rw [toNat_decoded, toNat_decoded, lowBits, lowBits, heq]
    exact Nat.mul_le_mul_right _ (Nat.div_le_div_right h)
  · have hne : b.toNat ≠ 0 := fun hz => by simp [bits, hz] at hlt
    calc (decoded a).toNat ≤ a.toNat := decoded_le a
      _ ≤ 2 ^ (bits b - 1) := (bits_le_iff.1 (by omega)).le
      _ ≤ (decoded b).toNat := le_decoded hne

theorem le_of_lowBits (h : lowBits a ≠ 0) : 2 ^ 15 * 2 ^ lowBits a ≤ a.toNat := by
  rw [← pow_add]
  exact lt_bits_iff.1 (by rw [lowBits] at h ⊢; omega)

/-- The decoded target keeps the bytes that fit the mantissa and no more, is encoded the same way,
and keeps the order of targets. -/
theorem decoded_spec (a : UInt256) : let c := setCompact (getCompact a)
    c.target.toNat ≤ a.toNat ∧ a.toNat / 2 ^ lowBits a < 2 ^ 23 ∧
      (lowBits a = 0 ∨ 2 ^ 23 ≤ a.toNat / 2 ^ (lowBits a - 8)) ∧
      c.target.toNat / 2 ^ lowBits a = a.toNat / 2 ^ lowBits a ∧ 2 ^ lowBits a ∣ c.target.toNat ∧
      c.fNegative = false ∧ c.fOverflow = false ∧ getCompact c.target = getCompact a ∧
      ∀ b, a ≤ b → c.target ≤ (setCompact (getCompact b)).target := by
  refine ⟨decoded_le a, ?_, ?_, decoded_div a, toNat_decoded a ▸ Nat.dvd_mul_left _ _, ?_, ?_,
    getCompact_decoded a, fun b h => decoded_mono h⟩
  · refine Nat.div_lt_of_lt_mul ?_
    rw [← pow_add]
    exact bits_le_iff.1 (by rw [lowBits]; omega)
  · refine or_iff_not_imp_left.2 fun hl => ?_
    have hle := le_of_lowBits hl
    rw [Nat.le_div_iff_mul_le (Nat.two_pow_pos _), ← pow_add]
    rwa [← pow_add, show 15 + lowBits a = 23 + (lowBits a - 8) by rw [lowBits] at hl ⊢; omega] at hle
  · rw [setCompact_getCompact]
  · rw [setCompact_getCompact]

/-- A compact number stands for the number it was made of, but for the low bits. -/
structure Encodes (c : CompactTarget) (v : Nat) : Prop where
  nonneg : c.fNegative = false
  fits : c.fOverflow = false
  le : c.target.toNat ≤ v
  near : (v - c.target.toNat) * 2 ^ 15 ≤ v

theorem encodes_getCompact (a : UInt256) : Encodes (setCompact (getCompact a)) a.toNat := by
  refine ⟨by rw [setCompact_getCompact], by rw [setCompact_getCompact], decoded_le a, ?_⟩
  change (a.toNat - (decoded a).toNat) * _ ≤ _
  rw [toNat_decoded]
  by_cases hl : lowBits a = 0
  · simp [hl]
  · have hle := le_of_lowBits hl
    have hlt := Nat.lt_div_mul_add (Nat.two_pow_pos (lowBits a)) (a := a.toNat)
    omega

end Compact

section Average

variable {avg t : UInt256} {n low : Nat}

/-- The weighted average of the targets of the past blocks over unbounded integers. -/
def exactTargetAvg : List BlockRec → Nat
  | [] => 0
  | first :: rest =>
    (rest.zipIdx 2).foldl (fun avg (r, nCountBlocks) =>
      (avg * nCountBlocks + (setCompact r.header.nBits).target.toNat) / (nCountBlocks + 1))
      (setCompact first.header.nBits).target.toNat

/-- The products of the average stay within 256 bits. -/
theorem toNat_average (hn : n ≤ 10) (ha : avg.toNat < 2 ^ 248) (ht : t.toNat < 2 ^ 248) :
    ((avg * BitVec.ofNat 256 n + t) / BitVec.ofNat 256 (n + 1)).toNat =
      (avg.toNat * n + t.toNat) / (n + 1) := by
  have hp : avg.toNat * n ≤ 2 ^ 248 * 10 := Nat.mul_le_mul (Nat.le_of_lt ha) hn
  rw [BitVec.toNat_udiv, BitVec.toNat_add, BitVec.toNat_mul, BitVec.toNat_ofNat, BitVec.toNat_ofNat]
  have hsm : n % 2 ^ 256 = n := Nat.mod_eq_of_lt (by omega)
  have hnext : (n + 1) % 2 ^ 256 = n + 1 := Nat.mod_eq_of_lt (by omega)
  rw [hsm, hnext, Nat.mod_eq_of_lt (by omega), Nat.mod_eq_of_lt (by omega)]

theorem average_bounds {a t n low : Nat} (ha : low ≤ a ∧ a < 2 ^ 248) (ht : low ≤ t ∧ t < 2 ^ 248) :
    low ≤ (a * n + t) / (n + 1) ∧ (a * n + t) / (n + 1) < 2 ^ 248 := by
  have hl : low * n ≤ a * n := Nat.mul_le_mul_right n ha.1
  have hh : a * n ≤ (2 ^ 248 - 1) * n := Nat.mul_le_mul_right n (by omega)
  constructor
  · refine (Nat.le_div_iff_mul_le (Nat.succ_pos n)).2 ?_
    rw [Nat.mul_succ]
    omega
  · refine (Nat.div_lt_iff_lt_mul (Nat.succ_pos n)).2 ?_
    omega

theorem toNat_averages {rest : List BlockRec}
    (hre : ∀ r ∈ rest, low ≤ (setCompact r.header.nBits).target.toNat ∧
      (setCompact r.header.nBits).target.toNat < 2 ^ 248)
    (hn : n + rest.length ≤ 11) (ha : low ≤ avg.toNat ∧ avg.toNat < 2 ^ 248) :
    ((rest.zipIdx n).foldl (fun avg (r, nCountBlocks) =>
        (avg * BitVec.ofNat 256 nCountBlocks + (setCompact r.header.nBits).target) /
          BitVec.ofNat 256 (nCountBlocks + 1)) avg).toNat =
      (rest.zipIdx n).foldl (fun avg (r, nCountBlocks) =>
        (avg * nCountBlocks + (setCompact r.header.nBits).target.toNat) / (nCountBlocks + 1)) avg.toNat ∧
    low ≤ (rest.zipIdx n).foldl (fun avg (r, nCountBlocks) =>
        (avg * nCountBlocks + (setCompact r.header.nBits).target.toNat) / (nCountBlocks + 1)) avg.toNat ∧
    (rest.zipIdx n).foldl (fun avg (r, nCountBlocks) =>
        (avg * nCountBlocks + (setCompact r.header.nBits).target.toNat) / (nCountBlocks + 1)) avg.toNat <
      2 ^ 248 := by
  induction rest generalizing n avg with
  | nil => exact ⟨rfl, ha⟩
  | cons r rest ih =>
    have hr := hre r List.mem_cons_self
    rw [List.length_cons] at hn
    have hstep := toNat_average (n := n) (by omega) ha.2 hr.2
    have hb := average_bounds (n := n) ha hr
    rw [← hstep] at hb
    have hnext := ih (n := n + 1) (fun r hr => hre r (List.mem_cons_of_mem _ hr)) (by omega) hb
    rw [hstep] at hnext
    exact hnext

theorem toNat_pastTargetAvg {past : List BlockRec} (hl : past.length = 10)
    (hp : ∀ r ∈ past, low ≤ (setCompact r.header.nBits).target.toNat ∧
      (setCompact r.header.nBits).target.toNat < 2 ^ 248) :
    (pastTargetAvg past).toNat = exactTargetAvg past ∧ low ≤ exactTargetAvg past ∧
      exactTargetAvg past < 2 ^ 248 := by
  cases past with
  | nil => cases hl
  | cons first rest =>
    rw [List.length_cons] at hl
    exact toNat_averages (fun r hr => hp r (List.mem_cons_of_mem _ hr)) (by omega)
      (hp first List.mem_cons_self)

end Average

section Main

variable (hashes : PowHashes) (index : CBlockIndex) (block : CBlockHeader)

def pastBlocks : List BlockRec := index.chain.take nPastBlocks

/-- The time between the last block and the first of the past blocks, within a factor of three. -/
def exactTimespan : Nat :=
  (max 200 (min 1800 (index.getBlockTime -
    ((pastBlocks index).getLastD index.self).header.getBlockTime))).toNat

/-- The target of the retarget over unbounded integers. -/
def exactTarget : Nat :=
  min (2 ^ 248 - 1) (exactTargetAvg (pastBlocks index) * exactTimespan index / 600)

/-- The required work is the compact encoding of the exact target, and within the range that
`CheckProofOfWork` accepts. -/
def RetargetExact : Prop :=
  ∃ nBits, darkGravityWave (mainConsensus hashes) index block = some nBits ∧
    nBits = getCompact (BitVec.ofNat 256 (exactTarget index)) ∧
    checkProofOfWork (mainConsensus hashes) 0 nBits = true

/-- The rule for the first blocks of the new algorithm. -/
def kawpowTransition : Bool :=
  block.fKAWPOW (mainConsensus hashes) &&
    !(pastBlocks index).all fun r => r.header.nTime ≥ (mainConsensus hashes).nKAWPOWActivationTime

theorem exactTimespan_bounds : 200 ≤ exactTimespan index ∧ exactTimespan index ≤ 1800 := by
  unfold exactTimespan
  omega

theorem clampTimespan_eq : clampTimespan (index.getBlockTime -
    ((pastBlocks index).getLastD index.self).header.getBlockTime) 200 1800 = exactTimespan index := by
  unfold clampTimespan exactTimespan
  dsimp only
  split
  · split
    · omega
    · omega
  · split
    · omega
    · omega

variable {hashes index block}

theorem darkGravityWave_main (hh : 10 ≤ index.nHeight) (hlo : 11 ≤ index.chain.length)
    (hka : kawpowTransition hashes index block = false) :
    darkGravityWave (mainConsensus hashes) index block =
      some (getCompact (limitTarget (mainConsensus hashes)
        (scaleTarget (pastTargetAvg (pastBlocks index)) (exactTimespan index) 600))) := by
  have hl : (pastBlocks index).length = 10 := by
    rw [pastBlocks, List.length_take, nPastBlocks]
    omega
  have hp : (nPastBlocks : Int) = 10 := rfl
  have hr : ((mainConsensus hashes).fPowAllowMinDifficultyBlocks &&
      (mainConsensus hashes).fPowNoRetargeting) = false := rfl
  unfold darkGravityWave
  rw [if_neg (by rw [hp]; omega), hr, if_neg Bool.false_ne_true]
  change (if (pastBlocks index).length < nPastBlocks then none else
    if kawpowTransition hashes index block = true then _ else _) = _
  rw [if_neg (by rw [hl]; decide), hka, if_neg Bool.false_ne_true, ← clampTimespan_eq]
  rfl

theorem toNat_scaleTarget {target : UInt256} {timespan : Nat} (h : timespan ≤ 1800) :
    (scaleTarget target timespan 600).toNat = target.toNat * timespan % 2 ^ 256 / 600 := by
  have hsp : ((timespan : Int) % 2 ^ 32) = timespan := by omega
  unfold scaleTarget
  rw [hsp, BitVec.toNat_udiv, BitVec.toNat_mul]
  have hn : (BitVec.ofInt 256 (timespan : Int)).toNat = timespan := by
    rw [BitVec.ofInt_natCast, BitVec.toNat_ofNat]
    exact Nat.mod_eq_of_lt (by omega)
  rw [hn]
  rfl

theorem toNat_limitTarget {target : UInt256} :
    (limitTarget (mainConsensus hashes) target).toNat = min (2 ^ 248 - 1) target.toNat := by
  have hl : (mainConsensus hashes).powLimit.toNat = 2 ^ 248 - 1 := rfl
  unfold limitTarget
  split
  next h =>
    have hlt : (mainConsensus hashes).powLimit.toNat < target.toNat := h
    omega
  next h =>
    have hle : ¬(mainConsensus hashes).powLimit.toNat < target.toNat := h
    omega

/-- A compact target in range. -/
theorem checkProofOfWork_of_encodes {a : UInt256} (hp : 0 < a.toNat) (hle : a.toNat ≤ 2 ^ 248 - 1) :
    checkProofOfWork (mainConsensus hashes) 0 (getCompact a) = true := by
  have he := encodes_getCompact a
  have hn := he.near
  have hlo := he.le
  have hli : (mainConsensus hashes).powLimit.toNat = 2 ^ 248 - 1 := rfl
  have hz : (setCompact (getCompact a)).target ≠ 0 := by
    intro hz
    rw [hz] at hn
    change (a.toNat - 0) * 2 ^ 15 ≤ a.toNat at hn
    omega
  have hr : ¬(setCompact (getCompact a)).target > (mainConsensus hashes).powLimit := by
    intro hl
    have hlt : (mainConsensus hashes).powLimit.toNat < (setCompact (getCompact a)).target.toNat := hl
    omega
  simpa [checkProofOfWork, he.nonneg, he.fits, hr] using hz

/-- A product that wraps makes the target less than half of the exact one. -/
theorem wrapped_lt {P : Nat} (hl : 2 ^ 256 ≤ P) (hh : P ≤ (2 ^ 248 - 1) * 1800) :
    2 * (P % 2 ^ 256 / 600) ≤ min (2 ^ 248 - 1) (P / 600) + 1 ∧
      2 ^ 200 ≤ min (2 ^ 248 - 1) (P / 600) := by
  have hq := Nat.div_add_mod P (2 ^ 256)
  have hr := Nat.mod_lt P (Nat.two_pow_pos 256)
  rw [Nat.min_def]
  split <;> omega

/-- The retarget is exact as long as the product of the average and the time span fits 256 bits. -/
theorem retargetExact_iff (hheight : 10 ≤ index.nHeight) (hlong : 11 ≤ index.chain.length)
    (htargets : ∀ r ∈ index.chain, 2 ^ 64 ≤ (setCompact r.header.nBits).target.toNat ∧
      (setCompact r.header.nBits).target ≤ (mainConsensus hashes).powLimit)
    (hkawpow : kawpowTransition hashes index block = false) :
    RetargetExact hashes index block ↔
      exactTargetAvg (pastBlocks index) * exactTimespan index < 2 ^ 256 := by
  have hl : (pastBlocks index).length = 10 := by
    rw [pastBlocks, List.length_take, nPastBlocks]
    omega
  have hli : (mainConsensus hashes).powLimit.toNat = 2 ^ 248 - 1 := rfl
  have hp : ∀ r ∈ pastBlocks index, 2 ^ 64 ≤ (setCompact r.header.nBits).target.toNat ∧
      (setCompact r.header.nBits).target.toNat < 2 ^ 248 := by
    intro r hr
    obtain ⟨hmi, hm⟩ := htargets r (List.mem_of_mem_take hr)
    have hm : (setCompact r.header.nBits).target.toNat ≤ (mainConsensus hashes).powLimit.toNat := hm
    exact ⟨hmi, by omega⟩
  obtain ⟨ha, hlo, hh⟩ := toNat_pastTargetAvg hl hp
  obtain ⟨hsh, hsp⟩ := exactTimespan_bounds index
  have hc : (limitTarget (mainConsensus hashes) (scaleTarget (pastTargetAvg (pastBlocks index))
      (exactTimespan index) 600)).toNat = min (2 ^ 248 - 1)
        (exactTargetAvg (pastBlocks index) * exactTimespan index % 2 ^ 256 / 600) := by
    rw [toNat_limitTarget, toNat_scaleTarget hsp, ha]
  have he : (BitVec.ofNat 256 (exactTarget index)).toNat = exactTarget index := by
    refine Nat.mod_eq_of_lt (Nat.lt_of_le_of_lt (Nat.min_le_left _ _) ?_)
    decide
  have hpr : 2 ^ 64 * 200 ≤ exactTargetAvg (pastBlocks index) * exactTimespan index :=
    Nat.mul_le_mul hlo hsh
  have hm : exactTargetAvg (pastBlocks index) * exactTimespan index ≤ (2 ^ 248 - 1) * 1800 :=
    Nat.mul_le_mul (by omega) hsp
  unfold RetargetExact
  rw [darkGravityWave_main hheight hlong hkawpow]
  constructor
  · rintro ⟨nBits, hb, heq, -⟩
    by_contra hw
    obtain ⟨hha, hla⟩ := wrapped_lt (Nat.le_of_not_lt hw) hm
    -- both numbers have the compact form of the computed one, and they are too far apart for that
    have hf := (Option.some.inj hb).trans heq
    have hle := (encodes_getCompact (limitTarget (mainConsensus hashes)
      (scaleTarget (pastTargetAvg (pastBlocks index)) (exactTimespan index) 600))).le
    have hn := (encodes_getCompact (BitVec.ofNat 256 (exactTarget index))).near
    rw [hf, hc] at hle
    have hmi : exactTarget index = min (2 ^ 248 - 1)
        (exactTargetAvg (pastBlocks index) * exactTimespan index / 600) := rfl
    omega
  · intro hfi
    have ht : limitTarget (mainConsensus hashes) (scaleTarget (pastTargetAvg (pastBlocks index))
        (exactTimespan index) 600) = BitVec.ofNat 256 (exactTarget index) := by
      refine BitVec.eq_of_toNat_eq ?_
      rw [hc, he, Nat.mod_eq_of_lt hfi, exactTarget]
    refine ⟨_, rfl, by rw [ht], ?_⟩
    rw [ht]
    refine checkProofOfWork_of_encodes ?_ ?_
    · rw [he, exactTarget]
      omega
    · rw [he, exactTarget]
      omega

/-- Eleven blocks at the lowest difficulty, a number of seconds apart. -/
def easyChain (spacing : Nat) : CBlockIndex :=
  let block (n : Nat) : BlockRec :=
    ⟨{ mainGenesis with nTime := UInt32.ofNat (1710112797 + spacing * n), nBits := 0x2000ffff }, 0⟩
  ⟨block 10, (List.range 10).reverse.map block⟩

theorem retargetExact_iff_easyChain : RetargetExact sampleHashes (easyChain 20) mainGenesis ↔
      exactTargetAvg (pastBlocks (easyChain 20)) * exactTimespan (easyChain 20) < 2 ^ 256 :=
  retargetExact_iff (by decide +kernel) (by decide +kernel) (by decide +kernel) (by decide +kernel)

/-- With 200 seconds between the blocks the product wraps, and the difficulty jumps where it should
stay at its lowest. -/
theorem easyChain_not_retargetExact :
    darkGravityWave (mainConsensus sampleHashes) (easyChain 200) mainGenesis = some 0x1f0366d0 ∧
      getCompact (BitVec.ofNat 256 (exactTarget (easyChain 200))) = 0x2000ffff ∧
      ¬RetargetExact sampleHashes (easyChain 200) mainGenesis := by
  have hc : darkGravityWave (mainConsensus sampleHashes) (easyChain 200) mainGenesis =
      some 0x1f0366d0 := by decide +kernel
  have he : getCompact (BitVec.ofNat 256 (exactTarget (easyChain 200))) = 0x2000ffff := by
    decide +kernel
  refine ⟨hc, he, ?_⟩
  rintro ⟨nBits, hb, heq, -⟩
  rw [hc, heq] at hb
  exact absurd hb (by decide)

end Main

end Cmusic
