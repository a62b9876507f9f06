import Cmusic.Basic
import Cmusic.Lib.Reads

/-! Reading and writing the wire format: little-endian integers, compact sizes and strings. -/
namespace Cmusic

/-- A deserializer consumes the unread bytes of the stream; `none` stands for the exception. -/
abbrev Reader := StateT Str Option

def maxSize : Nat := 0x02000000

def littleEndian : Str → Nat
  | [] => 0
  | b :: bs => b.toNat + 256 * littleEndian bs

/-- The low `k` bytes of `n`, least significant first. -/
def writeLE : Nat → Nat → Str
  | 0, _ => []
  | k + 1, n => n.toUInt8 :: writeLE k (n / 256)

/-- The read of the source fails when fewer than `n` bytes are left. -/
def readBytes (n : Nat) : Reader Str := fun s =>
  if n ≤ s.length then some (s.take n, s.drop n) else none

def readLE (k : Nat) : Reader Nat := do
  return littleEndian (← readBytes k)

def readInt8 : Reader Int8 := do
  return (← readLE 1).toInt8

def readInt64 : Reader Int64 := do
  return (← readLE 8).toInt64

/-- A compact size must use its shortest form and stay within the size limit. -/
def readCompactSize : Reader Nat := do
  let chSize ← readLE 1
  let nSizeRet ←
    if chSize < 253 then pure chSize
    else if chSize = 253 then do
      let n ← readLE 2
      if n < 253 then failure else pure n
    else if chSize = 254 then do
      let n ← readLE 4
      if n < 0x10000 then failure else pure n
    else do
      let n ← readLE 8
      if n < 0x100000000 then failure else pure n
  if nSizeRet > maxSize then failure else pure nSizeRet

def readString : Reader Str := do
  readBytes (← readCompactSize)

def writeCompactSize (n : Nat) : Str :=
  if n < 253 then writeLE 1 n
  else if n ≤ 0xffff then 253 :: writeLE 2 n
  else if n ≤ 0xffffffff then 254 :: writeLE 4 n
  else 255 :: writeLE 8 n

def writeString (s : Str) : Str := writeCompactSize s.length ++ s

def writeInt8 (n : Int8) : Str := writeLE 1 n.toUInt8.toNat

def writeInt64 (n : Int64) : Str := writeLE 8 n.toUInt64.toNat

section Wire

variable {rest : Str}

theorem toNat_toUInt8 (n : Nat) : n.toUInt8.toNat = n % 256 := by
  simp [Nat.toUInt8]

theorem length_writeLE (k n : Nat) : (writeLE k n).length = k := by
  induction k generalizing n with
  | zero => rfl
  | succ k ih => rw [writeLE, List.length_cons, ih]

theorem littleEndian_writeLE (k n : Nat) : littleEndian (writeLE k n) = n % 256 ^ k := by
  induction k generalizing n with
  | zero => rw [Nat.pow_zero, Nat.mod_one]; rfl
  | succ k ih =>
    rw [writeLE, littleEndian, ih, toNat_toUInt8, Nat.pow_succ, Nat.mul_comm (256 ^ k), Nat.mod_mul]

theorem reads_readBytes (s : Str) : Reads (readBytes s.length) s rest s := by
  unfold Reads readBytes
  rw [if_pos (by simp)]
  simp

theorem reads_readLE {k n : Nat} (h : n < 256 ^ k) : Reads (readLE k) (writeLE k n) rest n := by
  have hb : Reads (readBytes k) (writeLE k n) rest (writeLE k n) := by
    have hl := @reads_readBytes rest (writeLE k n)
    rwa [length_writeLE] at hl
  have hr : Reads (readLE k) (writeLE k n) rest (littleEndian (writeLE k n)) := hb.bind_pure
  rwa [littleEndian_writeLE, Nat.mod_eq_of_lt h] at hr

theorem reads_readInt8 (n : Int8) : Reads readInt8 (writeInt8 n) rest n := by
  have hr : Reads readInt8 (writeInt8 n) rest n.toUInt8.toNat.toInt8 :=
    (reads_readLE n.toUInt8.toNat_lt).bind_pure
  have hsa : n.toUInt8.toNat.toInt8 = n := by
    apply Int8.toBitVec_inj.1
    simp [Nat.toInt8]
  rwa [hsa] at hr

theorem reads_readInt64 (n : Int64) : Reads readInt64 (writeInt64 n) rest n := by
  have hr : Reads readInt64 (writeInt64 n) rest n.toUInt64.toNat.toInt64 :=
    (reads_readLE n.toUInt64.toNat_lt).bind_pure
  have hsa : n.toUInt64.toNat.toInt64 = n := by
    apply Int64.toBitVec_inj.1
    simp [Nat.toInt64]
  rwa [hsa] at hr

theorem reads_readCompactSize {n : Nat} (h : n ≤ 0x2000000) :
    Reads readCompactSize (writeCompactSize n) rest n := by
  have hsi : ¬n > maxSize := Nat.not_lt.2 h
  have hli : Reads (if n > maxSize then failure else pure n : Reader Nat) [] rest n := by
    rw [if_neg hsi]
    exact Reads.pure n
  -- a marker byte and the size behind it
  have hl : ∀ (k : Nat) (marker : UInt8), n < 256 ^ k → ∀ least, ¬n < least →
      Reads (readLE 1) [marker] (writeLE k n ++ rest) marker.toNat ∧
        Reads (readLE k >>= fun n => if n < least
          then failure >>= fun n => if n > maxSize then failure else pure n
          else pure n >>= fun n => if n > maxSize then failure else pure n : Reader Nat)
          (writeLE k n) rest n := by
    intro k marker hn least hle
    have hm : writeLE 1 marker.toNat = [marker] := by
      rw [writeLE, writeLE, Nat.toUInt8, UInt8.ofNat_toNat]
    refine ⟨hm ▸ reads_readLE marker.toNat_lt, ?_⟩
    rw [← List.append_nil (writeLE k n)]
    refine (reads_readLE hn).bind ?_
    rw [if_neg hle, pure_bind]
    exact hli
  unfold writeCompactSize
  split
  next hsm =>
    rw [← List.append_nil (writeLE 1 n)]
    refine Reads.bind (reads_readLE (by omega)) ?_
    rw [if_pos hsm, pure_bind]
    exact hli
  · split
    · obtain ⟨hm, hr⟩ := hl 2 253 (by omega) 253 (by omega)
      exact hm.bind hr
    · rw [if_pos (by omega)]
      obtain ⟨hm, hr⟩ := hl 4 254 (by omega) 0x10000 (by omega)
      exact hm.bind hr

theorem reads_readString {s : Str} (h : s.length ≤ 0x2000000) :
    Reads readString (writeString s) rest s :=
  (reads_readCompactSize h).bind (reads_readBytes s)

/-- A string that was written ends where its length says. -/
theorem writeString_append_inj {s s' rest' : Str} (hs : s.length ≤ 0x2000000)
    (hs' : s'.length ≤ 0x2000000) (h : writeString s ++ rest = writeString s' ++ rest') :
    s = s' ∧ rest = rest' := by
  have hr : readString (writeString s ++ rest) = some (s, rest) := reads_readString hs
  have hr' : readString (writeString s' ++ rest') = some (s', rest') := reads_readString hs'
  rw [h, hr'] at hr
  cases hr
  exact ⟨rfl, rfl⟩

theorem length_writeCompactSize {n : Nat} (h : n < 253) : (writeCompactSize n).length = 1 := by
  rw [writeCompactSize, if_pos h, length_writeLE]

theorem length_writeString {s : Str} (h : s.length < 253) : (writeString s).length = s.length + 1 := by
  rw [writeString, List.length_append, length_writeCompactSize h]
  omega

end Wire

end Cmusic
