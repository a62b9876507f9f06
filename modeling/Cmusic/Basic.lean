import Mathlib.Tactic
import Mathlib.Data.BitVec
import Cmusic.Lib.Fallible
import Cmusic.Lib.Maps

/-! Byte strings, amounts, outpoints and transactions. -/
namespace Cmusic

abbrev Str := List UInt8

abbrev CScript := List UInt8

/-- The bytes of an ASCII literal. -/
def str (s : String) : Str := s.toList.map fun c => c.toNat.toUInt8

abbrev UInt256 := BitVec 256

/-- Amounts are 64-bit; addition and subtraction wrap. -/
abbrev CAmount := Int64

def coin : CAmount := 100000000

def maxMoney : CAmount := 175000000 * coin

def moneyRange (nValue : CAmount) : Bool := 0 ≤ nValue && nValue ≤ maxMoney

structure COutPoint where
  hash : UInt256
  n : UInt32
  deriving DecidableEq, Repr

namespace COutPoint

/-- Outpoints are ordered by hash, then by index. -/
instance : Ord COutPoint where
  compare a b := (compareLex (compareOn COutPoint.hash) (compareOn COutPoint.n)) a b

instance : Std.TransOrd COutPoint :=
  inferInstanceAs
    (Std.TransCmp (compareLex (compareOn COutPoint.hash) (compareOn COutPoint.n)))

instance : Std.LawfulEqOrd COutPoint where
  eq_of_compare {a b} h := by
    obtain ⟨hh, hn⟩ := Ordering.then_eq_eq.1
      (show (compare a.hash b.hash).then (compare a.n b.n) = .eq from h)
    cases a
    cases b
    simp only [COutPoint.mk.injEq]
    exact ⟨Std.LawfulEqOrd.eq_of_compare hh, Std.LawfulEqOrd.eq_of_compare hn⟩

/-- The null outpoint, the only input of a coinbase. -/
def isNull (o : COutPoint) : Bool := o.hash = 0 && o.n = 0xffffffff

end COutPoint

structure CTxIn where
  prevout : COutPoint
  scriptSig : CScript
  nSequence : UInt32
  deriving DecidableEq, Repr

structure CTxOut where
  nValue : CAmount
  scriptPubKey : CScript
  deriving DecidableEq

/-- `hash` is the transaction id, which the constructor of the source stores with the data. -/
structure CTransaction where
  hash : UInt256
  nVersion : Int32
  vin : List CTxIn
  vout : List CTxOut
  nLockTime : UInt32
  deriving DecidableEq

def CTransaction.isCoinBase (tx : CTransaction) : Bool :=
  match tx.vin with
  | [txin] => txin.prevout.isNull
  | _ => false

/-- What a failed check leaves in the validation state. -/
structure CValidationState where
  nDoS : Nat
  chRejectCode : UInt8
  strRejectReason : Str
  deriving DecidableEq, Repr

abbrev Checked := Except CValidationState

def rejectInvalid : UInt8 := 0x10

/-- `state.DoS(level, false, REJECT_INVALID, reason)` when `cond` holds. -/
def rejectIf (cond : Bool) (level : Nat) (reason : Str) : Checked Unit :=
  Fallible.failIf cond ⟨level, rejectInvalid, reason⟩

/-- Turns the error text of a check into a rejection. -/
def rejectWith {α : Type} (level : Nat) (check : Except Str α) : Checked α :=
  check.mapError fun reason => ⟨level, rejectInvalid, reason⟩

/-- Lexicographic order on pairs of strings, the order of the source's pair keys. -/
abbrev pairCmp : Str × Str → Str × Str → Ordering :=
  compareLex (compareOn Prod.fst) (compareOn Prod.snd)

instance : Std.LawfulEqCmp pairCmp where
  eq_of_compare {a b} h := by
    obtain ⟨h1, h2⟩ := Ordering.then_eq_eq.1
      (show (compare a.1 b.1).then (compare a.2 b.2) = .eq from h)
    exact Prod.ext (Std.LawfulEqOrd.eq_of_compare h1) (Std.LawfulEqOrd.eq_of_compare h2)

end Cmusic
