import Cmusic.AssetNames

/-! Script decoding, the shapes of asset scripts and the destination a script pays to. -/
namespace Cmusic

def opPushData1 : UInt8 := 0x4c

def opPushData2 : UInt8 := 0x4d

def opPushData4 : UInt8 := 0x4e

def opReserved : UInt8 := 0x50

def op1 : UInt8 := 0x51

def op16 : UInt8 := 0x60

def opReturn : UInt8 := 0x6a

def opDrop : UInt8 := 0x75

def opDup : UInt8 := 0x76

def opEqual : UInt8 := 0x87

def opEqualVerify : UInt8 := 0x88

def opHash160 : UInt8 := 0xa9

def opCheckSig : UInt8 := 0xac

def opCheckMultiSig : UInt8 := 0xae

def opCmusicaiAsset : UInt8 := 0xc0

def maxScriptSize : Nat := 10000

def cmusicaiN : UInt8 := 114

def cmusicaiE : UInt8 := 118

def cmusicaiX : UInt8 := 110

def cmusicaiQ : UInt8 := 113

def cmusicaiT : UInt8 := 116

def cmusicaiO : UInt8 := 111

/-- The kinds of output scripts. -/
inductive TxnOutType where
  | nonStandard | pubKey | pubKeyHash | scriptHash | multiSig | nullData | witnessV0ScriptHash
  | witnessV0KeyHash | newAsset | reissueAsset | transferAsset | restrictedAssetData
  deriving DecidableEq, Repr

inductive CTxDestination where
  | noDestination
  | keyID (hash : Str)
  | scriptID (hash : Str)
  deriving DecidableEq, Repr

namespace CScript

/-- The byte at `i`; every use in the source is behind a size check. -/
def byteAt (script : CScript) (i : Nat) : UInt8 := script.getD i 0

/-- One instruction with its operand and the rest of the script. An asset opcode takes the whole
rest as its operand. -/
def getOp (script : CScript) : Option (UInt8 × Str × CScript) :=
  match script with
  | [] => none
  | opcode :: rest =>
    let operand (nSize : Nat) (rest : CScript) : Option (UInt8 × Str × CScript) :=
      if rest.length < nSize then none else some (opcode, rest.take nSize, rest.drop nSize)
    if opcode < opPushData1 then operand opcode.toNat rest
    else if opcode = opPushData1 then
      if rest.length < 1 then none else operand (littleEndian (rest.take 1)) (rest.drop 1)
    else if opcode = opPushData2 then
      if rest.length < 2 then none else operand (littleEndian (rest.take 2)) (rest.drop 2)
    else if opcode = opPushData4 then
      if rest.length < 4 then none else operand (littleEndian (rest.take 4)) (rest.drop 4)
    else if opcode = opCmusicaiAsset then some (opcode, rest, [])
    else some (opcode, [], rest)

/-- Appends a data push. -/
def pushData (script : CScript) (b : Str) : CScript :=
  script ++ (if b.length < opPushData1.toNat then [b.length.toUInt8]
      else if b.length ≤ 0xff then [opPushData1, b.length.toUInt8]
      else if b.length ≤ 0xffff then opPushData2 :: writeLE 2 b.length
      else opPushData4 :: writeLE 4 b.length) ++ b

/-- Whether all instructions of the script are pushes; every instruction takes at least one byte, so
the length of the script is enough fuel. -/
def isPushOnlyAux : Nat → CScript → Bool
  | _, [] => true
  | 0, _ => false
  | fuel + 1, script =>
    match getOp script with
    | none => false
    | some (opcode, _, rest) => opcode ≤ op16 && isPushOnlyAux fuel rest

def isPushOnly (script : CScript) : Bool := isPushOnlyAux script.length script

/-- How often `op` occurs among the instructions that can be read. -/
def findAux (op : UInt8) : Nat → CScript → Nat
  | 0, _ => 0
  | fuel + 1, script =>
    match getOp script with
    | none => 0
    | some (opcode, _, rest) => (if opcode = op then 1 else 0) + findAux op fuel rest

def find (script : CScript) (op : UInt8) : Nat := findAux op script.length script

def isPayToPublicKeyHash (script : CScript) : Bool :=
  script.length = 25 && byteAt script 0 = opDup && byteAt script 1 = opHash160 && byteAt script 2 = 0x14 &&
    byteAt script 23 = opEqualVerify && byteAt script 24 = opCheckSig

def isPayToScriptHash (script : CScript) : Bool :=
  script.length = 23 && byteAt script 0 = opHash160 && byteAt script 1 = 0x14 && byteAt script 22 = opEqual

/-- What `IsAssetScript` reports through its reference arguments. -/
structure AssetScript where
  nType : TxnOutType
  fIsOwner : Bool
  nStartingIndex : Nat
  deriving DecidableEq, Repr

/-- Where the type byte stands: behind the marker at 27 or, with a longer push, at 28. -/
def assetMarkerIndex (script : CScript) : Option Nat :=
  if byteAt script 27 = cmusicaiN then
    if byteAt script 28 = cmusicaiE && byteAt script 29 = cmusicaiX then some 30 else none
  else if byteAt script 28 = cmusicaiN && byteAt script 29 = cmusicaiE && byteAt script 30 = cmusicaiX then
    some 31
  else none

def isAssetScript (script : CScript) : Option AssetScript :=
  if script.length > 31 && byteAt script 25 = opCmusicaiAsset then
    match assetMarkerIndex script with
    | none => none
    | some index =>
      if byteAt script index = cmusicaiT then some ⟨.transferAsset, false, index + 1⟩
      else if byteAt script index = cmusicaiQ && script.length > 39 then
        some ⟨.newAsset, false, index + 1⟩
      else if byteAt script index = cmusicaiO then some ⟨.newAsset, true, index + 1⟩
      else if byteAt script index = cmusicaiN then some ⟨.reissueAsset, false, index + 1⟩
      else none
  else none

/-- The starting index of the payload when the script is an asset script of the given kind. -/
def assetScriptOf (nType : TxnOutType) (fIsOwner : Bool) (script : CScript) : Option Nat :=
  match isAssetScript script with
  | some s => if s.nType = nType && s.fIsOwner = fIsOwner then some s.nStartingIndex else none
  | none => none

def isScriptNewAsset : CScript → Option Nat := assetScriptOf .newAsset false

def isScriptOwnerAsset : CScript → Option Nat := assetScriptOf .newAsset true

def isScriptReissueAsset : CScript → Option Nat := assetScriptOf .reissueAsset false

def isScriptTransferAsset : CScript → Option Nat := assetScriptOf .transferAsset false

def isNewAsset (script : CScript) : Bool := (isScriptNewAsset script).isSome

def isOwnerAsset (script : CScript) : Bool := (isScriptOwnerAsset script).isSome

def isReissueAsset (script : CScript) : Bool := (isScriptReissueAsset script).isSome

def isTransferAsset (script : CScript) : Bool := (isScriptTransferAsset script).isSome

def isNullAssetTxDataScript (script : CScript) : Bool :=
  script.length > 23 && byteAt script 0 = opCmusicaiAsset && byteAt script 1 = 0x14

def isNullGlobalRestrictionAssetTxDataScript (script : CScript) : Bool :=
  script.length > 6 && byteAt script 0 = opCmusicaiAsset && byteAt script 1 = opReserved &&
    byteAt script 2 = opReserved

def isNullAssetVerifierTxDataScript (script : CScript) : Bool :=
  script.length > 3 && byteAt script 0 = opCmusicaiAsset && byteAt script 1 = opReserved &&
    byteAt script 2 ≠ opReserved

def isNullAsset (script : CScript) : Bool :=
  isNullAssetTxDataScript script || isNullGlobalRestrictionAssetTxDataScript script ||
    isNullAssetVerifierTxDataScript script

end CScript

end Cmusic
