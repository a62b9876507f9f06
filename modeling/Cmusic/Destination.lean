import Cmusic.Script
import Cmusic.Base58

/-! The chain parameters and primitives the checks read, and the destination of a script. -/
namespace Cmusic

/-- The name, burn rules and address prefixes of a network. -/
structure CChainParams where
  strNetworkID : Str
  pubKeyAddress : Str
  scriptAddress : Str
  nIssueAssetBurnAmount : CAmount
  nReissueAssetBurnAmount : CAmount
  nIssueSubAssetBurnAmount : CAmount
  nIssueUniqueAssetBurnAmount : CAmount
  nIssueMsgChannelAssetBurnAmount : CAmount
  nIssueQualifierAssetBurnAmount : CAmount
  nIssueSubQualifierAssetBurnAmount : CAmount
  nIssueRestrictedAssetBurnAmount : CAmount
  nAddNullQualifierTagBurnAmount : CAmount
  nCommunityAutonomousAmount : CAmount
  strIssueAssetBurnAddress : Str
  strReissueAssetBurnAddress : Str
  strIssueSubAssetBurnAddress : Str
  strIssueUniqueAssetBurnAddress : Str
  strIssueMsgChannelAssetBurnAddress : Str
  strIssueQualifierAssetBurnAddress : Str
  strIssueSubQualifierAssetBurnAddress : Str
  strIssueRestrictedAssetBurnAddress : Str
  strAddNullQualifierTagBurnAddress : Str
  strCommunityAutonomousAddress : Str

def mainParams : CChainParams where
  strNetworkID := str "main"
  pubKeyAddress := [28]
  scriptAddress := [122]
  nIssueAssetBurnAmount := 50 * coin
  nReissueAssetBurnAmount := 10 * coin
  nIssueSubAssetBurnAmount := 10 * coin
  nIssueUniqueAssetBurnAmount := 50000000
  nIssueMsgChannelAssetBurnAmount := 10 * coin
  nIssueQualifierAssetBurnAmount := 100 * coin
  nIssueSubQualifierAssetBurnAmount := 10 * coin
  nIssueRestrictedAssetBurnAmount := 150 * coin
  nAddNullQualifierTagBurnAmount := 1000000
  nCommunityAutonomousAmount := 10
  strIssueAssetBurnAddress := str "CcmKXqWrFrbDnywuY8F3orEnNR5L1g2mZQ"
  strReissueAssetBurnAddress := str "CX61EFYjZdXKWAY5UsBt5sLxHkWaqjBL59"
  strIssueSubAssetBurnAddress := str "CNgg3bLoGocLD9iU2W1gw3McHipzfZ8R13"
  strIssueUniqueAssetBurnAddress := str "CKXyGTyzibPLhPpTpvqqBK3SJBz8gp7Kfa"
  strIssueMsgChannelAssetBurnAddress := str "CMm13zRL8eGjZxYXfiCN1zCJFHiL5HkMYa"
  strIssueQualifierAssetBurnAddress := str "CZW36RFFgRWcCQ3cN1qWJGC6z4EAqgt7M6"
  strIssueSubQualifierAssetBurnAddress := str "CcDdxyK7JCuQfg83SxFHRpD8QHFivbdYjZ"
  strIssueRestrictedAssetBurnAddress := str "CcDdxyK7JCuQfg83SxFHRpD8QHFivbdYjZ"
  strAddNullQualifierTagBurnAddress := str "CTfS34Z3CrzXSPEmGx9xpjw7PShUC93YFi"
  strCommunityAutonomousAddress := str "CXy8ovMfgSMG5SYHa2nNAJZXkwEYxMa5xV"

def testNetParams : CChainParams where
  strNetworkID := str "test"
  pubKeyAddress := [88]
  scriptAddress := [124]
  nIssueAssetBurnAmount := 50 * coin
  nReissueAssetBurnAmount := 10 * coin
  nIssueSubAssetBurnAmount := 10 * coin
  nIssueUniqueAssetBurnAmount := 50000000
  nIssueMsgChannelAssetBurnAmount := 10 * coin
  nIssueQualifierAssetBurnAmount := 100 * coin
  nIssueSubQualifierAssetBurnAmount := 10 * coin
  nIssueRestrictedAssetBurnAmount := 150 * coin
  nAddNullQualifierTagBurnAmount := 1000000
  nCommunityAutonomousAmount := 10
  strIssueAssetBurnAddress := str "c1VQJKLSLVZ4syiCAx5hEPq8BrkFaxAXAi"
  strReissueAssetBurnAddress := str "c2yh4DiLETuVVDvpvBNSq3QCmHcdMmNEdp"
  strIssueSubAssetBurnAddress := str "c3PE3FsHqfszvz7nhwK2Gc32wykrc7pNMA"
  strIssueUniqueAssetBurnAddress := str "c4yKRTYF2nRryYEnupsNnQQmRKsQhdspYB"
  strIssueMsgChannelAssetBurnAddress := str "c58ndjHjLYKHMszr4ehUg9YMWPAiXNEepa"
  strIssueQualifierAssetBurnAddress := str "c68wpmVvdE6bMSkiCEDQWCHCKZs4VVdE2G"
  strIssueSubQualifierAssetBurnAddress := str "c7MSidYgNJrPE15ouEsXPYXFYH2AAPXmhr"
  strIssueRestrictedAssetBurnAddress := str "c8uX8jfZn14P1VNzh6YjSzLaRTQAdoFSHn"
  strAddNullQualifierTagBurnAddress := str "c9CrKy8m548AvSbcv1mcn7tyJQkgcwVfj6"
  strCommunityAutonomousAddress := str "c8db9nuaVL3Jo8hDcfKh77pZnG2J8jvxWH"

def regTestParams : CChainParams where
  strNetworkID := str "regtest"
  pubKeyAddress := [111]
  scriptAddress := [196]
  nIssueAssetBurnAmount := 50 * coin
  nReissueAssetBurnAmount := 10 * coin
  nIssueSubAssetBurnAmount := 10 * coin
  nIssueUniqueAssetBurnAmount := 50000000
  nIssueMsgChannelAssetBurnAmount := 10 * coin
  nIssueQualifierAssetBurnAmount := 100 * coin
  nIssueSubQualifierAssetBurnAmount := 10 * coin
  nIssueRestrictedAssetBurnAmount := 150 * coin
  nAddNullQualifierTagBurnAmount := 1000000
  nCommunityAutonomousAmount := 5
  strIssueAssetBurnAddress := str "n1issueAssetXXXXXXXXXXXXXXXXWdnemQ"
  strReissueAssetBurnAddress := str "n1ReissueAssetXXXXXXXXXXXXXXWG9NLd"
  strIssueSubAssetBurnAddress := str "n1issueSubAssetXXXXXXXXXXXXXbNiH6v"
  strIssueUniqueAssetBurnAddress := str "n1issueUniqueAssetXXXXXXXXXXS4695i"
  strIssueMsgChannelAssetBurnAddress := str "n1issueMsgChanneLAssetXXXXXXT2PBdD"
  strIssueQualifierAssetBurnAddress := str "n1issueQuaLifierXXXXXXXXXXXXUysLTj"
  strIssueSubQualifierAssetBurnAddress := str "n1issueSubQuaLifierXXXXXXXXXYffPLh"
  strIssueRestrictedAssetBurnAddress := str "n1issueRestrictedXXXXXXXXXXXXZVT9V"
  strAddNullQualifierTagBurnAddress := str "n1addTagBurnXXXXXXXXXXXXXXXXX5oLMH"
  strCommunityAutonomousAddress := []

/-- What the checks read besides their arguments: the parameters of the selected network, the hash
functions, the answers of the deployment queries at the current tip, and the start-up
options that switch the asset index on and mark a reindex. -/
structure Env where
  params : CChainParams
  hash160 : Str → Str
  hash256 : Str → Str
  areAssetsDeployed : Bool
  areMessagesDeployed : Bool
  areRestrictedAssetsDeployed : Bool
  areTransferScriptsSizeDeployed : Bool
  areEnforcedValuesDeployed : Bool
  areCoinbaseCheckAssetsDeployed : Bool
  fAssetIndex : Bool
  fReindex : Bool

namespace CScript

/-- A public key is valid when its first byte announces its length. -/
def isValidPubKey (vch : Str) : Bool :=
  let len := match vch with
    | 2 :: _ | 3 :: _ => 33
    | 4 :: _ | 6 :: _ | 7 :: _ => 65
    | _ => 0
  len ≠ 0 && len = vch.length

def isPubKeyPush (vch : Str) : Bool := 33 ≤ vch.length && vch.length ≤ 65

def solvePubKey (script : CScript) : Option Str := do
  let (_, vch, rest) ← getOp script
  let (opcode, operand, rest) ← getOp rest
  if isPubKeyPush vch && opcode = opCheckSig && operand = [] && rest = [] then some vch else none

def solvePubKeyHash (script : CScript) : Option Str := do
  let (opcode1, _, rest) ← getOp script
  let (opcode2, _, rest) ← getOp rest
  let (_, vch, rest) ← getOp rest
  let (opcode3, _, rest) ← getOp rest
  let (opcode4, _, rest) ← getOp rest
  if opcode1 = opDup && opcode2 = opHash160 && vch.length = 20 && opcode3 = opEqualVerify &&
    opcode4 = opCheckSig && rest = [] then some vch else none

def decodeOpN (opcode : UInt8) : Option UInt8 :=
  if opcode = 0 then some 0
  else if op1 ≤ opcode && opcode ≤ op16 then some (opcode - (op1 - 1))
  else none

/-- The public keys in front of the first instruction that is none, with that instruction. -/
def takePubKeys : Nat → CScript → Option (List Str × UInt8 × CScript)
  | 0, _ => none
  | fuel + 1, script => do
    let (opcode, vch, rest) ← getOp script
    if isPubKeyPush vch then
      let (keys, found) ← takePubKeys fuel rest
      return (vch :: keys, found)
    else return ([], opcode, rest)

def solveMultiSig (script : CScript) : Option (List Str) := do
  let (opcode, _, rest) ← getOp script
  let m ← decodeOpN opcode
  let (keys, opcode, rest) ← takePubKeys script.length rest
  let n ← decodeOpN opcode
  let (opcode, _, rest) ← getOp rest
  if opcode = opCheckMultiSig && rest = [] && 1 ≤ m && 1 ≤ n && m ≤ n && keys.length = n.toNat
  then some ([m] :: keys ++ [[n]]) else none

def isWitnessProgram (script : CScript) : Bool :=
  4 ≤ script.length && script.length ≤ 42 && (decodeOpN (byteAt script 0)).isSome &&
    (byteAt script 1).toNat + 2 = script.length

/-- The type of a script with the data it is solved to. -/
def solver (script : CScript) : Option (TxnOutType × List Str) :=
  if isPayToScriptHash script then some (.scriptHash, [(script.drop 2).take 20])
  else match isAssetScript script with
  | some s => some (s.nType, [(script.drop 3).take 20])
  | none =>
    if isWitnessProgram script then
      if byteAt script 0 = 0 && (script.drop 2).length = 20 then
        some (.witnessV0KeyHash, [script.drop 2])
      else if byteAt script 0 = 0 && (script.drop 2).length = 32 then
        some (.witnessV0ScriptHash, [script.drop 2])
      else none
    else if script.head? = some opReturn && isPushOnly (script.drop 1) then some (.nullData, [])
    else if script.head? = some opCmusicaiAsset && isPushOnly (script.drop 1) then
      if 23 ≤ script.length && byteAt script 1 ≠ opReserved then
        some (.restrictedAssetData, [(script.drop 2).take 20])
      else some (.restrictedAssetData, [])
    else
      ((solvePubKey script).map fun vch => (TxnOutType.pubKey, [vch])) <|>
      ((solvePubKeyHash script).map fun vch => (TxnOutType.pubKeyHash, [vch])) <|>
      ((solveMultiSig script).map fun vchs => (TxnOutType.multiSig, vchs))

end CScript

variable (env : Env)

def extractDestination (script : CScript) : Option CTxDestination :=
  match CScript.solver script with
  | some (.pubKey, vch :: _) =>
    if CScript.isValidPubKey vch then some (.keyID (env.hash160 vch)) else none
  | some (.pubKeyHash, vch :: _) => some (.keyID vch)
  | some (.scriptHash, vch :: _) => some (.scriptID vch)
  | some (.newAsset, vch :: _) | some (.reissueAsset, vch :: _)
  | some (.transferAsset, vch :: _) | some (.restrictedAssetData, vch :: _) => some (.keyID vch)
  | _ => none

def encodeDestination (dest : CTxDestination) : Str :=
  match dest with
  | .noDestination => []
  | .keyID hash => encodeBase58Check env.hash256 (env.params.pubKeyAddress ++ hash)
  | .scriptID hash => encodeBase58Check env.hash256 (env.params.scriptAddress ++ hash)

/-- The address of a script; empty when no destination can be extracted. -/
def scriptAddress (script : CScript) : Str :=
  encodeDestination env ((extractDestination env script).getD .noDestination)

/-- The address of a script whose destination can be extracted. -/
def extractAddress (script : CScript) : Option Str :=
  (extractDestination env script).map (encodeDestination env)

end Cmusic
