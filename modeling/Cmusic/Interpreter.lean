import Cmusic.AssetScripts

/-! The script interpreter. Stacks are lists with the top in front. -/
namespace Cmusic

open Fallible

inductive ScriptError where
  | unknownError | scriptSize | badOpcode | pushSize | opCount | disabledOpcode | minimalData
  | invalidStackOperation | invalidAltStackOperation | negativeLockTime | unsatisfiedLockTime
  | discourageUpgradableNops | unbalancedConditional | minimalIf | verify | opReturn | equalVerify
  | numEqualVerify | sigDer | sigHighS | sigHashType | pubKeyType | witnessPubKeyType | sigNullFail
  | checkSigVerify | pubKeyCount | sigCount | sigNullDummy | checkMultiSigVerify | stackSize
  deriving DecidableEq, Repr

/-- The verification flags that the interpreter looks at. -/
structure ScriptFlags where
  minimalData : Bool := false
  checkLockTimeVerify : Bool := false
  checkSequenceVerify : Bool := false
  discourageUpgradableNops : Bool := false
  minimalIf : Bool := false
  nullFail : Bool := false
  nullDummy : Bool := false
  derSig : Bool := false
  lowS : Bool := false
  strictEnc : Bool := false
  witnessPubKeyType : Bool := false

inductive SigVersion where
  | base | witnessV0
  deriving DecidableEq, Repr

/-- What the interpreter calls: the signature checker of a transaction input, and the hash functions. -/
structure ScriptEnv where
  flags : ScriptFlags
  sigversion : SigVersion
  checkSig : Str → Str → CScript → SigVersion → Bool
  checkLockTime : Int → Bool
  checkSequence : Int → Bool
  checkLowS : Str → Bool
  ripemd160 : Str → Str
  sha1 : Str → Str
  sha256 : Str → Str
  hash160 : Str → Str
  hash256 : Str → Str

def maxScriptElementSize : Nat := 520

def maxOpsPerScript : Nat := 201

def maxPubKeysPerMultiSig : Nat := 20

def maxStackSize : Nat := 1000

def vchFalse : Str := []

def vchTrue : Str := [1]

def boolVch (b : Bool) : Str := if b then vchTrue else vchFalse

/-- `CastToBool`: a negative zero counts as false. -/
def castToBool : Str → Bool
  | [] => false
  | [b] => b ≠ 0 && b ≠ 0x80
  | b :: rest => b ≠ 0 || castToBool rest

section Encodings

def isCompressedOrUncompressedPubKey (vchPubKey : Str) : Bool :=
  33 ≤ vchPubKey.length &&
    if vchPubKey.head? = some 4 then vchPubKey.length = 65
    else (vchPubKey.head? = some 2 || vchPubKey.head? = some 3) && vchPubKey.length = 33

def isCompressedPubKey (vchPubKey : Str) : Bool :=
  vchPubKey.length = 33 && (vchPubKey.head? = some 2 || vchPubKey.head? = some 3)

def isValidSignatureEncoding (sig : Str) : Bool :=
  let byte (i : Nat) : UInt8 := sig.getD i 0
  let lenR := (byte 3).toNat
  let lenS := (byte (5 + lenR)).toNat
  9 ≤ sig.length && sig.length ≤ 73 && byte 0 = 0x30 && (byte 1).toNat = sig.length - 3 &&
    5 + lenR < sig.length && lenR + lenS + 7 = sig.length && byte 2 = 0x02 && lenR ≠ 0 &&
    byte 4 &&& 0x80 = 0 && !(1 < lenR && byte 4 = 0 && byte 5 &&& 0x80 = 0) &&
    byte (lenR + 4) = 0x02 && lenS ≠ 0 && byte (lenR + 6) &&& 0x80 = 0 &&
    !(1 < lenS && byte (lenR + 6) = 0 && byte (lenR + 7) &&& 0x80 = 0)

def isDefinedHashtypeSignature (vchSig : Str) : Bool :=
  match vchSig.getLast? with
  | none => false
  | some last => 1 ≤ last &&& 0x7f && last &&& 0x7f ≤ 3

variable (env : ScriptEnv)

def checkSignatureEncoding (vchSig : Str) : Except ScriptError Unit := do
  if vchSig ≠ [] then
    let flags := env.flags
    failIf ((flags.derSig || flags.lowS || flags.strictEnc) && !isValidSignatureEncoding vchSig) .sigDer
    failIf (flags.lowS && !env.checkLowS vchSig.dropLast) .sigHighS
    failIf (flags.strictEnc && !isDefinedHashtypeSignature vchSig) .sigHashType

def checkPubKeyEncoding (vchPubKey : Str) : Except ScriptError Unit := do
  failIf (env.flags.strictEnc && !isCompressedOrUncompressedPubKey vchPubKey) .pubKeyType
  failIf (env.flags.witnessPubKeyType && env.sigversion = .witnessV0 && !isCompressedPubKey vchPubKey)
    .witnessPubKeyType

def checkMinimalPush (data : Str) (opcode : UInt8) : Bool :=
  match data with
  | [] => opcode = 0
  | [b] =>
    if 1 ≤ b && b ≤ 16 then opcode = op1 + (b - 1)
    else if b = 0x81 then opcode = 0x4f
    else opcode = 1
  | _ =>
    if data.length ≤ 75 then opcode.toNat = data.length
    else if data.length ≤ 255 then opcode = opPushData1
    else if data.length ≤ 65535 then opcode = opPushData2
    else true

end Encodings

section Numbers

/-- The bytes of a magnitude, the least significant first. -/
def magnitudeBytes : Nat → Nat → Str
  | 0, _ => []
  | fuel + 1, n => if n = 0 then [] else n.toUInt8 :: magnitudeBytes fuel (n / 256)

/-- `CScriptNum::serialize`; a 64-bit magnitude has at most eight bytes. -/
def serializeNum (value : Int) : Str :=
  let result := magnitudeBytes 8 value.natAbs
  match result.getLast? with
  | none => []
  | some last =>
    if last &&& 0x80 ≠ 0 then result ++ [if value < 0 then 0x80 else 0]
    else if value < 0 then result.dropLast ++ [last ||| 0x80]
    else result

def isMinimalNum (vch : Str) : Bool :=
  match vch.reverse with
  | [] => true
  | [last] => last &&& 0x7f ≠ 0
  | last :: before :: _ => last &&& 0x7f ≠ 0 || before &&& 0x80 ≠ 0

/-- `CScriptNum::set_vch`. -/
def numOfVch (vch : Str) : Int :=
  match vch.getLast? with
  | none => 0
  | some last =>
    if last &&& 0x80 ≠ 0 then -(littleEndian (vch.dropLast ++ [last &&& 0x7f]) : Int)
    else littleEndian vch

/-- The constructor of `CScriptNum`; what it throws ends the script as an unknown error. -/
def scriptNum (fRequireMinimal : Bool) (vch : Str) (nMaxNumSize : Nat) : Except ScriptError Int := do
  failIf (vch.length > nMaxNumSize) .unknownError
  failIf (fRequireMinimal && !isMinimalNum vch) .unknownError
  return numOfVch vch

end Numbers

section Opcodes

/-- The opcodes that only rearrange the stack. -/
inductive StackOp where
  | twoDrop | twoDup | threeDup | twoOver | twoRot | twoSwap | ifDup | depth | drop | dup | nip | over
  | rot | swap | tuck | size
  deriving DecidableEq, Repr

inductive UnaryOp where
  | add1 | sub1 | negate | abs | not | notEqual0
  deriving DecidableEq, Repr

inductive BinaryOp where
  | add | sub | boolAnd | boolOr | numEqual | numNotEqual | lessThan | greaterThan | lessThanOrEqual
  | greaterThanOrEqual | min | max
  deriving DecidableEq, Repr

inductive HashOp where
  | ripemd160 | sha1 | sha256 | hash160 | hash256
  deriving DecidableEq, Repr

/-- What the `switch` of the interpreter tells apart. -/
inductive ScriptOp where
  | number (n : Int)
  | nop | checkLockTimeVerify | checkSequenceVerify | upgradableNop
  | «if» (negated : Bool) | «else» | endIf
  | verify | «return» | toAltStack | fromAltStack
  | stack (op : StackOp)
  | pick (roll : Bool)
  | equal (verify : Bool)
  | unary (op : UnaryOp)
  | binary (op : BinaryOp) (verify : Bool)
  | within
  | hash (op : HashOp)
  | codeSeparator
  | checkSig (verify : Bool)
  | checkMultiSig (verify : Bool)
  | asset
  | bad
  deriving DecidableEq, Repr

def stackOpOf (opcode : UInt8) : Option StackOp :=
  match opcode.toNat with
  | 0x6d => some .twoDrop
  | 0x6e => some .twoDup
  | 0x6f => some .threeDup
  | 0x70 => some .twoOver
  | 0x71 => some .twoRot
  | 0x72 => some .twoSwap
  | 0x73 => some .ifDup
  | 0x74 => some .depth
  | 0x75 => some .drop
  | 0x76 => some .dup
  | 0x77 => some .nip
  | 0x78 => some .over
  | 0x7b => some .rot
  | 0x7c => some .swap
  | 0x7d => some .tuck
  | 0x82 => some .size
  | _ => none

def numericOpOf (opcode : UInt8) : Option ScriptOp :=
  match opcode.toNat with
  | 0x8b => some (.unary .add1)
  | 0x8c => some (.unary .sub1)
  | 0x8f => some (.unary .negate)
  | 0x90 => some (.unary .abs)
  | 0x91 => some (.unary .not)
  | 0x92 => some (.unary .notEqual0)
  | 0x93 => some (.binary .add false)
  | 0x94 => some (.binary .sub false)
  | 0x9a => some (.binary .boolAnd false)
  | 0x9b => some (.binary .boolOr false)
  | 0x9c => some (.binary .numEqual false)
  | 0x9d => some (.binary .numEqual true)
  | 0x9e => some (.binary .numNotEqual false)
  | 0x9f => some (.binary .lessThan false)
  | 0xa0 => some (.binary .greaterThan false)
  | 0xa1 => some (.binary .lessThanOrEqual false)
  | 0xa2 => some (.binary .greaterThanOrEqual false)
  | 0xa3 => some (.binary .min false)
  | 0xa4 => some (.binary .max false)
  | 0xa5 => some .within
  | _ => none

def controlOpOf (opcode : UInt8) : Option ScriptOp :=
  match opcode.toNat with
  | 0x61 => some .nop
  | 0x63 => some (.if false)
  | 0x64 => some (.if true)
  | 0x67 => some .else
  | 0x68 => some .endIf
  | 0x69 => some .verify
  | 0x6a => some .return
  | 0x6b => some .toAltStack
  | 0x6c => some .fromAltStack
  | 0x79 => some (.pick false)
  | 0x7a => some (.pick true)
  | 0x87 => some (.equal false)
  | 0x88 => some (.equal true)
  | 0xa6 => some (.hash .ripemd160)
  | 0xa7 => some (.hash .sha1)
  | 0xa8 => some (.hash .sha256)
  | 0xa9 => some (.hash .hash160)
  | 0xaa => some (.hash .hash256)
  | 0xab => some .codeSeparator
  | 0xac => some (.checkSig false)
  | 0xad => some (.checkSig true)
  | 0xae => some (.checkMultiSig false)
  | 0xaf => some (.checkMultiSig true)
  | 0xb1 => some .checkLockTimeVerify
  | 0xb2 => some .checkSequenceVerify
  | 0xc0 => some .asset
  | _ => none

/-- The opcodes in their groups; what is in none of them is bad. -/
def scriptOpOf (opcode : UInt8) : ScriptOp :=
  if opcode = 0x4f || op1 ≤ opcode && opcode ≤ op16 then .number ((opcode.toNat : Int) - 0x50)
  else if opcode = 0xb0 || 0xb3 ≤ opcode && opcode ≤ 0xb9 then .upgradableNop
  else match controlOpOf opcode with
    | some op => op
    | none => match stackOpOf opcode with
      | some op => .stack op
      | none => (numericOpOf opcode).getD .bad

def isDisabled (opcode : UInt8) : Bool :=
  opcode ∈ ([0x7e, 0x7f, 0x80, 0x81, 0x83, 0x84, 0x85, 0x86, 0x8d, 0x8e, 0x95, 0x96, 0x97, 0x98, 0x99] :
    List UInt8)

end Opcodes

section Operations

def StackOp.apply : StackOp → List Str → Option (List Str)
  | .twoDrop, _ :: _ :: s => some s
  | .twoDup, x2 :: x1 :: s => some (x2 :: x1 :: x2 :: x1 :: s)
  | .threeDup, x3 :: x2 :: x1 :: s => some (x3 :: x2 :: x1 :: x3 :: x2 :: x1 :: s)
  | .twoOver, x4 :: x3 :: x2 :: x1 :: s => some (x2 :: x1 :: x4 :: x3 :: x2 :: x1 :: s)
  | .twoRot, x6 :: x5 :: x4 :: x3 :: x2 :: x1 :: s => some (x2 :: x1 :: x6 :: x5 :: x4 :: x3 :: s)
  | .twoSwap, x4 :: x3 :: x2 :: x1 :: s => some (x2 :: x1 :: x4 :: x3 :: s)
  | .ifDup, x :: s => some (if castToBool x then x :: x :: s else x :: s)
  | .depth, s => some (serializeNum s.length :: s)
  | .drop, _ :: s => some s
  | .dup, x :: s => some (x :: x :: s)
  | .nip, x2 :: _ :: s => some (x2 :: s)
  | .over, x2 :: x1 :: s => some (x1 :: x2 :: x1 :: s)
  | .rot, x3 :: x2 :: x1 :: s => some (x1 :: x3 :: x2 :: s)
  | .swap, x2 :: x1 :: s => some (x1 :: x2 :: s)
  | .tuck, x2 :: x1 :: s => some (x2 :: x1 :: x2 :: s)
  | .size, x :: s => some (serializeNum x.length :: x :: s)
  | _, _ => none

def UnaryOp.apply : UnaryOp → Int → Int
  | .add1, n => n + 1
  | .sub1, n => n - 1
  | .negate, n => -n
  | .abs, n => if n < 0 then -n else n
  | .not, n => if n = 0 then 1 else 0
  | .notEqual0, n => if n ≠ 0 then 1 else 0

def BinaryOp.apply (op : BinaryOp) (m n : Int) : Int :=
  let truth (b : Bool) : Int := if b then 1 else 0
  match op with
  | .add => m + n
  | .sub => m - n
  | .boolAnd => truth (m ≠ 0 && n ≠ 0)
  | .boolOr => truth (m ≠ 0 || n ≠ 0)
  | .numEqual => truth (m = n)
  | .numNotEqual => truth (m ≠ n)
  | .lessThan => truth (m < n)
  | .greaterThan => truth (m > n)
  | .lessThanOrEqual => truth (m ≤ n)
  | .greaterThanOrEqual => truth (m ≥ n)
  | .min => if m < n then m else n
  | .max => if m > n then m else n

def ScriptEnv.hash (env : ScriptEnv) : HashOp → Str → Str
  | .ripemd160 => env.ripemd160
  | .sha1 => env.sha1
  | .sha256 => env.sha256
  | .hash160 => env.hash160
  | .hash256 => env.hash256

/-- The copies of `b` in front of a script go. -/
def dropCopies (b : CScript) : Nat → CScript → CScript
  | 0, script => script
  | fuel + 1, script => if b <+: script then dropCopies b fuel (script.drop b.length) else script

/-- `FindAndDelete`, which looks at the places where an instruction begins; behind the last one that
can be read the script stays as it is. -/
def findAndDeleteAux (b : CScript) : Nat → CScript → CScript
  | 0, script => script
  | fuel + 1, script =>
    let script := dropCopies b script.length script
    match CScript.getOp script with
    | none => script
    | some (_, _, rest) => script.take (script.length - rest.length) ++ findAndDeleteAux b fuel rest

def CScript.findAndDelete (script b : CScript) : CScript :=
  if b = [] then script else findAndDeleteAux b (script.length + 1) script

structure EvalState where
  stack : List Str
  altstack : List Str := []
  vfExec : List Bool := []
  nOpCount : Nat := 0
  /-- What begins at the last code separator. -/
  pbegincodehash : CScript

variable (env : ScriptEnv) (s : EvalState)

def EvalState.withStack (stack : List Str) : EvalState := { s with stack }

/-- The script code of a signature check; before segwit the signatures are cut out of it. -/
def scriptCode (vchSigs : List Str) : CScript :=
  if env.sigversion = .base then
    vchSigs.foldl (fun code vchSig => code.findAndDelete (CScript.pushData [] vchSig)) s.pbegincodehash
  else s.pbegincodehash

def evalCheckSig (verify : Bool) : Except ScriptError EvalState :=
  match s.stack with
  | vchPubKey :: vchSig :: stack => do
    checkSignatureEncoding env vchSig
    checkPubKeyEncoding env vchPubKey
    let fSuccess := env.checkSig vchSig vchPubKey (scriptCode env s [vchSig]) env.sigversion
    failIf (!fSuccess && env.flags.nullFail && vchSig ≠ []) .sigNullFail
    if verify then
      failIf (!fSuccess) .checkSigVerify
      return s.withStack stack
    else return s.withStack (boolVch fSuccess :: stack)
  | _ => .error .invalidStackOperation

/-- The loop of `OP_CHECKMULTISIG`: every signature has to match a key behind that of the one before. -/
def matchSignatures (code : CScript) : List Str → List Str → Except ScriptError Bool
  | [], _ => .ok true
  | _ :: _, [] => .ok false
  | vchSig :: sigs, vchPubKey :: keys => do
    checkSignatureEncoding env vchSig
    checkPubKeyEncoding env vchPubKey
    let sigsLeft := if env.checkSig vchSig vchPubKey code env.sigversion then sigs else vchSig :: sigs
    if sigsLeft.length > keys.length then return false
    else matchSignatures code sigsLeft keys

def getInt (n : Int) : Int := max (-2147483648) (min n 2147483647)

def evalCheckMultiSig (verify : Bool) : Except ScriptError EvalState := do
  let fRequireMinimal := env.flags.minimalData
  match s.stack with
  | [] => throw .invalidStackOperation
  | top :: stack =>
    let nKeysCount := getInt (← scriptNum fRequireMinimal top 4)
    failIf (nKeysCount < 0 || nKeysCount > maxPubKeysPerMultiSig) .pubKeyCount
    let nOpCount := s.nOpCount + nKeysCount.toNat
    failIf (nOpCount > maxOpsPerScript) .opCount
    failIf (s.stack.length < 2 + nKeysCount.toNat) .invalidStackOperation
    let keys := stack.take nKeysCount.toNat
    match stack.drop nKeysCount.toNat with
    | [] => throw .invalidStackOperation
    | top :: stack =>
      let nSigsCount := getInt (← scriptNum fRequireMinimal top 4)
      failIf (nSigsCount < 0 || nSigsCount > nKeysCount) .sigCount
      -- one argument more than the signatures is taken off
      failIf (stack.length < nSigsCount.toNat + 1) .invalidStackOperation
      let sigs := stack.take nSigsCount.toNat
      let fSuccess ← matchSignatures env (scriptCode env s sigs) sigs keys
      failIf (!fSuccess && env.flags.nullFail && sigs.any (· ≠ [])) .sigNullFail
      match stack.drop nSigsCount.toNat with
      | [] => throw .invalidStackOperation
      | dummy :: stack =>
        failIf (env.flags.nullDummy && dummy ≠ []) .sigNullDummy
        let s := { s with nOpCount }
        if verify then
          failIf (!fSuccess) .checkMultiSigVerify
          return s.withStack stack
        else return s.withStack (boolVch fSuccess :: stack)

/-- The two opcodes that compare a lock with the transaction. -/
def evalLock (enabled : Bool) (test : Int → Except ScriptError Unit) : Except ScriptError EvalState := do
  if enabled then
    match s.stack with
    | [] => throw .invalidStackOperation
    | top :: _ =>
      let n ← scriptNum env.flags.minimalData top 5
      failIf (n < 0) .negativeLockTime
      test n
  else failIf env.flags.discourageUpgradableNops .discourageUpgradableNops
  return s

/-- The bit of a sequence number that switches the lock off. -/
def sequenceLockDisabled (n : Int) : Bool := n.toNat / 2147483648 % 2 = 1

def evalIf (fExec negated : Bool) : Except ScriptError EvalState := do
  if fExec then
    match s.stack with
    | [] => throw .unbalancedConditional
    | vch :: stack =>
      failIf (env.sigversion = .witnessV0 && env.flags.minimalIf && (vch.length > 1 ||
        vch.length = 1 && vch ≠ vchTrue)) .minimalIf
      return { s with stack, vfExec := (castToBool vch ^^ negated) :: s.vfExec }
  else return { s with vfExec := false :: s.vfExec }

/-- `OP_PICK` and `OP_ROLL`. -/
def evalPick (roll : Bool) : Except ScriptError EvalState := do
  match s.stack with
  | top :: x :: rest =>
    let stack := x :: rest
    let n := getInt (← scriptNum env.flags.minimalData top 4)
    failIf (n < 0 || n ≥ stack.length) .invalidStackOperation
    let vch := stack.getD n.toNat []
    return s.withStack (vch :: if roll then stack.eraseIdx n.toNat else stack)
  | _ => throw .invalidStackOperation

/-- The `switch` over the opcodes; `rest` is what follows the instruction. -/
def evalOp (fExec : Bool) (rest : CScript) : ScriptOp → Except ScriptError EvalState
  | .number n => .ok (s.withStack (serializeNum n :: s.stack))
  | .nop | .asset => .ok s
  | .upgradableNop => do
    failIf env.flags.discourageUpgradableNops .discourageUpgradableNops
    return s
  | .checkLockTimeVerify => evalLock env s env.flags.checkLockTimeVerify fun n =>
      failIf (!env.checkLockTime n) .unsatisfiedLockTime
  | .checkSequenceVerify => evalLock env s env.flags.checkSequenceVerify fun n =>
      failIf (!sequenceLockDisabled n && !env.checkSequence n) .unsatisfiedLockTime
  | .if negated => evalIf env s fExec negated
  | .else =>
    match s.vfExec with
    | [] => .error .unbalancedConditional
    | b :: vfExec => .ok { s with vfExec := (!b) :: vfExec }
  | .endIf =>
    match s.vfExec with
    | [] => .error .unbalancedConditional
    | _ :: vfExec => .ok { s with vfExec }
  | .verify =>
    match s.stack with
    | [] => .error .invalidStackOperation
    | top :: stack => if castToBool top then .ok (s.withStack stack) else .error .verify
  | .return => .error .opReturn
  | .toAltStack =>
    match s.stack with
    | [] => .error .invalidStackOperation
    | top :: stack => .ok { s with stack, altstack := top :: s.altstack }
  | .fromAltStack =>
    match s.altstack with
    | [] => .error .invalidAltStackOperation
    | top :: altstack => .ok { s with stack := top :: s.stack, altstack }
  | .stack op =>
    match op.apply s.stack with
    | none => .error .invalidStackOperation
    | some stack => .ok (s.withStack stack)
  | .pick roll => evalPick env s roll
  | .equal verify =>
    match s.stack with
    | vch2 :: vch1 :: stack =>
      if verify then if vch1 = vch2 then .ok (s.withStack stack) else .error .equalVerify
      else .ok (s.withStack (boolVch (vch1 = vch2) :: stack))
    | _ => .error .invalidStackOperation
  | .unary op =>
    match s.stack with
    | [] => .error .invalidStackOperation
    | top :: stack => do
      let n ← scriptNum env.flags.minimalData top 4
      return s.withStack (serializeNum (op.apply n) :: stack)
  | .binary op verify =>
    match s.stack with
    | vch2 :: vch1 :: stack => do
      let m ← scriptNum env.flags.minimalData vch1 4
      let n ← scriptNum env.flags.minimalData vch2 4
      let vch := serializeNum (op.apply m n)
      if verify then
        failIf (!castToBool vch) .numEqualVerify
        return s.withStack stack
      else return s.withStack (vch :: stack)
    | _ => .error .invalidStackOperation
  | .within =>
    match s.stack with
    | vch3 :: vch2 :: vch1 :: stack => do
      let x ← scriptNum env.flags.minimalData vch1 4
      let lower ← scriptNum env.flags.minimalData vch2 4
      let upper ← scriptNum env.flags.minimalData vch3 4
      return s.withStack (boolVch (lower ≤ x && x < upper) :: stack)
    | _ => .error .invalidStackOperation
  | .hash op =>
    match s.stack with
    | [] => .error .invalidStackOperation
    | top :: stack => .ok (s.withStack (env.hash op top :: stack))
  | .codeSeparator => .ok { s with pbegincodehash := rest }
  | .checkSig verify => evalCheckSig env s verify
  | .checkMultiSig verify => evalCheckMultiSig env s verify
  | .bad => .error .badOpcode

/-- One turn of the loop of `EvalScript`, with the instruction that was read. -/
def evalInstruction (opcode : UInt8) (vchPushValue : Str) (rest : CScript) :
    Except ScriptError EvalState := do
  let fExec := s.vfExec.all id
  failIf (vchPushValue.length > maxScriptElementSize) .pushSize
  let s := { s with nOpCount := if opcode > op16 then s.nOpCount + 1 else s.nOpCount }
  failIf (opcode > op16 && s.nOpCount > maxOpsPerScript) .opCount
  failIf (isDisabled opcode) .disabledOpcode
  let s ←
    if fExec && opcode ≤ opPushData4 then do
      failIf (env.flags.minimalData && !checkMinimalPush vchPushValue opcode) .minimalData
      pure (s.withStack (vchPushValue :: s.stack))
    else if fExec || 0x63 ≤ opcode && opcode ≤ 0x68 then evalOp env s fExec rest (scriptOpOf opcode)
    else pure s
  failIf (s.stack.length + s.altstack.length > maxStackSize) .stackSize
  return s

/-- The loop of `EvalScript`; every instruction takes at least one byte. -/
def evalLoop : Nat → CScript → EvalState → Except ScriptError EvalState
  | _, [], s => .ok s
  | 0, _ :: _, _ => .error .unknownError
  | fuel + 1, script, s =>
    match CScript.getOp script with
    | none => .error .badOpcode
    | some (opcode, vchPushValue, rest) => do
      let s ← evalInstruction env s opcode vchPushValue rest
      evalLoop fuel rest s

/-- `EvalScript`; without an error it leaves the stack. -/
def evalScript (stack : List Str) (script : CScript) : Except ScriptError (List Str) := do
  failIf (script.length > maxScriptSize) .scriptSize
  let s ← evalLoop env script.length script { stack, pbegincodehash := script }
  failIf (s.vfExec ≠ []) .unbalancedConditional
  return s.stack

end Operations

end Cmusic
