import Cmusic.Interpreter
import Cmusic.Conservation

/-! Who can spend an asset output: what the interpreter makes of a payment to a key hash with an asset
payload behind it. -/
namespace Cmusic

open Fallible CScript

namespace CScript

variable {script : CScript} {a : AssetScript}

/-- The bytes that make the front of a script a payment to a key hash. -/
def hasPubKeyHashFront (script : CScript) : Bool :=
  byteAt script 0 = opDup && byteAt script 1 = opHash160 && byteAt script 2 = 0x14 &&
    byteAt script 23 = opEqualVerify && byteAt script 24 = opCheckSig

theorem drop_eq_byteAt_cons {i : Nat} (h : i < script.length) :
    script.drop i = byteAt script i :: script.drop (i + 1) := by
  rw [List.drop_eq_getElem_cons h, byteAt, List.getD_eq_getElem?_getD, List.getElem?_eq_getElem h,
    Option.getD_some]

theorem payToPubKeyHash_eq {hash : Str} (h : hash.length = 20) :
    payToPubKeyHash hash = opDup :: opHash160 :: 0x14 :: (hash ++ [opEqualVerify, opCheckSig]) := by
  simp [payToPubKeyHash, pushData, h, opPushData1]

theorem length_of_isAssetScript (h : isAssetScript script = some a) :
    31 < script.length ∧ byteAt script 25 = opCmusicaiAsset := by
  unfold isAssetScript at h
  split at h
  next hc =>
    rw [Bool.and_eq_true, decide_eq_true_iff, decide_eq_true_iff] at hc
    exact hc
  · cases h

/-- An asset script byte by byte, around the twenty bytes that name its key. -/
theorem shape_of_isAssetScript (h : isAssetScript script = some a) :
    script = byteAt script 0 :: byteAt script 1 :: byteAt script 2 :: ((script.drop 3).take 20 ++
      byteAt script 23 :: byteAt script 24 :: opCmusicaiAsset :: script.drop 26) := by
  obtain ⟨hl, hb⟩ := length_of_isAssetScript h
  have hba : (script.drop 3).drop 20 =
      byteAt script 23 :: byteAt script 24 :: opCmusicaiAsset :: script.drop 26 := by
    rw [List.drop_drop, drop_eq_byteAt_cons (by omega), drop_eq_byteAt_cons (by omega),
      drop_eq_byteAt_cons (by omega), hb]
  rw [← hba, List.take_append_drop, ← drop_eq_byteAt_cons (by omega), ← drop_eq_byteAt_cons (by omega),
    ← drop_eq_byteAt_cons (by omega), List.drop_zero]

theorem length_keyBytes (h : isAssetScript script = some a) :
    ((script.drop 3).take 20).length = 20 := by
  have hl := (length_of_isAssetScript h).1
  rw [List.length_take, List.length_drop]
  omega

/-- With the right bytes in front an asset script is a payment to its key, the asset opcode and the
payload. -/
theorem eq_of_hasPubKeyHashFront (h : isAssetScript script = some a)
    (hf : script.hasPubKeyHashFront = true) :
    script = payToPubKeyHash ((script.drop 3).take 20) ++ opCmusicaiAsset :: script.drop 26 := by
  simp only [hasPubKeyHashFront, Bool.and_eq_true, decide_eq_true_iff] at hf
  obtain ⟨⟨⟨⟨h0, h1⟩, h2⟩, h23⟩, h24⟩ := hf
  have hsh := shape_of_isAssetScript h
  rw [h0, h1, h2, h23, h24] at hsh
  rw [payToPubKeyHash_eq (length_keyBytes h)]
  simpa using hsh

theorem hasPubKeyHashFront_of_take (h : isAssetScript script = some a)
    (ht : script.take 25 = payToPubKeyHash ((script.drop 3).take 20)) :
    script.hasPubKeyHashFront = true := by
  have hb : ∀ i < 25, byteAt script i = byteAt (payToPubKeyHash ((script.drop 3).take 20)) i := by
    intro i hi
    rw [← ht, byteAt, byteAt, List.getD_eq_getElem?_getD, List.getD_eq_getElem?_getD,
      List.getElem?_take_of_lt hi]
  have hkey := length_keyBytes h
  simp only [hasPubKeyHashFront, Bool.and_eq_true, decide_eq_true_iff]
  refine ⟨⟨⟨⟨?_, ?_⟩, ?_⟩, ?_⟩, ?_⟩
  all_goals
    rw [hb _ (by decide), payToPubKeyHash_eq hkey, byteAt]
    simp [hkey]

/-- The address of an asset script is read from fixed places. -/
theorem extractDestination_of_isAssetScript {env : Env} (h : isAssetScript script = some a) :
    extractDestination env script = some (.keyID ((script.drop 3).take 20)) := by
  have hl := (length_of_isAssetScript h).1
  have hn : isPayToScriptHash script = false := by
    rw [isPayToScriptHash, Bool.and_assoc, Bool.and_assoc, Bool.and_eq_false_iff]
    exact Or.inl (decide_eq_false (by omega))
  have hso : solver script = some (a.nType, [(script.drop 3).take 20]) := by
    simp [solver, hn, h]
  have ht : a.nType = .newAsset ∨ a.nType = .reissueAsset ∨ a.nType = .transferAsset := by
    unfold isAssetScript at h
    split at h
    · split at h
      · cases h
      · split_ifs at h <;> cases h <;> simp
    · cases h
  unfold extractDestination
  rw [hso]
  rcases ht with ht | ht | ht <;> rw [ht]

end CScript

section Evaluation

variable {env : ScriptEnv} {s s' : EvalState} {opcode : UInt8} {vch : Str} {script rest : CScript}
  {fuel : Nat} {hash payload : Str}

theorem evalLoop_of_getOp (h : CScript.getOp script = some (opcode, vch, rest)) :
    evalLoop env (fuel + 1) script s = evalInstruction env s opcode vch rest >>= evalLoop env fuel rest := by
  cases script with
  | nil => cases h
  | cons b script =>
    rw [evalLoop, h]
    exact List.cons_ne_nil b script

theorem evalLoop_nil : evalLoop env fuel [] s = .ok s := by
  cases fuel <;> rfl

theorem evalLoop_step (hg : CScript.getOp script = some (opcode, vch, rest))
    (h : evalInstruction env s opcode vch rest = .ok s') :
    evalLoop env (fuel + 1) script s = evalLoop env fuel rest s' := by
  rw [evalLoop_of_getOp hg, h]
  rfl

/-- The state in which the instruction of an opcode is carried out. -/
def EvalState.counted (s : EvalState) (opcode : UInt8) : EvalState :=
  { s with nOpCount := if opcode > op16 then s.nOpCount + 1 else s.nOpCount }

/-- What the limits ask of an instruction. -/
structure WithinLimits (s : EvalState) (opcode : UInt8) (vch : Str) : Prop where
  push : vch.length ≤ maxScriptElementSize
  ops : opcode > op16 → s.nOpCount < maxOpsPerScript
  enabled : isDisabled opcode = false

theorem withinLimits_of_evalInstruction (h : evalInstruction env s opcode vch rest = .ok s') :
    WithinLimits s opcode vch := by
  unfold evalInstruction at h
  simp only [failIf_bind_eq_ok, decide_eq_false_iff_not, not_lt, Bool.and_eq_false_iff] at h
  obtain ⟨hp, ho, he, -⟩ := h
  refine ⟨hp, fun hop => ?_, he⟩
  rcases ho with ho' | hc
  · exact absurd hop ho'
  · rw [if_pos hop] at hc
    omega

/-- Outside of conditionals an instruction that is no push is carried out. -/
theorem evalInstruction_op (he : s.vfExec = []) (hop : opPushData4 < opcode)
    (hl : WithinLimits s opcode vch) :
    evalInstruction env s opcode vch rest =
      evalOp env (s.counted opcode) true rest (scriptOpOf opcode) >>= fun s' => do
        failIf (s'.stack.length + s'.altstack.length > maxStackSize) .stackSize
        return s' := by
  have ho : (decide (opcode > op16) &&
      decide ((if opcode > op16 then s.nOpCount + 1 else s.nOpCount) > maxOpsPerScript)) = false := by
    rw [Bool.and_eq_false_iff, decide_eq_false_iff_not, decide_eq_false_iff_not]
    by_cases hop16 : opcode > op16
    · have hc := hl.ops hop16
      rw [if_pos hop16]
      exact Or.inr (by omega)
    · exact Or.inl hop16
  have hp : decide (vch.length > maxScriptElementSize) = false :=
    decide_eq_false (by have := hl.push; omega)
  have hn : decide (opcode ≤ opPushData4) = false := decide_eq_false (UInt8.not_le.2 hop)
  unfold evalInstruction
  simp only [he, List.all_nil, hp, ho, hl.enabled, hn, Bool.and_false, Bool.true_or,
    if_true, EvalState.counted]
  rfl

theorem evalOp_of_evalInstruction (h : evalInstruction env s opcode vch rest = .ok s')
    (he : s.vfExec = []) (hop : opPushData4 < opcode) :
    evalOp env (s.counted opcode) true rest (scriptOpOf opcode) = .ok s' := by
  rw [evalInstruction_op he hop (withinLimits_of_evalInstruction h)] at h
  obtain ⟨t, ht, h⟩ := bind_eq_ok.1 h
  simp only [failIf_bind_eq_ok, pure_eq_ok] at h
  rw [← h.2]
  exact ht

theorem eq_of_evalInstruction_push (h : evalInstruction env s opcode vch rest = .ok s')
    (he : s.vfExec = []) (hop : opcode ≤ opPushData4) :
    s' = (s.counted opcode).withStack (vch :: s.stack) := by
  unfold evalInstruction at h
  simp only [failIf_bind_eq_ok] at h
  obtain ⟨-, -, -, h⟩ := h
  simp only [he, List.all_nil, Bool.true_and, hop, decide_true, if_true, failIf_bind_eq_ok,
    pure_bind, pure_eq_ok] at h
  rw [← h.2.2]
  simp only [EvalState.withStack, EvalState.counted, he]

theorem evalInstruction_of_evalOp (he : s.vfExec = []) (hop : opPushData4 < opcode)
    (hl : WithinLimits s opcode vch)
    (h : evalOp env (s.counted opcode) true rest (scriptOpOf opcode) = .ok s')
    (hsi : s'.stack.length + s'.altstack.length ≤ maxStackSize) :
    evalInstruction env s opcode vch rest = .ok s' := by
  rw [evalInstruction_op he hop hl, h]
  exact failIf_bind_eq_ok.2 ⟨decide_eq_false (by omega), rfl⟩

/-- A key hash goes in one byte of length. -/
theorem checkMinimalPush_hash (h : hash.length = 20) : checkMinimalPush hash 0x14 = true := by
  rcases hash with _ | ⟨a, _ | ⟨b, hash⟩⟩
  · cases h
  · cases h
  · rw [checkMinimalPush, if_pos (by omega), h]
    · rfl
    · simp
    · simp

/-- A minimal push goes through where there is room on the stack. -/
theorem evalInstruction_push (hex : s.vfExec = []) (hop : opcode ≤ opPushData4)
    (hp : vch.length ≤ maxScriptElementSize) (hm : checkMinimalPush vch opcode = true)
    (hsi : s.stack.length + 1 + s.altstack.length ≤ maxStackSize) :
    evalInstruction env s opcode vch rest = .ok ((s.counted opcode).withStack (vch :: s.stack)) := by
  have hlo : decide (vch.length > maxScriptElementSize) = false := decide_eq_false (by omega)
  have hc : decide (opcode > op16) = false := by
    have hle : opPushData4 ≤ op16 := by decide
    exact decide_eq_false (UInt8.not_lt.2 (UInt8.le_trans hop hle))
  have he : isDisabled opcode = false := by
    refine decide_eq_false fun hme => ?_
    have hl : ∀ o ∈ ([0x7e, 0x7f, 0x80, 0x81, 0x83, 0x84, 0x85, 0x86, 0x8d, 0x8e, 0x95, 0x96, 0x97,
        0x98, 0x99] : List UInt8), ¬o ≤ opPushData4 := by decide +kernel
    exact hl opcode hme hop
  have hr : decide ((vch :: s.stack).length + s.altstack.length > maxStackSize) = false := by
    rw [List.length_cons]
    exact decide_eq_false (by omega)
  unfold evalInstruction EvalState.counted EvalState.withStack
  simp only [hex, List.all_nil, hlo, hc, he, hop, hm, decide_true, Bool.false_and,
    Bool.true_and, Bool.not_true, Bool.and_false, if_true, pure_bind, hr]
  rfl

/-- Only the stack has changed, and the number of instructions. -/
structure EvalState.SameFrame (s s' : EvalState) : Prop where
  altstack : s'.altstack = s.altstack
  vfExec : s'.vfExec = s.vfExec
  pbegincodehash : s'.pbegincodehash = s.pbegincodehash

theorem EvalState.SameFrame.trans {s t u : EvalState} (h : s.SameFrame t) (h' : t.SameFrame u) :
    s.SameFrame u :=
  ⟨h'.altstack.trans h.altstack, h'.vfExec.trans h.vfExec, h'.pbegincodehash.trans h.pbegincodehash⟩

theorem sameFrame_counted_withStack (stack : List Str) : s.SameFrame ((s.counted opcode).withStack stack) :=
  ⟨rfl, rfl, rfl⟩

theorem stack_of_dup (h : evalInstruction env s opDup [] rest = .ok s') (he : s.vfExec = []) :
    ∃ x stack, s.stack = x :: stack ∧ s'.stack = x :: x :: stack ∧ s.SameFrame s' := by
  have hop : evalOp env (s.counted opDup) true rest (.stack .dup) = .ok s' :=
    evalOp_of_evalInstruction h he (by decide)
  unfold evalOp at hop
  have hc : (s.counted opDup).stack = s.stack := rfl
  cases hs : s.stack with
  | nil => simp [hc, hs, StackOp.apply] at hop
  | cons x stack =>
    simp only [hc, hs, StackOp.apply, Except.ok.injEq] at hop
    subst hop
    exact ⟨x, stack, rfl, rfl, sameFrame_counted_withStack _⟩

theorem stack_of_hash160 (h : evalInstruction env s opHash160 [] rest = .ok s') (he : s.vfExec = []) :
    ∃ x stack, s.stack = x :: stack ∧ s'.stack = env.hash160 x :: stack ∧ s.SameFrame s' := by
  have hop : evalOp env (s.counted opHash160) true rest (.hash .hash160) = .ok s' :=
    evalOp_of_evalInstruction h he (by decide)
  unfold evalOp at hop
  have hc : (s.counted opHash160).stack = s.stack := rfl
  cases hs : s.stack with
  | nil => simp [hc, hs] at hop
  | cons x stack =>
    simp only [hc, hs, Except.ok.injEq] at hop
    subst hop
    exact ⟨x, stack, rfl, rfl, sameFrame_counted_withStack _⟩

theorem stack_of_push (h : evalInstruction env s opcode vch rest = .ok s') (he : s.vfExec = [])
    (hop : opcode ≤ opPushData4) : s'.stack = vch :: s.stack ∧ s.SameFrame s' := by
  rw [eq_of_evalInstruction_push h he hop]
  exact ⟨rfl, sameFrame_counted_withStack _⟩

theorem stack_of_equalVerify (h : evalInstruction env s opEqualVerify [] rest = .ok s')
    (he : s.vfExec = []) : ∃ x, s.stack = x :: x :: s'.stack ∧ s.SameFrame s' := by
  have hop : evalOp env (s.counted opEqualVerify) true rest (.equal true) = .ok s' :=
    evalOp_of_evalInstruction h he (by decide)
  unfold evalOp at hop
  have hc : (s.counted opEqualVerify).stack = s.stack := rfl
  rcases hs : s.stack with _ | ⟨x, _ | ⟨y, stack⟩⟩
  · simp [hc, hs] at hop
  · simp [hc, hs] at hop
  · simp only [hc, hs, if_true] at hop
    split at hop
    next heq =>
      subst heq
      cases hop
      exact ⟨y, rfl, sameFrame_counted_withStack _⟩
    · cases hop

theorem stack_of_checkSig (h : evalInstruction env s opCheckSig [] rest = .ok s') (he : s.vfExec = []) :
    ∃ vchPubKey vchSig stack, s.stack = vchPubKey :: vchSig :: stack ∧
      s'.stack = boolVch (env.checkSig vchSig vchPubKey (scriptCode env s [vchSig]) env.sigversion) ::
        stack ∧ s.SameFrame s' := by
  have hop : evalOp env (s.counted opCheckSig) true rest (.checkSig false) = .ok s' :=
    evalOp_of_evalInstruction h he (by decide)
  unfold evalOp evalCheckSig at hop
  have hc : (s.counted opCheckSig).stack = s.stack := rfl
  rcases hs : s.stack with _ | ⟨vchPubKey, _ | ⟨vchSig, stack⟩⟩
  · simp [hc, hs] at hop
  · simp [hc, hs] at hop
  · simp only [hc, hs] at hop
    obtain ⟨-, -, hop⟩ := bind_eq_ok.1 hop
    obtain ⟨-, -, hop⟩ := bind_eq_ok.1 hop
    simp only [failIf_bind_eq_ok, Bool.false_eq_true, if_false, pure_eq_ok] at hop
    rw [← hop.2]
    exact ⟨vchPubKey, vchSig, stack, rfl, rfl, sameFrame_counted_withStack _⟩

theorem scriptCode_congr (h : s.SameFrame s') (vchSigs : List Str) :
    scriptCode env s' vchSigs = scriptCode env s vchSigs := by
  unfold scriptCode
  rw [h.pbegincodehash]

/-- The instructions of a payment to a key hash that were carried out to their end: the stack held the
key with that hash and a signature, and what is left in their place is the verdict on them. -/
theorem stack_of_payToPubKeyHash {more : CScript} (hha : hash.length = 20) (he : s.vfExec = [])
    (h : evalLoop env (fuel + 5) (payToPubKeyHash hash ++ more) s = .ok s') :
    ∃ vchPubKey vchSig stack t, s.stack = vchPubKey :: vchSig :: stack ∧ env.hash160 vchPubKey = hash ∧
      t.stack = boolVch (env.checkSig vchSig vchPubKey (scriptCode env s [vchSig]) env.sigversion) ::
        stack ∧ s.SameFrame t ∧ evalLoop env fuel more t = .ok s' := by
  rw [payToPubKeyHash_eq hha] at h
  have hp : CScript.getOp (0x14 :: (hash ++ [opEqualVerify, opCheckSig] ++ more)) =
      some (0x14, hash, opEqualVerify :: opCheckSig :: more) := by
    simp [CScript.getOp, opPushData1, hha]
  simp only [List.cons_append] at h
  obtain ⟨s1, h1, h⟩ := bind_eq_ok.1 h
  obtain ⟨vchPubKey, below, hst, hstack1, hframe1⟩ := stack_of_dup h1 he
  obtain ⟨s2, h2, h⟩ := bind_eq_ok.1 h
  have hexec1 := hframe1.vfExec.trans he
  obtain ⟨x, below2, hstack1', hstack2, hframe2⟩ := stack_of_hash160 h2 hexec1
  rw [evalLoop_of_getOp hp] at h
  obtain ⟨s3, h3, h⟩ := bind_eq_ok.1 h
  have hexec2 := hframe2.vfExec.trans hexec1
  obtain ⟨hstack3, hframe3⟩ := stack_of_push h3 hexec2 (by decide)
  obtain ⟨s4, h4, h⟩ := bind_eq_ok.1 h
  have hexec3 := hframe3.vfExec.trans hexec2
  obtain ⟨y, hstack3', hframe4⟩ := stack_of_equalVerify h4 hexec3
  obtain ⟨s5, h5, h⟩ := bind_eq_ok.1 h
  have hexec4 := hframe4.vfExec.trans hexec3
  obtain ⟨key, vchSig, stack, hstack4, hstack5, hframe5⟩ := stack_of_checkSig h5 hexec4
  -- the key that was hashed is the key of the signature check
  rw [hstack1] at hstack1'
  obtain ⟨rfl, rfl⟩ := List.cons.inj hstack1'
  rw [hstack3, hstack2, hstack4] at hstack3'
  simp only [List.cons.injEq] at hstack3'
  obtain ⟨rfl, hh, rfl, rfl⟩ := hstack3'
  have hf := ((hframe1.trans hframe2).trans hframe3).trans hframe4
  rw [scriptCode_congr hf] at hstack5
  exact ⟨vchPubKey, vchSig, stack, s5, hst, hh, hstack5, hf.trans hframe5, h⟩

/-- The asset opcode does nothing but count as a push of everything behind it. -/
theorem stack_of_asset (h : evalLoop env (fuel + 1) (opCmusicaiAsset :: payload) s = .ok s')
    (he : s.vfExec = []) :
    payload.length ≤ maxScriptElementSize ∧ s'.stack = s.stack ∧ s.SameFrame s' := by
  obtain ⟨s1, h1, h⟩ := bind_eq_ok.1 h
  have hop : evalOp env (s.counted opCmusicaiAsset) true [] .asset = .ok s1 :=
    evalOp_of_evalInstruction h1 he (by decide)
  have hp := (withinLimits_of_evalInstruction h1).push
  obtain rfl : s.counted opCmusicaiAsset = s1 := Except.ok.inj hop
  obtain rfl : s.counted opCmusicaiAsset = s' := Except.ok.inj (evalLoop_nil.symm.trans h)
  exact ⟨hp, rfl, rfl, rfl, rfl⟩

theorem length_payToAsset (h : hash.length = 20) (payload : Str) :
    (payToPubKeyHash hash ++ opCmusicaiAsset :: payload).length = (20 + payload.length) + 1 + 5 := by
  rw [payToPubKeyHash_eq h]
  simp only [List.length_append, List.length_cons, List.length_nil, h]
  omega

/-- What a successful evaluation of a payment to a key hash with a payload says. -/
theorem evalScript_payToPubKeyHash {stack out : List Str} (hha : hash.length = 20)
    (h : evalScript env stack (payToPubKeyHash hash ++ opCmusicaiAsset :: payload) = .ok out) :
    payload.length ≤ maxScriptElementSize ∧ ∃ vchPubKey vchSig rest, stack = vchPubKey :: vchSig :: rest ∧
      env.hash160 vchPubKey = hash ∧ out = boolVch (env.checkSig vchSig vchPubKey
        (scriptCode env ⟨stack, [], [], 0, payToPubKeyHash hash ++ opCmusicaiAsset :: payload⟩
          [vchSig]) env.sigversion) :: rest := by
  unfold evalScript at h
  simp only [failIf_bind_eq_ok] at h
  obtain ⟨-, h⟩ := h
  obtain ⟨s', hl, h⟩ := bind_eq_ok.1 h
  simp only [failIf_bind_eq_ok, pure_eq_ok] at h
  rw [length_payToAsset hha] at hl
  obtain ⟨vchPubKey, vchSig, rest, t, hst, hh, ht, hf, hl⟩ :=
    stack_of_payToPubKeyHash hha rfl hl
  obtain ⟨hp, hsa, -⟩ := stack_of_asset hl hf.vfExec
  refine ⟨hp, vchPubKey, vchSig, rest, hst, hh, ?_⟩
  rw [← h.2, hsa, ht]

end Evaluation

section Deletion

variable {b front rest : CScript} {opcode : UInt8} {vch vchSig hash payload : Str} {fuel : Nat}

/-- An instruction that does not begin with the bytes in question stays. -/
theorem findAndDeleteAux_skip (hb : ¬b <+: front ++ rest)
    (h : CScript.getOp (front ++ rest) = some (opcode, vch, rest)) :
    findAndDeleteAux b (fuel + 1) (front ++ rest) = front ++ findAndDeleteAux b fuel rest := by
  have hc : ∀ n, dropCopies b n (front ++ rest) = front ++ rest := by
    intro n
    cases n with
    | zero => rfl
    | succ n => rw [dropCopies, if_neg hb]
  rw [findAndDeleteAux]
  simp only [hc, h, List.length_append, Nat.add_sub_cancel, List.take_left]

theorem pushData_eq_cons (vch : Str) : ∃ c t, pushData [] vch = c :: t ∧ c ≤ opPushData4 := by
  unfold pushData
  split_ifs with hd
  · refine ⟨vch.length.toUInt8, vch, rfl, ?_⟩
    have hlt : vch.length < 76 := hd
    rw [UInt8.le_iff_toNat_le, opPushData4, Nat.toUInt8, UInt8.toNat_ofNat']
    have hm : vch.length % 2 ^ 8 = vch.length := Nat.mod_eq_of_lt (by omega)
    rw [hm]
    change vch.length ≤ 78
    omega
  · exact ⟨opPushData1, _, rfl, by decide⟩
  · exact ⟨opPushData2, _, rfl, by decide⟩
  · exact ⟨opPushData4, _, rfl, by decide⟩

theorem not_isPrefix_pushData (h : opPushData4 < opcode) : ¬pushData [] vch <+: opcode :: rest := by
  obtain ⟨c, t, hp, hc⟩ := pushData_eq_cons vch
  rw [hp, List.cons_prefix_cons]
  rintro ⟨rfl, -⟩
  exact UInt8.not_le.2 h hc

/-- The push of a key hash begins like the push of a signature only if they are the same. -/
theorem eq_of_isPrefix_pushData (hh : hash.length = 20)
    (h : pushData [] vchSig <+: 0x14 :: (hash ++ rest)) : vchSig = hash := by
  unfold pushData at h
  split_ifs at h with hd
  · have hlt : vchSig.length < 76 := hd
    rw [List.nil_append, List.singleton_append, List.cons_prefix_cons] at h
    obtain ⟨hb, hp⟩ := h
    have hl : vchSig.length = 20 := by
      have ht := congrArg UInt8.toNat hb
      rw [Nat.toUInt8, UInt8.toNat_ofNat'] at ht
      have hm : vchSig.length % 2 ^ 8 = vchSig.length := Nat.mod_eq_of_lt (by omega)
      rw [hm] at ht
      exact ht
    exact List.append_inj_left (List.prefix_iff_eq_append.1 hp) (by omega)
  all_goals
    rw [List.nil_append, List.cons_append, List.cons_prefix_cons] at h
    exact absurd h.1 (by decide)

theorem findAndDelete_payToPubKeyHash (hh : hash.length = 20) (hne : vchSig ≠ hash) :
    (payToPubKeyHash hash ++ opCmusicaiAsset :: payload).findAndDelete
      (pushData [] vchSig) = payToPubKeyHash hash ++ opCmusicaiAsset :: payload := by
  have hn : pushData [] vchSig ≠ [] := by
    obtain ⟨c, t, hp, -⟩ := pushData_eq_cons vchSig
    simp [hp]
  have hl : (payToPubKeyHash hash ++ opCmusicaiAsset :: payload).length + 1 =
      (20 + payload.length) + 1 + 6 := by
    rw [payToPubKeyHash_eq hh]
    simp only [List.length_append, List.length_cons, List.length_nil, hh]
    omega
  have hp : CScript.getOp ((0x14 :: hash) ++ (opEqualVerify :: opCheckSig :: opCmusicaiAsset :: payload))
      = some (0x14, hash, opEqualVerify :: opCheckSig :: opCmusicaiAsset :: payload) := by
    simp [CScript.getOp, opPushData1, hh]
  have hsh : payToPubKeyHash hash ++ opCmusicaiAsset :: payload =
      [opDup] ++ ([opHash160] ++ ((0x14 :: hash) ++ ([opEqualVerify] ++ ([opCheckSig] ++
        ((opCmusicaiAsset :: payload) ++ []))))) := by
    simp [payToPubKeyHash_eq hh]
  have ha : CScript.getOp ((opCmusicaiAsset :: payload) ++ []) = some (opCmusicaiAsset, payload, []) := by
    rw [List.append_nil]
    rfl
  rw [findAndDelete, if_neg hn, hl, hsh,
    findAndDeleteAux_skip (not_isPrefix_pushData (by decide)) rfl,
    findAndDeleteAux_skip (not_isPrefix_pushData (by decide)) rfl,
    findAndDeleteAux_skip (fun h => hne (eq_of_isPrefix_pushData hh h)) (by simpa using hp),
    findAndDeleteAux_skip (not_isPrefix_pushData (by decide)) rfl,
    findAndDeleteAux_skip (not_isPrefix_pushData (by decide)) rfl,
    findAndDeleteAux_skip (not_isPrefix_pushData (by decide)) ha]
  rfl

end Deletion

section Custody

variable {env : Env} {script : CScript}

/-- The output belongs to the key that its address names: the front of the script is a payment to that
key, and whoever makes the interpreter succeed has shown the key and a signature that passes under it. -/
def KeepsCustody (env : Env) (script : CScript) : Prop :=
  ∃ hash, extractDestination env script = some (.keyID hash) ∧
    script.take 25 = CScript.payToPubKeyHash hash ∧
    ∀ (senv : ScriptEnv) (stack out : List Str), evalScript senv stack script = .ok out →
      out.head?.any castToBool = true →
      ∃ vchPubKey vchSig rest, stack = vchPubKey :: vchSig :: rest ∧ senv.hash160 vchPubKey = hash ∧
        senv.checkSig vchSig vchPubKey (scriptCode senv ⟨stack, [], [], 0, script⟩ [vchSig])
          senv.sigversion = true

/-- Custody of an asset output hangs on five bytes that `IsAssetScript` does not look at. -/
theorem keepsCustody_iff (h : (CScript.isAssetScript script).isSome = true) :
    KeepsCustody env script ↔ script.hasPubKeyHashFront = true := by
  obtain ⟨a, ha⟩ := Option.isSome_iff_exists.1 h
  have hkey := length_keyBytes ha
  constructor
  · rintro ⟨hash, hd, ht, -⟩
    rw [extractDestination_of_isAssetScript ha] at hd
    cases hd
    exact hasPubKeyHashFront_of_take ha ht
  · intro hf
    have hsc := eq_of_hasPubKeyHashFront ha hf
    refine ⟨_, extractDestination_of_isAssetScript ha, ?_, ?_⟩
    · nth_rewrite 1 [hsc]
      refine List.take_left' ?_
      rw [payToPubKeyHash_eq hkey]
      simp [hkey]
    · intro senv stack out he hto
      rw [hsc] at he
      obtain ⟨-, vchPubKey, vchSig, rest, hst, hh, hout⟩ := evalScript_payToPubKeyHash hkey he
      rw [← hsc] at hout
      refine ⟨vchPubKey, vchSig, rest, hst, hh, ?_⟩
      rw [hout] at hto
      cases hsi : senv.checkSig vchSig vchPubKey (scriptCode senv ⟨stack, [], [], 0, script⟩ [vchSig])
          senv.sigversion with
      | true => rfl
      | false =>
        rw [hsi] at hto
        cases hto

/-- A transfer whose front is one push of twenty-four bytes. -/
def openScript : CScript :=
  0x18 :: List.replicate 24 1 ++ (sampleTransfer "MUSIC" 1).scriptPubKey.drop 25

theorem keepsCustody_iff_sampleTransfer :
    (CScript.isAssetScript (sampleTransfer "MUSIC" 1).scriptPubKey).isSome = true ∧
      (KeepsCustody sampleEnv (sampleTransfer "MUSIC" 1).scriptPubKey ↔
        (sampleTransfer "MUSIC" 1).scriptPubKey.hasPubKeyHashFront = true) :=
  ⟨by decide +kernel, keepsCustody_iff (by decide +kernel)⟩

theorem evalScript_openScript (senv : ScriptEnv) :
    evalScript senv [] openScript = .ok [List.replicate 24 1] := by
  have hl : openScript.length = 44 + 1 + 1 := by decide +kernel
  have hg : CScript.getOp openScript = some (0x18, List.replicate 24 1, opCmusicaiAsset ::
      openScript.drop 26) := by decide +kernel
  have hf : ∀ rest, evalInstruction senv ⟨[], [], [], 0, openScript⟩ 0x18 (List.replicate 24 1) rest =
      .ok ⟨[List.replicate 24 1], [], [], 0, openScript⟩ := fun _ =>
    evalInstruction_push rfl (by decide) (by decide) (by decide) (by decide)
  have hb : evalInstruction senv ⟨[List.replicate 24 1], [], [], 0, openScript⟩ opCmusicaiAsset
      (openScript.drop 26) [] = .ok ⟨[List.replicate 24 1], [], [], 1, openScript⟩ := rfl
  have hlo : evalLoop senv (44 + 1 + 1) openScript ⟨[], [], [], 0, openScript⟩ =
      .ok ⟨[List.replicate 24 1], [], [], 1, openScript⟩ := by
    rw [evalLoop_step hg (hf _)]
    exact evalLoop_step rfl hb
  rw [evalScript, hl, hlo]
  rfl

/-- An accepted output that is booked on a key and that anybody can spend without a signature. -/
theorem openScript_not_keepsCustody :
    Accepted sampleEnv (sampleGlobals sampleMusic) {} (sampleView (sampleTransfer "MUSIC" 1))
      (sampleTx [⟨0, openScript⟩]) ∧
    (CScript.isAssetScript openScript).isSome = true ∧
    extractDestination sampleEnv openScript = some (.keyID (List.replicate 20 1)) ∧
    (∀ senv : ScriptEnv, evalScript senv [] openScript = .ok [List.replicate 24 1]) ∧
    ¬KeepsCustody sampleEnv openScript := by
  have ha : (isAssetScript openScript).isSome = true := by decide +kernel
  refine ⟨accepted_of_checks (by decide) (by decide +kernel) (by decide +kernel), ha,
    by decide +kernel, evalScript_openScript, ?_⟩
  rintro ⟨hash, -, ht, -⟩
  have hh : (openScript.take 25).head? = some 0x18 := by decide +kernel
  rw [ht] at hh
  exact absurd (Option.some.inj hh) (by decide)

end Custody

section Spending

variable {senv : ScriptEnv} {hash payload vchSig vchPubKey : Str}

/-- A signature that passes under a key, with encodings that the flags allow. -/
structure ValidFor (senv : ScriptEnv) (script : CScript) (vchSig vchPubKey : Str) : Prop where
  sigEncoding : checkSignatureEncoding senv vchSig = .ok ()
  keyEncoding : checkPubKeyEncoding senv vchPubKey = .ok ()
  valid : senv.checkSig vchSig vchPubKey script senv.sigversion = true

theorem evalScript_of_validFor (hha : hash.length = 20) (hkey : senv.hash160 vchPubKey = hash)
    (hne : vchSig ≠ hash) (hpa : payload.length ≤ maxScriptElementSize)
    (h : ValidFor senv (payToPubKeyHash hash ++ opCmusicaiAsset :: payload) vchSig vchPubKey) :
    evalScript senv [vchPubKey, vchSig] (payToPubKeyHash hash ++ opCmusicaiAsset :: payload) =
      .ok [vchTrue] := by
  have hl := length_payToAsset hha payload
  have hsi : decide ((payToPubKeyHash hash ++ opCmusicaiAsset :: payload).length >
      maxScriptSize) = false := by
    have hm : maxScriptElementSize = 520 := rfl
    exact decide_eq_false (by rw [hl, maxScriptSize]; omega)
  have hsh : payToPubKeyHash hash ++ opCmusicaiAsset :: payload = opDup :: opHash160 :: 0x14 ::
      (hash ++ opEqualVerify :: opCheckSig :: opCmusicaiAsset :: payload) := by
    simp [payToPubKeyHash_eq hha]
  have hd : scriptCode senv ⟨[vchPubKey, vchSig], [], [], 4,
      payToPubKeyHash hash ++ opCmusicaiAsset :: payload⟩ [vchSig] =
        payToPubKeyHash hash ++ opCmusicaiAsset :: payload := by
    unfold scriptCode
    split
    · exact findAndDelete_payToPubKeyHash hha hne
    · rfl
  have hg : CScript.getOp (0x14 :: (hash ++ opEqualVerify :: opCheckSig :: opCmusicaiAsset :: payload)) =
      some (0x14, hash, opEqualVerify :: opCheckSig :: opCmusicaiAsset :: payload) := by
    simp [CScript.getOp, opPushData1, hha]
  -- the loop keeps the script code apart from what is left to read
  generalize hco : payToPubKeyHash hash ++ opCmusicaiAsset :: payload = code at *
  have hdu : ∀ rest, evalInstruction senv ⟨[vchPubKey, vchSig], [], [], 0, code⟩ opDup [] rest =
      .ok ⟨[vchPubKey, vchPubKey, vchSig], [], [], 1, code⟩ := fun _ => rfl
  have hh : ∀ rest, evalInstruction senv ⟨[vchPubKey, vchPubKey, vchSig], [], [], 1, code⟩ opHash160
      [] rest = .ok ⟨[senv.hash160 vchPubKey, vchPubKey, vchSig], [], [], 2, code⟩ := fun _ => rfl
  have hp : ∀ rest, evalInstruction senv ⟨[hash, vchPubKey, vchSig], [], [], 2, code⟩ 0x14 hash rest =
      .ok ⟨[hash, hash, vchPubKey, vchSig], [], [], 2, code⟩ := by
    intro rest
    refine evalInstruction_push rfl (by decide) (by rw [hha]; decide) (checkMinimalPush_hash hha) ?_
    exact Nat.le_of_ble_eq_true rfl
  have he : ∀ rest, evalInstruction senv ⟨[hash, hash, vchPubKey, vchSig], [], [], 2, code⟩
      opEqualVerify [] rest = .ok ⟨[vchPubKey, vchSig], [], [], 3, code⟩ := by
    intro rest
    refine evalInstruction_of_evalOp rfl (by decide) ⟨Nat.zero_le _, fun _ => ?_, rfl⟩ ?_ ?_
    · exact Nat.le_of_ble_eq_true rfl
    · exact if_pos rfl
    · exact Nat.le_of_ble_eq_true rfl
  have hc : ∀ rest, evalInstruction senv ⟨[vchPubKey, vchSig], [], [], 3, code⟩ opCheckSig [] rest =
      .ok ⟨[vchTrue], [], [], 4, code⟩ := by
    intro rest
    refine evalInstruction_of_evalOp rfl (by decide) ⟨Nat.zero_le _, fun _ => ?_, rfl⟩ ?_ ?_
    · exact Nat.le_of_ble_eq_true rfl
    · change evalCheckSig senv ⟨[vchPubKey, vchSig], [], [], 4, code⟩ false = _
      unfold evalCheckSig
      simp only [h.sigEncoding, h.keyEncoding, hd, h.valid]
      rfl
    · exact Nat.le_of_ble_eq_true rfl
  have ha : evalInstruction senv ⟨[vchTrue], [], [], 4, code⟩ opCmusicaiAsset payload [] =
      .ok ⟨[vchTrue], [], [], 5, code⟩ := by
    refine evalInstruction_of_evalOp rfl (by decide) ⟨hpa, fun _ => ?_, rfl⟩ rfl ?_
    · exact Nat.le_of_ble_eq_true rfl
    · exact Nat.le_of_ble_eq_true rfl
  have hlo : evalLoop senv (20 + payload.length + 1 + 5) code ⟨[vchPubKey, vchSig], [], [], 0, code⟩ =
      .ok ⟨[vchTrue], [], [], 5, code⟩ := by
    calc evalLoop senv (20 + payload.length + 1 + 5) code ⟨[vchPubKey, vchSig], [], [], 0, code⟩
      _ = evalLoop senv (20 + payload.length + 1 + 4) _ ⟨[vchPubKey, vchPubKey, vchSig], [], [], 1, code⟩ :=
        evalLoop_step (by rw [hsh]; rfl) (hdu _)
      _ = evalLoop senv (20 + payload.length + 1 + 3) _ ⟨[hash, vchPubKey, vchSig], [], [], 2, code⟩ :=
        evalLoop_step rfl (hkey ▸ hh _)
      _ = evalLoop senv (20 + payload.length + 1 + 2) _ ⟨[hash, hash, vchPubKey, vchSig], [], [], 2, code⟩ :=
        evalLoop_step hg (hp _)
      _ = evalLoop senv (20 + payload.length + 1 + 1) _ ⟨[vchPubKey, vchSig], [], [], 3, code⟩ :=
        evalLoop_step rfl (he _)
      _ = evalLoop senv (20 + payload.length + 1) _ ⟨[vchTrue], [], [], 4, code⟩ :=
        evalLoop_step rfl (hc _)
      _ = .ok ⟨[vchTrue], [], [], 5, code⟩ := (evalLoop_step rfl ha).trans evalLoop_nil
  rw [evalScript, hsi, hl, hlo]
  rfl

/-- The holder of the key can spend an asset output exactly when no more than 520 bytes follow the asset
opcode; the decoders accept any number of them. -/
theorem spendable_iff {script : CScript} (hasset : (CScript.isAssetScript script).isSome = true)
    (hfront : script.hasPubKeyHashFront = true) (hkey : senv.hash160 vchPubKey = (script.drop 3).take 20)
    (hne : vchSig ≠ (script.drop 3).take 20) (hvalid : ValidFor senv script vchSig vchPubKey) :
    (∃ out, evalScript senv [vchPubKey, vchSig] script = .ok out ∧ out.head?.any castToBool = true) ↔
      script.length ≤ 546 := by
  obtain ⟨a, ha⟩ := Option.isSome_iff_exists.1 hasset
  have hsc := eq_of_hasPubKeyHashFront ha hfront
  have hm : maxScriptElementSize = 520 := rfl
  have hp : (script.drop 26).length = script.length - 26 := List.length_drop
  constructor
  · rintro ⟨out, he, -⟩
    rw [hsc] at he
    have hpu := (evalScript_payToPubKeyHash (length_keyBytes ha) he).1
    omega
  · intro hle
    refine ⟨[vchTrue], ?_, rfl⟩
    have he : evalScript senv [vchPubKey, vchSig] (payToPubKeyHash ((script.drop 3).take 20) ++
        opCmusicaiAsset :: script.drop 26) = .ok [vchTrue] := by
      apply evalScript_of_validFor (length_keyBytes ha) hkey hne
      · omega
      · rw [← hsc]
        exact hvalid
    rw [← hsc] at he
    exact he

/-- A checker that accepts every signature, and hashes that are the data itself. -/
def lenientEnv : ScriptEnv where
  flags := {}
  sigversion := .base
  checkSig _ _ _ _ := true
  checkLockTime _ := true
  checkSequence _ := true
  checkLowS _ := true
  ripemd160 := id
  sha1 := id
  sha256 := id
  hash160 := id
  hash256 := id

theorem spendable_iff_sampleTransfer :
    (∃ out, evalScript lenientEnv [List.replicate 20 1, [1]] (sampleTransfer "MUSIC" 1).scriptPubKey =
      .ok out ∧ out.head?.any castToBool = true) ↔
      (sampleTransfer "MUSIC" 1).scriptPubKey.length ≤ 546 :=
  spendable_iff (by decide +kernel) (by decide +kernel) (by decide +kernel) (by decide +kernel)
    ⟨rfl, rfl, rfl⟩

/-- A transfer with 520 bytes behind its payload. -/
def longScript : CScript :=
  sampleScript ++ [opCmusicaiAsset, 0x30, cmusicaiN, cmusicaiE, cmusicaiX, cmusicaiT] ++
    CAssetTransfer.serialize { strName := str "MUSIC", nAmount := 1 } ++ List.replicate 520 0

/-- An accepted output in the set of unspent ones that the holder of its key cannot spend. -/
theorem longScript_not_spendable :
    Accepted sampleEnv (sampleGlobals sampleMusic) {} (sampleView (sampleTransfer "MUSIC" 1))
      (sampleTx [⟨0, longScript⟩]) ∧
    (CScript.isAssetScript longScript).isSome = true ∧ longScript.hasPubKeyHashFront = true ∧
    longScript.length ≤ maxScriptSize ∧ longScript.isUnspendable = false ∧
    lenientEnv.hash160 (List.replicate 20 1) = (longScript.drop 3).take 20 ∧
    ValidFor lenientEnv longScript [1] (List.replicate 20 1) ∧
    ¬∃ out, evalScript lenientEnv [List.replicate 20 1, [1]] longScript = .ok out := by
  have hsh : longScript = payToPubKeyHash (List.replicate 20 1) ++
      opCmusicaiAsset :: longScript.drop 26 := by decide +kernel
  refine ⟨accepted_of_checks (by decide) (by decide +kernel) (by decide +kernel), by decide +kernel,
    by decide +kernel, by decide +kernel, by decide +kernel, by decide +kernel, ⟨rfl, rfl, rfl⟩, ?_⟩
  rintro ⟨out, he⟩
  rw [hsh] at he
  have hp := (evalScript_payToPubKeyHash (by decide) he).1
  exact absurd hp (by decide +kernel)

end Spending

end Cmusic
