import Cmusic.AssetScripts

/-! Verifier strings of restricted assets: the Boolean expression evaluator and its checks. -/
namespace Cmusic

namespace LibBoolEE

def isAlnum (c : UInt8) : Bool := isUpper c || isLower c || isDigit c

def isSpace (c : UInt8) : Bool := c = 32 || (9 ≤ c && c ≤ 13)

def belongsToName (c : UInt8) : Bool := isAlnum c || isOneOf "_#." c

def removeWhitespaces (source : Str) : Str := source.filter fun c => !isSpace c

def removeCharacter (source : Str) (ch : UInt8) : Str := source.filter (· ≠ ch)

/-- `startPos` is `none` where the source has -1. -/
structure ParseState where
  startPos : Option Nat := none
  parityCount : Int := 0
  subexpressions : List Str := []

def singleParseStep (formula : Str) (op : UInt8) (st : ParseState) (ic : UInt8 × Nat) :
    Option ParseState :=
  let (c, i) := ic
  if isOneOf ")" c then some { st with parityCount := st.parityCount - 1 }
  else if isOneOf "(" c then
    some { st with parityCount := st.parityCount + 1, startPos := st.startPos <|> some i }
  else if st.parityCount = 0 then
    match st.startPos with
    | none =>
      if belongsToName c || isOneOf "!" c then some { st with startPos := some i } else some st
    | some start =>
      if belongsToName c || isOneOf "!" c then some st
      else if c = op then
        let sub := (formula.drop start).take (i - start)
        some { st with subexpressions := st.subexpressions ++ [sub], startPos := some (i + 1) }
      else if isOneOf "&|" c then some st
      else none
  else some st

/-- Splits at the top-level occurrences of `op`; `none` stands for the exception. -/
def singleParse (formula : Str) (op : UInt8) : Option (List Str) := do
  let st ← formula.zipIdx.foldlM (singleParseStep formula op) {}
  if st.parityCount ≠ 0 then none
  else match st.startPos with
    | none => some st.subexpressions
    | some start => some (st.subexpressions ++ [formula.drop start])

/-- `resolveRec`; every recursive call is on a shorter formula, so the length is enough fuel. -/
def resolveRec (valuation : Str → Option Bool) : Nat → Str → Option Bool
  | 0, _ => none
  | fuel + 1, source => do
    if source = [] then none
    else
      let resolve (s : Str) := resolveRec valuation fuel (removeWhitespaces s)
      let ors ← singleParse source 124
      if ors.length > 1 then
        return (← ors.mapM resolve).any id
      else
        -- an empty first parse is not repeated in the source
        let ands ← if ors.length = 1 then singleParse source 38 else some ors
        if ands.length > 1 then
          return (← ands.mapM resolve).all id
        else if ands.length = 0 then none
        else if source.head? = some 33 then
          return !(← resolve (source.drop 1))
        else if source.head? = some 40 then
          resolve ((source.drop 1).take (source.length - 2))
        else if source = str "1" then some true
        else if source = str "0" then some false
        else valuation source

def resolve (source : Str) (valuation : Str → Option Bool) : Option Bool :=
  resolveRec valuation (source.length + 1) (removeWhitespaces source)

end LibBoolEE

def qualifierChar : UInt8 := 35

def restrictedChar : UInt8 := 36

/-- The maximal runs of characters of `[A-Z0-9_.]`, in order of appearance. -/
def nameRuns (s : Str) : List Str :=
  (s.splitOnP fun c => !isNameChar c).filter (· ≠ [])

def extractVerifierStringQualifiers (verifier : Str) : Std.TreeSet Str :=
  Std.TreeSet.ofList (nameRuns verifier)

def getStrippedVerifierString (verifier : Str) : Str :=
  LibBoolEE.removeCharacter (LibBoolEE.removeWhitespaces verifier) qualifierChar

/-- `CheckVerifierString`; on success, the qualifiers found. -/
def checkVerifierString (verifier : Str) : Except Str (Std.TreeSet Str) := do
  if verifier = str "true" then return ∅
  if verifier = [] then
    throw (str "Verifier string can not be empty. To default to true, use \"true\"")
  let strippedVerifier := getStrippedVerifierString verifier
  if strippedVerifier.length > 80 then
    throw (str "Verifier string has length greater than 80 after whitespaces and '#' are removed")
  let found := extractVerifierStringQualifiers strippedVerifier
  match found.toList.find? fun q => !isQualifierNameValid (qualifierChar :: q) with
  | some q => throw (str "bad-txns-null-verifier-invalid-asset-name-" ++ q)
  | none =>
    match LibBoolEE.resolve verifier fun q => if found.contains q then some true else none with
    | some _ => return found
    | none => throw (str "bad-txns-null-verifier-failed-syntax-check")

def checkVerifierAssetTxOut (txout : CTxOut) : Except Str Unit := do
  match assetNullVerifierDataFromScript txout.scriptPubKey with
  | none => throw (str "bad-txns-null-verifier-data-serialization")
  | some verifier =>
    if verifier.verifierString.contains 32 then
      throw (str "bad-txns-null-verifier-data-contained-whitespaces")
    if verifier.verifierString.contains qualifierChar then
      throw (str "bad-txns-null-verifier-data-contained-qualifier-character-#")
    let _ ← checkVerifierString verifier.verifierString

def verifyNullAssetDataFlag (flag : Int8) : Except Str Unit :=
  if flag ≠ 0 && flag ≠ 1 then throw (str "bad-txns-null-data-flag-must-be-0-or-1") else .ok ()

end Cmusic
