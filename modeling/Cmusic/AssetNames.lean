import Cmusic.AssetTypes
import Cmusic.Lib.Pattern

/-! Which asset names are valid, the type a name has, and the names derived from it. -/
namespace Cmusic

open Pattern

def maxNameLength : Nat := 31

def maxChannelNameLength : Nat := 12

def isOneOf (s : String) (c : UInt8) : Bool := (str s).contains c

def isUpper (c : UInt8) : Bool := 65 ≤ c && c ≤ 90

def isLower (c : UInt8) : Bool := 97 ≤ c && c ≤ 122

def isDigit (c : UInt8) : Bool := 48 ≤ c && c ≤ 57

/-- The class `[A-Z0-9._]`. -/
def isNameChar (c : UInt8) : Bool := isUpper c || isDigit c || isOneOf "._" c

/-- The class `[-A-Za-z0-9@$%&*()[\]{}_.?:]`. -/
def isUniqueTagChar (c : UInt8) : Bool :=
  isUpper c || isLower c || isDigit c || isOneOf "-@$%&*()[]\x7b\x7d_.?:" c

/-- The class `[A-Za-z0-9_]`. -/
def isMsgChannelTagChar (c : UInt8) : Bool := isUpper c || isLower c || isDigit c || isOneOf "_" c

/-- The class `[._]`. -/
def isPunctuation : UInt8 → Bool := isOneOf "._"

/-- The wildcard, which excludes the line terminators. -/
def isAny (c : UInt8) : Bool := !(c = 10 || c = 13)

def notOneOf (s : String) (c : UInt8) : Bool := !isOneOf s c

def rootNameCharacters : List (Atom UInt8) := [atLeast 3 isNameChar]

def subNameCharacters : List (Atom UInt8) := [atLeast 1 isNameChar]

def uniqueTagCharacters : List (Atom UInt8) := [atLeast 1 isUniqueTagChar]

def msgChannelTagCharacters : List (Atom UInt8) := [atLeast 1 isMsgChannelTagChar]

def voteTagCharacters : List (Atom UInt8) := [atLeast 1 isNameChar]

def qualifierNameCharacters : List (Atom UInt8) := [one (isOneOf "#"), atLeast 3 isNameChar]

def subQualifierNameCharacters : List (Atom UInt8) := [one (isOneOf "#"), atLeast 1 isNameChar]

def restrictedNameCharacters : List (Atom UInt8) := [one (isOneOf "$"), atLeast 3 isNameChar]

def doublePunctuation : List (Atom UInt8) :=
  [atLeast 0 isAny, atLeast 2 isPunctuation, atLeast 0 isAny]

def leadingPunctuation : List (Atom UInt8) := [one isPunctuation, atLeast 0 isAny]

def trailingPunctuation : List (Atom UInt8) := [atLeast 0 isAny, one isPunctuation]

def qualifierLeadingPunctuation : List (Atom UInt8) :=
  [one (isOneOf "#$"), one isPunctuation, atLeast 0 isAny]

/-- A tag behind `delim`, the shape of unique, channel and vote names. -/
def tagIndicator (delim : String) : List (Atom UInt8) :=
  [atLeast 1 (notOneOf "^~#!"), one (isOneOf delim), atLeast 1 (notOneOf "~#!/")]

def uniqueIndicator : List (Atom UInt8) := tagIndicator "#"

def msgChannelIndicator : List (Atom UInt8) := tagIndicator "~"

def voteIndicator : List (Atom UInt8) := tagIndicator "^"

def ownerIndicator : List (Atom UInt8) := [atLeast 1 (notOneOf "^~#!"), one (isOneOf "!")]

def qualifierIndicator : List (Atom UInt8) := [one (isOneOf "#"), atLeast 3 isNameChar]

def subQualifierIndicator : List (Atom UInt8) :=
  [one (isOneOf "#"), atLeast 1 isNameChar, one (isOneOf "/"), one (isOneOf "#"),
    atLeast 1 isNameChar]

def restrictedIndicator : List (Atom UInt8) := [one (isOneOf "$"), atLeast 3 isNameChar]

/-- The alternatives of `CMUSICAI_NAMES`. -/
def cmusicaiNames : List Str :=
  [str "RVN", str "RAVEN", str "RAVENCOIN", str "#RVN", str "#RAVEN", str "#RAVENCOIN",
    str "cmusicai", str "CMS", str "CMUSICAICOIN", str "#cmusicai", str "#CMS",
    str "#CMUSICAICOIN"]

def isRootNameValid (name : Str) : Bool :=
  Matches rootNameCharacters name && !Matches doublePunctuation name &&
    !Matches leadingPunctuation name && !Matches trailingPunctuation name &&
    !cmusicaiNames.contains name

def isQualifierNameValid (name : Str) : Bool :=
  Matches qualifierNameCharacters name && !Matches doublePunctuation name &&
    !Matches qualifierLeadingPunctuation name && !Matches trailingPunctuation name &&
    !cmusicaiNames.contains name

def isRestrictedNameValid (name : Str) : Bool :=
  Matches restrictedNameCharacters name && !Matches doublePunctuation name &&
    !Matches leadingPunctuation name && !Matches trailingPunctuation name &&
    !cmusicaiNames.contains name

def isSubQualifierNameValid (name : Str) : Bool :=
  Matches subQualifierNameCharacters name && !Matches doublePunctuation name &&
    !Matches leadingPunctuation name && !Matches trailingPunctuation name

def isSubNameValid (name : Str) : Bool :=
  Matches subNameCharacters name && !Matches doublePunctuation name &&
    !Matches leadingPunctuation name && !Matches trailingPunctuation name

def isUniqueTagValid (tag : Str) : Bool := Matches uniqueTagCharacters tag

def isVoteTagValid (tag : Str) : Bool := Matches voteTagCharacters tag

def isMsgChannelTagValid (tag : Str) : Bool :=
  Matches msgChannelTagCharacters tag && !Matches doublePunctuation tag &&
    !Matches leadingPunctuation tag && !Matches trailingPunctuation tag

def subNameDelimiter : UInt8 := 47

def uniqueTagDelimiter : UInt8 := 35

def msgChannelTagDelimiter : UInt8 := 126

def voteTagDelimiter : UInt8 := 94

/-- First and last part of the split at a delimiter; a split is never empty. -/
def frontPart (delim : UInt8) (name : Str) : Str := (name.splitOn delim).headD []

def backPart (delim : UInt8) (name : Str) : Str := (name.splitOn delim).getLastD []

def isNameValidBeforeTag (name : Str) : Bool :=
  isRootNameValid (frontPart subNameDelimiter name) &&
    (name.splitOn subNameDelimiter).tail.all isSubNameValid

def isQualifierNameValidBeforeTag (name : Str) : Bool :=
  isQualifierNameValid (frontPart subNameDelimiter name) &&
    (name.splitOn subNameDelimiter).length ≤ 2 &&
    (name.splitOn subNameDelimiter).tail.all isSubQualifierNameValid

def isAssetNameASubasset (name : Str) : Bool :=
  isRootNameValid (frontPart subNameDelimiter name) &&
    (name.splitOn subNameDelimiter).length > 1

def isAssetNameASubQualifier (name : Str) : Bool :=
  isQualifierNameValid (frontPart subNameDelimiter name) &&
    (name.splitOn subNameDelimiter).length > 1

/-- `IsTypeCheckNameValid`; on failure, the text left in `error`. -/
def isTypeCheckNameValid (type : AssetType) (name : Str) : Except Str Unit := do
  let failIf (cond : Bool) (error : String) := Fallible.failIf cond (str error)
  match type with
  | .unique =>
    failIf (name.length > maxNameLength) "Name is greater than max length of 31"
    failIf (!(isNameValidBeforeTag (frontPart uniqueTagDelimiter name) &&
        isUniqueTagValid (backPart uniqueTagDelimiter name)))
      "Unique name contains invalid characters (Valid characters are: A-Z a-z 0-9 @ $ % & * ( ) [ ] \x7b \x7d _ . ? : -)"
  | .msgChannel =>
    failIf (name.length > maxNameLength) "Name is greater than max length of 31"
    failIf ((backPart msgChannelTagDelimiter name).length > maxChannelNameLength)
      "Channel name is greater than max length of 12"
    failIf (!(isNameValidBeforeTag (frontPart msgChannelTagDelimiter name) &&
        isMsgChannelTagValid (backPart msgChannelTagDelimiter name)))
      "Message Channel name contains invalid characters (Valid characters are: A-Z 0-9 _ .) (special characters can't be the first or last characters)"
  | .owner =>
    failIf (name.length > maxNameLength) "Name is greater than max length of 31"
    failIf (!isNameValidBeforeTag name.dropLast)
      "Owner name contains invalid characters (Valid characters are: A-Z 0-9 _ .) (special characters can't be the first or last characters)"
  | .vote =>
    failIf (name.length > maxNameLength) "Name is greater than max length of 31"
    failIf (!(isNameValidBeforeTag (frontPart voteTagDelimiter name) &&
        isVoteTagValid (backPart voteTagDelimiter name)))
      "Vote name contains invalid characters (Valid characters are: A-Z 0-9 _ .) (special characters can't be the first or last characters)"
  | .qualifier | .subQualifier =>
    failIf (name.length > maxNameLength) "Name is greater than max length of 31"
    failIf (!isQualifierNameValidBeforeTag name)
      "Qualifier name contains invalid characters (Valid characters are: A-Z 0-9 _ .) (# must be the first character, _ . special characters can't be the first or last characters)"
  | .restricted =>
    failIf (name.length > maxNameLength) "Name is greater than max length of 31"
    failIf (!isRestrictedNameValid name)
      "Restricted name contains invalid characters (Valid characters are: A-Z 0-9 _ .) ($ must be the first character, _ . special characters can't be the first or last characters)"
  | _ =>
    failIf (name.length > maxNameLength - 1) "Name is greater than max length of 30"
    failIf (!isAssetNameASubasset name && name.length < minAssetLength)
      "Name must be contain 3 characters"
    failIf (!isNameValidBeforeTag name && isAssetNameASubasset name && name.length < 3)
      "Name must have at least 3 characters (Valid characters are: A-Z 0-9 _ .)"
    failIf (!isNameValidBeforeTag name)
      "Name contains invalid characters (Valid characters are: A-Z 0-9 _ .) (special characters can't be the first or last characters)"

/-- The type a name is checked against, decided by the first indicator it matches. -/
def indicatedType (name : Str) : AssetType :=
  if Matches uniqueIndicator name then .unique
  else if Matches msgChannelIndicator name then .msgChannel
  else if Matches ownerIndicator name then .owner
  else if Matches voteIndicator name then .vote
  else if Matches qualifierIndicator name then .qualifier
  else if Matches subQualifierIndicator name then .subQualifier
  else if Matches restrictedIndicator name then .restricted
  else if isAssetNameASubasset name then .sub
  else .root

/-- `IsAssetNameValid(name, assetType, error)`: the type of a valid name, or the error text. -/
def isAssetNameValid (name : Str) : Except Str AssetType := do
  if name.length > 40 then .error []
  else
    let type := indicatedType name
    isTypeCheckNameValid type name
    match type with
    | .qualifier => return if isAssetNameASubQualifier name then .subQualifier else .qualifier
    | .subQualifier => return if isAssetNameASubQualifier name then .subQualifier else .invalid
    | type => return type

/-- The type of `name` when it is valid. -/
def assetNameType (name : Str) : Option AssetType := (isAssetNameValid name).toOption

def isAssetNameOk (name : Str) : Bool := (assetNameType name).isSome

def isAssetNameAnOwner (name : Str) : Bool := isAssetNameOk name && Matches ownerIndicator name

def isAssetNameAnRestricted (name : Str) : Bool :=
  isAssetNameOk name && Matches restrictedIndicator name

def isAssetNameAQualifier (name : Str) (fOnlyQualifiers : Bool) : Bool :=
  if fOnlyQualifiers then isAssetNameOk name && Matches qualifierIndicator name
  else isAssetNameOk name &&
    (Matches qualifierIndicator name || Matches subQualifierIndicator name)

def restrictedNameToOwnerName (name : Str) : Str :=
  if isAssetNameAnRestricted name then name.drop 1 ++ ownerTag else []

/-- The text before the last `delim`, or the whole name when there is none. -/
def beforeLast (delim : UInt8) (name : Str) : Str :=
  if name.contains delim then
    ((name.reverse.dropWhile (· ≠ delim)).drop 1).reverse
  else name

def getParentName (name : Str) : Str :=
  match assetNameType name with
  | none => []
  | some .sub | some .subQualifier => beforeLast subNameDelimiter name
  | some .unique => beforeLast uniqueTagDelimiter name
  | some .msgChannel => beforeLast msgChannelTagDelimiter name
  | some .vote => beforeLast voteTagDelimiter name
  | some _ => name

theorem beforeLast_append {delim : UInt8} {front tag : Str} (h : delim ∉ tag) :
    beforeLast delim (front ++ delim :: tag) = front := by
  have hd : (tag.reverse ++ delim :: front.reverse).dropWhile (fun c => !decide (c = delim)) =
      delim :: front.reverse := by
    rw [List.dropWhile_append_of_pos]
    · simp
    · intro c hc
      have hne : c ≠ delim := fun heq => h (heq ▸ List.mem_reverse.1 hc)
      simpa using hne
  simp [beforeLast, hd]

variable {name : Str}

theorem exists_of_matches_uniqueIndicator (h : Matches uniqueIndicator name) :
    ∃ front tag, name = front ++ uniqueTagDelimiter :: tag ∧ front ≠ [] ∧
      uniqueTagDelimiter ∉ tag := by
  simp only [uniqueIndicator, tagIndicator, matches_cons, matches_nil, accepts_atLeast,
    accepts_one] at h
  obtain ⟨front, _, rfl, ⟨-, hf⟩, _, _, rfl, ⟨c, rfl, hc⟩, tag, _, rfl, ⟨ht, -⟩, rfl⟩ := h
  refine ⟨front, tag, ?_, List.ne_nil_of_length_pos hf, fun hm => ?_⟩
  · have : c = uniqueTagDelimiter := by simpa [isOneOf, str, uniqueTagDelimiter] using hc
    simp [this]
  · have := ht _ hm
    revert this
    decide

theorem assetNameType_eq_some {type : AssetType} :
    assetNameType name = some type ↔ isAssetNameValid name = .ok type := by
  rw [assetNameType]
  cases isAssetNameValid name <;> simp [Except.toOption]

theorem length_of_isAssetNameOk (h : isAssetNameOk name) : name.length ≤ 40 := by
  by_contra hl
  simp [isAssetNameOk, assetNameType, isAssetNameValid, not_le.1 hl, Except.toOption] at h

theorem indicatedType_of_unique (h : assetNameType name = some .unique) :
    indicatedType name = .unique := by
  rw [assetNameType_eq_some, isAssetNameValid] at h
  split at h
  · simp at h
  · simp only [Fallible.bind_eq_ok] at h
    obtain ⟨-, -, h⟩ := h
    -- only the qualifier names change their type after the check
    split at h <;> rw [Fallible.pure_eq_ok] at h
    · split_ifs at h
    · split_ifs at h
    · exact h

/-- The name a unique asset hangs on is not empty. -/
theorem getParentName_ne_nil_of_unique (h : assetNameType name = some .unique) :
    getParentName name ≠ [] := by
  have hm : Matches uniqueIndicator name = true := by
    by_contra hno
    have ht := indicatedType_of_unique h
    simp only [indicatedType, hno] at ht
    grind
  obtain ⟨front, tag, rfl, hf, hta⟩ := exists_of_matches_uniqueIndicator hm
  simpa [getParentName, h, beforeLast_append hta] using hf

end Cmusic
