import KernelModules.RsnTables
import Mathlib.Data.List.GetD

/-!
# Check and build of an RSN information element

`wlan_crypto_rsnie_check` reads the element into parameters, field by field, with defaults where it
ends early; `wlan_crypto_build_rsnie_with_pmksa` writes one from parameters.
-/

namespace KernelModules.RsnIe

open Bitmap

def elemidRsn : ℕ := 48
def rsnVersion : ℕ := 1
def pmkidLen : ℕ := 16
def authRsna : ℕ := 6
def capMfpEnabled : ℕ := 0x80

structure CryptoParams where
  authmodeset : Set32
  ucastcipherset : Set32
  mcastcipherset : Set32
  mgmtcipherset : Set32
  keyMgmt : Set32
  rsnCaps : ℕ
  deriving DecidableEq

def CryptoParams.zero : CryptoParams := ⟨0, 0, 0, 0, 0, 0⟩

def CryptoParams.mfpEnabled (params : CryptoParams) : Bool := params.rsnCaps &&& capMfpEnabled ≠ 0

/-- `LE_READ_2`. -/
def leRead2 (frm : Bytes) : ℕ := (frm.getD 0 0).toNat + 256 * (frm.getD 1 0).toNat

/-- `LE_READ_4`. -/
def leRead4 (frm : Bytes) : ℕ :=
  (frm.getD 0 0).toNat + 256 * (frm.getD 1 0).toNat + 65536 * (frm.getD 2 0).toNat +
    16777216 * (frm.getD 3 0).toNat

def cipherBit (w : ℕ) : Option ℕ := (rsnSuiteToCipher w).map Cipher.type

def keymgmtBit (w : ℕ) : Option ℕ := (rsnSuiteToKeymgmt w).map KeyMgmt.type

/-- The loop over the suites of a list. -/
def setSuites (suiteBit : ℕ → Option ℕ) : ℕ → Set32 → Bytes → Option (Set32 × Bytes)
  | 0, set, frm => some (set, frm)
  | n + 1, set, frm =>
    match suiteBit (leRead4 frm) with
    | none => none
    | some w => setSuites suiteBit n (set ||| bit 32 w) (frm.drop 4)

/-- A list of suites behind their number. An empty list stands for the default; the set must not be
empty. -/
def suiteList (suiteBit : ℕ → Option ℕ) (dflt : ℕ) (set : Set32) (frm : Bytes) :
    Option (Set32 × Bytes) :=
  let n := leRead2 frm
  let frm := frm.drop 2
  let r :=
    if n = 0 then some (set ||| bit 32 dflt, frm)
    else if frm.length < n * 4 then none
    else setSuites suiteBit n set frm
  r.filter fun r => r.1 ≠ 0

/-- The group management cipher. For a suite it does not know the code shifts by -1, which is 31 on
the target. -/
def checkBip (params : CryptoParams) (frm : Bytes) : CryptoParams :=
  if frm = [] ∧ params.mfpEnabled then
    { params with mgmtcipherset := params.mgmtcipherset ||| bit 32 Cipher.aesCmac.type }
  else if 4 ≤ frm.length then
    { params with
      mgmtcipherset := params.mgmtcipherset ||| bit 32 ((cipherBit (leRead4 frm)).getD 31) }
  else params

def checkPmkid (params : CryptoParams) (frm : Bytes) : Option CryptoParams :=
  if 2 ≤ frm.length then
    let n := leRead2 frm
    let frm := frm.drop 2
    if n ≠ 0 ∧ frm ≠ [] then
      if n * pmkidLen ≤ frm.length then some (checkBip params (frm.drop (n * pmkidLen))) else none
    else if n ≠ 0 then none
    else some (checkBip params frm)
  else some (checkBip params frm)

def checkCaps (params : CryptoParams) (frm : Bytes) : Option CryptoParams :=
  if 2 ≤ frm.length then checkPmkid { params with rsnCaps := leRead2 frm } (frm.drop 2)
  else if frm ≠ [] then none
  else checkPmkid params frm

def setKeyMgmtDefault (params : CryptoParams) : CryptoParams :=
  { params with keyMgmt := params.keyMgmt ||| bit 32 KeyMgmt.ieee8021x.type }

def setUcastDefault (params : CryptoParams) : CryptoParams :=
  { params with ucastcipherset := params.ucastcipherset ||| bit 32 Cipher.aesCcm.type }

def setMcast (params : CryptoParams) (w : ℕ) : CryptoParams :=
  { params with mcastcipherset := params.mcastcipherset ||| bit 32 w }

def checkKeyMgmt (params : CryptoParams) (frm : Bytes) : Option CryptoParams :=
  if frm = [] then some (setKeyMgmtDefault params)
  else if frm.length < 2 then none
  else
    match suiteList keymgmtBit KeyMgmt.ieee8021x.type params.keyMgmt frm with
    | none => none
    | some (set, frm) => checkCaps { params with keyMgmt := set } frm

def checkUcast (params : CryptoParams) (frm : Bytes) : Option CryptoParams :=
  if frm = [] then some (setKeyMgmtDefault (setUcastDefault params))
  else if frm.length < 2 then none
  else
    match suiteList cipherBit Cipher.aesCcm.type params.ucastcipherset frm with
    | none => none
    | some (set, frm) => checkKeyMgmt { params with ucastcipherset := set } frm

def checkMcast (params : CryptoParams) (frm : Bytes) : Option CryptoParams :=
  if frm = [] then
    some (setKeyMgmtDefault (setUcastDefault (setMcast params Cipher.aesCcm.type)))
  else if frm.length < 4 then none
  else
    match cipherBit (leRead4 frm) with
    | none => none
    | some w =>
      if (setMcast params w).mcastcipherset = 0 then none
      else checkUcast (setMcast params w) (frm.drop 4)

def payload (frm : Bytes) : Bytes := (frm.drop 2).take (frm.getD 1 0).toNat

/-- `wlan_crypto_rsnie_check`, of a buffer that holds the whole element. -/
def rsnieCheck (frm : Bytes) : Option CryptoParams :=
  let frm := payload frm
  if frm.length < 2 then none
  else if leRead2 frm ≠ rsnVersion then none
  else checkMcast { CryptoParams.zero with authmodeset := bit 32 authRsna } (frm.drop 2)

/-- `WLAN_CRYPTO_ADDSHORT`. -/
def addShort (v : ℕ) : Bytes := [UInt8.ofNat v, UInt8.ofNat (v / 256)]

/-- `WLAN_CRYPTO_ADDSELECTOR`. -/
def addSelector (v : ℕ) : Bytes :=
  [UInt8.ofNat v, UInt8.ofNat (v / 256), UInt8.ofNat (v / 65536), UInt8.ofNat (v / 16777216)]

/-- `HAS_KEY_MGMT` and its like. -/
def has (set : Set32) (i : ℕ) : Bool := set &&& bit 32 i ≠ 0

def addCiphers (ciphers : List Cipher) : Bytes :=
  (ciphers.map rsnCipherToSuite).flatMap addSelector

def addKeyMgmts (keyMgmts : List KeyMgmt) : Bytes :=
  (keyMgmts.map fun k => (rsnKeymgmtToSuite k).getD (2 ^ 32 - 1)).flatMap addSelector

def builtUcast (params : CryptoParams) : List Cipher :=
  ucastOrder.filter fun c => has params.ucastcipherset c.type

def builtKeyMgmts (params : CryptoParams) : List KeyMgmt :=
  if has params.keyMgmt KeyMgmt.cckm.type then [.cckm]
  else keyMgmtOrder.filter fun k => has params.keyMgmt k.type

def builtMgmt (params : CryptoParams) : List Cipher :=
  mgmtOrder.filter fun c => has params.mgmtcipherset c.type

abbrev Pmkid := Vector UInt8 16

/-- What follows the capabilities. -/
def builtTail (params : CryptoParams) (pmksa : Option Pmkid) : Bytes :=
  if params.mfpEnabled then
    (match pmksa with
      | some pmkid => addShort 1 ++ pmkid.toList
      | none => addShort 0) ++ addCiphers (builtMgmt params)
  else
    match pmksa with
    | some pmkid => addShort 1 ++ pmkid.toList
    | none => []

/-- `wlan_crypto_build_rsnie_with_pmksa`. -/
def buildRsnie (params : CryptoParams) (pmksa : Option Pmkid) : Bytes :=
  let body := addShort rsnVersion ++
    addCiphers (mcastOrder.find? fun c => has params.mcastcipherset c.type).toList ++
    addShort (builtUcast params).length ++ addCiphers (builtUcast params) ++
    addShort (builtKeyMgmts params).length ++ addKeyMgmts (builtKeyMgmts params) ++
    addShort params.rsnCaps ++ builtTail params pmksa
  [UInt8.ofNat elemidRsn, UInt8.ofNat body.length] ++ body

/-- The group cipher and the pairwise ciphers are for data, and CCKM stands alone. -/
structure InScope (params : CryptoParams) : Prop where
  mcast : ∀ i, params.mcastcipherset.getLsbD i = true → ∃ c ∈ mcastOrder, c.type = i
  ucast : ∀ i, params.ucastcipherset.getLsbD i = true → ∃ c ∈ ucastOrder, c.type = i
  cckm : params.keyMgmt.getLsbD KeyMgmt.cckm.type = true →
    params.keyMgmt = bit 32 KeyMgmt.cckm.type

/-- The element built from the parameters has its exact length in its length byte and is accepted,
with the same parameters. -/
def Undone (params : CryptoParams) (pmksa : Option Pmkid) : Prop :=
  ((buildRsnie params pmksa).getD 1 0).toNat + 2 = (buildRsnie params pmksa).length ∧
    ∃ params', rsnieCheck (buildRsnie params pmksa) = some params' ∧
      params'.mcastcipherset = params.mcastcipherset ∧
      params'.ucastcipherset = params.ucastcipherset ∧ params'.keyMgmt = params.keyMgmt ∧
      params'.rsnCaps = params.rsnCaps ∧
      (params.mfpEnabled = true → params'.mgmtcipherset = params.mgmtcipherset)

def suites : ℕ → Bytes → List ℕ
  | 0, _ => []
  | n + 1, frm => leRead4 frm :: suites n (frm.drop 4)

def afterSuites (frm : Bytes) : Bytes := frm.drop (2 + 4 * leRead2 frm)

/-- The element from the key managements on: behind the version, the group cipher and the pairwise
ciphers. -/
def keyMgmtField (frm : Bytes) : Bytes := afterSuites ((payload frm).drop 6)

def keyMgmtSuites (frm : Bytes) : List ℕ :=
  suites (leRead2 (keyMgmtField frm)) ((keyMgmtField frm).drop 2)

def capsField (frm : Bytes) : Bytes := afterSuites (keyMgmtField frm)

def afterPmkids (frm : Bytes) : Bytes :=
  if 2 ≤ frm.length then frm.drop (2 + leRead2 frm * pmkidLen) else frm

def bipField (frm : Bytes) : Bytes := afterPmkids ((capsField frm).drop 2)

/-- The element has no key management that the builder does not know; where it has MFP enabled, it
ends in front of the group management cipher or has one that is for management frames. -/
structure Rebuildable (frm : Bytes) : Prop where
  keyMgmt : ftSuiteB384 ∉ keyMgmtSuites frm
  bip : leRead2 (capsField frm) &&& capMfpEnabled ≠ 0 → bipField frm = [] ∨
    4 ≤ (bipField frm).length ∧
      (rsnSuiteToCipher (leRead4 (bipField frm))).any isMgmtCipher = true

end KernelModules.RsnIe
