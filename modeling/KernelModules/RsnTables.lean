import KernelModules.Bitmap
import Mathlib.Tactic

/-!
# Suites of an RSN information element

The suites that `wlan_crypto_rsnie_check` knows, those that the builder knows, and the order in
which the builder asks for them.
-/

namespace KernelModules.RsnIe

open Bitmap

abbrev Bytes := List UInt8

abbrev Set32 := BitVec 32

inductive Cipher
  | tkip
  | aesCcm
  | aesCmac
  | aesCcm256
  | aesCmac256
  | aesGcm
  | aesGcm256
  | aesGmac
  | aesGmac256
  | cipherNone
  deriving DecidableEq

/-- `wlan_crypto_cipher_type`. -/
def Cipher.type : Cipher → ℕ
  | .tkip => 1
  | .aesCcm => 3
  | .aesCmac => 6
  | .aesCcm256 => 7
  | .aesCmac256 => 8
  | .aesGcm => 9
  | .aesGcm256 => 10
  | .aesGmac => 11
  | .aesGmac256 => 12
  | .cipherNone => 17

inductive KeyMgmt
  | ieee8021x
  | psk
  | keyMgmtNone
  | ftIeee8021x
  | ftPsk
  | ieee8021xSha256
  | pskSha256
  | sae
  | ftSae
  | cckm
  | osen
  | ieee8021xSuiteB
  | ieee8021xSuiteB192
  | filsSha256
  | filsSha384
  | ftFilsSha256
  | ftFilsSha384
  | owe
  | dpp
  | ftIeee8021xSha384
  deriving DecidableEq

/-- `wlan_crypto_key_mgmt`. -/
def KeyMgmt.type : KeyMgmt → ℕ
  | .ieee8021x => 0
  | .psk => 1
  | .keyMgmtNone => 2
  | .ftIeee8021x => 5
  | .ftPsk => 6
  | .ieee8021xSha256 => 7
  | .pskSha256 => 8
  | .sae => 10
  | .ftSae => 11
  | .cckm => 14
  | .osen => 15
  | .ieee8021xSuiteB => 16
  | .ieee8021xSuiteB192 => 17
  | .filsSha256 => 18
  | .filsSha384 => 19
  | .ftFilsSha256 => 20
  | .ftFilsSha384 => 21
  | .owe => 22
  | .dpp => 23
  | .ftIeee8021xSha384 => 24

/-- `WLAN_RSN_SEL`. -/
def rsnSel (x : ℕ) : ℕ := x * 2 ^ 24 + 0xac0f00

def rsnCckmAkm : ℕ := 0x00964000
def rsnDppAkm : ℕ := 0x029a6f50
def rsnOsenAkm : ℕ := 0x019a6f50

/-- `wlan_crypto_rsn_cipher_to_suite`. -/
def rsnCipherToSuite : Cipher → ℕ
  | .tkip => rsnSel 2
  | .aesCcm => rsnSel 4
  | .aesCcm256 => rsnSel 10
  | .aesGcm => rsnSel 8
  | .aesGcm256 => rsnSel 9
  | .aesCmac => rsnSel 6
  | .aesCmac256 => rsnSel 13
  | .aesGmac => rsnSel 11
  | .aesGmac256 => rsnSel 12
  | .cipherNone => rsnSel 0

/-- `wlan_crypto_rsn_keymgmt_to_suite`. -/
def rsnKeymgmtToSuite : KeyMgmt → Option ℕ
  | .keyMgmtNone => some (rsnSel 0)
  | .ieee8021x => some (rsnSel 1)
  | .psk => some (rsnSel 2)
  | .ftIeee8021x => some (rsnSel 3)
  | .ftPsk => some (rsnSel 4)
  | .ieee8021xSha256 => some (rsnSel 5)
  | .pskSha256 => some (rsnSel 6)
  | .sae => some (rsnSel 8)
  | .ftSae => some (rsnSel 9)
  | .ieee8021xSuiteB => some (rsnSel 11)
  | .ieee8021xSuiteB192 => some (rsnSel 12)
  | .cckm => some rsnCckmAkm
  | .osen => some rsnOsenAkm
  | .filsSha256 => some (rsnSel 14)
  | .filsSha384 => some (rsnSel 15)
  | .ftFilsSha256 => some (rsnSel 16)
  | .ftFilsSha384 => some (rsnSel 17)
  | .owe => some (rsnSel 18)
  | .dpp => some rsnDppAkm
  | .ftIeee8021xSha384 => none

/-- The cases of `wlan_crypto_rsn_suite_to_cipher`. -/
def cipherSuites : List (ℕ × Cipher) :=
  [(rsnSel 2, .tkip), (rsnSel 4, .aesCcm), (rsnSel 10, .aesCcm256), (rsnSel 8, .aesGcm),
    (rsnSel 9, .aesGcm256), (rsnSel 6, .aesCmac), (rsnSel 13, .aesCmac256), (rsnSel 11, .aesGmac),
    (rsnSel 12, .aesGmac256), (rsnSel 0, .cipherNone)]

def rsnSuiteToCipher (w : ℕ) : Option Cipher := cipherSuites.lookup w

/-- The cases of `wlan_crypto_rsn_suite_to_keymgmt`. -/
def keymgmtSuites : List (ℕ × KeyMgmt) :=
  [(rsnSel 1, .ieee8021x), (rsnSel 2, .psk), (rsnSel 3, .ftIeee8021x), (rsnSel 4, .ftPsk),
    (rsnSel 5, .ieee8021xSha256), (rsnSel 6, .pskSha256), (rsnSel 8, .sae), (rsnSel 9, .ftSae),
    (rsnSel 11, .ieee8021xSuiteB), (rsnSel 12, .ieee8021xSuiteB192), (rsnCckmAkm, .cckm),
    (rsnOsenAkm, .osen), (rsnSel 14, .filsSha256), (rsnSel 15, .filsSha384),
    (rsnSel 16, .ftFilsSha256), (rsnSel 17, .ftFilsSha384), (rsnSel 18, .owe), (rsnDppAkm, .dpp),
    (rsnSel 13, .ftIeee8021xSha384)]

def rsnSuiteToKeymgmt (w : ℕ) : Option KeyMgmt := keymgmtSuites.lookup w

def ftSuiteB384 : ℕ := rsnSel 13

/-- `IS_MGMT_CIPHER`. -/
def isMgmtCipher (c : Cipher) : Bool :=
  c = .aesCmac || c = .aesCmac256 || c = .aesGmac || c = .aesGmac256

/-- The `else if` chain of the group cipher. -/
def mcastOrder : List Cipher := [.tkip, .aesCcm, .aesCcm256, .aesGcm, .aesGcm256]

def ucastOrder : List Cipher := [.aesCcm256, .aesGcm256, .aesCcm, .aesGcm, .tkip]

def keyMgmtOrder : List KeyMgmt :=
  [.ieee8021x, .psk, .ftIeee8021x, .ftPsk, .ieee8021xSha256, .pskSha256, .sae, .ftSae,
    .ieee8021xSuiteB, .ieee8021xSuiteB192, .filsSha256, .filsSha384, .ftFilsSha256, .ftFilsSha384,
    .owe, .dpp, .osen]

def mgmtOrder : List Cipher := [.aesCmac, .aesGmac, .aesCmac256, .aesGmac256]

theorem rsnSuiteToCipher_toSuite (c : Cipher) : rsnSuiteToCipher (rsnCipherToSuite c) = some c := by
  cases c <;> rfl

end KernelModules.RsnIe
