import KernelModules.RsnIe

/-!
# The walk over a security element

`wlan_crypto_wpaie_check`, `wlan_crypto_rsnie_check` and `wlan_crypto_wapiie_check` walk over an
element with a pointer and a count of the bytes that are left, which has 8 bits. What is behind the
element in memory is there to be read as well. The bytes that are read and the amounts that are
shifted by are kept.
-/

namespace KernelModules.IeWalk

open Bitmap RsnIe

def wpaVersion : ℕ := 1
def wapiVersion : ℕ := 1
def authWpa : ℕ := 5
def authWapi : ℕ := 8
def wapiIeLen : ℕ := 20

/-- `WLAN_WPA_SEL`. -/
def wpaSel (x : ℕ) : ℕ := x * 2 ^ 24 + 0xf25000

/-- `WLAN_WAPI_SEL`. -/
def wapiSel (x : ℕ) : ℕ := x * 2 ^ 24 + 0x721400

def wpaSuiteToCipher (w : ℕ) : Option ℕ :=
  [(wpaSel 2, Cipher.tkip.type), (wpaSel 4, Cipher.aesCcm.type),
    (wpaSel 0, Cipher.cipherNone.type)].lookup w

def wpaSuiteToKeymgmt (w : ℕ) : Option ℕ :=
  [(wpaSel 1, KeyMgmt.ieee8021x.type), (wpaSel 2, KeyMgmt.psk.type),
    (0x00964000, KeyMgmt.cckm.type), (wpaSel 0, KeyMgmt.keyMgmtNone.type)].lookup w

/-- `WLAN_CRYPTO_CIPHER_WAPI_SMS4` is 4. -/
def wapiSuiteToCipher (w : ℕ) : Option ℕ := [(wapiSel 1, 4)].lookup w

/-- `WLAN_CRYPTO_KEY_MGMT_WAPI_PSK` is 12 and `WLAN_CRYPTO_KEY_MGMT_WAPI_CERT` is 13. -/
def wapiKeymgmt (w : ℕ) : Option ℕ := [(wapiSel 2, 12), (wapiSel 1, 13)].lookup w

inductive SuiteSet
  | mcast
  | ucast
  | keyMgmt
  | mgmt
  deriving DecidableEq

namespace SuiteSet

def get : SuiteSet → CryptoParams → Set32
  | .mcast, params => params.mcastcipherset
  | .ucast, params => params.ucastcipherset
  | .keyMgmt, params => params.keyMgmt
  | .mgmt, params => params.mgmtcipherset

def put : SuiteSet → CryptoParams → Set32 → CryptoParams
  | .mcast, params, set => { params with mcastcipherset := set }
  | .ucast, params, set => { params with ucastcipherset := set }
  | .keyMgmt, params, set => { params with keyMgmt := set }
  | .mgmt, params, set => { params with mgmtcipherset := set }

def dflt : SuiteSet → ℕ
  | .mcast => Cipher.aesCcm.type
  | .ucast => Cipher.aesCcm.type
  | .keyMgmt => KeyMgmt.ieee8021x.type
  | .mgmt => Cipher.aesCmac.type

end SuiteSet

structure Suites where
  cipher : ℕ → Option ℕ
  keymgmt : ℕ → Option ℕ

def wpa : Suites := ⟨wpaSuiteToCipher, wpaSuiteToKeymgmt⟩
def rsn : Suites := ⟨cipherBit, keymgmtBit⟩
def wapi : Suites := ⟨wapiSuiteToCipher, wapiKeymgmt⟩

namespace Suites

variable (T : Suites)

def bit : SuiteSet → ℕ → Option ℕ
  | .keyMgmt => T.keymgmt
  | _ => T.cipher

def status (f : SuiteSet) (sel : ℕ) : ℤ := (T.bit f sel).elim (-1) Int.ofNat

end Suites

/-- `LE_READ_2` at an offset. -/
def leRead2At (m : ℕ → UInt8) (i : ℕ) : ℕ := (m i).toNat + 256 * (m (i + 1)).toNat

/-- `LE_READ_4` at an offset. -/
def leRead4At (m : ℕ → UInt8) (i : ℕ) : ℕ :=
  (m i).toNat + 256 * (m (i + 1)).toNat + 65536 * (m (i + 2)).toNat +
    16777216 * (m (i + 3)).toNat

structure Walk where
  frm : ℕ
  len : UInt8
  params : CryptoParams
  reads : List ℕ
  shifts : List ℤ

namespace Walk

variable (m : ℕ → UInt8) (s : Walk)

/-- `len = frm[1]`. -/
def start (params : CryptoParams) : Walk :=
  { frm := 0, len := m 1, params := params, reads := [1], shifts := [] }

def read2 : ℕ × Walk :=
  (leRead2At m s.frm, { s with reads := s.reads ++ [s.frm, s.frm + 1] })

def read4 : ℕ × Walk :=
  (leRead4At m s.frm,
    { s with reads := s.reads ++ [s.frm, s.frm + 1, s.frm + 2, s.frm + 3] })

/-- `frm += k, len -= k`. -/
def skip (k : ℕ) : Walk := { s with frm := s.frm + k, len := s.len - UInt8.ofNat k }

/-- `SET_MCAST_CIPHER` and its like. The target takes the amount modulo 32. -/
def set (f : SuiteSet) (w : ℤ) : Walk :=
  { s with
    params := f.put s.params (f.get s.params ||| Bitmap.bit 32 (w % 32).toNat)
    shifts := s.shifts ++ [w] }

def setAuthmode (mode : ℕ) : Walk :=
  { s with
    params := { s.params with authmodeset := s.params.authmodeset ||| Bitmap.bit 32 mode }
    shifts := s.shifts ++ [(mode : ℤ)] }

def setCaps (w : ℕ) : Walk := { s with params := { s.params with rsnCaps := w } }

end Walk

/-- The loop over the suites of a list. A check is left with `false`, which is
`QDF_STATUS_E_INVAL`. -/
def setSuites (T : Suites) (m : ℕ → UInt8) (f : SuiteSet) : ℕ → Walk → Bool × Walk
  | 0, s => (true, s)
  | n + 1, s =>
    match s.read4 m with
    | (sel, s) =>
      if T.status f sel < 0 then (false, s)
      else setSuites T m f n ((s.set f (T.status f sel)).skip 4)

section Wpa

variable (m : ℕ → UInt8) (s : Walk)

def wpaCaps : Bool × Walk :=
  if 2 ≤ s.len.toNat then
    match s.read2 m with
    | (w, s) => (true, (s.setCaps w).skip 2)
  else (true, s)

def wpaKeyMgmt : Bool × Walk :=
  match s.read2 m with
  | (n, s) =>
    if (s.skip 2).len.toNat < n * 4 then (false, s.skip 2)
    else
      match setSuites wpa m .keyMgmt n (s.skip 2) with
      | (false, s) => (false, s)
      | (true, s) => wpaCaps m s

def wpaUcast : Bool × Walk :=
  match s.read2 m with
  | (n, s) =>
    if (s.skip 2).len.toNat < n * 4 + 2 then (false, s.skip 2)
    else
      match setSuites wpa m .ucast n (s.skip 2) with
      | (false, s) => (false, s)
      | (true, s) => if s.params.ucastcipherset = 0 then (false, s) else wpaKeyMgmt m s

def wpaMcast : Bool × Walk :=
  match s.read4 m with
  | (sel, s) =>
    if wpa.status .mcast sel < 0 then (false, s)
    else wpaUcast m ((s.set .mcast (wpa.status .mcast sel)).skip 4)

/-- `wlan_crypto_wpaie_check`. -/
def wpaieCheck (params : CryptoParams) : Bool × Walk :=
  let s := (Walk.start m params).setAuthmode authWpa
  if s.len.toNat < 14 then (false, s)
  else
    match { s with frm := s.frm + 6, len := s.len - 4 : Walk }.read2 m with
    | (w, s) => if w ≠ wpaVersion then (false, s) else wpaMcast m (s.skip 2)

end Wpa

section Rsn

variable (m : ℕ → UInt8) (s : Walk)

/-- The group management cipher, whose suite is not looked at. -/
def rsnBip : Bool × Walk :=
  if s.len = 0 ∧ s.params.mfpEnabled then (true, s.set .mgmt Cipher.aesCmac.type)
  else if 4 ≤ s.len.toNat then
    match s.read4 m with
    | (sel, s) => (true, (s.skip 4).set .mgmt (rsn.status .mgmt sel))
  else (true, s)

def rsnPmkid : Bool × Walk :=
  if 2 ≤ s.len.toNat then
    match s.read2 m with
    | (n, s) =>
      if n ≠ 0 ∧ (s.skip 2).len ≠ 0 then
        if n * pmkidLen ≤ (s.skip 2).len.toNat then rsnBip m ((s.skip 2).skip (n * pmkidLen))
        else (false, s.skip 2)
      else if n ≠ 0 ∧ (s.skip 2).len = 0 then (false, s.skip 2)
      else rsnBip m (s.skip 2)
  else rsnBip m s

def rsnCaps : Bool × Walk :=
  if 2 ≤ s.len.toNat then
    match s.read2 m with
    | (w, s) => rsnPmkid m ((s.setCaps w).skip 2)
  else if s.len ≠ 0 ∧ s.len.toNat < 2 then (false, s)
  else rsnPmkid m s

/-- A list of suites behind their number; an empty one stands for the default. -/
def rsnList (f : SuiteSet) : Bool × Walk :=
  match s.read2 m with
  | (n, s) =>
    let r :=
      if n ≠ 0 then
        if (s.skip 2).len.toNat < n * 4 then (false, s.skip 2)
        else setSuites rsn m f n (s.skip 2)
      else (true, (s.skip 2).set f f.dflt)
    (r.1 && f.get r.2.params != 0, r.2)

def rsnKeyMgmt : Bool × Walk :=
  if s.len = 0 then (true, s.set .keyMgmt SuiteSet.keyMgmt.dflt)
  else if s.len.toNat < 2 then (false, s)
  else
    match rsnList m s .keyMgmt with
    | (false, s) => (false, s)
    | (true, s) => rsnCaps m s

def rsnUcast : Bool × Walk :=
  if s.len = 0 then
    (true, (s.set .ucast SuiteSet.ucast.dflt).set .keyMgmt SuiteSet.keyMgmt.dflt)
  else if s.len.toNat < 2 then (false, s)
  else
    match rsnList m s .ucast with
    | (false, s) => (false, s)
    | (true, s) => rsnKeyMgmt m s

def rsnMcast : Bool × Walk :=
  if s.len = 0 then
    (true, ((s.set .mcast SuiteSet.mcast.dflt).set .ucast SuiteSet.ucast.dflt).set .keyMgmt
      SuiteSet.keyMgmt.dflt)
  else if s.len.toNat < 4 then (false, s)
  else
    match s.read4 m with
    | (sel, s) =>
      if rsn.status .mcast sel < 0 then (false, s)
      else
        let s := (s.set .mcast (rsn.status .mcast sel)).skip 4
        if s.params.mcastcipherset = 0 then (false, s) else rsnUcast m s

/-- `wlan_crypto_rsnie_check`. -/
def rsnieCheck (params : CryptoParams) : Bool × Walk :=
  let s := Walk.start m params
  if s.len.toNat < 2 then (false, s)
  else
    let s := { s with params := CryptoParams.zero }.setAuthmode authRsna
    match { s with frm := s.frm + 2 : Walk }.read2 m with
    | (w, s) => if w ≠ rsnVersion then (false, s) else rsnMcast m (s.skip 2)

end Rsn

section Wapi

variable (m : ℕ → UInt8) (s : Walk)

def wapiMcast : Bool × Walk :=
  match s.read4 m with
  | (sel, s) =>
    if wapi.status .mcast sel < 0 then (false, s)
    else (true, (s.set .mcast (wapi.status .mcast sel)).skip 4)

def wapiUcast : Bool × Walk :=
  match s.read2 m with
  | (n, s) =>
    if (s.skip 2).len.toNat < n * 4 + 2 then (false, s.skip 2)
    else
      match setSuites wapi m .ucast n (s.skip 2) with
      | (false, s) => (false, s)
      | (true, s) => if s.params.ucastcipherset = 0 then (false, s) else wapiMcast m s

def wapiKeyMgmt : Bool × Walk :=
  match s.read2 m with
  | (n, s) =>
    if (s.skip 2).len.toNat < n * 4 + 2 then (false, s.skip 2)
    else
      match setSuites wapi m .keyMgmt n (s.skip 2) with
      | (false, s) => (false, s)
      | (true, s) => wapiUcast m s

/-- `wlan_crypto_wapiie_check`. -/
def wapiieCheck (params : CryptoParams) : Bool × Walk :=
  let s := (Walk.start m params).setAuthmode authWapi
  if s.len.toNat < wapiIeLen then (false, s)
  else
    match { s with frm := s.frm + 2 : Walk }.read2 m with
    | (w, s) => if w ≠ wapiVersion then (false, s.skip 2) else wapiKeyMgmt m (s.skip 2)

end Wapi

end KernelModules.IeWalk
