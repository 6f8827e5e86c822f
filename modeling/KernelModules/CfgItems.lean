import KernelModules.QdfIni
import KernelModules.QdfIntParse
import KernelModules.QdfIpv6

/-!
# The items of the WLAN configuration

Each item has a field of the store, and a handler of its type that writes the field when it is
content with the value. Lines of ini files come in any order, and an item may have several.
-/

namespace KernelModules.Qdf

def boolParse (s : Str) : Option Bool :=
  match strLeftTrim s with
  | [] => none
  | c :: rest =>
    let value :=
      if c = 49 ∨ c = 121 ∨ c = 89 then some true
      else if c = 48 ∨ c = 110 ∨ c = 78 then some false
      else none
    if strLeftTrim rest = [] then value else none

def consumeHexPair : Str → Option (UInt8 × Str)
  | hi :: low :: rest =>
    match hexDigit hi, hexDigit low with
    | some hi, some low => some (UInt8.ofNat (hi * 16 + low), rest)
    | _, _ => none
  | _ => none

/-- The loop of `consumeOctetDec`, over so many digits at most. -/
def octetLoop : ℕ → ℕ × ℕ → Str → (ℕ × ℕ) × Str
  | i + 1, (len, octet), c :: rest =>
    if 48 ≤ c ∧ c ≤ 57 then octetLoop i (len + 1, octet * 10 + (c.toNat - 48)) rest
    else ((len, octet), c :: rest)
  | _, r, s => (r, s)

def consumeOctetDec (s : Str) : Option (UInt8 × Str) :=
  let r := octetLoop 3 (0, 0) s
  if r.1.1 = 0 ∨ 255 < r.1.2 then none else some (UInt8.ofNat r.1.2, r.2)

/-- The loop over the bytes of an address behind the first, with a separator in front of each. -/
def addrLoop (sep : Str → Option Str) (consume : Str → Option (UInt8 × Str)) :
    ℕ → Str → Option (Str × Str)
  | 0, s => some ([], s)
  | left + 1, s =>
    match (sep s).bind consume with
    | none => none
    | some (b, s) => (addrLoop sep consume left s).map fun r => (b :: r.1, r.2)

def addrParse (sep : Str → Str → Option Str) (consume : Str → Option (UInt8 × Str)) (size : ℕ)
    (s : Str) : Option Str :=
  match consume (strLeftTrim s) with
  | none => none
  | some (b, s) =>
    match addrLoop (sep s) consume (size - 1) s with
    | none => none
    | some (bs, s) => if strLeftTrim s = [] then some (b :: bs) else none

def macParse : Str → Option Str :=
  addrParse (fun s => if s.head? = some 58 then consumeChar 58 else some) consumeHexPair 6

def ipv4Parse : Str → Option Str := addrParse (fun _ => consumeChar 46) consumeOctetDec 4

end KernelModules.Qdf

namespace KernelModules.CfgItems

open Qdf

inductive MType
  | int
  | uint
  | bool
  | string
  | mac
  | ipv4
  | ipv6

/-- `CFG_VALUE_OR_CLAMP` or `CFG_VALUE_OR_DEFAULT`, which other numbers are taken for. -/
inductive Fallback
  | clamp
  | default
  deriving DecidableEq

/-- An entry of the table, with the default of the item: a string, or the bytes of the field. -/
structure Item where
  name : Str
  mtype : MType
  fieldOffset : ℕ
  min : ℤ
  max : ℤ
  fallback : Fallback
  dflt : Str

abbrev Store := ℕ → UInt8

def Item.size (m : Item) : ℕ :=
  match m.mtype with
  | .int | .uint | .ipv4 => 4
  | .bool => 1
  | .string => m.max.toNat + 1
  | .mac => 6
  | .ipv6 => 16

def poke (s : Store) (offset : ℕ) (bytes : Str) : Store := fun a =>
  if offset ≤ a ∧ a < offset + bytes.length then bytes.getD (a - offset) 0 else s a

def le32 (v : ℤ) : Str :=
  (List.range 4).map fun i => UInt8.ofNat ((v % 2 ^ 32).toNat / 256 ^ i)

def clamp (v lo hi : ℤ) : ℤ := if v < lo then lo else if hi < v then hi else v

/-- The integer that is stored, if any. -/
def numHandler (lo hi : ℤ) (fallback : Fallback) : Except Error ℤ → Option ℤ
  | .error _ => none
  | .ok value =>
    if hi < lo then none
    else if lo ≤ value ∧ value ≤ hi then some value
    else if fallback = .clamp then some (clamp value lo hi)
    else none

/-- What `qdf_str_lcopy` writes. -/
def lcopy (src : Str) (size : ℕ) : Str := src.take (size - 1) ++ [0]

def stringHandler (lo hi : ℤ) (value : Str) : Option Str :=
  if lo < 0 ∨ hi < lo then none
  else
    let len := Min.min value.length lo.toNat
    if len < lo then none
    else
      let len := len + Min.min (value.drop lo.toNat).length (hi - lo + 1).toNat
      if hi < len then none else some (lcopy value (hi + 1).toNat)

/-- The bytes that the handler of the item writes to the front of its field, if any. The parsers
fill a value of their own, which is copied when they succeed. -/
def Item.handler (m : Item) (value : Str) : Option Str :=
  match m.mtype with
  | .int => (numHandler m.min m.max m.fallback (int32Parse value)).map le32
  | .uint =>
    (numHandler (m.min % 2 ^ 32) (m.max % 2 ^ 32) m.fallback (uint32Parse value)).map le32
  | .bool => (boolParse value).map fun b => [if b then 1 else 0]
  | .string => stringHandler m.min m.max value
  | .mac => macParse value
  | .ipv4 => ipv4Parse value
  | .ipv6 => ipv6Parse value

def lookupMeta (items : List Item) (name : Str) : Option Item := items.find? (·.name = name)

def iniItemHandler (items : List Item) (s : Store) (key value : Str) : Store :=
  match lookupMeta items key with
  | none => s
  | some m =>
    match m.handler value with
    | none => s
    | some bytes => poke s m.fieldOffset bytes

def callback (items : List Item) (s : Store) : IniEvent → Store × Option Empty
  | .item key value => (iniItemHandler items s key value, none)
  | .section _ => (s, none)

def Item.dfltBytes (m : Item) : Str :=
  match m.mtype with
  | .string => lcopy m.dflt (m.max.toNat + 1)
  | _ => m.dflt

def storeSetDefaults (items : List Item) (s : Store) : Store :=
  items.foldl (fun s m => poke s m.fieldOffset m.dfltBytes) s

def parseFiles (items : List Item) : List Str → Store → Option Store
  | [], s => some s
  | content :: files, s =>
    match iniParse (callback items) content s with
    | none => none
    | some (s, _) => parseFiles items files s

def Item.bounds (m : Item) : ℤ × ℤ :=
  match m.mtype with
  | .uint => (m.min % 2 ^ 32, m.max % 2 ^ 32)
  | _ => (m.min, m.max)

/-- The bytes are a value of the item within its bounds. -/
def Item.Fits (m : Item) (bytes : Str) : Prop :=
  match m.mtype with
  | .int | .uint => ∃ v, m.bounds.1 ≤ v ∧ v ≤ m.bounds.2 ∧ bytes = le32 v
  | .string => ∃ str, bytes = str ++ [0] ∧ (∀ c ∈ str, c ≠ 0) ∧ m.min ≤ str.length ∧
      str.length ≤ m.max
  | _ => bytes.length = m.size

/-- The value is well formed and in range, or is clamped, and is stored as these bytes. -/
def Item.Accepts (m : Item) (value bytes : Str) : Prop :=
  match m.mtype with
  | .int | .uint => ∃ v, (if m.mtype matches .int then int32Parse value else uint32Parse value) =
      .ok v ∧ (m.bounds.1 ≤ v ∧ v ≤ m.bounds.2 ∨ m.fallback = .clamp) ∧
        bytes = le32 (clamp v m.bounds.1 m.bounds.2)
  | .bool => ∃ b, boolParse value = some b ∧ bytes = [if b then 1 else 0]
  | .string => m.min ≤ value.length ∧ value.length ≤ m.max ∧ bytes = value ++ [0]
  | .mac => macParse value = some bytes
  | .ipv4 => ipv4Parse value = some bytes
  | .ipv6 => ipv6Parse value = some bytes

/-- A table: items with names of their own and defaults in range, and fields that lie apart. -/
structure Table where
  items : List Item
  names : (items.map Item.name).Nodup
  apart : items.Pairwise fun m m' =>
    m.fieldOffset + m.size ≤ m'.fieldOffset ∨ m'.fieldOffset + m'.size ≤ m.fieldOffset
  bounds : ∀ m ∈ items, m.bounds.1 ≤ m.bounds.2
  minLength : ∀ m ∈ items, m.mtype = .string → 0 ≤ m.min
  defaults : ∀ m ∈ items, m.Fits m.dfltBytes

/-- The last value that is accepted decides, or else the default. -/
inductive Item.Last (m : Item) : List Str → Str → Prop
  | default : m.Last [] m.dfltBytes
  | accepted {values value bytes} : m.Accepts value bytes → m.Last (values ++ [value]) bytes
  | rejected {values value bytes} : m.Last values bytes → (∀ bytes, ¬m.Accepts value bytes) →
      m.Last (values ++ [value]) bytes

def Shows (s : Store) (offset : ℕ) (bytes : Str) : Prop :=
  ∀ i < bytes.length, s (offset + i) = bytes.getD i 0

def Item.values (m : Item) (events : List IniEvent) : List Str :=
  events.filterMap fun
    | .item key value => if m.name = key then some value else none
    | .section _ => none

def fileEvents (files : List Str) : List IniEvent := files.flatMap fun f => iniEvents id (cstr f)

variable {m m' : Item} {items : List Item} {s : Store} {key value bytes bytes' : Str} {T : Table}
variable {lo hi w : ℤ} {fb : Fallback} {r : Except Error ℤ}

theorem clamp_mem (h : lo ≤ hi) (v : ℤ) : lo ≤ clamp v lo hi ∧ clamp v lo hi ≤ hi := by
  unfold clamp
  split_ifs <;> omega

theorem numHandler_eq_some (h : lo ≤ hi) : numHandler lo hi fb r = some w ↔
    ∃ v, r = .ok v ∧ (lo ≤ v ∧ v ≤ hi ∨ fb = .clamp) ∧ w = clamp v lo hi := by
  cases r with
  | error e => simp [numHandler]
  | ok v =>
    have hin : lo ≤ v ∧ v ≤ hi → clamp v lo hi = v := fun hv => by
      unfold clamp
      split_ifs <;> omega
    rw [numHandler, if_neg (by omega)]
    by_cases hv : lo ≤ v ∧ v ≤ hi
    · simp [hv, hin hv, eq_comm]
    · by_cases hfb : fb = .clamp <;> simp [hv, hfb, eq_comm]

theorem stringHandler_eq_some (hlo : 0 ≤ lo) (h : lo ≤ hi) :
    stringHandler lo hi value = some bytes ↔
      lo ≤ value.length ∧ value.length ≤ hi ∧ bytes = value ++ [0] := by
  unfold stringHandler lcopy
  rw [if_neg (by omega)]
  rw [List.length_drop]
  by_cases hmin : lo ≤ value.length
  · rw [if_neg (by omega)]
    by_cases hmax : (value.length : ℤ) ≤ hi
    · rw [if_neg (by omega), List.take_of_length_le (by omega)]
      simp [hmin, hmax, eq_comm]
    · rw [if_pos (by omega)]
      simp [hmax]
  · rw [if_pos (by omega)]
    simp [hmin]

theorem map_numHandler_eq_some (h : lo ≤ hi) : (numHandler lo hi fb r).map le32 = some bytes ↔
    ∃ v, r = .ok v ∧ (lo ≤ v ∧ v ≤ hi ∨ fb = .clamp) ∧ bytes = le32 (clamp v lo hi) := by
  simp only [Option.map_eq_some_iff, numHandler_eq_some h]
  constructor
  · rintro ⟨_, ⟨v, hv, hfit, rfl⟩, rfl⟩
    exact ⟨v, hv, hfit, rfl⟩
  · rintro ⟨v, hv, hfit, rfl⟩
    exact ⟨_, ⟨v, hv, hfit, rfl⟩, rfl⟩

theorem handler_eq_some (hm : m ∈ T.items) :
    m.handler value = some bytes ↔ m.Accepts value bytes := by
  have hbounds := T.bounds m hm
  have hmin := T.minLength m hm
  unfold Item.handler Item.Accepts
  unfold Item.bounds at hbounds ⊢
  cases htype : m.mtype <;> simp only [htype] at hbounds hmin ⊢
  case string => exact stringHandler_eq_some (hmin trivial) hbounds
  case bool => simp [eq_comm]
  case int => simpa using map_numHandler_eq_some hbounds
  case uint => simpa using map_numHandler_eq_some hbounds

variable {consume : Str → Option (UInt8 × Str)} {n offset : ℕ} {events : List IniEvent}

theorem length_addrLoop {sep : Str → Option Str}
    {t t' : Str} (h : addrLoop sep consume n t = some (bytes, t')) : bytes.length = n := by
  induction n generalizing t bytes with
  | zero => cases h; rfl
  | succ n ih =>
    rw [addrLoop] at h
    split at h
    · cases h
    · obtain ⟨⟨bs, t''⟩, hloop, heq⟩ := Option.map_eq_some_iff.mp h
      cases heq
      exact congrArg (· + 1) (ih hloop)

theorem length_addrParse {sep : Str → Str → Option Str}
    (h : addrParse sep consume (n + 1) value = some bytes) : bytes.length = n + 1 := by
  unfold addrParse at h
  split at h
  · cases h
  · split at h
    · cases h
    next hloop =>
      split_ifs at h
      cases h
      exact congrArg (· + 1) (length_addrLoop hloop)

theorem Item.Accepts.fits (hm : m ∈ T.items) (h : m.Accepts value bytes)
    (hvalue : ∀ c ∈ value, c ≠ 0) : m.Fits bytes := by
  have hbounds := T.bounds m hm
  unfold Item.Accepts at h
  unfold Item.Fits Item.size
  cases htype : m.mtype <;> simp only [htype] at h ⊢
  case string => exact ⟨value, h.2.2, hvalue, h.1, h.2.1⟩
  case bool => obtain ⟨b, -, rfl⟩ := h; rfl
  case mac => exact length_addrParse h
  case ipv4 => exact length_addrParse h
  case ipv6 => exact length_ipv6Parse h
  all_goals
    obtain ⟨v, -, -, rfl⟩ := h
    exact ⟨_, (clamp_mem hbounds v).1, (clamp_mem hbounds v).2, rfl⟩

theorem Item.Fits.length_le (h : m.Fits bytes) : bytes.length ≤ m.size := by
  unfold Item.Fits at h
  cases htype : m.mtype <;> simp only [htype] at h
  case string =>
    obtain ⟨str, rfl, -, -, hle⟩ := h
    simp only [Item.size, htype, List.length_append, List.length_singleton]
    omega
  case int => obtain ⟨v, -, -, rfl⟩ := h; simp [Item.size, htype, le32]
  case uint => obtain ⟨v, -, -, rfl⟩ := h; simp [Item.size, htype, le32]
  all_goals exact h.le

theorem shows_poke (s : Store) (offset : ℕ) (bytes : Str) :
    Shows (poke s offset bytes) offset bytes := fun i hi => by
  rw [poke, if_pos (by omega), Nat.add_sub_cancel_left]

theorem Shows.poke {offset' : ℕ} (h : Shows s offset bytes)
    (hapart : offset + bytes.length ≤ offset' ∨ offset' + bytes'.length ≤ offset) :
    Shows (poke s offset' bytes') offset bytes := fun i hi => by
  rw [CfgItems.poke, if_neg (by omega)]
  exact h i hi

theorem Table.lookupMeta_eq (hm : m ∈ T.items) (key : Str) :
    lookupMeta T.items key = some m ↔ m.name = key := by
  constructor
  · intro h
    simpa using List.find?_some h
  · rintro rfl
    cases hfind : lookupMeta T.items m.name with
    | none => exact absurd (List.find?_eq_none.mp hfind m hm) (by simp)
    | some m' =>
      have hname : m'.name = m.name := by simpa using List.find?_some hfind
      rw [List.inj_on_of_nodup_map T.names (List.mem_of_find?_eq_some hfind) hm hname]

theorem Table.apart_of_ne (hm : m ∈ T.items) (hm' : m' ∈ T.items) (hne : m ≠ m') :
    m.fieldOffset + m.size ≤ m'.fieldOffset ∨ m'.fieldOffset + m'.size ≤ m.fieldOffset := by
  have : Std.Symm fun m m' : Item => m.fieldOffset + m.size ≤ m'.fieldOffset ∨
    m'.fieldOffset + m'.size ≤ m.fieldOffset := ⟨fun _ _ h => h.symm⟩
  exact T.apart.forall hm hm' hne

theorem Table.handler_cases (T : Table) (s : Store) (key value : Str) :
    iniItemHandler T.items s key value = s ∨
      ∃ m ∈ T.items, m.name = key ∧ ∃ bytes, m.Accepts value bytes ∧
        iniItemHandler T.items s key value = poke s m.fieldOffset bytes := by
  unfold iniItemHandler
  cases hfind : lookupMeta T.items key with
  | none => exact .inl rfl
  | some m =>
    have hm := List.mem_of_find?_eq_some hfind
    cases hbytes : m.handler value with
    | none => exact .inl (by simp [hbytes])
    | some bytes =>
      exact .inr ⟨m, hm, (T.lookupMeta_eq hm key).mp hfind, bytes,
        (handler_eq_some hm).mp hbytes, by simp [hbytes]⟩

def Table.Books (T : Table) (s : Store) (events : List IniEvent) : Prop :=
  ∀ m ∈ T.items, ∃ bytes, Shows s m.fieldOffset bytes ∧ m.Fits bytes ∧
    m.Last (m.values events) bytes

theorem Table.Books.step (h : T.Books s events) (e : IniEvent)
    (he : ∀ key value, e = .item key value → ∀ c ∈ value, c ≠ 0) :
    T.Books (callback T.items s e).1 (events ++ [e]) := by
  intro m hm
  obtain ⟨bytes, hshows, hfits, hlast⟩ := h m hm
  rw [Item.values, List.filterMap_append]
  cases e with
  | «section» name => exact ⟨bytes, hshows, hfits, by simpa [Item.values] using hlast⟩
  | item key value =>
    by_cases hkey : m.name = key
    · have hlookup := (T.lookupMeta_eq hm key).mpr hkey
      simp only [callback, iniItemHandler, hlookup, hkey, List.filterMap_cons, if_true,
        List.filterMap_nil]
      cases hbytes : m.handler value with
      | none =>
        refine ⟨bytes, hshows, hfits, .rejected (by simpa [Item.values, hkey] using hlast)
          fun b hb => ?_⟩
        simp [(handler_eq_some hm).mpr hb] at hbytes
      | some b =>
        have haccepts := (handler_eq_some hm).mp hbytes
        exact ⟨b, shows_poke s _ b, haccepts.fits hm (he key value rfl), .accepted haccepts⟩
    · refine ⟨bytes, ?_, hfits, by simpa [Item.values, hkey] using hlast⟩
      obtain heq | ⟨m', hm', rfl, b, haccepts, heq⟩ := T.handler_cases s key value
      · simpa [callback, heq] using hshows
      · have hne : m ≠ m' := fun hne => hkey (by rw [hne])
        have hle := hfits.length_le
        have hle' := (haccepts.fits hm' (he _ value rfl)).length_le
        rw [callback, heq]
        exact hshows.poke (by have := T.apart_of_ne hm hm' hne; omega)

theorem Table.Books.invoke {todo : List IniEvent} (h : T.Books s events)
    (htodo : ∀ key value, .item key value ∈ todo → ∀ c ∈ value, c ≠ 0) :
    ∃ s', Qdf.invoke (callback T.items) todo s = (s', none) ∧ T.Books s' (events ++ todo) := by
  induction todo generalizing s events with
  | nil => exact ⟨s, rfl, by simpa using h⟩
  | cons e todo ih =>
    have hstep := h.step e fun key value he => htodo key value (he ▸ List.mem_cons_self)
    obtain ⟨s', hs', hbooks⟩ := ih hstep fun key value he =>
      htodo key value (List.mem_cons_of_mem _ he)
    refine ⟨s', ?_, by simpa using hbooks⟩
    rw [Qdf.invoke, ← hs']
    cases e <;> rfl

theorem Table.Books.parseFiles (h : T.Books s events)
    (files : List Str) : ∃ s', CfgItems.parseFiles T.items files s = some s' ∧
      T.Books s' (events ++ fileEvents files) := by
  induction files generalizing s events with
  | nil => exact ⟨s, rfl, by simpa [fileEvents] using h⟩
  | cons content files ih =>
    obtain ⟨rest, heq, hplain, hlen⟩ := exists_cstr content
    obtain ⟨s₁, hs₁, h₁⟩ := h.invoke
      fun key value he c hc => hplain c (iniEvents_value he c hc)
    obtain ⟨s₂, hs₂, h₂⟩ := ih h₁
    refine ⟨s₂, ?_, by simpa [fileEvents] using h₂⟩
    rw [CfgItems.parseFiles, iniParse, heq, iniLoop_eq s hplain hlen, hs₁]
    exact hs₂

theorem Shows.setDefaults (h : Shows s offset bytes)
    (hapart : ∀ m ∈ items, offset + bytes.length ≤ m.fieldOffset ∨
      m.fieldOffset + m.dfltBytes.length ≤ offset) :
    Shows (storeSetDefaults items s) offset bytes := by
  induction items generalizing s with
  | nil => exact h
  | cons m items ih =>
    exact ih (h.poke (hapart m List.mem_cons_self)) fun m hm =>
      hapart m (List.mem_cons_of_mem _ hm)

theorem shows_setDefaults (hfits : ∀ m ∈ items, m.Fits m.dfltBytes)
    (hapart : items.Pairwise fun m m' =>
      m.fieldOffset + m.size ≤ m'.fieldOffset ∨ m'.fieldOffset + m'.size ≤ m.fieldOffset)
    (s : Store) : ∀ m ∈ items, Shows (storeSetDefaults items s) m.fieldOffset m.dfltBytes := by
  induction items generalizing s with
  | nil => simp
  | cons m items ih =>
    obtain ⟨hfirst, hrest⟩ := List.pairwise_cons.mp hapart
    have htail := fun m hm => hfits m (List.mem_cons_of_mem _ hm)
    refine List.forall_mem_cons.mpr ⟨?_, ih htail hrest _⟩
    have hkept := (shows_poke s m.fieldOffset m.dfltBytes).setDefaults
      fun m' hm' => by
        have hle := (hfits m List.mem_cons_self).length_le
        have hle' := (htail m' hm').length_le
        have := hfirst m' hm'
        omega
    exact hkept

theorem Table.books_setDefaults (T : Table) (s : Store) :
    T.Books (storeSetDefaults T.items s) [] := fun m hm =>
  ⟨m.dfltBytes, shows_setDefaults T.defaults T.apart s m hm, T.defaults m hm, .default⟩

/-- Whatever the files hold, each field has a value of its item in range: that of the last line with
its key which is accepted, or the default. A line changes the field of its item only, and only when
its value is accepted. -/
theorem items_sound (T : Table) (files : List Str) (fresh : Store) :
    (∃ s, parseFiles T.items files (storeSetDefaults T.items fresh) = some s ∧
      ∀ m ∈ T.items, ∃ bytes, Shows s m.fieldOffset bytes ∧ m.Fits bytes ∧
        m.Last (m.values (fileEvents files)) bytes) ∧
    ∀ s key value, (∀ c ∈ value, c ≠ 0) → ∀ a, iniItemHandler T.items s key value a ≠ s a →
      ∃ m ∈ T.items, m.name = key ∧ (∃ bytes, m.Accepts value bytes) ∧
        m.fieldOffset ≤ a ∧ a < m.fieldOffset + m.size := by
  refine ⟨(T.books_setDefaults fresh).parseFiles files, ?_⟩
  intro s key value hvalue a hne
  obtain heq | ⟨m, hm, hname, bytes, haccepts, heq⟩ := T.handler_cases s key value
  · exact absurd (congrFun heq a) hne
  · have hle := (haccepts.fits hm hvalue).length_le
    rw [heq, poke] at hne
    split_ifs at hne with hin
    · exact ⟨m, hm, hname, ⟨bytes, haccepts⟩, hin.1, by omega⟩
    · exact absurd rfl hne

def fiveItems : Table where
  items :=
    [⟨[97], .int, 0, -5, 9, .clamp, le32 3⟩, ⟨[98], .uint, 4, 1, 100, .default, le32 50⟩,
      ⟨[99], .bool, 8, 0, 1, .default, [1]⟩, ⟨[100], .string, 9, 1, 4, .default, [120]⟩,
      ⟨[101], .mac, 14, 0, 0, .default, .replicate 6 0⟩]
  names := by decide
  apart := by decide
  bounds := by decide
  minLength := by simp
  defaults := by
    simp only [List.forall_mem_cons]
    exact ⟨⟨3, by decide⟩, ⟨50, by decide⟩, rfl, ⟨[120], rfl, by simp, by decide⟩, rfl, List.forall_mem_nil _⟩

/-- The lines a=12 and d=yes, and in another file d=tooLong and b=7. -/
theorem fiveItems_sound :
    let files := [[97, 61, 49, 50, 10, 100, 61, 121, 101, 115, 10],
      [100, 61, 116, 111, 111, 76, 111, 110, 103, 10, 98, 61, 55]]
    ∃ s, parseFiles fiveItems.items files (storeSetDefaults fiveItems.items fun _ => 0) = some s ∧
      ∀ m ∈ fiveItems.items, ∃ bytes, Shows s m.fieldOffset bytes ∧ m.Fits bytes ∧
        m.Last (m.values (fileEvents files)) bytes :=
  (items_sound fiveItems _ _).1

end KernelModules.CfgItems
