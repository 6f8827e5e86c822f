import KernelModules.CamPacket
import Mathlib.Tactic

/-!
# The power settings of a camera sensor

A buffer of user space holds commands that power a sensor up and down, and waits. The settings are
collected in two arrays. The running size is compared with the length of the commands only when a
setting has been taken.
-/

namespace KernelModules.CamPower

open CamPacket Function

inductive Sequence
  | up
  | down
  deriving DecidableEq

structure Setting where
  seqType : ℕ
  configVal : ℕ
  delay : ℕ

def maxPowerConfig : ℕ := 12

/-- `SENSOR_SEQ_TYPE_MAX`. -/
def seqTypeMax : ℕ := 12

def halfAt (mem : Bytes) (p : ℕ) : ℕ := (mem p).toNat + 256 * (mem (p + 1)).toNat

/-- The command type, of `CAMERA_SENSOR_CMD_TYPE_PWR_UP` and `CAMERA_SENSOR_CMD_TYPE_PWR_DOWN`. -/
def powerSeq (mem : Bytes) (p : ℕ) : Option Sequence :=
  if mem (p + 5) = 2 then some .up else if mem (p + 5) = 3 then some .down else none

/-- Is the command a `CAMERA_SENSOR_CMD_TYPE_WAIT`? -/
def isWait (mem : Bytes) (p : ℕ) : Bool := mem (p + 5) = 9

/-- A `struct cam_cmd_power` is a header and a first setting. -/
def sizeofPower : ℕ := 20

def sizeofSetting : ℕ := 12

def sizeofHeader : ℕ := 8

abbrev Read := ℕ × ℕ

def validate (mem : Bytes) (p remain : ℕ) : List Read × Bool :=
  if remain < sizeofHeader then ([], false)
  else
    ([(p + 5, 1)],
      decide ((if (powerSeq mem p).isSome then sizeofPower
        else if isWait mem p then sizeofHeader else 0) ≤ remain))

/-- What the loop keeps; a running size has 32 bits. The settings are those that have been written to
the front of the arrays. -/
structure Walk where
  totSize : ℕ
  ptr : ℕ
  lastCmdType : Option Sequence
  size : Sequence → ℕ
  settings : Sequence → List Setting

/-- The pass goes on, frees both arrays or returns as it is. -/
inductive Exit
  | goOn
  | freePowerSettings
  | leave
  deriving DecidableEq

def settingAt (mem : Bytes) (p i : ℕ) : Setting :=
  ⟨halfAt mem (p + 8 + 12 * i), (wordAt mem (p + 8 + 12 * i + 4)).toNat, 0⟩

def settingReads (p i : ℕ) : List Read := [(p + 8 + 12 * i, 2), (p + 8 + 12 * i + 4, 4)]

/-- Setting `i` of the command at `p` is taken. -/
def Walk.take (mem : Bytes) (p : ℕ) (q : Sequence) (i : ℕ) (s : Walk) : Walk :=
  { s with
    settings := update s.settings q (s.settings q ++ [settingAt mem p i])
    totSize := if i = 0 then s.totSize else (s.totSize + sizeofSetting) % 2 ^ 32
    ptr := if i = 0 then s.ptr else s.ptr + sizeofSetting }

/-- The loop over the settings, of which so many are left. -/
def settingLoop (mem : Bytes) (len p : ℕ) (q : Sequence) : ℕ → ℕ → Walk → List Read × Walk × Exit
  | 0, _, s => ([], s, .goOn)
  | left + 1, i, s =>
    let s := s.take mem p q i
    if len < s.totSize then (settingReads p i, s, .freePowerSettings)
    else
      let r := settingLoop mem len p q left (i + 1) s
      (settingReads p i ++ r.1, r.2)

/-- `PWR_UP` and `PWR_DOWN`, each with its own array. -/
def powerCmd (mem : Bytes) (len : ℕ) (q : Sequence) (s : Walk) : List Read × Walk × Exit :=
  let count := (wordAt mem s.ptr).toNat
  if 2 ^ 16 - 1 - s.size q < count then ([(s.ptr, 4)], s, .freePowerSettings)
  else
    let s' := { s with size := update s.size q (s.size q + count) }
    if maxPowerConfig < s'.size q ∨ seqTypeMax ≤ count then ([(s.ptr, 4)], s', .freePowerSettings)
    else
      let r := settingLoop mem len s.ptr q count 0 {
        s' with
        totSize := (s.totSize + sizeofPower) % 2 ^ 32
        ptr := s.ptr + sizeofPower
        lastCmdType := some q }
      ((s.ptr, 4) :: r.1, r.2)

def addDelay (delay : ℕ) (l : List Setting) : List Setting :=
  match l.getLast? with
  | none => l
  | some x => l.dropLast ++ [{ x with delay := (x.delay + delay) % 2 ^ 16 }]

/-- A wait of `CAMERA_SENSOR_WAIT_OP_SW_UCND` delays the last setting of the last sequence. -/
def delayed (mem : Bytes) (p : ℕ) (last : Option Sequence) (f : Sequence → List Setting) :
    Sequence → List Setting :=
  match last with
  | none => f
  | some q =>
    if mem (p + 4) = 3 then update f q (addDelay (halfAt mem p) (f q)) else f

def waitCmd (mem : Bytes) (len : ℕ) (s : Walk) : List Read × Walk × Exit :=
  let s' := { s with
    settings := delayed mem s.ptr s.lastCmdType s.settings
    totSize := (s.totSize + sizeofHeader) % 2 ^ 32
    ptr := s.ptr + sizeofHeader }
  ([(s.ptr + 4, 1), (s.ptr, 2)], s', if len < s'.totSize then .leave else .goOn)

/-- A pass of the loop. -/
def turn (mem : Bytes) (len : ℕ) (s : Walk) : List Read × Walk × Exit :=
  let v := validate mem s.ptr (len - s.totSize)
  if v.2 then
    match powerSeq mem s.ptr with
    | some q => (v.1 ++ (powerCmd mem len q s).1, (powerCmd mem len q s).2)
    | none =>
      if isWait mem s.ptr then (v.1 ++ (waitCmd mem len s).1, (waitCmd mem len s).2)
      else (v.1, s, .freePowerSettings)
  else (v.1, s, .freePowerSettings)

def powerLoop (mem : Bytes) (len : ℕ) : ℕ → Walk → Option (List Read × Walk × Exit)
  | 0, _ => none
  | fuel + 1, s =>
    if len ≤ s.totSize then some ([], s, .goOn)
    else
      let r := turn mem len s
      if r.2.2 = .goOn then (powerLoop mem len fuel r.2.1).map fun t => (r.1 ++ t.1, t.2)
      else some r

/-- The arrays are what the pointers point to; `held` allocations of the call are not freed. -/
structure Result where
  rc : ℤ
  reads : List Read
  arrays : Sequence → Option (List Setting)
  size : Sequence → ℕ
  written : Sequence → ℕ
  held : ℕ

def Result.failed (rc : ℤ) (reads : List Read) : Result :=
  ⟨rc, reads, fun _ => none, fun _ => 0, fun _ => 0, 0⟩

/-- A call with so many passes at most; each allocation succeeds or fails. -/
def updatePowerSettings (alloc : Sequence → Bool) (mem : Bytes) (cmdLength : UInt32)
    (cmdBufLen fuel : ℕ) : Option Result :=
  let v := validate mem 0 cmdBufLen
  if cmdLength.toNat = 0 ∨ cmdBufLen < cmdLength.toNat then some (.failed (-einval) [])
  else if v.2 = false then some (.failed (-einval) v.1)
  else if alloc .up = false ∨ alloc .down = false then some (.failed (-enomem) v.1)
  else
    (powerLoop mem cmdLength.toNat fuel ⟨0, 0, none, fun _ => 0, fun _ => []⟩).map fun r =>
      let written q := (r.2.1.settings q).length
      match r.2.2 with
      | .goOn => ⟨0, v.1 ++ r.1, fun q => some (r.2.1.settings q), r.2.1.size, written, 2⟩
      | .freePowerSettings => { Result.failed (-einval) (v.1 ++ r.1) with written := written }
      | .leave => ⟨-einval, v.1 ++ r.1, fun q => some (r.2.1.settings q), r.2.1.size, written, 2⟩

def settingsAt (mem : Bytes) (p n : ℕ) : List Setting := (List.range n).map (settingAt mem p)

def powerEnd (p n : ℕ) : ℕ := p + 8 + 12 * max n 1

/-- The command at `p` is one of `n` settings for the sequence, and the array has room for them. -/
def Admitted (mem : Bytes) (len p : ℕ) (f : Sequence → List Setting) (q : Sequence) (n : ℕ) :
    Prop :=
  powerSeq mem p = some q ∧ p + sizeofPower ≤ len ∧ n = (wordAt mem p).toNat ∧ n < seqTypeMax ∧
    (f q).length + n ≤ maxPowerConfig

/-- Whole commands lie in front of a position, with the settings of the sequences and the sequence of
the last power command. -/
inductive Tiles (mem : Bytes) (len : ℕ) : ℕ → (Sequence → List Setting) → Option Sequence → Prop
  | start : Tiles mem len 0 (fun _ => []) none
  | power {p f last q n} : Tiles mem len p f last → Admitted mem len p f q n →
      powerEnd p n ≤ len →
      Tiles mem len (powerEnd p n) (update f q (f q ++ settingsAt mem p n)) (some q)
  | wait {p f last} : Tiles mem len p f last → powerSeq mem p = none → isWait mem p →
      p + sizeofHeader ≤ len → Tiles mem len (p + sizeofHeader) (delayed mem p last f) last

structure Result.Sound (mem : Bytes) (len : ℕ) (r : Result) : Prop where
  reads : ∀ x ∈ r.reads, x.1 + x.2 ≤ len
  written : ∀ q, r.written q ≤ maxPowerConfig
  exact : r.rc = 0 → ∃ f last, Tiles mem len len f last ∧ r.arrays = (fun q => some (f q)) ∧
    r.size = fun q => (f q).length
  clean : r.rc ≠ 0 → r.arrays = (fun _ => none) ∧ r.size = (fun _ => 0) ∧ r.held = 0

/-- The settings are inside, or only the last four bytes of one are not, and the running size shows
it. -/
def Fits (len p n : ℕ) : Prop :=
  powerEnd p n ≤ len ∨ 8 ≤ (len - p - 8) % 12 ∧ p + 20 + 12 * ((len - p - 8) / 12) < 2 ^ 32

/-- The header is inside when it is looked at, and so are the settings of each power command that
the loop gets to. -/
def Inside (alloc : Sequence → Bool) (mem : Bytes) (cmdLength : UInt32) (cmdBufLen : ℕ) : Prop :=
  cmdLength.toNat ≠ 0 → cmdLength.toNat ≤ cmdBufLen → sizeofHeader ≤ cmdBufLen →
    6 ≤ cmdLength.toNat ∧
      ((validate mem 0 cmdBufLen).2 = true → alloc .up = true → alloc .down = true →
        ∀ p f last q n, Tiles mem cmdLength.toNat p f last →
          Admitted mem cmdLength.toNat p f q n → Fits cmdLength.toNat p n)

variable {mem : Bytes} {len p n i left : ℕ} {f : Sequence → List Setting} {last : Option Sequence}
variable {q : Sequence} {s : Walk}

theorem take_eq (htot : s.totSize = powerEnd p i) (hptr : s.ptr = powerEnd p i)
    (hlt : powerEnd p (i + 1) < 2 ^ 32) : s.take mem p q i =
      { s with
        settings := update s.settings q (s.settings q ++ [settingAt mem p i])
        totSize := powerEnd p (i + 1)
        ptr := powerEnd p (i + 1) } := by
  unfold Walk.take
  rw [htot, hptr]
  unfold powerEnd sizeofSetting at *
  congr 1
  all_goals split_ifs <;> omega

theorem forall_settingReads {P : Read → Prop} (h₁ : P (p + 8 + 12 * i, 2))
    (h₂ : P (p + 8 + 12 * i + 4, 4)) : ∀ x ∈ settingReads p i, P x := by
  simp [settingReads, h₁, h₂]

theorem settingLoop_fits (htot : s.totSize = powerEnd p i) (hptr : s.ptr = powerEnd p i)
    (hfit : powerEnd p (i + left) ≤ len) (hlen : len < 2 ^ 32) :
    ∃ reads, settingLoop mem len p q left i s = (reads,
      { s with
        settings := update s.settings q
          (s.settings q ++ (List.range' i left).map (settingAt mem p))
        totSize := powerEnd p (i + left)
        ptr := powerEnd p (i + left) }, .goOn) ∧ ∀ x ∈ reads, x.1 + x.2 ≤ len := by
  induction left generalizing i s with
  | zero =>
    obtain ⟨totSize, ptr, lastCmdType, size, settings⟩ := s
    obtain rfl : totSize = _ := htot
    obtain rfl : ptr = _ := hptr
    exact ⟨[], by simp [settingLoop], by simp⟩
  | succ left ih =>
    have hle : powerEnd p (i + 1) ≤ powerEnd p (i + (left + 1)) := by
      unfold powerEnd
      omega
    obtain ⟨reads, heq, hreads⟩ := ih (i := i + 1) (s := s.take mem p q i)
      (by rw [take_eq htot hptr (by omega)]) (by rw [take_eq htot hptr (by omega)])
      (by rwa [Nat.add_right_comm, Nat.add_assoc])
    refine ⟨settingReads p i ++ reads, ?_, ?_⟩
    · rw [settingLoop]
      rw [heq, take_eq htot hptr (by omega)]
      dsimp only
      rw [if_neg (by omega), Nat.add_right_comm, Nat.add_assoc]
      simp [List.range'_succ]
    · unfold powerEnd at hfit
      exact List.forall_mem_append.mpr
        ⟨forall_settingReads (by dsimp only; omega) (by dsimp only; omega), hreads⟩

theorem settingReads_subset (left : ℕ) (s : Walk) :
    settingReads p i ⊆ (settingLoop mem len p q (left + 1) i s).1 := by
  rw [settingLoop]
  split_ifs
  · exact List.Subset.refl _
  · exact List.subset_append_left ..

def Astray (len : ℕ) (s : Walk) : Prop := len ≤ s.ptr ∧ s.totSize + sizeofHeader ≤ len

/-- The settings of a command go over the length: that shows in time, or some bytes are read that lie
behind it. -/
theorem settingLoop_over (mem : Bytes) (htot : s.totSize = powerEnd p i)
    (hptr : s.ptr = powerEnd p i) (hi : powerEnd p i ≤ len) (hover : len < powerEnd p (i + left))
    (hlen : len < 2 ^ 32) :
    let r := settingLoop mem len p q left i s
    (Fits len p (i + left) ∧ r.2.2 = .freePowerSettings ∧ ∀ x ∈ r.1, x.1 + x.2 ≤ len) ∨
      ¬Fits len p (i + left) ∧
        ((∃ x ∈ r.1, len < x.1 + x.2) ∨ r.2.2 = .goOn ∧ Astray len r.2.1) := by
  induction left generalizing i s with
  | zero => exact absurd hi (by simpa using hover)
  | succ left ih =>
    have hassoc : i + (left + 1) = i + 1 + left := by omega
    rcases Nat.lt_or_ge len (powerEnd p (i + 1)) with hnext | hnext
    · -- the setting that goes over
      have hfits : Fits len p (i + (left + 1)) ↔
          p + 8 + 12 * i + 8 ≤ len ∧ p + 20 + 12 * i < 2 ^ 32 := by
        unfold Fits
        unfold powerEnd at *
        omega
      have hpos : 0 < i := by
        unfold powerEnd at *
        omega
      rw [hfits]
      by_cases hin : p + 8 + 12 * i + 8 ≤ len
      · by_cases hwrap : p + 20 + 12 * i < 2 ^ 32
        · refine .inl ⟨⟨hin, hwrap⟩, ?_⟩
          rw [settingLoop, take_eq htot hptr (by unfold powerEnd; omega)]
          rw [if_pos hnext]
          exact ⟨rfl, forall_settingReads (by dsimp only; omega) (by dsimp only; omega)⟩
        · refine .inr ⟨fun h => hwrap h.2, ?_⟩
          have htake : (s.take mem p q i).totSize = (powerEnd p i + 12) % 2 ^ 32 ∧
              (s.take mem p q i).ptr = powerEnd p i + 12 := by
            simp [Walk.take, htot, hptr, Nat.ne_of_gt hpos, sizeofSetting]
          unfold powerEnd at hnext hi htake
          rw [settingLoop]
          rw [if_neg (by omega)]
          cases left with
          | zero =>
            refine .inr ⟨rfl, ?_⟩
            change len ≤ (s.take mem p q i).ptr ∧ (s.take mem p q i).totSize + 8 ≤ len
            omega
          | succ left =>
            refine .inl ⟨(p + 8 + 12 * (i + 1), 2), List.mem_append_right _ ?_, by dsimp only; omega⟩
            exact settingReads_subset left _ (by simp [settingReads])
      · refine .inr ⟨fun h => hin h.1, .inl ⟨(p + 8 + 12 * i + 4, 4), ?_, by dsimp only; omega⟩⟩
        exact settingReads_subset left s (by simp [settingReads])
    · obtain h := ih (i := i + 1) (s := s.take mem p q i)
        (by rw [take_eq htot hptr (by omega)]) (by rw [take_eq htot hptr (by omega)])
        hnext (hassoc ▸ hover)
      have hreads : ∀ x ∈ settingReads p i, x.1 + x.2 ≤ len := by
        unfold powerEnd at hnext
        exact forall_settingReads (by dsimp only; omega) (by dsimp only; omega)
      rw [hassoc, settingLoop]
      dsimp only at h ⊢
      rw [if_neg (by rw [take_eq htot hptr (by omega)]; exact Nat.not_lt.mpr hnext)]
      refine h.imp (fun h => ⟨h.1, h.2.1, fun x hx => (List.mem_append.mp hx).elim (hreads x)
        (h.2.2 x)⟩) fun h => ⟨h.1, h.2.imp_left fun ⟨x, hx, hlt⟩ =>
          ⟨x, List.mem_append_right _ hx, hlt⟩⟩

theorem settingLoop_length (q' : Sequence) :
    ((settingLoop mem len p q left i s).2.1.settings q').length ≤
      (s.settings q').length + if q' = q then left else 0 := by
  induction left generalizing i s with
  | zero => simp [settingLoop]
  | succ left ih =>
    have htake : ((s.take mem p q i).settings q').length =
        (s.settings q').length + if q' = q then 1 else 0 := by
      by_cases hq : q' = q <;> simp [Walk.take, hq]
    rw [settingLoop]
    split_ifs with hover hq
    · rw [htake, if_pos hq]; omega
    · rw [htake, if_neg hq]
    all_goals
      have hle := ih (i := i + 1) (s := s.take mem p q i)
      simp_all
      try omega

def walkAt (p : ℕ) (f : Sequence → List Setting) (last : Option Sequence) : Walk :=
  ⟨p, p, last, fun q => (f q).length, f⟩

theorem length_addDelay (delay : ℕ) (l : List Setting) : (addDelay delay l).length = l.length := by
  unfold addDelay
  cases hl : l.getLast? with
  | none => rfl
  | some x =>
    have hpos : 0 < l.length := List.length_pos_iff.mpr (by rintro rfl; cases hl)
    simp
    omega

theorem length_delayed (q : Sequence) : (delayed mem p last f q).length = (f q).length := by
  cases last with
  | none => rfl
  | some q' =>
    simp only [delayed]
    split_ifs
    · by_cases hq : q = q'
      · subst hq
        rw [update_self, length_addDelay]
      · rw [update_of_ne hq]
    · rfl

theorem Tiles.bounds (h : Tiles mem len p f last) :
    p ≤ len ∧ ∀ q, (f q).length ≤ maxPowerConfig := by
  induction h with
  | start => exact ⟨Nat.zero_le _, fun _ => Nat.zero_le _⟩
  | @power p f last q n _ hallow hle ih =>
    refine ⟨hle, fun q' => ?_⟩
    by_cases hq : q' = q
    · subst hq
      simpa [settingsAt] using hallow.2.2.2.2
    · rw [update_of_ne hq]
      exact ih.2 q'
  | wait _ _ _ hle ih => exact ⟨hle, fun q => by rw [length_delayed]; exact ih.2 q⟩

theorem Admitted.validate (h : Admitted mem len p f q n) :
    validate mem p (len - p) = ([(p + 5, 1)], true) := by
  have hle := h.2.1
  unfold sizeofPower at hle
  rw [CamPower.validate, if_neg (by unfold sizeofHeader; omega), h.1]
  simp [sizeofPower]
  omega

theorem Admitted.turn_eq (h : Admitted mem len p f q n) (hlen : len < 2 ^ 32) :
    turn mem len (walkAt p f last) =
      let r := settingLoop mem len p q n 0 {
        walkAt p f (some q) with
        size := update (fun q => (f q).length) q ((f q).length + n)
        totSize := powerEnd p 0
        ptr := powerEnd p 0 }
      ((p + 5, 1) :: (p, 4) :: r.1, r.2) := by
  obtain ⟨hq, hle, hn, hlt, hroom⟩ := h
  unfold sizeofPower at hle
  unfold maxPowerConfig at hroom
  unfold seqTypeMax at hlt
  simp only [turn, walkAt, Admitted.validate ⟨hq, hle, hn, hlt, hroom⟩, hq, powerCmd, ← hn,
    if_true, update_self, maxPowerConfig, seqTypeMax]
  rw [if_neg (by omega), if_neg (by omega), Nat.mod_eq_of_lt (by unfold sizeofPower; omega)]
  rfl

theorem turn_power (h : Admitted mem len p f q n) (hfit : powerEnd p n ≤ len)
    (hlen : len < 2 ^ 32) : ∃ reads, turn mem len (walkAt p f last) = (reads,
      walkAt (powerEnd p n) (update f q (f q ++ settingsAt mem p n)) (some q), .goOn) ∧
        ∀ x ∈ reads, x.1 + x.2 ≤ len := by
  have hle := h.2.1
  unfold sizeofPower at hle
  rw [h.turn_eq hlen]
  obtain ⟨reads, heq, hreads⟩ := settingLoop_fits (q := q) (i := 0)
    (s := { walkAt p f (some q) with
      size := update (fun q => (f q).length) q ((f q).length + n)
      totSize := powerEnd p 0
      ptr := powerEnd p 0 }) rfl rfl (by rwa [Nat.zero_add]) hlen
  rw [heq]
  refine ⟨(p + 5, 1) :: (p, 4) :: reads, ?_, ?_⟩
  · have hsize : update (fun q => (f q).length) q ((f q).length + n) = fun q' =>
        (update f q (f q ++ settingsAt mem p n) q').length := by
      funext q'
      by_cases hq : q' = q
      · subst hq
        simp [settingsAt]
      · simp [hq]
    simp only [Nat.zero_add, walkAt, hsize, settingsAt, List.range_eq_range']
  · simp only [List.forall_mem_cons]
    exact ⟨by omega, by omega, hreads⟩

theorem turn_over (last : Option Sequence) (h : Admitted mem len p f q n)
    (hover : len < powerEnd p n) (hlen : len < 2 ^ 32) (hroom : ∀ q, (f q).length ≤ maxPowerConfig) :
    let r := turn mem len (walkAt p f last)
    (Fits len p n ∧ r.2.2 = .freePowerSettings ∧ (∀ x ∈ r.1, x.1 + x.2 ≤ len) ∧
        ∀ q, (r.2.1.settings q).length ≤ maxPowerConfig) ∨
      ¬Fits len p n ∧ ((∃ x ∈ r.1, len < x.1 + x.2) ∨ r.2.2 = .goOn ∧ Astray len r.2.1) := by
  have hle := h.2.1
  unfold sizeofPower at hle
  rw [h.turn_eq hlen]
  generalize hs : Walk.mk _ _ _ _ _ = s
  have hloop := settingLoop_over mem (q := q) (i := 0) (p := p) (s := s)
    (by rw [← hs]) (by rw [← hs]) (by unfold powerEnd; omega) (by rwa [Nat.zero_add]) hlen
  rw [Nat.zero_add] at hloop
  refine hloop.imp (fun hin => ⟨hin.1, hin.2.1, ?_, fun q' => ?_⟩) fun hout =>
    ⟨hout.1, hout.2.imp_left ?_⟩
  · simp only [List.forall_mem_cons]
    exact ⟨by omega, by omega, hin.2.2⟩
  · refine Nat.le_trans (settingLoop_length q') ?_
    rw [← hs]
    split_ifs with hq
    · rw [hq]
      exact h.2.2.2.2
    · exact hroom q'
  · rintro ⟨x, hx, hlt⟩
    exact ⟨x, List.mem_cons_of_mem _ (List.mem_cons_of_mem _ hx), hlt⟩

theorem turn_wait (hpower : powerSeq mem p = none) (hwait : isWait mem p = true)
    (hle : p + sizeofHeader ≤ len) (hlen : len < 2 ^ 32) :
    ∃ reads, turn mem len (walkAt p f last) =
      (reads, walkAt (p + sizeofHeader) (delayed mem p last f) last, .goOn) ∧
        ∀ x ∈ reads, x.1 + x.2 ≤ len := by
  have hmod : (p + sizeofHeader) % 2 ^ 32 = p + sizeofHeader := Nat.mod_eq_of_lt (by omega)
  have hvalidate : validate mem p (len - p) = ([(p + 5, 1)], true) := by
    rw [validate, if_neg (by omega), hpower, hwait]
    simp
    omega
  refine ⟨[(p + 5, 1), (p + 4, 1), (p, 2)], ?_, ?_⟩
  · simp only [turn, walkAt, hvalidate, hpower, hwait, waitCmd, if_true, hmod, length_delayed]
    rw [if_neg (by omega)]
    rfl
  · unfold sizeofHeader at hle
    simp
    omega

theorem turn_refused (hp : p < len) (hpower : ∀ q n, ¬Admitted mem len p f q n)
    (hwait : ¬(powerSeq mem p = none ∧ isWait mem p = true ∧ p + sizeofHeader ≤ len)) :
    let r := turn mem len (walkAt p f last)
    r.2.2 = .freePowerSettings ∧ (∀ x ∈ r.1, x.1 + x.2 ≤ len) ∧ r.2.1.settings = f := by
  by_cases hshort : len - p < sizeofHeader
  · simp [turn, walkAt, validate, hshort]
  have hone : ∀ x ∈ [(p + 5, 1)], x.1 + x.2 ≤ len := by
    unfold sizeofHeader at hshort
    simp
    omega
  cases hq : powerSeq mem p with
  | none =>
    have hnot : isWait mem p = false := by
      rw [← Bool.not_eq_true]
      exact fun h => hwait ⟨hq, h, by omega⟩
    simp only [turn, walkAt, validate, if_neg hshort, hq, hnot, Bool.false_eq_true, if_false]
    split_ifs <;> exact ⟨rfl, hone, rfl⟩
  | some q =>
    by_cases hsize : sizeofPower ≤ len - p
    · have hcount : seqTypeMax ≤ (wordAt mem p).toNat ∨
          maxPowerConfig < (f q).length + (wordAt mem p).toNat := by
        by_contra hall
        rw [not_or, Nat.not_le, Nat.not_lt] at hall
        exact hpower q _ ⟨hq, by omega, rfl, hall⟩
      have hreads : ∀ x ∈ [(p + 5, 1)] ++ [(p, 4)], x.1 + x.2 ≤ len := by
        unfold sizeofPower at hsize
        simp
        omega
      simp only [turn, walkAt, validate, if_neg hshort, hq, Option.isSome_some, if_true, hsize,
        decide_true, powerCmd, update_self]
      split_ifs with hmany hallow
      · exact ⟨rfl, hreads, rfl⟩
      · exact ⟨rfl, hreads, rfl⟩
      · exact absurd hcount.symm hallow
    · unfold sizeofHeader at hshort
      simp [turn, walkAt, validate, hq, hsize, sizeofHeader, hshort]
      omega

theorem powerLoop_succ (fuel : ℕ) (hp : p < len) : powerLoop mem len (fuel + 1) (walkAt p f last) =
    if (turn mem len (walkAt p f last)).2.2 = .goOn then
      (powerLoop mem len fuel (turn mem len (walkAt p f last)).2.1).map fun t =>
        ((turn mem len (walkAt p f last)).1 ++ t.1, t.2)
    else some (turn mem len (walkAt p f last)) := by
  rw [powerLoop, if_neg (show ¬len ≤ (walkAt p f last).totSize from Nat.not_le.mpr hp)]

/-- The loop has stayed inside, and has freed the arrays or got to the end of the commands. -/
def Ends (mem : Bytes) (len : ℕ) (r : List Read × Walk × Exit) : Prop :=
  (∀ x ∈ r.1, x.1 + x.2 ≤ len) ∧ (∀ q, (r.2.1.settings q).length ≤ maxPowerConfig) ∧
    (r.2.2 = .freePowerSettings ∨
      r.2.2 = .goOn ∧ ∃ f last, Tiles mem len len f last ∧ r.2.1 = walkAt len f last)

variable {fuel : ℕ}

theorem powerLoop_sound (hlen : len < 2 ^ 32) (h : Tiles mem len p f last)
    (hfits : ∀ p f last q n, Tiles mem len p f last → Admitted mem len p f q n → Fits len p n)
    (hfuel : len - p < fuel) :
    ∃ r, powerLoop mem len fuel (walkAt p f last) = some r ∧ Ends mem len r := by
  induction fuel generalizing p f last with
  | zero => cases hfuel
  | succ fuel ih =>
    have hbounds := h.bounds
    by_cases hend : len ≤ p
    · obtain rfl : p = len := Nat.le_antisymm hbounds.1 hend
      rw [powerLoop, if_pos (show p ≤ (walkAt p f last).totSize from hend)]
      exact ⟨_, rfl, by simp, hbounds.2, .inr ⟨rfl, f, last, h, rfl⟩⟩
    rw [powerLoop_succ fuel (Nat.lt_of_not_le hend)]
    have hgoOn : ∀ {reads p' f' last'}, turn mem len (walkAt p f last) =
        (reads, walkAt p' f' last', .goOn) → (∀ x ∈ reads, x.1 + x.2 ≤ len) →
        Tiles mem len p' f' last' → p < p' → ∃ r, (powerLoop mem len fuel
          (turn mem len (walkAt p f last)).2.1).map
            (fun t => ((turn mem len (walkAt p f last)).1 ++ t.1, t.2)) = some r ∧
          Ends mem len r := fun {reads p' f' last'} heq hreads h' hlt => by
      obtain ⟨r, hr, hin, hrest⟩ := ih h' (by have := h'.bounds.1; omega)
      rw [heq]
      rw [hr]
      exact ⟨(reads ++ r.1, r.2), rfl, List.forall_mem_append.mpr ⟨hreads, hin⟩, hrest⟩
    by_cases hpower : ∃ q n, Admitted mem len p f q n
    · obtain ⟨q, n, hallow⟩ := hpower
      by_cases hfit : powerEnd p n ≤ len
      · obtain ⟨reads, heq, hreads⟩ := turn_power hallow hfit hlen
        rw [if_pos (by rw [heq])]
        exact hgoOn heq hreads (h.power hallow hfit) (by unfold powerEnd; omega)
      · obtain ⟨-, hexit, hreads, hroom⟩ | ⟨hnot, -⟩ :=
          turn_over last hallow (by omega) hlen hbounds.2
        · rw [if_neg (by rw [hexit]; decide)]
          exact ⟨_, rfl, hreads, hroom, .inl hexit⟩
        · exact absurd (hfits p f last q n h hallow) hnot
    · by_cases hwait : powerSeq mem p = none ∧ isWait mem p = true ∧ p + sizeofHeader ≤ len
      · obtain ⟨reads, heq, hreads⟩ := turn_wait (f := f) hwait.1 hwait.2.1
          hwait.2.2 hlen
        rw [if_pos (by rw [heq])]
        exact hgoOn heq hreads (h.wait hwait.1 hwait.2.1 hwait.2.2) (by unfold sizeofHeader; omega)
      · obtain ⟨hexit, hreads, hsettings⟩ := turn_refused (Nat.lt_of_not_le hend)
          (fun q n hallow => hpower ⟨q, n, hallow⟩) hwait
        rw [if_neg (by rw [hexit]; decide)]
        exact ⟨_, rfl, hreads, fun q => by rw [hsettings]; exact hbounds.2 q, .inl hexit⟩

variable {r : List Read × Walk × Exit}

theorem Tiles.reached (hlen : len < 2 ^ 32)
    (h : Tiles mem len p f last)
    (hr : powerLoop mem len fuel (walkAt 0 (fun _ => []) none) = some r) :
    ∃ fuel' r', powerLoop mem len fuel' (walkAt p f last) = some r' ∧ r'.1 ⊆ r.1 := by
  have hnext : ∀ {fuel p f last reads s r'}, powerLoop mem len fuel (walkAt p f last) = some r' →
      p < len → turn mem len (walkAt p f last) = (reads, s, .goOn) →
      ∃ fuel' r'', powerLoop mem len fuel' s = some r'' ∧ r''.1 ⊆ r'.1 := by
    intro fuel p f last reads s r' hr' hlt heq
    cases fuel with
    | zero => cases hr'
    | succ fuel =>
      rw [powerLoop_succ fuel hlt, heq, if_pos rfl] at hr'
      obtain ⟨t, ht, rfl⟩ := Option.map_eq_some_iff.mp hr'
      exact ⟨fuel, t, ht, List.subset_append_right ..⟩
  induction h with
  | start => exact ⟨fuel, r, hr, List.Subset.refl _⟩
  | power _ hallow hfit ih =>
    obtain ⟨fuel', r', hr', hsub⟩ := ih
    obtain ⟨reads, heq, -⟩ := turn_power hallow hfit hlen
    have hlt := hallow.2.1
    unfold sizeofPower at hlt
    obtain ⟨fuel'', r'', hr'', hsub'⟩ := hnext hr' (by omega) heq
    exact ⟨fuel'', r'', hr'', List.Subset.trans hsub' hsub⟩
  | wait _ hpower hwait hle ih =>
    obtain ⟨fuel', r', hr', hsub⟩ := ih
    obtain ⟨reads, heq, -⟩ := turn_wait hpower hwait hle hlen
    unfold sizeofHeader at hle
    obtain ⟨fuel'', r'', hr'', hsub'⟩ := hnext hr' (by omega) heq
    exact ⟨fuel'', r'', hr'', List.Subset.trans hsub' hsub⟩

theorem header_mem
    (hr : powerLoop mem len fuel s = some r) (hsize : s.totSize + sizeofHeader ≤ len) :
    (s.ptr + 5, 1) ∈ r.1 := by
  have hmem : (s.ptr + 5, 1) ∈ (turn mem len s).1 := by
    have hvalidate : (validate mem s.ptr (len - s.totSize)).1 = [(s.ptr + 5, 1)] := by
      rw [validate, if_neg (by omega)]
    unfold turn
    dsimp only
    split
    · split
      · simp [hvalidate]
      · split_ifs <;> simp [hvalidate]
    · simp [hvalidate]
  cases fuel with
  | zero => cases hr
  | succ fuel =>
    rw [powerLoop, if_neg (by unfold sizeofHeader at hsize; omega)] at hr
    dsimp only at hr
    split_ifs at hr
    · obtain ⟨t, -, rfl⟩ := Option.map_eq_some_iff.mp hr
      exact List.mem_append_left _ hmem
    · cases hr
      exact hmem

theorem outside_of_not_fits (hlen : len < 2 ^ 32)
    (hr : powerLoop mem len fuel (walkAt p f last) = some r) (hallow : Admitted mem len p f q n)
    (hroom : ∀ q, (f q).length ≤ maxPowerConfig) (hnot : ¬Fits len p n) :
    ∃ x ∈ r.1, len < x.1 + x.2 := by
  have hlt := hallow.2.1
  unfold sizeofPower at hlt
  have hturn := (turn_over last hallow
    (Nat.lt_of_not_le fun hle => hnot (.inl hle)) hlen hroom).resolve_left fun h => hnot h.1
  cases fuel with
  | zero => cases hr
  | succ fuel =>
    rw [powerLoop_succ fuel (by omega)] at hr
    obtain ⟨-, ⟨x, hx, hout⟩ | ⟨hexit, hptr, hsize⟩⟩ := hturn
    · split_ifs at hr
      · obtain ⟨t, -, rfl⟩ := Option.map_eq_some_iff.mp hr
        exact ⟨x, List.mem_append_left _ hx, hout⟩
      · cases hr
        exact ⟨x, hx, hout⟩
    · rw [if_pos hexit] at hr
      obtain ⟨t, ht, rfl⟩ := Option.map_eq_some_iff.mp hr
      -- the next pass looks at a header behind the commands
      refine ⟨_, List.mem_append_right _ (header_mem ht hsize), by dsimp only; omega⟩

theorem failed_sound {rc : ℤ} {reads : List Read} (hrc : rc ≠ 0)
    (hreads : ∀ x ∈ reads, x.1 + x.2 ≤ len) : (Result.failed rc reads).Sound mem len :=
  ⟨hreads, fun _ => Nat.zero_le _, fun h => absurd h hrc, fun _ => ⟨rfl, rfl, rfl⟩⟩

theorem validate_reads {remain : ℕ} : (validate mem p remain).1 =
    if remain < sizeofHeader then [] else [(p + 5, 1)] := by
  unfold validate
  split_ifs <;> rfl

variable {alloc : Sequence → Bool} {cmdLength : UInt32} {cmdBufLen : ℕ}

theorem inside_of_sound {r : Result}
    (hr : updatePowerSettings alloc mem cmdLength cmdBufLen fuel = some r)
    (hsound : r.Sound mem cmdLength.toNat) : Inside alloc mem cmdLength cmdBufLen := by
  intro h0 hle hheader
  have hfirst : (0 + 5, 1) ∈ (validate mem 0 cmdBufLen).1 := by
    rw [validate_reads, if_neg (by omega)]
    exact List.mem_cons_self
  unfold updatePowerSettings at hr
  dsimp only at hr
  rw [if_neg (by omega)] at hr
  split_ifs at hr with hvalid halloc
  · cases hr
    exact ⟨hsound.reads _ hfirst, fun h => absurd (hvalid.symm.trans h) (by decide)⟩
  · cases hr
    exact ⟨hsound.reads _ hfirst, fun _ hup hdown => by simp [hup, hdown] at halloc⟩
  · obtain ⟨t, ht, rfl⟩ := Option.map_eq_some_iff.mp hr
    have hreads : ∀ x ∈ (validate mem 0 cmdBufLen).1 ++ t.1, x.1 + x.2 ≤ cmdLength.toNat := by
      have hall := hsound.reads
      split at hall <;> exact hall
    refine ⟨hreads _ (List.mem_append_left _ hfirst), fun _ _ _ p f last q n htiles hallow => ?_⟩
    by_contra hnot
    obtain ⟨fuel', r', hr', hsub⟩ := htiles.reached cmdLength.toNat_lt ht
    obtain ⟨x, hx, hout⟩ :=
      outside_of_not_fits cmdLength.toNat_lt hr' hallow htiles.bounds.2 hnot
    exact absurd (hreads x (List.mem_append_right _ (hsub hx))) (Nat.not_le.mpr hout)

theorem sound_of_inside (hinside : Inside alloc mem cmdLength cmdBufLen) :
    ∃ fuel r, updatePowerSettings alloc mem cmdLength cmdBufLen fuel = some r ∧
      r.Sound mem cmdLength.toNat := by
  unfold updatePowerSettings
  by_cases hargs : cmdLength.toNat = 0 ∨ cmdBufLen < cmdLength.toNat
  · exact ⟨0, _, if_pos hargs, failed_sound (by decide) (by simp)⟩
  simp only [if_neg hargs]
  have hreads : ∀ x ∈ (validate mem 0 cmdBufLen).1, x.1 + x.2 ≤ cmdLength.toNat := by
    rw [validate_reads]
    split_ifs with hshort
    · simp
    · have hsix := (hinside (by omega) (by omega) (by omega)).1
      simpa using hsix
  by_cases hvalid : (validate mem 0 cmdBufLen).2 = false
  · exact ⟨0, _, if_pos hvalid, failed_sound (by decide) hreads⟩
  by_cases halloc : alloc .up = false ∨ alloc .down = false
  · exact ⟨0, _, by rw [if_neg hvalid, if_pos halloc], failed_sound (by decide) hreads⟩
  have hheader : sizeofHeader ≤ cmdBufLen := by
    by_contra hshort
    simp [validate, Nat.lt_of_not_le hshort] at hvalid
  rw [not_or, Bool.not_eq_false, Bool.not_eq_false] at halloc
  obtain ⟨t, ht, hin, hroom, hends⟩ := powerLoop_sound cmdLength.toNat_lt .start
    ((hinside (by omega) (by omega) hheader).2 (by simpa using hvalid) halloc.1 halloc.2)
    (Nat.lt_succ_self (cmdLength.toNat - 0))
  refine ⟨_, _, by
    rw [if_neg hvalid, if_neg (by simp [halloc])]
    exact congrArg (Option.map _) ht, ?_⟩
  have hall := List.forall_mem_append.mpr ⟨hreads, hin⟩
  obtain hexit | ⟨hexit, f, last, htiles, hwalk⟩ := hends
  · simp only [hexit]
    exact ⟨hall, hroom, fun h => absurd (show -einval = 0 from h) (by decide),
      fun _ => ⟨rfl, rfl, rfl⟩⟩
  · simp only [hexit, hwalk]
    exact ⟨hall, hwalk ▸ hroom, fun _ => ⟨f, last, htiles, rfl, rfl⟩, fun h => absurd rfl h⟩

/-- A call ends, stays inside the commands and does all or nothing just when the header of the first
command and the settings of each power command that it gets to are inside them. -/
theorem updatePowerSettings_sound_iff (alloc : Sequence → Bool) (mem : Bytes) (cmdLength : UInt32)
    (cmdBufLen : ℕ) : (∃ fuel r, updatePowerSettings alloc mem cmdLength cmdBufLen fuel = some r ∧
      r.Sound mem cmdLength.toNat) ↔ Inside alloc mem cmdLength cmdBufLen :=
  ⟨fun ⟨_, _, hr, hsound⟩ => inside_of_sound hr hsound, sound_of_inside⟩

/-- A power-up command of two settings, of which only the first is there. -/
theorem updatePowerSettings_not_sound : ¬∀ alloc mem cmdLength cmdBufLen, ∃ fuel r,
    updatePowerSettings alloc mem cmdLength cmdBufLen fuel = some r ∧
      r.Sound mem cmdLength.toNat := fun hall => by
  obtain ⟨fuel, r, hr, hsound⟩ := hall (fun _ => true)
    (fun p => if p = 0 ∨ p = 5 then 2 else 0) 20 20
  have hfits := (inside_of_sound hr hsound (by decide) (by decide) (by decide)).2 (by decide) rfl rfl
    0 _ _ .up 2 .start ⟨by decide, by decide, by decide, by decide, by decide⟩
  exact absurd hfits (by unfold Fits powerEnd; decide)

end KernelModules.CamPower
