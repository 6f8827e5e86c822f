import KernelModules.IeWalk
import KernelModules.RsnRoundTrip

/-!
# What a check reads of a security element

The suite fields of an element are given by their offsets, in the order of the element. A check is
safe when it reads nothing behind the element, shifts by no negative amount and, if it accepts the
element, knows every suite of it and has set no bit that is not the bit of one of them or of the
default of a field that is absent.
-/

namespace KernelModules.IeWalk

open Bitmap RsnIe

inductive Item
  | suite (f : SuiteSet) (pos : ℕ)
  | absent (f : SuiteSet)

namespace Item

def field : Item → SuiteSet
  | .suite f _ => f
  | .absent f => f

def bit (T : Suites) (m : ℕ → UInt8) : Item → Option ℕ
  | .suite f pos => T.bit f (leRead4At m pos)
  | .absent f => some f.dflt

def Known (T : Suites) (m : ℕ → UInt8) (e : ℕ) : Item → Prop
  | .suite f pos => pos + 4 ≤ e ∧ (T.bit f (leRead4At m pos)).isSome = true
  | .absent _ => True

end Item

def listItems (f : SuiteSet) (pos n : ℕ) : List Item :=
  (List.range n).map fun j => .suite f (pos + 4 * j)

section Grammar

variable (m : ℕ → UInt8) (e : ℕ)

def wpaItems : List Item :=
  let n := leRead2At m 12
  .suite .mcast 8 :: listItems .ucast 14 n ++
    listItems .keyMgmt (16 + 4 * n) (leRead2At m (14 + 4 * n))

def bipItems (o : ℕ) : List Item := if o + 4 ≤ e then [.suite .mgmt o] else [.absent .mgmt]

def bipPos (o : ℕ) : ℕ := if o + 2 ≤ e then o + 2 + leRead2At m o * pmkidLen else o

def rsnListItems (f : SuiteSet) (rest : ℕ → List Item) (o : ℕ) : List Item :=
  if leRead2At m o = 0 then .absent f :: rest (o + 2)
  else listItems f (o + 2) (leRead2At m o) ++ rest (o + 2 + 4 * leRead2At m o)

def rsnCapsItems (o : ℕ) : List Item := bipItems e (bipPos m e (o + 2))

def rsnKeyMgmtItems (o : ℕ) : List Item :=
  if o = e then [.absent .keyMgmt] else rsnListItems m .keyMgmt (rsnCapsItems m e) o

def rsnUcastItems (o : ℕ) : List Item :=
  if o = e then [.absent .ucast, .absent .keyMgmt]
  else rsnListItems m .ucast (rsnKeyMgmtItems m e) o

def rsnItems : List Item :=
  if e = 4 then [.absent .mcast, .absent .ucast, .absent .keyMgmt]
  else .suite .mcast 4 :: rsnUcastItems m e 8

def wapiItems : List Item :=
  let n := leRead2At m 4
  let k := leRead2At m (6 + 4 * n)
  listItems .keyMgmt 6 n ++ listItems .ucast (8 + 4 * n) k ++ [.suite .mcast (8 + 4 * n + 4 * k)]

end Grammar

def From (T : Suites) (m : ℕ → UInt8) (items : List Item) (p p' : CryptoParams) : Prop :=
  ∀ f i, (f.get p').getLsbD i = true →
    (f.get p).getLsbD i = true ∨ ∃ x ∈ items, x.field = f ∧ x.bit T m = some i

/-- Nothing behind the element was read, and no shift was by a negative amount. -/
structure Walk.Clean (e : ℕ) (s : Walk) : Prop where
  reads : ∀ i ∈ s.reads, i < e
  shifts : ∀ k ∈ s.shifts, 0 ≤ k

structure Safe (T : Suites) (m : ℕ → UInt8) (e : ℕ) (items : List Item) (p : CryptoParams)
    (r : Bool × Walk) : Prop where
  clean : r.2.Clean e
  known : r.1 = true → ∀ x ∈ items, x.Known T m e
  bits : r.1 = true → From T m items p r.2.params

/-- The rest of a check is safe under a condition, and clean under no other. -/
structure Judged (T : Suites) (m : ℕ → UInt8) (e : ℕ) (items : List Item) (p : CryptoParams)
    (cond : Prop) (r : Bool × Walk) : Prop where
  safe : cond → Safe T m e items p r
  cond : r.2.Clean e → cond

section Rules

variable {T : Suites} {m : ℕ → UInt8} {e : ℕ} {items items' : List Item} {p p' p'' : CryptoParams}
  {cond cond' : Prop} {r : Bool × Walk} {s : Walk} {f : SuiteSet}

theorem From.refl : From T m items p p := fun _ _ h => .inl h

theorem From.trans (h : From T m items p p') (h' : From T m items' p' p'') :
    From T m (items ++ items') p p'' := by
  intro f i hi
  rcases h' f i hi with hi | ⟨x, hx, hbit⟩
  · rcases h f i hi with hi | ⟨x, hx, hbit⟩
    · exact .inl hi
    · exact .inr ⟨x, List.mem_append_left _ hx, hbit⟩
  · exact .inr ⟨x, List.mem_append_right _ hx, hbit⟩

theorem Judged.safe_iff (h : Judged T m e items p cond r) : Safe T m e items p r ↔ cond :=
  ⟨fun hs => h.cond hs.clean, h.safe⟩

theorem Judged.reject (hs : s.Clean e) (hc : cond) : Judged T m e items p cond (false, s) :=
  ⟨fun _ => ⟨hs, fun hf => absurd hf Bool.false_ne_true, fun hf => absurd hf Bool.false_ne_true⟩,
    fun _ => hc⟩

theorem Judged.accept (hs : s.Clean e) (hc : cond) (hknown : ∀ x ∈ items, x.Known T m e)
    (hbits : From T m items p s.params) : Judged T m e items p cond (true, s) :=
  ⟨fun _ => ⟨hs, fun _ => hknown, fun _ => hbits⟩, fun _ => hc⟩

theorem Judged.prepend {l : List Item} (h : Judged T m e items' p' cond' r)
    (hknown : ∀ x ∈ l, x.Known T m e) (hbits : From T m l p p') (hc : cond ↔ cond') :
    Judged T m e (l ++ items') p cond r := by
  constructor
  · intro hcond
    obtain ⟨hclean, hknown', hbits'⟩ := h.safe (hc.mp hcond)
    refine ⟨hclean, fun hr x hx => ?_, fun hr => hbits.trans (hbits' hr)⟩
    rcases List.mem_append.mp hx with hx | hx
    · exact hknown x hx
    · exact hknown' hr x hx
  · exact fun hclean => hc.mpr (h.cond hclean)

end Rules

namespace SuiteSet

@[simp] theorem get_put (f : SuiteSet) (p : CryptoParams) (set : Set32) : f.get (f.put p set) = set := by
  cases f <;> rfl

theorem get_put_of_ne {f g : SuiteSet} (h : g ≠ f) (p : CryptoParams) (set : Set32) :
    g.get (f.put p set) = g.get p := by
  cases f <;> cases g <;> first | rfl | exact absurd rfl h

theorem dflt_lt (f : SuiteSet) : f.dflt < 32 := by cases f <;> decide

end SuiteSet

namespace Suites

variable {T : Suites} {f : SuiteSet} {sel i : ℕ}

def Small (T : Suites) : Prop := ∀ f sel i, T.bit f sel = some i → i < 32

theorem status_of_some (h : T.bit f sel = some i) : T.status f sel = i := by
  rw [status, h]
  rfl

theorem status_neg_iff : T.status f sel < 0 ↔ T.bit f sel = none := by
  rw [status]
  cases T.bit f sel with
  | none => exact iff_of_true (by decide) rfl
  | some i => exact iff_of_false (Int.not_lt.mpr (Int.natCast_nonneg i)) (Option.some_ne_none i)

theorem small_of_lookup {l : List (ℕ × ℕ)} (hl : ∀ x ∈ l, x.2 < 32) (h : l.lookup sel = some i) :
    i < 32 := hl _ (mem_of_lookup h)

theorem wpa_small : wpa.Small := by
  intro f sel i h
  cases f <;> exact small_of_lookup (by decide) h

theorem wapi_small : wapi.Small := by
  intro f sel i h
  cases f <;> exact small_of_lookup (by decide) h

theorem rsn_small : rsn.Small := by
  have hcipher : ∀ sel i, cipherBit sel = some i → i < 32 := by
    intro sel i h
    obtain ⟨c, rfl⟩ := cipherBit_eq_some h
    cases c <;> decide
  intro f sel i h
  cases f with
  | keyMgmt =>
    obtain ⟨x, hx, rfl⟩ := Option.map_eq_some_iff.mp h
    exact keymgmtSuites_type_lt (sel, x) (mem_of_lookup hx)
  | mcast => exact hcipher sel i h
  | ucast => exact hcipher sel i h
  | mgmt => exact hcipher sel i h

end Suites

namespace Walk

/-- The pointer and the count end where the element does. -/
structure Inside (e : ℕ) (s : Walk) : Prop extends s.Clean e where
  stop : s.frm + s.len.toNat = e

variable {T : Suites} {m : ℕ → UInt8} {e k : ℕ} {s : Walk} {f : SuiteSet}

theorem Clean.read2 (h : s.Clean e) (hroom : s.frm + 2 ≤ e) : (s.read2 m).2.Clean e := by
  refine ⟨?_, h.shifts⟩
  intro i hi
  rcases List.mem_append.mp hi with hi | hi
  · exact h.reads i hi
  · simp only [List.mem_cons, List.not_mem_nil, or_false] at hi
    omega

theorem Clean.read4 (h : s.Clean e) (hroom : s.frm + 4 ≤ e) : (s.read4 m).2.Clean e := by
  refine ⟨?_, h.shifts⟩
  intro i hi
  rcases List.mem_append.mp hi with hi | hi
  · exact h.reads i hi
  · simp only [List.mem_cons, List.not_mem_nil, or_false] at hi
    omega

theorem Clean.shift {s' : Walk} (h : s.Clean e) {w : ℤ} (hw : 0 ≤ w) (hreads : s'.reads = s.reads)
    (hshifts : s'.shifts = s.shifts ++ [w]) : s'.Clean e := by
  refine ⟨?_, ?_⟩
  · rw [hreads]
    exact h.reads
  · intro k hk
    rw [hshifts] at hk
    rcases List.mem_append.mp hk with hk | hk
    · exact h.shifts k hk
    · rw [List.mem_singleton.mp hk]
      exact hw

theorem Inside.read2 (h : s.Inside e) (hroom : 2 ≤ s.len.toNat) : (s.read2 m).2.Inside e :=
  ⟨h.toClean.read2 (by have := h.stop; omega), h.stop⟩

theorem Inside.read4 (h : s.Inside e) (hroom : 4 ≤ s.len.toNat) : (s.read4 m).2.Inside e :=
  ⟨h.toClean.read4 (by have := h.stop; omega), h.stop⟩

theorem toNat_skip (s : Walk) (hk : k ≤ s.len.toNat) : (s.skip k).len.toNat = s.len.toNat - k := by
  have hlt : k < 256 := lt_of_le_of_lt hk s.len.toNat_lt
  have hofNat : (UInt8.ofNat k).toNat = k := UInt8.toNat_ofNat_of_lt' hlt
  rw [skip, UInt8.toNat_sub_of_le _ _ (by rw [UInt8.le_iff_toNat_le, hofNat]; exact hk), hofNat]

theorem Inside.skip (h : s.Inside e) (hk : k ≤ s.len.toNat) : (s.skip k).Inside e := by
  refine ⟨⟨h.reads, h.shifts⟩, ?_⟩
  rw [toNat_skip s hk]
  have hstop := h.stop
  change s.frm + k + _ = e
  omega

theorem Inside.set (h : s.Inside e) (f : SuiteSet) {w : ℤ} (hw : 0 ≤ w) : (s.set f w).Inside e :=
  ⟨h.toClean.shift hw rfl rfl, h.stop⟩

theorem set_get_self (s : Walk) (f : SuiteSet) {i : ℕ} (hi : i < 32) :
    f.get (s.set f i).params = f.get s.params ||| bit 32 i := by
  have hmod : ((i : ℤ) % 32).toNat = i := by omega
  rw [Walk.set, SuiteSet.get_put, hmod]

theorem set_get_of_ne (s : Walk) {f g : SuiteSet} (h : g ≠ f) (w : ℤ) :
    g.get (s.set f w).params = g.get s.params := SuiteSet.get_put_of_ne h _ _

theorem from_set (s : Walk) {x : Item} {i : ℕ} (hx : x.bit T m = some i) (hi : i < 32) :
    From T m [x] s.params (s.set x.field i).params := by
  intro g j hj
  by_cases hg : g = x.field
  · subst g
    rw [set_get_self s _ hi, BitVec.getLsbD_or, Bool.or_eq_true] at hj
    rcases hj with hj | hj
    · exact .inl hj
    · rw [getLsbD_bit, Bool.and_eq_true, decide_eq_true_eq, decide_eq_true_eq] at hj
      exact .inr ⟨x, List.mem_singleton_self x, rfl, by rw [hx, hj.2]⟩
  · rw [set_get_of_ne s hg] at hj
    exact .inl hj

theorem set_ne_zero (s : Walk) (f : SuiteSet) {i : ℕ} (hi : i < 32) :
    f.get (s.set f i).params ≠ 0 := by
  rw [set_get_self s f hi]
  intro hzero
  have hbit : (f.get s.params ||| bit 32 i).getLsbD i = false := by
    rw [hzero]
    exact BitVec.getLsbD_zero
  rw [BitVec.getLsbD_or, getLsbD_bit, decide_eq_true hi, decide_eq_true rfl, Bool.true_and,
    Bool.or_true] at hbit
  cases hbit

end Walk

structure BehindList (T : Suites) (m : ℕ → UInt8) (e : ℕ) (f : SuiteSet) (n : ℕ) (s t : Walk) :
    Prop where
  inside : t.Inside e
  frm : t.frm = s.frm + 4 * n
  bits : From T m (listItems f s.frm n) s.params t.params
  zero_iff : f.get t.params = 0 ↔ n = 0 ∧ f.get s.params = 0
  other : ∀ g, g ≠ f → g.get t.params = g.get s.params

def AllKnown (T : Suites) (m : ℕ → UInt8) (f : SuiteSet) (o n : ℕ) : Prop :=
  ∀ j < n, (T.bit f (leRead4At m (o + 4 * j))).isSome = true

theorem listItems_succ (f : SuiteSet) (o n : ℕ) :
    listItems f o (n + 1) = .suite f o :: listItems f (o + 4) n := by
  rw [listItems, List.range_succ_eq_map, List.map_cons, List.map_map, listItems]
  congr 1
  apply List.map_congr_left
  intro j _
  change Item.suite f _ = Item.suite f _
  congr 1
  omega

theorem mem_listItems {f : SuiteSet} {o n : ℕ} {x : Item} :
    x ∈ listItems f o n ↔ ∃ j < n, x = .suite f (o + 4 * j) := by
  rw [listItems, List.mem_map]
  constructor
  · rintro ⟨j, hj, rfl⟩
    exact ⟨j, List.mem_range.mp hj, rfl⟩
  · rintro ⟨j, hj, rfl⟩
    exact ⟨j, List.mem_range.mpr hj, rfl⟩

section List

variable {T : Suites} {m : ℕ → UInt8} {e n : ℕ} {s : Walk} {f : SuiteSet}

theorem AllKnown.items_known {o : ℕ} (h : AllKnown T m f o n) (hroom : o + 4 * n ≤ e) :
    ∀ x ∈ listItems f o n, x.Known T m e := by
  intro x hx
  obtain ⟨j, hj, rfl⟩ := mem_listItems.mp hx
  exact ⟨by omega, h j hj⟩

theorem setSuites_succ {i : ℕ} (hi : T.bit f (leRead4At m s.frm) = some i) :
    setSuites T m f (n + 1) s = setSuites T m f n (((s.read4 m).2.set f i).skip 4) := by
  have hstatus := Suites.status_of_some hi
  have hnn : ¬ T.status f (leRead4At m s.frm) < 0 := by
    rw [hstatus]
    exact Int.not_lt.mpr (Int.natCast_nonneg i)
  rw [setSuites, Walk.read4]
  dsimp only
  rw [if_neg hnn, hstatus]

theorem Walk.Inside.skip_suite (h : s.Inside e) (m : ℕ → UInt8) (f : SuiteSet) (i : ℕ)
    (hroom : 4 ≤ s.len.toNat) :
    (((s.read4 m).2.set f i).skip 4).Inside e ∧
      (((s.read4 m).2.set f i).skip 4).len.toNat = s.len.toNat - 4 :=
  ⟨((h.read4 hroom).set f (Int.natCast_nonneg i)).skip hroom,
    Walk.toNat_skip ((s.read4 m).2.set f i) hroom⟩

theorem setSuites_known (hT : T.Small) (h : s.Inside e) (hroom : n * 4 ≤ s.len.toNat)
    (hknown : AllKnown T m f s.frm n) :
    ∃ t, setSuites T m f n s = (true, t) ∧ BehindList T m e f n s t := by
  induction n generalizing s with
  | zero => exact ⟨s, rfl, h, rfl, From.refl, ⟨fun hz => ⟨rfl, hz⟩, fun hz => hz.2⟩, fun _ _ => rfl⟩
  | succ n ih =>
    obtain ⟨i, hi⟩ := Option.isSome_iff_exists.mp (hknown 0 (Nat.succ_pos n))
    have hlt := hT f _ i hi
    obtain ⟨hskip, hlen⟩ := h.skip_suite m f i (by omega)
    obtain ⟨t, ht, hbehind⟩ := ih hskip (by rw [hlen]; omega) (by
      intro j hj
      have hold := hknown (j + 1) (by omega)
      have hpos : s.frm + 4 * (j + 1) = s.frm + 4 + 4 * j := by omega
      rw [hpos] at hold
      exact hold)
    refine ⟨t, by rw [setSuites_succ hi, ht], hbehind.inside, ?_, ?_, ?_, ?_⟩
    · rw [hbehind.frm]
      change s.frm + 4 + 4 * n = _
      omega
    · rw [listItems_succ]
      exact ((s.read4 m).2.from_set (x := .suite f s.frm) hi hlt).trans hbehind.bits
    · rw [hbehind.zero_iff]
      constructor
      · exact fun hz => absurd hz.2 (Walk.set_ne_zero _ f hlt)
      · exact fun hz => absurd hz.1 (Nat.succ_ne_zero n)
    · intro g hg
      rw [hbehind.other g hg]
      exact Walk.set_get_of_ne _ hg _

theorem setSuites_unknown (h : s.Inside e) (hroom : n * 4 ≤ s.len.toNat)
    (hunknown : ¬ AllKnown T m f s.frm n) :
    ∃ t, setSuites T m f n s = (false, t) ∧ t.Clean e := by
  induction n generalizing s with
  | zero => exact absurd (fun j hj => absurd hj (Nat.not_lt_zero j)) hunknown
  | succ n ih =>
    have hread : (s.read4 m).2.Inside e := h.read4 (by omega)
    cases hi : T.bit f (leRead4At m s.frm) with
    | none =>
      refine ⟨(s.read4 m).2, ?_, hread.toClean⟩
      rw [setSuites, Walk.read4]
      dsimp only
      rw [if_pos (Suites.status_neg_iff.mpr hi)]
    | some i =>
      obtain ⟨hskip, hlen⟩ := h.skip_suite m f i (by omega)
      rw [setSuites_succ hi]
      apply ih hskip (by rw [hlen]; omega)
      intro hall
      apply hunknown
      intro j hj
      cases j with
      | zero =>
        rw [Nat.mul_zero, Nat.add_zero, hi]
        rfl
      | succ j =>
        have hold := hall j (by omega)
        have hpos : s.frm + 4 * (j + 1) = s.frm + 4 + 4 * j := by omega
        rw [hpos]
        exact hold

end List

end KernelModules.IeWalk
