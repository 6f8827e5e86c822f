import KernelModules.QdfStr
import Mathlib.Tactic.Ring

/-!
# The IPv6 addresses of the WLAN driver framework

An address is eight groups of hexadecimal digits, or fewer and one `::` in place of the zero groups.
The parser asks whether a group follows a colon only as long as a group is wanted, so that a colon
behind the eighth group goes unnoticed.
-/

namespace KernelModules.Qdf

/-- The loop of `consumeHextet`, over so many digits at most. -/
def hextetLoop : ℕ → ℕ × ℕ → Str → (ℕ × ℕ) × Str
  | i + 1, (len, hextet), c :: rest =>
    match hexDigit c with
    | some digit => hextetLoop i (len + 1, (hextet * 16 + digit) % 2 ^ 16) rest
    | none => ((len, hextet), c :: rest)
  | _, r, s => (r, s)

def consumeHextet (s : Str) : Option (ℕ × Str) :=
  let r := hextetLoop 4 (0, 0) s
  if r.1.1 = 0 then none else some (r.1.2, r.2)

def octets (hextets : List ℕ) : Str :=
  hextets.flatMap fun h => [UInt8.ofNat (h / 256), UInt8.ofNat h]

def applyZeroComp (hextets : List ℕ) (zeroComp : ℕ) : List ℕ :=
  hextets.take zeroComp ++ (List.replicate (8 - hextets.length) 0 ++ hextets.drop zeroComp)

/-- The loop over the hextets, of which so many are still wanted. -/
def ipv6Loop : ℕ → List ℕ → Option ℕ → Str → Option (List ℕ × Option ℕ × Str)
  | 0, hextets, zeroComp, s => some (hextets, zeroComp, s)
  | left + 1, hextets, zeroComp, s =>
    match consumeHextet s with
    | none => if zeroComp = some hextets.length then some (hextets, zeroComp, s) else none
    | some (hextet, s) =>
      match consumeChar 58 s with
      | none => some (hextets ++ [hextet], zeroComp, s)
      | some s =>
        match consumeChar 58 s with
        | none => ipv6Loop left (hextets ++ [hextet]) zeroComp s
        | some s =>
          if zeroComp.isSome then none
          else ipv6Loop left (hextets ++ [hextet]) (some (hextets.length + 1)) s

/-- What the loop starts with: is there a `::` in front? -/
def ipv6Start (s : Str) : Option (Option ℕ × Str) :=
  match consumeChar 58 s with
  | none => some (none, s)
  | some s => (consumeChar 58 s).map fun s => (some 0, s)

def ipv6Finish : List ℕ × Option ℕ × Str → Option Str
  | (hextets, zeroComp, s) =>
    if strLeftTrim s ≠ [] then none
    else if hextets.length < 8 then zeroComp.map fun zc => octets (applyZeroComp hextets zc)
    else if zeroComp.isSome then none
    else some (octets hextets)

def ipv6Parse (s : Str) : Option Str :=
  match ipv6Start (strLeftTrim s) with
  | none => none
  | some (zeroComp, s) =>
    match ipv6Loop 8 [] zeroComp s with
    | none => none
    | some r => ipv6Finish r

structure Group (g : Str) : Prop where
  ne_nil : g ≠ []
  length_le : g.length ≤ 4
  hex : ∀ c ∈ g, isHex c = true

def Groups (gs : List Str) : Prop := ∀ g ∈ gs, Group g

def colons (gs : List Str) : Str := [58].intercalate gs

def values (gs : List Str) : List ℕ := gs.map (value 16)

/-- The body of the string, and the address it stands for. -/
inductive Body : Str → List ℕ → Prop
  | full {gs} : Groups gs → gs.length = 8 → Body (colons gs) (values gs)
  | compressed {front back} : Groups front → Groups back → front.length + back.length < 8 →
      Body (colons front ++ (58 :: 58 :: colons back))
        (values front ++ (List.replicate (8 - (front.length + back.length)) 0 ++ values back))

def Denotes (s : Str) (bytes : Str) : Prop :=
  ∃ ws body ws' hextets, s = ws ++ (body ++ ws') ∧ Blank ws ∧ Blank ws' ∧ Body body hextets ∧
    bytes = octets hextets

def TrailingColon (s : Str) : Prop :=
  ∃ ws gs ws', s = ws ++ (colons gs ++ (58 :: ws')) ∧ Blank ws ∧ Blank ws' ∧ Groups gs ∧
    gs.length = 8

variable {s t g rest ws bytes : Str} {gs front back : List Str} {v left : ℕ} {hs hs' : List ℕ}
variable {zc zc' : Option ℕ}

theorem digit_lt (c : UInt8) : digit c < 16 := by
  have hall : ∀ n : Fin 256, digit ⟨⟨n⟩⟩ < 16 := by decide +kernel
  exact hall c.toFin

theorem hexDigit_eq {c : UInt8} (h : isHex c = true) : hexDigit c = some (digit c) := by
  obtain ⟨d, hd⟩ := Option.isSome_iff_exists.mp h
  simp [digit, hd]

theorem next_mod {i : ℕ} (hv : (v + 1) * 16 ^ (i + 1) ≤ 2 ^ 16) (c : UInt8) :
    (v * 16 + digit c) % 2 ^ 16 = v * 16 + digit c ∧
      (v * 16 + digit c + 1) * 16 ^ i ≤ 2 ^ 16 := by
  have hd := digit_lt c
  have hle : (v * 16 + digit c + 1) * 16 ^ i ≤ 2 ^ 16 :=
    (Nat.mul_le_mul_right _ (by omega)).trans ((pow_succ' 16 i ▸ mul_assoc (v + 1) 16 _).le.trans hv)
  have hone : (v * 16 + digit c + 1) * 1 ≤ 2 ^ 16 :=
    (Nat.mul_le_mul_left _ (Nat.one_le_pow _ _ (by decide))).trans hle
  exact ⟨Nat.mod_eq_of_lt (by omega), hle⟩

theorem hextetLoop_append {i len : ℕ} (hg : ∀ c ∈ g, isHex c = true) (hi : g.length ≤ i)
    (hv : (v + 1) * 16 ^ i ≤ 2 ^ 16) (hrest : Stops isHex rest) :
    hextetLoop i (len, v) (g ++ rest) = ((len + g.length, valueFrom 16 v g), rest) := by
  induction g generalizing i len v with
  | nil =>
    cases rest with
    | nil => cases i <;> rfl
    | cons c rest =>
      have hnone : hexDigit c = none := by simpa [isHex] using hrest c rfl
      cases i <;> simp [hextetLoop, hnone, valueFrom]
  | cons c g ih =>
    obtain ⟨i, rfl⟩ : ∃ j, i = j + 1 := ⟨i - 1, by simp at hi; omega⟩
    obtain ⟨hmod, hnext⟩ := next_mod hv c
    rw [List.cons_append, hextetLoop, hexDigit_eq (hg c List.mem_cons_self)]
    dsimp only
    rw [hmod, ih (fun c hc => hg c (List.mem_cons_of_mem _ hc)) (by simpa using hi) hnext]
    simp [valueFrom, Nat.add_right_comm, Nat.add_assoc]

theorem hextetLoop_spec {i n : ℕ} (hv : (v + 1) * 16 ^ i ≤ 2 ^ 16) (s : Str) :
    ∃ g rest, s = g ++ rest ∧ g.length ≤ i ∧ (∀ c ∈ g, isHex c = true) ∧
      hextetLoop i (n, v) s = ((n + g.length, valueFrom 16 v g), rest) := by
  induction s generalizing i n v with
  | nil => exact ⟨[], [], by cases i <;> simp [hextetLoop, valueFrom]⟩
  | cons c s ih =>
    cases i with
    | zero => exact ⟨[], c :: s, by simp [hextetLoop, valueFrom]⟩
    | succ i =>
      cases hd : hexDigit c with
      | none => exact ⟨[], c :: s, by simp [hextetLoop, hd, valueFrom]⟩
      | some d =>
        have hdigit : digit c = d := by simp [digit, hd]
        obtain ⟨hmod, hnext⟩ := next_mod hv c
        obtain ⟨g, rest, rfl, hlen, hhex, heq⟩ := ih hnext
        refine ⟨c :: g, rest, rfl, by simpa using hlen, ?_, ?_⟩
        · simpa [isHex, hd] using hhex
        · rw [hextetLoop, hd]
          dsimp only
          rw [← hdigit, hmod, heq]
          simp [valueFrom, Nat.add_right_comm, Nat.add_assoc]

theorem consumeHextet_append (hg : ∀ c ∈ g, isHex c = true) (hlen : g.length ≤ 4)
    (hrest : Stops isHex rest) :
    consumeHextet (g ++ rest) = if g.length = 0 then none else some (value 16 g, rest) := by
  simp only [consumeHextet,
    hextetLoop_append (v := 0) hg hlen (by decide) hrest, Nat.zero_add]
  rfl

theorem consumeHextet_some (h : consumeHextet s = some (v, rest)) :
    ∃ g, Group g ∧ s = g ++ rest ∧ v = value 16 g := by
  obtain ⟨g, rest', rfl, hlen, hhex, heq⟩ := hextetLoop_spec (i := 4) (v := 0) (n := 0)
    (by decide) s
  simp only [consumeHextet, heq] at h
  split_ifs at h with hne
  cases h
  exact ⟨g, ⟨by rintro rfl; simp at hne, hlen, hhex⟩, rfl, rfl⟩

theorem Group.stops (hg : Group g) : ∀ c ∈ (g ++ t).head?, c ≠ 58 ∧ isSpace c = false := by
  obtain ⟨c, g, rfl⟩ := List.exists_cons_of_ne_nil hg.ne_nil
  rintro c' ⟨⟩
  have hhex := hg.hex c List.mem_cons_self
  exact ⟨by rintro rfl; exact absurd hhex (by decide), not_isSpace_of_isHex hhex⟩

theorem consumeChar_eq_none {c : UInt8} : consumeChar c s = none ↔ ∀ c' ∈ s.head?, c' ≠ c := by
  cases s <;> simp [consumeChar]

theorem consumeChar_eq_some {c : UInt8} : consumeChar c s = some t ↔ s = c :: t := by
  cases s <;> simp [consumeChar]

theorem loop_of_stops (left : ℕ) (hs : List ℕ) (zc : Option ℕ) (ht : Stops isHex t) :
    ipv6Loop (left + 1) hs zc t = if zc = some hs.length then some (hs, zc, t) else none := by
  have hnone := consumeHextet_append (g := []) (by simp) (by decide) ht
  rw [ipv6Loop, show consumeHextet t = none from hnone]

theorem Group.loop (hg : Group g) (ht : Stops isHex t) : ipv6Loop (left + 1) hs zc (g ++ t) =
    match consumeChar 58 t with
    | none => some (hs ++ [value 16 g], zc, t)
    | some s =>
      match consumeChar 58 s with
      | none => ipv6Loop left (hs ++ [value 16 g]) zc s
      | some s =>
        if zc.isSome then none
        else ipv6Loop left (hs ++ [value 16 g]) (some (hs.length + 1)) s := by
  have hlen := List.length_pos_iff.mpr hg.ne_nil
  rw [ipv6Loop, consumeHextet_append hg.hex hg.length_le ht, if_neg (by omega)]

theorem stops_colon : Stops isHex (58 :: t) := by
  rintro c ⟨⟩
  rfl

theorem colons_cons (g : Str) (hgs : gs ≠ []) : colons (g :: gs) = g ++ 58 :: colons gs := by
  obtain ⟨g', gs, rfl⟩ := List.exists_cons_of_ne_nil hgs
  simp [colons]

theorem Groups.stops (hgs : Groups gs) (hne : gs ≠ []) :
    ∀ c ∈ (colons gs ++ t).head?, c ≠ 58 ∧ isSpace c = false := by
  obtain ⟨g, gs, rfl⟩ := List.exists_cons_of_ne_nil hne
  have hg := hgs g List.mem_cons_self
  by_cases hnil : gs = []
  · subst hnil
    simpa [colons] using hg.stops
  · rw [colons_cons g hnil, List.append_assoc]
    exact hg.stops

theorem Groups.tail (hgs : Groups (g :: gs)) : Groups gs :=
  fun g' hg' => hgs g' (List.mem_cons_of_mem _ hg')

theorem Groups.head (hgs : Groups (g :: gs)) : Group g := hgs g List.mem_cons_self

theorem Groups.loop (hgs : Groups gs) (hne : gs ≠ []) (ht : Stops isHex t) :
    ipv6Loop (left + gs.length) hs zc (colons gs ++ t) =
      match consumeChar 58 t with
      | none => some (hs ++ values gs, zc, t)
      | some s =>
        match consumeChar 58 s with
        | none => ipv6Loop left (hs ++ values gs) zc s
        | some s =>
          if zc.isSome then none
          else ipv6Loop left (hs ++ values gs) (some (hs.length + gs.length)) s := by
  induction gs generalizing hs with
  | nil => exact absurd rfl hne
  | cons g gs ih =>
    by_cases hnil : gs = []
    · subst hnil
      simpa [colons, values] using hgs.head.loop ht
    · have hnext := consumeChar_eq_none.mpr fun c hc => (hgs.tail.stops (t := t) hnil c hc).1
      rw [colons_cons g hnil, List.append_assoc, List.length_cons, ← Nat.add_assoc,
        List.cons_append, hgs.head.loop stops_colon]
      simp only [consumeChar_eq_some.mpr rfl, hnext, ih hgs.tail hnil]
      simp [values, Nat.add_comm, Nat.add_left_comm]

theorem Blank.consumeChar (h : Blank ws) : consumeChar 58 ws = none :=
  consumeChar_eq_none.mpr fun c hc => by
    rintro rfl
    exact absurd (h _ (List.mem_of_mem_head? hc)) (by decide)

theorem Groups.loop_back (hgs : Groups gs) (hws : Blank ws) (hlt : gs.length < left) :
    ipv6Loop left hs (some hs.length) (colons gs ++ ws) =
      some (hs ++ values gs, some hs.length, ws) := by
  obtain ⟨k, rfl⟩ : ∃ k, left = k + 1 + gs.length := ⟨left - 1 - gs.length, by omega⟩
  by_cases hnil : gs = []
  · subst hnil
    have hstop := loop_of_stops k hs (some hs.length) hws.stops
    simpa [colons, values] using hstop
  · rw [hgs.loop hnil hws.stops, hws.consumeChar]

theorem loop_some {k : ℕ} (h : ipv6Loop left hs (some k) s = some (hs', zc', rest))
    (hk : k ≤ hs.length) (hleft : hs.length + left = 8) (hlt : zc' ≠ none → hs'.length < 8) :
    ∃ back, Groups back ∧ s = colons back ++ rest ∧ zc' = some k ∧ hs' = hs ++ values back ∧
      (back = [] → k = hs.length) := by
  induction left generalizing hs s with
  | zero =>
    cases h
    have hlen := hlt (by simp)
    omega
  | succ left ih =>
    rw [ipv6Loop] at h
    split at h
    · split_ifs at h with heq
      cases h
      exact ⟨[], by simp [Groups], rfl, rfl, by simp [values], fun _ => Option.some.inj heq⟩
    next v t hv =>
      obtain ⟨g, hg, rfl, rfl⟩ := consumeHextet_some hv
      split at h
      · cases h
        exact ⟨[g], by simpa [Groups] using hg, by simp [colons], rfl, rfl, by simp⟩
      next t' ht =>
        obtain rfl := consumeChar_eq_some.mp ht
        split at h
        · obtain ⟨back, hback, rfl, rfl, rfl, hnil⟩ := ih h (by simp; omega) (by simp; omega)
          have hne : back ≠ [] := fun hb => by
            have hlen := hnil hb
            simp at hlen
            omega
          refine ⟨g :: back, by simpa [Groups] using ⟨hg, hback⟩, ?_, rfl, by simp [values],
            by simp⟩
          rw [colons_cons g hne, List.append_assoc, List.cons_append]
        · cases h

theorem loop_none (h : ipv6Loop left hs none s = some (hs', zc', rest))
    (hleft : hs.length + left = 8) (hlt : zc' ≠ none → hs'.length < 8) :
    ∃ front, Groups front ∧
      ((zc' = none ∧ hs' = hs ++ values front ∧ front.length ≤ left ∧
          (front ≠ [] ∧ s = colons front ++ rest ∨ s = front.flatMap (· ++ [58]) ++ rest)) ∨
        ∃ back, front ≠ [] ∧ Groups back ∧ s = colons front ++ (58 :: 58 :: (colons back ++ rest)) ∧
          zc' = some (hs.length + front.length) ∧ hs' = hs ++ (values front ++ values back)) := by
  induction left generalizing hs s with
  | zero =>
    cases h
    exact ⟨[], by simp [Groups], Or.inl ⟨rfl, by simp [values], le_rfl, Or.inr rfl⟩⟩
  | succ left ih =>
    rw [ipv6Loop] at h
    split at h
    · simp at h
    next v t hv =>
      obtain ⟨g, hg, rfl, rfl⟩ := consumeHextet_some hv
      have hone : Groups [g] := by simpa [Groups] using hg
      split at h
      · cases h
        exact ⟨[g], hone, Or.inl ⟨rfl, rfl, by simp, Or.inl ⟨by simp, by simp [colons]⟩⟩⟩
      next t' ht =>
        obtain rfl := consumeChar_eq_some.mp ht
        split at h
        next hplain =>
          obtain ⟨front, hfront, hout⟩ := ih h (by simp; omega)
          have hcons : Groups (g :: front) := by simpa [Groups] using ⟨hg, hfront⟩
          rcases hout with ⟨rfl, rfl, hle, ⟨hne, rfl⟩ | rfl⟩ | ⟨back, hne, hback, rfl, rfl, rfl⟩
          · refine ⟨g :: front, hcons, Or.inl ⟨rfl, by simp [values], by simpa using hle,
              Or.inl ⟨by simp, ?_⟩⟩⟩
            rw [colons_cons g hne, List.append_assoc, List.cons_append]
          · exact ⟨g :: front, hcons, Or.inl ⟨rfl, by simp [values], by simpa using hle,
              Or.inr (by simp)⟩⟩
          · refine ⟨g :: front, hcons, Or.inr ⟨back, by simp, hback, ?_, ?_, by simp [values]⟩⟩
            · rw [colons_cons g hne, List.append_assoc, List.cons_append]
            · simp [Nat.add_comm, Nat.add_left_comm]
        next t' ht =>
          obtain rfl := consumeChar_eq_some.mp ht
          obtain ⟨back, hback, rfl, rfl, rfl, -⟩ := loop_some h (by simp) (by simp; omega) hlt
          exact ⟨[g], hone, Or.inr ⟨back, by simp, hback, by simp [colons], by simp,
            by simp [values]⟩⟩

theorem finish_full (hws : Blank ws) (hlen : hs.length = 8) :
    ipv6Finish (hs, none, ws) = some (octets hs) := by
  simp [ipv6Finish, strLeftTrim_eq_nil.mpr hws, hlen]

theorem finish_compressed {hs' : List ℕ} (hws : Blank ws) (hlen : hs.length + hs'.length < 8) :
    ipv6Finish (hs ++ hs', some hs.length, ws) =
      some (octets (hs ++ (List.replicate (8 - (hs.length + hs'.length)) 0 ++ hs'))) := by
  simp [ipv6Finish, strLeftTrim_eq_nil.mpr hws, hlen, applyZeroComp]

theorem Groups.start (hgs : Groups gs) (hne : gs ≠ []) (hws : Blank ws) :
    ipv6Start (strLeftTrim (ws ++ (colons gs ++ t))) = some (none, colons gs ++ t) := by
  rw [strLeftTrim_append hws fun c hc => (hgs.stops hne c hc).2, ipv6Start,
    consumeChar_eq_none.mpr fun c hc => (hgs.stops hne c hc).1]

theorem Denotes.parse (h : Denotes s bytes) : ipv6Parse s = some bytes := by
  obtain ⟨ws, body, ws', hextets, rfl, hws, hws', hbody, rfl⟩ := h
  cases hbody with
  | @full gs hgs hlen =>
    have hne : gs ≠ [] := by rintro rfl; cases hlen
    have hloop : ipv6Loop (0 + gs.length) [] none _ = _ := hgs.loop hne hws'.stops
    rw [hws'.consumeChar, hlen] at hloop
    simp only [ipv6Parse, hgs.start hne hws, hloop]
    exact finish_full hws' (by simpa [values] using hlen)
  | @compressed front back hfront hback hlt =>
    have hlen : (values front).length = front.length := by simp [values]
    have hfinish : ipv6Finish (values front ++ values back, _) = _ :=
      finish_compressed hws' (by simpa [values] using hlt)
    by_cases hnil : front = []
    · subst hnil
      have hloop : ipv6Loop 8 [] _ _ = _ := hback.loop_back hws' (by simpa using hlt)
      rw [show colons [] = [] from rfl, List.nil_append, ipv6Parse,
        strLeftTrim_append hws (by rintro c ⟨⟩; rfl)]
      simp only [List.cons_append, ipv6Start, consumeChar_eq_some.mpr rfl, Option.map_some]
      rw [show some 0 = some ([] : List ℕ).length from rfl, hloop]
      simpa [values] using hfinish
    · have hloop : ipv6Loop (8 - front.length + front.length) [] none _ = _ := hfront.loop
        (t := 58 :: 58 :: (colons back ++ ws')) hnil stops_colon
      have hnext : ipv6Loop (8 - front.length) (values front) _ _ = _ :=
        hback.loop_back hws' (by omega)
      simp only [consumeChar_eq_some.mpr rfl, List.nil_append, List.length_nil, Nat.zero_add,
        Nat.sub_add_cancel (show front.length ≤ 8 by omega), hlen ▸ hnext] at hloop
      rw [List.append_assoc, List.cons_append, List.cons_append, ipv6Parse,
        hfront.start hnil hws]
      simpa [hloop, hlen, values] using hfinish

theorem TrailingColon.parse (h : TrailingColon s) : ∃ bytes, ipv6Parse s = some bytes := by
  obtain ⟨ws, gs, ws', rfl, hws, hws', hgs, hlen⟩ := h
  have hne : gs ≠ [] := by rintro rfl; cases hlen
  have hloop : ipv6Loop 8 [] none (colons gs ++ 58 :: ws') = some (values gs, none, ws') := by
    rw [← hlen, ← Nat.zero_add gs.length, hgs.loop hne stops_colon]
    simp only [consumeChar_eq_some.mpr rfl, hws'.consumeChar]
    rfl
  refine ⟨octets (values gs), ?_⟩
  simp only [ipv6Parse, hgs.start hne hws, hloop]
  exact finish_full hws' (by simpa [values] using hlen)

theorem finish_some (h : ipv6Finish (hs, zc, ws) = some bytes) :
    Blank ws ∧ (zc ≠ none → hs.length < 8) ∧ (zc = none → 8 ≤ hs.length) := by
  simp only [ipv6Finish] at h
  split_ifs at h with hrest hlt hzc
  · exact ⟨strLeftTrim_eq_nil.mp (not_not.mp hrest), fun _ => hlt, by rintro rfl; cases h⟩
  · exact ⟨strLeftTrim_eq_nil.mp (not_not.mp hrest),
      fun hne => absurd (Option.ne_none_iff_isSome.mp hne) hzc, fun _ => by omega⟩

theorem flatMap_colon (hne : gs ≠ []) : gs.flatMap (· ++ [58]) = colons gs ++ [58] := by
  induction gs with
  | nil => exact absurd rfl hne
  | cons g gs ih =>
    by_cases hnil : gs = []
    · subst hnil
      simp [colons]
    · rw [List.flatMap_cons, ih hnil, colons_cons g hnil]
      simp

theorem loop_length (h : ipv6Loop left hs zc s = some (hs', zc', rest)) :
    hs'.length ≤ hs.length + left := by
  induction left generalizing hs zc s with
  | zero => cases h; omega
  | succ left ih =>
    rw [ipv6Loop] at h
    split at h
    · split_ifs at h
      cases h
      omega
    · split at h
      · cases h
        simp
      · split at h
        · have hle := ih h
          simp at hle
          omega
        · split_ifs at h
          have hle := ih h
          simp at hle
          omega

theorem length_ipv6Parse (h : ipv6Parse s = some bytes) : bytes.length = 16 := by
  have hoctets : ∀ hs : List ℕ, (octets hs).length = 2 * hs.length := fun hs => by
    induction hs with
    | nil => rfl
    | cons h hs ih =>
      have hcons : octets (h :: hs) = UInt8.ofNat (h / 256) :: UInt8.ofNat h :: octets hs := rfl
      rw [hcons, List.length_cons, List.length_cons, ih, List.length_cons]
      omega
  unfold ipv6Parse at h
  split at h
  · cases h
  · split at h
    · cases h
    next hloop =>
      have hle := loop_length hloop
      simp only [ipv6Finish] at h
      split_ifs at h with hrest hlt
      · obtain ⟨k, -, rfl⟩ := Option.map_eq_some_iff.mp h
        rw [hoctets, applyZeroComp]
        simp
        omega
      · cases h
        rw [hoctets]
        simp at hle
        omega

theorem denotes_or_trailing (h : ipv6Parse s = some bytes) : Denotes s bytes ∨ TrailingColon s := by
  obtain ⟨ws, hws, hs⟩ := exists_strLeftTrim s
  unfold ipv6Parse at h
  generalize strLeftTrim s = t at hs h
  obtain rfl := hs
  split at h
  · cases h
  next zc u hstart =>
    split at h
    · cases h
    next r hloop =>
      obtain ⟨hs', zc', rest⟩ := r
      obtain ⟨hrest, hlt, hge⟩ := finish_some h
      unfold ipv6Start at hstart
      split at hstart
      · cases hstart
        obtain ⟨front, hfront, ⟨rfl, rfl, hle, hout⟩ | ⟨back, -, hback, rfl, rfl, rfl⟩⟩ :=
          loop_none hloop rfl hlt
        · have hlen : front.length = 8 := by
            have hge := hge rfl
            simp [values] at hge
            omega
          rw [List.nil_append, finish_full hrest (by simpa [values] using hlen)] at h
          cases h
          rcases hout with ⟨-, rfl⟩ | rfl
          · exact Or.inl ⟨ws, _, rest, _, rfl, hws, hrest, Body.full hfront hlen, rfl⟩
          · rw [flatMap_colon (by rintro rfl; cases hlen), List.append_assoc]
            exact Or.inr ⟨ws, front, rest, rfl, hws, hrest, hfront, hlen⟩
        · have hlt : front.length + back.length < 8 := by simpa [values] using hlt
          have hfinish : ipv6Finish (values front ++ values back, _) = _ :=
            finish_compressed hrest (by simpa [values] using hlt)
          simp only [List.length_nil, Nat.zero_add, List.nil_append] at h
          rw [show front.length = (values front).length by simp [values], hfinish] at h
          cases h
          refine Or.inl ⟨ws, _, rest, _, ?_, hws, hrest, Body.compressed hfront hback hlt, ?_⟩
          · simp
          · simp [values]
      · obtain ⟨u', hu, heq⟩ := Option.map_eq_some_iff.mp hstart
        cases heq
        obtain rfl := consumeChar_eq_some.mp hu
        obtain ⟨back, hback, rfl, rfl, rfl, -⟩ := loop_some hloop le_rfl rfl hlt
        have hlt : back.length < 8 := by simpa [values] using hlt
        have hfinish : ipv6Finish ([] ++ values back, _) = _ :=
          finish_compressed hrest (by simpa [values] using hlt)
        rw [show some 0 = some ([] : List ℕ).length from rfl, hfinish] at h
        cases h
        rw [consumeChar_eq_some.mp ‹consumeChar 58 t = some _›]
        refine Or.inl ⟨ws, _, rest, _, ?_, hws, hrest,
          Body.compressed (show Groups [] by simp [Groups]) hback (by simpa using hlt), ?_⟩
        · simp [colons]
        · simp [values]

theorem Groups.last (hgs : Groups gs) (hne : gs ≠ []) :
    ∃ t c, colons gs = t ++ [c] ∧ isHex c = true := by
  induction gs with
  | nil => exact absurd rfl hne
  | cons g gs ih =>
    by_cases hnil : gs = []
    · subst hnil
      have hlast := List.dropLast_concat_getLast hgs.head.ne_nil
      exact ⟨g.dropLast, g.getLast hgs.head.ne_nil, by simp [colons, hlast],
        hgs.head.hex _ (List.getLast_mem _)⟩
    · obtain ⟨t, c, ht, hc⟩ := ih hgs.tail hnil
      exact ⟨g ++ 58 :: t, c, by simp [colons_cons g hnil, ht], hc⟩

theorem TrailingColon.not_denotes (h : TrailingColon s) : ¬Denotes s bytes := by
  rintro ⟨w, body, w', hextets, hs, -, hw', hbody, -⟩
  obtain ⟨ws, gs, ws', rfl, -, hws', hgs, hlen⟩ := h
  obtain ⟨t, c, ht, hc⟩ := hgs.last (by rintro rfl; cases hlen)
  have hcolon : ¬isHex 58 := by decide
  have htrim := congrArg strRightTrim hs
  rw [← List.append_assoc, strRightTrim_append rfl hws', ht] at htrim
  -- the string ends in a colon behind a digit, and a body in a digit or two colons
  have hhex : ∀ {u d}, isHex d = true → body = u ++ [d] → False := by
    rintro u d hd rfl
    rw [show w ++ (u ++ [d] ++ w') = (w ++ u) ++ d :: w' by simp,
      strRightTrim_append (not_isSpace_of_isHex hd) hw'] at htrim
    obtain rfl : 58 = d := by simpa using (List.append_inj' htrim rfl).2
    exact hcolon hd
  cases hbody with
  | full hgs' hlen' =>
    obtain ⟨u, d, hu, hd⟩ := hgs'.last (by rintro rfl; cases hlen')
    exact hhex hd hu
  | @compressed front back _ hback _ =>
    by_cases hnil : back = []
    · subst hnil
      rw [show w ++ (colons front ++ 58 :: 58 :: colons [] ++ w') =
          (w ++ colons front ++ [58]) ++ 58 :: w' by simp [colons],
        strRightTrim_append rfl hw', ← List.append_assoc] at htrim
      obtain rfl : c = 58 := by
        simpa using (List.append_inj' (List.append_inj' htrim rfl).1 rfl).2
      exact hcolon hc
    · obtain ⟨u, d, hu, hd⟩ := hback.last hnil
      exact hhex (u := colons front ++ (58 :: 58 :: u)) hd (by simp [hu])

/-- The parser takes just the addresses of the grammar and gives their bytes, unless a colon is
behind the eighth group. -/
theorem ipv6Parse_exact_iff (s : Str) :
    (∀ bytes, ipv6Parse s = some bytes ↔ Denotes s bytes) ↔ ¬TrailingColon s := by
  constructor
  · intro hexact htrailing
    obtain ⟨bytes, hbytes⟩ := htrailing.parse
    exact htrailing.not_denotes ((hexact bytes).mp hbytes)
  · exact fun hnot bytes =>
      ⟨fun h => (denotes_or_trailing h).resolve_right hnot, Denotes.parse⟩

/-- 1:2:3:4:5:6:7:8: is accepted. -/
theorem ipv6Parse_trailingColon :
    ¬∀ s bytes, ipv6Parse s = some bytes ↔ Denotes s bytes := fun hall => by
  have htrailing : TrailingColon
      [49, 58, 50, 58, 51, 58, 52, 58, 53, 58, 54, 58, 55, 58, 56, 58] := by
    refine ⟨[], [[49], [50], [51], [52], [53], [54], [55], [56]], [], rfl, by simp [Blank],
      by simp [Blank], fun g hg => ?_, rfl⟩
    simp only [List.mem_cons, List.not_mem_nil, or_false] at hg
    rcases hg with rfl | rfl | rfl | rfl | rfl | rfl | rfl | rfl
    all_goals exact ⟨by simp, by simp, List.forall_mem_singleton.mpr rfl⟩
  obtain ⟨bytes, hbytes⟩ := htrailing.parse
  exact htrailing.not_denotes ((hall _ bytes).mp hbytes)

end KernelModules.Qdf
