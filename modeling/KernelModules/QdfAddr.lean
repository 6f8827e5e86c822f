import KernelModules.CfgItems

/-!
# The MAC and IPv4 addresses of the WLAN driver framework

The groups of an address stand one behind the other, with a separator or, in a MAC address, none.
-/

namespace KernelModules.Qdf

/-- The status, and the output, which is written once the address is complete. -/
def addrOut (parse : Str → Option Str) (s out : Str) : Bool × Str :=
  match parse s with
  | none => (false, out)
  | some addr => (true, addr)

def qdfMacParse : Str → Str → Bool × Str := addrOut macParse

def qdfIpv4Parse : Str → Str → Bool × Str := addrOut ipv4Parse

def HexPair (g : Str) : Prop := g.length = 2 ∧ ∀ c ∈ g, isHex c = true

structure Octet (g : Str) : Prop where
  ne_nil : g ≠ []
  length_le : g.length ≤ 3
  digits : Digits 10 g
  value_le : value 10 g ≤ 255

def bytesOf (radix : ℕ) (gs : List Str) : Str := gs.map fun g => UInt8.ofNat (value radix g)

/-- The string is so many parts with the separator in between and blanks around. -/
def Address (sep : Str) (Part : Str → Prop) (radix count : ℕ) (s bytes : Str) : Prop :=
  ∃ ws gs ws', s = ws ++ (sep.intercalate gs ++ ws') ∧ Blank ws ∧ Blank ws' ∧
    gs.length = count ∧ (∀ g ∈ gs, Part g) ∧ bytes = bytesOf radix gs

def Ipv4Address : Str → Str → Prop := Address [46] Octet 10 4

def MacAddress (s bytes : Str) : Prop :=
  Address [58] HexPair 16 6 s bytes ∨ Address [] HexPair 16 6 s bytes

/-- The parser takes just the strings of the grammar and gives their bytes, and when it fails the
output is as it was. -/
def Recognizes (parse : Str → Str → Bool × Str) (grammar : Str → Str → Prop) : Prop :=
  ∀ s out, (∀ bytes, parse s out = (true, bytes) ↔ grammar s bytes) ∧
    ((parse s out).1 = false → (parse s out).2 = out)

variable {consume : Str → Option (UInt8 × Str)} {sepOf : Str → Str → Option Str}
variable {sepStr : Str → Str} {Part Tail : Str → Prop} {grammar : Str → Str → Prop}
variable {radix n v i : ℕ} {b : UInt8}
variable {s t g rest bytes : Str} {gs : List Str}

/-- How the parts and the separators of an address are scanned: a part must be followed by `Tail`,
and the separator is known from what is behind the first part. -/
structure Scans (consume : Str → Option (UInt8 × Str)) (sepOf : Str → Str → Option Str)
    (sepStr : Str → Str) (Part Tail : Str → Prop) (radix : ℕ) : Prop where
  sep : ∀ t s u, sepOf t s = some u ↔ s = sepStr t ++ u
  takes : ∀ g t, Part g → Tail t → consume (g ++ t) = some (UInt8.ofNat (value radix g), t)
  part : ∀ s b t, consume s = some (b, t) →
    ∃ g, Part g ∧ s = g ++ t ∧ b = UInt8.ofNat (value radix g)
  start : ∀ g t, Part g → Stops isSpace (g ++ t)
  tail_sep : ∀ t u, Tail (sepStr t ++ u)
  tail_blank : ∀ ws, Blank ws → Tail ws

theorem intercalate_cons (sep g : Str) (gs : List Str) :
    sep.intercalate (g :: gs) = g ++ gs.flatMap (sep ++ ·) := by
  induction gs generalizing g with
  | nil => simp
  | cons g' gs ih =>
    rw [List.intercalate_cons_cons, ih, List.flatMap_cons, List.append_assoc, List.append_assoc]

theorem Scans.tail (h : Scans consume sepOf sepStr Part Tail radix) (t : Str) (hrest : Blank rest)
    (gs : List Str) : Tail (gs.flatMap (sepStr t ++ ·) ++ rest) := by
  cases gs with
  | nil => exact h.tail_blank rest hrest
  | cons g gs =>
    rw [List.flatMap_cons, List.append_assoc, List.append_assoc]
    exact h.tail_sep t _

theorem Scans.loop_append (h : Scans consume sepOf sepStr Part Tail radix) (t : Str)
    (hgs : ∀ g ∈ gs, Part g) (hrest : Blank rest) :
    addrLoop (sepOf t) consume gs.length (gs.flatMap (sepStr t ++ ·) ++ rest) =
      some (bytesOf radix gs, rest) := by
  induction gs with
  | nil => rfl
  | cons g gs ih =>
    have hg := h.takes g _ (hgs g List.mem_cons_self) (h.tail t hrest gs)
    rw [List.length_cons, addrLoop, List.flatMap_cons, List.append_assoc, List.append_assoc,
      (h.sep t _ _).mpr rfl, Option.bind_some, hg]
    simp [ih fun g hg => hgs g (List.mem_cons_of_mem _ hg), bytesOf]

theorem Scans.loop_some (h : Scans consume sepOf sepStr Part Tail radix)
    (hloop : addrLoop (sepOf t) consume n s = some (bytes, rest)) :
    ∃ gs, s = gs.flatMap (sepStr t ++ ·) ++ rest ∧ gs.length = n ∧ (∀ g ∈ gs, Part g) ∧
      bytes = bytesOf radix gs := by
  induction n generalizing s bytes with
  | zero =>
    cases hloop
    exact ⟨[], rfl, rfl, by simp, rfl⟩
  | succ n ih =>
    rw [addrLoop] at hloop
    split at hloop
    · cases hloop
    next b u heq =>
      obtain ⟨u', hsep, hpart⟩ := Option.bind_eq_some_iff.mp heq
      obtain ⟨⟨bs, rest⟩, hnext, hbytes⟩ := Option.map_eq_some_iff.mp hloop
      cases hbytes
      obtain ⟨gs, rfl, rfl, hgs, rfl⟩ := ih hnext
      obtain ⟨g, hg, rfl, rfl⟩ := h.part _ _ _ hpart
      obtain rfl := (h.sep _ _ _).mp hsep
      refine ⟨g :: gs, by simp, rfl, ?_, rfl⟩
      exact List.forall_mem_cons.mpr ⟨hg, hgs⟩

theorem Scans.parse_some (h : Scans consume sepOf sepStr Part Tail radix)
    (hparse : addrParse sepOf consume (n + 1) s = some bytes) :
    ∃ t, Address (sepStr t) Part radix (n + 1) s bytes := by
  obtain ⟨ws, hws, hs⟩ := exists_strLeftTrim s
  unfold addrParse at hparse
  split at hparse
  · cases hparse
  next b t hpart =>
    split at hparse
    · cases hparse
    next bs rest hloop =>
      split_ifs at hparse with hrest
      cases hparse
      obtain ⟨g, hg, heq, rfl⟩ := h.part _ _ _ hpart
      obtain ⟨gs, ht, hlen, hgs, rfl⟩ := h.loop_some hloop
      refine ⟨t, ws, g :: gs, rest, ?_, hws, strLeftTrim_eq_nil.mp hrest, congrArg (· + 1) hlen,
        List.forall_mem_cons.mpr ⟨hg, hgs⟩, rfl⟩
      rw [intercalate_cons, List.append_assoc, ← ht, ← heq]
      exact hs

theorem Scans.parse_address (h : Scans consume sepOf sepStr Part Tail radix) {sep : Str}
    (hsep : ∀ g gs ws, (∀ g' ∈ g :: gs, Part g') → gs.length = n → Blank ws →
      sepStr (gs.flatMap (sep ++ ·) ++ ws) = sep)
    (hs : Address sep Part radix (n + 1) s bytes) :
    addrParse sepOf consume (n + 1) s = some bytes := by
  obtain ⟨ws, gs, ws', rfl, hws, hws', hlen, hgs, rfl⟩ := hs
  obtain ⟨g, gs, rfl⟩ := List.exists_cons_of_length_eq_add_one hlen
  obtain ⟨hg, htail⟩ := List.forall_mem_cons.mp hgs
  have hlen : gs.length = n := by simpa using hlen
  have hstr := hsep g gs ws' hgs hlen hws'
  have hloop := h.loop_append (gs.flatMap (sep ++ ·) ++ ws') htail hws'
  have hfirst := h.takes g _ hg (h.tail (gs.flatMap (sep ++ ·) ++ ws') hws' gs)
  rw [hstr] at hloop hfirst
  rw [intercalate_cons, List.append_assoc, addrParse, strLeftTrim_append hws (h.start g _ hg),
    hfirst]
  simp only [Nat.add_sub_cancel, ← hlen, hloop, if_pos (strLeftTrim_eq_nil.mpr hws')]
  rfl

theorem recognizes_addrOut {parse : Str → Option Str}
    (h : ∀ s bytes, parse s = some bytes ↔ grammar s bytes) :
    Recognizes (addrOut parse) grammar := by
  intro s out
  unfold addrOut
  cases hparse : parse s with
  | none => simp [← h, hparse]
  | some addr => simp [← h, hparse]

theorem hexPair_scans : Scans consumeHexPair
    (fun s => if s.head? = some 58 then consumeChar 58 else some)
    (fun s => if s.head? = some 58 then [58] else []) HexPair (fun _ => True) 16 where
  sep t s u := by
    split_ifs
    · exact consumeChar_eq_some
    · exact Option.some_inj
  takes g t hg _ := by
    obtain ⟨hi, low, rfl⟩ := List.length_eq_two.mp hg.1
    have hhi := hexDigit_eq (hg.2 hi (by simp))
    have hlow := hexDigit_eq (hg.2 low (by simp))
    simp [consumeHexPair, hhi, hlow, value, valueFrom]
  part s b t h := by
    unfold consumeHexPair at h
    split at h
    next hi low rest =>
      split at h
      next dhi dlow hhi hlow =>
        cases h
        refine ⟨[hi, low], ⟨rfl, ?_⟩, rfl, by simp [value, valueFrom, digit, hhi, hlow]⟩
        simp [isHex, hhi, hlow]
      · cases h
    · cases h
  start g t hg := by
    obtain ⟨hi, low, rfl⟩ := List.length_eq_two.mp hg.1
    rintro c ⟨⟩
    exact not_isSpace_of_isHex (hg.2 hi (by simp))
  tail_sep _ _ := trivial
  tail_blank _ _ := trivial

theorem decimal_digit {c : UInt8} (h : 48 ≤ c ∧ c ≤ 57) : digit c = c.toNat - 48 := by
  simp [digit, hexDigit, h]

theorem octetLoop_append (hg : Digits 10 g) (hlen : g.length ≤ i) (hrest : Stops isHex rest) :
    octetLoop i (n, v) (g ++ rest) = ((n + g.length, valueFrom 10 v g), rest) := by
  induction g generalizing i n v with
  | nil =>
    cases rest with
    | nil => cases i <;> rfl
    | cons c rest =>
      have hnot : ¬(48 ≤ c ∧ c ≤ 57) := fun hc => by
        obtain ⟨d, -, hd⟩ := decimal_iff.mpr hc
        simpa [isHex, hd] using hrest c rfl
      cases i <;> simp [octetLoop, hnot, valueFrom]
  | cons c g ih =>
    obtain ⟨i, rfl⟩ : ∃ j, i = j + 1 := ⟨i - 1, by simp at hlen; omega⟩
    obtain ⟨hc, htail⟩ := List.forall_mem_cons.mp hg
    have hc := decimal_iff.mp hc
    rw [List.cons_append, octetLoop, if_pos hc, ih htail (by simpa using hlen), ← decimal_digit hc]
    simp [valueFrom, Nat.add_right_comm, Nat.add_assoc]

theorem octetLoop_spec (s : Str) : ∃ g rest, s = g ++ rest ∧ g.length ≤ i ∧ Digits 10 g ∧
    octetLoop i (n, v) s = ((n + g.length, valueFrom 10 v g), rest) := by
  induction s generalizing i n v with
  | nil => exact ⟨[], [], by cases i <;> simp [octetLoop, valueFrom, Digits]⟩
  | cons c s ih =>
    cases i with
    | zero => exact ⟨[], c :: s, by simp [octetLoop, valueFrom, Digits]⟩
    | succ i =>
      by_cases hc : 48 ≤ c ∧ c ≤ 57
      · obtain ⟨g, rest, rfl, hlen, hg, heq⟩ :=
          ih (i := i) (n := n + 1) (v := v * 10 + (c.toNat - 48))
        refine ⟨c :: g, rest, rfl, by simpa using hlen,
          List.forall_mem_cons.mpr ⟨decimal_iff.mpr hc, hg⟩, ?_⟩
        rw [octetLoop, if_pos hc, heq, ← decimal_digit hc]
        simp [valueFrom, Nat.add_right_comm, Nat.add_assoc]
      · exact ⟨[], c :: s, by simp [octetLoop, hc, valueFrom, Digits]⟩

theorem octet_scans : Scans consumeOctetDec (fun _ => consumeChar 46) (fun _ => [46]) Octet
    (Stops isHex) 10 where
  sep _ _ _ := consumeChar_eq_some
  takes g t hg ht := by
    have hpos := List.length_pos_iff.mpr hg.ne_nil
    have hle := hg.value_le
    have hloop := octetLoop_append (n := 0) (v := 0) hg.digits hg.length_le ht
    rw [Nat.zero_add] at hloop
    change value 10 g ≤ 255 at hle
    simp only [consumeOctetDec, hloop]
    exact if_neg (not_or.mpr ⟨hpos.ne', hle.not_gt⟩)
  part s b t h := by
    obtain ⟨g, rest, rfl, hlen, hg, heq⟩ := octetLoop_spec (i := 3) (n := 0) (v := 0) s
    simp only [consumeOctetDec, heq, Nat.zero_add] at h
    split_ifs at h with hbad
    cases h
    rw [not_or, List.length_eq_zero_iff] at hbad
    exact ⟨g, ⟨hbad.1, hlen, hg, not_lt.mp hbad.2⟩, rfl, rfl⟩
  start g t hg := by
    obtain ⟨c, g, rfl⟩ := List.exists_cons_of_ne_nil hg.ne_nil
    rintro c' ⟨⟩
    exact not_isSpace_of_isHex (hg.digits.isHex c List.mem_cons_self)
  tail_sep _ _ := by
    rintro c ⟨⟩
    rfl
  tail_blank _ h := h.stops

theorem ipv4Parse_iff : ipv4Parse s = some bytes ↔ Ipv4Address s bytes :=
  ⟨fun h => (octet_scans.parse_some (n := 3) h).choose_spec,
    octet_scans.parse_address (n := 3) fun _ _ _ _ _ _ => rfl⟩

theorem macParse_iff : macParse s = some bytes ↔ MacAddress s bytes := by
  constructor
  · intro h
    obtain ⟨t, ht⟩ := hexPair_scans.parse_some (n := 5) h
    split_ifs at ht
    · exact Or.inl ht
    · exact Or.inr ht
  · rintro (h | h)
    · refine hexPair_scans.parse_address (n := 5) (fun g gs ws hgs hlen hws => ?_) h
      obtain ⟨g', gs, rfl⟩ := List.exists_cons_of_length_eq_add_one hlen
      simp
    · refine hexPair_scans.parse_address (n := 5) (fun g gs ws hgs hlen hws => ?_) h
      obtain ⟨g', gs, rfl⟩ := List.exists_cons_of_length_eq_add_one hlen
      have hg' := hgs g' (by simp)
      obtain ⟨hi, low, rfl⟩ := List.length_eq_two.mp hg'.1
      have hhi := hg'.2 hi (by simp)
      have hne : hi ≠ 58 := by rintro rfl; exact absurd hhi (by decide)
      simp [hne]

theorem addr_parse_recognizes :
    Recognizes qdfIpv4Parse Ipv4Address ∧ Recognizes qdfMacParse MacAddress :=
  ⟨recognizes_addrOut fun _ _ => ipv4Parse_iff, recognizes_addrOut fun _ _ => macParse_iff⟩

end KernelModules.Qdf
