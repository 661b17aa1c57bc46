import KernelLoader.Lib.Copy

namespace KernelLoader.Ps2fs
open Lib
set_option autoImplicit true
set_option relaxedAutoImplicit false

/-- The number of bytes in a character of more than one byte, by its first byte. -/
def seqLength (c : UInt8) : Option Nat :=
  if c &&& 0x40 = 0 then none
  else if c &&& 0x20 = 0 then some 2
  else if c &&& 0x10 = 0 then some 3
  else if c &&& 0x08 = 0 then some 4
  else if c &&& 0x04 = 0 then some 5
  else if c &&& 0x02 = 0 then some 6
  else none

/-- The loop over the bytes that follow: the code point, the place behind the bytes that were read,
and whether all of them were there. -/
def gather (m : Mem) (buf codepoint : Nat) : Nat → Nat × Nat × Bool
  | 0 => (codepoint, buf, true)
  | n + 1 =>
    if m buf = 0 ∨ m buf &&& 0xC0 ≠ 0x80 then (codepoint, buf, false)
    else gather m (buf + 1) (codepoint <<< 6 ||| (m buf &&& 0x3F).toNat) n

/-- `translate_from_unicode` in place; `uni2euc` is the table of that name. When a byte of a
character is missing, the question mark is stored and the character is converted all the same. -/
def translateFromUnicode (uni2euc : Nat → Nat) (m : Mem) (buf dest : Nat) : Nat → Option Mem
  | 0 => none
  | fuel + 1 =>
    let c := m buf
    if c = 0 then some (putBytes m dest [0])
    else if c &&& 0x80 = 0 then
      translateFromUnicode uni2euc (putBytes m dest [c]) (buf + 1) (dest + 1) fuel
    else
      match seqLength c with
      | none => translateFromUnicode uni2euc (putBytes m dest [0x3F]) (buf + 1) (dest + 1) fuel
      | some nbytes =>
        let (codepoint, buf, complete) :=
          gather m (buf + 1) ((c.toNat &&& (0x7F >>> nbytes))) (nbytes - 1)
        let (m, dest) := if complete then (m, dest) else (putBytes m dest [0x3F], dest + 1)
        if codepoint > 0xFFFF then
          translateFromUnicode uni2euc (putBytes m dest [0x3F]) buf (dest + 1) fuel
        else
          let eucval := uni2euc codepoint
          translateFromUnicode uni2euc
            (putBytes m dest [.ofNat (eucval >>> 8), .ofNat (eucval &&& 0xFF)]) buf (dest + 2) fuel

/-- The bytes of a name in UTF-8, character by character. -/
inductive Utf8
  | plain (c : UInt8)
  | stray (c : UInt8)
  | wide (c : UInt8) (cs : List UInt8)

namespace Utf8

def bytes : Utf8 → List UInt8
  | plain c => [c]
  | stray c => [c]
  | wide c cs => c :: cs

/-- All the bytes of the character are there. -/
def Valid : Utf8 → Prop
  | plain c => c ≠ 0 ∧ c &&& 0x80 = 0
  | stray c => c &&& 0x80 ≠ 0 ∧ seqLength c = none
  | wide c cs => c &&& 0x80 ≠ 0 ∧ seqLength c = some (cs.length + 1) ∧ ∀ x ∈ cs, x &&& 0xC0 = 0x80

def addByte (codepoint : Nat) (x : UInt8) : Nat := codepoint <<< 6 ||| (x &&& 0x3F).toNat

def codepoint (c : UInt8) (cs : List UInt8) : Nat :=
  cs.foldl addByte (c.toNat &&& (0x7F >>> (cs.length + 1)))

/-- What a character becomes in EUC-JP. -/
def euc (uni2euc : Nat → Nat) : Utf8 → List UInt8
  | plain c => [c]
  | stray _ => [0x3F]
  | wide c cs =>
    if codepoint c cs > 0xFFFF then [0x3F]
    else [.ofNat (uni2euc (codepoint c cs) >>> 8), .ofNat (uni2euc (codepoint c cs) &&& 0xFF)]

end Utf8

section From
variable {uni2euc : Nat → Nat} {m : Mem} {buf dest fuel : Nat} {cs : List UInt8}
  {s : List Utf8}

theorem seqLength_ge (h : seqLength c = some n) : 2 ≤ n ∧ n ≤ 6 := by
  simp only [seqLength] at h
  repeat' split at h
  all_goals cases h
  all_goals decide

theorem Utf8.euc_le {x : Utf8} (h : x.Valid) : (x.euc uni2euc).length ≤ x.bytes.length := by
  cases x with
  | plain c => exact Nat.le_refl 1
  | stray c => exact Nat.le_refl 1
  | wide c cs =>
    have hlen := (seqLength_ge h.2.1).1
    rw [euc, bytes, List.length_cons]
    split
    · exact Nat.succ_le_succ (Nat.zero_le _)
    · exact Nat.succ_le_succ (by simp; omega)

theorem gather_eq (hcs : ∀ x ∈ cs, x &&& 0xC0 = 0x80) (hm : BytesAt m buf cs) (codepoint : Nat) :
    gather m buf codepoint cs.length =
      (cs.foldl Utf8.addByte codepoint, buf + cs.length, true) := by
  induction cs generalizing buf codepoint with
  | nil => rfl
  | cons x cs ih =>
    have hx := hcs x List.mem_cons_self
    have hne : x ≠ 0 := by
      intro h
      subst h
      cases hx
    rw [List.length_cons, gather, hm.1, if_neg (by simp [hx, hne]),
      ih (fun y hy => hcs y (List.mem_cons_of_mem x hy)) hm.2, List.foldl_cons, Utf8.addByte,
      Nat.add_assoc, Nat.add_comm 1]

theorem translateFromUnicode_step {x : Utf8} (hx : x.Valid) (hm : BytesAt m buf x.bytes) :
    translateFromUnicode uni2euc m buf dest (fuel + 1) =
      translateFromUnicode uni2euc (putBytes m dest (x.euc uni2euc)) (buf + x.bytes.length)
        (dest + (x.euc uni2euc).length) fuel := by
  cases x with
  | plain c =>
    have hc : m buf = c := hm.1
    simp [translateFromUnicode, hc, hx.1, hx.2, Utf8.euc, Utf8.bytes]
  | stray c =>
    have hc : m buf = c := hm.1
    have hne : c ≠ 0 := by
      intro h
      subst h
      exact hx.1 rfl
    simp [translateFromUnicode, hc, hne, hx.1, hx.2, Utf8.euc, Utf8.bytes]
  | wide c cs =>
    have hc : m buf = c := hm.1
    have hne : c ≠ 0 := by
      intro h
      subst h
      exact hx.1 rfl
    have hgather := gather_eq hx.2.2 hm.2 (c.toNat &&& (0x7F >>> (cs.length + 1)))
    have hplace : buf + 1 + cs.length = buf + (cs.length + 1) := by omega
    rw [translateFromUnicode]
    simp only [hc, if_neg hne, if_neg hx.1, hx.2.1, Nat.add_sub_cancel, hgather, if_true, Utf8.euc,
      Utf8.bytes, List.length_cons, hplace]
    rw [← Utf8.codepoint]
    split <;> rfl

/-- Characters that are all there are translated one after the other. What is stored never reaches
the bytes that are still to be read. -/
theorem translateFromUnicode_steps (hs : ∀ x ∈ s, x.Valid) (hle : dest ≤ buf)
    (hm : BytesAt m buf (s.flatMap Utf8.bytes)) :
    translateFromUnicode uni2euc m buf dest (s.length + fuel) =
      translateFromUnicode uni2euc (putBytes m dest (s.flatMap (Utf8.euc uni2euc)))
        (buf + (s.flatMap Utf8.bytes).length)
        (dest + (s.flatMap (Utf8.euc uni2euc)).length) fuel := by
  induction s generalizing m buf dest with
  | nil => simp [putBytes]
  | cons x s ih =>
    have hx := hs x List.mem_cons_self
    have hshort : (x.euc uni2euc).length ≤ x.bytes.length := Utf8.euc_le hx
    rw [List.flatMap_cons, bytesAt_append] at hm
    rw [List.length_cons, Nat.add_right_comm, translateFromUnicode_step hx hm.1,
      ih (fun y hy => hs y (List.mem_cons_of_mem x hy)) (by omega) (hm.2.put (by omega)),
      List.flatMap_cons, List.flatMap_cons, putBytes_append, List.length_append,
      List.length_append, Nat.add_assoc, Nat.add_assoc]

theorem translateFromUnicode_end (h : m buf = 0) :
    translateFromUnicode uni2euc m buf dest (fuel + 1) = some (putBytes m dest [0]) := by
  rw [translateFromUnicode, h]
  rfl

theorem translateFromUnicode_run (hs : ∀ x ∈ s, x.Valid)
    (hm : BytesAt m buf (s.flatMap Utf8.bytes ++ [0])) (hfuel : s.length < fuel) :
    translateFromUnicode uni2euc m buf buf fuel =
      some (putBytes m buf (s.flatMap (Utf8.euc uni2euc) ++ [0])) := by
  have hshort : (s.flatMap (Utf8.euc uni2euc)).length ≤ (s.flatMap Utf8.bytes).length := by
    clear hm hfuel
    induction s with
    | nil => exact Nat.le_refl 0
    | cons x s ih =>
      have hx : (x.euc uni2euc).length ≤ x.bytes.length := Utf8.euc_le (hs x List.mem_cons_self)
      have htail := ih fun y hy => hs y (List.mem_cons_of_mem x hy)
      simp only [List.flatMap_cons, List.length_append]
      omega
  rw [bytesAt_append] at hm
  obtain ⟨k, rfl⟩ : ∃ k, fuel = s.length + (k + 1) := ⟨fuel - s.length - 1, by omega⟩
  rw [translateFromUnicode_steps hs (Nat.le_refl buf) hm.1, translateFromUnicode_end,
    putBytes_append]
  rw [putBytes_outside (by omega)]
  exact hm.2.1

theorem translateFromUnicode_cut {c : UInt8} (hc : c &&& 0x80 ≠ 0) (hseq : seqLength c = some n)
    (htable : ∀ p < 32, uni2euc p = 0x3F) (hm : BytesAt m buf [c, 0]) :
    translateFromUnicode uni2euc m buf dest (fuel + 1) =
      translateFromUnicode uni2euc (putBytes m dest [0x3F, 0, 0x3F]) (buf + 1) (dest + 3) fuel := by
  have hne : c ≠ 0 := by
    intro h
    subst h
    exact hc rfl
  have hn := seqLength_ge hseq
  have hgather : ∀ p, gather m (buf + 1) p (n - 1) = (p, buf + 1, false) := by
    intro p
    obtain ⟨k, hk⟩ : ∃ k, n - 1 = k + 1 := ⟨n - 2, by omega⟩
    rw [hk, gather, if_pos (.inl hm.2.1)]
  have hsmall : c.toNat &&& (0x7F >>> n) < 32 := by
    apply Nat.lt_of_le_of_lt Nat.and_le_right
    rw [Nat.shiftRight_eq_div_pow]
    have hpow : 2 ^ 2 ≤ 2 ^ n := Nat.pow_le_pow_right (by decide) hn.1
    exact Nat.div_lt_of_lt_mul (by omega)
  rw [translateFromUnicode]
  simp only [hm.1, if_neg hne, if_neg hc, hseq, hgather, Bool.false_eq_true, if_false]
  rw [if_neg (by omega), htable _ hsmall]
  rfl

/-- A question mark just before the place to store at is copied for ever. -/
theorem translateFromUnicode_chase (h : m buf = 0x3F) :
    translateFromUnicode uni2euc m buf (buf + 1) fuel = none := by
  induction fuel generalizing m buf with
  | zero => rfl
  | succ fuel ih =>
    rw [translateFromUnicode, h]
    apply ih
    exact Function.update_self _ _ _

variable {c : UInt8} {n : Nat}

/-- A name that ends right behind the first byte of a character and has not become shorter before is
stored with two bytes more than it had: a name of 255 bytes leaves its buffer of 256. -/
theorem translateFromUnicode_overruns (hs : ∀ x ∈ s, x.Valid)
    (hlen : (s.flatMap (Utf8.euc uni2euc)).length = (s.flatMap Utf8.bytes).length)
    (hc : c &&& 0x80 ≠ 0) (hseq : seqLength c = some n) (htable : ∀ p < 32, uni2euc p = 0x3F)
    (hm : BytesAt m buf (s.flatMap Utf8.bytes ++ [c, 0])) (fuel : Nat) :
    translateFromUnicode uni2euc m buf buf (s.length + (fuel + 2)) =
        some (putBytes m buf (s.flatMap (Utf8.euc uni2euc) ++ [0x3F, 0, 0x3F, 0])) ∧
      (s.flatMap (Utf8.euc uni2euc) ++ [0x3F, 0, 0x3F, 0]).length =
        (s.flatMap Utf8.bytes ++ [c, 0]).length + 2 := by
  rw [bytesAt_append] at hm
  refine ⟨?_, by simp [hlen]⟩
  rw [translateFromUnicode_steps hs (Nat.le_refl buf) hm.1,
    translateFromUnicode_cut hc hseq htable (hm.2.put (by omega)), hlen, translateFromUnicode_end,
    putBytes_append, hlen]
  · rfl
  -- the second byte that was stored took the place of the end of the name
  · exact (bytesAt_putBytes (putBytes m buf (s.flatMap (Utf8.euc uni2euc)))
      (buf + (s.flatMap Utf8.bytes).length) [0x3F, 0, 0x3F]).2.1

theorem translateFromUnicode_overruns_short :
    translateFromUnicode (fun _ => 0x3F) (fun i => if i = 0 then 0xC3 else 0) 0 0 2 =
      some (putBytes (fun i => if i = 0 then 0xC3 else 0) 0 [0x3F, 0, 0x3F, 0]) :=
  (translateFromUnicode_overruns (s := []) (c := 0xC3) (n := 2) (fun _ h => nomatch h) rfl
    (by decide) (by decide) (fun _ _ => rfl) ⟨rfl, rfl, trivial⟩ 0).1

/-- A name that ends right behind the first byte of a character and has become shorter by one byte
before is never done: the end of the name is overwritten, and memory is filled with question
marks. -/
theorem translateFromUnicode_diverges (hs : ∀ x ∈ s, x.Valid)
    (hlen : (s.flatMap (Utf8.euc uni2euc)).length + 1 = (s.flatMap Utf8.bytes).length)
    (hc : c &&& 0x80 ≠ 0) (hseq : seqLength c = some n) (htable : ∀ p < 32, uni2euc p = 0x3F)
    (hm : BytesAt m buf (s.flatMap Utf8.bytes ++ [c, 0])) (fuel : Nat) :
    translateFromUnicode uni2euc m buf buf (s.length + (fuel + 1)) = none := by
  rw [bytesAt_append] at hm
  rw [translateFromUnicode_steps hs (Nat.le_refl buf) hm.1,
    translateFromUnicode_cut hc hseq htable (hm.2.put (by omega)), ← hlen]
  -- the third byte that was stored took the place of the end of the name
  have hmark := (bytesAt_putBytes (putBytes m buf (s.flatMap (Utf8.euc uni2euc)))
    (buf + (s.flatMap (Utf8.euc uni2euc)).length) [0x3F, 0, 0x3F]).2.2.1
  exact translateFromUnicode_chase hmark

theorem translateFromUnicode_diverges_kana :
    translateFromUnicode (fun p => if p < 32 then 0x3F else 0xA4A2)
      (fun i => [0xE3, 0x81, 0x82, 0xC3].getD i 0) 0 0 1000 = none :=
  translateFromUnicode_diverges (s := [.wide 0xE3 [0x81, 0x82]]) (c := 0xC3) (n := 2)
    (fun x hx => by
      rw [List.mem_singleton] at hx
      subst hx
      refine ⟨by decide, by decide, ?_⟩
      intro y hy
      simp only [List.mem_cons, List.not_mem_nil, or_false] at hy
      rcases hy with rfl | rfl <;> decide)
    (by decide) (by decide) (by decide) (fun p hp => if_pos hp)
    ⟨rfl, rfl, rfl, rfl, rfl, trivial⟩ 998

end From

/-- The next character of a name in UTF-8, and the number of its bytes in the name. The test for a
second byte looks one byte too far, at the zero behind the name. -/
def encodeChar (euc2uni : Nat → Nat) (name : Mem) (buf stop : Nat) : List UInt8 × Nat :=
  let c := name buf
  let d := name (buf + 1)
  if c &&& 0x80 = 0 then ([c], 1)
  else if c < 0xA1 ∨ c > 0xFE ∨ buf + 1 > stop ∨ d < 0xA1 ∨ d > 0xFE then
    ([(0xC0 : UInt8) ||| c >>> 6, (0x80 : UInt8) ||| (c &&& 0x3F)], 1)
  else
    let i := euc2uni ((c.toNat - 0xA1) * 94 + (d.toNat - 0xA1))
    ([.ofNat (0xE0 ||| i >>> 12), .ofNat (0x80 ||| (i >>> 6 &&& 0x3F)),
      .ofNat (0x80 ||| (i &&& 0x3F))], 2)

theorem encodeChar_pos (euc2uni : Nat → Nat) (name : Mem) (buf stop : Nat) :
    0 < (encodeChar euc2uni name buf stop).2 := by
  simp only [encodeChar]
  split
  · exact Nat.one_pos
  · split
    · exact Nat.one_pos
    · exact Nat.two_pos

/-- The loop of `translate_to_unicode`: whether the name fits, and the bytes that were stored. -/
def encodeFrom (euc2uni : Nat → Nat) (name : Mem) (buf stop : Nat) (destlen : Int) :
    Bool × List UInt8 :=
  if buf < stop then
    let char := encodeChar euc2uni name buf stop
    let destlen := destlen - char.1.length
    if destlen ≤ 0 then (false, [])
    else
      let r := encodeFrom euc2uni name (buf + char.2) stop destlen
      (r.1, char.1 ++ r.2)
  else (true, [0])
termination_by stop - buf
decreasing_by
  have hpos := encodeChar_pos euc2uni name buf stop
  omega

/-- `translate_to_unicode` -/
def translateToUnicode (euc2uni : Nat → Nat) (name : Mem) (len : Nat) (destlen : Int) :
    Bool × List UInt8 :=
  if destlen ≤ 0 then (false, []) else encodeFrom euc2uni name 0 len destlen

/-- A name in UTF-8, however long it is. -/
def encoded (euc2uni : Nat → Nat) (name : Mem) (buf stop : Nat) : List UInt8 :=
  if buf < stop then
    (encodeChar euc2uni name buf stop).1 ++
      encoded euc2uni name (buf + (encodeChar euc2uni name buf stop).2) stop
  else []
termination_by stop - buf
decreasing_by
  have hpos := encodeChar_pos euc2uni name buf stop
  omega

theorem encodeFrom_spec (euc2uni : Nat → Nat) (name : Mem) (buf stop : Nat) (destlen : Int)
    (hpos : 0 < destlen) :
    ((encoded euc2uni name buf stop).length < destlen →
      encodeFrom euc2uni name buf stop destlen = (true, encoded euc2uni name buf stop ++ [0])) ∧
    (destlen ≤ (encoded euc2uni name buf stop).length →
      (encodeFrom euc2uni name buf stop destlen).1 = false ∧
      (encodeFrom euc2uni name buf stop destlen).2 <+: encoded euc2uni name buf stop ∧
      (encodeFrom euc2uni name buf stop destlen).2.length < destlen) := by
  rw [encodeFrom, encoded]
  split
  · next hlt =>
    have hnext := encodeChar_pos euc2uni name buf stop
    generalize encodeChar euc2uni name buf stop = char at *
    have hlen : ∀ l : List UInt8, (char.1 ++ l).length = char.1.length + l.length := fun l =>
      List.length_append
    by_cases hroom : destlen - char.1.length ≤ 0
    · simp only [if_pos hroom, hlen]
      exact ⟨fun h => by omega, fun _ => ⟨trivial, List.nil_prefix, hpos⟩⟩
    · obtain ⟨hfits, hfull⟩ := encodeFrom_spec euc2uni name (buf + char.2) stop
        (destlen - char.1.length) (by omega)
      simp only [if_neg hroom, hlen]
      constructor
      · intro h
        rw [hfits (by omega), List.append_assoc]
      · intro h
        obtain ⟨hfail, hstart, hshort⟩ := hfull (by omega)
        exact ⟨hfail, (List.prefix_append_right_inj _).mpr hstart, by omega⟩
  · exact ⟨fun _ => rfl, fun h => by simp at h; omega⟩
termination_by stop - buf

/-- The characters of a name in EUC-JP. -/
inductive Euc
  | plain (c : UInt8)
  | pair (a b : UInt8)

namespace Euc

def bytes : Euc → List UInt8
  | plain c => [c]
  | pair a b => [a, b]

def Valid : Euc → Prop
  | plain c => c ≠ 0 ∧ c &&& 0x80 = 0
  | pair a b => (0xA1 ≤ a ∧ a ≤ 0xFE) ∧ 0xA1 ≤ b ∧ b ≤ 0xFE

def place (a b : UInt8) : Nat := (a.toNat - 0xA1) * 94 + (b.toNat - 0xA1)

/-- The tables have the character and lead back to it. -/
def Mapped (uni2euc euc2uni : Nat → Nat) : Euc → Prop
  | plain _ => True
  | pair a b => euc2uni (place a b) < 2 ^ 16 ∧
      uni2euc (euc2uni (place a b)) = a.toNat * 256 + b.toNat

def toUtf8 (euc2uni : Nat → Nat) : Euc → Utf8
  | plain c => .plain c
  | pair a b =>
    let i := euc2uni (place a b)
    .wide (.ofNat (0xE0 ||| i >>> 12))
      [.ofNat (0x80 ||| (i >>> 6 &&& 0x3F)), .ofNat (0x80 ||| (i &&& 0x3F))]

end Euc

section RoundTrip
variable {uni2euc euc2uni : Nat → Nat} {name : Mem} {buf stop : Nat}

theorem lead_byte : ∀ a < 16, UInt8.ofNat (0xE0 ||| a) &&& 0x80 ≠ 0 ∧
    seqLength (UInt8.ofNat (0xE0 ||| a)) = some 3 ∧
    (UInt8.ofNat (0xE0 ||| a)).toNat &&& (0x7F >>> 3) = a := by decide

theorem tail_byte : ∀ x < 64, UInt8.ofNat (0x80 ||| x) &&& 0xC0 = 0x80 ∧
    (UInt8.ofNat (0x80 ||| x) &&& 0x3F).toNat = x := by decide

theorem and_low (i : Nat) : i &&& 0x3F = i % 64 := Nat.and_two_pow_sub_one_eq_mod i 6

theorem toUtf8_valid {x : Euc} (hx : x.Valid) (hmap : x.Mapped uni2euc euc2uni) :
    (x.toUtf8 euc2uni).Valid := by
  cases x with
  | plain c => exact hx
  | pair a b =>
    have hi : euc2uni (Euc.place a b) >>> 12 < 16 := by
      rw [Nat.shiftRight_eq_div_pow]
      exact Nat.div_lt_of_lt_mul hmap.1
    refine ⟨(lead_byte _ hi).1, (lead_byte _ hi).2.1, fun y hy => ?_⟩
    simp only [List.mem_cons, List.not_mem_nil, or_false] at hy
    rcases hy with rfl | rfl
    · exact (tail_byte _ (by rw [and_low]; exact Nat.mod_lt _ (by decide))).1
    · exact (tail_byte _ (by rw [and_low]; exact Nat.mod_lt _ (by decide))).1

theorem codepoint_three (hi : i < 2 ^ 16) :
    Utf8.codepoint (.ofNat (0xE0 ||| i >>> 12))
      [.ofNat (0x80 ||| (i >>> 6 &&& 0x3F)), .ofNat (0x80 ||| (i &&& 0x3F))] = i := by
  have ha : i >>> 12 = i / 4096 := Nat.shiftRight_eq_div_pow i 12
  have hx : i >>> 6 = i / 64 := Nat.shiftRight_eq_div_pow i 6
  have hy : i % 64 < 2 ^ 6 := Nat.mod_lt _ (by decide)
  have hx' : i / 64 % 64 < 2 ^ 6 := Nat.mod_lt _ (by decide)
  rw [ha, hx, and_low, and_low]
  simp only [Utf8.codepoint, List.foldl_cons, List.foldl_nil, Utf8.addByte, List.length_cons,
    List.length_nil, (tail_byte _ hy).2, (tail_byte _ hx').2]
  rw [(lead_byte (i / 4096) (by omega)).2.2, ← Nat.shiftLeft_add_eq_or_of_lt hx',
    ← Nat.shiftLeft_add_eq_or_of_lt hy, Nat.shiftLeft_eq, Nat.shiftLeft_eq]
  omega

theorem toUtf8_euc {x : Euc} (hmap : x.Mapped uni2euc euc2uni) :
    (x.toUtf8 euc2uni).euc uni2euc = x.bytes := by
  cases x with
  | plain c => rfl
  | pair a b =>
    obtain ⟨hi, hback⟩ := hmap
    have hb := b.toNat_lt
    have hhigh : (a.toNat * 256 + b.toNat) >>> 8 = a.toNat := by
      rw [Nat.shiftRight_eq_div_pow]
      omega
    have hlow : (a.toNat * 256 + b.toNat) &&& 0xFF = b.toNat := by
      have hmod : (a.toNat * 256 + b.toNat) &&& 0xFF = (a.toNat * 256 + b.toNat) % 256 :=
        Nat.and_two_pow_sub_one_eq_mod _ 8
      omega
    simp only [Euc.toUtf8, Utf8.euc, codepoint_three hi]
    rw [if_neg (by omega), hback, hhigh, hlow, UInt8.ofNat_toNat, UInt8.ofNat_toNat]
    rfl

theorem encodeChar_eq {x : Euc} (hx : x.Valid) (hname : BytesAt name buf x.bytes)
    (hstop : buf + x.bytes.length ≤ stop) :
    encodeChar euc2uni name buf stop = ((x.toUtf8 euc2uni).bytes, x.bytes.length) := by
  cases x with
  | plain c =>
    have hc : name buf = c := hname.1
    simp only [encodeChar, hc, hx.2, if_true]
    rfl
  | pair a b =>
    have ha : name buf = a := hname.1
    have hb : name (buf + 1) = b := hname.2.1
    have hhigh : a &&& 0x80 ≠ 0 := by
      have hall : ∀ a : UInt8, 0xA1 ≤ a → a &&& 0x80 ≠ 0 :=
        forall_byte (by decide +kernel)
      exact hall a hx.1.1
    have hpair : ¬ (a < 0xA1 ∨ a > 0xFE ∨ buf + 1 > stop ∨ b < 0xA1 ∨ b > 0xFE) := by
      simp only [not_or, UInt8.not_lt]
      exact ⟨hx.1.1, hx.1.2, Nat.not_lt.mpr (Nat.le_of_succ_le hstop), hx.2.1, hx.2.2⟩
    simp only [encodeChar, ha, hb, if_neg hhigh, if_neg hpair]
    rfl

theorem encoded_eq {s : List Euc} (hs : ∀ x ∈ s, x.Valid)
    (hname : BytesAt name buf (s.flatMap Euc.bytes)) :
    encoded euc2uni name buf (buf + (s.flatMap Euc.bytes).length) =
      s.flatMap fun x => (x.toUtf8 euc2uni).bytes := by
  induction s generalizing buf with
  | nil => simp [encoded]
  | cons x s ih =>
    have hx := hs x List.mem_cons_self
    have hpos : 0 < x.bytes.length := by cases x <;> simp [Euc.bytes]
    rw [List.flatMap_cons, bytesAt_append] at hname
    have htail := ih (fun y hy => hs y (List.mem_cons_of_mem x hy)) hname.2
    rw [encoded, List.flatMap_cons, List.flatMap_cons, List.length_append, if_pos (by omega),
      encodeChar_eq hx hname.1 (by omega), ← Nat.add_assoc, htail]

/-- A name of characters that the tables lead back to survives: it is stored in UTF-8 if it fits,
and reading it gives the name again. -/
theorem translate_roundtrip {s : List Euc} {destlen : Int} (hs : ∀ x ∈ s, x.Valid)
    (hmap : ∀ x ∈ s, x.Mapped uni2euc euc2uni) (hname : BytesAt name 0 (s.flatMap Euc.bytes))
    (hfits : (s.flatMap fun x => (x.toUtf8 euc2uni).bytes).length < destlen) (m : Mem) (a : Nat) :
    ∃ out, translateToUnicode euc2uni name (s.flatMap Euc.bytes).length destlen = (true, out) ∧
      (out.length : Int) ≤ destlen ∧
      ∀ fuel, s.length < fuel → translateFromUnicode uni2euc (putBytes m a out) a a fuel =
        some (putBytes (putBytes m a out) a (s.flatMap Euc.bytes ++ [0])) := by
  have henc : encoded euc2uni name 0 (0 + (s.flatMap Euc.bytes).length) = _ := encoded_eq hs hname
  rw [Nat.zero_add] at henc
  have hpos : 0 < destlen := by omega
  have hrun := (encodeFrom_spec euc2uni name 0 (s.flatMap Euc.bytes).length destlen hpos).1
    (by rw [henc]; exact hfits)
  rw [henc] at hrun
  have hbytes : (s.flatMap fun x => (x.toUtf8 euc2uni).bytes) =
      (s.map (Euc.toUtf8 euc2uni)).flatMap Utf8.bytes := (List.flatMap_map _ _ s).symm
  refine ⟨_, by rw [translateToUnicode, if_neg (by omega), hrun], ?_, ?_⟩
  · rw [List.length_append, List.length_singleton]
    omega
  · intro fuel hfuel
    have hvalid : ∀ y ∈ s.map (Euc.toUtf8 euc2uni), y.Valid := by
      intro y hy
      obtain ⟨x, hx, rfl⟩ := List.mem_map.mp hy
      exact toUtf8_valid (hs x hx) (hmap x hx)
    have hback : (s.map (Euc.toUtf8 euc2uni)).flatMap (Utf8.euc uni2euc) =
        s.flatMap Euc.bytes := by
      rw [List.flatMap_map]
      exact List.flatMap_congr fun x hx => toUtf8_euc (hmap x hx)
    rw [hbytes, translateFromUnicode_run hvalid (bytesAt_putBytes m a _) (by simpa using hfuel),
      hback]

/-- One character of two bytes in tables that have nothing else -/
theorem translate_roundtrip_pair :
    ∃ out, translateToUnicode (fun _ => 0x3042) (fun i => [0x41, 0xA4, 0xA2].getD i 0) 3 256 =
        (true, out) ∧ (out.length : Int) ≤ 256 ∧
      ∀ fuel, 2 < fuel →
        translateFromUnicode (fun _ => 0xA4A2) (putBytes (fun _ => 0) 0 out) 0 0 fuel =
          some (putBytes (putBytes (fun _ => 0) 0 out) 0 [0x41, 0xA4, 0xA2, 0]) :=
  translate_roundtrip (s := [.plain 0x41, .pair 0xA4 0xA2])
    (fun x hx => by
      simp only [List.mem_cons, List.not_mem_nil, or_false] at hx
      rcases hx with rfl | rfl
      · exact ⟨by decide, by decide⟩
      · exact ⟨⟨by decide, by decide⟩, by decide, by decide⟩)
    (fun x hx => by
      simp only [List.mem_cons, List.not_mem_nil, or_false] at hx
      rcases hx with rfl | rfl
      · trivial
      · exact ⟨by decide, by decide⟩)
    ⟨rfl, rfl, rfl, trivial⟩ (by decide) (fun _ => 0) 0

end RoundTrip

end KernelLoader.Ps2fs
