import KernelLoader.Tge.Format

namespace KernelLoader.Tge.Printf
open Lib
set_option autoImplicit true
set_option relaxedAutoImplicit false

def hexmap : List UInt8 := bytes "0123456789abcdef".toList

/-- The variables of `vsnprintf`: the place in the format, the length that is left, what has been
stored from the start of the buffer on, the next argument, and the places of the format read. -/
structure State where
  pos : Nat
  l : Nat
  b : List UInt8
  arg : Nat
  reads : List Nat

def State.put (s : State) (text : List UInt8) : State :=
  { s with b := s.b ++ text, l := s.l - text.length }

def State.read (s : State) : State := { s with reads := s.reads ++ [s.pos] }

/-- The statement `fmt++`. -/
def State.next (s : State) : State := { s with pos := s.pos + 1 }

/-- The statement `l--`. -/
def State.spend (s : State) : State := { s with l := s.l - 1 }

/-- The loop that fills `b[n - 1]` down to `b[0]` with the digits of `u`. -/
def hexLoop : Nat → Nat → List UInt8
  | 0, _ => []
  | n + 1, u => hexLoop n (u >>> 4) ++ [hexmap.getD (u &&& 0x0F) 0]

/-- The loop that fills the `n` places left of `d` from the end. -/
def digitLoop : Nat → Nat → List UInt8 → List UInt8
  | 0, _, d => d
  | n + 1, u, d =>
    let d := .ofNat (u % 10 + 48) :: d
    if u / 10 = 0 then d else digitLoop n (u / 10) d

/-- The loop that writes the digits. -/
def writeDigits : List UInt8 → State → State
  | [], s => s
  | c :: d, s =>
    let s := s.put [c]
    if s.l = 0 then s else writeDigits d s

/-- The code at the label `u2`. -/
def writeUnsigned (u : Nat) (s : State) : State := writeDigits (digitLoop 10 u []) s

/-- The case `d`, with the word of the argument. -/
def writeSigned (n : Nat) (s : State) : State :=
  if s32 n < 0 then
    let s := s.put (bytes ['-'])
    if s.l = 0 then s else writeUnsigned (sub32 0 n) s
  else writeUnsigned n s

/-- The `switch`, at the character `c` behind a `%`. -/
def directive (args : Args) (c : UInt8) (s : State) : State :=
  let word := (args.va s.arg).toNat
  let after := { s with arg := s.arg + 1 }
  match kindOf c with
  | some .s => after.put (field (fun j => args.mem (word + j)) s.l)
  | some .c => after.next.put [.ofNat word]
  | some .x => if s.l < 8 then { s with l := 0 } else after.put (hexLoop 8 word)
  | some .d => writeSigned word after
  | some .u => writeUnsigned word after
  | some .X =>
    if s.l < 2 then { s with l := 0 }
    else after.put [hexmap.getD ((word &&& 0xF0) >>> 4) 0, hexmap.getD (word &&& 0x0F) 0]
  | none => { s with b := s.b ++ [c] }

/-- The body of the main loop. -/
def body (fmt : Mem) (args : Args) (s : State) : State :=
  if fmt s.pos = percentSign then
    let s := s.next.spend
    if s.l = 0 then s else (directive args (fmt s.pos) s.read).next
  else (s.put [fmt s.pos]).next

/-- The main loop; every round takes from the length. -/
def loop (fmt : Mem) (args : Args) : (fuel : Nat) → State → State
  | 0, s => s
  | fuel + 1, s =>
    if s.l = 0 then s
    else if fmt s.pos = 0 then s.read
    else loop fmt args fuel (body fmt args s.read)

/-- What a call returns, the bytes it stores from `b[0]` on, and the places of the format it
reads. -/
structure Printed where
  ret : Int
  stored : List UInt8
  reads : List Nat

/-- The start of the main loop. -/
def start (len : Nat) : State := ⟨0, len, [], 0, []⟩

def vsnprintf (b : Bool) (len : Int) (fmt : Option Mem) (args : Args) : Printed :=
  match fmt with
  | none => ⟨0, [], []⟩
  | some fmt =>
    if b = false ∨ len < 1 then ⟨0, [], []⟩
    else
      let s := loop fmt args len.toNat (start len.toNat)
      ⟨len - s.l, s.b ++ [0], s.reads⟩

section Renderings

theorem bytes_append (s t : List Char) : bytes (s ++ t) = bytes s ++ bytes t := List.map_append

theorem length_bytes (s : List Char) : (bytes s).length = s.length := List.length_map _

theorem hexmap_getD (h : d < 16) : bytes [Nat.digitChar d] = [hexmap.getD d 0] := by
  have hall : ∀ d : Fin 16, bytes [Nat.digitChar d] = [hexmap.getD d 0] := by decide
  exact hall ⟨d, h⟩

theorem decimal_digit (h : d < 10) : bytes [Nat.digitChar d] = [.ofNat (d + 48)] := by
  have hall : ∀ d : Fin 10, bytes [Nat.digitChar d] = [.ofNat (d + 48)] := by decide
  exact hall ⟨d, h⟩

theorem hexPadded_succ (hn : 0 < n) (v : Nat) :
    hexPadded (n + 1) v = hexPadded n (v / 16) ++ bytes [Nat.digitChar (v % 16)] := by
  have hlow : v % 16 ^ (n + 1) % 16 = v % 16 :=
    Nat.mod_mod_of_dvd v (Dvd.intro_left (16 ^ n) rfl)
  have hhigh : v % 16 ^ (n + 1) / 16 = v / 16 % 16 ^ n := by
    rw [Nat.pow_succ', Nat.mod_mul_right_div_self]
  rw [hexPadded, hexPadded, ← bytes_append, ← hlow, ← hhigh]
  generalize v % 16 ^ (n + 1) = w
  congr 1
  by_cases hw : w < 16
  · -- one digit: what stands before it is all padding
    obtain ⟨n, rfl⟩ := Nat.exists_eq_add_of_lt hn
    rw [Nat.toDigits_of_lt_base hw, Nat.div_eq_of_lt hw, Nat.mod_eq_of_lt hw]
    simp [List.leftpad, List.replicate_succ']
  · rw [Nat.toDigits_of_base_le (by decide) (Nat.le_of_not_lt hw)]
    simp [List.leftpad]

theorem hexLoop_eq (hn : 0 < n) (v : Nat) : hexLoop n v = hexPadded n v := by
  induction n generalizing v with
  | zero => exact absurd hn (Nat.lt_irrefl 0)
  | succ n ih =>
    have hlow : v &&& 0x0F = v % 16 := Nat.and_two_pow_sub_one_eq_mod v 4
    have hhigh : v >>> 4 = v / 16 := Nat.shiftRight_eq_div_pow v 4
    have hdigit := hexmap_getD (Nat.mod_lt v (by decide : 0 < 16))
    rw [hexLoop, hlow, hhigh, ← hdigit]
    by_cases h0 : n = 0
    · subst h0
      rw [hexPadded, Nat.pow_one, Nat.toDigits_of_lt_base (Nat.mod_lt v (by decide))]
      rfl
    · have hn := Nat.pos_of_ne_zero h0
      rw [ih hn, hexPadded_succ hn]

theorem digitLoop_eq (hu : u < 10 ^ n) (hn : 0 < n) (d : List UInt8) :
    digitLoop n u d = bytes (Nat.toDigits 10 u) ++ d := by
  induction n generalizing u d with
  | zero => exact absurd hn (Nat.lt_irrefl 0)
  | succ n ih =>
    have hdigit := decimal_digit (Nat.mod_lt u (by decide : 0 < 10))
    rw [digitLoop]
    by_cases h10 : u < 10
    · rw [if_pos (Nat.div_eq_of_lt h10), Nat.toDigits_of_lt_base h10]
      rw [Nat.mod_eq_of_lt h10] at hdigit ⊢
      rw [hdigit]
      rfl
    · have hrest : u / 10 < 10 ^ n := by
        rw [Nat.pow_succ] at hu
        exact Nat.div_lt_of_lt_mul (by omega)
      have hn : 0 < n := by
        apply Nat.pos_of_ne_zero
        intro h0
        subst h0
        omega
      have htext : Nat.toDigits 10 u = Nat.toDigits 10 (u / 10) ++ [Nat.digitChar (u % 10)] :=
        Nat.toDigits_of_base_le (by decide) (Nat.le_of_not_lt h10)
      rw [if_neg (by omega), ih hrest hn, htext, bytes_append, hdigit, List.append_assoc]
      rfl

theorem hexByte_eq (v : Nat) :
    [hexmap.getD ((v &&& 0xF0) >>> 4) 0, hexmap.getD (v &&& 0x0F) 0] = hexPadded 2 v := by
  have hhigh : (v &&& 0xF0) >>> 4 = v >>> 4 &&& 0x0F := Nat.shiftRight_and_distrib
  rw [← hexLoop_eq (by decide), hhigh]
  rfl

theorem length_hexPadded (hn : 0 < n) (v : Nat) : (hexPadded n v).length = n := by
  have hlen : (Nat.toDigits 16 (v % 16 ^ n)).length ≤ n :=
    (Nat.length_toDigits_le_iff (by decide) hn).mpr (Nat.mod_lt _ (Nat.pow_pos (by decide)))
  rw [hexPadded, length_bytes, List.length_leftpad, Nat.max_eq_left hlen]

end Renderings

section Switch
variable {s t : State} {k : Kind} {text : List UInt8} {args : Args} {c : UInt8}

theorem State.put_put (s : State) (text more : List UInt8) :
    (s.put text).put more = s.put (text ++ more) := by
  rw [put, put, put, List.append_assoc, List.length_append, Nat.sub_sub]

theorem writeDigits_eq (hl : 0 < s.l) (d : List UInt8) : writeDigits d s = s.put (d.take s.l) := by
  induction d generalizing s with
  | nil => simp [writeDigits, State.put]
  | cons c d ih =>
    obtain ⟨l, hl⟩ := Nat.exists_eq_succ_of_ne_zero (Nat.ne_of_gt hl)
    have hput : (s.put [c]).l = l := by
      rw [State.put, hl]
      rfl
    rw [writeDigits, hput, hl, List.take_succ_cons]
    split
    · next h0 =>
      rw [h0]
      rfl
    · next h0 =>
      rw [ih (hput.symm ▸ Nat.pos_of_ne_zero h0), hput, State.put_put]
      rfl

theorem writeUnsigned_eq (hu : u < 2 ^ 32) (s : State) (hl : 0 < s.l) :
    writeUnsigned u s = s.put ((bytes (Nat.toDigits 10 u)).take s.l) := by
  have hu : u < 10 ^ 10 := by omega
  rw [writeUnsigned, digitLoop_eq hu (by decide), List.append_nil, writeDigits_eq hl]

theorem natAbs_s32 (hn : n < 2 ^ 32) :
    (s32 n).natAbs = if s32 n < 0 then sub32 0 n else n := by
  unfold s32 sub32
  split <;> split <;> omega

theorem writeSigned_eq (hn : n < 2 ^ 32) (s : State) (hl : 0 < s.l) :
    writeSigned n s = s.put ((bytes (printInt (s32 n))).take s.l) := by
  have habs := natAbs_s32 hn
  rw [writeSigned, printInt, habs]
  split
  · -- the minus sign and, if there is room left, the digits of the absolute value
    obtain ⟨l, hl⟩ := Nat.exists_eq_succ_of_ne_zero (Nat.ne_of_gt hl)
    have hput : (s.put (bytes ['-'])).l = l := by
      rw [State.put, hl]
      rfl
    have htake : (bytes ('-' :: Nat.toDigits 10 (sub32 0 n))).take s.l =
        bytes ['-'] ++ (bytes (Nat.toDigits 10 (sub32 0 n))).take l := by
      rw [hl]
      rfl
    rw [htake, ← State.put_put]
    show (if (s.put (bytes ['-'])).l = 0 then _ else _) = _
    split
    · next h0 =>
      rw [← hput, h0]
      simp [State.put]
    · next h0 => rw [writeUnsigned_eq (sub32_lt 0 n) _ (Nat.pos_of_ne_zero h0), hput]
  · exact writeUnsigned_eq hn s hl

/-- What a directive leaves behind. -/
structure Rendered (s : State) (k : Kind) (text : List UInt8) (t : State) : Prop where
  b : t.b = s.b ++ if text.length ≤ s.l then text else (Item.directive k text).part (s.l + 1)
  l : t.l = s.l - text.length
  arg : text.length ≤ s.l → t.arg = s.arg + 1
  pos : t.pos = if k = .c then s.pos + 1 else s.pos
  reads : t.reads = s.reads

theorem Rendered.put_take (hk : k ≠ .x ∧ k ≠ .X) (hb : t.b = s.b) (hl : t.l = s.l)
    (harg : t.arg = s.arg + 1) (hpos : t.pos = if k = .c then s.pos + 1 else s.pos)
    (hreads : t.reads = s.reads) : Rendered s k text (t.put (text.take s.l)) := by
  have hpart : (Item.directive k text).part (s.l + 1) = text.take s.l := by
    cases k with
    | x => exact absurd rfl hk.1
    | X => exact absurd rfl hk.2
    | s => rfl
    | c => rfl
    | d => rfl
    | u => rfl
  refine ⟨?_, ?_, fun _ => harg, hpos, hreads⟩
  · rw [State.put, hb, hpart]
    split
    · next h => rw [List.take_of_length_le h]
    · rfl
  · show t.l - (text.take s.l).length = s.l - text.length
    rw [hl, List.length_take]
    omega

theorem Rendered.put_whole (hk : k = .x ∨ k = .X) (hn : text.length = n) :
    Rendered s k text
      (if s.l < n then { s with l := 0 } else { s with arg := s.arg + 1 }.put text) := by
  have hpart : (Item.directive k text).part (s.l + 1) = [] := by
    cases hk with
    | inl hk => rw [hk]; rfl
    | inr hk => rw [hk]; rfl
  have hpos : s.pos = if k = .c then s.pos + 1 else s.pos := by
    cases hk with
    | inl hk => rw [hk]; rfl
    | inr hk => rw [hk]; rfl
  split
  · next h =>
    refine ⟨?_, ?_, fun hle => absurd hle (by omega), hpos, rfl⟩
    · rw [if_neg (by omega), hpart, List.append_nil]
    · show 0 = s.l - text.length
      omega
  · next h =>
    refine ⟨?_, rfl, fun _ => rfl, hpos, rfl⟩
    rw [if_pos (by omega)]
    rfl

theorem directive_other (args : Args) (hc : kindOf c = none) (s : State) :
    directive args c s = { s with b := s.b ++ [c] } := by
  rw [directive, hc]

theorem directive_rendered (hc : kindOf c = some k) (hr : Renders args s.arg k text)
    (hl : 0 < s.l) : Rendered s k text (directive args c s) := by
  have hw : (args.va s.arg).toNat < 2 ^ 32 := (args.va s.arg).toNat_lt
  rw [directive, hc]
  cases k with
  | s =>
    have htext := hr.field_eq s.l
    simp only [htext]
    exact .put_take (k := .s) (by decide) rfl rfl rfl rfl rfl
  | c =>
    cases hr
    have htake := List.take_of_length_le (l := [UInt8.ofNat (args.va s.arg).toNat]) hl
    simp only
    nth_rewrite 2 [← htake]
    exact .put_take (k := .c) (by decide) rfl rfl rfl rfl rfl
  | x =>
    cases hr
    simp only [hexLoop_eq (by decide : 0 < 8)]
    exact .put_whole (.inl rfl) (length_hexPadded (by decide) _)
  | X =>
    cases hr
    simp only [hexByte_eq]
    exact .put_whole (.inr rfl) (length_hexPadded (by decide) _)
  | d =>
    cases hr
    simp only [writeSigned_eq hw { s with arg := s.arg + 1 } hl]
    exact .put_take (k := .d) (by decide) rfl rfl rfl rfl rfl
  | u =>
    cases hr
    simp only [writeUnsigned_eq hw { s with arg := s.arg + 1 } hl]
    exact .put_take (k := .u) (by decide) rfl rfl rfl rfl rfl

end Switch

section Steps
variable {s t : State} {fmt : Mem} {args : Args} {c : UInt8}

/-- What is stored stays, what was read was read, and the length falls. -/
structure State.Before (s t : State) : Prop where
  b : s.b <+: t.b
  reads : s.reads ⊆ t.reads
  l : t.l ≤ s.l

theorem State.Before.refl (s : State) : s.Before s :=
  ⟨List.prefix_rfl, fun _ h => h, Nat.le_refl _⟩

theorem State.Before.trans {r : State} (h : r.Before s) (h' : s.Before t) : r.Before t :=
  ⟨h.b.trans h'.b, fun _ hr => h'.reads (h.reads hr), h'.l.trans h.l⟩

theorem State.Before.put (h : s.Before t) (text : List UInt8) : s.Before (t.put text) :=
  ⟨h.b.trans (List.prefix_append _ _), h.reads, (Nat.sub_le _ _).trans h.l⟩

theorem State.before_read (s : State) : s.Before s.read :=
  ⟨List.prefix_rfl, List.subset_append_left _ _, Nat.le_refl _⟩

theorem before_directive (args : Args) (c : UInt8) (hl : 0 < s.l) :
    s.Before (directive args c s) := by
  have hw : (args.va s.arg).toNat < 2 ^ 32 := (args.va s.arg).toNat_lt
  have hnext : s.Before { s with arg := s.arg + 1 } :=
    ⟨List.prefix_rfl, fun _ h => h, Nat.le_refl _⟩
  have hstop : s.Before { s with l := 0 } := ⟨List.prefix_rfl, fun _ h => h, Nat.zero_le _⟩
  rw [directive]
  cases kindOf c with
  | none => exact ⟨List.prefix_append _ _, fun _ h => h, Nat.le_refl _⟩
  | some k =>
    cases k with
    | s => exact hnext.put _
    | c =>
      have hskip : s.Before { s with arg := s.arg + 1 }.next := ⟨hnext.b, hnext.reads, hnext.l⟩
      exact hskip.put _
    | x =>
      simp only
      split
      · exact hstop
      · exact hnext.put _
    | X =>
      simp only
      split
      · exact hstop
      · exact hnext.put _
    | d =>
      simp only [writeSigned_eq hw { s with arg := s.arg + 1 } hl]
      exact hnext.put _
    | u =>
      simp only [writeUnsigned_eq hw { s with arg := s.arg + 1 } hl]
      exact hnext.put _

/-- A round stops behind a `%` that takes the last of the length. -/
theorem body_last (hp : fmt s.pos = percentSign) (hl : s.l ≤ 1) :
    body fmt args s = s.next.spend := by
  have h0 : s.next.spend.l = 0 := Nat.sub_eq_zero_of_le hl
  rw [body, if_pos hp]
  exact if_pos h0

theorem body_directive (hp : fmt s.pos = percentSign) (hl : 1 < s.l) :
    body fmt args s = (directive args (fmt (s.pos + 1)) s.next.spend.read).next := by
  have h0 : s.next.spend.l ≠ 0 := Nat.sub_ne_zero_of_lt hl
  rw [body, if_pos hp]
  exact if_neg h0

theorem body_plain (hp : fmt s.pos ≠ percentSign) :
    body fmt args s = (s.put [fmt s.pos]).next := if_neg hp

theorem before_body (s : State) : s.Before (body fmt args s) := by
  by_cases hp : fmt s.pos = percentSign
  · by_cases hl : 1 < s.l
    · rw [body_directive hp hl]
      have hstart : s.Before s.next.spend.read :=
        ⟨List.prefix_rfl, List.subset_append_left _ _, Nat.sub_le _ _⟩
      have hswitch := hstart.trans (before_directive args (fmt (s.pos + 1)) (Nat.sub_pos_of_lt hl))
      exact ⟨hswitch.b, hswitch.reads, hswitch.l⟩
    · rw [body_last hp (Nat.le_of_not_lt hl)]
      exact ⟨List.prefix_rfl, fun _ h => h, Nat.sub_le _ _⟩
  · rw [body_plain hp]
    have hput := (State.Before.refl s).put [fmt s.pos]
    exact ⟨hput.b, hput.reads, hput.l⟩

theorem body_l_lt (fmt : Mem) (args : Args) (hl : 0 < s.l) : (body fmt args s).l < s.l := by
  by_cases hp : fmt s.pos = percentSign
  · by_cases h1 : 1 < s.l
    · rw [body_directive hp h1]
      refine Nat.lt_of_le_of_lt (before_directive args _ ?_).l (Nat.sub_lt hl Nat.one_pos)
      exact Nat.sub_pos_of_lt h1
    · rw [body_last hp (Nat.le_of_not_lt h1)]
      exact Nat.sub_lt hl Nat.one_pos
  · rw [body_plain hp]
    exact Nat.sub_lt hl Nat.one_pos

theorem loop_stop (h : s.l = 0) (fuel : Nat) : loop fmt args fuel s = s := by
  cases fuel with
  | zero => rfl
  | succ fuel => exact if_pos h

theorem loop_nul (hl : 0 < s.l) (hc : fmt s.pos = 0) {fuel : Nat} (hf : s.l ≤ fuel) :
    loop fmt args fuel s = s.read := by
  cases fuel with
  | zero => omega
  | succ fuel => rw [loop, if_neg (Nat.ne_of_gt hl), if_pos hc]

theorem loop_round (args : Args) (hl : 0 < s.l) (hc : fmt s.pos ≠ 0) {fuel : Nat}
    (hf : s.l ≤ fuel) :
    ∃ f, (body fmt args s.read).l ≤ f ∧
      loop fmt args fuel s = loop fmt args f (body fmt args s.read) := by
  have hround := body_l_lt (s := s.read) fmt args hl
  cases fuel with
  | zero => omega
  | succ fuel =>
    refine ⟨fuel, Nat.le_of_lt_succ (hround.trans_le hf), ?_⟩
    rw [loop, if_neg (Nat.ne_of_gt hl), if_neg hc]

theorem before_loop (fuel : Nat) (s : State) : s.Before (loop fmt args fuel s) := by
  induction fuel generalizing s with
  | zero => exact .refl s
  | succ fuel ih =>
    rw [loop]
    split
    · exact .refl s
    · split
      · exact s.before_read
      · exact s.before_read.trans ((before_body s.read).trans (ih _))

/-- With the length as the number of rounds, the loop ends as the source's does. -/
theorem loop_ends {fuel : Nat} (hf : s.l ≤ fuel) :
    (loop fmt args fuel s).l = 0 ∨ fmt (loop fmt args fuel s).pos = 0 := by
  induction fuel generalizing s with
  | zero => exact .inl (Nat.le_zero.mp hf)
  | succ fuel ih =>
    rw [loop]
    split
    · next h0 => exact .inl h0
    · next h0 =>
      split
      · next hc => exact .inr hc
      · have hround := body_l_lt (s := s.read) fmt args (Nat.pos_of_ne_zero h0)
        exact ih (Nat.le_of_lt_succ (hround.trans_le hf))

theorem mem_reads_loop (fmt : Mem) (args : Args) (hl : 0 < s.l) {fuel : Nat} (hf : s.l ≤ fuel) :
    s.pos ∈ (loop fmt args fuel s).reads := by
  have hread : s.pos ∈ s.read.reads := List.mem_append_right _ (List.mem_singleton_self _)
  by_cases hc : fmt s.pos = 0
  · rw [loop_nul hl hc hf]
    exact hread
  · obtain ⟨f, -, hloop⟩ := loop_round args hl hc hf
    rw [hloop]
    exact (before_loop f _).reads ((before_body s.read).reads hread)

end Steps

section Runs
variable {s t : State} {fmt : Mem} {args : Args} {items : List Item} {it : Item} {fuel : Nat}
  {k : Kind} {text : List UInt8}

/-- The items are what is left of a format that ends at `n`. -/
structure Reading (fmt : Mem) (args : Args) (n : Nat) (items : List Item) (s : State) : Prop where
  rest : ∃ chars, Documented args chars s.arg items ∧
    StringAt (fun j => fmt (s.pos + j)) chars ∧ s.pos + chars.length = n
  reads : ∀ r ∈ s.reads, r ≤ n

/-- What a round makes of an item that is no obstacle. -/
structure Passed (fmt : Mem) (args : Args) (n : Nat) (it : Item) (items : List Item)
    (s t : State) : Prop where
  b : t.b = s.b ++ if it.cost ≤ s.l then it.text else it.part s.l
  l : t.l = s.l - it.cost
  reads : ∀ r ∈ t.reads, r ≤ n
  next : 0 < t.l → Reading fmt args n items t

theorem State.reads_read (hn : s.pos ≤ n) (hr : ∀ r ∈ s.reads, r ≤ n) :
    ∀ r ∈ s.read.reads, r ≤ n := by
  intro r hmem
  cases List.mem_append.mp hmem with
  | inl h => exact hr r h
  | inr h => exact List.mem_singleton.mp h ▸ hn

theorem Passed.last (hp : fmt s.pos = percentSign) (hl : s.l = 1) (hit : it.isPlain = false)
    (hread : ∀ r ∈ s.read.reads, r ≤ n) :
    Passed fmt args n it items s (body fmt args s.read) := by
  have hcost := it.cost_pos
  rw [body_last (s := s.read) hp (Nat.le_of_eq hl)]
  have h0 : s.read.next.spend.l = 0 := Nat.sub_eq_zero_of_le (Nat.le_of_eq hl)
  refine ⟨?_, ?_, hread, fun h => absurd h (h0 ▸ Nat.lt_irrefl 0)⟩
  · have hnone : (if it.cost ≤ s.l then it.text else it.part s.l) = [] := by
      split
      · have hlen := it.length_text_lt hit
        exact List.length_eq_zero_iff.mp (by omega)
      · obtain ⟨n, hn, hpart⟩ := it.part_eq_take s.l
        rw [hpart, (by omega : n = 0), List.take_zero]
    rw [hnone, List.append_nil]
    rfl
  · rw [h0]
    omega

theorem Rendered.passed (h : Rendered s.read.next.spend.read k text t) (h1 : 1 < s.l)
    (hread : ∀ r ∈ s.read.next.spend.read.reads, r ≤ n)
    (hnext : k ≠ .c → t.arg = s.arg + 1 → t.pos = s.pos + 1 → ∃ chars,
      Documented args chars t.arg items ∧ StringAt (fun j => fmt (t.pos + 1 + j)) chars ∧
        t.pos + 1 + chars.length = n)
    (hclear : (Item.directive k text).Clear s.l) :
    Passed fmt args n (.directive k text) items s t.next := by
  have hb : t.b = s.b ++ if text.length ≤ s.l - 1 then text
      else (Item.directive k text).part (s.l - 1 + 1) := h.b
  have hl : t.l = s.l - 1 - text.length := h.l
  have hreads : ∀ r ∈ t.reads, r ≤ n := h.reads ▸ hread
  refine ⟨?_, ?_, hreads, fun h0 => ?_⟩
  · have hroom : text.length ≤ s.l - 1 ↔ (Item.directive k text).cost ≤ s.l := by
      rw [Item.cost]
      omega
    rw [Nat.sub_add_cancel (Nat.le_of_lt h1), if_congr hroom rfl rfl] at hb
    exact hb
  · show t.l = s.l - (text.length + 1)
    omega
  · have h0 : 0 < t.l := h0
    have hk : k ≠ .c := by
      intro hc
      have hle : s.l ≤ text.length + 1 := hclear hc
      omega
    have hpos : t.pos = s.pos + 1 := h.pos.trans (if_neg hk)
    have harg : t.arg = s.arg + 1 := h.arg (show text.length ≤ s.l - 1 by omega)
    exact ⟨hnext hk harg hpos, hreads⟩

theorem Reading.round (h : Reading fmt args n (it :: items) s) (hl : 0 < s.l)
    (hclear : it.Clear s.l) :
    fmt s.pos ≠ 0 ∧ Passed fmt args n it items s (body fmt args s.read) := by
  obtain ⟨⟨chars, hdoc, hfmt, hn⟩, hreads⟩ := h
  have hread := s.reads_read (by omega) hreads
  have hne : percentSign ≠ 0 := by decide
  cases hdoc with
  | @plain c chars _ _ hc hrest =>
    have hpos : fmt s.pos = c := hfmt.begins.1
    have hne : c ≠ 0 := fun h0 => hfmt.proper (List.mem_cons.mpr (.inl h0.symm))
    refine ⟨hpos ▸ hne, ?_⟩
    rw [body_plain (hpos ▸ hc)]
    refine ⟨?_, rfl, hread, fun _ => ⟨⟨chars, hrest, hfmt.next, ?_⟩, hread⟩⟩
    · have hcost : (Item.plain c).cost ≤ s.l := hl
      rw [if_pos hcost, ← hpos]
      rfl
    · rw [← hn, List.length_cons]
      exact Nat.add_right_comm s.pos 1 chars.length
  | percent hnone hrest =>
    have hpos : fmt s.pos = percentSign := hfmt.begins.1
    exact ⟨hpos ▸ hne, .last hpos (Nat.le_antisymm hclear hl) rfl hread⟩
  | @directive c k _ text chars _ hk hr hrest =>
    have hpos : fmt s.pos = percentSign := hfmt.begins.1
    refine ⟨hpos ▸ hne, ?_⟩
    by_cases h1 : 1 < s.l
    · have hletter : fmt (s.pos + 1) = c := hfmt.next.begins.1
      rw [List.length_cons, List.length_cons] at hn
      have hread' := State.reads_read (s := s.read.next.spend) (show s.pos + 1 ≤ n by omega) hread
      rw [body_directive (s := s.read) hpos h1]
      have hrend := directive_rendered (s := s.read.next.spend.read) (hletter.symm ▸ hk) hr
        (Nat.sub_pos_of_lt h1)
      refine hrend.passed h1 hread' ?_ hclear
      intro _ harg hpos
      rw [harg, hpos]
      exact ⟨chars, hrest, hfmt.next.next, by omega⟩
    · exact .last hpos (by omega) rfl hread

/-- A run that reaches no obstacle writes the text up to where the length ends, and stays within
the format. -/
theorem loop_smooth (h : Reading fmt args n items s) (hs : Smooth items s.l) (hf : s.l ≤ fuel) :
    (loop fmt args fuel s).b = s.b ++ cut items s.l ∧
      ∀ r ∈ (loop fmt args fuel s).reads, r ≤ n := by
  induction items generalizing s fuel with
  | nil =>
    obtain ⟨⟨chars, hdoc, hfmt, hn⟩, hreads⟩ := h
    cases hdoc
    rw [cut, List.append_nil]
    by_cases hl : s.l = 0
    · rw [loop_stop hl]
      exact ⟨rfl, hreads⟩
    · rw [loop_nul (Nat.pos_of_ne_zero hl) hfmt.terminated hf]
      exact ⟨rfl, State.reads_read (Nat.le_of_eq hn) hreads⟩
  | cons it items ih =>
    by_cases hl : s.l = 0
    · rw [loop_stop hl, hl, cut_zero, List.append_nil]
      exact ⟨rfl, h.reads⟩
    · obtain ⟨hc, hround⟩ := h.round (Nat.pos_of_ne_zero hl) hs.1
      obtain ⟨f, hf', hloop⟩ := loop_round args (Nat.pos_of_ne_zero hl) hc hf
      rw [hloop, cut]
      have hb := hround.b
      by_cases h0 : (body fmt args s.read).l = 0
      · rw [loop_stop h0, hb, ← hround.l, h0, cut_zero, List.append_nil]
        exact ⟨rfl, hround.reads⟩
      · have hcost : it.cost ≤ s.l := by
          have hl := hround.l
          omega
        have hsmooth := hround.l ▸ hs.2 hcost
        obtain ⟨hrun, hreads⟩ := ih (hround.next (Nat.pos_of_ne_zero h0)) hsmooth hf'
        rw [if_pos hcost] at hb ⊢
        rw [hrun, hb, hround.l, List.append_assoc]
        exact ⟨rfl, hreads⟩

/-- A run went wrong: the format was read behind its end, or other text was stored. -/
def Astray (n : Nat) (doc : List UInt8) (t : State) : Prop :=
  (∃ r ∈ t.reads, n < r) ∨ ¬ t.b <+: doc

/-- A `%` at the end lets the run go on behind the terminator; before another character, that is
stored in its place. -/
theorem Reading.astray_percent (h : Reading fmt args n (.percent :: items) s) (hl : 1 < s.l)
    (hplain : ¬ Item.percent.Unclear items) (hf : s.l ≤ fuel) :
    Astray n (s.b ++ textOf (.percent :: items)) (loop fmt args fuel s) := by
  obtain ⟨⟨chars, hdoc, hfmt, hn⟩, hreads⟩ := h
  cases hdoc with
  | @percent chars _ _ hnone hrest =>
    have hpos : fmt s.pos = percentSign := hfmt.begins.1
    have hne : fmt s.pos ≠ 0 := hpos ▸ (by decide)
    obtain ⟨f, hf', hloop⟩ := loop_round args (Nat.zero_lt_of_lt hl) hne hf
    have hbody : ∀ c, fmt (s.pos + 1) = c → kindOf c = none →
        body fmt args s.read = { s.read.next.spend.read with b := s.b ++ [c] }.next := by
      intro c hletter hc
      rw [body_directive (s := s.read) hpos hl, show fmt (s.read.pos + 1) = c from hletter,
        directive_other args hc]
      rfl
    rw [hloop]
    cases hrest with
    | nil =>
      rw [hbody 0 hfmt.terminated rfl] at hf' ⊢
      have hmem := mem_reads_loop fmt args (Nat.sub_pos_of_lt hl) hf'
      refine .inl ⟨_, hmem, ?_⟩
      rw [← hn]
      exact Nat.lt_succ_self _
    | @plain c chars _ _ hc hrest =>
      rw [hbody c hfmt.next.begins.1 (hnone c rfl)]
      refine .inr fun htext => hc ?_
      have hstored : s.b ++ [c] <+: s.b ++ textOf (.percent :: .plain c :: _) :=
        (before_loop f _).b.trans htext
      have hone := (List.prefix_append_right_inj s.b).mp hstored
      exact (List.cons_prefix_cons.mp hone).1
    | percent => exact absurd ⟨_, rfl, rfl⟩ hplain
    | directive => exact absurd ⟨_, rfl, rfl⟩ hplain

theorem Reading.astray_c (h : Reading fmt args n [.directive .c text] s)
    (hl : text.length + 1 < s.l) (hf : s.l ≤ fuel) (doc : List UInt8) :
    Astray n doc (loop fmt args fuel s) := by
  obtain ⟨⟨chars, hdoc, hfmt, hn⟩, hreads⟩ := h
  cases hdoc with
  | @directive c _ _ _ chars _ hk hr hrest =>
    cases hrest
    have hpos : fmt s.pos = percentSign := hfmt.begins.1
    have hne : fmt s.pos ≠ 0 := hpos ▸ (by decide)
    have hletter : fmt (s.pos + 1) = c := hfmt.next.begins.1
    obtain ⟨f, hf', hloop⟩ := loop_round args (by omega) hne hf
    have hrend := directive_rendered (s := s.read.next.spend.read) (hletter.symm ▸ hk) hr
      (show 0 < s.l - 1 by omega)
    rw [hloop]
    rw [body_directive (s := s.read) hpos (show 1 < s.l by omega)] at hf' ⊢
    have hleft : 0 < (directive args (fmt (s.pos + 1)) s.read.next.spend.read).next.l := by
      have hl' : _ = s.l - 1 - text.length := hrend.l
      exact hl' ▸ (by omega)
    -- the letter and one more character are skipped
    refine .inl ⟨_, mem_reads_loop fmt args hleft hf', ?_⟩
    rw [State.next, hrend.pos, ← hn]
    exact Nat.lt_succ_self _

theorem loop_astray (h : Reading fmt args n items s) (hs : ¬ Smooth items s.l)
    (ho : ¬ Odd items s.l) (hf : s.l ≤ fuel) :
    Astray n (s.b ++ textOf items) (loop fmt args fuel s) := by
  induction items generalizing s fuel with
  | nil => exact absurd trivial hs
  | cons it items ih =>
    have hl : 0 < s.l := by
      apply Nat.pos_of_ne_zero
      intro h0
      exact hs (h0 ▸ smooth_zero _)
    obtain ⟨hclear, hunclear⟩ := not_or.mp ho
    by_cases hit : it.Clear s.l
    · obtain ⟨hc, hround⟩ := h.round hl hit
      obtain ⟨f, hf', hloop⟩ := loop_round args hl hc hf
      obtain ⟨hcost, hrest⟩ := Classical.not_imp.mp (not_and.mp hs hit)
      have hb := hround.b
      rw [if_pos hcost] at hb
      rw [← hround.l] at hrest hclear
      have hl' : 0 < (body fmt args s.read).l := by
        apply Nat.pos_of_ne_zero
        intro h0
        exact hrest (h0 ▸ smooth_zero _)
      rw [hloop, textOf_cons, ← List.append_assoc, ← hb]
      exact ih (hround.next hl') hrest (fun h => hclear ⟨hit, hcost, h⟩) hf'
    · have hun : ¬ it.Unclear items := fun h => hunclear ⟨hit, h⟩
      cases it with
      | plain c => exact absurd trivial hit
      | percent => exact h.astray_percent (Nat.lt_of_not_le hit) hun hf
      | directive k text =>
        obtain ⟨hk, hlen⟩ := Classical.not_imp.mp hit
        have hnil : items = [] := Classical.not_not.mp hun
        subst hk hnil
        exact h.astray_c (Nat.lt_of_not_le hlen) hf _

end Runs

/-- What a call promises for a format of `n` characters and the text it stands for. -/
structure Proper (len n : Nat) (doc : List UInt8) (p : Printed) : Prop where
  within : p.stored.length ≤ len
  reads : ∀ r ∈ p.reads, r ≤ n
  text : ∃ text, p.stored = text ++ [0] ∧ text <+: doc ∧ (doc.length ≤ len - 1 → text = doc)

/-- There is room for the terminator and for the `%` of each directive, and no obstacle on the
way. -/
def Suited (items : List Item) (len : Nat) : Prop :=
  lead items < len ∧ (len ≤ (textOf items).length ∨ needed items ≤ len) ∧ Smooth items len

section Calls
variable {fmt : Mem} {args : Args} {chars : List UInt8} {items : List Item} {len : Nat}

theorem vsnprintf_eq (fmt : Mem) (args : Args) (hlen : 0 < len) :
    vsnprintf true len (some fmt) args =
      ⟨len - (loop fmt args len (start len)).l, (loop fmt args len (start len)).b ++ [0],
        (loop fmt args len (start len)).reads⟩ := by
  have hcond : ¬ (true = false ∨ (len : Int) < 1) := by
    intro h
    cases h with
    | inl h => cases h
    | inr h => omega
  exact if_neg hcond

theorem start_reading (hfmt : StringAt fmt chars) (hdoc : Documented args chars 0 items)
    (len : Nat) : Reading fmt args chars.length items (start len) := by
  refine ⟨⟨chars, hdoc, ?_, Nat.zero_add _⟩, fun r hr => absurd hr List.not_mem_nil⟩
  have hzero : (fun j => fmt (0 + j)) = fmt := funext fun j => congrArg fmt (Nat.zero_add j)
  exact hzero.symm ▸ hfmt

theorem proper_cut_iff (items : List Item) (hlen : 0 < len) (ret : Int) {reads : List Nat}
    (hreads : ∀ r ∈ reads, r ≤ n) :
    Proper len n (textOf items) ⟨ret, cut items len ++ [0], reads⟩ ↔
      lead items < len ∧ (len ≤ (textOf items).length ∨ needed items ≤ len) := by
  have hroom := length_cut_lt_iff items len
  have hwhole := cut_eq_textOf_iff items len
  constructor
  · intro h
    obtain ⟨text, hstored, hbegins, hfits⟩ := h.text
    have htext : cut items len = text := List.append_cancel_right hstored
    subst htext
    have hlong : (cut items len ++ [0]).length ≤ len := h.within
    rw [List.length_append] at hlong
    refine ⟨hroom.mp hlong, ?_⟩
    by_cases hfit : (textOf items).length ≤ len - 1
    · exact .inr (hwhole.mp (hfits hfit))
    · exact .inl (by omega)
  · intro ⟨hlead, hneed⟩
    refine ⟨?_, hreads, cut items len, rfl, cut_begins items len, fun hfit => hwhole.mpr ?_⟩
    · rw [List.length_append]
      exact hroom.mpr hlead
    · cases hneed with
      | inl h => omega
      | inr h => exact h

theorem vsnprintf_proper_iff (hfmt : StringAt fmt chars) (hdoc : Documented args chars 0 items)
    (hlen : 0 < len) :
    (Suited items len →
      Proper len chars.length (textOf items) (vsnprintf true len (some fmt) args)) ∧
    (¬ Odd items len →
      Proper len chars.length (textOf items) (vsnprintf true len (some fmt) args) →
        Suited items len) := by
  have hreading := start_reading hfmt hdoc len
  rw [vsnprintf_eq fmt args hlen]
  by_cases hs : Smooth items len
  · obtain ⟨hb, hreads⟩ := loop_smooth hreading hs (Nat.le_refl len)
    have hiff := proper_cut_iff items hlen (len - (loop fmt args len (start len)).l) hreads
    rw [hb]
    refine ⟨fun h => hiff.mpr ⟨h.1, h.2.1⟩, fun _ h => ?_⟩
    obtain ⟨hlead, hneed⟩ := hiff.mp h
    exact ⟨hlead, hneed, hs⟩
  · refine ⟨fun h => absurd h.2.2 hs, fun ho h => ?_⟩
    exfalso
    cases loop_astray hreading hs ho (Nat.le_refl len) with
    | inl hbehind =>
      obtain ⟨r, hr, hlt⟩ := hbehind
      exact absurd (h.reads r hr) (Nat.not_le.mpr hlt)
    | inr hother =>
      obtain ⟨text, hstored, hbegins, -⟩ := h.text
      have htext := List.append_cancel_right hstored
      exact hother (htext.symm ▸ hbegins)

/-- The format `a%d` with the argument 5 and eight bytes. -/
theorem vsnprintf_proper_digit :
    Proper 8 3 (bytes "a5".toList)
      (vsnprintf true (8 : Nat) (some (literal (bytes "a%d".toList)))
        ⟨fun _ => 5, fun _ => 0⟩) := by
  have hdoc : Documented ⟨fun _ => 5, fun _ => 0⟩ (bytes "a%d".toList) 0
      [.plain 97, .directive .d [53]] :=
    .plain (by decide) (.directive rfl rfl .nil)
  have hsmooth : Smooth [.plain 97, .directive .d [53]] 8 :=
    ⟨trivial, fun _ => ⟨(nomatch ·), fun _ => trivial⟩⟩
  have hlen : 0 < 8 := by decide
  exact (vsnprintf_proper_iff ⟨by decide, by decide, by decide⟩ hdoc hlen).1
    ⟨by decide, .inr (by decide), hsmooth⟩

/-- Three characters and three bytes: the terminator is stored behind the buffer. -/
theorem vsnprintf_stores_behind :
    StringAt (literal (bytes "abc".toList)) (bytes "abc".toList) ∧
    Documented ⟨fun _ => 0, fun _ => 0⟩ (bytes "abc".toList) 0 [.plain 97, .plain 98, .plain 99] ∧
    ¬ Proper 3 3 (bytes "abc".toList)
      (vsnprintf true 3 (some (literal (bytes "abc".toList))) ⟨fun _ => 0, fun _ => 0⟩) := by
  refine ⟨⟨by decide, by decide, by decide⟩, ?_, fun h => absurd h.within (by decide)⟩
  exact .plain (by decide) (.plain (by decide) (.plain (by decide) .nil))

end Calls

end KernelLoader.Tge.Printf
