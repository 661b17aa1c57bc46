import KernelLoader.Lib.Solo
import KernelLoader.Tge.Transactions

namespace KernelLoader.Tge.Mc
open Lib Lib.Async
set_option autoImplicit true
set_option relaxedAutoImplicit false

/-- The bits of a signed field. -/
def fieldWord (x : Int) : Nat := (x % 2 ^ 32).toNat

theorem fieldWord_s32 (h : x < 2 ^ 32) : fieldWord (s32 x) = x := by
  unfold fieldWord s32
  omega

/-- The bytes a packet stands for: those in it and those in memory at `buffer`. -/
def McFileCmd.bytes (c : McFileCmd) (mem : Nat → UInt8) : List UInt8 :=
  (List.range c.origin.toNat).map c.data ++
    (List.range (fieldWord c.size)).map fun i => mem (fieldWord c.buffer + i)

/-- The packet stands for `size` bytes at `buf`, and what is fetched is aligned. -/
structure McFileCmd.Splits (c : McFileCmd) (mem : Nat → UInt8) (buf size : Nat) : Prop where
  origin : 0 ≤ c.origin ∧ c.origin ≤ 16
  bytes : c.bytes mem = (List.range size).map fun i => mem (buf + i)
  aligned : c.size ≠ 0 → 16 ∣ fieldWord c.buffer
  nonneg : size < 2 ^ 31 → 0 ≤ c.size

theorem range_map_split (f : Nat → α) (h : n ≤ k) :
    (List.range k).map f = (List.range n).map f ++ (List.range (k - n)).map fun i => f (n + i) := by
  obtain ⟨d, rfl⟩ := Nat.exists_eq_add_of_le h
  rw [List.range_add, List.map_append, List.map_map, Nat.add_sub_cancel_left]
  rfl

variable {cfg : Config} {c : McFileCmd} {mem : Nat → UInt8} {fd : Int} {buf size : Nat}

theorem McFileCmd.splits_of_origin {n : Nat} (hwrap : buf + size ≤ 2 ^ 32) (hbuf : 16 ≤ buf)
    (hn : n ≤ 16) (hle : n ≤ size) (horigin : c.origin = n)
    (hdata : ∀ i < n, c.data i = mem (buf + i))
    (hsize : c.size = s32 (sub32 size n))
    (hbuffer : n = size ∨ 16 ∣ buf + n ∧ c.buffer = s32 (u32 (buf + n))) :
    c.Splits mem buf size := by
  have hrest : fieldWord c.size = size - n := by
    rw [hsize, fieldWord_s32 (sub32_lt _ _), sub32_of_le hle (by omega)]
  have hfetched : n ≠ size → 16 ∣ buf + n ∧ fieldWord c.buffer = buf + n := by
    intro hne
    obtain ⟨hdvd, he⟩ := hbuffer.resolve_left hne
    rw [u32_of_lt (by omega)] at he
    exact ⟨hdvd, by rw [he, fieldWord_s32 (by omega)]⟩
  have hzero : n = size → c.size = 0 := by
    intro he
    rw [hsize, sub32_of_le hle (by omega), he, Nat.sub_self]
    rfl
  constructor
  · omega
  · rw [bytes, range_map_split (fun i => mem (buf + i)) hle, hrest, horigin, Int.toNat_natCast]
    have hhead : (List.range n).map c.data = (List.range n).map fun i => mem (buf + i) := by
      apply List.map_congr_left
      intro i hi
      exact hdata i (List.mem_range.mp hi)
    rw [hhead]
    congr 1
    apply List.map_congr_left
    intro i hi
    have hlt := List.mem_range.mp hi
    rw [(hfetched (by omega)).2, Nat.add_assoc]
  · intro hne
    obtain ⟨hdvd, he⟩ := hfetched fun he => hne (hzero he)
    rw [he]
    exact hdvd
  · intro hlt
    rw [hsize, sub32_of_le hle (by omega)]
    unfold s32
    omega

/-- No more is put into the packet of a write than there is. -/
def Call.OriginOk (s : Vars) : Call → Prop
  | .mcwrite _ _ size _ => s.mcFileCmd.origin ≤ size
  | _ => True

/-- What is asked of the requests: they are the call's own, and a write splits its data. -/
def SentSplit (cfg : Config) (call : Call) (s : Vars) (q : Request) : Prop :=
  Sent cfg call s q ∧ call.OriginOk s

theorem stores_requests {func : Nat} {fs : List (Vars → Vars)} {column : Nat}
    {packet : Vars → Packet} {ssize : Nat} {endfunc : EndFunc} {Q : Vars → Request → Prop}
    (hstores : fs.Forall fun f => ∀ s, Initialised s → Initialised (f s))
    (hQ : ∀ s, Q (fs.foldl (fun s f => f s) s)
      (.call (mcRpcCmd (fs.foldl (fun s f => f s) s).mcType column)
        (packet (fs.foldl (fun s f => f s) s)) ssize 4 endfunc)) :
    (transaction func (.acts fs) column packet ssize endfunc).Exclusive .lastCmd (-sifRpceSendp)
      Initialised Q none := by
  refine fun counter => .ite trivial ⟨rfl, rfl, fun s hs => ?_⟩
  refine Prog.exclusive_acts hstores hs fun _ => ?_
  exact ⟨hQ s, trivial, rfl, trivial⟩

theorem length_writeStores (fd : Int) (buf size : Nat) (data : Nat → UInt8) :
    (writeStores fd buf size data).length = 5 := by
  unfold writeStores
  split_ifs <;> rfl

theorem writeStores_packet (fd : Int) (buf size : Nat) (data : Nat → UInt8) (s : Vars) :
    ∃ n buffer, n ≤ 16 ∧ n ≤ size ∧ (n = size ∨ 16 ∣ buf + n ∧ buffer = s32 (u32 (buf + n))) ∧
      (writeStores fd buf size data).foldl (fun s f => f s) s =
        copyData data
          (setBuffer buffer (setOrigin n (setSize (s32 (sub32 size n)) (setFd fd s)))) := by
  obtain ⟨hlt, hdvd⟩ := unaligned_spec buf
  unfold writeStores
  generalize unaligned buf = n at hlt hdvd
  split_ifs with hsize
  · have hle : size ≤ 16 := by omega
    have hrest : s32 (sub32 size size) = 0 := by
      unfold s32 sub32
      omega
    refine ⟨size, 0, hle, Nat.le_refl size, .inl rfl, ?_⟩
    rw [hrest, s32_small hle]
    rfl
  · have hle : n ≤ 16 := by omega
    refine ⟨n, _, hle, by omega, .inr ⟨hdvd, rfl⟩, ?_⟩
    rw [s32_small hle]
    rfl

theorem sbcallMcwrite_sentSplit (data : Nat → UInt8) :
    (sbcallMcwrite fd buf size data).Exclusive .lastCmd (-sifRpceSendp) Initialised
      (SentSplit cfg (.mcwrite fd buf size data)) none := by
  apply stores_requests
  · unfold writeStores
    split_ifs
    · exact ⟨fun _ h => h.file _, fun _ h => h.file _, fun _ h => h.file _, fun _ h => h.file _,
        fun _ h => h.file _⟩
    · exact ⟨fun _ h => h.file _, fun _ h => h.file _, fun _ h => h.file _, fun _ h => h.file _,
        fun _ h => h.file _⟩
  · intro s
    obtain ⟨n, buffer, hn, hle, hbuffer, hs⟩ := writeStores_packet fd buf size data s
    rw [hs]
    refine ⟨⟨?_, 48, .mcCallback, nofun, rfl⟩, ?_⟩
    · exact copyData_hasArgs data s rfl hn rfl hbuffer
    · exact Int.ofNat_le.mpr hle

theorem Call.body_sentSplit {call : Call} (h : call ≠ .mcinit) :
    (call.body cfg).Exclusive .lastCmd (-sifRpceSendp) Initialised (SentSplit cfg call) none := by
  cases call with
  | mcwrite fd buf size data => exact sbcallMcwrite_sentSplit data
  | _ => exact (Call.body_exclusive h).mono fun s q hq => ⟨hq, trivial⟩

theorem sentSplit_of_reaches {s : Sys Vars Lock Request Call}
    (hr : (driver cfg).Reaches Initialised isTransaction s) {e : Message Lock Request Call}
    (hw : s.wire w = some e) : SentSplit cfg e.call s.vars e.request := by
  have hcall : ∀ s t call, isTransaction s (.start t call) → call ≠ .mcinit := by
    rintro s t call h rfl
    exact Bool.noConfusion h
  have hvars : ∀ call vars q x, SentSplit cfg call vars q → q.setServer x vars = vars := by
    rintro call vars q x ⟨⟨-, ssize, endfunc, -, rfl⟩, -⟩
    rfl
  have he : s.Exclusive .lastCmd (-sifRpceSendp) Initialised (SentSplit cfg) :=
    (hr.exclusive (fun _ h => h) (fun s t call h => call.body_keeps cfg (hcall s t call h))
      (fun q o hq => q.callback_keeps hq) (fun s t call h => call.body_sentSplit (hcall s t call h))
      (fun call vars q _ hq => q.callback_exclusive hq.1)
      (fun call vars q hq => hvars call vars q 0 hq) hvars).2
  exact (he.code.waiting w e hw).2

theorem transaction_sends (call : Call) {func : Nat} {fs : List (Vars → Vars)} {column : Nat}
    {packet : Vars → Packet} {ssize : Nat} {endfunc : EndFunc}
    (hbody : call.body cfg = transaction func (.acts fs) column packet ssize endfunc)
    {s : Sys Vars Lock Request Call} {t w : Nat} (ht : s.contexts t = none)
    (hw : s.wire w = none) (hinit : s.vars.mcInitializeCounter = mcInitialized)
    (hfree : s.locks .lastCmd = 0) :
    ∃ s', (driver cfg).alone s t w call (fs.length + 4) = some s' ∧ s'.contexts = s.contexts ∧
      s'.vars = fs.foldl (fun s f => f s) s.vars ∧ (s'.outcomes s.next).returned = some 0 ∧
      s'.wire = Function.update s.wire w
        (some ⟨.call (mcRpcCmd s'.vars.mcType column) (packet s'.vars) ssize 4 endfunc, call,
          s.next, {.lastCmd}, true⟩) := by
  have hstart : (driver cfg).step s (.start t call) =
      some ({ s with next := s.next + 1 }.setContext t
        (some ⟨call.body cfg, call, s.next, false, ∅, true⟩)) := by
    rw [Driver.step, ht]
    rfl
  have hif : ¬ s.vars.mcInitializeCounter ≠ mcInitialized := not_not.mpr hinit
  rw [Driver.alone, Driver.run_cons hstart, List.replicate_succ, List.replicate_succ,
    Driver.run_read (Function.update_self _ _ _) hbody,
    Driver.run_lock (Function.update_self _ _ _) (if_neg hif)]
  rw [Driver.run_acts (Function.update_self _ _ _) rfl, List.replicate_succ]
  rw [Driver.run_request (Function.update_self _ _ _) rfl, List.replicate_succ]
  rw [Driver.run_ret (Function.update_self _ _ _) rfl]
  · refine ⟨_, rfl, ?_, rfl, ?_, rfl⟩
    · simp [Sys.setContext, Sys.setMessage, ← ht]
    · simp [Sys.setContext, Sys.setMessage, Sys.finish, Sys.setOutcome]
  · exact hw
  · exact hfree

/-- A write that finds the library free runs to its end, and the packet it sends stands for the data
and differs from the one before in its first 16 bytes of data at most. In every interleaving the
packet of a write on its way stands for the data. -/
theorem mcwrite_splits (cfg : Config) (fd : Int) (mem : Nat → UInt8) (hbuf : 16 ≤ buf)
    (hwrap : buf + size ≤ 2 ^ 32) :
    (∀ s : Sys Vars Lock Request Call, ∀ t w, s.contexts t = none → s.wire w = none →
      s.vars.mcInitializeCounter = mcInitialized → s.locks .lastCmd = 0 →
      ∃ s' c, (driver cfg).alone s t w (.mcwrite fd buf size fun i => mem (buf + i)) 9 = some s' ∧
        s'.contexts t = none ∧ (s'.outcomes s.next).returned = some 0 ∧
        (s'.wire w).map (·.request) =
          some (.call (mcRpcCmd s.vars.mcType mcRpccmdWrite) (.file c) 48 4 .mcCallback) ∧
        c.fd = fd ∧ c.Splits mem buf size ∧ ∀ i ≥ 16, c.data i = s.vars.mcFileCmd.data i) ∧
    ∀ s, (driver cfg).Reaches Initialised isTransaction s → ∀ w e, s.wire w = some e →
      e.call = .mcwrite fd buf size (fun i => mem (buf + i)) →
      ∃ number c ssize endfunc, e.request = .call number (.file c) ssize 4 endfunc ∧
        c.Splits mem buf size := by
  constructor
  · intro s t w ht hw hinit hfree
    obtain ⟨n, buffer, hn, hle, hbuffer, hstores⟩ :=
      writeStores_packet fd buf size (fun i => mem (buf + i)) s.vars
    have hbody : (Call.mcwrite fd buf size fun i => mem (buf + i)).body cfg =
        sbcallMcwrite fd buf size fun i => mem (buf + i) := rfl
    obtain ⟨s', hrun, hcontexts, hvars, hret, hwire⟩ :=
      transaction_sends _ hbody ht hw hinit hfree
    rw [length_writeStores] at hrun
    rw [hstores] at hvars
    refine ⟨s', s'.vars.mcFileCmd, hrun, hcontexts ▸ ht, hret, ?_, ?_, ?_, ?_⟩
    · rw [hwire, Function.update_self, hvars]
      rfl
    · rw [hvars]
      rfl
    · rw [hvars]
      exact McFileCmd.splits_of_origin hwrap hbuf hn hle rfl (fun i hi => if_pos hi) rfl hbuffer
    · intro i hi
      rw [hvars]
      exact if_neg (by show ¬ i < n; omega)
  · intro s hr w e hw hcall
    have hsent := sentSplit_of_reaches hr hw
    rw [hcall] at hsent
    obtain ⟨⟨⟨-, n, hn, horigin, hdata, hsize, hbuffer⟩, ssize, endfunc, -, hq⟩, hok⟩ := hsent
    have hle : n ≤ size := by
      have horiginOk : s.vars.mcFileCmd.origin ≤ size := hok
      omega
    refine ⟨_, s.vars.mcFileCmd, ssize, endfunc, hq, ?_⟩
    apply McFileCmd.splits_of_origin hwrap hbuf hn hle horigin hdata hsize
    exact hbuffer.imp_right id

/-- Twenty bytes at 35 are written: 13 of them are in the packet, and 7 are fetched from 48. -/
theorem mcwrite_splits_twenty :
    ∃ s' c, (driver ⟨0, 0⟩).alone (.idle (.initialised mcTypeXmc)) 0 0
        (.mcwrite 3 35 20 fun i => .ofNat (35 + i)) 9 = some s' ∧
      (s'.wire 0).map (·.request) = some (.call (some 6) (.file c) 48 4 .mcCallback) ∧
      c.origin = 13 ∧ c.size = 7 ∧ c.buffer = 48 ∧ c.Splits (fun a => .ofNat a) 35 20 := by
  obtain ⟨s', c, hrun, -, -, hwire, -, hsplits, -⟩ :=
    (mcwrite_splits ⟨0, 0⟩ 3 (fun a => .ofNat a) (show 16 ≤ 35 by decide)
      (show 35 + 20 ≤ 2 ^ 32 by decide)).1 (.idle (.initialised mcTypeXmc)) 0 0 rfl rfl rfl rfl
  refine ⟨s', c, hrun, hwire, ?_, ?_, ?_, hsplits⟩
  all_goals
    cases Option.some.inj hrun
    cases Option.some.inj hwire
    rfl

end KernelLoader.Tge.Mc
