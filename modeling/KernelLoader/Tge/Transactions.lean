import KernelLoader.Tge.MemoryCard

namespace KernelLoader.Tge.Mc
open Lib Lib.Async
set_option autoImplicit true
set_option relaxedAutoImplicit false

section Arguments

/-- The name as the packet has it: cut off after 1023 bytes, the rest filled with zeros. -/
def McCmd.HasName (c : McCmd) (name : List UInt8) : Prop :=
  (∀ i < 1023, c.name i = (name.takeWhile (· ≠ 0)).getD i 0) ∧ c.name 1023 = 0

theorem endName_hasName (name : List UInt8) (s : Vars) :
    (endName (copyName name s)).mcCmd.HasName name := by
  refine ⟨fun i hi => ?_, by simp [endName]⟩
  have hne : i ≠ 1023 := by omega
  simp [endName, copyName, strncpy, hne, hi]

/-- What a call has to leave in the buffers before it sends its packet. Of the data that is written,
the bytes before the first multiple of 16 are in the packet, and the rest is fetched from there. -/
def Call.HasArgs (cfg : Config) (s : Vars) : Call → Prop
  | .mcinit => True
  | .mcgetinfo port slot type free format =>
    s.mcInfoCmd 1 = port ∧ s.mcInfoCmd 2 = slot ∧ s.mcInfoCmd 4 = flag free ∧
      s.mcInfoCmd 3 = (if s.mcType = mcTypeMc then flag type else flag format) ∧
      s.mcInfoCmd 5 = (if s.mcType = mcTypeMc then flag format else flag type) ∧
      s.mcInfoCmd 7 = cfg.endParameter ∧
      s.typeAddr = type ∧ s.freeAddr = free ∧ s.formatAddr = format
  | .mcopen port slot name mode =>
    s.mcCmd.port = port ∧ s.mcCmd.slot = slot ∧ s.mcCmd.flags = mode ∧ s.mcCmd.HasName name
  | .mcclose fd => s.mcFileCmd.fd = fd
  | .mcseek fd offset whence =>
    s.mcFileCmd.fd = fd ∧ s.mcFileCmd.offset = offset ∧ s.mcFileCmd.origin = whence
  | .mcread fd buf size =>
    s.mcFileCmd.fd = fd ∧ s.mcFileCmd.size = s32 size ∧ s.mcFileCmd.buffer = s32 buf ∧
      s.mcFileCmd.param = cfg.endParameter
  | .mcwrite fd buf size data =>
    s.mcFileCmd.fd = fd ∧ ∃ n : Nat, n ≤ 16 ∧ s.mcFileCmd.origin = n ∧
      (∀ i < n, s.mcFileCmd.data i = data i) ∧ s.mcFileCmd.size = s32 (sub32 size n) ∧
      (n = size ∨ 16 ∣ buf + n ∧ s.mcFileCmd.buffer = s32 (u32 (buf + n)))
  | .mcflush fd => s.mcFileCmd.fd = fd
  | .mcmkdir port slot name =>
    s.mcCmd.port = port ∧ s.mcCmd.slot = slot ∧ s.mcCmd.flags = 0x40 ∧ s.mcCmd.HasName name
  | .mcgetdir port slot name mode maxEntries dirents =>
    s.mcCmd.port = port ∧ s.mcCmd.slot = slot ∧ s.mcCmd.flags = mode ∧
      s.mcCmd.maxent = maxEntries ∧ s.mcCmd.table = dirents ∧ s.mcCmd.HasName name
  | .mcsetfileinfo port slot name dirent modes =>
    s.mcCmd.port = port ∧ s.mcCmd.slot = slot ∧ s.mcCmd.flags = modes ∧
      s.mcCmd.table = cfg.buffFileInfo ∧ (∀ i < 64, s.buffFileInfo i = dirent i) ∧
      s.mcCmd.HasName name
  | .mcdelete port slot name =>
    s.mcCmd.port = port ∧ s.mcCmd.slot = slot ∧ s.mcCmd.flags = 0 ∧ s.mcCmd.HasName name
  | .mcformat port slot => s.mcCmd.port = port ∧ s.mcCmd.slot = slot
  | .mcunformat port slot => s.mcCmd.port = port ∧ s.mcCmd.slot = slot
  | .mcgetentspace port slot name =>
    s.mcCmd.port = port ∧ s.mcCmd.slot = slot ∧ s.mcCmd.HasName name
  | .mcrename port slot origname newname =>
    s.mcCmd.port = port ∧ s.mcCmd.slot = slot ∧ s.mcCmd.flags = 0x10 ∧
      s.mcCmd.table = cfg.buffFileInfo ∧ s.mcCmd.HasName origname ∧
      (∀ i < 31, s.buffFileInfo (0x20 + i) = (newname.takeWhile (· ≠ 0)).getD i 0) ∧
      s.buffFileInfo 63 = 0

/-- The buffer that a call sends. -/
def Call.packet : Call → Vars → Packet
  | .mcgetinfo .. => Vars.info
  | .mcclose .. | .mcseek .. | .mcread .. | .mcwrite .. | .mcflush .. => Vars.file
  | _ => Vars.cmd

/-- The column of the table for the operation of a call. A directory is made by opening it, and a
new name is set like the other information of a file. -/
def Call.column : Call → Nat
  | .mcinit => mcRpccmdInit
  | .mcgetinfo .. => mcRpccmdGetInfo
  | .mcopen .. => mcRpccmdOpen
  | .mcclose .. => mcRpccmdClose
  | .mcseek .. => mcRpccmdSeek
  | .mcread .. => mcRpccmdRead
  | .mcwrite .. => mcRpccmdWrite
  | .mcflush .. => mcRpccmdFlush
  | .mcmkdir .. => mcRpccmdOpen
  | .mcgetdir .. => mcRpccmdGetDir
  | .mcsetfileinfo .. => mcRpccmdSetInfo
  | .mcdelete .. => mcRpccmdDelete
  | .mcformat .. => mcRpccmdFormat
  | .mcunformat .. => mcRpccmdUnformat
  | .mcgetentspace .. => mcRpccmdGetEnt
  | .mcrename .. => mcRpccmdSetInfo

/-- The calls that take their column from the other family of constants. -/
def Call.miscoded : Call → Bool
  | .mcgetentspace .. | .mcrename .. => true
  | _ => false

/-- The column that a call uses. -/
def Call.usedColumn : Call → Nat
  | .mcgetentspace .. => mcFuncGetEnt
  | .mcrename .. => mcFuncSetInfo
  | call => call.column

end Arguments

section Numbers

theorem Call.usedColumn_eq {call : Call} (h : call.miscoded = false) :
    call.usedColumn = call.column := by
  cases call <;> first | rfl | cases h

theorem Call.column_le (call : Call) : call.column ≤ 16 := by
  cases call <;> exact Nat.le_of_ble_eq_true rfl

theorem Call.usedColumn_right_iff (call : Call) {mcType : Int}
    (h : mcType = mcTypeMc ∨ mcType = mcTypeXmc) :
    call.usedColumn ≤ 16 ∧ mcRpcCmd mcType call.usedColumn = mcRpcCmd mcType call.column ↔
      call.miscoded = false := by
  refine ⟨fun ⟨hle, hnumber⟩ => ?_, fun hcall => ?_⟩
  · cases call with
    | mcgetentspace port slot name =>
      have hgetEnt : ¬ mcFuncGetEnt ≤ 16 := by decide
      exact absurd hle hgetEnt
    | mcrename port slot origname newname =>
      have hmc : mcRpcCmd mcTypeMc mcFuncSetInfo ≠ mcRpcCmd mcTypeMc mcRpccmdSetInfo := by decide
      have hxmc : mcRpcCmd mcTypeXmc mcFuncSetInfo ≠ mcRpcCmd mcTypeXmc mcRpccmdSetInfo := by decide
      rcases h with rfl | rfl
      · exact absurd hnumber hmc
      · exact absurd hnumber hxmc
    | _ => rfl
  · rw [call.usedColumn_eq hcall]
    exact ⟨call.column_le, rfl⟩

theorem unaligned_spec (buf : Nat) : unaligned buf < 16 ∧ 16 ∣ buf + unaligned buf := by
  unfold unaligned sub32
  omega

theorem s32_small {n : Nat} (h : n ≤ 16) : s32 n = n := by
  unfold s32
  omega

end Numbers

/-- The library is initialised. -/
def Initialised (s : Vars) : Prop :=
  s.mcInitializeCounter = mcInitialized ∧ (s.mcType = mcTypeMc ∨ s.mcType = mcTypeXmc)

/-- What a call sends: the buffer with its arguments, under the number of the column it uses. -/
def Sent (cfg : Config) (call : Call) (s : Vars) (q : Request) : Prop :=
  call.HasArgs cfg s ∧ ∃ ssize endfunc, endfunc ≠ .mcInitCallback ∧
    q = .call (mcRpcCmd s.mcType call.usedColumn) (call.packet s) ssize 4 endfunc

section Bodies
variable {cfg : Config} {call : Call}

/-- Code that holds `lastCmd` when it changes the variables. -/
abbrev Exclusive (cfg : Config) (call : Call) (p : Code) (o : Option Vars) : Prop :=
  p.Exclusive .lastCmd (-sifRpceSendp) Initialised (Sent cfg call) o

theorem transaction_exclusive {func : Nat} {fill : Code → Code} {column : Nat}
    {packet : Vars → Packet} {ssize : Nat} {endfunc : EndFunc} (hcolumn : column = call.usedColumn)
    (hpacket : packet = call.packet) (hend : endfunc ≠ .mcInitCallback)
    (hfill : ∀ s k, Initialised s →
      (∀ s', Initialised s' → call.HasArgs cfg s' → Exclusive cfg call k (some s')) →
      Exclusive cfg call (fill k) (some s)) :
    Exclusive cfg call (transaction func fill column packet ssize endfunc) none := by
  refine fun counter => .ite trivial ⟨rfl, rfl, fun s hs => hfill s _ hs fun s' hs' hargs => ?_⟩
  subst hcolumn hpacket
  exact ⟨⟨hargs, ssize, endfunc, hend, rfl⟩, trivial, rfl, trivial⟩

theorem stores_exclusive {func : Nat} {fs : List (Vars → Vars)} {column : Nat}
    {packet : Vars → Packet} {ssize : Nat} {endfunc : EndFunc} (hcolumn : column = call.usedColumn)
    (hpacket : packet = call.packet) (hend : endfunc ≠ .mcInitCallback)
    (hstores : fs.Forall fun f => ∀ s, Initialised s → Initialised (f s))
    (hargs : ∀ s, call.HasArgs cfg (fs.foldl (fun s f => f s) s)) :
    Exclusive cfg call (transaction func (.acts fs) column packet ssize endfunc) none := by
  refine transaction_exclusive hcolumn hpacket hend fun s k hs hk => ?_
  exact Prog.exclusive_acts hstores hs fun hs' => hk _ hs' (hargs s)

theorem sbcallMcgetinfo_exclusive (port slot type free format : Int) :
    Exclusive cfg (.mcgetinfo port slot type free format)
      (sbcallMcgetinfo cfg port slot type free format) none := by
  refine transaction_exclusive rfl rfl nofun fun s k hs hk => ?_
  rw [Exclusive, Prog.Exclusive]
  split_ifs with hmc
  · refine Prog.exclusive_acts ?_ hs fun hs' => Prog.exclusive_acts ?_ hs' fun hs'' => hk _ hs'' ?_
    · exact ⟨fun _ h => h, fun _ h => h, fun _ h => h, fun _ h => h, fun _ h => h, fun _ h => h⟩
    · exact ⟨fun _ h => h, fun _ h => h, fun _ h => h⟩
    · simp [Call.HasArgs, setInfo, hmc]
  · refine Prog.exclusive_acts ?_ hs fun hs' => Prog.exclusive_acts ?_ hs' fun hs'' => hk _ hs'' ?_
    · exact ⟨fun _ h => h, fun _ h => h, fun _ h => h, fun _ h => h, fun _ h => h, fun _ h => h⟩
    · exact ⟨fun _ h => h, fun _ h => h, fun _ h => h⟩
    · simp [Call.HasArgs, setInfo, hmc]

theorem Initialised.file {s : Vars} (h : Initialised s) (c : McFileCmd) :
    Initialised { s with mcFileCmd := c } := h

theorem copyData_hasArgs {fd size' origin buffer : Int} {buf size n : Nat} (data : Nat → UInt8)
    (s : Vars) (hn : origin = n) (hle : n ≤ 16) (hsize : size' = s32 (sub32 size n))
    (hrest : n = size ∨ 16 ∣ buf + n ∧ buffer = s32 (u32 (buf + n))) :
    Call.HasArgs cfg
      (copyData data (setBuffer buffer (setOrigin origin (setSize size' (setFd fd s)))))
      (.mcwrite fd buf size data) := by
  refine ⟨rfl, n, hle, hn, fun i hi => ?_, hsize, hrest⟩
  have hlt : i < origin.toNat := by omega
  exact if_pos hlt

theorem sbcallMcwrite_exclusive (fd : Int) (buf size : Nat) (data : Nat → UInt8) :
    Exclusive cfg (.mcwrite fd buf size data) (sbcallMcwrite fd buf size data) none := by
  unfold sbcallMcwrite writeStores
  split_ifs with hsize
  · have hle : size ≤ 16 := by omega
    have hrest : 0 = s32 (sub32 size size) := by
      unfold s32 sub32
      omega
    refine stores_exclusive rfl rfl nofun ?_ fun s => ?_
    · exact ⟨fun _ h => h.file _, fun _ h => h.file _, fun _ h => h.file _, fun _ h => h.file _,
        fun _ h => h.file _⟩
    · exact copyData_hasArgs data s (s32_small hle) hle hrest (.inl rfl)
  · obtain ⟨hlt, hdvd⟩ := unaligned_spec buf
    have hle : unaligned buf ≤ 16 := by omega
    refine stores_exclusive rfl rfl nofun ?_ fun s => ?_
    · exact ⟨fun _ h => h.file _, fun _ h => h.file _, fun _ h => h.file _, fun _ h => h.file _,
        fun _ h => h.file _⟩
    · exact copyData_hasArgs data s (s32_small hle) hle rfl (.inr ⟨hdvd, rfl⟩)

theorem endNewName_hasName (newname : List UInt8) (s : Vars) :
    (∀ i < 31, (endNewName (copyNewName newname s)).buffFileInfo (0x20 + i) =
      (newname.takeWhile (· ≠ 0)).getD i 0) ∧
      (endNewName (copyNewName newname s)).buffFileInfo 63 = 0 := by
  refine ⟨fun i hi => ?_, by simp [endNewName]⟩
  have hne : 0x20 + i ≠ 63 := by omega
  simp [endNewName, copyNewName, strncpy, hne, hi]

/-- A command changes the variables only while it holds `lastCmd`, and it sends its own
arguments. -/
theorem Call.body_exclusive {call : Call} (h : call ≠ .mcinit) :
    Exclusive cfg call (call.body cfg) none := by
  cases call with
  | mcinit => exact absurd rfl h
  | mcgetinfo port slot type free format =>
    exact sbcallMcgetinfo_exclusive port slot type free format
  | mcopen port slot name mode =>
    refine stores_exclusive rfl rfl nofun ?_ fun s => ?_
    · exact ⟨fun _ h => h, fun _ h => h, fun _ h => h, fun _ h => h, fun _ h => h⟩
    · exact ⟨rfl, rfl, rfl, endName_hasName _ _⟩
  | mcclose fd =>
    refine stores_exclusive rfl rfl nofun ?_ fun s => ?_
    · exact fun _ h => h
    · exact rfl
  | mcseek fd offset whence =>
    refine stores_exclusive rfl rfl nofun ?_ fun s => ?_
    · exact ⟨fun _ h => h, fun _ h => h, fun _ h => h⟩
    · exact ⟨rfl, rfl, rfl⟩
  | mcread fd buf size =>
    refine stores_exclusive rfl rfl nofun ?_ fun s => ?_
    · exact ⟨fun _ h => h, fun _ h => h, fun _ h => h, fun _ h => h⟩
    · exact ⟨rfl, rfl, rfl, rfl⟩
  | mcwrite fd buf size data => exact sbcallMcwrite_exclusive fd buf size data
  | mcflush fd =>
    refine stores_exclusive rfl rfl nofun ?_ fun s => ?_
    · exact fun _ h => h
    · exact rfl
  | mcmkdir port slot name =>
    refine stores_exclusive rfl rfl nofun ?_ fun s => ?_
    · exact ⟨fun _ h => h, fun _ h => h, fun _ h => h, fun _ h => h, fun _ h => h⟩
    · exact ⟨rfl, rfl, rfl, endName_hasName _ _⟩
  | mcgetdir port slot name mode maxEntries dirents =>
    refine stores_exclusive rfl rfl nofun ?_ fun s => ?_
    · exact ⟨fun _ h => h, fun _ h => h, fun _ h => h, fun _ h => h, fun _ h => h, fun _ h => h,
        fun _ h => h⟩
    · exact ⟨rfl, rfl, rfl, rfl, rfl, endName_hasName _ _⟩
  | mcsetfileinfo port slot name dirent modes =>
    refine stores_exclusive rfl rfl nofun ?_ fun s => ?_
    · exact ⟨fun _ h => h, fun _ h => h, fun _ h => h, fun _ h => h, fun _ h => h, fun _ h => h,
        fun _ h => h⟩
    · exact ⟨rfl, rfl, rfl, rfl, fun i hi => if_pos hi, endName_hasName _ _⟩
  | mcdelete port slot name =>
    refine stores_exclusive rfl rfl nofun ?_ fun s => ?_
    · exact ⟨fun _ h => h, fun _ h => h, fun _ h => h, fun _ h => h, fun _ h => h⟩
    · exact ⟨rfl, rfl, rfl, endName_hasName _ _⟩
  | mcformat port slot =>
    refine stores_exclusive rfl rfl nofun ?_ fun s => ?_
    · exact ⟨fun _ h => h, fun _ h => h⟩
    · exact ⟨rfl, rfl⟩
  | mcunformat port slot =>
    refine stores_exclusive rfl rfl nofun ?_ fun s => ?_
    · exact ⟨fun _ h => h, fun _ h => h⟩
    · exact ⟨rfl, rfl⟩
  | mcgetentspace port slot name =>
    refine stores_exclusive rfl rfl nofun ?_ fun s => ?_
    · exact ⟨fun _ h => h, fun _ h => h, fun _ h => h, fun _ h => h⟩
    · exact ⟨rfl, rfl, endName_hasName _ _⟩
  | mcrename port slot origname newname =>
    refine stores_exclusive rfl rfl nofun ?_ fun s => ?_
    · exact ⟨fun _ h => h, fun _ h => h, fun _ h => h, fun _ h => h, fun _ h => h, fun _ h => h,
        fun _ h => h, fun _ h => h⟩
    · exact ⟨rfl, rfl, rfl, rfl, endName_hasName _ _, endNewName_hasName _ _⟩

/-- A command and its completion hold `lastCmd`. -/
def Request.guard : Request → Option (Finset Lock)
  | .call _ _ _ _ .mcCallback | .call _ _ _ _ .mcGetInfoApdx
  | .call _ _ _ _ .mcReadFixAlign => some {.lastCmd}
  | _ => none

theorem unlock_keeps {k : Code} (h : k.Keeps Request.guard ∅) :
    (Prog.unlock .lastCmd k : Code).Keeps Request.guard {.lastCmd} := by
  refine ⟨Finset.mem_singleton_self _, ?_⟩
  rw [Finset.erase_singleton]
  exact h

theorem transaction_keeps {func : Nat} {fill : Code → Code} {column : Nat}
    {packet : Vars → Packet} {ssize : Nat} {endfunc : EndFunc} (hfunc : (func : Int) ≠ 0)
    (hfill : ∀ k : Code, k.Keeps Request.guard {.lastCmd} → (fill k).Keeps Request.guard {.lastCmd})
    (hend : endfunc ≠ .mcInitCallback) :
    (transaction func fill column packet ssize endfunc).Keeps Request.guard ∅ := by
  refine fun counter => .ite rfl ⟨hfunc, hfill _ ⟨fun s => ?_, rfl, unlock_keeps rfl⟩, rfl⟩
  cases endfunc with
  | mcInitCallback => exact absurd rfl hend
  | _ => rfl

theorem stores_keeps {func : Nat} {fs : List (Vars → Vars)} {column : Nat}
    {packet : Vars → Packet} {ssize : Nat} {endfunc : EndFunc} (hfunc : (func : Int) ≠ 0)
    (hend : endfunc ≠ .mcInitCallback) :
    (transaction func (.acts fs) column packet ssize endfunc).Keeps Request.guard ∅ :=
  transaction_keeps hfunc (fun k hk => (Prog.keeps_acts fs k _).mpr hk) hend

theorem Call.body_keeps (cfg : Config) {call : Call} (h : call ≠ .mcinit) :
    (call.body cfg).Keeps Request.guard ∅ := by
  cases call with
  | mcinit => exact absurd rfl h
  | mcgetinfo port slot type free format =>
    rw [Call.body, sbcallMcgetinfo]
    refine transaction_keeps (by decide) (fun k hk => ?_) nofun
    intro mcType
    exact (Prog.keeps_acts _ _ _).mpr ((Prog.keeps_acts _ _ _).mpr hk)
  | _ => exact stores_keeps (by decide) nofun

theorem Request.callback_keeps {q : Request} (h : q.guard = some o) :
    q.callback.Keeps Request.guard o := by
  unfold Request.guard at h
  split at h
  · cases h
    exact unlock_keeps fun _ => rfl
  · cases h
    exact unlock_keeps fun _ => rfl
  · cases h
    exact unlock_keeps fun _ => rfl
  · cases h

theorem Request.callback_exclusive {Q : Vars → Request → Prop} {s : Vars} {q : Request}
    (h : Sent cfg call s q) :
    q.callback.Exclusive .lastCmd (-sifRpceSendp) Initialised Q (some s) := by
  obtain ⟨-, ssize, endfunc, hend, rfl⟩ := h
  cases endfunc with
  | mcInitCallback => exact absurd rfl hend
  | mcCallback => exact ⟨rfl, fun _ => trivial⟩
  | mcGetInfoApdx => exact ⟨rfl, fun _ => trivial⟩
  | mcReadFixAlign => exact ⟨rfl, fun _ => trivial⟩

end Bodies

/-- The calls that are not the initialisation. -/
def isTransaction (_ : Sys Vars Lock Request Call) : Action Call → Bool
  | .start _ .mcinit => false
  | _ => true

/-- In every interleaving of commands and completions, once the library is initialised: `lastCmd` is
set while exactly one call issues a command or waits for its completion, and every request on its
way has it. A call that finds it set returns an error and has changed nothing. The packet of a
request on its way holds the arguments of its call, and its number is the one of the operation
unless the call is one of the two that use the wrong constants. -/
theorem mc_transactions (cfg : Config) {s : Sys Vars Lock Request Call}
    (hr : (driver cfg).Reaches Initialised isTransaction s) :
    (s.locks .lastCmd ≠ 0 ↔ ∃! o, .lastCmd ∈ s.owned o) ∧
      (∀ o o', .lastCmd ∈ s.owned o → .lastCmd ∈ s.owned o' → o = o') ∧
      (∀ w e, s.wire w = some e → .lastCmd ∈ s.owned (.message w)) ∧
      (∀ t c ch s', s.contexts t = some c → (driver cfg).step s (.run t ch) = some s' →
        (.lastCmd ∉ c.owned → s'.vars = s.vars) ∧
        ∀ v k, c.prog = .lock .lastCmd v k → s.locks .lastCmd ≠ 0 →
          s'.contexts t = some { c with prog := .ret (-sifRpceSendp) }) ∧
      ∀ w e, s.wire w = some e → e.call.HasArgs cfg s.vars ∧
        ∃ column ssize endfunc,
          e.request = .call (mcRpcCmd s.vars.mcType column) (e.call.packet s.vars) ssize 4 endfunc ∧
          (column ≤ 16 ∧ mcRpcCmd s.vars.mcType column = mcRpcCmd s.vars.mcType e.call.column ↔
            e.call.miscoded = false) := by
  have hcall : ∀ s t call, isTransaction s (.start t call) → call ≠ .mcinit := by
    rintro s t call h rfl
    exact Bool.noConfusion h
  have hvars : ∀ call vars q x, Sent cfg call vars q → q.setServer x vars = vars := by
    rintro call vars q x ⟨-, ssize, endfunc, -, rfl⟩
    rfl
  obtain ⟨hd, he⟩ : s.Disciplined Request.guard ∧
      s.Exclusive .lastCmd (-sifRpceSendp) Initialised (Sent cfg) :=
    hr.exclusive (fun _ h => h) (fun s t call h => call.body_keeps cfg (hcall s t call h))
      (fun q o hq => q.callback_keeps hq) (fun s t call h => call.body_exclusive (hcall s t call h))
      (fun call vars q _ hq => q.callback_exclusive hq)
      (fun call vars q hq => hvars call vars q 0 hq) hvars
  refine ⟨(hd.locks.taken_iff _).trans ⟨?_, ExistsUnique.exists⟩,
    fun o o' => hd.locks.single o o' _, fun w e hw => ?_,
    fun t c ch s' hc hs => ⟨fun hm => he.outside hc hm hs, fun v k hp hm => ?_⟩,
    fun w e hw => ?_⟩
  · rintro ⟨o, ho⟩
    exact ⟨o, ho, fun o' ho' => hd.locks.single o' o _ ho' ho⟩
  · rw [Sys.owned_message hw]
    exact (he.code.waiting w e hw).1
  · exact he.rejected hc hp hm hs
  · obtain ⟨-, hargs, ssize, endfunc, -, hq⟩ := he.code.waiting w e hw
    exact ⟨hargs, _, ssize, endfunc, hq, e.call.usedColumn_right_iff he.inv.2⟩

/-- The variables of a library that is initialised. -/
def Vars.initialised (mcType : Int) : Vars where
  mcInitializeCounter := mcInitialized
  mcType := mcType
  server := 1
  mcCmd := ⟨0, 0, 0, 0, 0, fun _ => 0⟩
  mcFileCmd := ⟨0, 0, 0, 0, 0, 0, fun _ => 0⟩
  mcInfoCmd := fun _ => 0
  typeAddr := 0
  freeAddr := 0
  formatAddr := 0
  buffFileInfo := fun _ => 0

/-- A file is closed, and the request is on its way. -/
theorem mc_transactions_close :
    ∃ s : Sys Vars Lock Request Call, s.locks .lastCmd = mcFuncClose ∧ (s.wire 0).isSome ∧
      ∃! o, .lastCmd ∈ s.owned o := by
  let cfg : Config := ⟨0, 0⟩
  let run : List (Action Call) := .start 0 (.mcclose 3) :: List.replicate 4 (.run 0 ⟨0, some 0⟩)
  obtain ⟨s, hs, hlock, hwire⟩ : ∃ s,
      (driver cfg).run isTransaction (Sys.idle (.initialised mcTypeXmc)) run = some s ∧
      s.locks .lastCmd = mcFuncClose ∧ (s.wire 0).isSome := ⟨_, rfl, rfl, rfl⟩
  have hr : (driver cfg).Reaches Initialised isTransaction s :=
    Driver.reaches_run ⟨rfl, .inr rfl⟩ hs
  refine ⟨s, hlock, hwire, (mc_transactions cfg hr).1.mp ?_⟩
  rw [hlock]
  decide

/-- The free entries are asked for, and what is sent is the number of another operation, of the
other server. -/
theorem mcgetentspace_wrong_number :
    ∃ s : Sys Vars Lock Request Call,
      (driver ⟨0, 0⟩).Reaches Initialised isTransaction s ∧ s.vars.mcType = mcTypeMc ∧
      ∃ e packet ssize endfunc, s.wire 0 = some e ∧ e.call = .mcgetentspace 0 0 [] ∧
        e.request = .call (some 0x01) packet ssize 4 endfunc ∧
        mcRpcCmd mcTypeMc mcRpccmdGetEnt = some 0x7e ∧
        mcRpcCmd mcTypeXmc mcRpccmdGetInfo = some 0x01 := by
  let run : List (Action Call) :=
    .start 0 (.mcgetentspace 0 0 []) :: List.replicate 7 (.run 0 ⟨0, some 0⟩)
  obtain ⟨s, hs, hmc, e, he, hcall, packet, ssize, endfunc, hq⟩ : ∃ s,
      (driver ⟨0, 0⟩).run isTransaction (Sys.idle (.initialised mcTypeMc)) run = some s ∧
      s.vars.mcType = mcTypeMc ∧ ∃ e, s.wire 0 = some e ∧ e.call = .mcgetentspace 0 0 [] ∧
        ∃ packet ssize endfunc, e.request = .call (some 0x01) packet ssize 4 endfunc :=
    ⟨_, rfl, rfl, _, rfl, rfl, _, _, _, rfl⟩
  exact ⟨s, Driver.reaches_run ⟨rfl, .inl rfl⟩ hs, hmc, e, packet, ssize, endfunc, he, hcall, hq,
    by decide, by decide⟩

end KernelLoader.Tge.Mc
