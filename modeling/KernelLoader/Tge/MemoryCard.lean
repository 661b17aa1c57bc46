import KernelLoader.Tge.Commands
import KernelLoader.Lib.Exclusive
import KernelLoader.Lib.Word

namespace KernelLoader.Tge.Mc
open Lib Lib.Async
set_option autoImplicit true
set_option relaxedAutoImplicit false

def mcInitialized : Int := 2
def mcTypeMc : Int := 0
def mcTypeXmc : Int := 1

section Numbers

-- the columns of `mcRpcCmd`
def mcRpccmdInit : Nat := 0x00
def mcRpccmdGetInfo : Nat := 0x01
def mcRpccmdOpen : Nat := 0x02
def mcRpccmdClose : Nat := 0x03
def mcRpccmdSeek : Nat := 0x04
def mcRpccmdRead : Nat := 0x05
def mcRpccmdWrite : Nat := 0x06
def mcRpccmdFlush : Nat := 0x07
def mcRpccmdGetDir : Nat := 0x09
def mcRpccmdSetInfo : Nat := 0x0a
def mcRpccmdDelete : Nat := 0x0b
def mcRpccmdFormat : Nat := 0x0c
def mcRpccmdUnformat : Nat := 0x0d
def mcRpccmdGetEnt : Nat := 0x0e

-- the values of `lastCmd`
def mcFuncGetInfo : Nat := 0x01
def mcFuncOpen : Nat := 0x02
def mcFuncClose : Nat := 0x03
def mcFuncSeek : Nat := 0x04
def mcFuncRead : Nat := 0x05
def mcFuncWrite : Nat := 0x06
def mcFuncFlush : Nat := 0x0a
def mcFuncMkDir : Nat := 0x0b
def mcFuncGetDir : Nat := 0x0d
def mcFuncSetInfo : Nat := 0x0e
def mcFuncDelete : Nat := 0x0f
def mcFuncFormat : Nat := 0x10
def mcFuncUnformat : Nat := 0x11
def mcFuncGetEnt : Nat := 0x12
def mcFuncRename : Nat := 0x13

/-- The two rows of `mcRpcCmd` as they lie in memory. -/
def mcRpcCmdTable : List Int :=
  [0x70, 0x78, 0x71, 0x72, 0x75, 0x73, 0x74, 0x7a, 0x7b, 0x76, 0x7c, 0x79, 0x77, 0x80, 0x7e, 0x7d,
    0x7f,
    0xfe, 0x01, 0x02, 0x03, 0x04, 0x05, 0x06, 0x0a, 0x0c, 0x0d, 0x0e, 0x0f, 0x10, 0x11, 0x12, 0x14,
    0x33]

/-- `mcRpcCmd[mcType][column]`; nothing if that is outside of the table. -/
def mcRpcCmd (mcType : Int) (column : Nat) : Option Int :=
  if 0 ≤ 17 * mcType + column then mcRpcCmdTable[(17 * mcType + column).toNat]? else none

end Numbers

structure McCmd where
  port : Int
  slot : Int
  flags : Int
  maxent : Int
  table : Int
  name : Nat → UInt8

structure McFileCmd where
  fd : Int
  size : Int
  offset : Int
  origin : Int
  buffer : Int
  param : Int
  data : Nat → UInt8

/-- The variables of the library, without `lastCmd`. -/
structure Vars where
  mcInitializeCounter : Int
  mcType : Int
  server : Int
  mcCmd : McCmd
  mcFileCmd : McFileCmd
  mcInfoCmd : Nat → Int
  typeAddr : Int
  freeAddr : Int
  formatAddr : Int
  buffFileInfo : Nat → UInt8

/-- The addresses of static buffers. -/
structure Config where
  endParameter : Int
  buffFileInfo : Int

/-- `lastCmd` is checked and set with interrupts disabled, like a mutex. -/
inductive Lock
  | lastCmd
  deriving DecidableEq, Repr

inductive EndFunc
  | mcCallback | mcGetInfoApdx | mcReadFixAlign | mcInitCallback
  deriving DecidableEq, Repr

/-- The buffer that is sent. A command that uses `buffFileInfo` has its address in the table. -/
inductive Packet
  | info (words : Nat → Int)
  | cmd (c : McCmd) (buffFileInfo : Nat → UInt8)
  | file (c : McFileCmd)

inductive Request
  | bind (sid : Nat)
  | call (rpcNumber : Option Int) (packet : Packet) (ssize rsize : Nat) (endfunc : EndFunc)

def Vars.info (s : Vars) : Packet := .info s.mcInfoCmd
def Vars.cmd (s : Vars) : Packet := .cmd s.mcCmd s.buffFileInfo
def Vars.file (s : Vars) : Packet := .file s.mcFileCmd

abbrev Code := Prog Vars Lock Request

/-- The calls, with the arguments they read. A pointer to something that is read comes as what is
read there. -/
inductive Call
  | mcinit
  | mcgetinfo (port slot type free format : Int)
  | mcopen (port slot : Int) (name : List UInt8) (mode : Int)
  | mcclose (fd : Int)
  | mcseek (fd offset whence : Int)
  | mcread (fd : Int) (buf size : Nat)
  | mcwrite (fd : Int) (buf size : Nat) (data : Nat → UInt8)
  | mcflush (fd : Int)
  | mcmkdir (port slot : Int) (name : List UInt8)
  | mcgetdir (port slot : Int) (name : List UInt8) (mode maxEntries dirents : Int)
  | mcsetfileinfo (port slot : Int) (name : List UInt8) (dirent : Nat → UInt8) (modes : Int)
  | mcdelete (port slot : Int) (name : List UInt8)
  | mcformat (port slot : Int)
  | mcunformat (port slot : Int)
  | mcgetentspace (port slot : Int) (name : List UInt8)
  | mcrename (port slot : Int) (origname newname : List UInt8)

section Statements

/-- `strncpy`: the rest of the `n` bytes is filled with zeros. -/
def strncpy (dst : Nat → UInt8) (src : List UInt8) (n : Nat) : Nat → UInt8 := fun i =>
  if i < n then (src.takeWhile (· ≠ 0)).getD i 0 else dst i

def memcpy (dst src : Nat → UInt8) (n : Nat) : Nat → UInt8 := fun i =>
  if i < n then src i else dst i

def setPort (port : Int) (s : Vars) : Vars := { s with mcCmd.port := port }
def setSlot (slot : Int) (s : Vars) : Vars := { s with mcCmd.slot := slot }
def setFlags (flags : Int) (s : Vars) : Vars := { s with mcCmd.flags := flags }
def setMaxent (maxent : Int) (s : Vars) : Vars := { s with mcCmd.maxent := maxent }
def setTable (table : Int) (s : Vars) : Vars := { s with mcCmd.table := table }

def copyName (name : List UInt8) (s : Vars) : Vars :=
  { s with mcCmd.name := strncpy s.mcCmd.name name 1023 }

def endName (s : Vars) : Vars := { s with mcCmd.name := Function.update s.mcCmd.name 1023 0 }

/-- `strncpy(&buffFileInfo[0x20], newname, 31)`. -/
def copyNewName (newname : List UInt8) (s : Vars) : Vars :=
  { s with
    buffFileInfo := fun i =>
      if i < 0x20 then s.buffFileInfo i
      else strncpy (fun j => s.buffFileInfo (0x20 + j)) newname 31 (i - 0x20) }

def endNewName (s : Vars) : Vars :=
  { s with buffFileInfo := Function.update s.buffFileInfo 63 0 }

def setFd (fd : Int) (s : Vars) : Vars := { s with mcFileCmd.fd := fd }
def setSize (size : Int) (s : Vars) : Vars := { s with mcFileCmd.size := size }
def setOffset (offset : Int) (s : Vars) : Vars := { s with mcFileCmd.offset := offset }
def setOrigin (origin : Int) (s : Vars) : Vars := { s with mcFileCmd.origin := origin }
def setBuffer (buffer : Int) (s : Vars) : Vars := { s with mcFileCmd.buffer := buffer }
def setParam (param : Int) (s : Vars) : Vars := { s with mcFileCmd.param := param }

/-- The loop over `i < mcFileCmd.origin`. -/
def copyData (data : Nat → UInt8) (s : Vars) : Vars :=
  { s with mcFileCmd.data := memcpy s.mcFileCmd.data data s.mcFileCmd.origin.toNat }

def setInfo (i : Nat) (v : Int) (s : Vars) : Vars :=
  { s with mcInfoCmd := Function.update s.mcInfoCmd i v }

def flag (pointer : Int) : Int := if pointer ≠ 0 then 1 else 0

/-- `((int)(buf - 1) & 0xFFFFFFF0) - (int)(buf - 16)`. -/
def unaligned (buf : Nat) : Nat := sub32 (sub32 buf 1 / 16 * 16) (sub32 buf 16)

end Statements

section Calls

/-- What every command does after the check of the library: it claims `lastCmd`, fills its packet
and sends it. -/
def transaction (func : Nat) (fill : Code → Code) (column : Nat) (packet : Vars → Packet)
    (ssize : Nat) (endfunc : EndFunc) : Code :=
  .read (·.mcInitializeCounter) fun counter =>
    if counter ≠ mcInitialized then .ret (-1)
    else .lock .lastCmd func fun ok =>
      if ok then
        fill <|
          .request (fun s => .call (mcRpcCmd s.mcType column) (packet s) ssize 4 endfunc)
            fun sent => if sent then .ret 0 else .unlock .lastCmd (.ret (-sifRpceSendp))
      else .ret (-sifRpceSendp)

def sbcallMcgetinfo (cfg : Config) (port slot type free format : Int) : Code :=
  transaction mcFuncGetInfo
    (fun k => .read (·.mcType) fun mcType =>
      .acts (if mcType = mcTypeMc then
          [setInfo 0x01 port, setInfo 0x02 slot, setInfo 0x03 (flag type), setInfo 0x04 (flag free),
            setInfo 0x05 (flag format), setInfo 0x07 cfg.endParameter]
        else
          [setInfo 0x01 port, setInfo 0x02 slot, setInfo 0x03 (flag format),
            setInfo 0x04 (flag free), setInfo 0x05 (flag type), setInfo 0x07 cfg.endParameter]) <|
      .acts [fun s => { s with typeAddr := type }, fun s => { s with freeAddr := free },
        fun s => { s with formatAddr := format }] k)
    mcRpccmdGetInfo Vars.info 48 .mcGetInfoApdx

def sbcallMcopen (port slot : Int) (name : List UInt8) (mode : Int) : Code :=
  transaction mcFuncOpen
    (.acts [setPort port, setSlot slot, setFlags mode, copyName name, endName])
    mcRpccmdOpen Vars.cmd 0x414 .mcCallback

def sbcallMcclose (fd : Int) : Code :=
  transaction mcFuncClose (.acts [setFd fd]) mcRpccmdClose Vars.file 48 .mcCallback

def sbcallMcseek (fd offset whence : Int) : Code :=
  transaction mcFuncSeek (.acts [setFd fd, setOffset offset, setOrigin whence])
    mcRpccmdSeek Vars.file 48 .mcCallback

def sbcallMcread (cfg : Config) (fd : Int) (buf size : Nat) : Code :=
  transaction mcFuncRead
    (.acts [setFd fd, setSize (s32 size), setBuffer (s32 buf), setParam cfg.endParameter])
    mcRpccmdRead Vars.file 48 .mcReadFixAlign

/-- The statements of a write that fill the packet. -/
def writeStores (fd : Int) (buf size : Nat) (data : Nat → UInt8) : List (Vars → Vars) :=
  [setFd fd] ++
    (if size < 17 then [setSize 0, setOrigin (s32 size), setBuffer 0]
    else [setSize (s32 (sub32 size (unaligned buf))), setOrigin (s32 (unaligned buf)),
      setBuffer (s32 (u32 (buf + unaligned buf)))]) ++
    [copyData data]

def sbcallMcwrite (fd : Int) (buf size : Nat) (data : Nat → UInt8) : Code :=
  transaction mcFuncWrite (.acts (writeStores fd buf size data)) mcRpccmdWrite Vars.file 48
    .mcCallback

def sbcallMcflush (fd : Int) : Code :=
  transaction mcFuncFlush (.acts [setFd fd]) mcRpccmdFlush Vars.file 48 .mcCallback

def sbcallMcmkdir (port slot : Int) (name : List UInt8) : Code :=
  transaction mcFuncMkDir
    (.acts [setPort port, setSlot slot, setFlags 0x40, copyName name, endName])
    mcRpccmdOpen Vars.cmd 0x414 .mcCallback

def sbcallMcgetdir (port slot : Int) (name : List UInt8) (mode maxEntries dirents : Int) : Code :=
  transaction mcFuncGetDir
    (.acts [setPort port, setSlot slot, setFlags mode, setMaxent maxEntries, setTable dirents,
      copyName name, endName])
    mcRpccmdGetDir Vars.cmd 0x414 .mcCallback

def sbcallMcsetfileinfo (cfg : Config) (port slot : Int) (name : List UInt8)
    (dirent : Nat → UInt8) (modes : Int) : Code :=
  transaction mcFuncSetInfo
    (.acts [setPort port, setSlot slot, setFlags modes, setTable cfg.buffFileInfo,
      fun s => { s with buffFileInfo := memcpy s.buffFileInfo dirent 64 }, copyName name, endName])
    mcRpccmdSetInfo Vars.cmd 0x414 .mcCallback

def sbcallMcdelete (port slot : Int) (name : List UInt8) : Code :=
  transaction mcFuncDelete
    (.acts [setPort port, setSlot slot, setFlags 0, copyName name, endName])
    mcRpccmdDelete Vars.cmd 0x414 .mcCallback

def sbcallMcformat (port slot : Int) : Code :=
  transaction mcFuncFormat (.acts [setPort port, setSlot slot])
    mcRpccmdFormat Vars.cmd 48 .mcCallback

def sbcallMcunformat (port slot : Int) : Code :=
  transaction mcFuncUnformat (.acts [setPort port, setSlot slot])
    mcRpccmdUnformat Vars.cmd 48 .mcCallback

/-- The column is `MC_FUNC_GET_ENT`, not `MC_RPCCMD_GET_ENT`. -/
def sbcallMcgetentspace (port slot : Int) (name : List UInt8) : Code :=
  transaction mcFuncGetEnt (.acts [setPort port, setSlot slot, copyName name, endName])
    mcFuncGetEnt Vars.cmd 0x414 .mcCallback

/-- The column is `MC_FUNC_SET_INFO`, not `MC_RPCCMD_SET_INFO`. -/
def sbcallMcrename (cfg : Config) (port slot : Int) (origname newname : List UInt8) : Code :=
  transaction mcFuncRename
    (.acts [setPort port, setSlot slot, setFlags 0x10, setTable cfg.buffFileInfo, copyName origname,
      endName, copyNewName newname, endNewName])
    mcFuncSetInfo Vars.cmd 0x414 .mcCallback

/-- The initialisation by the value of `mcInitializeCounter`. -/
def mcInitStage (counter : Int) : Code :=
  if counter = 0 then
    .request (fun _ => .bind 0x80000400) fun ok => if ok then .ret 0 else .ret (-sifRpceSendp)
  else if counter = 1 then
    .read (·.mcType) fun mcType =>
      if mcType = mcTypeXmc then
        .request (fun s => .call (mcRpcCmd s.mcType mcRpccmdInit) s.cmd 48 12 .mcInitCallback)
          fun ok => if ok then .ret 0 else .ret (-sifRpceSendp)
      else .ret 0
  else .notify 1 (.ret 0)

def mcInit : Code := .read (·.mcInitializeCounter) mcInitStage

/-- The inputs are whether the module is found and its version. -/
def sbcallMcinit : Code :=
  .read (·.mcType) fun mcType =>
    if mcType < 0 then
      .input fun found =>
        if found > 0 then
          .input fun version =>
            .act (fun s => { s with mcType := if version / 256 > 1 then mcTypeXmc else mcTypeMc })
              mcInit
        else .ret (-1)
    else mcInit

end Calls

section Callbacks

/-- The input is the first word of `rdata`. -/
def mcCallback : Code := .unlock .lastCmd <| .input fun result => .notify result (.ret 0)

/-- Before the end of the transaction the results go to the callers' addresses. -/
def mcGetInfoApdx : Code := .unlock .lastCmd <| .input fun result => .notify result (.ret 0)

/-- The parts of the buffer that are not aligned are copied first. -/
def mcReadFixAlign : Code := mcCallback

/-- The library is initialised. -/
def mcInitDone (result : Int) : Code :=
  .unlock .lastCmd <|
    .act (fun s => { s with mcInitializeCounter := s.mcInitializeCounter + 1 }) <|
      .notify result (.ret 0)

/-- The second stage. The inputs are the words of `rdata` at 4, 8 and 0. -/
def mcInitFinish : Code :=
  .read (·.mcType) fun mcType =>
    if mcType = mcTypeXmc then
      .input fun mcserv =>
        if mcserv < 0x200 then .notify (-120) (.ret 0)
        else .input fun mcman =>
          if mcman < 0x200 then .notify (-121) (.ret 0)
          else .input mcInitDone
    else mcInitDone 1

/-- The last input is the result that stands in the argument block. -/
def mcInitCase (counter : Int) : Code :=
  if counter = 0 then
    .read (·.server) fun server =>
      if server = 0 then .notify (-1) (.ret 0)
      else .act (fun s => { s with mcInitializeCounter := s.mcInitializeCounter + 1 }) <|
        .read (·.mcType) fun mcType =>
          if mcType = mcTypeMc then mcInitFinish else .notify 0 (.ret 0)
  else if counter = 1 then mcInitFinish
  else .input fun result => .notify result (.ret 0)

def mcInitCallback : Code := .read (·.mcInitializeCounter) mcInitCase

end Callbacks

def Call.body (cfg : Config) : Call → Code
  | .mcinit => sbcallMcinit
  | .mcgetinfo port slot type free format => sbcallMcgetinfo cfg port slot type free format
  | .mcopen port slot name mode => sbcallMcopen port slot name mode
  | .mcclose fd => sbcallMcclose fd
  | .mcseek fd offset whence => sbcallMcseek fd offset whence
  | .mcread fd buf size => sbcallMcread cfg fd buf size
  | .mcwrite fd buf size data => sbcallMcwrite fd buf size data
  | .mcflush fd => sbcallMcflush fd
  | .mcmkdir port slot name => sbcallMcmkdir port slot name
  | .mcgetdir port slot name mode maxEntries dirents =>
    sbcallMcgetdir port slot name mode maxEntries dirents
  | .mcsetfileinfo port slot name dirent modes =>
    sbcallMcsetfileinfo cfg port slot name dirent modes
  | .mcdelete port slot name => sbcallMcdelete port slot name
  | .mcformat port slot => sbcallMcformat port slot
  | .mcunformat port slot => sbcallMcunformat port slot
  | .mcgetentspace port slot name => sbcallMcgetentspace port slot name
  | .mcrename port slot origname newname => sbcallMcrename cfg port slot origname newname

def Request.callback : Request → Code
  | .bind _ => mcInitCallback
  | .call _ _ _ _ .mcCallback => mcCallback
  | .call _ _ _ _ .mcGetInfoApdx => mcGetInfoApdx
  | .call _ _ _ _ .mcReadFixAlign => mcReadFixAlign
  | .call _ _ _ _ .mcInitCallback => mcInitCallback

/-- A bind resets the server; the answer sets it. -/
def Request.setServer (q : Request) (server : Int) (s : Vars) : Vars :=
  match q with
  | .bind _ => { s with server := server }
  | .call .. => s

def driver (cfg : Config) : Driver Vars Lock Request Call where
  body := Call.body cfg
  callback := Request.callback
  accepted := fun q => q.setServer 0
  answered := Request.setServer

end KernelLoader.Tge.Mc
