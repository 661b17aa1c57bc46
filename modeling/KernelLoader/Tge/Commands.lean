import KernelLoader.Lib.Async
import Mathlib.Algebra.Group.Nat.Defs

namespace KernelLoader.Tge
open Lib.Async
set_option autoImplicit true
set_option relaxedAutoImplicit false

/-- Fail to get packet data: abort. -/
def sifRpceGetp : Int := 1

/-- Fail to send the packet: retry later. -/
def sifRpceSendp : Int := 2

inductive Mutex
  | cdvdMutexN | cdvdMutexS | iopHeapMutex
  deriving DecidableEq, Repr

/-- The RPC clients of the drivers. -/
inductive Client
  | clientInit | clientSearchFile | clientDiskReady | clientNCmd | clientSCmd | ihCd
  deriving DecidableEq, Repr

/-- The functions that handle completions. -/
inductive EndFunc
  | cdvdInitCallback | cdResetCallback | cdDiskReadyCallback
  | cdAlignReadBuffer | cdCallback | cdGetTocStage2 | nCmdCallback
  | cdvdreadrtcStage2 | sCmdStage2 | cdvdtrayrequestStage2 | mmodeStage2
  | iopHeapInitCallback | iopHeapCallback
  deriving DecidableEq, Repr

inductive RpcKind
  | bind (sid : Nat)
  | call (rpcNumber ssize rsize : Nat)
  deriving DecidableEq, Repr

/-- What `SifBindRpc` or `SifCallRpc` was asked for. -/
structure Request where
  client : Client
  kind : RpcKind
  endfunc : EndFunc
  deriving DecidableEq, Repr

/-- The addresses of static buffers, and the variant that is built. -/
structure Config where
  newRomModuleVersion : Bool
  rdIntrData : Nat
  curReadPos : Nat
  tocBuff : Nat

/-- The variables of the CD/DVD driver and of the IOP heap. The last two are not in the source: they
collect, for the callbacks of the initialisation, the stage of the request with the counter found,
and the stages that made the counter advance. -/
structure Vars where
  cdvdInitCounter : Int
  bindInit : Int
  bindDiskReady : Int
  bindSearchFile : Int
  bindNCmd : Int
  bindSCmd : Int
  server : Client → Int
  nCmdNum : Nat
  sCmdNum : Nat
  readData : Nat → Nat
  curReadPos : Nat
  getTocSendBuff : Nat → Nat
  sCmdSendBuff : Nat → UInt8
  initMode : Nat
  diskReadyMode : Nat
  ihCaps : Nat
  iopheapPkt : Option Nat
  handled : List (Nat × Int)
  advanced : List Nat

def Vars.init : Vars where
  cdvdInitCounter := 0
  bindInit := -1
  bindDiskReady := -1
  bindSearchFile := -1
  bindNCmd := -1
  bindSCmd := -1
  server := fun _ => 0
  nCmdNum := 0
  sCmdNum := 0
  readData := fun _ => 0
  curReadPos := 0
  getTocSendBuff := fun _ => 0
  sCmdSendBuff := fun _ => 0
  initMode := 0
  diskReadyMode := 0
  ihCaps := 0
  iopheapPkt := none
  handled := []
  advanced := []

abbrev Code := Prog Vars Mutex Request

def sbiosTryLock (mutex : Mutex) (k : Int → Code) : Code :=
  .lock mutex (-1) fun ok => k (if ok then 0 else -2)

/-- A free mutex stays free; then a message is printed. -/
def sbiosUnlock (mutex : Mutex) (k : Code) : Code := .unlock mutex k

/-- The continuation gets whether the request is accepted. -/
def sifBindRpc (cd : Client) (sid : Nat) (endfunc : EndFunc) (k : Bool → Code) : Code :=
  .request (fun _ => ⟨cd, .bind sid, endfunc⟩) k

def sifCallRpc (cd : Client) (rpcNumber ssize rsize : Nat) (endfunc : EndFunc) (k : Bool → Code) :
    Code :=
  .request (fun _ => ⟨cd, .call rpcNumber ssize rsize, endfunc⟩) k

/-- Is a request of the client on its way? -/
def sifCheckStatRpc (k : Int → Code) : Code := .input k

/-- Are interrupts disabled? -/
def coreInInterrupt (k : Int → Code) : Code := .input k

/-- Lock the mutex of a client, unless a request of that client is on its way. -/
def cdvdLock (mutex : Mutex) (k : Int → Code) : Code :=
  sbiosTryLock mutex fun r =>
    if r ≠ 0 then k 1
    else sifCheckStatRpc fun busy => if busy ≠ 0 then sbiosUnlock mutex (k 1) else k 0

/-- Store the result and call `endfunc` of the argument block. -/
def endCall (result : Int) : Code := .notify result (.ret 0)

section NCmd

def cdServerNcmd : Nat := 0x80000595
def cdNcmdRead : Nat := 0x01
def cdNcmdDvdread : Nat := 0x03
def cdNcmdGettoc : Nat := 0x04
def cdNcmdStop : Nat := 0x07

def ncmdEagain : Code :=
  coreInInterrupt fun b => .ret (if b ≠ 0 then -sifRpceGetp else -sifRpceSendp)

def cdvdLockN (k : Int → Code) : Code := cdvdLock .cdvdMutexN k

def cdvdUnlockN (k : Code) : Code := sbiosUnlock .cdvdMutexN k

def cdCheckNCmd (cmd : Nat) (k : Int → Code) : Code :=
  cdvdLockN fun r =>
    if r ≠ 0 then k 0
    else .act (fun s => { s with nCmdNum := cmd }) <|
      .read (·.bindNCmd) fun b => if 0 ≤ b then k 1 else cdvdUnlockN (k 0)

/-- The N-commands: check and lock, fill the send buffer, call. -/
def callNCmd (cmd : Nat) (fill : List (Vars → Vars)) (ssize rsize : Nat) (endfunc : EndFunc) :
    Code :=
  cdCheckNCmd cmd fun r =>
    if r = 0 then ncmdEagain
    else .acts fill <|
      sifCallRpc .clientNCmd cmd ssize rsize endfunc fun ok =>
        if ok then .ret 0 else cdvdUnlockN (.ret (-sifRpceSendp))

structure ReadArg where
  lbn : Nat
  sectors : Nat
  buf : Nat
  retries : Nat
  readSpeed : Nat
  sectorType : Nat

def setReadData (i v : Nat) (s : Vars) : Vars :=
  { s with readData := Function.update s.readData i v }

def ReadArg.mode (a : ReadArg) : Nat := a.retries ||| a.readSpeed <<< 8 ||| a.sectorType <<< 16

def sbcallCdvdread (cfg : Config) (a : ReadArg) : Code :=
  callNCmd cdNcmdRead
    [setReadData 0 a.lbn, setReadData 1 a.sectors, setReadData 2 a.buf, setReadData 3 a.mode,
      setReadData 4 cfg.rdIntrData, setReadData 5 cfg.curReadPos,
      fun s => { s with curReadPos := 0 }] 24 0 .cdAlignReadBuffer

def sbcallCdvdreadVideo (cfg : Config) (a : ReadArg) : Code :=
  callNCmd cdNcmdDvdread
    [setReadData 0 a.lbn, setReadData 1 a.sectors, setReadData 2 a.buf, setReadData 3 a.mode,
      setReadData 4 cfg.rdIntrData] 24 0 .cdCallback

def sbcallCdvdgettoc (cfg : Config) : Code :=
  callNCmd cdNcmdGettoc
    [fun s => { s with getTocSendBuff := Function.update s.getTocSendBuff 0 cfg.tocBuff }] 12 8
    .cdGetTocStage2

def sbcallCdvdstop : Code := callNCmd cdNcmdStop [] 0 0 .nCmdCallback

/-- The end of an N-command without result. What the IOP left is copied to the caller before. -/
def endNCmd : Code := cdvdUnlockN (endCall 0)

def cdAlignReadBuffer : Code := endNCmd
def cdCallback : Code := endNCmd
def nCmdCallback : Code := endNCmd

def cdGetTocStage2 : Code :=
  .input fun received => cdvdUnlockN (endCall (if received = 0 then 1 else 0))

end NCmd

section SCmd

def cdServerScmd : Nat := 0x80000593
def cdScmdReadclock : Nat := 0x01
def cdScmdWriteclock : Nat := 0x02
def cdScmdGetdisctype : Nat := 0x03
def cdScmdGeterror : Nat := 0x04
def cdScmdTrayreq : Nat := 0x05
def cdScmdMmode : Nat := 0x22

def scmdEagain : Code :=
  coreInInterrupt fun b => .ret (if b ≠ 0 then -sifRpceGetp else -sifRpceSendp)

def cdvdLockS (k : Int → Code) : Code := cdvdLock .cdvdMutexS k

def cdvdUnlockS (k : Code) : Code := sbiosUnlock .cdvdMutexS k

def cdCheckSCmd (cmd : Nat) (k : Int → Code) : Code :=
  cdvdLockS fun r =>
    if r ≠ 0 then k 0
    else .act (fun s => { s with sCmdNum := cmd }) <|
      .read (·.bindSCmd) fun b => if 0 ≤ b then k 1 else cdvdUnlockS (k 0)

/-- The S-commands: check and lock, fill the send buffer, call. -/
def callSCmd (cmd : Nat) (fill : List (Vars → Vars)) (ssize rsize : Nat) (endfunc : EndFunc) :
    Code :=
  cdCheckSCmd cmd fun r =>
    if r = 0 then scmdEagain
    else .acts fill <|
      sifCallRpc .clientSCmd cmd ssize rsize endfunc fun ok =>
        if ok then .ret 0 else cdvdUnlockS (.ret (-sifRpceSendp))

/-- Copy bytes to the send buffer. -/
def copyToSendBuff (data : List UInt8) (s : Vars) : Vars :=
  { s with sCmdSendBuff := fun i => data.getD i (s.sCmdSendBuff i) }

/-- The bytes of a word. -/
def wordBytes (v : Nat) : List UInt8 := (List.range 4).map fun i => .ofNat (v / 256 ^ i)

def sbcallCdvdreadrtc : Code := callSCmd cdScmdReadclock [] 0 16 .cdvdreadrtcStage2

def sbcallCdvdwritertc (rtc : List UInt8) : Code :=
  callSCmd cdScmdWriteclock [copyToSendBuff (rtc.take 8)] 8 16 .cdvdreadrtcStage2

def sbcallCdvdgettype : Code := callSCmd cdScmdGetdisctype [] 0 4 .sCmdStage2

def sbcallCdvdgeterror : Code := callSCmd cdScmdGeterror [] 0 4 .sCmdStage2

def sbcallCdvdtrayrequest (request : Nat) : Code :=
  callSCmd cdScmdTrayreq [copyToSendBuff (wordBytes request)] 4 8 .cdvdtrayrequestStage2

/-- Without the new modules the call only ends, through another command if interrupts are
disabled. -/
def sbcallCdvdmmode (cfg : Config) (media : Nat) : Code :=
  if cfg.newRomModuleVersion then
    callSCmd cdScmdMmode [copyToSendBuff (wordBytes media)] 4 4 .mmodeStage2
  else
    coreInInterrupt fun b =>
      if b ≠ 0 then callSCmd cdScmdGeterror [] 0 4 .mmodeStage2
      else .notify 1 (.ret 0)

/-- The end of an S-command whose result is the first word received. -/
def endSCmd (result : Int → Int) : Code :=
  .input fun received => cdvdUnlockS (endCall (result received))

def cdvdreadrtcStage2 : Code := endSCmd id
def sCmdStage2 : Code := endSCmd id
def cdvdtrayrequestStage2 : Code := endSCmd fun received => if received = 0 then 1 else 0

def mmodeStage2 : Code := cdvdUnlockS (endCall 1)

end SCmd

section Cdvd

def cdServerInit : Nat := 0x80000592
def cdServerSearchfile : Nat := 0x80000597
def cdServerDiskready : Nat := 0x8000059a
def cdvdInitNocheck : Nat := 0x01
def cdvdReadyNotready : Int := 0x06

/-- A stage of the initialisation: lock, prepare, send the request. -/
def initStage (mutex : Mutex) (prepare : List (Vars → Vars)) (send : (Bool → Code) → Code) : Code :=
  cdvdLock mutex fun r =>
    if r ≠ 0 then .ret (-sifRpceSendp)
    else .acts prepare <|
      send fun ok => if ok then .ret 0 else sbiosUnlock mutex (.ret (-sifRpceSendp))

def cdNCmdInit (k : Bool → Code) : Code :=
  sifBindRpc .clientNCmd cdServerNcmd .cdvdInitCallback k

def cdSCmdInit (k : Bool → Code) : Code :=
  sifBindRpc .clientSCmd cdServerScmd .cdvdInitCallback k

def setInitMode (s : Vars) : Vars := { s with initMode := cdvdInitNocheck }

/-- The stages by the value of `cdvdInitCounter`. -/
def cdvdinitStage (counter : Int) : Code :=
  if counter = 0 then
    initStage .cdvdMutexS
      [fun s => { s with bindSearchFile := -1 }, fun s => { s with bindNCmd := -1 },
        fun s => { s with bindSCmd := -1 }, fun s => { s with bindDiskReady := -1 },
        fun s => { s with bindInit := -1 }]
      (sifBindRpc .clientInit cdServerInit .cdvdInitCallback)
  else if counter = 1 then
    initStage .cdvdMutexS []
      (sifBindRpc .clientSearchFile cdServerSearchfile .cdvdInitCallback)
  else if counter = 2 then
    initStage .cdvdMutexS []
      (sifBindRpc .clientDiskReady cdServerDiskready .cdvdInitCallback)
  else if counter = 3 then
    initStage .cdvdMutexS [setInitMode] (sifCallRpc .clientInit 0 4 0 .cdvdInitCallback)
  else if counter = 4 then initStage .cdvdMutexN [] cdNCmdInit
  else if counter = 5 then initStage .cdvdMutexS [] cdSCmdInit
  else .notify 0 (.ret 0)

def sbcallCdvdinit : Code := .read (·.cdvdInitCounter) cdvdinitStage

/-- `cdvdInitCounter++` in the callback of the request of a stage. -/
def advance (stage : Nat) (s : Vars) : Vars :=
  { s with
    cdvdInitCounter := s.cdvdInitCounter + 1
    advanced := s.advanced ++ [stage] }

def handle (stage : Nat) (counter : Int) (s : Vars) : Vars :=
  { s with handled := s.handled ++ [(stage, counter)] }

/-- If the client is bound now, note that and go on with the next stage. -/
def whenBound (cd : Client) (note : Vars → Vars) (stage : Nat) (ok failed : Code) : Code :=
  .read (·.server cd) fun server =>
    if server ≠ 0 then .acts [note, advance stage] ok else failed

/-- The callback by the value of `cdvdInitCounter`. `stage` is the stage of its own request, which
the code does not know: it is only noted. -/
def cdvdInitCase (stage : Nat) (counter : Int) : Code :=
  if counter = 0 then
    whenBound .clientInit (fun s => { s with bindInit := 0 }) stage
      (cdvdUnlockS (endCall (-1))) (cdvdUnlockS (endCall (-1)))
  else if counter = 1 then
    whenBound .clientSearchFile (fun s => { s with bindSearchFile := 0 }) stage
      (cdvdUnlockS (endCall (-1))) (cdvdUnlockS (endCall (-1)))
  else if counter = 2 then
    whenBound .clientDiskReady (fun s => { s with bindDiskReady := 0 }) stage
      (cdvdUnlockS (endCall (-1))) (cdvdUnlockS (endCall (-1)))
  else if counter = 3 then .act (advance stage) (cdvdUnlockS (endCall (-1)))
  else if counter = 4 then
    whenBound .clientNCmd (fun s => { s with bindNCmd := 0 }) stage
      (cdvdUnlockN (endCall (-1))) (cdvdUnlockN (endCall (-1)))
  else if counter = 5 then
    whenBound .clientSCmd (fun s => { s with bindSCmd := 0 }) stage
      (cdvdUnlockS (endCall 0)) (cdvdUnlockS (endCall (-1)))
  else .input fun result => endCall result

def cdvdInitCallback (stage : Nat) : Code :=
  .read (·.cdvdInitCounter) fun counter =>
    .act (handle stage counter) (cdvdInitCase stage counter)

def sbcallCdvdreset : Code :=
  .acts [setInitMode] <|
    sifCallRpc .clientInit 0 4 0 .cdResetCallback fun ok =>
      if ok then .ret 0 else .ret (-sifRpceSendp)

def cdResetCallback : Code := endCall 0

def sbcallCdvdready (mode : Nat) : Code :=
  cdvdLockS fun r =>
    if r ≠ 0 then .ret cdvdReadyNotready
    else .act (fun s => { s with diskReadyMode := mode }) <|
      .read (·.bindDiskReady) fun b =>
        if b < 0 then cdvdUnlockS (.ret (-1))
        else
          sifCallRpc .clientDiskReady 0 4 4 .cdDiskReadyCallback fun ok =>
            if ok then .ret 0 else cdvdUnlockS (.ret (-sifRpceSendp))

def cdDiskReadyCallback : Code := endSCmd id

end Cdvd

section IopHeap

def ihCBound : Nat := 0x0001

def sbcallIopheapinit : Code :=
  .read (fun s => s.ihCaps) fun caps =>
    if caps ≠ 0 then .notify 0 (.ret 0)
    else sbiosTryLock .iopHeapMutex fun r =>
      if r ≠ 0 then .ret (-2)
      else sifBindRpc .ihCd 0x80000003 .iopHeapInitCallback fun ok =>
        if ok then .ret 0 else sbiosUnlock .iopHeapMutex (.ret (-sifRpceSendp))

def iopHeapInitCallback : Code :=
  .read (·.server .ihCd) fun server =>
    if server ≠ 0 then
      .acts [fun s => { s with iopheapPkt := some 0 },
        fun s => { s with ihCaps := s.ihCaps ||| ihCBound }] <|
        sbiosUnlock .iopHeapMutex (endCall 0)
    else sbiosUnlock .iopHeapMutex (endCall (-1))

/-- Allocating and freeing differ in the number of the function and the argument. -/
def callIopHeap (rpcNumber arg : Nat) : Code :=
  .read (fun s => (s.ihCaps &&& ihCBound : Nat)) fun bound =>
    if bound = 0 then .ret (-1)
    else sbiosTryLock .iopHeapMutex fun r =>
      if r ≠ 0 then .ret (-2)
      else .act (fun s => { s with iopheapPkt := some arg }) <|
        sifCallRpc .ihCd rpcNumber 4 4 .iopHeapCallback fun ok =>
          if ok then .ret 0 else sbiosUnlock .iopHeapMutex (.ret (-sifRpceSendp))

def sbcallIopaheapalloc (size : Nat) : Code := callIopHeap 1 size

def sbcallIopheapfree (iopaddr : Nat) : Code := callIopHeap 2 iopaddr

def iopHeapCallback : Code :=
  .input fun iopaddr => sbiosUnlock .iopHeapMutex (endCall iopaddr)

end IopHeap

/-- The calls of the drivers, with the arguments they read. -/
inductive Call
  | iopheapinit
  | iopaheapalloc (size : Nat)
  | iopheapfree (iopaddr : Nat)
  | cdvdinit
  | cdvdreset
  | cdvdready (mode : Nat)
  | cdvdread (arg : ReadArg)
  | cdvdreadVideo (arg : ReadArg)
  | cdvdgettoc
  | cdvdstop
  | cdvdreadrtc
  | cdvdwritertc (rtc : List UInt8)
  | cdvdgettype
  | cdvdgeterror
  | cdvdtrayrequest (request : Nat)
  | cdvdmmode (media : Nat)

def Call.body (cfg : Config) : Call → Code
  | .iopheapinit => sbcallIopheapinit
  | .iopaheapalloc size => sbcallIopaheapalloc size
  | .iopheapfree iopaddr => sbcallIopheapfree iopaddr
  | .cdvdinit => sbcallCdvdinit
  | .cdvdreset => sbcallCdvdreset
  | .cdvdready mode => sbcallCdvdready mode
  | .cdvdread arg => sbcallCdvdread cfg arg
  | .cdvdreadVideo arg => sbcallCdvdreadVideo cfg arg
  | .cdvdgettoc => sbcallCdvdgettoc cfg
  | .cdvdstop => sbcallCdvdstop
  | .cdvdreadrtc => sbcallCdvdreadrtc
  | .cdvdwritertc rtc => sbcallCdvdwritertc rtc
  | .cdvdgettype => sbcallCdvdgettype
  | .cdvdgeterror => sbcallCdvdgeterror
  | .cdvdtrayrequest request => sbcallCdvdtrayrequest request
  | .cdvdmmode media => sbcallCdvdmmode cfg media

/-- The stage of the initialisation a request belongs to. -/
def Request.stage (q : Request) : Nat :=
  match q.client, q.kind with
  | .clientInit, .bind _ => 0
  | .clientSearchFile, _ => 1
  | .clientDiskReady, _ => 2
  | .clientInit, .call .. => 3
  | .clientNCmd, _ => 4
  | .clientSCmd, _ => 5
  | .ihCd, _ => 6

def Request.callback (q : Request) : Code :=
  match q.endfunc with
  | .cdvdInitCallback => cdvdInitCallback q.stage
  | .cdResetCallback => cdResetCallback
  | .cdDiskReadyCallback => cdDiskReadyCallback
  | .cdAlignReadBuffer => cdAlignReadBuffer
  | .cdCallback => cdCallback
  | .cdGetTocStage2 => cdGetTocStage2
  | .nCmdCallback => nCmdCallback
  | .cdvdreadrtcStage2 => cdvdreadrtcStage2
  | .sCmdStage2 => sCmdStage2
  | .cdvdtrayrequestStage2 => cdvdtrayrequestStage2
  | .mmodeStage2 => mmodeStage2
  | .iopHeapInitCallback => iopHeapInitCallback
  | .iopHeapCallback => iopHeapCallback

def setServer (cd : Client) (server : Int) (s : Vars) : Vars :=
  { s with server := Function.update s.server cd server }

/-- A bind resets the server of the client; the answer sets it. -/
def Request.setServer (q : Request) (server : Int) (s : Vars) : Vars :=
  match q.kind with
  | .bind _ => Tge.setServer q.client server s
  | .call .. => s

def driver (cfg : Config) : Driver Vars Mutex Request Call where
  body := Call.body cfg
  callback := Request.callback
  accepted := fun q => q.setServer 0
  answered := Request.setServer

end KernelLoader.Tge
