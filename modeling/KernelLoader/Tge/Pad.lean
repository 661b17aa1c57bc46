import KernelLoader.Tge.Commands
import KernelLoader.Lib.Memory
import KernelLoader.Lib.Word

namespace KernelLoader.Tge.Pad
open Lib Lib.Async
set_option autoImplicit true
set_option relaxedAutoImplicit false

/-- The variant that is built, and the address of `openSlot`. -/
structure Config where
  romPadman : Bool
  openSlot : Nat

section Numbers
variable (cfg : Config)

def padBindRpcId1 : Nat := if cfg.romPadman then 0x8000010f else 0x80000100
def padBindRpcId2 : Nat := if cfg.romPadman then 0x8000011f else 0x80000101
def padRpccmdOpen : Nat := if cfg.romPadman then 0x80000100 else 0x01
def padRpccmdSetMmode : Nat := if cfg.romPadman then 0x80000105 else 0x06
def padRpccmdSetActdir : Nat := if cfg.romPadman then 0x80000106 else 0x07
def padRpccmdSetActalign : Nat := if cfg.romPadman then 0x80000107 else 0x08
def padRpccmdGetBtnmask : Nat := if cfg.romPadman then 0x80000108 else 0x09
def padRpccmdSetBtninfo : Nat := if cfg.romPadman then 0x80000109 else 0x0a
def padRpccmdClose : Nat := if cfg.romPadman then 0x8000010d else 0x0e
def padRpccmdEnd : Nat := if cfg.romPadman then 0x8000010e else 0x0f

-- only in the variant with the module of the ROM
def padRpccmdInfoAct : Nat := 0x80000102
def padRpccmdInfoMode : Nat := 0x80000104

-- only in the other one
def padRpccmdInit : Nat := 0x10
def padRpccmdGetModver : Nat := 0x12

end Numbers

structure PadState where
  opened : Int
  port : Nat
  slot : Nat
  padData : Nat
  padBuf : Nat

/-- The variables of the library; `padState port slot` is `PadState[port][slot]`. -/
structure Vars where
  padInitialiseCounter : Int
  server : Nat → Int
  buffer : Mem
  padState : Nat → Nat → PadState

inductive EndFunc
  | padInitCallback | padEndCallback | padCallback
  | padPortOpenCallback (port slot : Nat)
  | padSetMainModeCallback | padInfoPressModeCallback | padSetButtonInfoCallback
  | padSetActAlignCallback | padSetActDirectCallback
  /-- the caller waits -/
  | none
  deriving DecidableEq, Repr

/-- A bind of `padsif[client]`, or a call of function 1 on `padsif[0]`, with `buffer` for what is
sent and for what is received. -/
inductive Request
  | bind (client sid : Nat)
  | call (packet : Mem) (endfunc : EndFunc)

/-- There is no lock. -/
abbrev Code := Prog Vars Empty Request

/-- Store the result and call `endfunc` of the argument block. -/
def endCall (result : Int) : Code := .notify result (.ret 0)

/-- The calls, with the arguments they read. -/
inductive Call
  | padinit
  | padend
  | padportopen (port slot addr : Nat)
  | padportclose (port slot : Nat)
  | padsetmainmode (port slot offset lock : Nat)
  | padinfopressmode (port slot : Nat)
  | padenterpressmode (port slot : Nat)
  | padexitpressmode (port slot : Nat)
  | padsetactalign (port slot : Nat) (data : Nat → UInt8)
  | padsetactdirect (port slot : Nat) (data : Nat → UInt8)
  | padinfomode (port slot term offset : Nat)
  | padinfoact (port slot actno term : Nat)

section Buffer

/-- The places and values of the bytes of a word in the buffer. -/
def word (off v : Nat) : List (Nat × UInt8) :=
  (List.range 4).map fun j => (off + j, .ofNat (v / 256 ^ j))

/-- The six bytes of the actuators, stored one after the other. -/
def actBytes (data : Nat → UInt8) : List (List (Nat × UInt8)) :=
  (List.range 6).map fun i => [(12 + i, data i)]

def store (bytes : List (Nat × UInt8)) (s : Vars) : Vars :=
  { s with buffer := storeAll s.buffer bytes }

/-- The signed word at a place of the buffer. -/
def Vars.word (s : Vars) (off : Nat) : Int := s32 (le s.buffer off 4)

def setServer (client : Nat) (server : Int) (s : Vars) : Vars :=
  { s with server := Function.update s.server client server }

def setCounter (counter : Int) (s : Vars) : Vars := { s with padInitialiseCounter := counter }

def nextStage (s : Vars) : Vars := { s with padInitialiseCounter := s.padInitialiseCounter + 1 }

def setPadState (port slot : Nat) (f : PadState → PadState) (s : Vars) : Vars :=
  { s with
    padState := fun p q => if p = port ∧ q = slot then f (s.padState p q) else s.padState p q }

def PadState.clear (p : PadState) : PadState := { p with opened := 0, port := 0, slot := 0 }

/-- A pass of the loop over the slots. -/
def clearSlot (i : Nat) (s : Vars) : Vars :=
  setPadState 1 i .clear (setPadState 0 i .clear s)

end Buffer

section Calls
variable (cfg : Config)

/-- Fill the buffer and send it. -/
def command (stores : List (List (Nat × UInt8))) (endfunc : EndFunc) (accepted : Code)
    (refused : Int) : Code :=
  .acts (stores.map store) <|
    .request (fun s => .call s.buffer endfunc) fun ok => if ok then accepted else .ret refused

def bind (client sid : Nat) : Code :=
  .request (fun _ => .bind client sid) fun ok => if ok then .ret 0 else .ret (-sifRpceSendp)

/-- The stages by the value of `padInitialiseCounter`. -/
def padinitStage (counter : Int) : Code :=
  if counter = 0 then
    .acts ([setServer 0 0, setServer 1 0] ++ (List.range 8).map clearSlot) <|
      bind 0 (padBindRpcId1 cfg)
  else if counter = 1 then bind 1 (padBindRpcId2 cfg)
  else if cfg.romPadman = false ∧ counter = 2 then
    command [word 0 padRpccmdGetModver] .padInitCallback (.ret 0) (-sifRpceSendp)
  else if cfg.romPadman = false ∧ counter = 3 then
    command [word 0 padRpccmdInit, word 16 cfg.openSlot] .padInitCallback (.ret 0) (-sifRpceSendp)
  else .notify 1 (.ret 0)

def sbcallPadinit : Code := .read (·.padInitialiseCounter) (padinitStage cfg)

def sbcallPadend : Code :=
  command [word 0 (padRpccmdEnd cfg)] .padEndCallback (.ret 0) (-sifRpceSendp)

def sbcallPadportopen (port slot addr : Nat) : Code :=
  if addr % 64 ≠ 0 then .ret (-1)
  else
    command [word 0 (padRpccmdOpen cfg), word 4 port, word 8 slot, word 16 addr]
      (.padPortOpenCallback port slot)
      (.acts [setPadState port slot fun p => { p with opened := 1 },
        setPadState port slot fun p => { p with padData := addr }] (.ret 0))
      (-sifRpceSendp)

def sbcallPadportclose (port slot : Nat) : Code :=
  command [word 0 (padRpccmdClose cfg), word 4 port, word 8 slot, word 16 1] .padCallback
    (.act (setPadState port slot fun p => { p with opened := 0 }) (.ret 0)) (-sifRpceSendp)

def sbcallPadsetmainmode (port slot offset lock : Nat) : Code :=
  command
    [word 0 (padRpccmdSetMmode cfg), word 4 port, word 8 slot, word 12 offset, word 16 lock]
    .padSetMainModeCallback (.ret 0) (-sifRpceSendp)

def sbcallPadinfopressmode (port slot : Nat) : Code :=
  command [word 0 (padRpccmdGetBtnmask cfg), word 4 port, word 8 slot] .padInfoPressModeCallback
    (.ret 0) (-sifRpceSendp)

def padSetButtonInfo (port slot buttonInfo : Nat) : Code :=
  command [word 0 (padRpccmdSetBtninfo cfg), word 4 port, word 8 slot, word 12 buttonInfo]
    .padSetButtonInfoCallback (.ret 0) (-sifRpceSendp)

def sbcallPadenterpressmode (port slot : Nat) : Code := padSetButtonInfo cfg port slot 0xfff

def sbcallPadexitpressmode (port slot : Nat) : Code := padSetButtonInfo cfg port slot 0

def sbcallPadsetactalign (port slot : Nat) (data : Nat → UInt8) : Code :=
  command ([word 0 (padRpccmdSetActalign cfg), word 4 port, word 8 slot] ++ actBytes data)
    .padSetActAlignCallback (.ret 0) (-sifRpceSendp)

def sbcallPadsetactdirect (port slot : Nat) (data : Nat → UInt8) : Code :=
  command ([word 0 (padRpccmdSetActdir cfg), word 4 port, word 8 slot] ++ actBytes data)
    .padSetActDirectCallback (.ret 0) (-sifRpceSendp)

/-- The two calls without an argument block. With the module of the ROM they wait for the answer,
whose word at 20 is the input; otherwise they only look at the DMA area. -/
def query (stores : List (List (Nat × UInt8))) : Code :=
  if cfg.romPadman then command stores .none (.input .ret) 0 else .input .ret

def sbcallPadinfomode (port slot term offset : Nat) : Code :=
  query cfg [word 0 padRpccmdInfoMode, word 4 port, word 8 slot, word 12 term, word 16 offset]

def sbcallPadinfoact (port slot actno term : Nat) : Code :=
  query cfg [word 0 padRpccmdInfoAct, word 4 port, word 8 slot, word 12 actno, word 16 term]

end Calls

section Callbacks
variable (cfg : Config)

/-- The caller gets a word of the answer. -/
def endWith (off : Nat) : Code := .read (·.word off) endCall

def padCallback : Code := endWith 12

def padInitCase (counter : Int) : Code :=
  if counter = 0 then
    .read (·.server 0) fun server => if server = 0 then endCall 0 else .act nextStage (endCall 0)
  else if counter = 1 then
    .read (·.server 1) fun server =>
      if server = 0 then endCall 0 else .act nextStage (endCall (if cfg.romPadman then 1 else 0))
  else if cfg.romPadman = false ∧ counter = 2 then
    .read (·.word 12) fun version =>
      if version > 0 then .act nextStage (endCall 0) else endCall (-6)
  else if cfg.romPadman = false ∧ counter = 3 then .act nextStage (endCall 1)
  else endCall (-20)

def padInitCallback : Code := .read (·.padInitialiseCounter) (padInitCase cfg)

def padReset (k : Code) : Code := .acts [setCounter 0, setServer 0 0, setServer 1 0] k

def padEndCallback : Code :=
  .read (·.word 12) fun ret => if ret = 1 then padReset (endCall ret) else endCall ret

def padPortOpenCallback (port slot : Nat) : Code :=
  .read (·.word 12) fun result =>
    .act (fun s => setPadState port slot (fun p => { p with padBuf := le s.buffer 20 4 }) s)
      (endCall result)

def padSetMainModeCallback : Code := endWith 20

def padInfoPressModeCallback : Code :=
  .read (·.word 12) fun mask => endCall (if mask ≠ 0x3ffff then 0 else 1)

def padSetButtonInfoCallback : Code := endWith 16
def padSetActAlignCallback : Code := endWith 20
def padSetActDirectCallback : Code := endWith 20

end Callbacks

def Call.body (cfg : Config) : Call → Code
  | .padinit => sbcallPadinit cfg
  | .padend => sbcallPadend cfg
  | .padportopen port slot addr => sbcallPadportopen cfg port slot addr
  | .padportclose port slot => sbcallPadportclose cfg port slot
  | .padsetmainmode port slot offset lock => sbcallPadsetmainmode cfg port slot offset lock
  | .padinfopressmode port slot => sbcallPadinfopressmode cfg port slot
  | .padenterpressmode port slot => sbcallPadenterpressmode cfg port slot
  | .padexitpressmode port slot => sbcallPadexitpressmode cfg port slot
  | .padsetactalign port slot data => sbcallPadsetactalign cfg port slot data
  | .padsetactdirect port slot data => sbcallPadsetactdirect cfg port slot data
  | .padinfomode port slot term offset => sbcallPadinfomode cfg port slot term offset
  | .padinfoact port slot actno term => sbcallPadinfoact cfg port slot actno term

def Request.callback (cfg : Config) : Request → Code
  | .bind _ _ => padInitCallback cfg
  | .call _ .padInitCallback => padInitCallback cfg
  | .call _ .padEndCallback => padEndCallback
  | .call _ .padCallback => padCallback
  | .call _ (.padPortOpenCallback port slot) => padPortOpenCallback port slot
  | .call _ .padSetMainModeCallback => padSetMainModeCallback
  | .call _ .padInfoPressModeCallback => padInfoPressModeCallback
  | .call _ .padSetButtonInfoCallback => padSetButtonInfoCallback
  | .call _ .padSetActAlignCallback => padSetActAlignCallback
  | .call _ .padSetActDirectCallback => padSetActDirectCallback
  | .call _ .none => .ret 0

/-- A bind resets the server of its client. -/
def Request.accepted (q : Request) (s : Vars) : Vars :=
  match q with
  | .bind client _ => setServer client 0 s
  | .call _ _ => s

/-- The answer of a bind is the server, that of a call the 128 bytes that are received, as one
number. -/
def Request.answered (q : Request) (answer : Int) (s : Vars) : Vars :=
  match q with
  | .bind client _ => setServer client answer s
  | .call _ _ =>
    { s with
      buffer := fun i => if i < 128 then .ofNat (answer.toNat / 256 ^ i) else s.buffer i }

def driver (cfg : Config) : Driver Vars Empty Request Call where
  body := Call.body cfg
  callback := Request.callback cfg
  accepted := Request.accepted
  answered := Request.answered

end KernelLoader.Tge.Pad
