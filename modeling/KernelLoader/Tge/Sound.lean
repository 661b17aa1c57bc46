import KernelLoader.Tge.Commands
import KernelLoader.Lib.Memory
import KernelLoader.Lib.Word

namespace KernelLoader.Tge.Sound
open Lib Lib.Async
set_option autoImplicit true
set_option relaxedAutoImplicit false

def soundBindRpcId : Nat := 0x80000701
def soundServerInit : Nat := 0x8000
def soundGcoreAttr : Nat := 0x8080
def soundScoreAttr : Nat := 0x8070
def soundScoreTrans : Nat := 0x80e0
def soundScoreTransCallback : Nat := 0x8110
def soundinitModeHot : Nat := 1
def soundServerRpcSid : Nat := 0x80000704

/-- The address of `rpcResultBuffer`. -/
structure Config where
  rpcResultBuffer : Nat

/-- What the driver registers for the calls of the IOP. -/
inductive Registration
  | sifSetRpcQueue
  | sifRegisterRpc (sid : Nat)
  deriving DecidableEq, Repr

/-- The variables of the driver, and what it has registered so far. The buffers are arrays of
words. -/
structure Vars where
  soundInitCounter : Int
  soundInitialized : Int
  server : Int
  rpcBuffer : Nat → Nat
  rpcResultBuffer : Nat → Nat
  callback1 : Nat
  callback1Arg : Nat
  callback2 : Nat
  callback2Arg : Nat
  registered : List Registration

inductive EndFunc
  | soundInitCallback | soundEndCallback | soundCallback | soundCallbackOk
  deriving DecidableEq, Repr

/-- A bind of `sdrsif`, or a call with 64 bytes of `rpcBuffer`; 16 bytes are received in
`rpcResultBuffer`. -/
inductive Request
  | bind (sid : Nat)
  | call (rpcNumber : Nat) (packet : Nat → Nat) (endfunc : EndFunc)

/-- There is no lock. -/
abbrev Code := Prog Vars Empty Request

/-- Store the result and call `endfunc` of the argument block. -/
def endCall (result : Int) : Code := .notify result (.ret 0)

/-- The calls with an argument block, with the arguments they read. -/
inductive Call
  | soundinit (mode : Nat)
  | soundend
  | soundgcoreattr (index : Nat)
  | soundscoreattr (index attr : Nat)
  | soundtrans (channel mode addr size startAddr : Nat)
  | soundtransstat (channel flag : Nat)
  | soundtranscallback (channel transferCb tcbarg : Nat)
  | soundremote

section Callbacks

def nextStage (s : Vars) : Vars := { s with soundInitCounter := s.soundInitCounter + 1 }

def lastStage (s : Vars) : Vars := { s with soundInitCounter := s.soundInitCounter - 1 }

def setInitialized (b : Int) (s : Vars) : Vars := { s with soundInitialized := b }

def register (r : Registration) (s : Vars) : Vars := { s with registered := s.registered ++ [r] }

/-- The first word of the answer. -/
def Vars.result (s : Vars) : Int := s32 (s.rpcResultBuffer 0)

/-- In the first stage the server for the transfer callbacks is registered as well. -/
def soundInitCase (counter : Int) : Code :=
  if counter = 0 then
    .read (·.server) fun server =>
      if server ≠ 0 then
        .acts [register .sifSetRpcQueue, register (.sifRegisterRpc soundServerRpcSid), nextStage]
          (endCall (-1))
      else endCall (-2)
  else if counter = 1 then
    .read Vars.result fun r => if r ≠ 0 then endCall (-2) else .act nextStage (endCall (-1))
  else if counter = 2 then
    .read Vars.result fun r =>
      if r ≠ 0 then endCall (-2) else .acts [nextStage, setInitialized (-1)] (endCall 0)
  else endCall 0

def soundInitCallback : Code := .read (·.soundInitCounter) soundInitCase

def soundCallback : Code := .read Vars.result endCall

def soundEndCase (counter : Int) : Code :=
  if counter = 0 ∨ counter = 1 then endCall (-2)
  else if counter = 2 then
    .read Vars.result fun result =>
      .read Vars.result fun r => if r = 0 then .act lastStage (endCall result) else endCall result
  else .acts [lastStage, setInitialized 0] (endCall (-1))

def soundEndCallback : Code := .read (·.soundInitCounter) soundEndCase

def soundCallbackOk : Code := endCall 0

end Callbacks

section Calls

def store (w : Nat × Nat) (s : Vars) : Vars := { s with rpcBuffer := storeAll s.rpcBuffer [w] }

/-- Fill the buffer and send it. -/
def command (rpcNumber : Nat) (stores : List (Nat × Nat)) (endfunc : EndFunc) : Code :=
  .acts (stores.map store) <|
    .request (fun s => .call rpcNumber s.rpcBuffer endfunc) fun ok =>
      if ok then .ret 0 else .ret (-sifRpceSendp)

def whenInitialized (k : Code) : Code :=
  .read (·.soundInitialized) fun b => if b = 0 then .ret (-1) else k

/-- The stages by the value of `soundInitCounter`. -/
def soundinitStage (cfg : Config) (mode : Nat) (counter : Int) : Code :=
  if counter = 0 then
    .request (fun _ => .bind soundBindRpcId) fun ok =>
      if ok then .ret 0 else .ret (-sifRpceSendp)
  else if counter = 1 then
    command soundServerInit [(0, cfg.rpcResultBuffer), (1, mode)] .soundInitCallback
  else if counter = 2 then command 0xe620 [] .soundInitCallback
  else soundInitCallback

def sbcallSoundinit (cfg : Config) (mode : Nat) : Code :=
  .read (·.soundInitCounter) (soundinitStage cfg mode)

def soundendStage (cfg : Config) (counter : Int) : Code :=
  if counter = 0 ∨ counter = 1 then .ret (-1)
  else if counter = 2 then
    command soundServerInit [(0, cfg.rpcResultBuffer), (1, soundinitModeHot)] .soundEndCallback
  else command 0xe630 [] .soundEndCallback

def sbcallSoundend (cfg : Config) : Code := .read (·.soundInitCounter) (soundendStage cfg)

def sbcallSoundgcoreattr (index : Nat) : Code :=
  whenInitialized (command soundGcoreAttr [(1, index)] .soundCallback)

def sbcallSoundscoreattr (index attr : Nat) : Code :=
  whenInitialized (command soundScoreAttr [(1, index), (2, attr)] .soundCallbackOk)

def sbcallSoundtrans (channel mode addr size startAddr : Nat) : Code :=
  whenInitialized <|
    command soundScoreTrans [(1, channel), (2, mode), (3, addr), (4, size), (5, startAddr)]
      .soundCallback

/-- The number is that of a transfer, not of its state. -/
def sbcallSoundtransstat (channel flag : Nat) : Code :=
  whenInitialized (command soundScoreTrans [(1, channel), (2, flag)] .soundCallback)

def sbcallSoundtranscallback (channel transferCb tcbarg : Nat) : Code :=
  whenInitialized <|
    if channel = 0 then
      .acts
        [fun s => { s with callback1 := transferCb }, fun s => { s with callback1Arg := tcbarg }]
        (command soundScoreTransCallback [(1, channel)] .soundCallback)
    else if channel = 1 then
      .acts
        [fun s => { s with callback2 := transferCb }, fun s => { s with callback2Arg := tcbarg }]
        (command soundScoreTransCallback [(1, channel)] .soundCallback)
    else .ret (-1)

def sbcallSoundremote : Code := whenInitialized (.ret (-1))

end Calls

def Call.body (cfg : Config) : Call → Code
  | .soundinit mode => sbcallSoundinit cfg mode
  | .soundend => sbcallSoundend cfg
  | .soundgcoreattr index => sbcallSoundgcoreattr index
  | .soundscoreattr index attr => sbcallSoundscoreattr index attr
  | .soundtrans channel mode addr size startAddr =>
    sbcallSoundtrans channel mode addr size startAddr
  | .soundtransstat channel flag => sbcallSoundtransstat channel flag
  | .soundtranscallback channel transferCb tcbarg =>
    sbcallSoundtranscallback channel transferCb tcbarg
  | .soundremote => sbcallSoundremote

def Request.callback : Request → Code
  | .bind _ => soundInitCallback
  | .call _ _ .soundInitCallback => soundInitCallback
  | .call _ _ .soundEndCallback => soundEndCallback
  | .call _ _ .soundCallback => soundCallback
  | .call _ _ .soundCallbackOk => soundCallbackOk

/-- A bind resets the server. -/
def Request.accepted (q : Request) (s : Vars) : Vars :=
  match q with
  | .bind _ => { s with server := 0 }
  | .call .. => s

/-- The answer of a bind is the server, that of a call the words that are received, as one
number. -/
def Request.answered (q : Request) (answer : Int) (s : Vars) : Vars :=
  match q with
  | .bind _ => { s with server := answer }
  | .call .. =>
    { s with
      rpcResultBuffer := fun i =>
        if i < 4 then u32 (answer.toNat / 2 ^ (32 * i)) else s.rpcResultBuffer i }

def driver (cfg : Config) : Driver Vars Empty Request Call where
  body := Call.body cfg
  callback := Request.callback
  accepted := Request.accepted
  answered := Request.answered

end KernelLoader.Tge.Sound
