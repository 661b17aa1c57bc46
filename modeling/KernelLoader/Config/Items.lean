import KernelLoader.Lib.Text
import Mathlib.Algebra.Group.Int.Defs
import Mathlib.Data.List.Nodup
import Mathlib.Logic.Function.Basic

namespace KernelLoader.Config
open Lib
set_option autoImplicit true
set_option relaxedAutoImplicit false

def maximumConfigLength : Nat := 2048
def maxInputLen : Nat := 1024
def maxPathLen : Nat := maxInputLen

/-- The integers that configuration items stand for. -/
inductive IntVar
  | currentMode
  | moduleLoad (i : Nat)
  | enableSBIOSTGE
  | newModulesInTGE
  | enableDev9
  | patchLibsd
  | enableEEDebug
  | sbiosCallEnabled (i : Nat)
  | autoBootTime
  deriving DecidableEq, Repr

/-- The text buffers that configuration items stand for. -/
inductive TextVar
  | kernelParameter
  | videoParameter
  | myIP
  | netmask
  | gatewayIP
  | dnsIP
  | iopResetParam
  | kernelFilename
  | initrdFilename
  deriving DecidableEq, Repr

/-- The variables behind the items; a text is what stands in its buffer before the NUL. -/
structure Vars where
  ints : IntVar → Int
  texts : TextVar → List Char

def Vars.setInt (v : Vars) (x : IntVar) (n : Int) : Vars :=
  { v with ints := Function.update v.ints x n }

def Vars.setText (v : Vars) (x : TextVar) (s : List Char) : Vars :=
  { v with texts := Function.update v.texts x s }

/-- `configuration_class_type_t`, with what the classes keep. -/
inductive ItemClass
  | check (value : IntVar)
  | text (value : TextVar) (maxlen : Nat)
  | video (value : IntVar)
  deriving DecidableEq, Repr

structure ConfigurationItem where
  name : List Char
  type : ItemClass
  deriving DecidableEq, Repr

/-- The video modes of the graphics library; `other` is anything a read next to `modeList` gives. -/
inductive GsMode
  | autoDetect
  | vga640x60
  | vga640x72
  | vga640x75
  | vga640x85
  | dtv480p
  | ntsc
  | pal
  | other
  deriving DecidableEq, Repr

def modeList : List GsMode :=
  [.autoDetect, .vga640x60, .vga640x72, .vga640x75, .vga640x85, .dtv480p, .ntsc, .pal]

/-- What the code cannot tell: how the library narrows a number that is too large for an `int`, the
region in the ROM version, and what lies around `modeList`. -/
structure Env where
  narrow : Int → Int
  narrow_exact : ∀ n, -2 ^ 31 ≤ n → n < 2 ^ 31 → narrow n = n
  romRegion : Char
  modeOutside : Int → GsMode

/-- `modeList[i]`. -/
def modeAt (env : Env) (i : Int) : GsMode :=
  if 0 ≤ i ∧ i < modeList.length then modeList.getD i.toNat .other else env.modeOutside i

def atoi (env : Env) (s : List Char) : Int := env.narrow (leadingInt s)

def commandlinePal : String := "crtmode=pal1 xmode=PAL video=ps2fb:pal,640x480-32"
def commandlineNtsc : String := "crtmode=ntsc1 xmode=NTSC video=ps2fb:ntsc,640x448-32"
def commandlineVga60 : String :=
  "crtmode=vesa0,60 xmode=VESA,1024x768x24 video=ps2fb:vesa,1024x768-16@60"
def commandlineVga72 : String :=
  "crtmode=vesa0 xmode=VESA,1024x768x24 video=ps2fb:vesa,1024x768-16@72"
def commandlineVga75 : String :=
  "crtmode=vesa0,75 xmode=VESA,1024x768x24 video=ps2fb:vesa,1024x768-16@75"
def commandlineVga85 : String :=
  "crtmode=vesa0,75 xmode=VESA,1024x768x24 video=ps2fb:vesa,1024x768-16@85"
def commandlineDtv : String := "crtmode=dtv2 xmode=dtv,720p video=ps2fb:dtv,720x480-32"

/-- The text `setDefaultVideoParameter` copies for a mode. -/
def defaultVideoParameter (env : Env) : GsMode → String
  | .vga640x60 => commandlineVga60
  | .vga640x72 => commandlineVga72
  | .vga640x75 => commandlineVga75
  | .vga640x85 => commandlineVga85
  | .dtv480p => commandlineDtv
  | .ntsc => commandlineNtsc
  | .pal => commandlinePal
  | .autoDetect | .other => if env.romRegion ≠ 'E' then commandlineNtsc else commandlinePal

def getCurrentMode (env : Env) (v : Vars) : GsMode := modeAt env (v.ints .currentMode)

def configureVideoParameter (env : Env) (v : Vars) : Vars :=
  v.setText .videoParameter (defaultVideoParameter env (getCurrentMode env v)).toList

def ConfigurationItem.readData (env : Env) (it : ConfigurationItem) (buffer : List Char)
    (v : Vars) : Vars :=
  match it.type with
  | .check value => v.setInt value (atoi env buffer)
  | .video value => configureVideoParameter env (v.setInt value (atoi env buffer))
  | .text value maxlen => v.setText value (buffer.take (maxlen - 1))

/-- What an item writes behind its name. -/
def ConfigurationItem.print (it : ConfigurationItem) (v : Vars) : List Char :=
  match it.type with
  | .check value => printInt (v.ints value)
  | .video value => printInt (v.ints value)
  | .text value _ => v.texts value

def ConfigurationItem.writeData (it : ConfigurationItem) (v : Vars) : List Char :=
  it.name ++ '=' :: it.print v ++ ['\n']

/-- The file after `saveConfiguration`. -/
def saveConfiguration (items : List ConfigurationItem) (v : Vars) : List Char :=
  items.flatMap (·.writeData v)

/-- The name and the value in a buffer that `fgets` has filled: `strchr` finds the first `=`, and
the last character is removed, whatever it is. -/
def assignment (buffer : List Char) : Option (List Char × List Char) :=
  (splitAt '=' (cString buffer)).map fun p => (p.1, p.2.dropLast)

/-- Every item of the name reads the value. -/
def assign (env : Env) (items : List ConfigurationItem) (v : Vars)
    (p : List Char × List Char) : Vars :=
  items.foldl (fun v it => if p.1 = it.name then it.readData env p.2 v else v) v

def loadLine (env : Env) (items : List ConfigurationItem) (v : Vars) (buffer : List Char) : Vars :=
  match assignment buffer with
  | some p => assign env items v p
  | none => v

/-- A file that cannot be opened is `none`. -/
def loadConfiguration (env : Env) (items : List ConfigurationItem) (file : Option (List Char))
    (v : Vars) : Int × Vars :=
  match file with
  | some s => (0, (chunks (maximumConfigLength - 1) s).foldl (loadLine env items) v)
  | none => (-1, v)

/-- Modules that come with the RTE are in a directory of their own if the loader is built for it. -/
def rteFile (rte : Bool) (file : String) : String :=
  (if rte then "host:RTE/" else "mc0:kloader/") ++ file

/-- The paths of `modules`. -/
def modulePaths (rte : Bool) : List String :=
  ["host:eedebug.irx", "mc0:kloader/init.irx", "rom0:ADDDRV", "host:eromdrvloader.irx",
  rteFile rte "sio2man.irx", "rom0:XSIO2MAN", "rom0:SIO2MAN", "rom1:SIO2MAN",
  rteFile rte "mcman.irx", "rom0:XMCMAN", "rom0:MCMAN", rteFile rte "mcserv.irx", "rom0:XMCSERV",
  "rom0:MCSERV", rteFile rte "padman.irx", "rom0:XPADMAN", "rom0:PADMAN", "rom1:PADMAN",
  rteFile rte "libsd.irx", "mc0:kloader/LIBSD.IRX", "rom0:LIBSD", "rom1:LIBSD",
  rteFile rte "sdrdrv.irx", "mc0:kloader/SDRDRV.IRX", "rom1:SDRDRV", "host:audsrv.irx",
  "host:ioptrap.irx", "host:iomanX.irx", "host:poweroff.irx", "host:ps2dev9.irx",
  "host:ps2ip.irx", "host:ps2smap.irx", "host:smaprpc.irx", "host:ps2link.irx",
  "host:sharedmem.irx", rteFile rte "iopintr.irx", "host:TGE/intrelay-direct.irx",
  "host:TGE/intrelay-direct-rpc.irx", "host:TGE/intrelay-dev9.irx",
  "host:TGE/intrelay-dev9-rpc.irx", rteFile rte "dmarelay.irx", "host:TGE/dmarelay.irx",
  rteFile rte "cdvdman.irx", rteFile rte "cdvdfsv.irx", "rom1:RMMAN", "rom1:RMMAN2",
  "mc0:kloader/module1.irx", "mc0:kloader/module2.irx", "mc0:kloader/module3.irx",
  "mc0:kloader/module4.irx", "mc0:kloader/module5.irx"]

/-- The calls in the order of their numbers. -/
def sbiosCallNames : List String :=
  ["SB_GETVER", "SB_HALT", "SB_SETDVE", "SB_PUTCHAR", "SB_GETCHAR", "SB_SETGSCRT", "SB_SETRGBYC",
  "unknown", "unknown", "unknown", "unknown", "unknown", "unknown", "unknown", "unknown",
  "SB_REGISTER_DEBUG_CALLBACK", "SB_SIFINIT", "SB_SIFEXIT", "SB_SIFSETDMA", "SB_SIFDMASTAT",
  "SB_SIFSETDCHAIN", "unknown", "unknown", "unknown", "unknown", "unknown", "unknown", "unknown",
  "unknown", "unknown", "unknown", "unknown", "SB_SIFINITCMD", "SB_SIFEXITCMD", "SB_SIFSENDCMD",
  "SB_SIFCMDINTRHDLR", "SB_SIFADDCMDHANDLER", "SB_SIFREMOVECMDHANDLER", "SB_SIFSETCMDBUFFER",
  "unknown", "unknown", "unknown", "unknown", "unknown", "unknown", "unknown", "unknown",
  "unknown", "SB_SIFINITRPC", "SB_SIFEXITRPC", "SB_SIFGETOTHERDATA", "SB_SIFBINDRPC",
  "SB_SIFCALLRPC", "SB_SIFCHECKSTATRPC", "SB_SIFSETRPCQUEUE", "SB_SIFREGISTERRPC",
  "SB_SIFREMOVERPC", "SB_SIFREMOVERPCQUEUE", "SB_SIFGETNEXTREQUEST", "SB_SIFEXECREQUEST",
  "unknown", "unknown", "unknown", "unknown", "SBR_IOPH_INIT", "SBR_IOPH_ALLOC", "SBR_IOPH_FREE",
  "unknown", "unknown", "unknown", "unknown", "unknown", "unknown", "unknown", "unknown",
  "unknown", "unknown", "unknown", "unknown", "unknown", "SBR_PAD_INIT", "SBR_PAD_END",
  "SBR_PAD_PORTOPEN", "SBR_PAD_PORTCLOSE", "SBR_PAD_SETMAINMODE", "SBR_PAD_SETACTDIRECT",
  "SBR_PAD_SETACTALIGN", "SBR_PAD_INFOPRESSMODE", "SBR_PAD_ENTERPRESSMODE",
  "SBR_PAD_EXITPRESSMODE", "SB_PAD_READ", "SB_PAD_GETSTATE", "SB_PAD_GETREQSTATE",
  "SB_PAD_INFOACT", "SB_PAD_INFOCOMB", "SB_PAD_INFOMODE", "unknown", "unknown", "unknown",
  "unknown", "unknown", "unknown", "unknown", "unknown", "unknown", "unknown", "unknown",
  "unknown", "unknown", "unknown", "unknown", "unknown", "SBR_SOUND_INIT", "SBR_SOUND_END",
  "SB_SOUND_GREG", "SB_SOUND_SREG", "SBR_SOUND_GCOREATTR", "SBR_SOUND_SCOREATTR",
  "SBR_SOUND_TRANS", "SBR_SOUND_TRANSSTAT", "SBR_SOUND_TRANSCALLBACK", "unknown", "unknown",
  "SBR_SOUND_REMOTE", "unknown", "unknown", "unknown", "unknown", "unknown", "unknown", "unknown",
  "unknown", "unknown", "unknown", "unknown", "unknown", "unknown", "unknown", "unknown",
  "unknown", "unknown", "unknown", "unknown", "unknown", "SBR_MC_INIT", "SBR_MC_OPEN",
  "SBR_MC_MKDIR", "SBR_MC_CLOSE", "SBR_MC_SEEK", "SBR_MC_READ", "SBR_MC_WRITE", "SBR_MC_GETINFO",
  "SBR_MC_GETDIR", "SBR_MC_FORMAT", "SBR_MC_DELETE", "SBR_MC_FLUSH", "SBR_MC_SETFILEINFO",
  "SBR_MC_RENAME", "SBR_MC_UNFORMAT", "SBR_MC_GETENTSPACE", "SBR_MC_CALL", "unknown", "unknown",
  "unknown", "unknown", "unknown", "unknown", "unknown", "unknown", "unknown", "unknown",
  "unknown", "unknown", "unknown", "unknown", "unknown", "SBR_CDVD_INIT", "SBR_CDVD_RESET",
  "SBR_CDVD_READY", "SBR_CDVD_READ", "SBR_CDVD_STOP", "SBR_CDVD_GETTOC", "SBR_CDVD_READRTC",
  "SBR_CDVD_WRITERTC", "SBR_CDVD_MMODE", "SBR_CDVD_GETERROR", "SBR_CDVD_GETTYPE",
  "SBR_CDVD_TRAYREQ", "SB_CDVD_POWERHOOK", "SBR_CDVD_DASTREAM", "SBR_CDVD_READSUBQ",
  "SBR_CDVD_OPENCONFIG", "SBR_CDVD_CLOSECONFIG", "SBR_CDVD_READCONFIG", "SBR_CDVD_WRITECONFIG",
  "SBR_CDVD_RCBYCTL", "SBR_CDVD_READ_DVD", "unknown", "unknown", "unknown", "unknown", "unknown",
  "unknown", "unknown", "unknown", "unknown", "unknown", "unknown", "SBR_REMOCON_INIT",
  "SBR_REMOCON_END", "SBR_REMOCON_PORTOPEN", "SBR_REMOCON_PORTCLOSE", "SB_REMOCON_READ",
  "SBR_REMOCON2_INIT", "SBR_REMOCON2_END", "SBR_REMOCON2_PORTOPEN", "SBR_REMOCON2_PORTCLOSE",
  "SB_REMOCON2_READ", "SBR_REMOCON2_IRFEATURE"]

/-- Every description is the number of the call and its name. -/
def sbiosDescription : List (List Char) :=
  sbiosCallNames.zipIdx.map fun p => printInt p.2 ++ ' ' :: p.1.toList

def videoModeItem : ConfigurationItem := ⟨"videomode".toList, .video .currentMode⟩

def videoParameterItem : ConfigurationItem :=
  ⟨"VideoParameter".toList, .text .videoParameter maxInputLen⟩

def autoBootItem : ConfigurationItem := ⟨"Auto Boot".toList, .check .autoBootTime⟩

/-- The check items of a list of names. -/
def checkItems (f : Nat → IntVar) (names : List (List Char)) : List ConfigurationItem :=
  names.zipIdx.map fun p => ⟨p.1, .check (f p.2)⟩

/-- What comes before the module list. -/
def firstItems : List ConfigurationItem :=
  [videoModeItem,
    ⟨"KernelParameter".toList, .text .kernelParameter maxInputLen⟩,
    videoParameterItem,
    ⟨"ps2linkMyIP".toList, .text .myIP maxInputLen⟩,
    ⟨"ps2linkNetmask".toList, .text .netmask maxInputLen⟩,
    ⟨"ps2linkGatewayIP".toList, .text .gatewayIP maxInputLen⟩,
    ⟨"ps2DNSIP".toList, .text .dnsIP maxInputLen⟩,
    ⟨"IOPResetParameter".toList, .text .iopResetParam maxInputLen⟩,
    ⟨"KernelFileName".toList, .text .kernelFilename maxPathLen⟩,
    ⟨"InitrdFileName".toList, .text .initrdFilename maxPathLen⟩]

/-- The options of the configuration menu. -/
def optionItems : List ConfigurationItem :=
  [⟨"Use SBIOS from TGE (ow RTE)".toList, .check .enableSBIOSTGE⟩,
    ⟨"TGE SBIOS for New Modules".toList, .check .newModulesInTGE⟩,
    ⟨"Enable hard disc and network".toList, .check .enableDev9⟩,
    ⟨"Patch libsd (enable USB)".toList, .check .patchLibsd⟩,
    ⟨"Enable IOP debug output".toList, .check .enableEEDebug⟩]

/-- The items in the order in which `graphic_main` and `initMenu` add them. -/
def registered (rte : Bool) : List ConfigurationItem :=
  firstItems ++ checkItems .moduleLoad ((modulePaths rte).map String.toList) ++ optionItems ++
    checkItems .sbiosCallEnabled sbiosDescription ++ [autoBootItem]

/-- The variable of an item. -/
inductive Var
  | int (x : IntVar)
  | text (x : TextVar)
  deriving DecidableEq, Repr

def ConfigurationItem.var (it : ConfigurationItem) : Var :=
  match it.type with
  | .check value => .int value
  | .video value => .int value
  | .text value _ => .text value

theorem checkItems_names (f : Nat → IntVar) (names : List (List Char)) :
    (checkItems f names).map (·.name) = names := by
  rw [checkItems, List.map_map]
  exact List.zipIdx_map_fst 0 names

theorem checkItems_vars (f : Nat → IntVar) (names : List (List Char)) :
    (checkItems f names).map (·.var) = (List.range names.length).map fun i => .int (f i) := by
  rw [checkItems, List.map_map]
  change names.zipIdx.map ((fun i => Var.int (f i)) ∘ Prod.snd) = _
  rw [← List.map_map, List.zipIdx_map_snd, List.range_eq_range']

/-- A name of at most `n` characters that can stand in front of the first `=` of a line. -/
def Plain (n : Nat) (name : List Char) : Prop :=
  (∀ c ∈ name, c ≠ '=' ∧ c ≠ '\n' ∧ c ≠ '\x00') ∧ name.length ≤ n

-- by the list: there are far more characters than a name has
instance (n : Nat) (name : List Char) : Decidable (Plain n name) :=
  have := List.decidableBAll (fun c => c ≠ '=' ∧ c ≠ '\n' ∧ c ≠ '\x00') name
  inferInstanceAs (Decidable (_ ∧ _))

/-- The descriptions of calls start with a number, the paths of modules have a device in front. -/
inductive ItemGroup
  | single | module | call
  deriving DecidableEq

def nameGroup (name : List Char) : ItemGroup :=
  if name.head?.any Char.isDigit then .call else if ':' ∈ name then .module else .single

def PlainOf (k : ItemGroup) (name : List Char) : Prop := Plain 32 name ∧ nameGroup name = k

instance (k : ItemGroup) (name : List Char) : Decidable (PlainOf k name) :=
  inferInstanceAs (Decidable (_ ∧ _))

theorem literal_cons {P : List Char → Prop} {l : List Char} {ss : List String} (h : P l)
    (hs : ∀ s ∈ ss, P s.toList) : ∀ s ∈ String.ofList l :: ss, P s.toList := by
  rw [List.forall_mem_cons, String.toList_ofList]
  exact ⟨h, hs⟩

theorem modulePaths_nodup (rte : Bool) : (modulePaths rte).Nodup := by
  cases rte <;> simp [modulePaths, rteFile]

theorem modulePaths_plain (rte : Bool) : ∀ s ∈ modulePaths rte, PlainOf .module s.toList := by
  cases rte <;>
  · simp only [modulePaths, rteFile, Bool.false_eq_true, if_false, if_true, String.reduceAppend]
    repeat refine literal_cons (by decide) ?_
    exact List.forall_mem_nil _

/-- The names that are neither of modules nor of calls. -/
def singleNames : List String :=
  ["videomode", "KernelParameter", "VideoParameter", "ps2linkMyIP", "ps2linkNetmask",
  "ps2linkGatewayIP", "ps2DNSIP", "IOPResetParameter", "KernelFileName", "InitrdFileName",
  "Use SBIOS from TGE (ow RTE)", "TGE SBIOS for New Modules", "Enable hard disc and network",
  "Patch libsd (enable USB)", "Enable IOP debug output", "Auto Boot"]

theorem singleNames_plain : ∀ s ∈ singleNames, PlainOf .single s.toList := by
  unfold singleNames
  repeat refine literal_cons (by decide) ?_
  exact List.forall_mem_nil _

theorem singleNames_nodup : singleNames.Nodup := by
  simp [singleNames]

theorem sbiosCallNames_plain : ∀ s ∈ sbiosCallNames, Plain 32 s.toList := by
  unfold sbiosCallNames
  repeat refine literal_cons (by decide) ?_
  exact List.forall_mem_nil _

theorem leadingInt_description (n : Nat) (s : List Char) :
    leadingInt (printInt n ++ ' ' :: s) = n := by
  have hpos : ¬(n : Int) < 0 := by omega
  obtain ⟨c, t, ht, hc⟩ := toDigits_head n
  have hsplit : (Nat.toDigits 10 n ++ ' ' :: s).takeWhile Char.isDigit = Nat.toDigits 10 n := by
    rw [List.takeWhile_append_of_pos fun c h =>
      Nat.isDigit_of_mem_toDigits (by decide) (by decide) h]
    simp
  rw [printInt, if_neg hpos, Int.natAbs_natCast]
  rw [ht, List.cons_append, leadingInt_digits hc, ← List.cons_append, ← ht, hsplit]
  rw [Nat.ofDigitChars_toDigits (by decide) (by decide)]

theorem sbiosDescription_nodup : sbiosDescription.Nodup := by
  apply List.Nodup.of_map fun s => (leadingInt s).toNat
  have hnumbers : sbiosDescription.map (fun s => (leadingInt s).toNat) =
      List.range sbiosCallNames.length := by
    rw [sbiosDescription, List.map_map]
    simp only [Function.comp_def, leadingInt_description, Int.toNat_natCast]
    rw [List.zipIdx_map_snd, List.range_eq_range']
  rw [hnumbers]
  exact List.nodup_range

theorem length_sbiosCallNames : sbiosCallNames.length = 219 := by
  decide +kernel

theorem sbiosDescription_plain : ∀ name ∈ sbiosDescription,
    Plain 64 name ∧ nameGroup name = .call := by
  intro name hname
  obtain ⟨⟨call, i⟩, hp, rfl⟩ := List.mem_map.mp hname
  have hcall : call ∈ sbiosCallNames := List.fst_mem_of_mem_zipIdx hp
  have hi : i < sbiosCallNames.length := List.snd_lt_of_mem_zipIdx hp
  rw [length_sbiosCallNames] at hi
  obtain ⟨hchars, hlength⟩ := sbiosCallNames_plain call hcall
  have hnumber : (printInt i).length ≤ 3 + 1 := length_printInt (by decide) (by omega)
  refine ⟨⟨fun c hc => ?_, ?_⟩, ?_⟩
  · rcases List.mem_append.mp hc with hc | hc
    · have hne : c = '-' ∨ c.isDigit = true := mem_printInt hc
      refine ⟨?_, ?_, ?_⟩ <;> rintro rfl <;> revert hne <;> decide
    · rcases List.mem_cons.mp hc with rfl | hc
      · decide
      · exact hchars c hc
  · simp only [List.length_append, List.length_cons]
    omega
  · obtain ⟨c, t, ht, hc⟩ := toDigits_head i
    have hpos : ¬(i : Int) < 0 := by omega
    rw [nameGroup, printInt, if_neg hpos, Int.natAbs_natCast, ht]
    simp [hc]

theorem registered_names_eq (rte : Bool) : (registered rte).map (·.name) =
    (singleNames.take 10).map String.toList ++ (modulePaths rte).map String.toList ++
      ((singleNames.drop 10).take 5).map String.toList ++ sbiosDescription ++
      ["Auto Boot".toList] := by
  simp only [registered, List.map_append, checkItems_names]
  rfl

theorem registered_names_perm (rte : Bool) : ((registered rte).map (·.name)).Perm
    (singleNames.map String.toList ++
      ((modulePaths rte).map String.toList ++ sbiosDescription)) := by
  have hsingle : singleNames.map String.toList = (singleNames.take 10).map String.toList ++
      (((singleNames.drop 10).take 5).map String.toList ++ ["Auto Boot".toList]) := rfl
  rw [registered_names_eq, hsingle, List.perm_iff_count]
  intro name
  simp only [List.count_append]
  omega

theorem nodup_of_groups {as bs cs : List α} (group : α → ItemGroup) (ha : as.Nodup) (hb : bs.Nodup)
    (hc : cs.Nodup) (ka : ∀ x ∈ as, group x = .single) (kb : ∀ x ∈ bs, group x = .module)
    (kc : ∀ x ∈ cs, group x = .call) : (as ++ (bs ++ cs)).Nodup := by
  rw [List.nodup_append, List.nodup_append]
  refine ⟨ha, ⟨hb, hc, fun x hx y hy he => ?_⟩, fun x hx y hy he => ?_⟩
  · have hgroup := kb x hx
    rw [he, kc y hy] at hgroup
    cases hgroup
  · have hgroup := ka x hx
    rcases List.mem_append.mp hy with hy | hy
    · rw [he, kb y hy] at hgroup
      cases hgroup
    · rw [he, kc y hy] at hgroup
      cases hgroup

theorem registered_names (rte : Bool) : ((registered rte).map (·.name)).Nodup := by
  have hinj : Function.Injective String.toList := fun _ _ h => String.toList_inj.mp h
  rw [(registered_names_perm rte).nodup_iff]
  exact nodup_of_groups nameGroup (singleNames_nodup.map hinj) ((modulePaths_nodup rte).map hinj)
    sbiosDescription_nodup (List.forall_mem_map.mpr fun s hs => (singleNames_plain s hs).2)
    (List.forall_mem_map.mpr fun s hs => (modulePaths_plain rte s hs).2)
    fun name hname => (sbiosDescription_plain name hname).2

theorem registered_plain (rte : Bool) : ∀ it ∈ registered rte, Plain 64 it.name := by
  intro it hit
  have hmem := (registered_names_perm rte).mem_iff.mp (List.mem_map_of_mem (f := (·.name)) hit)
  have hweak {name : List Char} (h : Plain 32 name) : Plain 64 name :=
    ⟨h.1, Nat.le_trans h.2 (by decide)⟩
  rcases List.mem_append.mp hmem with h | h
  · obtain ⟨s, hs, he⟩ := List.mem_map.mp h
    rw [← he]
    exact hweak (singleNames_plain s hs).1
  · rcases List.mem_append.mp h with h | h
    · obtain ⟨s, hs, he⟩ := List.mem_map.mp h
      rw [← he]
      exact hweak (modulePaths_plain rte s hs).1
    · exact (sbiosDescription_plain _ h).1

def varGroup : Var → ItemGroup
  | .int (.moduleLoad _) => .module
  | .int (.sbiosCallEnabled _) => .call
  | _ => .single

theorem registered_vars (rte : Bool) : ((registered rte).map (·.var)).Nodup := by
  have hperm : ((registered rte).map (·.var)).Perm
      ((firstItems ++ optionItems ++ [autoBootItem]).map (·.var) ++
        (((List.range (modulePaths rte).length).map fun i => .int (.moduleLoad i)) ++
          (List.range sbiosDescription.length).map fun i => .int (.sbiosCallEnabled i))) := by
    rw [List.perm_iff_count]
    intro x
    simp only [registered, List.map_append, checkItems_vars, List.count_append, List.length_map]
    omega
  rw [hperm.nodup_iff]
  refine nodup_of_groups varGroup (by decide) ?_ ?_ (by decide) ?_ ?_
  · exact List.nodup_range.map fun _ _ h => by cases h; rfl
  · exact List.nodup_range.map fun _ _ h => by cases h; rfl
  · exact List.forall_mem_map.mpr fun _ _ => rfl
  · exact List.forall_mem_map.mpr fun _ _ => rfl

end KernelLoader.Config
