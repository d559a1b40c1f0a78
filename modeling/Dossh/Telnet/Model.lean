import Dossh.AnsiKey
import Dossh.Net.Api
import Dossh.Render.Model

/-!
# The telnet server

`telnet.c` and the tick worker `net_tick` of `dosshd.c` over the network stack, the
renderer and the key mapper.  A function that calls `render_reset` takes the value of
the tick counter.

One thing is added to the state of the source: `auths` lists the connections, by slot
and generation, that have passed `au_check`.
-/

namespace Dossh

variable {n : Nat}

/-! ## State -/

/-- The values of `iac[i]`. -/
inductive IacState where
  | data
  | iac
  | verb
  | sb
  | sbIac
deriving DecidableEq, Repr

/-- `AU_OK` and `AU_PW`. -/
inductive AuState where
  | ok
  | pw
deriving DecidableEq, Repr

/-- The arrays of `telnet.c` at one slot.  `sbBuf` and `auBuf` are the filled parts of
`sb_buf` and `au_buf`. -/
structure TelSlot where
  iac : IacState
  verb : UInt8
  willed : UInt8
  doed : UInt8
  sbBuf : List UInt8
  nawsW : Nat
  nawsH : Nat
  auState : AuState
  auBuf : List UInt8
  auTries : Nat

/-- A slot before its first client. -/
def TelSlot.init : TelSlot where
  iac := .data
  verb := 0
  willed := 0
  doed := 0
  sbBuf := []
  nawsW := 0
  nawsH := 0
  auState := .ok
  auBuf := []
  auTries := 0

/-- The telnet server with what it drives. -/
structure Server (n : Nat) where
  net : Net n
  slots : Fin n → TelSlot
  password : List UInt8
  eofExit : Bool
  key : AnsiKey
  render : Render
  auths : List (Fin n × Nat)

namespace Server

def setSlot (st : Server n) (i : Fin n) (s : TelSlot) : Server n :=
  { st with slots := Function.update st.slots i s }

/-- `net_tx_putc_slot`, whose result the callers ignore. -/
def putc (st : Server n) (i : Fin n) (b : UInt8) : Server n :=
  { st with net := (netTxPutcSlot st.net i b).2 }

end Server

/-! ## Negotiation -/

def IAC : UInt8 := 255
def SE : UInt8 := 240
def SB : UInt8 := 250
def WILL : UInt8 := 251
def WONT : UInt8 := 252
def DO : UInt8 := 253
def DONT : UInt8 := 254
def OPT_BINARY : UInt8 := 0
def OPT_ECHO : UInt8 := 1
def OPT_SGA : UInt8 := 3
def OPT_NAWS : UInt8 := 31

/-- `au_say`. -/
def auSay (st : Server n) (i : Fin n) (s : List UInt8) : Server n :=
  s.foldl (fun st b => st.putc i b) st

/-- `put3`. -/
def put3 (st : Server n) (i : Fin n) (a b c : UInt8) : Server n := auSay st i [a, b, c]

/-- `telnet_reset`. -/
def telnetReset (st : Server n) (i : Fin n) : Server n :=
  st.setSlot i { st.slots i with
    iac := .data, willed := 0, doed := 0, sbBuf := [], nawsW := 0, nawsH := 0 }

/-- `telnet_hello`. -/
def telnetHello (st : Server n) (i : Fin n) : Server n :=
  let st := put3 st i IAC WILL OPT_ECHO
  let st := put3 st i IAC WILL OPT_SGA
  let st := put3 st i IAC DO OPT_SGA
  let st := put3 st i IAC WILL OPT_BINARY
  let st := put3 st i IAC DO OPT_BINARY
  let st := put3 st i IAC DO OPT_NAWS
  st.setSlot i { st.slots i with willed := 0x0B, doed := 0x09 }

/-- `ours`. -/
def ours (opt : UInt8) : Bool := opt = OPT_ECHO || opt = OPT_SGA || opt = OPT_BINARY

/-- `respond`. -/
def respond (st : Server n) (i : Fin n) (v opt : UInt8) : Server n :=
  let s := st.slots i
  let bit := if opt < 8 then (1 : UInt8) <<< opt else 0
  if v = DO then
    if ours opt then
      if s.willed &&& bit = 0 then
        (put3 st i IAC WILL opt).setSlot i { s with willed := s.willed ||| bit }
      else st
    else put3 st i IAC WONT opt
  else if v = WILL then
    if opt = OPT_SGA ∨ opt = OPT_BINARY then
      if s.doed &&& bit = 0 then
        (put3 st i IAC DO opt).setSlot i { s with doed := s.doed ||| bit }
      else st
    else if opt = OPT_NAWS then st
    else put3 st i IAC DONT opt
  else if v = WONT then put3 st i IAC DONT opt
  else if v = DONT then put3 st i IAC WONT opt
  else st

/-! ## The authentication gate -/

/-- A NUL-terminated string. -/
def cstr (s : List UInt8) : List UInt8 := s.takeWhile (· ≠ 0)

/-- `telnet_set_password`. -/
def telnetSetPassword (pw : List UInt8) : List UInt8 := (cstr pw).take 31

/-- `au_check`: a full password line arrived. -/
def auCheck (now : BitVec 32) (st : Server n) (i : Fin n) : Server n :=
  let s := st.slots i
  if cstr s.auBuf = cstr st.password then
    { st.setSlot i { s with auState := .ok, auBuf := [] } with
      auths := (i, (st.net.conns i).gen) :: st.auths
      net := netSlotReady st.net i true
      render := renderReset now st.render }
  else
    let tries := (s.auTries + 1) % 256
    let st := st.setSlot i { s with auBuf := [], auTries := tries }
    if tries ≥ 3 then
      let st := auSay st i (ascii "\r\nAccess denied.\r\n")
      { st with net := netSlotDrop st.net i }
    else auSay st i (ascii "\r\nWrong password.\r\nPassword: ")

/-- `feed_data`: one decoded data byte. -/
def feedData (now : BitVec 32) (st : Server n) (i : Fin n) (b : UInt8) : Server n :=
  let s := st.slots i
  if s.auState = .ok then
    if st.eofExit && b = 0x04 then { st with net := netSlotDrop st.net i }
    else { st with key := ansiKeyByte st.key b }
  else if b = 0x0D then auCheck now st i
  else if b = 0x0A ∨ b = 0 then st
  else if b = 8 ∨ b = 127 then st.setSlot i { s with auBuf := s.auBuf.dropLast }
  else if s.auBuf.length < 31 then st.setSlot i { s with auBuf := s.auBuf ++ [b] }
  else st

/-- `telnet_begin`. -/
def telnetBegin (now : BitVec 32) (st : Server n) (i : Fin n) : Server n :=
  let st := telnetReset st i
  let st := telnetHello st i
  let st := auSay st i (0x1B :: ascii "[8;25;80t")
  let s := st.slots i
  if st.password.headD 0 ≠ 0 then
    auSay (st.setSlot i { s with auBuf := [], auTries := 0, auState := .pw }) i
      (ascii "\r\nPassword: ")
  else
    { st.setSlot i { s with auBuf := [], auTries := 0, auState := .ok } with
      net := netSlotReady st.net i true
      render := renderReset now st.render }

/-! ## Decoding -/

/-- `sb_push`. -/
def sbPush (st : Server n) (i : Fin n) (b : UInt8) : Server n :=
  let s := st.slots i
  if s.sbBuf.length < 8 then st.setSlot i { s with sbBuf := s.sbBuf ++ [b] } else st

/-- `sb_done`. -/
def sbDone (now : BitVec 32) (st : Server n) (i : Fin n) : Server n :=
  let s := st.slots i
  if s.sbBuf.length ≥ 5 ∧ s.sbBuf.getD 0 0 = OPT_NAWS then
    let w := (s.sbBuf.getD 1 0).toNat * 256 + (s.sbBuf.getD 2 0).toNat
    let h := (s.sbBuf.getD 3 0).toNat * 256 + (s.sbBuf.getD 4 0).toNat
    if w ≠ s.nawsW ∨ h ≠ s.nawsH then
      let had := s.nawsW ≠ 0 ∨ s.nawsH ≠ 0
      let st := st.setSlot i { s with nawsW := w, nawsH := h }
      if had ∧ s.auState = .ok then { st with render := renderReset now st.render } else st
    else st
  else st

/-- Set `iac[i]`. -/
def Server.setIac (st : Server n) (i : Fin n) (v : IacState) : Server n :=
  st.setSlot i { st.slots i with iac := v }

/-- `telnet_in`. -/
def telnetIn (now : BitVec 32) (st : Server n) (i : Fin n) (b : UInt8) : Server n :=
  match (st.slots i).iac with
  | .data => if b = IAC then st.setIac i .iac else feedData now st i b
  | .iac =>
      if b = IAC then (feedData now st i IAC).setIac i .data
      else if b = SB then st.setSlot i { st.slots i with sbBuf := [], iac := .sb }
      else if WILL ≤ b ∧ b ≤ DONT then st.setSlot i { st.slots i with verb := b, iac := .verb }
      else st.setIac i .data
  | .verb => (respond st i (st.slots i).verb b).setIac i .data
  | .sb => if b = IAC then st.setIac i .sbIac else sbPush st i b
  | .sbIac =>
      if b = SE then (sbDone now st i).setIac i .data
      else if b = IAC then (sbPush st i IAC).setIac i .sb
      else st.setIac i .sb

/-! ## The tick -/

def TX_BUDGET : Nat := 512

/-- The loop of `tx_pump` in network mode. -/
def txPumpLoop (s : Screen) : Nat → Server n → Server n
  | 0, st => st
  | budget + 1, st =>
      match renderNextByte false s st.render with
      | (none, render) => { st with render := render }
      | (some b, render) =>
          match netTxPutc st.net b with
          | (true, net) => txPumpLoop s budget { st with net := net, render := render }
          | (false, net) => { st with net := net, render := renderPushback b render }

/-- `tx_pump`. -/
def txPump (s : Screen) (st : Server n) : Server n := txPumpLoop s TX_BUDGET st

/-- The loop over new connections.  Every turn clears one `just_estab` bit, so `n` turns
are enough. -/
def beginLoop (now : BitVec 32) : Nat → Server n → Server n
  | 0, st => st
  | fuel + 1, st =>
      match netTakeNewSlot st.net with
      | (none, net) => { st with net := net }
      | (some i, net) => beginLoop now fuel (telnetBegin now { st with net := net } i)

/-- The inner loop over the received bytes of one slot.  The ring holds less than
`RCV_SZ` bytes and nothing is received meanwhile. -/
def rxLoop (now : BitVec 32) (i : Fin n) : Nat → Server n → Server n
  | 0, st => st
  | fuel + 1, st =>
      match netRxGetc st.net i with
      | (none, net) => { st with net := net }
      | (some b, net) => rxLoop now i fuel (telnetIn now { st with net := net } i b)

/-- `net_tick`. -/
def netTick (pkt : Option (List UInt8)) (s : Screen) (st : Server n) : Server n :=
  let now := s.ticks
  let st := { st with net := netPoll now pkt st.net }
  let st := beginLoop now (n + 1) st
  let st := (List.finRange n).foldl (fun st i => rxLoop now i RCV_SZ st) st
  if netConnected st.net then
    let st := txPump s st
    { st with net := netTxFlush now st.net }
  else st

/-- The server when it goes resident in network mode: `net_open`, the password and the
flag of the command line, and a reset renderer. -/
def serverInit (gMac gIp : List UInt8) (myPort : Nat) (pw : List UInt8) (eofExit : Bool)
    (render : Render) : Server n where
  net := netOpen gMac gIp myPort
  slots := fun _ => TelSlot.init
  password := telnetSetPassword pw
  eofExit := eofExit
  key := AnsiKey.init
  render := render
  auths := []

end Dossh
