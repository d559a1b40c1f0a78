import Dossh.Ssh.Wire

/-!
# Key exchange

The negotiation of algorithms, the exchange hash and the handlers up to the client's
`NEWKEYS`.
-/

namespace Dossh

def SERVER_ID : String := "SSH-2.0-DOSSH_0.9"
def SERVER_ID_CRLF : String := "SSH-2.0-DOSSH_0.9\r\n"

/-! ## Name lists -/

/-- The loop of `nl_has` with `rem` bytes left, at index `i` of a name that began at
`start`: whether the name is there, and how many bytes of the list were read. -/
def nlScan (list : Nat → UInt8) (name : List UInt8) : Nat → Nat → Nat → Bool × Nat
  | 0, i, start => (slice list start (i - start) = name, i)
  | rem + 1, i, start =>
      if list i = 0x2C then
        if slice list start (i - start) = name then (true, i + 1)
        else nlScan list name rem (i + 1) (i + 1)
      else nlScan list name rem (i + 1) start

/-- `nl_has`. -/
def Payload.nlHas (l : Payload) (name : String) : Bool := (nlScan l.get (ascii name) l.len 0 0).1

/-- The bytes `nl_has` reads. -/
def Ssh.readNlHas (s : Ssh) (l : Payload) (name : String) : Ssh :=
  s.read l 0 (nlScan l.get (ascii name) l.len 0 0).2

/-- The loop of `nl_first`: the length of the first name. -/
def nlFirstLen (list : Nat → UInt8) : Nat → Nat → Nat
  | 0, i => i
  | rem + 1, i => if list i = 0x2C then i else nlFirstLen list rem (i + 1)

/-- `nl_first`. -/
def Payload.nlFirst (l : Payload) : Payload := l.sub 0 (nlFirstLen l.get l.len 0)

/-- The bytes `nl_first` reads: the name and the comma behind it. -/
def Ssh.readNlFirst (s : Ssh) (l : Payload) : Ssh := s.read l 0 (min (l.nlFirst.len + 1) l.len)

/-- `tok_eq`. -/
def Payload.tokEq (t : Payload) (name : String) : Bool := t.bytes = ascii name

/-! ## KEXINIT -/

/-- `build_our_kexinit`: the payload from a cookie. -/
def ourKexinit (cookie : List UInt8) : List UInt8 :=
  [MSG_KEXINIT] ++ cookie ++
    putNl "curve25519-sha256,curve25519-sha256@libssh.org" ++ putNl "ssh-ed25519" ++
    putNl "chacha20-poly1305@openssh.com" ++ putNl "chacha20-poly1305@openssh.com" ++
    putNl "none" ++ putNl "none" ++ putNl "none" ++ putNl "none" ++ putNl "" ++ putNl "" ++
    [0, 0, 0, 0, 0]

/-- The loop of `negotiate` over `k` more name lists from offset `off` on: the ranges it
reads, and the lists with the offset behind them. -/
def negLists (env : SshEnv) (pl : Payload) :
    Nat → Nat → List (Nat × Nat) × Option (List Payload × Nat)
  | 0, off => ([], some ([], off))
  | k + 1, off =>
      if env.u (off + 4) > pl.len then ([], none)
      else
        let l := env.u (pl.u32 off)
        let body := env.u (off + 4)
        if env.u (body + l) > pl.len then ([(pl.base + off, 4)], none)
        else
          let r := negLists env pl k (env.u (body + l))
          ((pl.base + off, 4) :: r.1, r.2.map fun q => (pl.sub body l :: q.1, q.2))

/-- The results -1, -2 and 0 of `negotiate`. -/
inductive NegRes where
  | malformed
  | noCommon
  | ok
deriving DecidableEq, Repr

/-- The second half of `negotiate`: `first` is the guess flag, and the lists are those of
key exchange, host key and the two ciphers. -/
def negCheck (s : Ssh) (first : UInt8) (kex hk enc1 enc2 : Payload) : NegRes × Ssh :=
  let s := s.readNlHas kex "curve25519-sha256"
  let s := if kex.nlHas "curve25519-sha256" then s
    else s.readNlHas kex "curve25519-sha256@libssh.org"
  if !(kex.nlHas "curve25519-sha256" || kex.nlHas "curve25519-sha256@libssh.org") then
    (.noCommon, s)
  else
    let s := s.readNlHas hk "ssh-ed25519"
    if !hk.nlHas "ssh-ed25519" then (.noCommon, s)
    else
      let s := s.readNlHas enc1 "chacha20-poly1305@openssh.com"
      if !enc1.nlHas "chacha20-poly1305@openssh.com" then (.noCommon, s)
      else
        let s := s.readNlHas enc2 "chacha20-poly1305@openssh.com"
        if !enc2.nlHas "chacha20-poly1305@openssh.com" then (.noCommon, s)
        else
          let s := (s.readNlFirst kex).readNlFirst hk
          let kexOk := kex.nlFirst.tokEq "curve25519-sha256" ||
            kex.nlFirst.tokEq "curve25519-sha256@libssh.org"
          let hkOk := hk.nlFirst.tokEq "ssh-ed25519"
          (.ok, { s with c := { s.c with discardNext := first ≠ 0 && !(kexOk && hkOk) } })

/-- `negotiate`. -/
def negotiate (env : SshEnv) (s : Ssh) (pl : Payload) : NegRes × Ssh :=
  let r := negLists env pl 10 17
  let s := { s with reads := r.1 ++ s.reads }
  match r.2 with
  | none => (.malformed, s)
  | some (lists, off) =>
      if env.u (off + 1) > pl.len then (.malformed, s)
      else
        let s := s.read pl off 1
        let s := { s with c := { s.c with cliFirstFollows := pl.get off } }
        let list := fun k => lists.getD k (pl.sub 0 0)
        negCheck s (pl.get off) (list 0) (list 1) (list 2) (list 3)

/-- `handle_kexinit`. -/
def handleKexinit (env : SshEnv) (s : Ssh) (pl : Payload) : Ssh :=
  match negotiate env s pl with
  | (.malformed, s) => s.fail "malformed KEXINIT"
  | (.noCommon, s) => s.fail "no common algorithm"
  | (.ok, s) =>
      let s := s.readAll pl
      { s with c := { s.c with
        hctx := putStr s.c.cliVer ++ putNl SERVER_ID ++ putStr pl.bytes ++ putStr s.c.iS
        state := .expectEcdhInit } }

/-! ## Keys -/

/-- `build_kmpint`: the shared secret as an mpint. -/
def buildKmpint (raw : List UInt8) : List UInt8 :=
  match raw.dropWhile (· = 0) with
  | [] => be32 0
  | b :: v => if b &&& 0x80 ≠ 0 then putStr (0 :: b :: v) else putStr (b :: v)

/-- `build_ks_blob`. -/
def buildKsBlob (env : SshEnv) : List UInt8 := putNl "ssh-ed25519" ++ putStr env.hostkeyPk

/-- The loop of `derive_key`: extend `out` to `outlen` bytes. -/
def deriveLoop (cr : Crypto) (k h : List UInt8) (outlen : Nat) : Nat → List UInt8 → List UInt8
  | 0, out => out
  | fuel + 1, out =>
      if out.length < outlen then
        deriveLoop cr k h outlen fuel
          (out ++ (cr.sha256 (k ++ h ++ out)).take (outlen - out.length))
      else out

/-- `derive_key`.  Every turn of the loop adds up to 32 bytes. -/
def deriveKey (cr : Crypto) (k h sessionId : List UInt8) (letter : UInt8) (outlen : Nat) :
    List UInt8 :=
  deriveLoop cr k h outlen outlen ((cr.sha256 (k ++ h ++ [letter] ++ sessionId)).take outlen)

/-! ## Handlers -/

/-- `handle_ecdh_init` once the shared secret is known to be good. -/
def ecdhReply (env : SshEnv) (s : Ssh) (qC qS raw : List UInt8) : Ssh :=
  let cr := env.crypto
  let k := buildKmpint raw
  let ks := buildKsBlob env
  let hctx := s.c.hctx ++ putStr ks ++ putStr qC ++ putStr qS ++ k
  let h := cr.sha256 hctx
  let s := { s with
    g := { s.g with kmpint := k, hash := h }
    c := { s.c with
      hctx := hctx, sessionId := if s.c.haveSessionId then s.c.sessionId else h
      haveSessionId := true } }
  let sigblob := putNl "ssh-ed25519" ++ putStr (cr.ed25519Sign env.hostkeySk h)
  let s := s.sendPacket env ([MSG_KEX_ECDH_REPLY] ++ putStr ks ++ putStr qS ++ putStr sigblob)
  let s := { s with c := { s.c with
    ekC2s := deriveKey cr k h s.c.sessionId 0x43 64
    ekS2c := deriveKey cr k h s.c.sessionId 0x44 64
    keysReady := true } }
  let s := s.sendPacket env [MSG_NEWKEYS]
  { s with c := { s.c with sendEncrypted := true, state := .expectClientNewkeys } }

/-- `handle_ecdh_init`. -/
def handleEcdhInit (env : SshEnv) (s : Ssh) (pl : Payload) : Ssh :=
  if s.c.discardNext then { s with c := { s.c with discardNext := false } }
  else if pl.len < 5 then s.fail "short KEX_ECDH_INIT"
  else
    let qlen := env.u (pl.u32 1)
    let s := s.read pl 1 4
    if qlen ≠ 32 ∨ env.u (1 + 4 + qlen) > pl.len then s.fail "bad Q_C"
    else
      let qC := (pl.sub 5 32).bytes
      let s := s.read pl 5 32
      let ephSk := env.rngBytes s.g.rngPos 32
      let s := s.rngSkip 32
      let raw := env.crypto.x25519 ephSk qC
      if raw.all (· = 0) then s.fail "degenerate shared secret"
      else ecdhReply env s qC (env.crypto.x25519PublicKey ephSk) raw

/-- `handle_client_newkeys`. -/
def handleClientNewkeys (s : Ssh) : Ssh :=
  { s with c := { s.c with recvEncrypted := true, state := .expectServiceRequest } }

/-- `handle_service_request`. -/
def handleServiceRequest (env : SshEnv) (s : Ssh) (pl : Payload) : Ssh :=
  if pl.len < 5 then s.fail "short SERVICE_REQUEST"
  else
    let slen := env.u (pl.u32 1)
    let s := s.read pl 1 4
    if env.u (1 + 4 + slen) > pl.len ∨ slen ≥ 64 then s.fail "bad service name"
    else
      let name := (pl.sub 5 slen).bytes
      let s := s.read pl 5 slen
      let s := { s with c := { s.c with svcName := name, done := true } }
      let s := s.sendPacket env ([MSG_SERVICE_ACCEPT] ++ putStr name)
      { s with c := { s.c with state := .auth } }

end Dossh
