import Dossh.Ssh.Wire

/-!
# User authentication

The handlers of `USERAUTH_REQUEST` (RFC 4252): `password`, and `publickey` with its probe
and its signed form.
-/

namespace Dossh

/-! ## Replies -/

/-- `send_userauth_failure`. -/
def sendUserauthFailure (env : SshEnv) (s : Ssh) : Ssh :=
  let methods := match env.authkeys.isEmpty, env.havePassword with
    | false, true => "publickey,password"
    | false, false => "publickey"
    | true, _ => "password"
  s.sendPacket env ([MSG_USERAUTH_FAILURE] ++ putNl methods ++ [0])

/-- `send_userauth_success`. -/
def sendUserauthSuccess (env : SshEnv) (s : Ssh) : Ssh :=
  let s := s.sendPacket env [MSG_USERAUTH_SUCCESS]
  { s with c := { s.c with authenticated := true, state := .session } }

/-- `send_disconnect`. -/
def sendDisconnect (env : SshEnv) (s : Ssh) (reason : Nat) (desc : String) : Ssh :=
  let s := s.sendPacket env ([MSG_DISCONNECT] ++ be32 reason ++ putNl desc ++ putNl "")
  { s with c := { s.c with state := .closed } }

/-- `auth_reject`. -/
def authReject (env : SshEnv) (s : Ssh) (countIt : Bool) : Ssh :=
  let s := if countIt then { s with c := { s.c with authFails := env.u (s.c.authFails + 1) } }
    else s
  if s.c.authFails ≥ SSH_MAX_AUTH_TRIES then
    sendDisconnect env s DISCONNECT_NO_MORE_AUTH "too many authentication failures"
  else sendUserauthFailure env s

/-! ## Keys and signatures -/

/-- `ed25519_key_from_blob` and `ed25519_sig_from_blob`, which differ in the length: the
string behind the algorithm name. -/
def ed25519FromBlob (blob : Payload) (len : Nat) : Option Payload :=
  match rdString blob 0 with
  | none => none
  | some (name, o) =>
      if name.bytes ≠ ascii "ssh-ed25519" then none
      else
        match rdString blob o with
        | none => none
        | some (x, _) => if x.len ≠ len then none else some x

def ed25519KeyFromBlob (blob : Payload) : Option Payload := ed25519FromBlob blob 32

def ed25519SigFromBlob (blob : Payload) : Option Payload := ed25519FromBlob blob 64

/-- The ranges that reading a blob reads. -/
def Ssh.readBlob (s : Ssh) (blob : Payload) : Ssh :=
  let s := s.readString blob 0
  match rdString blob 0 with
  | none => s
  | some (name, o) =>
      if name.len ≠ 11 then s
      else
        let s := s.readAll name
        if name.bytes ≠ ascii "ssh-ed25519" then s else s.readString blob o

/-- `authkey_is_authorized`. -/
def authkeyIsAuthorized (env : SshEnv) (key : List UInt8) : Bool := env.authkeys.contains key

/-- `send_pk_ok`. -/
def sendPkOk (env : SshEnv) (s : Ssh) (algo blob : Payload) : Ssh :=
  if env.u (1 + 4 + algo.len + 4 + blob.len) > 128 then authReject env s true
  else
    let s := (s.readAll algo).readAll blob
    s.sendPacket env ([MSG_USERAUTH_PK_OK] ++ putStr algo.bytes ++ putStr blob.bytes)

/-- What a publickey signature is computed over (RFC 4252 sec 7). -/
def pkSignedData (sessionId user service algo blob : List UInt8) : List UInt8 :=
  putStr sessionId ++ [MSG_USERAUTH_REQUEST] ++ putStr user ++ putStr service ++
    putNl "publickey" ++ [1] ++ putStr algo ++ putStr blob

/-- `build_pk_signed_data`; `none` when it would not fit `g_scratch`. -/
def buildPkSignedData (env : SshEnv) (sessionId : List UInt8) (user service algo blob : Payload) :
    Option (List UInt8) :=
  let need := (4 + 32) + 1 + (4 + user.len) + (4 + service.len) + (4 + 9) + 1 + (4 + algo.len) +
    (4 + blob.len)
  if env.u need > SSH_IB_SZ + 128 then none
  else some (pkSignedData sessionId user.bytes service.bytes algo.bytes blob.bytes)

/-! ## Requests -/

/-- `handle_pubkey_auth` with a signature: everything behind the key blob. -/
def handlePubkeySigned (env : SshEnv) (s : Ssh) (pl : Payload) (o : Nat)
    (user service algo blob key : Payload) : Ssh :=
  let s := s.readString pl o
  match rdString pl o with
  | none => authReject env s true
  | some (sigblob, _) =>
      let s := s.readBlob sigblob
      match ed25519SigFromBlob sigblob with
      | none => authReject env s true
      | some rawsig =>
          if !authkeyIsAuthorized env key.bytes then authReject env s true
          else
            match buildPkSignedData env s.c.sessionId user service algo blob with
            | none => authReject env s true
            | some data =>
                let s := ((((s.readAll user).readAll service).readAll algo).readAll blob)
                let s := (s.readAll rawsig).readAll key
                if env.crypto.ed25519Verify rawsig.bytes key.bytes data then
                  sendUserauthSuccess env s
                else authReject env s true

/-- `handle_pubkey_auth`. -/
def handlePubkeyAuth (env : SshEnv) (s : Ssh) (pl : Payload) (o : Nat) (user service : Payload) :
    Ssh :=
  if env.u (o + 1) > pl.len then authReject env s true
  else
    let haveSig := pl.get o
    let s := s.read pl o 1
    let o := o + 1
    let s := s.readString pl o
    match rdString pl o with
    | none => authReject env s true
    | some (algo, o) =>
        let s := s.readString pl o
        match rdString pl o with
        | none => authReject env s true
        | some (blob, o) =>
            let s := if algo.len = 11 then s.readAll algo else s
            if algo.bytes ≠ ascii "ssh-ed25519" then authReject env s true
            else
              let s := s.readBlob blob
              match ed25519KeyFromBlob blob with
              | none => authReject env s true
              | some key =>
                  let s := if env.authkeys.isEmpty then s else s.readAll key
                  if haveSig = 0 then
                    if !authkeyIsAuthorized env key.bytes then authReject env s true
                    else sendPkOk env s algo blob
                  else handlePubkeySigned env s pl o user service algo blob key

/-- The `password` branch of `handle_userauth_request`. -/
def handlePasswordAuth (env : SshEnv) (s : Ssh) (pl : Payload) (o : Nat) : Ssh :=
  if env.u (o + 1) > pl.len then authReject env s true
  else
    let change := pl.get o
    let s := s.read pl o 1
    if change ≠ 0 then authReject env s true
    else
      let s := s.readString pl (o + 1)
      match rdString pl (o + 1) with
      | none => authReject env s true
      | some (pw, _) =>
          let s := if pw.len = env.password.length then s.readAll pw else s
          if pw.bytes = env.password then sendUserauthSuccess env s else authReject env s true

/-- A method name is compared with a literal of the same length only. -/
def Ssh.readMethod (s : Ssh) (method : Payload) (n : Nat) : Ssh :=
  if method.len = n then s.readAll method else s

/-- `handle_userauth_request`, from the method on. -/
def userauthMethod (env : SshEnv) (s : Ssh) (pl : Payload) (o : Nat)
    (user service method : Payload) : Ssh :=
  -- an open box admits the first attempt of any method
  if !env.havePassword && env.authkeys.isEmpty then sendUserauthSuccess env s
  else
    let s := s.readMethod method 9
    if method.bytes = ascii "publickey" then
      if env.authkeys.isEmpty then authReject env s true
      else handlePubkeyAuth env s pl o user service
    else
      let s := if env.havePassword then s.readMethod method 8 else s
      if env.havePassword && method.bytes = ascii "password" then handlePasswordAuth env s pl o
      else
        let s := s.readMethod method 4
        -- "none" asks for the method list and is not counted
        authReject env s (method.bytes ≠ ascii "none")

/-- `handle_userauth_request`. -/
def handleUserauthRequest (env : SshEnv) (s : Ssh) (pl : Payload) : Ssh :=
  let s := s.readString pl 1
  match rdString pl 1 with
  | none => s.fail "short USERAUTH_REQUEST"
  | some (user, o) =>
      let s := s.readString pl o
      match rdString pl o with
      | none => s.fail "bad USERAUTH_REQUEST"
      | some (service, o) =>
          let s := s.readString pl o
          match rdString pl o with
          | none => s.fail "bad USERAUTH_REQUEST"
          | some (method, o) =>
              let k := if user.len < 63 then user.len else 63
              let s := s.read user 0 k
              let s := { s with c := { s.c with authUser := (user.sub 0 k).bytes } }
              userauthMethod env s pl o user service method

end Dossh
