import Dossh.Machine

/-!
# The state of the SSH server

`ssh.c` keeps one `ssh_conn` per client and one copy of everything transient, shared by
all clients.  `Ssh` is what one call works on: the connection and the shared part.

`ssh.c` is built for two widths of `unsigned`.  Sums and conversions that the width can
change are reduced by `SshEnv.u`.  The crypto library and the random generator are
parameters: their results have the documented lengths and are arbitrary otherwise.

Three things are added to the state of the source and read only by statements.  A
connection keeps a history of what was dispatched, framed and typed on it, newest first
(`SshConn.trace`).  A call records which parts of the payload it read (`Ssh.reads`).  And
`SshShared.overflow` is set when `ob_append` drops bytes.

The buffers of the source that are filled from the front are lists: `ib`, `g_ob`, `g_cout`
and, as a queue, the ring `g_cin`.  What lies in memory behind the filled part of `ib` is
given to each step from outside.
-/

namespace Dossh

/-! ## Constants -/

def SSH_IB_SZ : Nat := 2048
def SSH_OB_SZ : Nat := 2048
def SSH_CIN_SZ : Nat := 256
def SSH_COUT_SZ : Nat := 512
def SSH_CHAN_CHUNK : Nat := 200
def SSH_LOCAL_WINDOW : Nat := 32768
def SSH_CHAN_MAXPKT : Nat := 1024
def SSH_MAX_AUTH_TRIES : Nat := 3
def SSH_ENC_MAX_PLEN : Nat := 247

def MSG_DISCONNECT : UInt8 := 1
def MSG_IGNORE : UInt8 := 2
def MSG_UNIMPLEMENTED : UInt8 := 3
def MSG_DEBUG : UInt8 := 4
def MSG_SERVICE_REQUEST : UInt8 := 5
def MSG_SERVICE_ACCEPT : UInt8 := 6
def MSG_KEXINIT : UInt8 := 20
def MSG_NEWKEYS : UInt8 := 21
def MSG_KEX_ECDH_INIT : UInt8 := 30
def MSG_KEX_ECDH_REPLY : UInt8 := 31
def MSG_USERAUTH_REQUEST : UInt8 := 50
def MSG_USERAUTH_FAILURE : UInt8 := 51
def MSG_USERAUTH_SUCCESS : UInt8 := 52
def MSG_USERAUTH_PK_OK : UInt8 := 60
def MSG_GLOBAL_REQUEST : UInt8 := 80
def MSG_REQUEST_FAILURE : UInt8 := 82
def MSG_CHANNEL_OPEN : UInt8 := 90
def MSG_CHANNEL_OPEN_CONFIRMATION : UInt8 := 91
def MSG_CHANNEL_OPEN_FAILURE : UInt8 := 92
def MSG_CHANNEL_WINDOW_ADJUST : UInt8 := 93
def MSG_CHANNEL_DATA : UInt8 := 94
def MSG_CHANNEL_EOF : UInt8 := 96
def MSG_CHANNEL_CLOSE : UInt8 := 97
def MSG_CHANNEL_REQUEST : UInt8 := 98
def MSG_CHANNEL_SUCCESS : UInt8 := 99
def MSG_CHANNEL_FAILURE : UInt8 := 100

def DISCONNECT_NO_MORE_AUTH : Nat := 14
def OPEN_ADMINISTRATIVELY_PROHIBITED : Nat := 1
def OPEN_UNKNOWN_CHANNEL_TYPE : Nat := 3

/-! ## What the code is built with -/

/-- The two builds of `ssh.c`. -/
inductive Build where
  | dos
  | native
deriving DecidableEq, Repr

/-- The number of values of `unsigned`. -/
def Build.size : Build → Nat
  | .dos => 65536
  | .native => 4294967296

/-- The crypto library.  `chacha20 key nonce ctr` is the key stream byte by byte. -/
structure Crypto where
  chacha20 : List UInt8 → List UInt8 → Nat → Nat → UInt8
  poly1305 : List UInt8 → List UInt8 → List UInt8
  sha256 : List UInt8 → List UInt8
  x25519PublicKey : List UInt8 → List UInt8
  x25519 : List UInt8 → List UInt8 → List UInt8
  ed25519Sign : List UInt8 → List UInt8 → List UInt8
  ed25519Verify : List UInt8 → List UInt8 → List UInt8 → Bool
  length_poly1305 : ∀ m k, (poly1305 m k).length = 16
  length_sha256 : ∀ m, (sha256 m).length = 32
  length_x25519PublicKey : ∀ sk, (x25519PublicKey sk).length = 32
  length_x25519 : ∀ sk pk, (x25519 sk pk).length = 32
  length_ed25519Sign : ∀ sk m, (ed25519Sign sk m).length = 64

/-- What is the same for every connection: the build, the library, the bytes the random
generator delivers, and the configuration.  `password` is `g_password` up to its NUL. -/
structure SshEnv where
  build : Build
  crypto : Crypto
  rng : Nat → UInt8
  hostkeySk : List UInt8
  hostkeyPk : List UInt8
  password : List UInt8
  authkeys : List (List UInt8)

/-- A value reduced to `unsigned`. -/
def SshEnv.u (env : SshEnv) (x : Nat) : Nat := x % env.build.size

/-- `g_have_password`. -/
def SshEnv.havePassword (env : SshEnv) : Bool := !env.password.isEmpty

/-- The next `n` random bytes. -/
def SshEnv.rngBytes (env : SshEnv) (pos n : Nat) : List UInt8 := slice env.rng pos n

/-! ## Connections -/

/-- `SSH_ST_VERSION` and the following. -/
inductive SshState where
  | version
  | expectKexinit
  | expectEcdhInit
  | expectClientNewkeys
  | expectServiceRequest
  | auth
  | session
  | closed
  | error
deriving DecidableEq, Repr

/-- What happened on a connection. -/
inductive SshEvent where
  /-- `handle_packet` was called, in this state, for a packet with these wire bytes. -/
  | packet (state : SshState) (encrypted : Bool) (seq : BitVec 32)
      (sessionId wire payload : List UInt8)
  /-- The identification line was queued. -/
  | ident (line : List UInt8)
  /-- A packet was framed under this sequence number. -/
  | frame (encrypted : Bool) (seq : BitVec 32) (payload bytes : List UInt8)
  /-- A byte went into the keystroke ring. -/
  | key (b : UInt8)
deriving DecidableEq, Repr

/-- `ssh_conn`.  `hctx` is the part of the transcript hashed so far. -/
structure SshConn where
  state : SshState
  err : Bool
  errMsg : String
  done : Bool
  cliVer : List UInt8
  ib : List UInt8
  iS : List UInt8
  hctx : List UInt8
  sessionId : List UInt8
  haveSessionId : Bool
  ekC2s : List UInt8
  ekS2c : List UInt8
  keysReady : Bool
  recvEncrypted : Bool
  sendEncrypted : Bool
  sendSeq : BitVec 32
  recvSeq : BitVec 32
  cliFirstFollows : UInt8
  discardNext : Bool
  svcName : List UInt8
  authenticated : Bool
  authFails : Nat
  authUser : List UInt8
  chanOpen : Bool
  peerChan : Nat
  localChan : Nat
  peerWindow : Nat
  peerMaxpkt : Nat
  localWindow : Nat
  pty : Bool
  shellReady : Bool
  termCols : Nat
  termRows : Nat
  chanEof : Bool
  chanSentEof : Bool
  chanSentClose : Bool
  chanClosed : Bool
  trace : List SshEvent

/-- A connection after the `memset` of `ssh_reset`. -/
def SshConn.zero : SshConn where
  state := .version
  err := false
  errMsg := ""
  done := false
  cliVer := []
  ib := []
  iS := []
  hctx := []
  sessionId := List.replicate 32 0
  haveSessionId := false
  ekC2s := List.replicate 64 0
  ekS2c := List.replicate 64 0
  keysReady := false
  recvEncrypted := false
  sendEncrypted := false
  sendSeq := 0
  recvSeq := 0
  cliFirstFollows := 0
  discardNext := false
  svcName := []
  authenticated := false
  authFails := 0
  authUser := []
  chanOpen := false
  peerChan := 0
  localChan := 0
  peerWindow := 0
  peerMaxpkt := 0
  localWindow := 0
  pty := false
  shellReady := false
  termCols := 0
  termRows := 0
  chanEof := false
  chanSentEof := false
  chanSentClose := false
  chanClosed := false
  trace := []

/-- The shared transient part: `g_ob`, `g_cin`, `g_cout`, the values of the key exchange in
progress that outlive one function, and how far the random generator has been read. -/
structure SshShared where
  ob : List UInt8
  cin : List UInt8
  cout : List UInt8
  kmpint : List UInt8
  hash : List UInt8
  rngPos : Nat
  overflow : Bool

/-- The shared part as the loader leaves it. -/
def SshShared.zero : SshShared where
  ob := []
  cin := []
  cout := []
  kmpint := []
  hash := List.replicate 32 0
  rngPos := 0
  overflow := false

/-- One connection with the shared part, and the payload ranges read, as offset and
length. -/
structure Ssh where
  c : SshConn
  g : SshShared
  reads : List (Nat × Nat)

/-! ## Payloads -/

/-- A part of a packet's payload: where it starts and how long it is.  The bytes behind
it can be read too, as in the source. -/
structure Payload where
  mem : Nat → UInt8
  base : Nat
  len : Nat

namespace Payload

def get (p : Payload) (o : Nat) : UInt8 := p.mem (p.base + o)

/-- `rd_u32`. -/
def u32 (p : Payload) (o : Nat) : Nat := rd32 p.mem (p.base + o)

def sub (p : Payload) (o n : Nat) : Payload := ⟨p.mem, p.base + o, n⟩

def bytes (p : Payload) : List UInt8 := slice p.mem p.base p.len

/-- A payload in memory of its own. -/
def ofBytes (bytes : List UInt8) : Payload := ⟨fun k => bytes.getD k 0, 0, bytes.length⟩

end Payload

namespace Ssh

/-- Record that `n` bytes of the payload were read from offset `o` on. -/
def read (s : Ssh) (p : Payload) (o n : Nat) : Ssh :=
  { s with reads := (p.base + o, n) :: s.reads }

/-- Record an event. -/
def note (s : Ssh) (e : SshEvent) : Ssh := { s with c := { s.c with trace := e :: s.c.trace } }

/-- The random generator moves on. -/
def rngSkip (s : Ssh) (n : Nat) : Ssh := { s with g := { s.g with rngPos := s.g.rngPos + n } }

/-- `fail`: the first error is kept. -/
def fail (s : Ssh) (why : String) : Ssh :=
  if s.c.state ≠ .error then
    { s with c := { s.c with state := .error, err := true, errMsg := why } }
  else s

end Ssh

end Dossh
