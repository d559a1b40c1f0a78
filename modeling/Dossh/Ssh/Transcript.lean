import Dossh.Crypto.Sha256
import Dossh.Ssh.Agreement

/-!
# The exchange hash

A connection does not keep what was said during its key exchange.  `handle_kexinit` hashes the
first four strings, `handle_ecdh_init` takes up the context where the other left it, and what
stands in `hctx` in the model is only what the context was fed.  With SHA-256 as the library's
hash, the session id is the digest that the two handlers compute together
(`exchange_hash_streams`).
-/

namespace Dossh

open Ssh

/-- `hash_str`. -/
def hashStr (h : Sha256Ctx) (s : List UInt8) : Sha256Ctx :=
  let h := sha256Update h (be32 s.length)
  if s.length = 0 then h else sha256Update h s

/-- What `handle_kexinit` does to `c->hctx`, in which `garbage` lies. -/
def kexinitHash (garbage : Nat → UInt8) (cliVer pl iS : List UInt8) : Sha256Ctx :=
  let h := sha256Init garbage
  let h := hashStr h cliVer
  let h := hashStr h (ascii SERVER_ID)
  let h := hashStr h pl
  hashStr h iS

/-- The digest that `handle_ecdh_init` makes of `c->hctx`. -/
def ecdhHash (h : Sha256Ctx) (ks qC qS kmpint : List UInt8) : List UInt8 :=
  let h := hashStr h ks
  let h := hashStr h qC
  let h := hashStr h qS
  sha256Final (sha256Update h kmpint)

theorem hashStr_fed {h : Sha256Ctx} {msg : List UInt8} (hf : h.Fed msg) (s : List UInt8) :
    (hashStr h s).Fed (msg ++ putStr s) := by
  have hlength := hf.update (be32 s.length)
  have hbody := hlength.update s
  rw [List.append_assoc] at hbody
  unfold hashStr
  dsimp only
  split
  next hnil =>
    rw [List.length_eq_zero_iff] at hnil
    subst hnil
    rw [putStr, List.append_nil]
    exact hlength
  next => exact hbody

theorem kexinitHash_fed (garbage : Nat → UInt8) (cliVer pl iS : List UInt8) :
    (kexinitHash garbage cliVer pl iS).Fed
      (putStr cliVer ++ putStr (ascii SERVER_ID) ++ putStr pl ++ putStr iS) := by
  have hempty := sha256Init_fed garbage
  have hcli := hashStr_fed hempty cliVer
  rw [List.nil_append] at hcli
  exact hashStr_fed (hashStr_fed (hashStr_fed hcli (ascii SERVER_ID)) pl) iS

/-- The two handlers hash the transcript. -/
theorem ecdhHash_eq (garbage : Nat → UInt8) (cliVer iC iS ks qC qS raw : List UInt8) :
    ecdhHash (kexinitHash garbage cliVer iC iS) ks qC qS (buildKmpint raw) =
      Sha2.hash (transcript cliVer (ascii SERVER_ID) iC iS ks qC qS (beNat raw)) := by
  have hkex := kexinitHash_fed garbage cliVer iC iS
  have hqS := hashStr_fed (hashStr_fed (hashStr_fed hkex ks) qC) qS
  rw [ecdhHash, sha256Final_eq (hqS.update (buildKmpint raw)), buildKmpint_eq, transcript]

/-- **The exchange hash.**  When the keys of a connection are there, its session id is the digest
of the context that `handle_kexinit` started and `handle_ecdh_init` finished: of `cli_ver`, which
is the client's identification line cut at 255 bytes, of the `KEXINIT` that was accepted and the one
that was sent first, and of the values of the exchange. -/
theorem exchange_hash_streams {env : SshEnv} {s : Ssh} (hreach : SshReach env s)
    (hsha : ∀ m, env.crypto.sha256 m = Sha2.hash m) (hready : s.c.keysReady = true) :
    ∃ iC iS init pos,
      FirstSent s.c.trace iS ∧ (handledIn .expectKexinit s.c.trace).head? = some iC ∧
      Negotiated env iC ∧ (handledIn .expectEcdhInit s.c.trace).head? = some init ∧
      ∀ garbage,
        s.c.sessionId = ecdhHash (kexinitHash garbage s.c.cliVer iC iS) (buildKsBlob env)
          ((init.drop 5).take 32) (env.crypto.x25519PublicKey (env.rngBytes pos 32))
          (buildKmpint (env.crypto.x25519 (env.rngBytes pos 32) ((init.drop 5).take 32))) := by
  obtain ⟨hash, iC, iS, init, pos, hfirst, hiC, hneg, hinit, -, -, hhash, hid, -, -⟩ :=
    hreach.kexInv.agreed hready
  refine ⟨iC, iS, init, pos, hfirst, hiC, hneg, hinit, fun garbage => ?_⟩
  rw [hid, hhash, hsha, ecdhHash_eq]

/-- The DOS box with SHA-256 as its hash. -/
def sha256Env : SshEnv :=
  { sampleEnv with crypto := { sampleCrypto with
      sha256 := Sha2.hash, length_sha256 := Sha2.length_hash } }

/-- A client that has exchanged keys. -/
theorem exchange_hash_streams_greeting : ∃ (s : Ssh) (iC iS init : List UInt8) (pos : Nat),
    FirstSent s.c.trace iS ∧ (handledIn .expectKexinit s.c.trace).head? = some iC ∧
    Negotiated sha256Env iC ∧ (handledIn .expectEcdhInit s.c.trace).head? = some init ∧
    ∀ garbage,
      s.c.sessionId = ecdhHash (kexinitHash garbage s.c.cliVer iC iS) (buildKsBlob sha256Env)
        ((init.drop 5).take 32) (sha256Env.crypto.x25519PublicKey (sha256Env.rngBytes pos 32))
        (buildKmpint (sha256Env.crypto.x25519 (sha256Env.rngBytes pos 32)
          ((init.drop 5).take 32))) := by
  have hrun : (sshRun sha256Env (feed [greeting sampleKex])
      (sshReset sha256Env SshShared.zero)).map (·.c.keysReady) = some true := by decide +kernel
  obtain ⟨s, hs, hready⟩ := Option.map_eq_some_iff.mp hrun
  have hreach : SshReach sha256Env s := ⟨_, _, hs⟩
  exact ⟨s, exchange_hash_streams hreach (fun _ => rfl) hready⟩

end Dossh
