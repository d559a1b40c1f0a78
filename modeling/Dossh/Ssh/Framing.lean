import Dossh.Ssh.Termination

/-!
# The length of an inbound packet

A packet starts with a 32-bit length, and `try_packet` should do what that number says: refuse
what does not fit into `ib`, wait for all of it, handle its payload and consume all of it.  The
code narrows the number to `unsigned` and adds to it before it checks it.  `LengthWraps` is the
case in which that lets a packet through whose length is too large.
-/

namespace Dossh

open Ssh

/-! ## What the length says -/

/-- The length field in full, decrypted with the header key once the client encrypts. -/
def SshConn.lengthField (env : SshEnv) (c : SshConn) : Nat :=
  if c.recvEncrypted then
    let lenbuf := env.crypto.djb (c.ib.take 4) (c.ekC2s.drop 32) (seqbuf8 c.recvSeq) 0
    rd32 (fun k => lenbuf.getD k 0) 0
  else rd32 (fun k => c.ib.getD k 0) 0

/-- The size of a frame with length field `len`. -/
def frameSize (encrypted : Bool) (len : Nat) : Nat := if encrypted then 4 + len + 16 else 4 + len

/-- A length that is to be accepted. -/
structure LengthOk (encrypted : Bool) (len : Nat) : Prop where
  pos : len ≠ 0
  fits : frameSize encrypted len ≤ SSH_IB_SZ
  block : encrypted = true → 8 ≤ len ∧ len % 8 = 0

/-- The connection with a packet of that length decrypted in place. -/
def SshConn.cleared (env : SshEnv) (c : SshConn) (len : Nat) : SshConn :=
  if c.recvEncrypted then
    { c with ib := c.ib.take 4 ++
        env.crypto.djb ((c.ib.drop 4).take len) (c.ekC2s.take 32) (seqbuf8 c.recvSeq) 1 ++
        c.ib.drop (4 + len) }
  else c

/-- The padding length of the packet. -/
def SshConn.padlen (env : SshEnv) (c : SshConn) (len : Nat) : Nat :=
  ((c.cleared env len).ib.getD 4 0).toNat

/-- Tag and padding of the packet are right. -/
structure SshConn.GoodFrame (env : SshEnv) (c : SshConn) (len : Nat) : Prop where
  tag : c.recvEncrypted = true → env.crypto.poly1305 (c.ib.take (4 + len))
    (env.crypto.polykey (c.ekC2s.take 32) (seqbuf8 c.recvSeq)) = (c.ib.drop (4 + len)).take 16
  pad : c.padlen env len + 1 ≤ len

/-- The connection is in `ERROR` and nothing was handled. -/
structure Refused (s : Ssh) (r : TryRes × Ssh) : Prop where
  res : r.1 = .failed
  state : r.2.c.state = .error
  trace : r.2.c.trace = s.c.trace

/-- The payload of the packet, inside its frame, was handled, and the frame consumed. -/
structure Taken (env : SshEnv) (s : Ssh) (len : Nat) (r : TryRes × Ssh) : Prop where
  handled : ∃ mem, r = (.progressed, ({ s with c := s.c.cleared env len }.dispatch env
    (s.c.ib.take (frameSize s.c.recvEncrypted len)) mem
      (len - 1 - s.c.padlen env len)).finish (frameSize s.c.recvEncrypted len)) ∧
    slice mem 0 (len - 1 - s.c.padlen env len) =
      ((s.c.cleared env len).ib.drop 5).take (len - 1 - s.c.padlen env len)
  inside : 5 + (len - 1 - s.c.padlen env len) ≤ frameSize s.c.recvEncrypted len
  consumed : r.2.c.ib = s.c.ib.drop (frameSize s.c.recvEncrypted len)

/-- `try_packet` does what the length field says. -/
structure FramedByLength (env : SshEnv) (beyond : Nat → UInt8) (s : Ssh) : Prop where
  refuses : 4 ≤ s.c.ib.length → ¬ LengthOk s.c.recvEncrypted (s.c.lengthField env) →
    Refused s (tryPacket env beyond s)
  waits : (s.c.ib.length < 4 ∨ LengthOk s.c.recvEncrypted (s.c.lengthField env) ∧
      s.c.ib.length < frameSize s.c.recvEncrypted (s.c.lengthField env)) →
    tryPacket env beyond s = (.needMore, s)
  rejects : LengthOk s.c.recvEncrypted (s.c.lengthField env) →
    frameSize s.c.recvEncrypted (s.c.lengthField env) ≤ s.c.ib.length →
    ¬ s.c.GoodFrame env (s.c.lengthField env) → Refused s (tryPacket env beyond s)
  takes : LengthOk s.c.recvEncrypted (s.c.lengthField env) →
    frameSize s.c.recvEncrypted (s.c.lengthField env) ≤ s.c.ib.length →
    s.c.GoodFrame env (s.c.lengthField env) →
    Taken env s (s.c.lengthField env) (tryPacket env beyond s)

/-! ## Where the code goes wrong -/

/-- The narrowed length of a plaintext packet passes the check, and its padding does too. -/
def SshConn.PlainPasses (env : SshEnv) (beyond : Nat → UInt8) (c : SshConn) : Prop :=
  let len := env.u (c.lengthField env)
  1 ≤ len ∧ env.u (len + 4) ≤ SSH_IB_SZ ∧
    (c.ib.length < env.u (4 + len) ∨ (c.mem beyond 4).toNat + 1 ≤ len)

/-- The narrowed length of an encrypted packet passes the check, and so do its tag and, where
the packet is decrypted inside `ib`, its padding. -/
def SshConn.SealedPasses (env : SshEnv) (beyond : Nat → UInt8) (c : SshConn) : Prop :=
  let len := env.u (c.lengthField env)
  8 ≤ len ∧ len % 8 = 0 ∧ env.u (4 + len + 16) ≤ SSH_IB_SZ ∧
    (c.ib.length < env.u (4 + len + 16) ∨
      c.encTag env beyond = slice (c.mem beyond) (env.u (4 + len)) 16 ∧
        (SSH_IB_SZ < 4 + len + 16 ∨ ((c.opened env).mem beyond 4).toNat + 1 ≤ len))

/-- The packet is too large, but its narrowed length gets it past the checks. -/
structure SshConn.LengthWraps (env : SshEnv) (beyond : Nat → UInt8) (c : SshConn) : Prop where
  header : 4 ≤ c.ib.length
  long : SSH_IB_SZ < frameSize c.recvEncrypted (c.lengthField env)
  passes : if c.recvEncrypted then c.SealedPasses env beyond else c.PlainPasses env beyond

section

variable {env : SshEnv} {s : Ssh}

/-- Without a header nothing happens, and no length has wrapped. -/
theorem framed_of_short (beyond : Nat → UInt8) (h : s.c.ib.length < 4) :
    FramedByLength env beyond s := by
  have hwait : tryPacket env beyond s = (.needMore, s) := by
    unfold tryPacket tryEncrypted tryPlain
    rw [if_pos h, if_pos h]
    split <;> rfl
  have hlarge : ∀ encrypted len, 4 ≤ frameSize encrypted len := by
    intro encrypted len
    unfold frameSize
    split <;> omega
  refine ⟨fun h4 => absurd h (by omega), fun _ => hwait, fun _ hfits => ?_, fun _ hfits => ?_⟩
  all_goals
    have := hlarge s.c.recvEncrypted (s.c.lengthField env)
    omega

/-- A length that must be refused. -/
theorem framed_of_bad {beyond : Nat → UInt8} (h4 : 4 ≤ s.c.ib.length)
    (hbad : ¬ LengthOk s.c.recvEncrypted (s.c.lengthField env)) :
    FramedByLength env beyond s ↔ Refused s (tryPacket env beyond s) := by
  refine ⟨fun h => h.refuses h4 hbad, fun h => ⟨fun _ _ => h, ?_, ?_, ?_⟩⟩
  · rintro (hshort | ⟨hok, -⟩)
    · omega
    · exact absurd hok hbad
  · exact fun hok => absurd hok hbad
  · exact fun hok => absurd hok hbad

theorem refused_fail {s₁ : Ssh} (htr : s₁.c.trace = s.c.trace) (why : String) :
    Refused s (.failed, s₁.fail why) := by
  refine ⟨rfl, ?_, ?_⟩
  all_goals
    unfold Ssh.fail
    split
  · rfl
  next hst => simpa using hst
  · exact htr
  · exact htr

/-! ## Plaintext -/

/-- The plaintext branch once a header is there. -/
theorem tryPacket_plain (hplain : s.c.recvEncrypted = false) (h4 : 4 ≤ s.c.ib.length)
    (beyond : Nat → UInt8) : tryPacket env beyond s =
      let len := env.u (s.c.lengthField env)
      if len < 1 ∨ env.u (len + 4) > SSH_IB_SZ then (.failed, s.fail "packet too large")
      else if s.c.ib.length < env.u (4 + len) then (.needMore, s)
      else if (s.c.mem beyond 4).toNat + 1 > len then (.failed, s.fail "bad padding")
      else (.progressed, (s.dispatch env (s.c.ib.take (env.u (4 + len)))
        (fun k => s.c.mem beyond (5 + k)) (len - 1 - (s.c.mem beyond 4).toNat)).finish
          (env.u (4 + len))) := by
  have hlen : env.u (rd32 (s.c.mem beyond) 0) = env.u (s.c.lengthField env) := by
    rw [SshConn.lengthField, hplain]
    exact plainLen_eq env s.c beyond h4
  rw [tryPacket, hplain, if_neg (by decide), tryPlain, if_neg (by omega)]
  dsimp only
  rw [hlen]

/-- Memory inside the filled part of the buffer is the buffer. -/
theorem SshConn.mem_lt (c : SshConn) (beyond : Nat → UInt8) {k : Nat} (h : k < c.ib.length) :
    c.mem beyond k = c.ib.getD k 0 := by
  simp [SshConn.mem, h]

theorem framed_plain_ok {beyond : Nat → UInt8} (hplain : s.c.recvEncrypted = false)
    (h4 : 4 ≤ s.c.ib.length) (hok : LengthOk false (s.c.lengthField env)) :
    FramedByLength env beyond s := by
  have htry := @tryPacket_plain env s hplain h4 beyond
  have hsz : SSH_IB_SZ = 2048 := rfl
  generalize hL : s.c.lengthField env = len at htry hok
  have hsize : frameSize s.c.recvEncrypted len = 4 + len := by rw [frameSize, hplain]; rfl
  have hclear : s.c.cleared env len = s.c := by rw [SshConn.cleared, hplain]; rfl
  have hpos := hok.pos
  have hfits : 4 + len ≤ SSH_IB_SZ := hok.fits
  -- nothing wraps
  have hu : env.u len = len := env.u_small (by omega)
  have hu₁ : env.u (len + 4) = len + 4 := env.u_small (by omega)
  have hu₂ : env.u (4 + len) = 4 + len := env.u_small (by omega)
  rw [hu] at htry
  dsimp only at htry
  rw [hu₁, hu₂, if_neg (by omega)] at htry
  have hpad : 4 + len ≤ s.c.ib.length → (s.c.mem beyond 4).toNat = s.c.padlen env len := by
    intro hfull
    rw [SshConn.padlen, hclear, s.c.mem_lt beyond (by omega)]
  constructor
  all_goals rw [hL]
  · intro _ hbad
    rw [hplain] at hbad
    exact absurd hok hbad
  · rintro (hshort | ⟨-, hshort⟩)
    · omega
    · rw [hsize] at hshort
      rw [htry, if_pos hshort]
  · intro _ hfull hbad
    rw [hsize] at hfull
    rw [htry, if_neg (by omega), if_pos]
    · exact refused_fail rfl _
    · by_contra hgood
      rw [hpad hfull] at hgood
      exact hbad ⟨fun henc => absurd (hplain.symm.trans henc) (by decide), by omega⟩
  · intro _ hfull hgood
    have hle := hgood.pad
    rw [hsize] at hfull
    rw [htry, if_neg (by omega), if_neg (by rw [hpad hfull]; omega)]
    refine ⟨⟨fun k => s.c.mem beyond (5 + k), ?_, ?_⟩, ?_, ?_⟩
    · rw [hsize, hclear, hpad hfull]
    · rw [hclear, slice_shift, slice_mem _ _ (by omega)]
    · rw [hsize]
      omega
    · rw [hsize]
      simp only [Ssh.finish, Ssh.ibConsume, dispatch_ib]

/-- With a length that is too large everything depends on the narrowed one. -/
theorem refused_plain_iff {beyond : Nat → UInt8} (hplain : s.c.recvEncrypted = false)
    (h4 : 4 ≤ s.c.ib.length) :
    Refused s (tryPacket env beyond s) ↔ ¬ s.c.PlainPasses env beyond := by
  rw [tryPacket_plain hplain h4, SshConn.PlainPasses]
  generalize env.u (s.c.lengthField env) = len
  dsimp only
  split
  next hlen => exact ⟨fun _ hpass => by omega, fun _ => refused_fail rfl _⟩
  next hlen =>
    split
    next hshort => exact ⟨fun h => absurd h.res nofun, fun h => absurd ⟨by omega, by omega, .inl hshort⟩ h⟩
    next hfull =>
      split
      next hpad =>
        refine ⟨fun _ hpass => ?_, fun _ => refused_fail rfl _⟩
        rcases hpass.2.2 with hshort | hle
        · omega
        · omega
      next hpad =>
        exact ⟨fun h => absurd h.res nofun,
          fun h => absurd ⟨by omega, by omega, .inr (by omega)⟩ h⟩

/-! ## Encrypted packets -/

theorem encLen_eq (hsealed : s.c.recvEncrypted = true) :
    s.c.encLen env = env.u (s.c.lengthField env) := by
  rw [SshConn.encLen, SshConn.lengthField, hsealed]
  rfl

/-- The encrypted branch once a header is there. -/
theorem tryPacket_sealed (hsealed : s.c.recvEncrypted = true) (h4 : 4 ≤ s.c.ib.length)
    (beyond : Nat → UInt8) : tryPacket env beyond s =
      let len := s.c.encLen env
      if len < 8 ∨ len % 8 ≠ 0 ∨ env.u (4 + len + 16) > SSH_IB_SZ then
        (.failed, s.fail "bad encrypted length")
      else if s.c.ib.length < env.u (4 + len + 16) then (.needMore, s)
      else if s.c.encTag env beyond ≠ slice (s.c.mem beyond) (env.u (4 + len)) 16 then
        (.failed, s.fail "MAC verification failed")
      else if 4 + len + 16 > SSH_IB_SZ then (.wild, s)
      else if ((s.c.opened env).mem beyond 4).toNat + 1 > len then
        (.failed, { s with c := s.c.opened env }.fail "bad padding")
      else (.progressed, ({ s with c := s.c.opened env }.dispatch env
        (s.c.ib.take (env.u (4 + len + 16))) (fun k => (s.c.opened env).mem beyond (5 + k))
          (len - 1 - ((s.c.opened env).mem beyond 4).toNat)).finish (env.u (4 + len + 16))) := by
  rw [tryPacket, hsealed, if_pos rfl, tryEncrypted, if_neg (by omega)]

/-- With a length that is too large everything depends on the narrowed one. -/
theorem refused_sealed_iff {beyond : Nat → UInt8} (hsealed : s.c.recvEncrypted = true)
    (h4 : 4 ≤ s.c.ib.length) :
    Refused s (tryPacket env beyond s) ↔ ¬ s.c.SealedPasses env beyond := by
  rw [tryPacket_sealed hsealed h4, SshConn.SealedPasses, ← encLen_eq hsealed]
  generalize s.c.encLen env = len
  dsimp only
  split
  next hlen =>
    refine ⟨fun _ hpass => ?_, fun _ => refused_fail rfl _⟩
    rcases hlen with hlen | hlen | hlen
    · omega
    · exact hlen hpass.2.1
    · omega
  next hlen =>
    rw [not_or, not_or, not_not] at hlen
    have hfield : 8 ≤ len ∧ len % 8 = 0 ∧ env.u (4 + len + 16) ≤ SSH_IB_SZ :=
      ⟨by omega, hlen.2.1, by omega⟩
    split
    next hshort =>
      exact ⟨fun h => absurd h.res nofun,
        fun h => absurd ⟨hfield.1, hfield.2.1, hfield.2.2, .inl hshort⟩ h⟩
    next hfull =>
      split
      next htag =>
        refine ⟨fun _ hpass => ?_, fun _ => refused_fail rfl _⟩
        exact hpass.2.2.2.elim hfull fun h => htag h.1
      next htag =>
        rw [not_not] at htag
        split
        next hwild =>
          exact ⟨fun h => absurd h.res nofun,
            fun h => absurd ⟨hfield.1, hfield.2.1, hfield.2.2, .inr ⟨htag, .inl hwild⟩⟩ h⟩
        next hfits =>
          split
          next hpad =>
            have htr : ({ s with c := s.c.opened env } : Ssh).c.trace = s.c.trace := rfl
            refine ⟨fun _ hpass => ?_, fun _ => refused_fail htr _⟩
            refine hpass.2.2.2.elim hfull fun h => ?_
            rcases h.2 with hwild | hle
            · exact hfits hwild
            · omega
          next hpad =>
            exact ⟨fun h => absurd h.res nofun, fun h =>
              absurd ⟨hfield.1, hfield.2.1, hfield.2.2, .inr ⟨htag, .inr (by omega)⟩⟩ h⟩

theorem framed_sealed_ok {beyond : Nat → UInt8} (hsealed : s.c.recvEncrypted = true)
    (h4 : 4 ≤ s.c.ib.length) (hok : LengthOk true (s.c.lengthField env)) :
    FramedByLength env beyond s := by
  have htry := @tryPacket_sealed env s hsealed h4 beyond
  have hsz : SSH_IB_SZ = 2048 := rfl
  have hlen := @encLen_eq env s hsealed
  generalize hL : s.c.lengthField env = len at hlen hok
  have hsize : frameSize s.c.recvEncrypted len = 4 + len + 16 := by
    rw [frameSize, hsealed]
    rfl
  have hfits : 4 + len + 16 ≤ SSH_IB_SZ := hok.fits
  obtain ⟨h8, hblock⟩ := hok.block rfl
  -- nothing wraps
  have hu : env.u len = len := env.u_small (by omega)
  have hu₁ : env.u (4 + len + 16) = 4 + len + 16 := env.u_small (by omega)
  have hu₂ : env.u (4 + len) = 4 + len := env.u_small (by omega)
  rw [hu] at hlen
  have hclear : s.c.cleared env len = s.c.opened env := by
    rw [SshConn.cleared, if_pos hsealed, SshConn.opened, SshConn.encBody, hlen]
  rw [hlen] at htry
  dsimp only at htry
  rw [hu₁, hu₂, if_neg (by omega)] at htry
  constructor
  all_goals rw [hL]
  · intro _ hbad
    rw [hsealed] at hbad
    exact absurd hok hbad
  · rintro (hshort | ⟨-, hshort⟩)
    · omega
    · rw [hsize] at hshort
      rw [htry, if_pos hshort]
  all_goals
    intro _ hfull
    rw [hsize] at hfull
    have htag : s.c.encTag env beyond = env.crypto.poly1305 (s.c.ib.take (4 + len))
        (env.crypto.polykey (s.c.ekC2s.take 32) (seqbuf8 s.c.recvSeq)) := by
      rw [SshConn.encTag, hlen, hu₂, slice_mem _ _ (by omega), List.drop_zero]
    have hlength : (s.c.opened env).ib.length = s.c.ib.length := by
      simp only [SshConn.opened, List.length_append, List.length_take, List.length_drop,
        length_encBody env s.c (by omega), hlen]
      omega
    have hpad : ((s.c.opened env).mem beyond 4).toNat = s.c.padlen env len := by
      rw [SshConn.padlen, hclear, (s.c.opened env).mem_lt beyond (by omega)]
    rw [if_neg (by omega), htag, slice_mem _ _ (by omega), if_neg (by omega : ¬ 4 + len + 16 > _),
      hpad] at htry
  · intro hbad
    rw [htry]
    split
    · exact refused_fail rfl _
    next htag =>
      have htr : ({ s with c := s.c.opened env } : Ssh).c.trace = s.c.trace := rfl
      rw [if_pos]
      · exact refused_fail htr _
      · by_contra hle
        exact hbad ⟨fun _ => not_not.mp htag, by omega⟩
  · intro hgood
    have hle := hgood.pad
    rw [htry, if_neg (not_not.mpr (hgood.tag hsealed)), if_neg (by omega)]
    refine ⟨⟨fun k => (s.c.opened env).mem beyond (5 + k), ?_, ?_⟩, ?_, ?_⟩
    · rw [hsize, hclear]
    · rw [hclear, slice_shift, slice_mem _ _ (by omega)]
    · rw [hsize]
      omega
    · rw [hsize]
      simp only [Ssh.finish, Ssh.ibConsume, dispatch_ib, SshConn.opened]
      have hfront : (s.c.ib.take 4 ++ s.c.encBody env).length = 4 + len := by
        rw [List.length_append, length_encBody env s.c (by omega), List.length_take, hlen]
        omega
      rw [List.drop_append, List.drop_eq_nil_of_le (by omega), List.nil_append, hfront, hlen,
        List.drop_drop]
      congr 1
      omega

/-! ## Both directions -/

/-- A length that wraps past the checks is not refused. -/
theorem SshConn.LengthWraps.not_framed {beyond : Nat → UInt8}
    (hwraps : s.c.LengthWraps env beyond) : ¬ FramedByLength env beyond s := by
  intro h
  have hlong := hwraps.long
  have hpass := hwraps.passes
  have hrefused := h.refuses hwraps.header fun hok => by
    have hfits := hok.fits
    omega
  cases henc : s.c.recvEncrypted with
  | false =>
      rw [henc] at hpass
      exact (refused_plain_iff henc hwraps.header).mp hrefused hpass
  | true =>
      rw [henc] at hpass
      exact (refused_sealed_iff henc hwraps.header).mp hrefused hpass

theorem framed_of_not_wraps {beyond : Nat → UInt8} (hno : ¬ s.c.LengthWraps env beyond) :
    FramedByLength env beyond s := by
  have hsz : SSH_IB_SZ = 2048 := rfl
  rcases Nat.lt_or_ge s.c.ib.length 4 with h4 | h4
  · exact framed_of_short beyond h4
  rcases Classical.em (LengthOk s.c.recvEncrypted (s.c.lengthField env)) with hok | hbad
  · cases henc : s.c.recvEncrypted with
    | false => exact framed_plain_ok henc h4 (henc ▸ hok)
    | true => exact framed_sealed_ok henc h4 (henc ▸ hok)
  -- the length is bad: if the code goes on it was too large
  refine (framed_of_bad h4 hbad).mpr ?_
  cases henc : s.c.recvEncrypted with
  | false =>
      refine (refused_plain_iff henc h4).mpr fun hpass => hno ⟨h4, ?_, by rw [henc]; exact hpass⟩
      by_contra hfits
      refine hbad ⟨fun h0 => ?_, by omega, fun h => absurd (henc.symm.trans h) (by decide)⟩
      have hpos := hpass.1
      rw [h0] at hpos
      simp [SshEnv.u] at hpos
  | true =>
      refine (refused_sealed_iff henc h4).mpr fun hpass => hno ⟨h4, ?_, by rw [henc]; exact hpass⟩
      by_contra hfits
      have hle : s.c.lengthField env < 65536 := by
        rw [henc, frameSize, if_pos rfl] at hfits
        omega
      have hfield := hpass.1
      have hblock := hpass.2.1
      rw [env.u_small hle] at hfield hblock
      exact hbad ⟨by omega, by omega, fun _ => ⟨hfield, hblock⟩⟩

/-- `try_packet` does what the length field says if and only if no length that is too large gets
past the checks by wrapping. -/
theorem try_packet_framed_iff (env : SshEnv) (beyond : Nat → UInt8) (s : Ssh) :
    FramedByLength env beyond s ↔ ¬ s.c.LengthWraps env beyond :=
  ⟨fun h hwraps => hwraps.not_framed h, framed_of_not_wraps⟩

/-- A length of 65544, which is 8 in 16 bits, and a packet of that size. -/
def narrowBytes : List UInt8 := [0, 1, 0, 8, 6, MSG_IGNORE, 0, 0, 0, 0, 0, 0]

/-- More bytes in the buffer, as `ssh_input` puts them there. -/
def Ssh.buffered (s : Ssh) (data : List UInt8) : Ssh :=
  { s with c := { s.c with ib := s.c.ib ++ data } }

theorem buffered_ib (hib : s.c.ib = []) (data : List UInt8) : (s.buffered data).c.ib = data := by
  rw [Ssh.buffered, hib, List.nil_append]

/-- A plaintext packet with known bytes whose length wraps. -/
theorem wraps_of_plain {env : SshEnv} {beyond : Nat → UInt8} {c : SshConn} {bytes : List UInt8}
    (hplain : c.recvEncrypted = false) (hib : c.ib = bytes) (h5 : 5 ≤ bytes.length)
    (hlong : SSH_IB_SZ < 4 + rd32 (fun k => bytes.getD k 0) 0)
    (hpass : 1 ≤ env.u (rd32 (fun k => bytes.getD k 0) 0) ∧
      env.u (env.u (rd32 (fun k => bytes.getD k 0) 0) + 4) ≤ SSH_IB_SZ ∧
      (bytes.getD 4 0).toNat + 1 ≤ env.u (rd32 (fun k => bytes.getD k 0) 0)) :
    c.LengthWraps env beyond := by
  have hfield : c.lengthField env = rd32 (fun k => bytes.getD k 0) 0 := by
    rw [SshConn.lengthField, hplain, hib]
    rfl
  have hmem : c.mem beyond 4 = bytes.getD 4 0 := by
    rw [c.mem_lt beyond (by rw [hib]; omega), hib]
  refine ⟨by rw [hib]; omega, ?_, ?_⟩
  · rw [hfield, hplain]
    exact hlong
  · rw [hplain, if_neg (by decide), SshConn.PlainPasses, hfield, hmem]
    exact ⟨hpass.1, hpass.2.1, .inr hpass.2.2⟩

/-- A client that has identified itself gets a packet through whose length, taken in full, is far
too large: with `unsigned` of 16 bits, and with one of 32. -/
theorem length_field_narrowed :
    (∃ s, SshReach sampleEnv s ∧ ∀ beyond,
      ¬ FramedByLength sampleEnv beyond (s.buffered narrowBytes)) ∧
    ∃ s, SshReach { sampleEnv with build := .native } s ∧ ∀ beyond,
      ¬ FramedByLength { sampleEnv with build := .native } beyond (s.buffered hangBytes) := by
  have hrun : ∀ build, ((sshRun { sampleEnv with build := build } (feed [greeting []])
      (sshReset { sampleEnv with build := build } SshShared.zero)).map
        fun s => (s.c.recvEncrypted, s.c.ib)) = some (false, []) := by
    intro build
    cases build <;> decide +kernel
  constructor
  · obtain ⟨s, hs, hc⟩ := Option.map_eq_some_iff.mp (hrun .dos)
    rw [Prod.mk.injEq] at hc
    refine ⟨s, ⟨_, _, hs⟩, fun beyond => SshConn.LengthWraps.not_framed ?_⟩
    refine wraps_of_plain hc.1 (buffered_ib hc.2 _) ?_ ?_ ?_
    all_goals decide
  · obtain ⟨s, hs, hc⟩ := Option.map_eq_some_iff.mp (hrun .native)
    rw [Prod.mk.injEq] at hc
    refine ⟨s, ⟨_, _, hs⟩, fun beyond => SshConn.LengthWraps.not_framed ?_⟩
    refine wraps_of_plain hc.1 (buffered_ib hc.2 _) ?_ ?_ ?_
    all_goals decide

end

end Dossh
