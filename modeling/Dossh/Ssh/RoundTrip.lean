import Dossh.Lib.Frames
import Dossh.Ssh.Decode

/-!
# Frames are read back

What `send_unenc` and `aead_seal` put on the wire is what `try_packet` takes from it, in the
matching mode: the same payloads in the same order, however the stream is cut into chunks.

A frame in front of the buffer is decoded and consumed (`decode_frame`), and a proper part of
one is waited on (`decode_part`).  The rest is about streams of frames.
-/

namespace Dossh

open Ssh

/-! ## Frames -/

/-- A payload with the random bytes that pad it. -/
structure Msg where
  payload : List UInt8
  pad : List UInt8

/-- The wire bytes of `send_unenc`. -/
def unencFrame (payload pad : List UInt8) : List UInt8 :=
  be32 (1 + payload.length + pad.length) ++ [UInt8.ofNat pad.length] ++ payload ++ pad

/-- The frame of a message in one of the two modes. -/
def Msg.frame (cr : Crypto) (key : List UInt8) (encrypted : Bool) (seq : BitVec 32) (m : Msg) :
    List UInt8 :=
  if encrypted then sealFrame cr key seq m.payload m.pad else unencFrame m.payload m.pad

/-- What is padded: in plaintext mode the length field is part of it. -/
def Msg.padded (encrypted : Bool) (m : Msg) : Nat :=
  if encrypted then 1 + m.payload.length else 5 + m.payload.length

/-- The message can be sent: it has the padding the code chooses, and it is not too long. -/
structure Msg.Ok (encrypted : Bool) (m : Msg) : Prop where
  pad : m.pad.length = padLen (m.padded encrypted)
  sealed : encrypted = true → m.payload.length ≤ SSH_ENC_MAX_PLEN
  plain : encrypted = false → (unencFrame m.payload m.pad).length ≤ SSH_IB_SZ

/-- The frames of a list of messages under consecutive sequence numbers. -/
def frames (cr : Crypto) (key : List UInt8) (encrypted : Bool) :
    BitVec 32 → List Msg → List (List UInt8)
  | _, [] => []
  | seq, m :: msgs => m.frame cr key encrypted seq :: frames cr key encrypted (seq + 1) msgs

/-- The length field of a frame. -/
def Msg.len (m : Msg) : Nat := 1 + m.payload.length + m.pad.length

theorem padLen_spec (n : Nat) : 4 ≤ padLen n ∧ padLen n ≤ 11 ∧ (n + padLen n) % 8 = 0 := by
  unfold padLen
  split <;> omega

theorem length_djb (cr : Crypto) (data key nonce : List UInt8) (ctr : Nat) :
    (cr.djb data key nonce ctr).length = data.length := by
  simp [Crypto.djb]

/-- The key stream cancels. -/
theorem djb_djb (cr : Crypto) (data key nonce : List UInt8) (ctr : Nat) :
    cr.djb (cr.djb data key nonce ctr) key nonce ctr = data := by
  apply List.ext_getElem
  · simp [length_djb]
  · intro k h1 h2
    simp only [Crypto.djb, List.getElem_mapIdx]
    rw [UInt8.xor_assoc, UInt8.xor_self, UInt8.xor_zero]

theorem length_unencFrame (payload pad : List UInt8) :
    (unencFrame payload pad).length = 5 + payload.length + pad.length := by
  simp [unencFrame, length_be32]
  omega

theorem length_sealFrame (cr : Crypto) (key : List UInt8) (seq : BitVec 32)
    (payload pad : List UInt8) :
    (sealFrame cr key seq payload pad).length = 4 + (1 + payload.length + pad.length) + 16 := by
  simp [sealFrame, length_djb, length_be32, cr.length_poly1305]
  omega

/-- `send_unenc` queues a frame, if there is room for it. -/
theorem sendUnenc_fits (env : SshEnv) (s : Ssh) (payload : List UInt8) {pad : List UInt8}
    (hpad : pad = env.rngBytes s.g.rngPos (padLen (4 + 1 + payload.length)))
    (hroom : s.g.ob.length + 5 + payload.length + padLen (4 + 1 + payload.length) ≤ SSH_OB_SZ) :
    s.sendUnenc env payload = ({ s with g := { s.g with
      ob := s.g.ob ++ unencFrame payload pad, rngPos := s.g.rngPos + pad.length } } : Ssh).framed
        false payload (unencFrame payload pad) := by
  have hlen : pad.length = padLen (4 + 1 + payload.length) := by
    rw [hpad]
    exact length_slice _ _ _
  unfold sendUnenc
  dsimp only
  rw [← hpad, ← hlen]
  rw [← hlen] at hroom
  rw [obAppend_fits env s _ (by simp [length_be32]; omega),
    obAppend_fits env _ payload (by simp [length_be32]; omega),
    obAppend_fits env _ pad (by simp [length_be32, rngSkip]; omega)]
  simp [framed, rngSkip, unencFrame]

/-! ## One frame -/

section

variable {env : SshEnv} {beyond : Nat → UInt8} {c : SshConn} {m : Msg}

/-- Reading a word that was written. -/
theorem rd32_be32 {n : Nat} (hn : n < 4294967296) (p : Nat → UInt8)
    (hp : slice p 0 4 = be32 n) : rd32 p 0 = n := by
  have hlt : rd32 p 0 < 4294967296 := by
    have h0 := (p 0).toNat_lt
    have h1 := (p (0 + 1)).toNat_lt
    have h2 := (p (0 + 2)).toNat_lt
    have h3 := (p (0 + 3)).toNat_lt
    unfold rd32
    omega
  exact be32_inj hlt hn (by rw [be32_rd32, hp])

theorem Msg.Ok.pad_lt {encrypted : Bool} (h : m.Ok encrypted) :
    4 ≤ m.pad.length ∧ m.pad.length ≤ 11 := by
  have hspec := padLen_spec (m.padded encrypted)
  rw [h.pad]
  exact ⟨hspec.1, hspec.2.1⟩

/-- The length field of a buffer that begins with one. -/
theorem plainLen_of_head {n : Nat} (hn : n < 65536) (hx : 4 ≤ c.ib.length)
    (hib : c.ib.take 4 = be32 n) : env.u (rd32 (c.mem beyond) 0) = n := by
  have hs : slice (c.mem beyond) 0 4 = be32 n := by
    rw [slice_mem c beyond (by omega), List.drop_zero, hib]
  rw [rd32_be32 (by omega) _ hs, env.u_small hn]

theorem decodePlain_frame (hm : m.Ok false) {rest : List UInt8}
    (hib : c.ib = unencFrame m.payload m.pad ++ rest) :
    ∃ pl : Payload, decodePlain env beyond c =
      .packet c (unencFrame m.payload m.pad) pl (unencFrame m.payload m.pad).length ∧
      pl.bytes = m.payload := by
  have hsz : SSH_IB_SZ = 2048 := rfl
  have hlen := length_unencFrame m.payload m.pad
  have hmax := hm.plain rfl
  have hpad := hm.pad_lt
  have hib' : c.ib.length = 5 + m.payload.length + m.pad.length + rest.length := by
    rw [hib, List.length_append, hlen]
  have hfield : env.u (rd32 (c.mem beyond) 0) = 1 + m.payload.length + m.pad.length := by
    refine plainLen_of_head (by omega) (by omega) ?_
    rw [hib]
    simp [unencFrame, be32]
  have hpadlen : (c.mem beyond 4).toNat = m.pad.length := by
    simp only [SshConn.mem, hib, unencFrame, be32]
    simp
    omega
  have hbody : slice (c.mem beyond) 5 m.payload.length = m.payload := by
    rw [slice_mem c beyond (by omega), hib]
    simp [unencFrame, be32]
  unfold decodePlain
  rw [if_neg (by omega)]
  dsimp only
  rw [hfield, hpadlen, env.u_small (x := 1 + m.payload.length + m.pad.length + 4) (by omega),
    env.u_small (x := 4 + (1 + m.payload.length + m.pad.length)) (by omega), if_neg (by omega),
    if_neg (by omega), if_neg (by omega)]
  refine ⟨⟨fun k => c.mem beyond (5 + k), 0, m.payload.length⟩, ?_, ?_⟩
  · have hneed : 4 + (1 + m.payload.length + m.pad.length) =
        (unencFrame m.payload m.pad).length := by omega
    have hpl : 1 + m.payload.length + m.pad.length - 1 - m.pad.length = m.payload.length := by
      omega
    rw [hneed, hpl, hib, List.take_left]
  · rw [Payload.bytes]
    exact (slice_shift _ _ _).trans hbody

theorem decodePlain_part (hm : m.Ok false) {rest : List UInt8}
    (hib : c.ib ++ rest = unencFrame m.payload m.pad) (hrest : rest ≠ []) :
    decodePlain env beyond c = .needMore := by
  have hsz : SSH_IB_SZ = 2048 := rfl
  have hlen := length_unencFrame m.payload m.pad
  have hmax := hm.plain rfl
  have hpad := hm.pad_lt
  have hpos : 0 < rest.length := List.length_pos_iff.mpr hrest
  have hib' : c.ib.length + rest.length = 5 + m.payload.length + m.pad.length := by
    rw [← hlen, ← hib, List.length_append]
  unfold decodePlain
  rcases Nat.lt_or_ge c.ib.length 4 with h4 | h4
  · rw [if_pos h4]
  · have hfield : env.u (rd32 (c.mem beyond) 0) = 1 + m.payload.length + m.pad.length := by
      have htake : (c.ib ++ rest).take 4 = c.ib.take 4 := List.take_append_of_le_length h4
      refine plainLen_of_head (by omega) h4 ?_
      rw [← htake, hib]
      simp [unencFrame, be32]
    rw [if_neg (by omega)]
    dsimp only
    rw [hfield, env.u_small (x := 1 + m.payload.length + m.pad.length + 4) (by omega),
      env.u_small (x := 4 + (1 + m.payload.length + m.pad.length)) (by omega), if_neg (by omega),
      if_pos (by omega)]

/-- What is encrypted as the body of a packet. -/
def Msg.body (m : Msg) : List UInt8 := UInt8.ofNat m.pad.length :: (m.payload ++ m.pad)

theorem Msg.length_body (m : Msg) : m.body.length = 1 + m.payload.length + m.pad.length := by
  simp [Msg.body]
  omega

/-- A sealed frame in three pieces. -/
theorem sealFrame_eq (cr : Crypto) (key : List UInt8) (seq : BitVec 32) (m : Msg) :
    sealFrame cr key seq m.payload m.pad =
      cr.djb (be32 m.body.length) (key.drop 32) (seqbuf8 seq) 0 ++
      (cr.djb m.body (key.take 32) (seqbuf8 seq) 1 ++
      cr.poly1305 (cr.djb (be32 m.body.length) (key.drop 32) (seqbuf8 seq) 0 ++
          cr.djb m.body (key.take 32) (seqbuf8 seq) 1)
        (cr.polykey (key.take 32) (seqbuf8 seq))) := by
  rw [← List.append_assoc]
  rfl

/-- The decrypted length field of a buffer that begins with one. -/
theorem encLen_of_head {n : Nat} (hn : n < 65536) (hib : c.ib.take 4 =
    env.crypto.djb (be32 n) (c.ekC2s.drop 32) (seqbuf8 c.recvSeq) 0) : c.encLen env = n := by
  unfold SshConn.encLen
  dsimp only
  rw [hib, djb_djb, rd32_be32 (by omega) _ rfl, env.u_small hn]

/-- A sealed frame in front of the buffer is opened, whatever its padding. -/
theorem opened_frame (beyond : Nat → UInt8) (hpad : m.pad.length < 256) (hlen : m.len < 65536)
    {rest : List UInt8}
    (hib : c.ib = sealFrame env.crypto c.ekC2s c.recvSeq m.payload m.pad ++ rest) :
    c.encLen env = m.len ∧ ((c.opened env).mem beyond 4).toNat = m.pad.length ∧
      slice ((c.opened env).mem beyond) 5 m.payload.length = m.payload ∧
      (c.opened env).ib.drop (4 + m.len + 16) = rest := by
  have hbody : m.body.length = m.len := m.length_body
  rw [sealFrame_eq] at hib
  generalize hel : env.crypto.djb (be32 m.body.length) (c.ekC2s.drop 32) (seqbuf8 c.recvSeq) 0 = el
    at hib
  generalize heb : env.crypto.djb m.body (c.ekC2s.take 32) (seqbuf8 c.recvSeq) 1 = eb at hib
  generalize htag : env.crypto.poly1305 (el ++ eb) (env.crypto.polykey (c.ekC2s.take 32)
    (seqbuf8 c.recvSeq)) = tag at hib
  have hel4 : el.length = 4 := by rw [← hel, length_djb, length_be32]
  have heblen : eb.length = m.len := by rw [← heb, length_djb, hbody]
  have htag16 : tag.length = 16 := by rw [← htag, env.crypto.length_poly1305]
  have hfield : c.encLen env = m.len := by
    rw [hbody] at hel
    refine encLen_of_head hlen ?_
    rw [hib, hel, List.append_assoc, List.take_left' hel4]
  have hdrop : c.ib.drop (4 + m.len) = tag ++ rest := by
    rw [hib, ← List.append_assoc, List.append_assoc, List.drop_left' (by simp [hel4, heblen])]
  have hopen : c.encBody env = m.body := by
    have hslice : (c.ib.drop 4).take m.len = eb := by
      rw [hib, List.append_assoc, List.drop_left' hel4, List.append_assoc,
        List.take_left' heblen]
    rw [SshConn.encBody, hfield, hslice, ← heb, djb_djb]
  have hib' : (c.opened env).ib = el ++ (m.body ++ (tag ++ rest)) := by
    have hhead : c.ib.take 4 = el := by rw [hib, List.append_assoc, List.take_left' hel4]
    simp only [SshConn.opened, hfield, hopen, hdrop, hhead, List.append_assoc]
  refine ⟨hfield, ?_, ?_, ?_⟩
  · have hget : (c.opened env).mem beyond 4 = UInt8.ofNat m.pad.length := by
      unfold SshConn.mem
      rw [hib', List.getD_eq_getElem?_getD, List.getElem?_append_right (by omega), hel4]
      rfl
    rw [hget, UInt8.toNat_ofNat', Nat.mod_eq_of_lt hpad]
  · have h5 : (el ++ m.body).drop 5 = m.payload ++ m.pad := by
      rw [List.drop_append, hel4]
      simp [Msg.body, hel4]
    have hl : m.len = 1 + m.payload.length + m.pad.length := rfl
    rw [slice_mem _ beyond (by rw [hib']; simp [hel4, hbody]; omega), hib', ← List.append_assoc,
      List.drop_append_of_le_length (by simp [hel4]; omega), h5, List.append_assoc, List.take_left]
  · rw [hib', ← List.append_assoc, ← List.append_assoc,
      List.drop_left' (by simp [hel4, htag16, hbody]; omega)]

theorem decodeEncrypted_frame (hm : m.Ok true) {rest : List UInt8}
    (hib : c.ib = sealFrame env.crypto c.ekC2s c.recvSeq m.payload m.pad ++ rest) :
    ∃ (c' : SshConn) (pl : Payload), decodeEncrypted env beyond c =
      .packet c' (sealFrame env.crypto c.ekC2s c.recvSeq m.payload m.pad) pl
        (sealFrame env.crypto c.ekC2s c.recvSeq m.payload m.pad).length ∧
      pl.bytes = m.payload ∧ c' = { c with ib := c'.ib } ∧
      c'.ib.drop (sealFrame env.crypto c.ekC2s c.recvSeq m.payload m.pad).length = rest := by
  have hsz : SSH_IB_SZ = 2048 := rfl
  have hlen := length_sealFrame env.crypto c.ekC2s c.recvSeq m.payload m.pad
  have hmax : m.payload.length ≤ 247 := hm.sealed rfl
  have hpad := hm.pad_lt
  have hmod := (padLen_spec (m.padded true)).2.2
  rw [← hm.pad] at hmod
  simp only [Msg.padded, if_true] at hmod
  have hl : m.len = 1 + m.payload.length + m.pad.length := rfl
  rw [← hl] at hlen
  obtain ⟨hfield, hpadlen, hpayload, hdrop⟩ :=
    opened_frame beyond (by omega) (by omega) hib
  have hiblen : c.ib.length = 4 + m.len + 16 + rest.length := by
    rw [hib, List.length_append, hlen]
  have hverify : c.encTag env beyond = slice (c.mem beyond) (4 + m.len) 16 := by
    have htake : c.ib.take (4 + m.len) =
        env.crypto.djb (be32 m.body.length) (c.ekC2s.drop 32) (seqbuf8 c.recvSeq) 0 ++
        env.crypto.djb m.body (c.ekC2s.take 32) (seqbuf8 c.recvSeq) 1 := by
      rw [hib, sealFrame_eq, ← List.append_assoc, List.append_assoc,
        List.take_left' (by simp [length_djb, length_be32, m.length_body, hl])]
    have hrest : c.ib.drop (4 + m.len) = env.crypto.poly1305
        (env.crypto.djb (be32 m.body.length) (c.ekC2s.drop 32) (seqbuf8 c.recvSeq) 0 ++
          env.crypto.djb m.body (c.ekC2s.take 32) (seqbuf8 c.recvSeq) 1)
        (env.crypto.polykey (c.ekC2s.take 32) (seqbuf8 c.recvSeq)) ++ rest := by
      rw [hib, sealFrame_eq, ← List.append_assoc, List.append_assoc,
        List.drop_left' (by simp [length_djb, length_be32, m.length_body, hl])]
    rw [SshConn.encTag, hfield, env.u_small (by omega), slice_mem c beyond (by omega),
      slice_mem c beyond (by omega), List.drop_zero, htake, hrest,
      List.take_left' (env.crypto.length_poly1305 _ _)]
  unfold decodeEncrypted
  rw [if_neg (by omega)]
  dsimp only
  rw [hfield, env.u_small (x := 4 + m.len + 16) (by omega),
    env.u_small (x := 4 + m.len) (by omega), if_neg (by omega), if_neg (by omega),
    if_neg (not_not.mpr hverify), if_neg (by omega), hpadlen, if_neg (by omega)]
  refine ⟨c.opened env, ⟨fun k => (c.opened env).mem beyond (5 + k), 0, m.payload.length⟩, ?_, ?_,
    rfl, ?_⟩
  · have hpl : m.len - 1 - m.pad.length = m.payload.length := by omega
    have hwire : c.ib.take (4 + m.len + 16) =
        sealFrame env.crypto c.ekC2s c.recvSeq m.payload m.pad := by
      rw [hib, List.take_left' hlen]
    rw [hlen, hpl, hwire]
  · rw [Payload.bytes]
    exact (slice_shift _ _ _).trans hpayload
  · rw [hlen]
    exact hdrop

theorem decodeEncrypted_part (hm : m.Ok true) {rest : List UInt8}
    (hib : c.ib ++ rest = sealFrame env.crypto c.ekC2s c.recvSeq m.payload m.pad)
    (hrest : rest ≠ []) : decodeEncrypted env beyond c = .needMore := by
  have hsz : SSH_IB_SZ = 2048 := rfl
  have hlen := length_sealFrame env.crypto c.ekC2s c.recvSeq m.payload m.pad
  have hmax : m.payload.length ≤ 247 := hm.sealed rfl
  have hpad := hm.pad_lt
  have hmod := (padLen_spec (m.padded true)).2.2
  rw [← hm.pad] at hmod
  simp only [Msg.padded, if_true] at hmod
  have hbody := m.length_body
  have hpos : 0 < rest.length := List.length_pos_iff.mpr hrest
  have hiblen : c.ib.length + rest.length = 4 + m.body.length + 16 := by
    rw [← List.length_append, hib, hlen]
    omega
  unfold decodeEncrypted
  rcases Nat.lt_or_ge c.ib.length 4 with h4 | h4
  · rw [if_pos h4]
  · have hfield : c.encLen env = m.body.length := by
      have htake : (c.ib ++ rest).take 4 = c.ib.take 4 := List.take_append_of_le_length h4
      refine encLen_of_head (by omega) ?_
      rw [← htake, hib, sealFrame_eq, List.take_left' (by rw [length_djb, length_be32])]
    rw [if_neg (by omega)]
    dsimp only
    rw [hfield, env.u_small (x := 4 + m.body.length + 16) (by omega), if_neg (by omega),
      if_pos (by omega)]

/-- A frame in front of the buffer is decoded. -/
theorem decode_frame (hm : m.Ok c.recvEncrypted) {rest : List UInt8}
    (hib : c.ib = m.frame env.crypto c.ekC2s c.recvEncrypted c.recvSeq ++ rest) :
    ∃ (c' : SshConn) (pl : Payload), decode env beyond c =
      .packet c' (m.frame env.crypto c.ekC2s c.recvEncrypted c.recvSeq) pl
        (m.frame env.crypto c.ekC2s c.recvEncrypted c.recvSeq).length ∧
      pl.bytes = m.payload ∧ c' = { c with ib := c'.ib } ∧
      c'.ib.drop (m.frame env.crypto c.ekC2s c.recvEncrypted c.recvSeq).length = rest := by
  rcases Bool.eq_false_or_eq_true c.recvEncrypted with henc | henc
  · have hf : m.frame env.crypto c.ekC2s c.recvEncrypted c.recvSeq =
        sealFrame env.crypto c.ekC2s c.recvSeq m.payload m.pad := by rw [Msg.frame, if_pos henc]
    rw [hf] at hib ⊢
    rw [henc] at hm
    rw [decode, if_pos henc]
    exact decodeEncrypted_frame hm hib
  · have hf : m.frame env.crypto c.ekC2s c.recvEncrypted c.recvSeq =
        unencFrame m.payload m.pad := by rw [Msg.frame, if_neg (by simp [henc])]
    rw [hf] at hib ⊢
    rw [henc] at hm
    rw [decode, if_neg (by simp [henc])]
    obtain ⟨pl, hd, hpl⟩ := decodePlain_frame hm hib
    exact ⟨c, pl, hd, hpl, rfl, by rw [hib, List.drop_left]⟩

/-- A proper part of a frame is waited on. -/
theorem decode_part (hm : m.Ok c.recvEncrypted) {rest : List UInt8}
    (hib : c.ib ++ rest = m.frame env.crypto c.ekC2s c.recvEncrypted c.recvSeq)
    (hrest : rest ≠ []) : decode env beyond c = .needMore := by
  unfold decode Msg.frame at *
  split at hib
  next henc =>
    rw [henc] at hm
    rw [if_pos henc]
    exact decodeEncrypted_part hm hib hrest
  next henc =>
    rw [Bool.not_eq_true] at henc
    rw [henc] at hm
    rw [if_neg (by simp [henc])]
    exact decodePlain_part hm hib hrest

end

/-! ## Streams -/

/-- The handler that only lets itself be called. -/
def recorder (s : Ssh) (_ : Payload) : Ssh := s

/-- The payloads a handler was called with, newest first. -/
def received (trace : List SshEvent) : List (List UInt8) :=
  trace.filterMap fun
    | .packet _ _ _ _ _ payload => some payload
    | _ => none

/-- Call `try_packet` from turn `t` on until it makes no progress: the last result, the next
turn and the connection. -/
def drain (env : SshEnv) (beyond : Nat → Nat → UInt8) : Nat → Nat → Ssh → TryRes × Nat × Ssh
  | 0, t, s => (.progressed, t, s)
  | fuel + 1, t, s =>
      match tryPacketWith recorder env (beyond t) s with
      | (.progressed, s) => drain env beyond fuel (t + 1) s
      | (r, s) => (r, t + 1, s)

/-- Feed chunks one after the other.  There is no result if a chunk does not fit the buffer or
a packet is refused. -/
def feedChunks (env : SshEnv) (beyond : Nat → Nat → UInt8) :
    List (List UInt8) → Nat → Ssh → Option Ssh
  | [], _, s => some s
  | chunk :: chunks, t, s =>
      if s.c.ib.length + chunk.length > SSH_IB_SZ then none
      else
        let s := { s with c := { s.c with ib := s.c.ib ++ chunk } }
        match drain env beyond (s.c.ib.length + 1) t s with
        | (.needMore, t, s) => feedChunks env beyond chunks t s
        | _ => none

/-- Every chunk fits the buffer beside the incomplete frame in front of it. -/
def Paced (fs chunks : List (List UInt8)) : Prop :=
  ∀ pre chunk post, chunks = pre ++ chunk :: post →
    Frames.pending fs pre.flatten.length + chunk.length ≤ SSH_IB_SZ

/-- The sequence number after a list of messages. -/
def seqAfter : BitVec 32 → List Msg → BitVec 32
  | seq, [] => seq
  | seq, _ :: msgs => seqAfter (seq + 1) msgs

section

variable {env : SshEnv} {cr : Crypto} {key : List UInt8} {encrypted : Bool}

theorem frame_ne_nil (seq : BitVec 32) (m : Msg) : m.frame cr key encrypted seq ≠ [] := by
  apply List.ne_nil_of_length_pos
  unfold Msg.frame
  split
  · rw [length_sealFrame]
    omega
  · rw [length_unencFrame]
    omega

theorem ne_nil_of_mem_frames : ∀ {seq : BitVec 32} {msgs : List Msg} {f : List UInt8},
    f ∈ frames cr key encrypted seq msgs → f ≠ []
  | _, [], _, h => by cases h
  | seq, m :: msgs, f, h => by
      rcases List.mem_cons.mp h with rfl | h'
      · exact frame_ne_nil seq m
      · exact ne_nil_of_mem_frames h'

/-- A list of frames that is split splits the messages. -/
theorem frames_split : ∀ {fs₁ fs₂ : List (List UInt8)} {seq : BitVec 32} {msgs : List Msg},
    frames cr key encrypted seq msgs = fs₁ ++ fs₂ →
      ∃ ms₁ ms₂, msgs = ms₁ ++ ms₂ ∧ frames cr key encrypted seq ms₁ = fs₁ ∧
        frames cr key encrypted (seqAfter seq ms₁) ms₂ = fs₂
  | [], fs₂, seq, msgs, h => ⟨[], msgs, rfl, rfl, h⟩
  | f :: fs₁, fs₂, seq, [], h => by cases h
  | f :: fs₁, fs₂, seq, m :: msgs, h => by
      rw [frames, List.cons_append, List.cons.injEq] at h
      obtain ⟨ms₁, ms₂, rfl, h₁, h₂⟩ := frames_split h.2
      exact ⟨m :: ms₁, ms₂, rfl, by rw [frames, h.1, h₁], h₂⟩

theorem length_le_frames : ∀ (seq : BitVec 32) (msgs : List Msg),
    msgs.length ≤ (frames cr key encrypted seq msgs).flatten.length
  | _, [] => Nat.zero_le _
  | seq, m :: msgs => by
      have ih := length_le_frames (seq + 1) msgs
      have hpos : 0 < (m.frame cr key encrypted seq).length :=
        List.length_pos_iff.mpr (frame_ne_nil seq m)
      rw [frames, List.flatten_cons, List.length_append, List.length_cons]
      omega

/-- The part of a connection that decoding depends on, besides the buffer. -/
abbrev SshConn.mode (c : SshConn) : Bool × List UInt8 := (c.recvEncrypted, c.ekC2s)

/-- `try_packet` on a frame. -/
theorem tryPacketWith_frame {m : Msg} {s : Ssh} (hm : m.Ok s.c.recvEncrypted) {rest : List UInt8}
    (hib : s.c.ib = m.frame env.crypto s.c.ekC2s s.c.recvEncrypted s.c.recvSeq ++ rest)
    (beyond : Nat → UInt8) :
    ∃ s', tryPacketWith recorder env beyond s = (.progressed, s') ∧ s'.c.ib = rest ∧
      s'.c.mode = s.c.mode ∧ s'.c.recvSeq = s.c.recvSeq + 1 ∧
      received s'.c.trace = m.payload :: received s.c.trace := by
  obtain ⟨c', pl, hd, hpl, hc', hrest⟩ : ∃ (c' : SshConn) (pl : Payload),
    decode env beyond s.c = _ ∧ _ := decode_frame hm hib
  refine ⟨_, by rw [tryPacketWith, hd]; rfl, hrest, ?_, ?_, ?_⟩
  · rw [hc']
    rfl
  · rw [hc']
    rfl
  · rw [hc', ← hpl]
    rfl

/-- All complete frames are taken from the buffer. -/
theorem drain_frames (beyond : Nat → Nat → UInt8) : ∀ (msgs : List Msg) (fuel t : Nat) (s : Ssh)
    (part : List UInt8), (∀ m ∈ msgs, m.Ok s.c.recvEncrypted) →
    s.c.ib = (frames env.crypto s.c.ekC2s s.c.recvEncrypted s.c.recvSeq msgs).flatten ++ part →
    msgs.length < fuel →
    (∀ c : SshConn, c.ib = part → c.mode = s.c.mode → c.recvSeq = seqAfter s.c.recvSeq msgs →
      ∀ beyond, decode env beyond c = .needMore) →
    ∃ t' s', drain env beyond fuel t s = (.needMore, t', s') ∧ s'.c.ib = part ∧
      s'.c.mode = s.c.mode ∧ s'.c.recvSeq = seqAfter s.c.recvSeq msgs ∧
      received s'.c.trace = (msgs.map (·.payload)).reverse ++ received s.c.trace
  | [], fuel, t, s, part, _, hib, hfuel, hwait => by
      obtain ⟨fuel, rfl⟩ := Nat.exists_eq_succ_of_ne_zero (Nat.ne_of_gt hfuel)
      have hd := hwait s.c hib rfl rfl (beyond t)
      exact ⟨t + 1, s, by rw [drain, tryPacketWith, hd]; rfl, hib, rfl, rfl, rfl⟩
  | m :: msgs, fuel, t, s, part, hok, hib, hfuel, hwait => by
      obtain ⟨fuel, rfl⟩ := Nat.exists_eq_succ_of_ne_zero (Nat.ne_of_gt (Nat.zero_lt_of_lt hfuel))
      rw [frames, List.flatten_cons, List.append_assoc] at hib
      obtain ⟨s₁, htry, hib₁, hmode₁, hseq₁, hrec₁⟩ :=
        tryPacketWith_frame (hok m List.mem_cons_self) hib (beyond t)
      simp only [SshConn.mode, Prod.mk.injEq] at hmode₁
      rw [← hmode₁.1, ← hmode₁.2, ← hseq₁] at hib₁
      have hmode : s₁.c.mode = s.c.mode := by simp only [SshConn.mode, hmode₁]
      obtain ⟨t', s', hdrain, hib', hmode', hseq', hrec'⟩ :=
        drain_frames beyond msgs fuel (t + 1) s₁ part
          (fun m' hm' => by rw [hmode₁.1]; exact hok m' (List.mem_cons_of_mem _ hm')) hib₁
          (by simp at hfuel; omega)
          (fun c hc hm hs => hwait c hc (hm.trans hmode) (by rw [hs, hseq₁]; rfl))
      refine ⟨t', s', by rw [drain, htry]; exact hdrain, hib', hmode'.trans hmode, ?_, ?_⟩
      · rw [hseq', hseq₁]
        rfl
      · rw [hrec', hrec₁]
        simp

/-- A proper part of the next frame is waited on. -/
theorem decode_partOf {c : SshConn} {msgs : List Msg} (hok : ∀ m ∈ msgs, m.Ok c.recvEncrypted)
    (hpart : Frames.PartOf c.ib (frames env.crypto c.ekC2s c.recvEncrypted c.recvSeq msgs))
    (beyond : Nat → UInt8) : decode env beyond c = .needMore := by
  rcases hpart with hnil | ⟨f, fs, rest, hfs, hf, hrest⟩
  · have hlen : c.ib.length < 4 := by simp [hnil]
    unfold decode decodeEncrypted decodePlain
    rw [if_pos hlen, if_pos hlen]
    split <;> rfl
  · cases msgs with
    | nil => cases hfs
    | cons m msgs =>
        rw [frames, List.cons.injEq] at hfs
        refine decode_part (hok m List.mem_cons_self) ?_ hrest
        rw [hf, hfs.1]

/-- Feeding the rest of a stream of which a proper part of the next frame has arrived. -/
theorem feedChunks_rest (beyond : Nat → Nat → UInt8) : ∀ (chunks : List (List UInt8)) (t : Nat)
    (s : Ssh) (msgs : List Msg), (∀ m ∈ msgs, m.Ok s.c.recvEncrypted) →
    Frames.PartOf s.c.ib (frames env.crypto s.c.ekC2s s.c.recvEncrypted s.c.recvSeq msgs) →
    s.c.ib ++ chunks.flatten =
      (frames env.crypto s.c.ekC2s s.c.recvEncrypted s.c.recvSeq msgs).flatten →
    (∀ pre chunk post, chunks = pre ++ chunk :: post → Frames.pending
      (frames env.crypto s.c.ekC2s s.c.recvEncrypted s.c.recvSeq msgs)
      (s.c.ib.length + pre.flatten.length) + chunk.length ≤ SSH_IB_SZ) →
    ∃ s', feedChunks env beyond chunks t s = some s' ∧ s'.c.ib = [] ∧
      received s'.c.trace = (msgs.map (·.payload)).reverse ++ received s.c.trace
  | [], t, s, msgs, hok, hpart, hall, _ => by
      rw [List.flatten_nil, List.append_nil] at hall
      have hnil := hpart.eq_nil hall
      rw [hnil] at hall
      have hmsgs : msgs = [] := by
        cases msgs with
        | nil => rfl
        | cons m msgs =>
            rw [frames, List.flatten_cons] at hall
            exact absurd (List.append_eq_nil_iff.mp hall.symm).1 (frame_ne_nil _ m)
      rw [hmsgs]
      exact ⟨s, rfl, hnil, rfl⟩
  | chunk :: chunks, t, s, msgs, hok, hpart, hall, hpaced => by
      have hne : ∀ f ∈ frames env.crypto s.c.ekC2s s.c.recvEncrypted s.c.recvSeq msgs, f ≠ [] :=
        fun f => ne_nil_of_mem_frames
      have hfits : s.c.ib.length + chunk.length ≤ SSH_IB_SZ := by
        have := hpaced [] chunk chunks rfl
        rw [List.flatten_nil, List.length_nil, Nat.add_zero, hpart.pending hne] at this
        exact this
      rw [List.flatten_cons, ← List.append_assoc] at hall
      -- the chunk completes some frames and leaves a part of the next
      obtain ⟨fs₁, fs₂, part, hfs, hx, hpart'⟩ := Frames.exists_complete _ hall
      obtain ⟨ms₁, ms₂, rfl, hms₁, hms₂⟩ := frames_split hfs
      have hlen : ms₁.length < (s.c.ib ++ chunk).length + 1 := by
        have hle : ms₁.length ≤ (frames env.crypto s.c.ekC2s s.c.recvEncrypted s.c.recvSeq
          ms₁).flatten.length := length_le_frames _ _
        rw [hx, ← hms₁, List.length_append]
        omega
      have hok₂ : ∀ m ∈ ms₂, m.Ok s.c.recvEncrypted := fun m hm => hok m (List.mem_append_right _ hm)
      have hwait : ∀ c : SshConn, c.ib = part → c.mode = s.c.mode →
          c.recvSeq = seqAfter s.c.recvSeq ms₁ → ∀ beyond, decode env beyond c = .needMore := by
        intro c hib hmode hseq beyond
        simp only [SshConn.mode, Prod.mk.injEq] at hmode
        have hpart : Frames.PartOf c.ib
            (frames env.crypto c.ekC2s c.recvEncrypted c.recvSeq ms₂) := by
          rw [hib, hmode.1, hmode.2, hseq, hms₂]
          exact hpart'
        exact decode_partOf (by rw [hmode.1]; exact hok₂) hpart beyond
      obtain ⟨t', s', hdrain, hib', hmode', hseq', hrec'⟩ := drain_frames beyond ms₁
        ((s.c.ib ++ chunk).length + 1) t { s with c := { s.c with ib := s.c.ib ++ chunk } } part
        (fun m hm => hok m (List.mem_append_left _ hm)) (by rw [hx, ← hms₁]) hlen hwait
      simp only [SshConn.mode, Prod.mk.injEq] at hmode'
      have hfs₂ : frames env.crypto s'.c.ekC2s s'.c.recvEncrypted s'.c.recvSeq ms₂ = fs₂ := by
        rw [hmode'.1, hmode'.2, hseq']
        exact hms₂
      obtain ⟨s'', hfeed, hib'', hrec''⟩ := feedChunks_rest beyond chunks t' s' ms₂
        (by rw [hmode'.1]; exact hok₂) (by rw [hfs₂, hib']; exact hpart')
        (by
          rw [hfs₂, hib']
          rw [hfs, hx, List.flatten_append, List.append_assoc, List.append_cancel_left_eq] at hall
          exact hall)
        (by
          intro pre chunk' post hsplit
          have := hpaced (chunk :: pre) chunk' post (by rw [hsplit]; rfl)
          rw [List.flatten_cons, List.length_append, ← Nat.add_assoc, ← List.length_append, hx, hfs,
            List.length_append, Nat.add_assoc, Frames.pending_append] at this
          rw [hfs₂, hib']
          exact this)
      refine ⟨s'', ?_, hib'', ?_⟩
      · rw [feedChunks, if_neg (by omega)]
        dsimp only
        rw [hdrain]
        exact hfeed
      · rw [hrec'', hrec']
        simp

end

/-- The message `send_unenc` frames. -/
def unencMsg (env : SshEnv) (s : Ssh) (payload : List UInt8) : Msg :=
  ⟨payload, env.rngBytes s.g.rngPos (padLen (4 + 1 + payload.length))⟩

/-- The message `aead_seal` frames. -/
def sealMsg (env : SshEnv) (s : Ssh) (payload : List UInt8) : Msg :=
  ⟨payload, env.rngBytes s.g.rngPos (padLen (1 + payload.length))⟩

/-- The bytes that `send_unenc` queues and `aead_seal` produces are the frames of messages with
padding to a multiple of 8; and the frames of such messages under consecutive sequence numbers,
fed in chunks to a `try_packet` in the same mode and with the same key, are handed on one by
one, with nothing left. -/
theorem framing_round_trip (env : SshEnv) (beyond : Nat → Nat → UInt8) {s : Ssh}
    (hib : s.c.ib = []) {msgs : List Msg} (hok : ∀ m ∈ msgs, m.Ok s.c.recvEncrypted)
    {chunks : List (List UInt8)}
    (hchunks : chunks.flatten =
      (frames env.crypto s.c.ekC2s s.c.recvEncrypted s.c.recvSeq msgs).flatten)
    (hpaced : Paced (frames env.crypto s.c.ekC2s s.c.recvEncrypted s.c.recvSeq msgs) chunks) :
    (∃ s', feedChunks env beyond chunks 0 s = some s' ∧ s'.c.ib = [] ∧
      received s'.c.trace = (msgs.map (·.payload)).reverse ++ received s.c.trace) ∧
    (∀ m ∈ msgs, 4 ≤ m.pad.length ∧
      if s.c.recvEncrypted then m.len % 8 = 0 else (4 + m.len) % 8 = 0) ∧
    (∀ (t : Ssh) (payload : List UInt8) (key : List UInt8) (seq : BitVec 32),
      t.g.ob = [] → 5 + payload.length + padLen (4 + 1 + payload.length) ≤ SSH_IB_SZ →
      (unencMsg env t payload).Ok false ∧
        (t.sendUnenc env payload).g.ob = (unencMsg env t payload).frame env.crypto key false seq) ∧
    ∀ (t : Ssh) (payload : List UInt8), payload.length ≤ SSH_ENC_MAX_PLEN →
      (sealMsg env t payload).Ok true ∧ (t.aeadSeal env payload).1 =
        (sealMsg env t payload).frame env.crypto t.c.ekS2c true t.c.sendSeq := by
  refine ⟨?_, fun m hm => ⟨(hok m hm).pad_lt.1, ?_⟩, fun t payload key seq hob hroom => ?_,
    fun t payload hlen => ⟨⟨?_, fun _ => hlen, nofun⟩, rfl⟩⟩
  · refine feedChunks_rest beyond chunks 0 s msgs hok (.inl hib) (by rw [hib]; exact hchunks) ?_
    intro pre chunk post hsplit
    rw [hib, List.length_nil, Nat.zero_add]
    exact hpaced pre chunk post hsplit
  · have hmod := (padLen_spec (m.padded s.c.recvEncrypted)).2.2
    rw [← (hok m hm).pad] at hmod
    unfold Msg.padded at hmod
    unfold Msg.len
    split
    next henc =>
      rw [if_pos henc] at hmod
      exact hmod
    next henc =>
      rw [if_neg henc] at hmod
      omega
  · have hpad : (unencMsg env t payload).pad.length = padLen (4 + 1 + payload.length) :=
      length_slice _ _ _
    refine ⟨⟨hpad, nofun, fun _ => ?_⟩, ?_⟩
    · rw [length_unencFrame, hpad]
      exact hroom
    · have hsz : SSH_OB_SZ = SSH_IB_SZ := rfl
      rw [sendUnenc_fits env t payload rfl (by rw [hob, hsz]; simpa using hroom)]
      dsimp only [Ssh.framed]
      rw [hob]
      rfl
  · exact length_slice _ _ _

/-- A connection that decrypts from sequence number 5 on. -/
def openingConn : SshConn :=
  { SshConn.zero with ekC2s := List.replicate 64 7, recvEncrypted := true, recvSeq := 5 }

/-- An empty message and one of two bytes. -/
def twoMsgs : List Msg :=
  [⟨[], List.replicate (padLen 1) 1⟩, ⟨[94, 2], List.replicate (padLen 3) 9⟩]

/-- The stream of the two messages. -/
def twoStream : List UInt8 := (frames sampleCrypto (List.replicate 64 7) true 5 twoMsgs).flatten

/-- The stream is cut in the length field of its first frame. -/
theorem framing_round_trip_two :
    ∃ s', feedChunks sampleEnv (fun _ _ => 0) [twoStream.take 3, twoStream.drop 3] 0
      ⟨openingConn, SshShared.zero, []⟩ = some s' ∧ s'.c.ib = [] ∧
      received s'.c.trace = [[94, 2], []] := by
  have hok : ∀ m ∈ twoMsgs, m.Ok true := by
    intro m hm
    simp only [twoMsgs, List.mem_cons, List.not_mem_nil, or_false] at hm
    rcases hm with rfl | rfl
    all_goals exact ⟨rfl, fun _ => by decide, nofun⟩
  have hchunks : [twoStream.take 3, twoStream.drop 3].flatten = twoStream := by decide
  refine (framing_round_trip sampleEnv (fun _ _ => 0)
    (s := ⟨openingConn, SshShared.zero, []⟩) rfl hok hchunks ?_).1
  intro pre chunk post hsplit
  rcases pre with _ | ⟨a, _ | ⟨b, pre⟩⟩
  · cases hsplit
    decide
  · cases hsplit
    decide
  · simp at hsplit

end Dossh
