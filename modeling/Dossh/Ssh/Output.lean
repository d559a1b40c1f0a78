import Dossh.Ssh.Window

/-!
# Data for the client

Bytes reach the channel in two ways.  `ssh_channel_putc` stages them and `ssh_channel_flush`
frames what is staged into the output buffer, as far as the window of the peer and the buffer
allow.  `ssh_channel_emit` seals a packet into a buffer of its caller.

The comment at `ssh_channel_emit` counts up to 8 bytes of padding, but `aead_seal` adds up to
11.  So a buffer with exactly the slack of 40 bytes can be one byte too small.  And a flush of a
connection that has failed before queues a packet and keeps its bytes staged (`FlushesFailed`);
without such a flush nothing is lost, doubled or reordered.
-/

namespace Dossh

open Ssh

/-! ## Emitting -/

/-- The contract of `ssh_channel_emit`: nothing is counted without a packet, and a packet fits the
buffer and is counted. -/
def EmitFits (s : Ssh) (plain : List UInt8) (outmax : Nat) : Option (List UInt8) × Ssh → Prop
  | (none, s') => s'.c.sendSeq = s.c.sendSeq ∧ s'.c.peerWindow = s.c.peerWindow
  | (some wire, s') => wire.length ≤ outmax ∧ s'.c.peerWindow + plain.length = s.c.peerWindow

instance (s : Ssh) (plain : List UInt8) (outmax : Nat) :
    ∀ r, Decidable (EmitFits s plain outmax r)
  | (none, _) => inferInstanceAs (Decidable (_ ∧ _))
  | (some _, _) => inferInstanceAs (Decidable (_ ∧ _))

/-- A packet is sealed, with 11 bytes of padding, into a buffer with room for 10. -/
structure EmitTight (s : Ssh) (plain : List UInt8) (outmax : Nat) : Prop where
  ready : sshChannelReady s.c = true
  sealed : s.c.sendEncrypted = true
  chunk : 0 < plain.length ∧ plain.length ≤ SSH_CHAN_CHUNK
  window : plain.length ≤ s.c.peerWindow ∧ plain.length ≤ s.c.peerMaxpkt
  tight : outmax = plain.length + 40
  residue : plain.length % 8 = 3

theorem length_channelData (c : SshConn) (data : List UInt8) :
    (channelData c data).length = 9 + data.length := by
  rw [channelData_cons, List.length_cons, length_dataRest]
  omega

/-- The padding of a packet of channel data. -/
theorem padLen_channelData (n : Nat) :
    padLen (1 + (9 + n)) ≤ 11 ∧ (padLen (1 + (9 + n)) = 11 ↔ n % 8 = 3) := by
  unfold padLen
  split <;> omega

/-- `ssh_channel_emit` keeps to the buffer of its caller, and counts exactly what it seals, unless
the padding is longest and the buffer has no byte more than the check asks for. -/
theorem channel_emit_fits_iff (env : SshEnv) (s : Ssh) (plain : List UInt8) (outmax : Nat) :
    EmitFits s plain outmax (sshChannelEmit env s plain outmax) ↔ ¬ EmitTight s plain outmax := by
  have hpad := padLen_channelData plain.length
  unfold sshChannelEmit
  dsimp only
  split
  next hready =>
    refine iff_of_true ⟨rfl, rfl⟩ fun h => ?_
    rw [h.ready, h.sealed] at hready
    cases hready
  next hready =>
    split
    next hn =>
      refine iff_of_true ⟨rfl, rfl⟩ fun h => ?_
      have hchunk := h.chunk
      omega
    next hn =>
      split
      next hwindow =>
        refine iff_of_true ⟨rfl, rfl⟩ fun h => ?_
        have hwindow := h.window
        omega
      next hwindow =>
        split
        next hsmall =>
          refine iff_of_true ⟨rfl, rfl⟩ fun h => ?_
          have htight := h.tight
          omega
        next hroom =>
          rw [Bool.or_eq_true, not_or, Bool.not_eq_true', Bool.not_eq_true', Bool.not_eq_false,
            Bool.not_eq_false] at hready
          simp only [EmitFits]
          rw [length_aeadSeal, wireLen, if_pos rfl, length_channelData]
          constructor
          · intro h htight
            have hres := hpad.2.mpr htight.residue
            have hmax := htight.tight
            omega
          · intro h
            refine ⟨?_, ?_⟩
            · by_contra hlong
              refine h ⟨hready.1, hready.2, by omega, by omega, by omega, hpad.2.mp (by omega)⟩
            · change s.c.peerWindow - plain.length + plain.length = s.c.peerWindow
              omega

/-- Three bytes into a buffer of 43. -/
theorem channel_emit_overruns : ∃ s, SshReach sampleEnv s ∧ sshChannelReady s.c = true ∧
    ¬ EmitFits s [65, 66, 67] 43 (sshChannelEmit sampleEnv s [65, 66, 67] 43) := by
  have hrun : (sshRun sampleEnv (feed (loginChunks ++ [sealedFrame 5 (sessionOpen 100),
      sealedFrame 6 shellRequest])) (sshReset sampleEnv SshShared.zero)).map (fun s =>
        (sshChannelReady s.c, decide (EmitFits s [65, 66, 67] 43
          (sshChannelEmit sampleEnv s [65, 66, 67] 43)))) = some (true, false) := by
    decide +kernel
  obtain ⟨s, hs, hl⟩ := Option.map_eq_some_iff.mp hrun
  rw [Prod.mk.injEq, decide_eq_false_iff_not] at hl
  exact ⟨s, ⟨_, _, hs⟩, hl⟩

/-! ## Staging -/

/-- The data of a `CHANNEL_DATA` packet that was queued. -/
def SshEvent.channelBytes : SshEvent → List UInt8
  | .frame _ _ payload _ => if payload.headD 0 = MSG_CHANNEL_DATA then payload.drop 9 else []
  | _ => []

/-- The data of all of them, in their order. -/
def dataOf : List SshEvent → List UInt8
  | [] => []
  | e :: trace => dataOf trace ++ e.channelBytes

/-- The bytes that a call of `ssh_channel_putc` accepts. -/
def SshOp.takes (s : Ssh) : SshOp → List UInt8
  | .putc b => if (sshChannelPutc s b).1 then [b] else []
  | _ => []

/-- The bytes that a call of `ssh_output` hands out. -/
def SshOp.drains (s : Ssh) : SshOp → List UInt8
  | .output max => (sshOutput s.g max).1
  | _ => []

/-- What the calls of a run give, one after the other. -/
def gathered (env : SshEnv) (gives : Ssh → SshOp → List UInt8) : List SshOp → Ssh → List UInt8
  | [], _ => []
  | op :: ops, s =>
      gives s op ++
        match op.run env s with
        | some s' => gathered env gives ops s'
        | none => []

/-- The bytes of a run for which `ssh_channel_putc` returned 1. -/
def accepted (env : SshEnv) : List SshOp → Ssh → List UInt8 := gathered env SshOp.takes

/-- The bytes of a run that `ssh_output` handed out. -/
def drained (env : SshEnv) : List SshOp → Ssh → List UInt8 := gathered env SshOp.drains

/-- The calls that stage, flush, drain and feed, with no flush of a failed connection that has
something to frame. -/
def StagedOp : SshOp → Ssh → Prop
  | .putc _, _ | .output _, _ | .input _ _ _, _ => True
  | .flush, s => ¬ FlushesFailed s
  | _, _ => False

instance : ∀ (op : SshOp) (s : Ssh), Decidable (StagedOp op s)
  | .putc _, _ | .output _, _ | .input _ _ _, _ => isTrue trivial
  | .flush, s => inferInstanceAs (Decidable (¬ FlushesFailed s))
  | .discardOutput, _ | .getc, _ | .emit _ _, _ | .close, _ | .shared _, _ => isFalse id

/-- A window adjustment of the client. -/
def Adjusts (_ : SshConn) (pl : Payload) : Prop := pl.msg = MSG_CHANNEL_WINDOW_ADJUST

instance (c : SshConn) (pl : Payload) : Decidable (Adjusts c pl) := inferInstanceAs (Decidable (_ = _))

section

variable {env : SshEnv} {s s' s'' : Ssh}

/-- What the law rests on: the flags of the channel, the staged bytes and the data queued. -/
structure Ssh.Stages (s s' : Ssh) : Prop where
  chanOpen : s'.c.chanOpen = s.c.chanOpen
  chanClosed : s'.c.chanClosed = s.c.chanClosed
  cout : s'.g.cout = s.g.cout
  overflow : s'.g.overflow = s.g.overflow
  data : dataOf s'.c.trace = dataOf s.c.trace

theorem Ssh.Stages.refl (s : Ssh) : s.Stages s := ⟨rfl, rfl, rfl, rfl, rfl⟩

theorem Ssh.Stages.trans (h : s.Stages s') (h' : s'.Stages s'') : s.Stages s'' :=
  ⟨h'.chanOpen.trans h.chanOpen, h'.chanClosed.trans h.chanClosed, h'.cout.trans h.cout,
    h'.overflow.trans h.overflow, h'.data.trans h.data⟩

theorem Ssh.Stages.fail (s : Ssh) (why : String) : s.Stages (s.fail why) := by
  unfold Ssh.fail
  split
  · exact ⟨rfl, rfl, rfl, rfl, rfl⟩
  · exact .refl s

theorem Ssh.Stages.peerWindow (s : Ssh) (window : Nat) :
    s.Stages { s with c := { s.c with peerWindow := window } } := ⟨rfl, rfl, rfl, rfl, rfl⟩

theorem Ssh.Stages.decodes (h : s.Decodes s') : s.Stages s' := by
  have hc := h.conn
  refine ⟨?_, ?_, by rw [h.shared], by rw [h.shared], ?_⟩
  all_goals rw [hc]

/-- A window adjustment touches the window, or fails the connection. -/
theorem handlePacket_stages (ib wire : List UInt8) {pl : Payload}
    (hmsg : pl.msg = MSG_CHANNEL_WINDOW_ADJUST) :
    s.Stages (handlePacket env (s.handing ib wire pl) pl) := by
  have hhand : s.Stages (s.handing ib wire pl) := ⟨rfl, rfl, rfl, rfl, List.append_nil _⟩
  refine hhand.trans ?_
  generalize s.handing ib wire pl = s₀
  unfold handlePacket
  rw [hmsg]
  dsimp only
  generalize hs₁ : (if pl.len ≠ 0 then s₀.read pl 0 1 else s₀) = s₁
  have h₁ : s₀.Stages s₁ := by
    rw [← hs₁]
    split <;> exact ⟨rfl, rfl, rfl, rfl, rfl⟩
  refine h₁.trans ?_
  rw [if_neg (by decide), if_neg (by decide), if_neg (by decide)]
  unfold handleByState
  split
  · rw [if_pos (by decide)]
    exact .fail s₁ _
  · split
    · exact .fail s₁ _
    next hguess =>
      -- the packet the client guessed wrong is dropped
      rw [not_and, Bool.not_eq_false] at hguess
      rw [handleEcdhInit, if_pos (hguess (by decide))]
      exact ⟨rfl, rfl, rfl, rfl, rfl⟩
  · rw [if_pos (by decide)]
    exact .fail s₁ _
  · rw [if_pos (by decide)]
    exact .fail s₁ _
  · rw [if_neg (by decide)]
    exact .refl s₁
  · rw [handleSession, if_neg (by decide), if_neg (by decide), if_neg (by decide),
      if_pos (by decide)]
    unfold handleChannelWindowAdjust
    dsimp only
    split
    · exact .refl s₁
    · have hread : s₁.Stages (s₁.read pl 5 4) := ⟨rfl, rfl, rfl, rfl, rfl⟩
      exact hread.trans (.peerWindow _ _)
  all_goals exact .fail s₁ _

/-- A call of `ssh_input` whose packets all adjust the window. -/
theorem input_stages {data : List UInt8} {beyond : Nat → Nat → UInt8} {fuel : Nat}
    (hmeets : (SshOp.input data beyond fuel).Meets env Adjusts s)
    (h : (SshOp.input data beyond fuel).run env s = some s') : s.Stages s' := by
  have hrun : sshRun env [.input data beyond fuel] s = some s' := by
    rw [sshRun, h]
    rfl
  have hruns : RunMeets env Adjusts (fun op _ => op.isInput = true) [.input data beyond fuel] s :=
    ⟨rfl, hmeets, fun _ _ => trivial⟩
  refine RunMeets.keeps (P := fun s₁ => s.Stages s₁) ?_ ?_ ?_ _ (.refl s) hruns hrun
  · intro s₁ s₂ hstages hd
    exact hstages.trans (.decodes hd)
  · intro s₁ ib wire pl hstages hmsg
    exact hstages.trans (handlePacket_stages ib wire hmsg)
  · intro op s₁ s₂ hstages hop hin
    rw [hop] at hin
    cases hin

/-! ## Flushing -/

/-- A packet that fits leaves the rest of the shared part alone. -/
theorem sendPacket_staging (env : SshEnv) (s : Ssh) (payload : List UInt8)
    (hfit : payload.length ≤ SSH_ENC_MAX_PLEN)
    (hroom : s.g.ob.length + wireLen s.c.sendEncrypted payload.length ≤ SSH_OB_SZ) :
    (s.sendPacket env payload).g.cout = s.g.cout ∧
      (s.sendPacket env payload).g.overflow = s.g.overflow := by
  unfold Ssh.sendPacket
  split
  next hsealed =>
    rw [Ssh.sendEnc, if_neg (Nat.not_lt.mpr hfit)]
    rw [hsealed, ← length_aeadSeal env s] at hroom
    dsimp only
    rw [obAppend_fits env (s.aeadSeal env payload).2 _ hroom]
    exact ⟨rfl, rfl⟩
  next hplain =>
    rw [Bool.not_eq_true] at hplain
    have hwire : wireLen false payload.length = 5 + payload.length + padLen (4 + 1 + payload.length) :=
      rfl
    rw [hplain, hwire] at hroom
    rw [sendUnenc_fits env s payload rfl (by omega)]
    exact ⟨rfl, rfl⟩

/-- A packet of data is queued as a whole. -/
theorem sendData_stages (env : SshEnv) {data : List UInt8} (h : s.Chunk data) :
    let s' := s.sendPacket env (channelData s.c data)
    s'.c.state = s.c.state ∧ s'.c.chanOpen = s.c.chanOpen ∧ s'.c.chanClosed = s.c.chanClosed ∧
      s'.g.cout = s.g.cout ∧ s'.g.overflow = s.g.overflow ∧
      dataOf s'.c.trace = dataOf s.c.trace ++ data := by
  have hlen := length_channelData s.c data
  have hroom : s.g.ob.length + wireLen s.c.sendEncrypted (channelData s.c data).length ≤
      SSH_OB_SZ := by
    have hroom := h.room
    rw [hlen]
    unfold wireLen padLen
    split <;> split <;> omega
  have hfit : (channelData s.c data).length ≤ SSH_ENC_MAX_PLEN := by
    have hchunk := h.chunk
    have hsz : SSH_CHAN_CHUNK = 200 := rfl
    have hmax : SSH_ENC_MAX_PLEN = 247 := rfl
    omega
  obtain ⟨enc, seq, bytes, hc⟩ := sendData_queued env h
  obtain ⟨hcout, hover⟩ := sendPacket_staging env s _ hfit hroom
  dsimp only
  refine ⟨by rw [hc], by rw [hc], by rw [hc], hcout, hover, ?_⟩
  rw [hc, dataOf]
  congr 1

/-- The loop of `ssh_channel_flush` frames a prefix of what is staged. -/
theorem flushLoop_fifo : ∀ (fuel sent : Nat) {s : Ssh}, s.c.state ≠ .error →
    sent ≤ s.g.cout.length →
    let r := flushLoop env fuel sent s
    r.2.c.chanOpen = s.c.chanOpen ∧ r.2.c.chanClosed = s.c.chanClosed ∧ r.2.g.cout = s.g.cout ∧
      r.2.g.overflow = s.g.overflow ∧
      dataOf r.2.c.trace ++ s.g.cout.drop r.1 = dataOf s.c.trace ++ s.g.cout.drop sent
  | 0, sent, s, _, _ => ⟨rfl, rfl, rfl, rfl, rfl⟩
  | fuel + 1, sent, s, hst, hle => by
      rw [flushLoop]
      dsimp only
      generalize htake : min (min (min (s.g.cout.length - sent) SSH_CHAN_CHUNK) s.c.peerWindow)
        s.c.peerMaxpkt = take
      split
      · exact ⟨rfl, rfl, rfl, rfl, rfl⟩
      next hpos =>
        split
        · exact ⟨rfl, rfl, rfl, rfl, rfl⟩
        next hroom =>
          have hlen : ((s.g.cout.drop sent).take take).length = take := by
            rw [List.length_take, List.length_drop]
            omega
          have hchunk : s.Chunk ((s.g.cout.drop sent).take take) := by
            constructor <;> rw [hlen] <;> omega
          obtain ⟨hst₁, hopen₁, hclosed₁, hcout₁, hover₁, hdata₁⟩ := sendData_stages env hchunk
          generalize s.sendPacket env _ = s₁ at hst₁ hopen₁ hclosed₁ hcout₁ hover₁ hdata₁ ⊢
          rw [if_neg (by rw [hst₁]; exact hst)]
          obtain ⟨hopen₂, hclosed₂, hcout₂, hover₂, hdata₂⟩ := flushLoop_fifo fuel (sent + take)
            (s := { s₁ with c := { s₁.c with peerWindow := s₁.c.peerWindow - take } })
            (by rw [← hst₁] at hst; exact hst) (by dsimp only; rw [hcout₁]; omega)
          dsimp only at hopen₂ hclosed₂ hcout₂ hover₂ hdata₂
          refine ⟨hopen₂.trans hopen₁, hclosed₂.trans hclosed₁, hcout₂.trans hcout₁,
            hover₂.trans hover₁, ?_⟩
          rw [hcout₁, hdata₁] at hdata₂
          rw [hdata₂, List.append_assoc, ← List.drop_drop, List.take_append_drop]

/-- A failed connection with nothing to frame. -/
theorem flushLoop_failed (fuel : Nat) (hst : s.c.state = .error) (hopen : s.c.chanOpen = true)
    (hclosed : s.c.chanClosed = false) (hlive : ¬ FlushesFailed s) :
    flushLoop env fuel 0 s = (0, s) := by
  cases fuel with
  | zero => rfl
  | succ fuel =>
      rw [flushLoop]
      dsimp only
      split
      · rfl
      next htake =>
        split
        · rfl
        next hroom =>
          rw [Nat.sub_zero] at htake hroom
          exact absurd ⟨hst, hopen, hclosed, by omega, by omega⟩ hlive

/-- A flush moves bytes from the staging buffer into packets, in their order. -/
theorem sshChannelFlush_fifo (hopen : s.c.chanOpen = true) (hclosed : s.c.chanClosed = false)
    (hlive : ¬ FlushesFailed s) :
    let s' := sshChannelFlush env s
    s'.c.chanOpen = true ∧ s'.c.chanClosed = false ∧ s'.g.overflow = s.g.overflow ∧
      dataOf s'.c.trace ++ s'.g.cout = dataOf s.c.trace ++ s.g.cout := by
  unfold sshChannelFlush
  rw [hopen, hclosed, if_neg (by decide)]
  by_cases hst : s.c.state = .error
  · dsimp only
    rw [flushLoop_failed s.g.cout.length hst hopen hclosed hlive]
    exact ⟨hopen, hclosed, rfl, rfl⟩
  · obtain ⟨hopen', hclosed', hcout, hover, hdata⟩ :=
      @flushLoop_fifo env s.g.cout.length 0 s hst (Nat.zero_le _)
    dsimp only
    rw [hcout]
    exact ⟨hopen'.trans hopen, hclosed'.trans hclosed, hover, hdata⟩

/-! ## Runs -/

/-- The channel is open, and not closed. -/
structure Ssh.Pipe (s : Ssh) : Prop where
  chanOpen : s.c.chanOpen = true
  chanClosed : s.c.chanClosed = false

/-- One call keeps the order. -/
theorem Ssh.Pipe.step {op : SshOp} (h : s.Pipe) (hop : StagedOp op s)
    (hmeets : op.Meets env Adjusts s) (hrun : op.run env s = some s') :
    s'.Pipe ∧ s'.g.overflow = s.g.overflow ∧
      dataOf s'.c.trace ++ s'.g.cout = dataOf s.c.trace ++ s.g.cout ++ op.takes s := by
  cases op with
  | input data beyond fuel =>
      have hst := input_stages hmeets hrun
      refine ⟨⟨hst.chanOpen.trans h.chanOpen, hst.chanClosed.trans h.chanClosed⟩, hst.overflow, ?_⟩
      rw [hst.data, hst.cout]
      exact (List.append_nil _).symm
  | putc b =>
      cases hrun
      unfold SshOp.takes sshChannelPutc
      split
      · exact ⟨h, rfl, (List.append_nil _).symm⟩
      · split
        · exact ⟨h, rfl, (List.append_nil _).symm⟩
        · exact ⟨⟨h.chanOpen, h.chanClosed⟩, rfl, (List.append_assoc _ _ _).symm⟩
  | flush =>
      cases hrun
      obtain ⟨hopen, hclosed, hover, hdata⟩ :=
        @sshChannelFlush_fifo env s h.chanOpen h.chanClosed hop
      refine ⟨⟨hopen, hclosed⟩, hover, ?_⟩
      rw [hdata]
      exact (List.append_nil _).symm
  | output max =>
      cases hrun
      exact ⟨⟨h.chanOpen, h.chanClosed⟩, rfl, (List.append_nil _).symm⟩
  | discardOutput => cases hop
  | getc => cases hop
  | emit plain outmax => cases hop
  | close => cases hop
  | shared g => cases hop

/-- What a call frames goes to the end of `g_ob`, and what it hands out comes from its front. -/
theorem queue_step {op : SshOp} (hop : StagedOp op s) (hrun : op.run env s = some s')
    (hover : s'.g.overflow = false) :
    ∃ queued, wireOf s'.c.trace = wireOf s.c.trace ++ queued ∧
      s.g.ob ++ queued = op.drains s ++ s'.g.ob := by
  have hrecords : s.Records s' → ∃ queued, wireOf s'.c.trace = wireOf s.c.trace ++ queued ∧
      s.g.ob ++ queued = s'.g.ob := by
    intro h
    obtain ⟨queued, hob, hwire⟩ := h.ob hover
    exact ⟨queued, hwire, hob.symm⟩
  cases op with
  | input data beyond fuel => exact hrecords (sshInput_records hrun)
  | putc b =>
      cases hrun
      refine hrecords (.same ?_ ?_ ?_ ?_)
      all_goals
        unfold sshChannelPutc
        split
        · rfl
        · split <;> rfl
  | flush =>
      cases hrun
      exact hrecords (.acts (W := True) (sshChannelFlush_acts env s))
  | output max =>
      cases hrun
      exact ⟨[], (List.append_nil _).symm, by
        rw [List.append_nil]
        exact (List.take_append_drop max s.g.ob).symm⟩
  | discardOutput => cases hop
  | getc => cases hop
  | emit plain outmax => cases hop
  | close => cases hop
  | shared g => cases hop

theorem gathered_cons {gives : Ssh → SshOp → List UInt8} {op : SshOp} {ops : List SshOp}
    (h : op.run env s = some s') :
    gathered env gives (op :: ops) s = gives s op ++ gathered env gives ops s' := by
  rw [gathered, h]

/-- On an open channel, however calls that stage, flush and drain and window adjustments of the
client follow each other, the data queued and the bytes still staged are those from before and
then the bytes that `ssh_channel_putc` accepted, in their order, and the output buffer does not
overflow; provided that no flush finds something to frame on a connection that has failed.  And if
it had not overflowed before, what `ssh_output` handed out and what is left in `g_ob` are what was
there and then the packets framed since. -/
theorem staged_output_fifo (ops : List SshOp) {s s' : Ssh} (h : s.Pipe)
    (hmeets : RunMeets env Adjusts StagedOp ops s) (hrun : sshRun env ops s = some s') :
    dataOf s'.c.trace ++ s'.g.cout = dataOf s.c.trace ++ s.g.cout ++ accepted env ops s ∧
      s'.g.overflow = s.g.overflow ∧
      (s.g.overflow = false → ∃ queued, wireOf s'.c.trace = wireOf s.c.trace ++ queued ∧
        s.g.ob ++ queued = drained env ops s ++ s'.g.ob) := by
  induction ops generalizing s with
  | nil =>
      cases hrun
      exact ⟨(List.append_nil _).symm, rfl, fun _ => ⟨[], (List.append_nil _).symm,
        List.append_nil _⟩⟩
  | cons op ops ih =>
      rw [sshRun, Option.bind_eq_some_iff] at hrun
      obtain ⟨s₁, hop, hrest⟩ := hrun
      obtain ⟨h₁, hover, hdata⟩ := h.step hmeets.1 hmeets.2.1 hop
      obtain ⟨hall, hover', hqueue'⟩ := ih h₁ (hmeets.2.2 s₁ hop) hrest
      refine ⟨?_, hover'.trans hover, fun hroom => ?_⟩
      · rw [hall, hdata, accepted, gathered_cons hop, ← accepted, List.append_assoc]
      · obtain ⟨first, hwire, hob⟩ := queue_step hmeets.1 hop (hover.trans hroom)
        obtain ⟨rest, hwire', hob'⟩ := hqueue' (hover.trans hroom)
        refine ⟨first ++ rest, by rw [hwire', hwire, List.append_assoc], ?_⟩
        rw [drained, gathered_cons hop, ← drained, ← List.append_assoc, hob, List.append_assoc,
          hob', List.append_assoc]

end

/-- A client that logs in and opens a channel with a window of one byte. -/
def pipeOps : List SshOp :=
  feed (loginChunks ++ [sealedFrame 5 (sessionOpen 1), sealedFrame 6 shellRequest])

/-- The server has three bytes, and the client grants one more. -/
def stagedOps : List SshOp :=
  [.putc 65, .flush, .putc 66, .putc 67, .flush, .output 10] ++
    feed [sealedFrame 7 ([MSG_CHANNEL_WINDOW_ADJUST] ++ be32 0 ++ be32 1)] ++ [.flush]

theorem staged_output_fifo_three_bytes : ∃ s s', SshReach sampleEnv s ∧ s.Pipe ∧
    sshRun sampleEnv stagedOps s = some s' ∧
    dataOf s'.c.trace ++ s'.g.cout =
      dataOf s.c.trace ++ s.g.cout ++ accepted sampleEnv stagedOps s := by
  have hrun : (sshRun sampleEnv pipeOps (sshReset sampleEnv SshShared.zero)).map (fun s =>
      (s.c.chanOpen, s.c.chanClosed, decide (RunMeets sampleEnv Adjusts StagedOp stagedOps s),
        (sshRun sampleEnv stagedOps s).isSome)) = some (true, false, true, true) := by
    decide +kernel
  obtain ⟨s, hs, hl⟩ := Option.map_eq_some_iff.mp hrun
  simp only [Prod.mk.injEq, decide_eq_true_iff] at hl
  obtain ⟨hopen, hclosed, hmeets, hsome⟩ := hl
  obtain ⟨s', hs'⟩ := Option.isSome_iff_exists.mp hsome
  exact ⟨s, s', ⟨_, _, hs⟩, ⟨hopen, hclosed⟩, hs',
    (staged_output_fifo stagedOps ⟨hopen, hclosed⟩ hmeets hs').1⟩

/-- After a malformed message a flush queues the staged byte and keeps it staged. -/
theorem failed_flush_doubles : ∃ s, SshReach sampleEnv s ∧ s.Pipe ∧
    dataOf s.c.trace = [] ∧ s.g.cout = [] ∧
    ∃ s', sshRun sampleEnv [.putc 65, .flush] s = some s' ∧
      dataOf s'.c.trace ++ s'.g.cout ≠ accepted sampleEnv [.putc 65, .flush] s := by
  have hrun : (sshRun sampleEnv (pipeOps ++ feed [sealedFrame 7 [MSG_CHANNEL_OPEN]])
      (sshReset sampleEnv SshShared.zero)).map (fun s => (s.c.chanOpen, s.c.chanClosed,
        [dataOf s.c.trace, s.g.cout, accepted sampleEnv [.putc 65, .flush] s],
        (sshRun sampleEnv [.putc 65, .flush] s).map fun s' => dataOf s'.c.trace ++ s'.g.cout)) =
      some (true, false, [[], [], [65]], some [65, 65]) := by
    decide +kernel
  obtain ⟨s, hs, hl⟩ := Option.map_eq_some_iff.mp hrun
  simp only [Prod.mk.injEq, List.cons.injEq, and_true] at hl
  obtain ⟨hopen, hclosed, ⟨hdata, hcout, hacc⟩, hafter⟩ := hl
  obtain ⟨s', hs', heq⟩ := Option.map_eq_some_iff.mp hafter
  refine ⟨s, ⟨_, _, hs⟩, ⟨hopen, hclosed⟩, hdata, hcout, s', hs', ?_⟩
  rw [heq, hacc]
  decide

end Dossh
