import Dossh.Ssh.Channels
import Dossh.Ssh.Latch

/-!
# The window of the peer

The client grants a window when it opens the channel and adds to it later.  `windowLedger`
keeps the account in exact numbers over the events of a connection, while the code keeps a
32-bit counter that may wrap.  The counter never promises more than the account.

`ssh_channel_flush` leaves its loop before the bookkeeping when the connection has failed, and
a connection that failed before the call frames a packet all the same.  So the runs here do
not flush a failed connection that has something to frame.
-/

namespace Dossh

open Ssh

/-! ## The account -/

/-- The initial window and maximal packet of the channel, what was added to the window since,
and the sizes of the data packets. -/
structure WindowLedger where
  opened : Option (Nat × Nat)
  credit : Nat
  sent : List Nat
deriving DecidableEq, Repr

/-- Enter an event. -/
def WindowLedger.post (env : SshEnv) (l : WindowLedger) : SshEvent → WindowLedger
  | .packet .session _ _ _ _ payload =>
      match l.opened with
      | none => { l with opened := openRequest env payload }
      | some _ => { l with credit := l.credit + adjustment payload }
  | .frame _ _ payload _ =>
      if payload.headD 0 = MSG_CHANNEL_DATA then { l with sent := l.sent ++ [payload.length - 9] }
      else l
  | _ => l

/-- The account of a connection. -/
def windowLedger (env : SshEnv) (trace : List SshEvent) : WindowLedger :=
  trace.foldr (fun e l => l.post env e) ⟨none, 0, []⟩

/-- The code's counter agrees with the account up to full wraps of it. -/
structure Balanced (env : SshEnv) (c : SshConn) : Prop where
  unopened : (windowLedger env c.trace).opened = none →
    c.chanOpen = false ∧ (windowLedger env c.trace).sent = [] ∧
      (windowLedger env c.trace).credit = 0
  opened : ∀ window maxpkt, (windowLedger env c.trace).opened = some (window, maxpkt) →
    c.chanOpen = true ∧ c.peerMaxpkt = maxpkt ∧
    (∀ n ∈ (windowLedger env c.trace).sent, 1 ≤ n ∧ n ≤ SSH_CHAN_CHUNK ∧ n ≤ maxpkt) ∧
    ∃ wraps, (windowLedger env c.trace).sent.sum + c.peerWindow + wraps * 4294967296 =
      window + (windowLedger env c.trace).credit

/-- A flush of this connection frames data although the connection has failed. -/
def FlushesFailed (s : Ssh) : Prop :=
  s.c.state = .error ∧ s.c.chanOpen = true ∧ s.c.chanClosed = false ∧
    0 < min (min (min s.g.cout.length SSH_CHAN_CHUNK) s.c.peerWindow) s.c.peerMaxpkt ∧
    s.g.ob.length + min (min (min s.g.cout.length SSH_CHAN_CHUNK) s.c.peerWindow) s.c.peerMaxpkt +
      64 ≤ SSH_OB_SZ

instance (s : Ssh) : Decidable (FlushesFailed s) := inferInstanceAs (Decidable (_ ∧ _))

/-- No failed connection is flushed. -/
def FlushesLive : SshOp → Ssh → Prop
  | .flush, s | .close, s => ¬ FlushesFailed s
  | _, _ => True

instance : ∀ (op : SshOp) (s : Ssh), Decidable (FlushesLive op s)
  | .flush, s | .close, s => inferInstanceAs (Decidable (¬ FlushesFailed s))
  | .input _ _ _, _ | .output _, _ | .discardOutput, _ | .getc, _ | .putc _, _ | .emit _ _, _
  | .shared _, _ => isTrue trivial

section

variable {env : SshEnv} {c c' : SshConn} {s s' : Ssh} {g : SshShared} {l : WindowLedger}

theorem windowLedger_cons (env : SshEnv) (e : SshEvent) (trace : List SshEvent) :
    windowLedger env (e :: trace) = (windowLedger env trace).post env e := rfl

theorem post_frame {payload bytes : List UInt8} {enc : Bool} {seq : BitVec 32}
    (h : payload.headD 0 ≠ MSG_CHANNEL_DATA) : l.post env (.frame enc seq payload bytes) = l := by
  rw [WindowLedger.post, if_neg h]

/-- Events off the channel do not enter the account. -/
theorem post_off {e : SshEvent} (h : e.offChannel = true) : l.post env e = l := by
  rw [SshEvent.offChannel, Bool.and_eq_true, List.isEmpty_iff] at h
  cases e with
  | packet => cases h.1
  | ident => rfl
  | key => rfl
  | frame enc seq payload bytes =>
      refine post_frame fun hdata => ?_
      cases payload with
      | nil => cases hdata
      | cons b rest =>
          rw [List.headD_cons] at hdata
          subst hdata
          exact absurd h.2 (by simp [SshEvent.said, channelType, channelTypes])

theorem windowLedger_off {es : List SshEvent} (hes : ∀ e ∈ es, e.offChannel = true)
    (trace : List SshEvent) : windowLedger env (es ++ trace) = windowLedger env trace := by
  induction es with
  | nil => rfl
  | cons e es ih =>
      rw [List.cons_append, windowLedger_cons, post_off (hes e List.mem_cons_self)]
      exact ih fun e he => hes e (List.mem_cons_of_mem _ he)

theorem Ssh.OffChannel.ledger (h : s.OffChannel s') :
    windowLedger env s'.c.trace = windowLedger env s.c.trace := by
  obtain ⟨es, htr, hes⟩ := h.logs
  rw [htr, windowLedger_off hes]

/-- Sending a message that carries no data. -/
theorem ledger_send (env : SshEnv) (s : Ssh) {type : UInt8} (rest : List UInt8)
    (htype : type ≠ MSG_CHANNEL_DATA) :
    windowLedger env (s.sendPacket env (type :: rest)).c.trace = windowLedger env s.c.trace := by
  rcases sendPacket_logs env s (type :: rest) with htr | ⟨enc, seq, bytes, htr⟩
  · rw [htr]
  · rw [htr, windowLedger_cons]
    exact post_frame htype

/-- Data enters with its length. -/
theorem post_data (data : List UInt8) (enc : Bool) (seq : BitVec 32) (bytes : List UInt8) :
    l.post env (.frame enc seq (channelData c data) bytes) =
      { l with sent := l.sent ++ [data.length] } := by
  have hlen : (channelData c data).length - 9 = data.length := by
    rw [channelData_cons, List.length_cons, length_dataRest]
    omega
  rw [WindowLedger.post, hlen]
  exact if_pos rfl

/-! ## Balance -/

namespace Balanced

/-- The balance depends on the account, the flag and the two windows. -/
theorem congr (h : Balanced env c) (htr : windowLedger env c'.trace = windowLedger env c.trace)
    (hopen : c'.chanOpen = c.chanOpen) (hwindow : c'.peerWindow = c.peerWindow)
    (hmax : c'.peerMaxpkt = c.peerMaxpkt) : Balanced env c' := by
  constructor
  · rw [htr, hopen]
    exact h.unopened
  · rw [htr, hopen, hwindow, hmax]
    exact h.opened

theorem off (h : Balanced env s.c) (hoff : s.OffChannel s') : Balanced env s'.c := by
  have hf := hoff.fields
  simp only [SshConn.channel, Prod.mk.injEq] at hf
  exact h.congr hoff.ledger hf.2.2.1 hf.1 hf.2.1

theorem send (h : Balanced env s.c) {type : UInt8} (rest : List UInt8)
    (htype : type ≠ MSG_CHANNEL_DATA) : Balanced env (s.sendPacket env (type :: rest)).c := by
  have hf := sendPacket_channel env s (type :: rest)
  simp only [SshConn.channel, Prod.mk.injEq] at hf
  exact h.congr (ledger_send env s rest htype) hf.2.2.1 hf.1 hf.2.1

/-- The account of an open channel. -/
theorem account (h : Balanced env c) (hopen : c.chanOpen = true) :
    ∃ window maxpkt, (windowLedger env c.trace).opened = some (window, maxpkt) := by
  cases hl : (windowLedger env c.trace).opened with
  | none => exact absurd (hopen.symm.trans (h.unopened hl).1) nofun
  | some r => exact ⟨r.1, r.2, rfl⟩

/-- Data that fits is booked on both sides. -/
theorem data (h : Balanced env c) (hopen : c.chanOpen = true) {data : List UInt8}
    (hpos : 0 < data.length) (hchunk : data.length ≤ SSH_CHAN_CHUNK)
    (hwindow : data.length ≤ c.peerWindow) (hmax : data.length ≤ c.peerMaxpkt)
    {enc : Bool} {seq : BitVec 32} {bytes : List UInt8}
    (htr : c'.trace = .frame enc seq (channelData c data) bytes :: c.trace)
    (hopen' : c'.chanOpen = c.chanOpen) (hwindow' : c'.peerWindow = c.peerWindow - data.length)
    (hmax' : c'.peerMaxpkt = c.peerMaxpkt) : Balanced env c' := by
  have hledger : windowLedger env c'.trace =
      { windowLedger env c.trace with
        sent := (windowLedger env c.trace).sent ++ [data.length] } := by
    rw [htr, windowLedger_cons, post_data]
  obtain ⟨w, m, hacc⟩ := h.account hopen
  constructor
  · intro hnone
    rw [hledger] at hnone
    exact absurd (hacc.symm.trans hnone) nofun
  · intro w' m' hsome
    obtain ⟨-, hm, hsizes, wraps, hsum⟩ := h.opened w' m' (by rw [hledger] at hsome; exact hsome)
    rw [hledger, hopen', hmax', hwindow']
    refine ⟨hopen, hm, ?_, wraps, ?_⟩
    · intro n hn
      rcases List.mem_append.mp hn with hn | hn
      · exact hsizes n hn
      · rw [List.mem_singleton.mp hn, ← hm]
        exact ⟨hpos, hchunk, hmax⟩
    · rw [List.sum_append, List.sum_singleton]
      dsimp only
      omega

end Balanced

/-! ## Calls -/

/-- A packet of data fits into the queue, so a live connection stays live. -/
theorem sendData_queued (env : SshEnv) {data : List UInt8} (h : s.Chunk data) :
    ∃ enc seq bytes, (s.sendPacket env (channelData s.c data)).c = { s.c with
      sendSeq := (s.sendPacket env (channelData s.c data)).c.sendSeq
      trace := .frame enc seq (channelData s.c data) bytes :: s.c.trace } := by
  have hlen : (channelData s.c data).length = 9 + data.length := by
    rw [channelData_cons, List.length_cons, length_dataRest]
    omega
  have hfits : (channelData s.c data).length ≤ SSH_ENC_MAX_PLEN := by
    have hchunk := h.chunk
    have hsz : SSH_CHAN_CHUNK = 200 := rfl
    have hmax : SSH_ENC_MAX_PLEN = 247 := rfl
    omega
  have hroom : s.g.ob.length + wireLen s.c.sendEncrypted (channelData s.c data).length ≤
      SSH_OB_SZ := by
    have hroom := h.room
    rw [hlen]
    unfold wireLen padLen
    split <;> split <;> omega
  obtain ⟨enc, seq, bytes, htr⟩ := sendPacket_trace env s hfits
  have hq := (sendPacket_queued env s (channelData s.c data) (fun _ => hfits) hroom).conn
  rw [htr] at hq
  exact ⟨enc, seq, bytes, hq⟩

namespace Balanced

theorem flushLoop (h : Balanced env s.c) (hopen : s.c.chanOpen = true)
    (hst : s.c.state ≠ .error) (fuel sent : Nat) :
    Balanced env (flushLoop env fuel sent s).2.c := by
  refine (flushLoop_keeps
    (P := fun s => Balanced env s.c ∧ s.c.chanOpen = true ∧ s.c.state ≠ .error) ?_ ?_ fuel sent
    (s := s) ⟨h, hopen, hst⟩).1
  · rintro s data ⟨-, -, hst⟩ hchunk herr
    obtain ⟨enc, seq, bytes, hc⟩ := sendData_queued env hchunk
    rw [hc] at herr
    exact absurd herr hst
  · rintro s s₁ data ⟨hb, hopen, -⟩ hchunk hs₁ hst
    obtain ⟨enc, seq, bytes, hc⟩ := sendData_queued env hchunk
    rw [← hs₁] at hc
    have htr : s₁.c.trace = .frame enc seq (channelData s.c data) bytes :: s.c.trace := by rw [hc]
    refine ⟨?_, by rw [hc]; exact hopen, hst⟩
    refine hb.data hopen hchunk.pos hchunk.chunk hchunk.window hchunk.maxpkt htr ?_ ?_ ?_
    all_goals
      dsimp only
      rw [hc]

theorem flush (h : Balanced env s.c) (hlive : ¬ FlushesFailed s) :
    Balanced env (sshChannelFlush env s).c := by
  rcases sshChannelFlush_cases env s with heq | ⟨hopen, hclosed, heq⟩
  · rw [heq]
    exact h
  · rw [heq]
    by_cases hst : s.c.state = .error
    · have hnone : (Dossh.flushLoop env s.g.cout.length 0 s).2 = s := by
        cases hfuel : s.g.cout.length with
        | zero => rfl
        | succ fuel =>
            rw [Dossh.flushLoop]
            dsimp only
            split
            · rfl
            next htake =>
              split
              · rfl
              next hroom =>
                refine absurd ⟨hst, hopen, hclosed, ?_, ?_⟩ hlive
                · omega
                · omega
      rw [hnone]
      exact h
    · exact h.flushLoop hopen hst _ _

theorem close (h : Balanced env s.c) (hlive : ¬ FlushesFailed s) :
    Balanced env (sshChannelClose env s).c := by
  unfold sshChannelClose
  split
  · exact h
  · have hflushed := h.flush hlive
    generalize sshChannelFlush env s = s₁ at hflushed
    dsimp only
    generalize hs₂ : (if s₁.c.shellReady = true then _ else s₁ : Ssh) = s₂
    have hstatus : Balanced env s₂.c := by
      rw [← hs₂]
      split
      · exact hflushed.send _ (by decide)
      · exact hflushed
    generalize hs₃ : (if (!s₂.c.chanSentEof) = true then _ else s₂ : Ssh) = s₃
    have heof : Balanced env s₃.c := by
      rw [← hs₃]
      split
      · exact (hstatus.send _ (by decide)).congr rfl rfl rfl rfl
      · exact hstatus
    exact (heof.send _ (by decide)).congr rfl rfl rfl rfl

theorem emit (h : Balanced env s.c) (plain : List UInt8) (outmax : Nat) :
    Balanced env (sshChannelEmit env s plain outmax).2.c := by
  rcases sshChannelEmit_cases env s plain outmax with
    heq | ⟨hopen, -, hpos, hchunk, hwindow, hmax, bytes, hc⟩
  · rw [heq]
    exact h
  · rw [hc]
    exact h.data hopen hpos hchunk hwindow hmax rfl rfl rfl rfl

theorem call (h : Balanced env s.c) {op : SshOp} (hop : op.isInput = false)
    (hlive : FlushesLive op s) (hrun : op.run env s = some s') : Balanced env s'.c := by
  cases op with
  | input => cases hop
  | putc b =>
      cases hrun
      unfold sshChannelPutc
      repeat' split
      all_goals exact h
  | flush =>
      cases hrun
      exact h.flush hlive
  | emit plain outmax =>
      cases hrun
      exact h.emit plain outmax
  | close =>
      cases hrun
      exact h.close hlive
  | _ =>
      cases hrun
      exact h

end Balanced

/-! ## Packets -/

namespace Balanced

/-- A packet that neither opens nor credits leaves the account as it is. -/
theorem handing (h : Balanced env s.c) (ib wire : List UInt8) {pl : Payload}
    (hopen : s.c.state = .session → s.c.chanOpen = false → openRequest env pl.bytes = none)
    (hadj : s.c.state = .session → adjustment pl.bytes = 0) :
    Balanced env (s.handing ib wire pl).c := by
  refine h.congr ?_ rfl rfl rfl
  change windowLedger env (.packet s.c.state _ _ _ _ pl.bytes :: s.c.trace) = _
  rw [windowLedger_cons]
  by_cases hst : s.c.state = .session
  · rw [hst, WindowLedger.post]
    split
    next hnone =>
      rw [hopen hst (h.unopened hnone).1, ← hnone]
    next =>
      rw [hadj hst, Nat.add_zero]
  · generalize s.c.state = st at hst
    cases st with
    | session => exact absurd rfl hst
    | _ => rfl

theorem ledger_handing (env : SshEnv) (hst : s.c.state = .session) (ib wire : List UInt8) (pl : Payload) :
    windowLedger env (s.handing ib wire pl).c.trace =
      match (windowLedger env s.c.trace).opened with
      | none => { windowLedger env s.c.trace with opened := openRequest env pl.bytes }
      | some _ => { windowLedger env s.c.trace with
          credit := (windowLedger env s.c.trace).credit + adjustment pl.bytes } := by
  change windowLedger env (.packet s.c.state _ _ _ _ pl.bytes :: s.c.trace) = _
  rw [windowLedger_cons, hst, WindowLedger.post]

/-- The request that opens the channel begins the account. -/
theorem opening (h : Balanced env s.c) {ib wire : List UInt8} {pl : Payload}
    (hst : s.c.state = .session) (hopen : s.c.chanOpen = false) {iwin maxp : Nat}
    (hreq : openRequest env pl.bytes = some (iwin, maxp))
    (htr : s'.c.trace = (s.handing ib wire pl).c.trace)
    (hfields : s'.c.channel =
      (iwin, maxp, true, s.c.chanSentEof, s.c.chanSentClose, s.c.chanClosed)) :
    Balanced env s'.c := by
  simp only [SshConn.channel, Prod.mk.injEq] at hfields
  have hnone : (windowLedger env s.c.trace).opened = none := by
    cases hl : (windowLedger env s.c.trace).opened with
    | none => rfl
    | some r => exact absurd (hopen.symm.trans (h.opened r.1 r.2 hl).1) nofun
  obtain ⟨-, hsent, hcredit⟩ := h.unopened hnone
  have hledger := ledger_handing env hst ib wire pl
  rw [hnone, hreq, ← htr] at hledger
  dsimp only at hledger
  constructor
  · rw [hledger]
    exact nofun
  · rw [hledger]
    intro w m heq
    cases heq
    refine ⟨hfields.2.2.1, hfields.2.1, ?_, 0, ?_⟩
    · rw [hsent]
      exact nofun
    · rw [hsent, hcredit, hfields.1]
      simp

/-- An adjustment is added on both sides, and the counter may wrap. -/
theorem crediting (h : Balanced env s.c) {ib wire : List UInt8} {pl : Payload}
    (hst : s.c.state = .session) (hmsg : pl.msg = MSG_CHANNEL_WINDOW_ADJUST)
    (htr : s'.c.trace = (s.handing ib wire pl).c.trace)
    (hwindow : s'.c.peerWindow = (s.c.peerWindow + adjustment pl.bytes) % 4294967296)
    (hmax : s'.c.peerMaxpkt = s.c.peerMaxpkt) (hopen : s'.c.chanOpen = s.c.chanOpen) :
    Balanced env s'.c := by
  have hreq : openRequest env pl.bytes = none := by
    cases hreq : openRequest env pl.bytes with
    | none => rfl
    | some r =>
        have hopen := openRequest_msg hreq
        rw [hmsg] at hopen
        cases hopen
  have hledger := ledger_handing env hst ib wire pl
  rw [← htr] at hledger
  cases hl : (windowLedger env s.c.trace).opened with
  | none =>
      rw [hl, hreq] at hledger
      dsimp only at hledger
      obtain ⟨hclosed, hsent, hcredit⟩ := h.unopened hl
      constructor
      · rw [hledger, hopen]
        exact fun _ => ⟨hclosed, hsent, hcredit⟩
      · rw [hledger]
        exact nofun
  | some r =>
      rw [hl] at hledger
      dsimp only at hledger
      constructor
      · rw [hledger, hl]
        exact nofun
      · rw [hledger]
        intro w m heq
        obtain ⟨ho, hm, hsizes, wraps, hsum⟩ := h.opened w m heq
        refine ⟨hopen.trans ho, hmax.trans hm, hsizes,
          wraps + (s.c.peerWindow + adjustment pl.bytes) / 4294967296, ?_⟩
        rw [hwindow]
        dsimp only
        omega

/-- A packet keeps the balance. -/
theorem packet (h : Balanced env s.c) (ib wire : List UInt8) (pl : Payload) :
    Balanced env (handlePacket env (s.handing ib wire pl) pl).c := by
  have hsilent : pl.msg ≠ MSG_CHANNEL_OPEN → pl.msg ≠ MSG_CHANNEL_WINDOW_ADJUST →
      Balanced env (s.handing ib wire pl).c := by
    intro hopen hadj
    refine h.handing ib wire (fun _ _ => ?_) fun _ => adjustment_msg hadj
    cases hreq : openRequest env pl.bytes with
    | none => rfl
    | some r => exact absurd (openRequest_msg hreq) hopen
  cases handlePacket_channel env (s.handing ib wire pl) pl with
  | off hoff hopen hadj => exact (h.handing ib wire hopen hadj).off hoff
  | opened hst _ hopen iwin maxp hreq s₁ htr hfields rest hlen hs' =>
      rw [hs']
      exact (h.opening hst hopen hreq htr hfields).send rest (by decide)
  | replied hask s₁ hoff type htype rest hlen hs' =>
      have hnone : pl.msg ≠ MSG_CHANNEL_OPEN ∧ pl.msg ≠ MSG_CHANNEL_WINDOW_ADJUST := by
        rcases hask.2 with hreq | hdata
        · rw [hreq.1]
          decide
        · rw [hdata.1]
          decide
      have hdata : ∀ type ∈ [MSG_CHANNEL_WINDOW_ADJUST, MSG_CHANNEL_SUCCESS, MSG_CHANNEL_FAILURE],
          type ≠ MSG_CHANNEL_DATA := forall_mem_of_all (by decide)
      exact (((hsilent hnone.1 hnone.2).off hoff).send rest (hdata type htype)).off hs'
  | credited hst hmsg htr hfields =>
      simp only [SshConn.channel, Prod.mk.injEq] at hfields
      exact h.crediting hst hmsg htr hfields.1 hfields.2.1 hfields.2.2.1
  | closed hst hmsg s₁ s₂ hc hg hs₂ hs' =>
      have hbefore : Balanced env s₁.c := by
        rw [hc]
        refine hsilent ?_ ?_
        all_goals
          rw [hmsg]
          decide
      have hlive : ¬ FlushesFailed s₁ := by
        rintro ⟨herr, -⟩
        rw [hc, hst] at herr
        cases herr
      have hclose : Balanced env s₂.c := by
        rw [hs₂]
        split
        · exact hbefore.close hlive
        · exact hbefore
      rw [hs']
      exact hclose.congr rfl rfl rfl rfl

end Balanced

/-! ## Runs -/

theorem sshReset_balanced (env : SshEnv) (g : SshShared) : Balanced env (sshReset env g).c := by
  obtain ⟨s₀, hc, hoff⟩ := sshReset_off env g
  refine Balanced.off ?_ hoff
  rw [hc]
  exact ⟨fun _ => ⟨rfl, rfl, rfl⟩, nofun⟩

/-- In every run that does not flush a failed connection, the data sent stays within what the
client granted, every packet is within its limits, and the counter of the code is what the
account leaves, less full wraps. -/
theorem window_respected {ops : List SshOp}
    (hmeets : RunMeets env (fun _ _ => True) FlushesLive ops (sshReset env g))
    (hrun : sshRun env ops (sshReset env g) = some s) :
    ((windowLedger env s.c.trace).opened = none → (windowLedger env s.c.trace).sent = []) ∧
    ∀ window maxpkt, (windowLedger env s.c.trace).opened = some (window, maxpkt) →
      (windowLedger env s.c.trace).sent.sum ≤ window + (windowLedger env s.c.trace).credit ∧
      (∀ n ∈ (windowLedger env s.c.trace).sent, 1 ≤ n ∧ n ≤ min SSH_CHAN_CHUNK maxpkt) ∧
      ∃ wraps, (windowLedger env s.c.trace).sent.sum + s.c.peerWindow + wraps * 4294967296 =
        window + (windowLedger env s.c.trace).credit := by
  have hb : Balanced env s.c := by
    refine RunMeets.keeps (P := fun s => Balanced env s.c) ?_ ?_ ?_ ops (sshReset_balanced env g)
      hmeets hrun
    · intro s s' h hd
      rw [hd.conn]
      exact h.congr rfl rfl rfl rfl
    · intro s ib wire pl h _
      exact h.packet ib wire pl
    · intro op s s' h hop hlive hrun
      exact h.call hop hlive hrun
  refine ⟨fun hnone => (hb.unopened hnone).2.1, fun window maxpkt hacc => ?_⟩
  obtain ⟨-, -, hsizes, wraps, hsum⟩ := hb.opened window maxpkt hacc
  refine ⟨by omega, fun n hn => ?_, wraps, hsum⟩
  obtain ⟨hpos, hchunk, hmax⟩ := hsizes n hn
  exact ⟨hpos, Nat.le_min.mpr ⟨hchunk, hmax⟩⟩

end

/-- A client grants a window of one byte and then one more, and the server has two to send. -/
def twoBytesOps : List SshOp :=
  feed (loginChunks ++ [sealedFrame 5 (sessionOpen 1), sealedFrame 6 shellRequest]) ++
    [.putc 65, .putc 66, .flush] ++
    feed [sealedFrame 7 ([MSG_CHANNEL_WINDOW_ADJUST] ++ be32 0 ++ be32 1)] ++ [.flush]

theorem window_respected_two_bytes : ∃ s,
    sshRun sampleEnv twoBytesOps (sshReset sampleEnv SshShared.zero) = some s ∧
    windowLedger sampleEnv s.c.trace = ⟨some (1, 1000), 1, [1, 1]⟩ ∧
    (windowLedger sampleEnv s.c.trace).sent.sum ≤ 1 + (windowLedger sampleEnv s.c.trace).credit := by
  -- in one evaluation, since the run is the same
  obtain ⟨hmeets, hrun⟩ : RunMeets sampleEnv (fun _ _ => True) FlushesLive twoBytesOps
        (sshReset sampleEnv SshShared.zero) ∧
      (sshRun sampleEnv twoBytesOps (sshReset sampleEnv SshShared.zero)).map
        (fun s => windowLedger sampleEnv s.c.trace) = some ⟨some (1, 1000), 1, [1, 1]⟩ := by
    decide +kernel
  obtain ⟨s, hs, hl⟩ := Option.map_eq_some_iff.mp hrun
  exact ⟨s, hs, hl, ((window_respected hmeets hs).2 1 1000 (by rw [hl])).1⟩

/-- A malformed message fails the connection, and every flush sends the byte again. -/
theorem failed_flush_exceeds_window : ∃ s, SshReach sampleEnv s ∧
    (windowLedger sampleEnv s.c.trace).opened = some (1, 1000) ∧
    ¬ (windowLedger sampleEnv s.c.trace).sent.sum ≤
      1 + (windowLedger sampleEnv s.c.trace).credit := by
  have hrun : (sshRun sampleEnv (feed (loginChunks ++ [sealedFrame 5 (sessionOpen 1),
      sealedFrame 6 shellRequest]) ++ [.putc 65, .putc 66] ++
      feed [sealedFrame 7 [MSG_CHANNEL_OPEN]] ++ [.flush, .flush])
      (sshReset sampleEnv SshShared.zero)).map (fun s => windowLedger sampleEnv s.c.trace) =
      some ⟨some (1, 1000), 0, [1, 1]⟩ := by decide +kernel
  obtain ⟨s, hs, hl⟩ := Option.map_eq_some_iff.mp hrun
  refine ⟨s, ⟨_, _, hs⟩, by rw [hl], ?_⟩
  rw [hl]
  decide

end Dossh
