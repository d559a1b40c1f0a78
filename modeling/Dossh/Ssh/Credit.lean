import Dossh.Ssh.Window

/-!
# The window of the server

The server grants the client a window when it confirms the channel, and grants more when half
of it is used.  `creditOf` is the client's account of what it may still send, over the events
of a connection, and `local_window` is the server's.

The server ignores `CHANNEL_EXTENDED_DATA`, which the client has to count.  So the two agree
as long as the client sends none.
-/

namespace Dossh

open Ssh

/-! ## The account of the client -/

/-- `MSG_CHANNEL_EXTENDED_DATA`. -/
def MSG_CHANNEL_EXTENDED_DATA : UInt8 := 95

/-- The word at an offset of a message. -/
def wordAt (payload : List UInt8) (o : Nat) : Nat := rd32 (fun k => payload.getD k 0) o

/-- Enter an event: data that the client sent is taken off, and what the server grants is
added. -/
def creditPost (credit : Nat) : SshEvent → Nat
  | .packet .session _ _ _ _ payload =>
      if payload.headD 0 = MSG_CHANNEL_DATA then credit - wordAt payload 5
      else if payload.headD 0 = MSG_CHANNEL_EXTENDED_DATA then credit - wordAt payload 9
      else credit
  | .frame _ _ payload _ =>
      if payload.headD 0 = MSG_CHANNEL_OPEN_CONFIRMATION then wordAt payload 9
      else if payload.headD 0 = MSG_CHANNEL_WINDOW_ADJUST then credit + wordAt payload 5
      else credit
  | _ => credit

/-- What the client may still send. -/
def creditOf (trace : List SshEvent) : Nat := trace.foldr (fun e credit => creditPost credit e) 0

theorem creditOf_cons (e : SshEvent) (trace : List SshEvent) :
    creditOf (e :: trace) = creditPost (creditOf trace) e := rfl

/-- A message of a client that keeps to its credit on the open channel. -/
structure Respects (c : SshConn) (pl : Payload) : Prop where
  data : c.state = .session → c.chanOpen = true → pl.msg = MSG_CHANNEL_DATA →
    9 + pl.u32 5 ≤ pl.len ∧ pl.u32 5 ≤ creditOf c.trace
  extended : c.state = .session → c.chanOpen = true → pl.msg = MSG_CHANNEL_EXTENDED_DATA →
    13 + pl.u32 9 ≤ pl.len ∧ pl.u32 9 ≤ creditOf c.trace

instance (c : SshConn) (pl : Payload) : Decidable (Respects c pl) :=
  decidable_of_iff ((c.state = .session → c.chanOpen = true → pl.msg = MSG_CHANNEL_DATA →
      9 + pl.u32 5 ≤ pl.len ∧ pl.u32 5 ≤ creditOf c.trace) ∧
    (c.state = .session → c.chanOpen = true → pl.msg = MSG_CHANNEL_EXTENDED_DATA →
      13 + pl.u32 9 ≤ pl.len ∧ pl.u32 9 ≤ creditOf c.trace))
    ⟨fun h => ⟨h.1, h.2⟩, fun h => ⟨h.data, h.extended⟩⟩

/-- A client that sends no extended data either. -/
def RespectsPlain (c : SshConn) (pl : Payload) : Prop :=
  Respects c pl ∧
    (c.state = .session → c.chanOpen = true → pl.msg ≠ MSG_CHANNEL_EXTENDED_DATA)

instance (c : SshConn) (pl : Payload) : Decidable (RespectsPlain c pl) :=
  inferInstanceAs (Decidable (_ ∧ _))

/-- The server's account is the client's, and at least half of the window. -/
structure Level (c : SshConn) : Prop where
  agree : c.localWindow = creditOf c.trace
  half : SSH_LOCAL_WINDOW / 2 ≤ c.localWindow
  full : c.localWindow ≤ SSH_LOCAL_WINDOW

/-- The accounts of an open channel are level. -/
structure CreditInv (c : SshConn) : Prop where
  phase : c.chanOpen = true → c.state = .session ∨ c.state = .closed ∨ c.state = .error
  level : c.state = .session → c.chanOpen = true → Level c

/-- Numbers in `adjust_local_window` for a packet of data that fit into 16 bits: what is taken
is what the client sent, no more than there is, and what is granted is not cut. -/
structure AdjustFits (env : SshEnv) (c : SshConn) (pl : Payload) : Prop where
  counted : dataLen env pl = pl.u32 5
  covered : dataLen env pl ≤ c.localWindow
  small : dataLen env pl < 65536
  granted : SSH_LOCAL_WINDOW - (c.localWindow - dataLen env pl) < 65536

/-- The accounts of an open channel are level when a packet comes, and data is counted as it
was sent. -/
def Accounted (env : SshEnv) (c : SshConn) (pl : Payload) : Prop :=
  c.state = .session → c.chanOpen = true →
    Level c ∧ (pl.msg = MSG_CHANNEL_DATA → AdjustFits env c pl)

/-! ## Calls that leave the accounts alone -/

/-- Neither account moves. -/
structure Ssh.Levels (s s' : Ssh) : Prop where
  localWindow : s'.c.localWindow = s.c.localWindow
  chanOpen : s'.c.chanOpen = s.c.chanOpen
  credit : creditOf s'.c.trace = creditOf s.c.trace
  settles : s'.c.state = s.c.state ∨ s'.c.state = .error ∨ s'.c.state = .closed

namespace Ssh.Levels

variable {env : SshEnv} {s s' s'' : Ssh}

theorem of_fields (hlevel : s'.c.localWindow = s.c.localWindow)
    (hopen : s'.c.chanOpen = s.c.chanOpen) (htr : s'.c.trace = s.c.trace)
    (hst : s'.c.state = s.c.state) : s.Levels s' := ⟨hlevel, hopen, by rw [htr], .inl hst⟩

theorem of_conn (h : s'.c = s.c) : s.Levels s' := by
  refine .of_fields ?_ ?_ ?_ ?_
  all_goals rw [h]

theorem refl (s : Ssh) : s.Levels s := .of_conn rfl

theorem trans (h : s.Levels s') (h' : s'.Levels s'') : s.Levels s'' :=
  ⟨h'.localWindow.trans h.localWindow, h'.chanOpen.trans h.chanOpen, h'.credit.trans h.credit,
    Settles.trans h.settles h'.settles⟩

/-- The later call given first. -/
theorem before (h' : s'.Levels s'') (h : s.Levels s') : s.Levels s'' := h.trans h'

theorem fail (s : Ssh) (why : String) : s.Levels (s.fail why) := by
  unfold Ssh.fail
  split
  · exact ⟨rfl, rfl, rfl, .inr (.inl rfl)⟩
  · exact .refl s

/-- A packet that grants nothing. -/
theorem send (env : SshEnv) (s : Ssh) {type : UInt8} (rest : List UInt8)
    (hconfirm : type ≠ MSG_CHANNEL_OPEN_CONFIRMATION) (hadjust : type ≠ MSG_CHANNEL_WINDOW_ADJUST) :
    s.Levels (s.sendPacket env (type :: rest)) := by
  have hsends := Sends.sendPacket env s (type :: rest)
  have hlevel := congrArg SshConn.localWindow hsends.conn
  have hopen := congrArg SshConn.chanOpen hsends.conn
  refine ⟨hlevel, hopen, ?_, ?_⟩
  · rcases sendPacket_logs env s (type :: rest) with htr | ⟨enc, seq, bytes, htr⟩
    · rw [htr]
    · rw [htr, creditOf_cons, creditPost, List.headD_cons, if_neg hconfirm, if_neg hadjust]
  · rcases hsends.settles with ⟨hst, -⟩ | ⟨hst, -⟩
    · exact .inl hst
    · exact .inr (.inl hst)

theorem winsize (s : Ssh) (cols rows : Nat) :
    s.Levels { s with c := { s.c with termCols := cols, termRows := rows } } :=
  .of_fields rfl rfl rfl rfl

theorem peerWindow (s : Ssh) (window : Nat) :
    s.Levels { s with c := { s.c with peerWindow := window } } := .of_fields rfl rfl rfl rfl

/-! ### Calls -/

theorem flush (env : SshEnv) (s : Ssh) : s.Levels (sshChannelFlush env s) := by
  rcases sshChannelFlush_cases env s with heq | ⟨-, -, heq⟩
  · exact .of_conn heq
  · refine Levels.trans ?_ (.of_conn heq)
    refine flushLoop_keeps (P := fun s₁ => s.Levels s₁) ?_ ?_ _ _ (.refl s)
    · intro s₁ data h _ _
      exact h.trans (.send env s₁ (dataRest s₁.c data) (by decide) (by decide))
    · intro s₁ s₂ data h _ hs₂ _
      have hsent : s.Levels s₂ := by
        rw [hs₂]
        exact h.trans (.send env s₁ (dataRest s₁.c data) (by decide) (by decide))
      exact hsent.trans (.peerWindow s₂ _)

theorem close (env : SshEnv) (s : Ssh) : s.Levels (sshChannelClose env s) := by
  unfold sshChannelClose
  split
  · exact .refl s
  · have hflush := flush env s
    generalize sshChannelFlush env s = s₁ at hflush
    dsimp only
    generalize hs₂ : (if s₁.c.shellReady = true then _ else s₁ : Ssh) = s₂
    have hstatus : s₁.Levels s₂ := by
      rw [← hs₂]
      split
      · exact .send env s₁ _ (by decide) (by decide)
      · exact .refl s₁
    generalize hs₃ : (if (!s₂.c.chanSentEof) = true then _ else s₂ : Ssh) = s₃
    have heof : s₂.Levels s₃ := by
      rw [← hs₃]
      split
      · exact (send env s₂ _ (by decide) (by decide)).trans (.of_fields rfl rfl rfl rfl)
      · exact .refl s₂
    have hclose := send env s₃ (be32 s₃.c.peerChan) (by decide : MSG_CHANNEL_CLOSE ≠ _) (by decide)
    exact ((hflush.trans hstatus).trans heof).trans (hclose.trans (.of_fields rfl rfl rfl rfl))

theorem emit (env : SshEnv) (s : Ssh) (plain : List UInt8) (outmax : Nat) :
    s.Levels (sshChannelEmit env s plain outmax).2 := by
  rcases sshChannelEmit_cases env s plain outmax with heq | ⟨-, -, -, -, -, -, bytes, hc⟩
  · exact .of_conn (by rw [heq])
  · generalize (sshChannelEmit env s plain outmax).2 = s' at hc
    have hst : s'.c.state = s.c.state := by rw [hc]
    refine ⟨by rw [hc], by rw [hc], ?_, .inl hst⟩
    rw [hc, creditOf_cons, creditPost, channelData_cons, List.headD_cons, if_neg (by decide),
      if_neg (by decide)]

theorem call {op : SshOp} (hop : op.isInput = false) (hrun : op.run env s = some s') :
    s.Levels s' := by
  cases op with
  | input => cases hop
  | putc b =>
      cases hrun
      unfold sshChannelPutc
      repeat' split
      all_goals exact .of_conn rfl
  | flush =>
      cases hrun
      exact .flush env s
  | emit plain outmax =>
      cases hrun
      exact .emit env s plain outmax
  | close =>
      cases hrun
      exact .close env s
  | _ =>
      cases hrun
      exact .of_conn rfl

/-! ### Packets -/

theorem readWinsize (env : SshEnv) (s : Ssh) (pl : Payload) (o : Nat) :
    s.Levels (readWinsize env s pl o) := by
  unfold Dossh.readWinsize
  split
  · exact (winsize _ _ _).before (.of_conn rfl)
  · exact .refl s

theorem channelRequest (env : SshEnv) (s : Ssh) (pl rtype : Payload) (o : Nat) :
    s.Levels (channelRequest env s pl rtype o).2 := by
  unfold Dossh.channelRequest
  generalize hs₁ : (if rtype.len = 7 ∨ rtype.len = 5 ∨ rtype.len = 4 ∨ rtype.len = 13 then
    s.readAll rtype else s) = s₁
  have h₁ : s.Levels s₁ := by
    rw [← hs₁]
    split
    · exact .of_conn rfl
    · exact .refl s
  dsimp only
  split
  · generalize env.u (o + 4 + env.u (pl.u32 o)) = o₂
    generalize hs₂ : (if env.u (o + 4) ≤ pl.len then Dossh.readWinsize env (s₁.read pl o 4) pl o₂
      else s₁) = s₂
    have h₂ : s₁.Levels s₂ := by
      rw [← hs₂]
      split
      · exact (readWinsize env _ pl o₂).before (.of_conn rfl)
      · exact .refl s₁
    exact (h₁.trans h₂).trans (.of_fields rfl rfl rfl rfl)
  · split
    · exact h₁.trans (.of_fields rfl rfl rfl rfl)
    · split
      · exact h₁.trans (readWinsize env s₁ pl o)
      · exact h₁

theorem handleChannelRequest (env : SshEnv) (s : Ssh) (pl : Payload) :
    s.Levels (handleChannelRequest env s pl) := by
  unfold Dossh.handleChannelRequest
  dsimp only
  generalize env.u (pl.u32 5) = rtlen
  generalize env.u (9 + rtlen) = o
  split
  · exact .refl s
  split
  · exact .refl s
  split
  · exact .of_conn rfl
  · have hreq := (channelRequest env ((s.read pl 5 4).read pl o 1) pl (pl.sub 9 rtlen)
      (env.u (o + 1))).before (.of_conn (s := s) rfl)
    generalize Dossh.channelRequest env _ pl _ _ = r at hreq ⊢
    split
    · refine hreq.trans (.send env r.2 _ ?_ ?_)
      all_goals split <;> decide
    · exact hreq

theorem handleGlobalRequest (env : SshEnv) (s : Ssh) (pl : Payload) :
    s.Levels (handleGlobalRequest env s pl) := by
  unfold Dossh.handleGlobalRequest
  dsimp only
  generalize env.u (1 + 4 + env.u (pl.u32 1)) = o
  split
  · exact .refl s
  split
  · split
    · exact (send env _ [] (by decide) (by decide)).before (.of_conn rfl)
    · exact .of_conn rfl
  · exact .of_conn rfl

theorem handleChannelWindowAdjust (s : Ssh) (pl : Payload) :
    s.Levels (handleChannelWindowAdjust s pl) := by
  unfold Dossh.handleChannelWindowAdjust
  split
  · exact .refl s
  · exact (peerWindow _ _).before (.of_conn rfl)

theorem cinLoop (pl : Payload) : ∀ (k o : Nat) (s : Ssh), s.Levels (cinLoop pl k o s)
  | 0, _, s => .refl s
  | k + 1, o, s => by
      rw [Dossh.cinLoop]
      split
      · exact .refl s
      · have hkey : s.Levels ((s.read pl o 1).pushKey (pl.get o)) := ⟨rfl, rfl, rfl, .inl rfl⟩
        exact hkey.trans (cinLoop pl k (o + 1) _)

end Ssh.Levels

/-! ## The accounts stay level -/

section

variable {env : SshEnv} {s s' : Ssh} {g : SshShared} {pl : Payload}

/-- Reading a word of a message that was put there. -/
theorem wordAt_be32 (front back : List UInt8) {n : Nat} (hn : n < 4294967296) :
    wordAt (front ++ (be32 n ++ back)) front.length = n := by
  refine Eq.trans ?_ (rd32_be32 hn (fun k => (be32 n).getD k 0) rfl)
  have hget : ∀ k < 4, (front ++ (be32 n ++ back)).getD (front.length + k) 0 =
      (be32 n).getD (0 + k) 0 := by
    intro k hk
    have hword : k < (be32 n).length := hk
    rw [List.getD_eq_getElem?_getD, List.getElem?_append_right (Nat.le_add_right _ _),
      Nat.add_sub_cancel_left, List.getElem?_append_left hword, Nat.zero_add,
      List.getD_eq_getElem?_getD]
  unfold wordAt rd32
  dsimp only
  rw [hget 1 (by omega), hget 2 (by omega), hget 3 (by omega)]
  rw [show (front ++ (be32 n ++ back)).getD front.length 0 = _ from hget 0 (by omega)]

/-- Data that is within the credit is counted as it was sent. -/
theorem dataLen_eq (hlen : 9 + pl.u32 5 ≤ pl.len) (hfull : pl.u32 5 ≤ SSH_LOCAL_WINDOW) :
    dataLen env pl = pl.u32 5 := by
  have hsz : SSH_LOCAL_WINDOW = 32768 := rfl
  unfold dataLen
  rw [env.u_small (x := pl.u32 5) (by omega), env.u_small (by omega), if_neg (by omega)]

namespace CreditInv

theorem unopened (h : s.c.chanOpen = false) : CreditInv s.c := by
  refine ⟨fun hopen => ?_, fun _ hopen => ?_⟩
  all_goals exact absurd (h.symm.trans hopen) nofun

theorem closed {c : SshConn} (h : c.state = .closed) : CreditInv c := by
  refine ⟨fun _ => .inr (.inl h), fun hst => ?_⟩
  rw [h] at hst
  cases hst

theorem levels (h : CreditInv s.c) (hl : s.Levels s') : CreditInv s'.c := by
  constructor
  · intro hopen
    rcases hl.settles with hst | hst | hst
    · rw [hst]
      exact h.phase (hl.chanOpen ▸ hopen)
    · exact .inr (.inr hst)
    · exact .inr (.inl hst)
  · intro hst hopen
    rcases hl.settles with hsame | hend | hend
    · obtain ⟨hagree, hhalf, hfull⟩ := h.level (hsame ▸ hst) (hl.chanOpen ▸ hopen)
      constructor
      · rw [hl.localWindow, hl.credit, hagree]
      · rw [hl.localWindow]
        exact hhalf
      · rw [hl.localWindow]
        exact hfull
    · rw [hend] at hst
      cases hst
    · rw [hend] at hst
      cases hst

/-- Level accounts of a session are what the invariant asks for. -/
theorem of_level (hst : s'.c.state = .session ∨ s'.c.state = .error ∨ s'.c.state = .closed)
    (h : Level s'.c) : CreditInv s'.c := by
  refine ⟨fun _ => ?_, fun _ _ => h⟩
  rcases hst with hst | hst | hst
  · exact .inl hst
  · exact .inr (.inr hst)
  · exact .inr (.inl hst)

end CreditInv

/-- The window that the confirmation grants is the one that the server notes. -/
theorem channelOpenReply_credit (h : CreditInv s.c) (hst : s.c.state = .session)
    (isSession : Bool) (sender iwin maxp : Nat) :
    CreditInv (channelOpenReply env s isSession sender iwin maxp).c := by
  unfold channelOpenReply
  split
  · exact h.levels (.send env s _ (by decide) (by decide))
  · dsimp only
    generalize hs₁ : ({ s with c := { s.c with
      peerChan := sender, peerWindow := iwin, peerMaxpkt := maxp, localChan := 0
      localWindow := SSH_LOCAL_WINDOW, chanOpen := true } } : Ssh) = s₁
    have hst₁ : s₁.c.state = .session := by
      rw [← hs₁]
      exact hst
    have hwindow : s₁.c.localWindow = SSH_LOCAL_WINDOW := by rw [← hs₁]
    generalize hpl : [MSG_CHANNEL_OPEN_CONFIRMATION] ++ be32 sender ++ be32 0 ++
      be32 SSH_LOCAL_WINDOW ++ be32 SSH_CHAN_MAXPKT = payload
    have hlen : payload.length ≤ SSH_ENC_MAX_PLEN := by
      rw [← hpl]
      exact (by decide : 17 ≤ SSH_ENC_MAX_PLEN)
    have hword : wordAt payload 9 = SSH_LOCAL_WINDOW := by
      rw [← hpl, List.append_assoc]
      exact wordAt_be32 ([MSG_CHANNEL_OPEN_CONFIRMATION] ++ be32 sender ++ be32 0) _ (by decide)
    have hsends := Sends.sendPacket env s₁ payload
    have hlevel := congrArg SshConn.localWindow hsends.conn
    obtain ⟨enc, seq, bytes, htr⟩ := sendPacket_trace env s₁ hlen
    generalize s₁.sendPacket env payload = s₂ at hsends hlevel htr
    refine .of_level ?_ ⟨?_, ?_, ?_⟩
    · rcases hsends.settles with ⟨hsame, -⟩ | ⟨herr, -⟩
      · exact .inl (hsame.trans hst₁)
      · exact .inr (.inl herr)
    · rw [htr, creditOf_cons, creditPost, if_pos (by rw [← hpl]; rfl), hword]
      exact hlevel.trans hwindow
    · rw [show s₂.c.localWindow = SSH_LOCAL_WINDOW from hlevel.trans hwindow]
      decide
    · rw [show s₂.c.localWindow = SSH_LOCAL_WINDOW from hlevel.trans hwindow]

theorem handleChannelOpen_credit (h : CreditInv s.c) (hst : s.c.state = .session) (pl : Payload) :
    CreditInv (handleChannelOpen env s pl).c := by
  unfold handleChannelOpen
  dsimp only
  generalize env.u (pl.u32 1) = tlen
  generalize env.u (5 + tlen) = o
  split
  · exact h.levels (.fail s _)
  split
  · exact h.levels ((Levels.fail _ _).before (.of_conn rfl))
  · generalize hs₁ : (if (!_ && decide (tlen = 7)) = true then _ else _ : Ssh) = s₁
    have hc : s₁.c = s.c := by
      rw [← hs₁]
      split <;> rfl
    rw [← hc] at h hst
    exact channelOpenReply_credit h hst _ _ _ _

/-- What is taken off both accounts is granted again on both when little is left. -/
theorem adjustLocalWindow_credit (env : SshEnv) {consumed : Nat}
    (hst : s.c.state = .session ∨ s.c.state = .error ∨ s.c.state = .closed)
    (hagree : creditOf s.c.trace = s.c.localWindow - consumed)
    (hfull : s.c.localWindow ≤ SSH_LOCAL_WINDOW) :
    CreditInv (adjustLocalWindow env s consumed).c := by
  unfold adjustLocalWindow
  generalize hw : s.c.localWindow - consumed = w at hagree ⊢
  generalize hs₁ : ({ s with c := { s.c with localWindow := w } } : Ssh) = s₁
  have hst₁ : s₁.c.state = .session ∨ s₁.c.state = .error ∨ s₁.c.state = .closed := by
    rw [← hs₁]
    exact hst
  have hwindow : s₁.c.localWindow = w := by rw [← hs₁]
  have hcredit : creditOf s₁.c.trace = w := by
    rw [← hs₁]
    exact hagree
  dsimp only
  rw [hwindow]
  split
  next hhalf =>
    refine .of_level hst₁ ⟨hwindow.trans hcredit.symm, ?_, ?_⟩
    · rw [hwindow]
      exact hhalf
    · omega
  next hlow =>
    generalize hpl : [MSG_CHANNEL_WINDOW_ADJUST] ++ be32 s₁.c.peerChan ++
      be32 (SSH_LOCAL_WINDOW - w) = payload
    have hlen : payload.length ≤ SSH_ENC_MAX_PLEN := by
      rw [← hpl]
      exact (by decide : 9 ≤ SSH_ENC_MAX_PLEN)
    have hhead : payload.headD 0 = MSG_CHANNEL_WINDOW_ADJUST := by
      rw [← hpl]
      rfl
    have hsz : SSH_LOCAL_WINDOW = 32768 := rfl
    have hword : wordAt payload 5 = SSH_LOCAL_WINDOW - w := by
      rw [← hpl, ← List.append_nil (be32 (SSH_LOCAL_WINDOW - w))]
      exact wordAt_be32 ([MSG_CHANNEL_WINDOW_ADJUST] ++ be32 s₁.c.peerChan) [] (by omega)
    have hsends := Sends.sendPacket env s₁ payload
    have hlevel := congrArg SshConn.localWindow hsends.conn
    obtain ⟨enc, seq, bytes, htr⟩ := sendPacket_trace env s₁ hlen
    generalize s₁.sendPacket env payload = s₂ at hsends hlevel htr
    have hsum : s₂.c.localWindow + (SSH_LOCAL_WINDOW - w) = SSH_LOCAL_WINDOW := by
      rw [show s₂.c.localWindow = w from hlevel.trans hwindow]
      omega
    refine .of_level ?_ ⟨?_, ?_, ?_⟩
    · rcases hsends.settles with ⟨hsame, -⟩ | ⟨herr, -⟩
      · rw [hsame]
        exact hst₁
      · exact .inr (.inl herr)
    · dsimp only
      rw [hsum, htr, creditOf_cons, creditPost, if_neg (hhead ▸ by decide),
        if_pos hhead, hword, hcredit]
      omega
    · dsimp only
      rw [hsum]
      omega
    · dsimp only
      rw [hsum]

theorem handleChannelData_long (env : SshEnv) (s : Ssh) (hlong : 9 ≤ pl.len) :
    handleChannelData env s pl =
      adjustLocalWindow env (cinLoop pl (dataLen env pl) 9 (s.read pl 5 4)) (dataLen env pl) := by
  have hdlen : (if env.u (9 + env.u (pl.u32 5)) > pl.len then pl.len - 9 else env.u (pl.u32 5)) =
      dataLen env pl := rfl
  unfold handleChannelData
  rw [if_neg (Nat.not_lt.mpr hlong)]
  dsimp only
  rw [hdlen]

theorem handleChannelData_credit (hst : s.c.state = .session) (hlong : 9 ≤ pl.len) {n : Nat}
    (hcounted : dataLen env pl = n) (hagree : creditOf s.c.trace = s.c.localWindow - n)
    (hfull : s.c.localWindow ≤ SSH_LOCAL_WINDOW) : CreditInv (handleChannelData env s pl).c := by
  rw [handleChannelData_long env s hlong, hcounted]
  have hloop := (Levels.cinLoop pl n 9 (s.read pl 5 4)).before (.of_conn (s := s) rfl)
  generalize cinLoop pl n 9 (s.read pl 5 4) = s₁ at hloop ⊢
  refine adjustLocalWindow_credit env ?_ ?_ ?_
  · rw [← hst]
    exact hloop.settles
  · rw [hloop.credit, hloop.localWindow, hagree]
  · rw [hloop.localWindow]
    exact hfull

theorem Ssh.OffChannel.chanOpen (h : s.OffChannel s') : s'.c.chanOpen = s.c.chanOpen := by
  have hf := h.fields
  simp only [SshConn.channel, Prod.mk.injEq] at hf
  exact hf.2.2.1

/-- Data does not open the channel. -/
theorem handleChannelData_chanOpen (hst : s.c.state = .session) (hmsg : pl.msg = MSG_CHANNEL_DATA) :
    (handleChannelData env s pl).c.chanOpen = s.c.chanOpen := by
  have hdeed : ChannelDeed env pl s (handleChannelData env s pl) :=
    handleChannelData_channel hst hmsg
  cases hdeed with
  | off hoff => exact hoff.chanOpen
  | opened _ hopen =>
      rw [hmsg] at hopen
      cases hopen
  | replied _ s₁ hoff type _ rest _ hs' =>
      have hsend := sendPacket_channel env s₁ (type :: rest)
      simp only [SshConn.channel, Prod.mk.injEq] at hsend
      exact hs'.chanOpen.trans (hsend.2.2.1.trans hoff.chanOpen)
  | credited _ hadj =>
      rw [hmsg] at hadj
      cases hadj
  | closed _ hclose =>
      rw [hmsg] at hclose
      cases hclose

/-- Before the session nothing opens the channel. -/
theorem CreditInv.handled (h : CreditInv s.c) (hst : s.c.state ≠ .session)
    (hh : Handled env pl s s') : CreditInv s'.c := by
  by_cases hopen : s.c.chanOpen = true
  · have hend : s.c.state = .closed ∨ s.c.state = .error := (h.phase hopen).resolve_left hst
    cases hh with
    | tame htame =>
        have hend' : s'.c.state = .closed ∨ s'.c.state = .error := by
          rcases htame.settles with hsame | herr | hclosed
          · rw [hsame]
            exact hend
          · exact .inr herr
          · exact .inl hclosed
        refine ⟨fun _ => .inr hend', fun hsession _ => ?_⟩
        rw [hsession] at hend'
        rcases hend' with hend' | hend' <;> cases hend'
    | kexinit hst' | ecdh hst' | newkeys hst' | service hst' | granted hst' | session hst' =>
        rw [hst'] at hend
        rcases hend with hend | hend <;> cases hend
  · rw [Bool.not_eq_true] at hopen
    refine .unopened ?_
    cases hh with
    | tame htame => exact htame.chanOpen.trans hopen
    | kexinit _ hcalm => exact hcalm.chanOpen.trans hopen
    | ecdh _ hcalm => exact hcalm.chanOpen.trans hopen
    | newkeys _ hc =>
        rw [hc]
        exact hopen
    | service _ hcalm => exact hcalm.chanOpen.trans hopen
    | granted _ hgrants =>
        obtain ⟨s₁, htame, hc⟩ := hgrants
        rw [hc]
        exact htame.chanOpen.trans hopen
    | session hst' => exact absurd hst' hst

/-- A message of a session that is not counted. -/
theorem Ssh.Levels.handing (s : Ssh) (ib wire : List UInt8)
    (hdata : s.c.state = .session → pl.msg ≠ MSG_CHANNEL_DATA)
    (hextended : s.c.state = .session → pl.msg ≠ MSG_CHANNEL_EXTENDED_DATA) :
    s.Levels (s.handing ib wire pl) := by
  refine ⟨rfl, rfl, ?_, .inl rfl⟩
  refine (creditOf_cons (.packet s.c.state _ _ _ _ pl.bytes) _).trans ?_
  by_cases hst : s.c.state = .session
  · rw [hst, creditPost, pl.headD_bytes, if_neg (hdata hst), if_neg (hextended hst)]
  · generalize s.c.state = st at hst
    cases st with
    | session => exact absurd rfl hst
    | _ => rfl

theorem creditOf_data (hst : s.c.state = .session) (hmsg : pl.msg = MSG_CHANNEL_DATA)
    (hlong : 9 ≤ pl.len) (ib wire : List UInt8) :
    creditOf (s.handing ib wire pl).c.trace = creditOf s.c.trace - pl.u32 5 := by
  have hlen : pl.bytes.length = pl.len := by rw [Payload.bytes, length_slice]
  have hword : wordAt pl.bytes 5 = pl.u32 5 := (Payload.u32_of_bytes rfl (by omega)).symm
  refine (creditOf_cons (.packet s.c.state _ _ _ _ pl.bytes) _).trans ?_
  rw [hst, creditPost, pl.headD_bytes, if_pos hmsg, hword]

/-- A session keeps the accounts level. -/
theorem handleSession_credit (h : CreditInv s.c) (hst : s.c.state = .session)
    (hmsg : pl.msg ≠ MSG_CHANNEL_DATA) : CreditInv (handleSession env s pl pl.msg).c := by
  unfold handleSession
  split
  · exact handleChannelOpen_credit h hst pl
  split
  · exact h.levels (.handleChannelRequest env s pl)
  split
  · exact h.levels (.handleChannelWindowAdjust s pl)
  split
  · exact h.levels (.of_fields rfl rfl rfl rfl)
  split
  · exact .closed rfl
  · exact h

/-- `handle_packet` on a session, but for data. -/
theorem handlePacket_credit (h : CreditInv s.c) (hst : s.c.state = .session)
    (hmsg : pl.msg ≠ MSG_CHANNEL_DATA) : CreditInv (handlePacket env s pl).c := by
  unfold handlePacket
  generalize hs₁ : (if pl.len ≠ 0 then s.read pl 0 1 else s) = s₁
  have hc : s₁.c = s.c := by
    rw [← hs₁]
    split <;> rfl
  rw [← hc] at h hst
  dsimp only
  split
  · exact .closed rfl
  split
  · exact h
  split
  · exact h.levels (.handleGlobalRequest env s₁ pl)
  · have hsession : handleByState env s₁ pl pl.msg = handleSession env s₁ pl pl.msg := by
      rw [handleByState, hst]
    rw [hsession]
    exact handleSession_credit h hst hmsg

theorem handlePacket_data (env : SshEnv) (hst : s.c.state = .session)
    (hmsg : pl.msg = MSG_CHANNEL_DATA) :
    ∃ s₁ : Ssh, s₁.c = s.c ∧ handlePacket env s pl = handleChannelData env s₁ pl := by
  unfold handlePacket
  generalize hs₁ : (if pl.len ≠ 0 then s.read pl 0 1 else s) = s₁
  have hc : s₁.c = s.c := by
    rw [← hs₁]
    split <;> rfl
  refine ⟨s₁, hc, ?_⟩
  dsimp only
  rw [hmsg, if_neg (by decide), if_neg (by decide), if_neg (by decide), handleByState, hc, hst]
  dsimp only
  rw [handleSession, if_neg (by decide), if_neg (by decide), if_pos rfl]

/-- A packet of a client that keeps to its credit. -/
theorem CreditInv.packet (h : CreditInv s.c) (ib wire : List UInt8)
    (hQ : RespectsPlain s.c pl) : CreditInv (handlePacket env (s.handing ib wire pl) pl).c := by
  by_cases hst : s.c.state = .session
  case neg =>
    have hbefore : CreditInv (s.handing ib wire pl).c :=
      h.levels (.handing s ib wire (fun hs => absurd hs hst) fun hs => absurd hs hst)
    exact hbefore.handled hst (handlePacket_handled env _ pl)
  by_cases hmsg : pl.msg = MSG_CHANNEL_DATA
  case neg =>
    refine handlePacket_credit ?_ hst hmsg
    by_cases hopen : s.c.chanOpen = true
    · exact h.levels (.handing s ib wire (fun _ => hmsg) fun _ => hQ.2 hst hopen)
    · exact .unopened (Bool.not_eq_true _ ▸ hopen)
  obtain ⟨s₁, hc, heq⟩ := handlePacket_data env (s := s.handing ib wire pl) hst hmsg
  have hst₁ : s₁.c.state = .session := by
    rw [hc]
    exact hst
  rw [heq]
  by_cases hopen : s.c.chanOpen = true
  · obtain ⟨hlen, hcredit⟩ := hQ.1.data hst hopen hmsg
    obtain ⟨hagree, -, hfull⟩ := h.level hst hopen
    have hwindow : s₁.c.localWindow = s.c.localWindow := by rw [hc]; rfl
    have hcount : dataLen env pl = pl.u32 5 := dataLen_eq hlen (by omega)
    refine handleChannelData_credit hst₁ (by omega) hcount ?_ (by omega)
    rw [hc, creditOf_data hst hmsg (by omega), ← hagree]
    rfl
  · refine .unopened ?_
    rw [handleChannelData_chanOpen hst₁ hmsg, hc]
    exact Bool.not_eq_true _ ▸ hopen

/-! ## Runs -/

theorem sshReset_credit (env : SshEnv) (g : SshShared) : CreditInv (sshReset env g).c := by
  obtain ⟨s₀, hc, hoff⟩ := sshReset_off env g
  refine .unopened (hoff.chanOpen.trans ?_)
  rw [hc]
  rfl

/-- The decoder leaves an open channel alone. -/
theorem CreditInv.decodes (h : CreditInv s.c) (hd : s.Decodes s') : CreditInv s'.c := by
  have hlevel := congrArg SshConn.localWindow hd.conn
  have hopen := congrArg SshConn.chanOpen hd.conn
  have htr := congrArg SshConn.trace hd.conn
  rcases hd.moves with hst | hst | ⟨hfrom, hto⟩
  · exact h.levels (.of_fields hlevel hopen htr hst)
  · exact h.levels ⟨hlevel, hopen, congrArg creditOf htr, .inr (.inl hst)⟩
  · refine .unopened (hopen.trans ?_)
    by_contra hyes
    have hphase := h.phase (Bool.not_eq_false _ ▸ hyes)
    rw [hfrom] at hphase
    simp at hphase

/-- A packet of data finds numbers that fit. -/
theorem CreditInv.accounted (h : CreditInv s.c) (hQ : RespectsPlain s.c pl) :
    Accounted env s.c pl := by
  intro hst hopen
  have hlevel := h.level hst hopen
  refine ⟨hlevel, fun hmsg => ?_⟩
  obtain ⟨hlen, hcredit⟩ := hQ.1.data hst hopen hmsg
  obtain ⟨hagree, hhalf, hfull⟩ := hlevel
  have hsz : SSH_LOCAL_WINDOW = 32768 := rfl
  have hcount : dataLen env pl = pl.u32 5 := dataLen_eq hlen (by omega)
  exact ⟨hcount, by omega, by omega, by omega⟩

/-- In every run of a client that keeps to its credit and sends no extended data, the server's
account of an open channel is the client's at every packet and behind the last call, at least
half of the window is left, and the numbers of `adjust_local_window` fit into 16 bits. -/
theorem local_window_is_credit {ops : List SshOp}
    (hmeets : RunMeets env RespectsPlain (fun _ _ => True) ops (sshReset env g)) :
    RunMeets env (Accounted env) (fun _ _ => True) ops (sshReset env g) ∧
    ∀ s, sshRun env ops (sshReset env g) = some s → s.c.state = .session → s.c.chanOpen = true →
      Level s.c := by
  have hdecodes : ∀ s s' : Ssh, CreditInv s.c → s.Decodes s' → CreditInv s'.c :=
    fun s s' h hd => h.decodes hd
  have hpacket : ∀ (s : Ssh) ib wire pl, CreditInv s.c → RespectsPlain s.c pl →
      CreditInv (handlePacket env (s.handing ib wire pl) pl).c :=
    fun s ib wire pl h hQ => h.packet ib wire hQ
  have hcall : ∀ (op : SshOp) (s s' : Ssh), CreditInv s.c → op.isInput = false → True →
      op.run env s = some s' → CreditInv s'.c :=
    fun op s s' h hop _ hrun => h.levels (.call hop hrun)
  have hinit := sshReset_credit env g
  refine ⟨RunMeets.always (P := fun s => CreditInv s.c) hdecodes hpacket hcall
    (fun s pl h hQ => h.accounted hQ) ops hinit hmeets, fun s hrun => ?_⟩
  exact (RunMeets.keeps (P := fun s => CreditInv s.c) hdecodes hpacket hcall ops hinit hmeets
    hrun).level

end

/-! ## Two clients -/

/-- A client opens the channel and sends three bytes. -/
def threeBytesOps : List SshOp :=
  feed (loginChunks ++ [sealedFrame 5 (sessionOpen 100),
    sealedFrame 6 ([MSG_CHANNEL_DATA] ++ be32 0 ++ putStr [104, 105, 13])])

theorem local_window_is_credit_three_bytes : ∃ s,
    sshRun sampleEnv threeBytesOps (sshReset sampleEnv SshShared.zero) = some s ∧
    s.c.state = .session ∧ s.c.chanOpen = true ∧ s.c.localWindow = 32765 ∧ Level s.c := by
  -- in one evaluation, since the run is the same
  obtain ⟨hmeets, hrun⟩ : RunMeets sampleEnv RespectsPlain (fun _ _ => True) threeBytesOps
        (sshReset sampleEnv SshShared.zero) ∧
      (sshRun sampleEnv threeBytesOps (sshReset sampleEnv SshShared.zero)).map
        (fun s => (s.c.state, s.c.chanOpen, s.c.localWindow)) = some (.session, true, 32765) := by
    decide +kernel
  obtain ⟨s, hs, heq⟩ := Option.map_eq_some_iff.mp hrun
  rw [Prod.mk.injEq, Prod.mk.injEq] at heq
  obtain ⟨hst, hopen, hwindow⟩ := heq
  exact ⟨s, hs, hst, hopen, hwindow, (local_window_is_credit hmeets).2 s hs hst hopen⟩

/-- A client that sends a byte of extended data is left with less than the server believes. -/
theorem extended_data_drifts : ∃ ops s,
    RunMeets sampleEnv Respects (fun _ _ => True) ops (sshReset sampleEnv SshShared.zero) ∧
    sshRun sampleEnv ops (sshReset sampleEnv SshShared.zero) = some s ∧
    s.c.state = .session ∧ s.c.chanOpen = true ∧ s.c.localWindow = 32768 ∧
    creditOf s.c.trace = 32767 := by
  obtain ⟨hmeets, hrun⟩ : RunMeets sampleEnv Respects (fun _ _ => True)
        (feed (loginChunks ++ [sealedFrame 5 (sessionOpen 100),
          sealedFrame 6 ([MSG_CHANNEL_EXTENDED_DATA] ++ be32 0 ++ be32 1 ++ putStr [33])]))
        (sshReset sampleEnv SshShared.zero) ∧
      (sshRun sampleEnv (feed (loginChunks ++ [sealedFrame 5 (sessionOpen 100),
          sealedFrame 6 ([MSG_CHANNEL_EXTENDED_DATA] ++ be32 0 ++ be32 1 ++ putStr [33])]))
        (sshReset sampleEnv SshShared.zero)).map
        (fun s => (s.c.state, s.c.chanOpen, s.c.localWindow, creditOf s.c.trace)) =
        some (.session, true, 32768, 32767) := by
    decide +kernel
  obtain ⟨s, hs, heq⟩ := Option.map_eq_some_iff.mp hrun
  rw [Prod.mk.injEq, Prod.mk.injEq, Prod.mk.injEq] at heq
  exact ⟨_, s, hmeets, hs, heq⟩

end Dossh
