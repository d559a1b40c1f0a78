import Dossh.Net.Footprint

/-!
# Hosts do not reach each other's slots

A frame changes at most one slot.  A segment that is no SYN finds the slot of its own host and
port, and a SYN takes a free slot or one of its own host.  So a live slot is out of reach of
every other host, and no two live slots ever have the same peer.
-/

namespace Dossh

variable {n : Nat} {T : Prop}

/-- No two live slots have the same peer. -/
def PeersDistinct (net : Net n) : Prop :=
  ∀ i j, (net.conns i).tstate ≠ .listen → (net.conns j).tstate ≠ .listen →
    (net.conns i).peerIp = (net.conns j).peerIp → (net.conns i).peerPort = (net.conns j).peerPort →
      i = j

/-! ## Slots keep their peers -/

/-- A slot that is live afterwards was live before, with the same peer. -/
def Conn.KeepsPeer (c c' : Conn) : Prop :=
  c'.tstate ≠ .listen → c.tstate ≠ .listen ∧ c'.peerIp = c.peerIp ∧ c'.peerPort = c.peerPort

theorem Conn.KeepsPeer.refl (c : Conn) : c.KeepsPeer c := fun h => ⟨h, rfl, rfl⟩

theorem Conn.KeepsPeer.trans {c c' c'' : Conn} (h : c.KeepsPeer c') (h' : c'.KeepsPeer c'') :
    c.KeepsPeer c'' := by
  intro hlive
  obtain ⟨hlive', hip', hport'⟩ := h' hlive
  obtain ⟨hlive₀, hip, hport⟩ := h hlive'
  exact ⟨hlive₀, hip'.trans hip, hport'.trans hport⟩

/-- Only a SYN gives a slot to a peer. -/
theorem Conn.Step.keepsPeer {i : Fin n} {c c' : Conn} (h : Conn.Step (fun _ _ => False) T i c c') :
    c.KeepsPeer c' := by
  cases h with
  | reset => exact fun hlive => absurd rfl hlive
  | reap => exact fun hlive => absurd rfl hlive
  | syn now h hs => exact hs.elim
  | estab hst => exact fun _ => ⟨by rw [hst]; decide, rfl, rfl⟩
  | ack now h hst =>
      unfold tcpInAck
      split <;> exact .refl c
  | store _ _ hc =>
      rw [hc.eq]
      exact .refl c
  | _ => exact .refl c

/-- Acts without a SYN leave the peers of the slots alone. -/
theorem Acts.keepsPeer {net net' : Net n} (h : Acts (fun _ _ => False) T net net') (i : Fin n) :
    (net.conns i).KeepsPeer (net'.conns i) := by
  induction h with
  | refl => exact .refl _
  | tail _ hact ih => exact ih.trans (hact.conn_step i).keepsPeer

theorem PeersDistinct.of_keeps {net net' : Net n} (h : PeersDistinct net)
    (hkeeps : ∀ i, (net.conns i).KeepsPeer (net'.conns i)) : PeersDistinct net' := by
  intro i j hi hj hip hport
  obtain ⟨hi₀, hip₁, hport₁⟩ := hkeeps i hi
  obtain ⟨hj₀, hip₂, hport₂⟩ := hkeeps j hj
  exact h i j hi₀ hj₀ (by rw [← hip₁, ← hip₂, hip]) (by rw [← hport₁, ← hport₂, hport])

/-! ## One frame -/

/-- What a frame does to the slots: nothing, something to the slot of its sender, or it is a SYN
that takes a slot. -/
inductive FrameReach (now : BitVec 32) (net : Net n) (f : Nat → UInt8) (net' : Net n) : Prop where
  | none (h : net'.conns = net.conns)
  | sender (i : Fin n) (hfind : findConn net (tcpHdr f).sport (tcpHdr f).srcIp = some i)
      (hacts : Acts (fun _ _ => False) False net net')
      (hother : ∀ j, j ≠ i → net'.conns j = net.conns j)
  | syn (i : Fin n) (hsyn : hasFlag (tcpHdr f).flags 0x02 = true)
      (hfind : findConn net (tcpHdr f).sport (tcpHdr f).srcIp = .none)
      (halloc : allocConn net (tcpHdr f).srcIp = some i)
      (h : net' = tcpInSynAccept now net (tcpHdr f) i)

variable {net net' : Net n} {now : BitVec 32} {f : Nat → UInt8} {len : Nat}

theorem tcpIn_reach (now : BitVec 32) (net : Net n) (f : Nat → UInt8) :
    FrameReach now net f (tcpIn now net f) := by
  unfold tcpIn
  dsimp only
  split
  · exact .none rfl
  split
  · exact .none rfl
  split
  · unfold tcpInRst
    split
    next i hfind =>
      exact .sender i hfind (.single (.reset i)) fun j hj => by rw [Net.set_conns_ne _ _ hj]
    next => exact .none rfl
  split
  next hsyn =>
    unfold tcpInSyn
    split
    next => exact .none rfl
    next hfind =>
      split
      next => exact .none rfl
      next i halloc => exact .syn i hsyn hfind halloc rfl
  next =>
    split
    next => exact .none rfl
    next i hfind =>
      exact .sender i hfind (tcpInConn_acts now f net _ i) fun j hj => tcpInConn_other now f net _ hj

theorem handleFrame_reach (now : BitVec 32) (net : Net n) (f : Nat → UInt8) (len : Nat) :
    FrameReach now net f (handleFrame now net f len) := by
  cases htcp : tcpFrame net f len with
  | true =>
      rw [handleFrame_tcp now net f len htcp]
      exact tcpIn_reach now net f
  | false =>
      rcases handleFrame_other now net f len htcp with heq | heq
      · rw [heq]
        exact .none rfl
      · refine .none ?_
        rw [heq]
        unfold arpIn
        dsimp only
        repeat' split
        all_goals rfl

theorem tcpInSynAccept_other (now : BitVec 32) (net : Net n) (h : TcpHdr) {i j : Fin n}
    (hji : j ≠ i) : (tcpInSynAccept now net h i).conns j = net.conns j := by
  simp only [tcpInSynAccept, Net.set_conns_ne _ _ hji, tcpSendSeg_conns, Net.note_conns]

/-- The slot of a SYN is free or of its own host. -/
theorem allocConn_own {ip : List UInt8} {i : Fin n} (h : allocConn net ip = some i) :
    (net.conns i).tstate = .listen ∨ (net.conns i).peerIp = ip := by
  unfold allocConn at h
  simp only [Option.orElse_eq_some] at h
  rcases h with hstalled | ⟨-, hfree | ⟨-, hown⟩⟩
  · have hp := List.find?_some hstalled
    simp only [Bool.and_eq_true, decide_eq_true_eq] at hp
    exact .inr hp.2
  · have hp := List.find?_some hfree
    simp only [decide_eq_true_eq] at hp
    exact .inl hp
  · have hp := List.find?_some hown
    simp only [decide_eq_true_eq] at hp
    exact .inr hp

/-- A frame that is no SYN for a new connection keeps the peers, and the slot of a SYN gets one
that no live slot has. -/
theorem FrameReach.distinct (h : FrameReach now net f net') (hd : PeersDistinct net) :
    PeersDistinct net' := by
  cases h with
  | none h => exact hd.of_keeps fun i => by rw [h]; exact .refl _
  | sender i hfind hacts hother => exact hd.of_keeps hacts.keepsPeer
  | syn i hsyn hfind halloc h =>
      subst h
      have hfree : ∀ j, (net.conns j).tstate ≠ .listen →
          (net.conns j).peerIp = (tcpHdr f).srcIp → (net.conns j).peerPort ≠ (tcpHdr f).sport := by
        intro j hlive hip hport
        have hnone := List.find?_eq_none.mp hfind j (List.mem_finRange j)
        simp [hlive, hip, hport] at hnone
      have hself : ((tcpInSynAccept now net (tcpHdr f) i).conns i).peerIp = (tcpHdr f).srcIp ∧
          ((tcpInSynAccept now net (tcpHdr f) i).conns i).peerPort = (tcpHdr f).sport := by
        simp only [tcpInSynAccept, Net.set_conns_self]
        exact ⟨rfl, rfl⟩
      intro j k hj hk hip hport
      by_cases hji : j = i
      · by_cases hki : k = i
        · rw [hji, hki]
        · rw [hji, hself.1, tcpInSynAccept_other now net _ hki] at hip
          rw [hji, hself.2, tcpInSynAccept_other now net _ hki] at hport
          rw [tcpInSynAccept_other now net _ hki] at hk
          exact absurd hport.symm (hfree k hk hip.symm)
      · rw [tcpInSynAccept_other now net _ hji] at hj hip hport
        by_cases hki : k = i
        · rw [hki, hself.1] at hip
          rw [hki, hself.2] at hport
          exact absurd hport (hfree j hj hip)
        · rw [tcpInSynAccept_other now net _ hki] at hk hip hport
          exact hd j k hj hk hip hport

/-! ## Runs -/

theorem PeersDistinct.poll (h : PeersDistinct net) (now : BitVec 32) (pkt : Option (List UInt8)) :
    PeersDistinct (netPoll now pkt net) := by
  have htimers : PeersDistinct (netTimers now net) :=
    h.of_keeps (netTimers_acts trivial now net).keepsPeer
  have hreceive : PeersDistinct (netReceive now (netTimers now net) pkt) := by
    unfold netReceive
    split
    · exact htimers
    next stage =>
      refine (handleFrame_reach now _ _ _).distinct ?_
      exact htimers.of_keeps fun i => .refl _
  exact hreceive.of_keeps (netTxFlush_acts (T := True) now _).keepsPeer

theorem NetReach.peersDistinct (h : NetReach net) : PeersDistinct net := by
  refine h.induct (fun m ip p => ?_) fun op net hn => ?_
  · intro i j hi
    exact absurd rfl hi
  · cases op with
    | poll now pkt => exact hn.poll now pkt
    | slotReady i v =>
        refine hn.of_keeps fun j => ?_
        unfold NetOp.run netSlotReady
        dsimp only
        rw [Net.set_conns]
        split
        next hji =>
          rw [hji]
          exact .refl _
        next =>
          split <;> exact .refl _
    | _ =>
        refine hn.of_keeps (Acts.keepsPeer (T := True) (NetOp.run_acts ?_ ?_ ?_))
        all_goals exact nofun

/-- No frame changes two slots. -/
theorem FrameReach.once (h : FrameReach now net f net') {i j : Fin n}
    (hi : net'.conns i ≠ net.conns i) (hj : net'.conns j ≠ net.conns j) : i = j := by
  cases h with
  | none h => exact absurd (congrFun h i) hi
  | sender k _ _ hother =>
      have hik : i = k := Classical.byContradiction fun hne => hi (hother i hne)
      have hjk : j = k := Classical.byContradiction fun hne => hj (hother j hne)
      rw [hik, hjk]
  | syn k _ _ _ h =>
      subst h
      have hik : i = k :=
        Classical.byContradiction fun hne => hi (tcpInSynAccept_other now net _ hne)
      have hjk : j = k :=
        Classical.byContradiction fun hne => hj (tcpInSynAccept_other now net _ hne)
      rw [hik, hjk]

/-- A frame that is no SYN changes the slot of its sender only. -/
theorem FrameReach.own (h : FrameReach now net f net')
    (hsyn : hasFlag (tcpHdr f).flags 0x02 = false) {j : Fin n}
    (hj : net'.conns j ≠ net.conns j) :
    (net.conns j).tstate ≠ .listen ∧ (net.conns j).peerIp = (tcpHdr f).srcIp ∧
      (net.conns j).peerPort = (tcpHdr f).sport := by
  cases h with
  | none h => exact absurd (congrFun h j) hj
  | sender i hfind _ hother =>
      have hji : j = i := Classical.byContradiction fun hne => hj (hother j hne)
      rw [hji]
      obtain ⟨hport, hip⟩ := findConn_peer hfind
      exact ⟨findConn_live hfind, hip, hport⟩
  | syn _ hyes => exact absurd (hsyn.symm.trans hyes) nofun

/-- A live slot of another host stays as it is. -/
theorem FrameReach.stranger (h : FrameReach now net f net') {j : Fin n}
    (hlive : (net.conns j).tstate ≠ .listen) (hip : (net.conns j).peerIp ≠ (tcpHdr f).srcIp) :
    net'.conns j = net.conns j := by
  cases h with
  | none h => exact congrFun h j
  | sender i hfind _ hother =>
      refine hother j fun hji => hip ?_
      rw [hji]
      exact (findConn_peer hfind).2
  | syn i _ _ halloc h =>
      subst h
      refine tcpInSynAccept_other now net _ fun hji => ?_
      rcases allocConn_own halloc with hfree | hown
      · exact hlive (hji ▸ hfree)
      · exact hip (hji ▸ hown)

/-- In every reachable state, and when the timers of a poll have run, no two live slots have the
same peer.  And whatever the state, a live slot is changed only by frames of its own host, a
frame that is no SYN changes only the slot of its host and port, and no frame changes two
slots. -/
theorem frames_isolated (h : NetReach net) (now : BitVec 32) :
    (PeersDistinct net ∧ PeersDistinct (netTimers now net)) ∧
    ∀ (net : Net n) (f : Nat → UInt8) (len : Nat),
      (∀ j, (net.conns j).tstate ≠ .listen → (net.conns j).peerIp ≠ (tcpHdr f).srcIp →
        (handleFrame now net f len).conns j = net.conns j) ∧
      (hasFlag (tcpHdr f).flags 0x02 = false → ∀ j,
        (handleFrame now net f len).conns j ≠ net.conns j →
          (net.conns j).tstate ≠ .listen ∧ (net.conns j).peerIp = (tcpHdr f).srcIp ∧
            (net.conns j).peerPort = (tcpHdr f).sport) ∧
      ∀ i j, (handleFrame now net f len).conns i ≠ net.conns i →
        (handleFrame now net f len).conns j ≠ net.conns j → i = j := by
  refine ⟨⟨h.peersDistinct, ?_⟩, fun net f len => ?_⟩
  · exact h.peersDistinct.of_keeps (netTimers_acts trivial now net).keepsPeer
  · have hreach := handleFrame_reach now net f len
    exact ⟨fun j => hreach.stranger, fun hsyn j => hreach.own hsyn, fun i j => hreach.once⟩

/-- A RST of another host from the port of the client. -/
def strangerRst : List UInt8 := peerFrame [10, 0, 2, 9] [10, 0, 2, 15] 1000 22 5 0 0x04 []

theorem frames_isolated_stranger :
    NetReach clientRun ∧ PeersDistinct clientRun ∧ (clientRun.conns 0).tstate = .estab ∧
      (handleFrame 2 clientRun (sampleWork strangerRst) strangerRst.length).conns 0 =
        clientRun.conns 0 := by
  have hreach : NetReach clientRun := ⟨_, _, _, _, rfl⟩
  obtain ⟨⟨hdistinct, -⟩, hframes⟩ := frames_isolated hreach 2
  refine ⟨hreach, hdistinct, by decide +kernel, ?_⟩
  refine (hframes clientRun (sampleWork strangerRst) strangerRst.length).1 0 ?_ ?_
  · decide +kernel
  · decide +kernel

end Dossh
