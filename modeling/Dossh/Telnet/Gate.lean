import Dossh.Net.Acts
import Dossh.Lib.History
import Dossh.Telnet.Model

/-!
# The screen gate of the telnet server

With a password configured, screen bytes may go only to connections that passed
`au_check`.  The bit that admits a slot to the broadcast is `ready`.  `tcp_reset_listen`
clears it, but a SYN that takes a live slot over (the stalled-reclaim and the eviction of
`alloc_conn`) does not, so the new connection inherits it.  The gate is
proved for every run in which no SYN takes a slot whose bit is set.
-/

namespace Dossh

variable {n : Nat} {T : Prop}

/-! ## One slot -/

/-- The slot is not admitted to the broadcast. -/
def Conn.unready (_ : Fin n) (c : Conn) : Prop := c.ready = false

/-- An admitted slot is established and its own connection was admitted.  Only an
established slot has received bytes. -/
structure Conn.Gated (i : Fin n) (c : Conn) (log : List (NetEvent n)) : Prop where
  estab : c.ready = true → c.tstate = .estab
  admitted : c.ready = true → NetEvent.admitted i c.gen ∈ log
  ring : c.rTail ≠ c.rHead → c.tstate = .estab

theorem Conn.Gated.mono {i : Fin n} {c : Conn} {log log' : List (NetEvent n)}
    (h : c.Gated i log) (hsub : log ⊆ log') : c.Gated i log' :=
  ⟨h.estab, fun hr => hsub (h.admitted hr), h.ring⟩

/-- A step that keeps the bit, the generation and the receive ring does not leave `ESTAB`. -/
theorem Conn.Gated.congr {i : Fin n} {c c' : Conn} {log : List (NetEvent n)} (h : c.Gated i log)
    (hst : c.tstate = .estab → c'.tstate = .estab) (hr : c'.ready = c.ready) (hg : c'.gen = c.gen)
    (ht : c'.rTail = c.rTail) (hh : c'.rHead = c.rHead) : c'.Gated i log := by
  refine ⟨fun hr' => hst (h.estab (hr ▸ hr')), fun hr' => ?_, fun hne => hst (h.ring ?_)⟩
  · rw [hg]
    exact h.admitted (hr ▸ hr')
  · rw [ht, hh] at hne
    exact hne

/-- A slot without a connection, or one in which the bit is clear and the ring is empty. -/
theorem Conn.Gated.closed {i : Fin n} {c : Conn} {log : List (NetEvent n)}
    (hr : c.ready = false) (hring : c.rTail = c.rHead) : c.Gated i log := by
  refine ⟨fun h => ?_, fun h => ?_, fun h => absurd hring h⟩
  · rw [hr] at h
    cases h
  · rw [hr] at h
    cases h

/-- A live slot whose receive ring moved. -/
theorem Conn.Gated.received {i : Fin n} {c c' : Conn} {log : List (NetEvent n)}
    (h : c.Gated i log) (hst : c'.tstate = .estab) (hr : c'.ready = c.ready)
    (hg : c'.gen = c.gen) : c'.Gated i log := by
  refine ⟨fun _ => hst, fun hr' => ?_, fun _ => hst⟩
  rw [hg]
  exact h.admitted (hr ▸ hr')

theorem Conn.Step.gated {i : Fin n} {c c' : Conn} {log : List (NetEvent n)}
    (hstep : Conn.Step Conn.unready T i c c') (h : c.Gated i log) : c'.Gated i log := by
  cases hstep with
  | refl => exact h
  | reset => exact .closed rfl rfl
  | syn now hd hs => exact .closed hs rfl
  | estab hst => exact h.congr (fun _ => rfl) rfl rfl rfl rfl
  | ack now hd hst =>
      unfold tcpInAck
      split
      · exact h.congr id rfl rfl rfl rfl
      · exact h
  | store c' hst hc =>
      have heq := hc.eq
      refine h.received ?_ ?_ ?_
      · rw [heq]
        exact hst
      · rw [heq]
      · rw [heq]
  | get hne => exact h.received (h.ring hne) rfl rfl
  | reap hT now hex hmax => exact .closed rfl rfl
  | rewind hT now hex hmax => exact h.congr id rfl rfl rfl rfl
  | output now k hst hk => exact h.congr id rfl rfl rfl rfl
  | append b hroom => exact h.congr id rfl rfl rfl rfl
  | taken => exact h.congr id rfl rfl rfl rfl

/-! ## The history -/

/-- A screen byte goes to a connection that was admitted before. -/
def ScreenOk : NetEvent n → List (NetEvent n) → Prop
  | .append .screen i g _, past => NetEvent.admitted i g ∈ past
  | _, _ => True

/-- Events that neither admit a connection nor send it a screen byte. -/
def NetEvent.plain : NetEvent n → Bool
  | .admitted _ _ => false
  | .append .screen _ _ _ => false
  | _ => true

theorem ScreenOk.of_plain {e : NetEvent n} (past : List (NetEvent n)) (he : e.plain = true) :
    ScreenOk e past := by
  cases e with
  | append kind i g b =>
      cases kind with
      | screen => cases he
      | unicast => trivial
  | _ => trivial

/-- What an act adds to the history: plain events, or one screen byte to an admitted
slot. -/
theorem Act.log_cases {S : Fin n → Conn → Prop} {net net' : Net n} (ha : Act S T net net') :
    (∃ es, net'.log = es ++ net.log ∧ ∀ e ∈ es, e.plain = true) ∨
    ∃ i b, (net.conns i).admitted = true ∧
      net'.log = .append .screen i (net.conns i).gen b :: net.log := by
  cases ha with
  | work w => exact .inl ⟨[], rfl, by simp⟩
  | refuse ipId s => exact .inl ⟨[.refuse ipId s], rfl, by simp [NetEvent.plain]⟩
  | arp frame => exact .inl ⟨[.arp frame], rfl, by simp [NetEvent.plain]⟩
  | reset i => exact .inl ⟨[], rfl, by simp⟩
  | send i flags mss => exact .inl ⟨[.seg i _ _ _], rfl, by simp [NetEvent.plain]⟩
  | syn now h i hs => exact .inl ⟨[.seg i _ _ _, .syn i _ _], rfl, by simp [NetEvent.plain]⟩
  | estab i hst => exact .inl ⟨[.estab i _ _], rfl, by simp [NetEvent.plain]⟩
  | ack now h i hst => exact .inl ⟨[], rfl, by simp⟩
  | store i c hst hc => exact .inl ⟨[], rfl, by simp⟩
  | get i hne => exact .inl ⟨[], rfl, by simp⟩
  | timer now i hT hex =>
      left
      rw [tcpTimer, if_pos hex]
      split
      · exact ⟨[.expire i _], rfl, by simp [NetEvent.plain]⟩
      · dsimp only
        split
        · exact ⟨[.seg i _ _ _, .expire i _], rfl, by simp [NetEvent.plain]⟩
        · exact ⟨[.expire i _], rfl, by simp [NetEvent.plain]⟩
  | output now i k hst hk => exact .inl ⟨[.seg i _ _ _], rfl, by simp [NetEvent.plain]⟩
  | append kind i b hroom hadm =>
      cases kind with
      | screen => exact .inr ⟨i, b, hadm rfl, rfl⟩
      | unicast => exact .inl ⟨[.append .unicast i _ b], rfl, by simp [NetEvent.plain]⟩
  | taken i => exact .inl ⟨[], rfl, by simp⟩

/-- Plain events keep the screen bytes in order. -/
theorem always_screenOk_append {log : List (NetEvent n)} (h : History.Always ScreenOk log) :
    ∀ {es : List (NetEvent n)}, (∀ e ∈ es, e.plain = true) →
      History.Always ScreenOk (es ++ log)
  | [], _ => h
  | e :: es, hes => by
      refine ⟨.of_plain _ (hes e List.mem_cons_self), ?_⟩
      exact always_screenOk_append h fun e' he' => hes e' (List.mem_cons_of_mem _ he')

/-! ## The stack under the gate -/

/-- The gate as the stack sees it. -/
structure NetGate (net : Net n) : Prop where
  slots : ∀ i, (net.conns i).Gated i net.log
  screen : History.Always ScreenOk net.log

theorem NetGate.act {net net' : Net n} (h : NetGate net) (ha : Act Conn.unready T net net') :
    NetGate net' ∧ ∀ i g, NetEvent.admitted i g ∈ net'.log → NetEvent.admitted i g ∈ net.log := by
  rcases ha.log_cases with ⟨es, hlog, hes⟩ | ⟨i, b, hadm, hlog⟩
  · refine ⟨⟨fun j => ?_, ?_⟩, fun i g hmem => ?_⟩
    · rw [hlog]
      exact (ha.conn_step j).gated ((h.slots j).mono (List.subset_append_right _ _))
    · rw [hlog]
      exact always_screenOk_append h.screen hes
    · rw [hlog] at hmem
      rcases List.mem_append.mp hmem with hnew | hold
      · cases hes _ hnew
      · exact hold
  · simp only [Conn.admitted, Bool.and_eq_true, decide_eq_true_eq] at hadm
    refine ⟨⟨fun j => ?_, ?_⟩, fun i g hmem => ?_⟩
    · rw [hlog]
      exact (ha.conn_step j).gated ((h.slots j).mono (List.subset_cons_self _ _))
    · rw [hlog]
      exact ⟨(h.slots i).admitted hadm.2, h.screen⟩
    · rw [hlog] at hmem
      rcases List.mem_cons.mp hmem with heq | hold
      · cases heq
      · exact hold

theorem NetGate.acts {net net' : Net n} (h : NetGate net) (ha : Acts Conn.unready T net net') :
    NetGate net' ∧ ∀ i g, NetEvent.admitted i g ∈ net'.log → NetEvent.admitted i g ∈ net.log := by
  refine Acts.preserves (P := fun net' => NetGate net' ∧
    ∀ i g, NetEvent.admitted i g ∈ net'.log → NetEvent.admitted i g ∈ net.log) ?_ ha
    ⟨h, fun _ _ hm => hm⟩
  intro net₁ net₂ ⟨h₁, hm₁⟩ hact
  obtain ⟨h₂, hm₂⟩ := h₁.act hact
  exact ⟨h₂, fun i g hm => hm₁ i g (hm₂ i g hm)⟩

/-- Admitting an established slot. -/
theorem NetGate.admits {net : Net n} (h : NetGate net) {i : Fin n}
    (hst : (net.conns i).tstate = .estab) : NetGate (netSlotReady net i true) := by
  refine ⟨fun j => ?_, ⟨trivial, h.screen⟩⟩
  show Conn.Gated j ((netSlotReady net i true).conns j) (.admitted i (net.conns i).gen :: net.log)
  simp only [netSlotReady, if_pos, Net.set_conns, Net.note_conns]
  split
  next hji =>
    subst hji
    exact ⟨fun _ => hst, fun _ => List.mem_cons_self, fun _ => hst⟩
  next => exact (h.slots j).mono (List.subset_cons_self _ _)

/-! ## The server under the gate -/

/-- The gate of the whole server. -/
structure GateInv (st : Server n) : Prop where
  password : st.password.headD 0 ≠ 0
  net : NetGate st.net
  auths : ∀ i g, NetEvent.admitted i g ∈ st.net.log → (i, g) ∈ st.auths

/-- The server went on without deciding about a password. -/
structure Server.Quiet (T : Prop) (st st' : Server n) : Prop where
  acts : Acts Conn.unready T st.net st'.net
  auths : st'.auths = st.auths
  password : st'.password = st.password

namespace Server.Quiet

theorem refl (st : Server n) : Server.Quiet T st st := ⟨.refl _, rfl, rfl⟩

theorem trans {st st' st'' : Server n} (h : Server.Quiet T st st')
    (h' : Server.Quiet T st' st'') : Server.Quiet T st st'' :=
  ⟨h.acts.trans h'.acts, h'.auths.trans h.auths, h'.password.trans h.password⟩

theorem setSlot (st : Server n) (i : Fin n) (s : TelSlot) :
    Server.Quiet T st (st.setSlot i s) := ⟨.refl _, rfl, rfl⟩

theorem setIac (st : Server n) (i : Fin n) (v : IacState) : Server.Quiet T st (st.setIac i v) :=
  setSlot st i _

theorem auSay (i : Fin n) : ∀ (s : List UInt8) (st : Server n),
    Server.Quiet T st (Dossh.auSay st i s)
  | [], st => refl st
  | b :: s, st =>
      trans (⟨netTxPutcSlot_acts st.net i b, rfl, rfl⟩ : Server.Quiet T st (st.putc i b))
        (auSay i s (st.putc i b))

theorem put3 (st : Server n) (i : Fin n) (a b c : UInt8) :
    Server.Quiet T st (Dossh.put3 st i a b c) := auSay i _ st

theorem drop (st : Server n) (i : Fin n) :
    Server.Quiet T st { st with net := netSlotDrop st.net i } :=
  ⟨netSlotDrop_acts st.net i, rfl, rfl⟩

theorem hello (st : Server n) (i : Fin n) : Server.Quiet T st (telnetHello st i) :=
  trans (put3 _ i _ _ _) (trans (put3 _ i _ _ _) (trans (put3 _ i _ _ _) (trans (put3 _ i _ _ _)
    (trans (put3 _ i _ _ _) (trans (put3 _ i _ _ _) (setSlot _ i _))))))

theorem respond (st : Server n) (i : Fin n) (v opt : UInt8) :
    Server.Quiet T st (Dossh.respond st i v opt) := by
  unfold Dossh.respond
  dsimp only
  repeat' split
  all_goals first
    | exact refl st
    | exact put3 st i _ _ _
    | exact trans (put3 st i _ _ _) (setSlot _ i _)

theorem sbPush (st : Server n) (i : Fin n) (b : UInt8) :
    Server.Quiet T st (Dossh.sbPush st i b) := by
  unfold Dossh.sbPush
  dsimp only
  split
  · exact setSlot st i _
  · exact refl st

theorem sbDone (now : BitVec 32) (st : Server n) (i : Fin n) :
    Server.Quiet T st (Dossh.sbDone now st i) := by
  unfold Dossh.sbDone
  dsimp only
  repeat' split
  all_goals exact ⟨.refl _, rfl, rfl⟩

/-- With a password `telnet_begin` admits nobody. -/
theorem begin (now : BitVec 32) (st : Server n) (i : Fin n) (hpw : st.password.headD 0 ≠ 0) :
    Server.Quiet T st (telnetBegin now st i) := by
  unfold telnetBegin
  dsimp only
  have hsetup : Server.Quiet T st
      (Dossh.auSay (telnetHello (telnetReset st i) i) i (0x1B :: ascii "[8;25;80t")) :=
    trans (setSlot st i _) (trans (hello _ i) (auSay i _ _))
  rw [hsetup.password, if_pos hpw]
  exact hsetup.trans (trans (setSlot _ i _) (auSay i _ _))

theorem beginLoop (now : BitVec 32) : ∀ (fuel : Nat) (st : Server n),
    st.password.headD 0 ≠ 0 → Server.Quiet T st (Dossh.beginLoop now fuel st)
  | 0, st, _ => refl st
  | fuel + 1, st, hpw => by
      have hacts : Acts Conn.unready T st.net (netTakeNewSlot st.net).2 :=
        netTakeNewSlot_acts st.net
      rw [Dossh.beginLoop]
      split
      next net heq =>
        rw [heq] at hacts
        exact ⟨hacts, rfl, rfl⟩
      next i net heq =>
        rw [heq] at hacts
        have htake : Server.Quiet T st { st with net := net } := ⟨hacts, rfl, rfl⟩
        have hbegin := htake.trans (begin now { st with net := net } i hpw)
        refine hbegin.trans (beginLoop now fuel _ ?_)
        rw [hbegin.password]
        exact hpw

theorem txPumpLoop (s : Screen) : ∀ (budget : Nat) (st : Server n),
    Server.Quiet T st (Dossh.txPumpLoop s budget st)
  | 0, st => refl st
  | budget + 1, st => by
      rw [Dossh.txPumpLoop]
      split
      · exact ⟨.refl _, rfl, rfl⟩
      next b render _ =>
        have hacts : Acts Conn.unready T st.net (netTxPutc st.net b).2 := netTxPutc_acts st.net b
        split
        next net heq =>
          rw [heq] at hacts
          have hput : Server.Quiet T st { st with net := net, render := render } :=
            ⟨hacts, rfl, rfl⟩
          exact hput.trans (txPumpLoop s budget _)
        next net heq =>
          rw [heq] at hacts
          exact ⟨hacts, rfl, rfl⟩

end Server.Quiet

namespace GateInv

theorem quiet {st st' : Server n} (h : GateInv st) (hq : Server.Quiet T st st') : GateInv st' := by
  obtain ⟨hnet, hadm⟩ := h.net.acts hq.acts
  refine ⟨?_, hnet, fun i g hm => ?_⟩
  · rw [hq.password]
    exact h.password
  · rw [hq.auths]
    exact h.auths i g (hadm i g hm)

/-- The password decision for an established connection. -/
theorem auCheck {st : Server n} (h : GateInv st) (now : BitVec 32) {i : Fin n}
    (hst : (st.net.conns i).tstate = .estab) : GateInv (Dossh.auCheck now st i) := by
  unfold Dossh.auCheck
  dsimp only
  split
  · refine ⟨h.password, h.net.admits hst, fun j g hm => ?_⟩
    rcases List.mem_cons.mp hm with heq | hold
    · cases heq
      exact List.mem_cons_self
    · exact List.mem_cons_of_mem _ (h.auths j g hold)
  · split
    · exact h.quiet (T := True)
        (.trans (.setSlot st i _) (.trans (Server.Quiet.auSay i _ _) (.drop _ i)))
    · exact h.quiet (T := True) (.trans (.setSlot st i _) (Server.Quiet.auSay i _ _))

theorem feedData {st : Server n} (h : GateInv st) (now : BitVec 32) {i : Fin n}
    (hst : (st.net.conns i).tstate = .estab) (b : UInt8) : GateInv (Dossh.feedData now st i b) := by
  unfold Dossh.feedData
  dsimp only
  split
  · split
    · exact h.quiet (T := True) (.drop st i)
    · exact h.quiet (T := True) ⟨.refl _, rfl, rfl⟩
  · split
    · exact h.auCheck now hst
    · repeat' split
      all_goals exact h.quiet (T := True) ⟨.refl _, rfl, rfl⟩

theorem telnetIn {st : Server n} (h : GateInv st) (now : BitVec 32) {i : Fin n}
    (hst : (st.net.conns i).tstate = .estab) (b : UInt8) : GateInv (Dossh.telnetIn now st i b) := by
  unfold Dossh.telnetIn
  split
  · split
    · exact h.quiet (T := True) (.setIac st i _)
    · exact h.feedData now hst b
  · repeat' split
    · exact (h.feedData now hst IAC).quiet (T := True) (.setIac _ i _)
    all_goals exact h.quiet (T := True) (.setSlot st i _)
  · exact h.quiet (T := True) (.trans (.respond st i _ b) (.setIac _ i _))
  · split
    · exact h.quiet (T := True) (.setIac st i _)
    · exact h.quiet (T := True) (.sbPush st i b)
  · repeat' split
    · exact h.quiet (T := True) (.trans (.sbDone now st i) (.setIac _ i _))
    · exact h.quiet (T := True) (.trans (.sbPush st i IAC) (.setIac _ i _))
    · exact h.quiet (T := True) (.setIac st i _)

/-- The bytes of one slot.  A slot that has a byte is established. -/
theorem rxLoop (now : BitVec 32) (i : Fin n) : ∀ (fuel : Nat) {st : Server n}, GateInv st →
    GateInv (Dossh.rxLoop now i fuel st)
  | 0, _, h => h
  | fuel + 1, st, h => by
      have hacts : Acts Conn.unready True st.net (netRxGetc st.net i).2 := netRxGetc_acts st.net i
      rw [Dossh.rxLoop]
      split
      next net heq =>
        rw [heq] at hacts
        exact h.quiet (T := True) ⟨hacts, rfl, rfl⟩
      next b net heq =>
        rw [heq] at hacts
        have hget : GateInv { st with net := net } := h.quiet (T := True) ⟨hacts, rfl, rfl⟩
        have hst : (net.conns i).tstate = .estab := by
          unfold netRxGetc at heq
          dsimp only at heq
          split at heq
          · cases heq
          next hne =>
            cases heq
            rw [Net.set_conns_self]
            exact (h.net.slots i).ring hne
        exact rxLoop now i fuel (hget.telnetIn now hst b)

theorem rxSlots (now : BitVec 32) : ∀ (is : List (Fin n)) {st : Server n}, GateInv st →
    GateInv (is.foldl (fun st i => Dossh.rxLoop now i RCV_SZ st) st)
  | [], _, h => h
  | i :: is, _, h => rxSlots now is (h.rxLoop now i RCV_SZ)

/-- One tick in which no SYN takes an admitted slot. -/
theorem netTick {st : Server n} (h : GateInv st) (pkt : Option (List UInt8)) (s : Screen)
    (hclean : ∀ i, netPollTakes s.ticks pkt st.net = some i →
      ((netTimers s.ticks st.net).conns i).ready = false) :
    GateInv (Dossh.netTick pkt s st) := by
  unfold Dossh.netTick
  dsimp only
  have hpoll : GateInv { st with net := netPoll s.ticks pkt st.net } :=
    h.quiet (T := True) ⟨netPoll_acts trivial s.ticks pkt st.net hclean, rfl, rfl⟩
  have hbegin := hpoll.quiet (T := True) (.beginLoop s.ticks (n + 1) _ hpoll.password)
  have hrx := hbegin.rxSlots s.ticks (List.finRange n)
  split
  · have hpump := hrx.quiet (T := True) (.txPumpLoop s TX_BUDGET _)
    exact hpump.quiet (T := True) ⟨netTxFlush_acts s.ticks _, rfl, rfl⟩
  · exact hrx

end GateInv

/-! ## Runs -/

/-- The server after a sequence of ticks, each with the frame that has arrived and the
machine it sees. -/
def telnetRun (ticks : List (Option (List UInt8) × Screen)) (st : Server n) : Server n :=
  ticks.foldl (fun st t => netTick t.1 t.2 st) st

/-- No SYN of the run takes a slot that is admitted to the broadcast. -/
def NoTakeover : List (Option (List UInt8) × Screen) → Server n → Prop
  | [], _ => True
  | (pkt, s) :: ticks, st =>
      (∀ i, netPollTakes s.ticks pkt st.net = some i →
        ((netTimers s.ticks st.net).conns i).ready = false) ∧
      NoTakeover ticks (netTick pkt s st)

theorem GateInv.run : ∀ (ticks : List (Option (List UInt8) × Screen)) {st : Server n},
    GateInv st → NoTakeover ticks st → GateInv (telnetRun ticks st)
  | [], _, h, _ => h
  | (pkt, s) :: ticks, _, h, hclean => GateInv.run ticks (h.netTick pkt s hclean.1) hclean.2

theorem telnetSetPassword_head {pw : List UInt8} (h : pw.headD 0 ≠ 0) :
    (telnetSetPassword pw).headD 0 ≠ 0 := by
  cases pw with
  | nil => exact absurd rfl h
  | cons b pw =>
      have hb : b ≠ 0 := h
      simp [telnetSetPassword, cstr, hb]

theorem GateInv.init (gMac gIp : List UInt8) (myPort : Nat) {pw : List UInt8}
    (hpw : pw.headD 0 ≠ 0) (eofExit : Bool) (render : Render) :
    GateInv (serverInit gMac gIp myPort pw eofExit render : Server n) where
  password := telnetSetPassword_head hpw
  net := ⟨fun _ => .closed rfl rfl, trivial⟩
  auths := fun _ _ h => by cases h

/-- Only connections that passed `au_check` are admitted to the broadcast, and every screen
byte went to a connection that was admitted before. -/
structure ScreenGated (st : Server n) : Prop where
  admitted : ∀ i, (st.net.conns i).tstate = .estab → (st.net.conns i).ready = true →
    (i, (st.net.conns i).gen) ∈ st.auths
  screen : ∀ i g b past, (NetEvent.append .screen i g b :: past) <:+ st.net.log →
    NetEvent.admitted i g ∈ past ∧ (i, g) ∈ st.auths

/-- The screen gate, in every run in which no SYN takes an admitted slot over. -/
theorem telnet_screen_gated (gMac gIp : List UInt8) (myPort : Nat) (pw : List UInt8)
    (hpw : pw.headD 0 ≠ 0) (eofExit : Bool) (render : Render)
    (ticks : List (Option (List UInt8) × Screen))
    (hclean : NoTakeover ticks (serverInit gMac gIp myPort pw eofExit render : Server n)) :
    ScreenGated (telnetRun ticks (serverInit gMac gIp myPort pw eofExit render : Server n)) := by
  have h := (GateInv.init gMac gIp myPort hpw eofExit render).run ticks hclean
  refine ⟨fun i _ hr => h.auths _ _ ((h.net.slots i).admitted hr), fun i g b past hs => ?_⟩
  have hpast : NetEvent.admitted i g ∈ past := h.net.screen.at hs
  exact ⟨hpast, h.auths i g (hs.subset (List.mem_cons_of_mem _ hpast))⟩

/-- A server of three slots with the password `pw` and a cold renderer. -/
def pwServer : Server 3 :=
  serverInit [2, 0, 0, 0, 0, 1] [10, 0, 2, 15] 23 (ascii "pw") false coldRender

/-- A tick at which a segment arrives from the given port of one host, over a screen full
of `c`. -/
def segTick (now : BitVec 32) (c : UInt8) (sport seq ack : Nat) (flags : UInt8)
    (payload : List UInt8) : Option (List UInt8) × Screen :=
  (some (peerFrame [10, 0, 2, 2] [10, 0, 2, 15] sport 23 seq ack flags payload),
    { tinyScreen with b800 := fun _ => c, ticks := now })

/-- A client connects and types the password. -/
def loginTicks : List (Option (List UInt8) × Screen) :=
  [segTick 0 7 1000 5 0 0x02 [], segTick 1 7 1000 6 0x13701 0x10 [],
    segTick 2 7 1000 6 0x13701 0x18 (ascii "pw\r")]

/-- Then it goes silent, and when its timer has expired a SYN from another port of the same
host takes the slot and is established. -/
def takeoverTicks : List (Option (List UInt8) × Screen) :=
  loginTicks ++ [segTick 11 7 1001 50 0 0x02 [], segTick 12 9 1001 51 0x1370C 0x10 []]

theorem telnet_screen_gated_login :
    NoTakeover loginTicks pwServer ∧ ScreenGated (telnetRun loginTicks pwServer) ∧
      ((telnetRun loginTicks pwServer).net.conns 0).ready = true := by
  have hclean : NoTakeover loginTicks pwServer := by
    refine ⟨?_, ?_, ?_, trivial⟩ <;> decide +kernel
  exact ⟨hclean, telnet_screen_gated _ _ _ _ (by decide) _ _ _ hclean, by decide +kernel⟩

/-- The connection a screen byte was appended for. -/
def NetEvent.screenTo? : NetEvent n → Option (Fin n × Nat)
  | .append .screen i g _ => some (i, g)
  | _ => none

/-- The second connection sees the screen without a password. -/
theorem takeover_inherits_admission :
    ¬ ScreenGated (telnetRun takeoverTicks pwServer) ∧
      (0, 2) ∉ (telnetRun takeoverTicks pwServer).auths ∧
      (0, 2) ∈ (telnetRun takeoverTicks pwServer).net.log.filterMap NetEvent.screenTo? := by
  have hrun : ((telnetRun takeoverTicks pwServer).net.conns 0).tstate = .estab ∧
      ((telnetRun takeoverTicks pwServer).net.conns 0).ready = true ∧
      ((telnetRun takeoverTicks pwServer).net.conns 0).gen = 2 ∧
      (0, 2) ∉ (telnetRun takeoverTicks pwServer).auths ∧
      (0, 2) ∈ (telnetRun takeoverTicks pwServer).net.log.filterMap NetEvent.screenTo? := by
    decide +kernel
  obtain ⟨hestab, hready, hgen, hauth, hbyte⟩ := hrun
  refine ⟨fun h => hauth ?_, hauth, hbyte⟩
  have hmem := h.admitted 0 hestab hready
  rw [hgen] at hmem
  exact hmem

end Dossh
