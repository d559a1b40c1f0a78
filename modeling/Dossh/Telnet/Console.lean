import Dossh.Telnet.Framing

/-!
# The console of a telnet client

The renderer, the broadcast and the stream of a slot put together.

A terminal that applies what a client decodes since its admission shows the screen of the DOS box
whenever `render_next_byte` has nothing to send.  It does not matter what the terminal showed
before, how often the renderer was reset, or which bytes the stack refused on the way.  And of two
clients one has decoded the same bytes as the other, and more in front of them.
-/

namespace Dossh

open Terminal

variable {n : Nat}

/-! ## Properties of the renderer and the broadcast -/

/-- Kept by everything the server does to the renderer: it admits a client, resets, pulls a byte
that is taken or handed back, and finds nothing to send. -/
structure CastRule (P : Render → List (CastEvent n) → Prop) : Prop where
  welcome : ∀ {r h}, P r h → ∀ now i g, P (renderReset now r) (.reset :: .ready i g :: h)
  reset : ∀ {r h}, P r h → ∀ now, P (renderReset now r) (.reset :: h)
  taken : ∀ {r r' h b}, P r h → ∀ s, renderNextByte false s r = (some b, r') → P r' (.cast b :: h)
  back : ∀ {r r' h b}, P r h → ∀ s, renderNextByte false s r = (some b, r') →
    P (renderPushback b r') h
  idle : ∀ {r r' h}, P r h → ∀ s, renderNextByte false s r = (none, r') → P r' h

namespace CastRule

variable {P : Render → List (CastEvent n) → Prop} {st : Server n} {h : List (CastEvent n)}

theorem step {now : BitVec 32} {i : Fin n} {net net' : Net n} {r r' : Render} {au au' : AuState}
    {es : List (CastEvent n)} {answered : Bool} (hP : CastRule P)
    (hstep : WireStep now i net r au net' r' au' es answered) (hr : P r h) : P r' (es ++ h) := by
  cases hstep with
  | resized => exact hP.reset hr now
  | admitted => exact hP.welcome hr now i _
  | _ => exact hr

theorem beginLoop (hP : CastRule P) (now : BitVec 32) : ∀ (fuel : Nat) {st : Server n}
    {h : List (CastEvent n)}, P st.render h →
      P (Dossh.beginLoop now fuel st).render (beginCasts now fuel st h)
  | 0, _, _, hr => hr
  | fuel + 1, st, h, hr => by
      rw [Dossh.beginLoop, beginCasts]
      rcases netTakeNewSlot st.net with ⟨_ | i, net⟩
      · exact hr
      · refine beginLoop hP now fuel ?_
        have hbegin := telnetBegin_wire now { st with net := net } i
        unfold beginEvents
        split at hbegin
        next hpw =>
          rw [hbegin.2.1, if_pos hpw]
          exact hr
        next hpw =>
          rw [hbegin.2.1, if_neg hpw]
          exact hP.welcome hr now i _

theorem rxLoop (hP : CastRule P) (now : BitVec 32) (i : Fin n) : ∀ (fuel : Nat) {st : Server n}
    {h : List (CastEvent n)}, P st.render h →
      P (Dossh.rxLoop now i fuel st).render (rxCasts now i fuel st h)
  | 0, _, _, hr => hr
  | fuel + 1, st, h, hr => by
      rw [Dossh.rxLoop, rxCasts]
      rcases netRxGetc st.net i with ⟨_ | b, net⟩
      · exact hr
      · exact rxLoop hP now i fuel (hP.step (telnetIn_wire now { st with net := net } i b) hr)

theorem rxSlots (hP : CastRule P) (now : BitVec 32) : ∀ (is : List (Fin n)) {st : Server n}
    {h : List (CastEvent n)}, P st.render h →
      P (is.foldl (fun st i => Dossh.rxLoop now i RCV_SZ st) st).render (slotsCasts now is st h)
  | [], _, _, hr => hr
  | i :: is, _, _, hr => rxSlots hP now is (hP.rxLoop now i RCV_SZ hr)

theorem pump (hP : CastRule P) (s : Screen) : ∀ (budget : Nat) {st : Server n}
    {h : List (CastEvent n)}, P st.render h →
      P (Dossh.txPumpLoop s budget st).render (pumpCasts s budget st h)
  | 0, _, _, hr => hr
  | budget + 1, st, h, hr => by
      rw [Dossh.txPumpLoop, pumpCasts]
      rcases hnext : renderNextByte false s st.render with ⟨_ | b, render⟩
      · exact hP.idle hr s hnext
      · dsimp only
        rcases netTxPutc st.net b with ⟨_ | _, net⟩
        · exact hP.back hr s hnext
        · exact pump hP s budget (hP.taken hr s hnext)

theorem netTick (hP : CastRule P) (hr : P st.render h) (pkt : Option (List UInt8)) (s : Screen) :
    P (Dossh.netTick pkt s st).render (tickCasts pkt s st h) := by
  have hpoll : P ({ st with net := netPoll s.ticks pkt st.net } : Server n).render h := hr
  have hrx := hP.rxSlots s.ticks (List.finRange n) (hP.beginLoop s.ticks (n + 1) hpoll)
  unfold Dossh.netTick tickCasts
  dsimp only
  split
  · exact hP.pump s TX_BUDGET hrx
  · exact hrx

/-- What all of these keep is kept by a run. -/
theorem run (hP : CastRule P) : ∀ (ticks : List (Option (List UInt8) × Screen)) {st : Server n}
    {h : List (CastEvent n)}, P st.render h →
      P (telnetRun ticks st).render (telnetCasts ticks st h)
  | [], _, _, hr => hr
  | (pkt, s) :: ticks, _, _, hr => run hP ticks (hP.netTick hr pkt s)

end CastRule

/-! ## The screen of a client -/

/-- The broadcast since the last reset, applied by any terminal, is what the renderer believes the
terminal to show.  Every client saw all of it, or was admitted later. -/
structure Faithful (r : Render) (h : List (CastEvent n)) : Prop where
  mirror : ∀ t : Term, MirrorInv ((t.feed (castsReset h)).feed r.pending) r
  since : ∀ i g, castsReset h <:+ castsSince i g h

theorem renderReset_mirrors (now : BitVec 32) (r : Render) (t : Term) :
    MirrorInv t (renderReset now r) where
  idle _ hvalid := by cases hvalid
  walk hact := by cases hact
  big hact := by cases hact

theorem Faithful.init (now : BitVec 32) (r : Render) :
    Faithful (n := n) (renderReset now r) [] where
  mirror _ := renderReset_mirrors now r _
  since _ _ := List.suffix_rfl

end Dossh
