import Dossh.Machine
import Mathlib.Logic.Function.Basic

/-!
# Keystrokes

`ansikey.c` maps raw terminal bytes to BIOS keystrokes.  What it does to the rest
of the program, `inject_key` and `request_reboot`, is recorded in a history with the
newest event first.
-/

namespace Dossh

/-- A call out of `ansikey.c`. -/
inductive KeyEvent where
  | inject (scan ascii : UInt8)
  | reboot
deriving DecidableEq, Repr

/-- The state of `ansikey.c`.  `pend` is the filled part of the array of that name. -/
structure AnsiKey where
  pend : List UInt8
  pendAge : Nat
  swallow : Bool
  rbState : Nat
  log : List KeyEvent
deriving Repr

/-- The state before the first byte. -/
def AnsiKey.init : AnsiKey where
  pend := []
  pendAge := 0
  swallow := false
  rbState := 0
  log := []

/-! ## The tables of `ansi_key_init` -/

/-- A table with the values `base`, `base + 1`, ... stored at the characters of a row. -/
def scanRow (base : Nat) (row : List UInt8) (scan : UInt8 → UInt8) : UInt8 → UInt8 :=
  (row.zipIdx).foldl (fun t p => Function.update t p.1 (UInt8.ofNat (base + p.2))) scan

/-- `scan`: base character to make code. -/
def keyScan : UInt8 → UInt8 :=
  let t := scanRow 0x02 (ascii "1234567890-=") fun _ => 0
  let t := scanRow 0x10 (ascii "qwertyuiop[]") t
  let t := scanRow 0x1E (ascii "asdfghjkl;'`") t
  let t := scanRow 0x2B (ascii "\\zxcvbnm,./") t
  Function.update t 0x20 0x39

/-- `unshift`: shifted character to its unshifted one. -/
def keyUnshift : UInt8 → UInt8 :=
  ((ascii "!@#$%^&*()_+\x7b\x7d:\"~<>?|").zip (ascii "1234567890-=[];'`,./\\")).foldl
    (fun t p => Function.update t p.1 p.2) fun _ => 0

/-! ## Bytes -/

/-- `inject_key`, as seen from here. -/
def AnsiKey.inject (k : AnsiKey) (scan ascii : UInt8) : AnsiKey :=
  { k with log := .inject scan ascii :: k.log }

/-- `map_byte`. -/
def mapByte (k : AnsiKey) (b : UInt8) : AnsiKey :=
  if b = 0x0D ∨ b = 0x0A then k.inject 0x1C 0x0D
  else if b = 0x09 then k.inject 0x0F 0x09
  else if b = 0x7F ∨ b = 0x08 then k.inject 0x0E 0x08
  else if 32 ≤ b ∧ b < 127 then
    let base := keyUnshift b
    let base := if base = 0 then (if 0x41 ≤ b ∧ b ≤ 0x5A then b + 32 else b) else base
    let sc := keyScan base
    if sc ≠ 0 then k.inject sc b else k
  else if 1 ≤ b ∧ b ≤ 26 then
    let sc := keyScan (b + 96)
    if sc ≠ 0 then k.inject sc b else k
  else k

/-- `csi_final`. -/
def csiFinal (f : UInt8) : UInt8 :=
  if f = 0x41 then 0x48
  else if f = 0x42 then 0x50
  else if f = 0x43 then 0x4D
  else if f = 0x44 then 0x4B
  else if f = 0x48 then 0x47
  else if f = 0x46 then 0x4F
  else 0

/-- `csi_tilde`. -/
def csiTilde (v : Nat) : UInt8 :=
  match v with
  | 1 => 0x47 | 2 => 0x52 | 3 => 0x53 | 4 => 0x4F | 5 => 0x49 | 6 => 0x51
  | 11 => 0x3B | 12 => 0x3C | 13 => 0x3D | 14 => 0x3E | 15 => 0x3F | 17 => 0x40
  | 18 => 0x41 | 19 => 0x42 | 20 => 0x43 | 21 => 0x44 | 23 => 0x57 | 24 => 0x58
  | _ => 0

/-- `ss3_final`. -/
def ss3Final (f : UInt8) : UInt8 :=
  if f = 0x50 then 0x3B
  else if f = 0x51 then 0x3C
  else if f = 0x52 then 0x3D
  else if f = 0x53 then 0x3E
  else if f = 0x48 then 0x47
  else if f = 0x46 then 0x4F
  else 0

/-- The loop of `finish_csi`, over the bytes behind `ESC [`; `n` is 16 bits wide. -/
def csiNumber : List UInt8 → Nat → Nat
  | [], v => v
  | d :: ds, v =>
      if 0x30 ≤ d ∧ d ≤ 0x39 then csiNumber ds ((v * 10 + (d.toNat - 0x30)) % 65536) else v

/-- `finish_csi`. -/
def finishCsi (k : AnsiKey) (final : UInt8) : AnsiKey :=
  let sc := if final = 0x7E then csiTilde (csiNumber (k.pend.drop 2) 0) else csiFinal final
  if sc ≠ 0 then k.inject sc 0 else k

/-- `ansi_key_byte` behind the sentinel and the swallowed LF.  `again` is the call of
`ansi_key_byte` for the byte behind a lone ESC. -/
def ansiKeyRest (again : AnsiKey → UInt8 → AnsiKey) (k : AnsiKey) (b : UInt8) : AnsiKey :=
  match k.pend with
  | [] =>
      if b = 0x1B then { k with pend := [0x1B], pendAge := 0 }
      else if b = 0x0D then { k.inject 0x1C 0x0D with swallow := true }
      else mapByte k b
  | [_] =>
      let k := { k with pendAge := 0 }
      if b = 0x5B ∨ b = 0x4F then { k with pend := k.pend ++ [b] }
      else again { k.inject 0x01 0x1B with pend := [] } b
  | _ :: kind :: _ =>
      let k := { k with pendAge := 0 }
      if kind = 0x5B then
        if (0x30 ≤ b ∧ b ≤ 0x39) ∨ b = 0x3B then
          if k.pend.length < 12 then { k with pend := k.pend ++ [b] } else k
        else { finishCsi k b with pend := [] }
      else if kind = 0x4F then
        let sc := ss3Final b
        { (if sc ≠ 0 then k.inject sc 0 else k) with pend := [] }
      else { k with pend := [] }

/-- The head of `ansi_key_byte`: the reboot sentinel and the LF behind a CR. -/
def ansiKeyHead (rest : AnsiKey → UInt8 → AnsiKey) (k : AnsiKey) (b : UInt8) : AnsiKey :=
  if b = 0x1E then
    if k.rbState < 3 then { k with rbState := k.rbState + 1 } else k
  else if k.rbState ≥ 3 ∧ (b = 0x59 ∨ b = 0x79) then
    { k with rbState := 0, log := .reboot :: k.log }
  else
    let k := { k with rbState := 0 }
    if k.swallow then
      let k := { k with swallow := false }
      if b = 0x0A ∨ b = 0x00 then k else rest k b
    else rest k b

/-- `ansi_key_byte`.  The byte behind a lone ESC is handled by a second call, which
finds nothing pending and so does not call again. -/
def ansiKeyByte (k : AnsiKey) (b : UInt8) : AnsiKey :=
  ansiKeyHead (ansiKeyRest (ansiKeyHead (ansiKeyRest fun k _ => k))) k b

/-- `ansi_key_tick`. -/
def ansiKeyTick (k : AnsiKey) : AnsiKey :=
  if k.pend.length > 0 then
    let k := { k with pendAge := k.pendAge + 1 }
    if k.pendAge ≥ 2 then
      { (if k.pend.length = 1 then k.inject 0x01 0x1B else k) with pend := [] }
    else k
  else k

end Dossh
