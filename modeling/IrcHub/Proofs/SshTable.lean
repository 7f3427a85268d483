import IrcHub.Hub.SshTable
import IrcHub.Proofs.Restart.ConnLimits
import Mathlib.Algebra.Order.Ring.Int
import Mathlib.Tactic.Positivity

/-!
# `IrcHub.Proofs.SshTable`: SSH blocks hold and escalate

The blocks an address started so far, newest first, say all the table has to remember of them:
`Remembers` ties the row to this history, and `levelOf` counts the chain the newest block is the
end of.

* `rowStep_spec`: what one event does on a row, its arithmetic included
* `step_spec`: an event is served by the row of its address, and the other rows stay
* `run_projects`: in a run with room for its addresses, each address is served by its own row, as
  if it were alone
* `Sound.lengths`, `Lengths.chain`: in a sound trace the blocks of a chain double
* `ssh_blocks`: blocks hold, escalate and are each address's own
* `ssh_blocks_clock_ends`: a clock at 0, and one at the last second

The functions of the model check every sum and product, so the results say that none leaves its
type, for settings in range (`CfgOk`) and a clock with room for one more block (`ClockOk`). A
table that is full takes a row from another address; `hfew` keeps to the case of fewer addresses
than rows.
-/

set_option autoImplicit false

namespace IrcHub.Proofs.Ssh

open IrcHub.Hub
open IrcHub.Hub.Ssh
open String (utf8Len)
open Str

/-- A time the clock gives, with room for a block before the end of the 64 bits. -/
def ClockOk (now : Int) : Prop := 0 ≤ now ∧ now ≤ i64Max - sshBlockMax

/-- What the ranges of the settings mean for the table. -/
structure CfgOk (cfg : ConnCfg) : Prop where
  block : 1 ≤ cfg .block ∧ cfg .block ≤ 86400
  connectN : 0 ≤ cfg .connectN ∧ cfg .connectN ≤ 1000
  authfailN : 0 ≤ cfg .authfailN ∧ cfg .authfailN ≤ 1000

/-- A configuration in range is one the table can work with. -/
theorem cfgOk_of_inRange {cfg : ConnCfg} (h : InRange cfg) : CfgOk cfg := by
  have hpart : ∀ s ∈ connSets, ∀ p ∈ (s.slots.map cfg).zip (s.lo.zip s.hi), p.2.1 ≤ p.1
    ∧ p.1 ≤ p.2.2 :=
    fun s hs => (h s hs).2
  have hauth := hpart ⟨.ssh, "authfail".toList, [.authfailN, .authfailS], [3, 3600], [1, 1],
    [1000, 86400], "N:S, N 1 to 1000, S 1 to 86400".toList⟩ (by decide)
    (cfg .authfailN, 1, 1000) (by simp)
  have hconnect := hpart ⟨.ssh, "connect".toList, [.connectN, .connectS], [6, 60], [2, 1],
    [1000, 3600], "N:S, N 2 to 1000, S 1 to 3600".toList⟩ (by decide)
    (cfg .connectN, 2, 1000) (by simp)
  have hblock := hpart ⟨.ssh, "block".toList, [.block], [300], [30], [86400],
    "30 to 86400 seconds".toList⟩ (by decide) (cfg .block, 30, 86400) (by simp)
  simp only at hauth hconnect hblock
  exact ⟨by omega, by omega, by omega⟩

/-! ### Lengths of blocks -/

/-- Seconds of the `k`-th block of a chain. -/
def chainSecs (base : Int) (k : Nat) : Int := min (base * 2 ^ k) sshBlockMax

/-- Doubling gives the power of two, as far as the longest block goes, and never leaves its
type. -/
theorem doubleSecs_spec {secs : Int} (hlo : 1 ≤ secs) (hhi : secs ≤ 172800) (n : Nat) :
    ∃ secs', doubleSecs n secs = .ok secs'
      ∧ min secs' sshBlockMax = min (secs * 2 ^ n) sshBlockMax
      ∧ 1 ≤ secs' ∧ secs' ≤ 172800 := by
  induction n generalizing secs with
  | zero => exact ⟨secs, rfl, by rw [pow_zero, mul_one], hlo, hhi⟩
  | succ n ih =>
    unfold doubleSecs
    by_cases hbelow : secs < sshBlockMax
    · have hcap : secs < 86400 := hbelow
      have hfit : fitI64 (secs * 2) = .ok (secs * 2) :=
        if_pos ⟨by show -9223372036854775808 ≤ _; omega,
        by show _ ≤ 9223372036854775807; omega⟩
      obtain ⟨secs', hrun, hmin, hpos, hmax⟩ := @ih (secs * 2) (by omega) (by omega)
      refine ⟨secs', ?_, ?_, hpos, hmax⟩
      · rw [if_pos hbelow, hfit, checked_bind, hrun]
      · rw [hmin, pow_succ, mul_assoc, mul_comm 2]
    · refine ⟨secs, if_neg hbelow, ?_, hlo, hhi⟩
      have hge : (86400 : Int) ≤ secs := not_lt.mp hbelow
      have hpow : (1 : Int) ≤ 2 ^ (n + 1) := one_le_pow₀ (by decide)
      have hmul : secs ≤ secs * 2 ^ (n + 1) := le_mul_of_one_le_right (by omega) hpow
      rw [min_eq_right hge, min_eq_right (hge.trans hmul)]

/-- Past the thirtieth block of a chain nothing changes. -/
theorem chainSecs_min {base : Int} (hbase : 1 ≤ base) (k : Nat) :
    chainSecs base (min k 30) = chainSecs base k := by
  by_cases hk : k ≤ 30
  · rw [min_eq_left hk]
  · have hbig : ∀ j, 30 ≤ j → chainSecs base j = sshBlockMax := by
      intro j hj
      have hpow : (2 : Int) ^ 30 ≤ 2 ^ j := pow_le_pow_right₀ (by decide) hj
      have hmul : (2 : Int) ^ j ≤ base * 2 ^ j := le_mul_of_one_le_left (by positivity) hbase
      have hthirty : (86400 : Int) ≤ 2 ^ 30 := by decide
      exact min_eq_right (hthirty.trans (hpow.trans hmul))
    rw [hbig k (by omega), hbig _ (by omega)]

/-- A block lasts at least a second. -/
theorem chainSecs_pos {base : Int} (hbase : 1 ≤ base) (k : Nat) : 1 ≤ chainSecs base k := by
  have hpow : (1 : Int) ≤ 2 ^ k := one_le_pow₀ (by decide)
  exact le_min (hbase.trans (le_mul_of_one_le_right (by omega) hpow)) (by decide)

/-! ### History -/

/-- Blocks of an address, newest first: start and seconds. -/
abbrev History := List (Int × Int)

/-- How many blocks of the chain are before a block that starts at `now`. A chain goes on while a
block starts within the memory of the one before; a block that started at 0 is no block to the
source. -/
def chainBefore (now : Int) : History → Nat
  | [] => 0
  | (t, _) :: rest => if 0 < t ∧ now - t < sshBlockMemory then chainBefore t rest + 1 else 0

/-- The level a row keeps is the newest block's place in its chain. -/
def levelOf : History → Nat
  | [] => 0
  | (t, _) :: rest => chainBefore t rest

/-- Blocks of an address so far, and the newest of them on its row. A block that has run out may
have been cleared from the row, but not its start and its level. -/
structure Remembers (last : Int) (e : SshIp) (hist : History) : Prop where
  fresh : hist = [] → e.lastBlock = 0 ∧ e.blockedUntil = 0
  newest : ∀ b ∈ hist.head?, e.lastBlock = b.1
    ∧ (e.blockedUntil = b.1 + b.2 ∨ (e.blockedUntil = 0 ∧ b.1 + b.2 ≤ last))
    ∧ e.level = min (levelOf hist) 30

/-- The numbers of a row, at the time of its last event: times are not after it, counts not above
their limits. -/
structure RowOk (cfg : ConnCfg) (last : Int) (e : SshIp) : Prop where
  winStart : 0 ≤ e.winStart ∧ e.winStart ≤ last
  failLast : 0 ≤ e.failLast ∧ e.failLast ≤ last
  lastBlock : 0 ≤ e.lastBlock ∧ e.lastBlock ≤ last
  lastSuccess : 0 ≤ e.lastSuccess ∧ e.lastSuccess ≤ last
  connN : 0 ≤ e.connN ∧ e.connN ≤ cfg .connectN
  failN : 0 ≤ e.failN ∧ e.failN ≤ cfg .authfailN

/-- The history after an event. -/
def pushed (hist : History) (now : Int) (out : Out) : History :=
  if 0 < out.started then (now, out.started) :: hist else hist

/-- What an event may do, given the history: under a block it is refused and starts none, and a
block it starts has the length of its place in the chain. -/
structure EventSound (base : Int) (hist : History) (now : Int) (op : Op) (out : Out) : Prop where
  held : ∀ b ∈ hist.head?, now < b.1 + b.2 → (op = .connect → out.admitted = false)
    ∧ out.started = 0
  length : 0 < out.started → out.started = chainSecs base (chainBefore now hist)
  nonneg : 0 ≤ out.started

/-! ### One event on a row -/

section Row

variable {cfg : ConnCfg} {last now : Int} {e : SshIp} {hist : History}

/-- Two times of the clock have a difference. -/
theorem fitI64_sub {x y : Int} (hx : ClockOk x) (hy : 0 ≤ y) (hyx : y ≤ x) :
    fitI64 (x - y) = .ok (x - y) := by
  have hmax : x ≤ 9223372036854689407 := hx.2
  refine if_pos ⟨?_, ?_⟩
  · show -9223372036854775808 ≤ x - y
    omega
  · show x - y ≤ 9223372036854775807
    omega

/-- So the age of what happened is computed. -/
theorem within_ok {x span : Int} (hnow : ClockOk now) (h0 : 0 ≤ x) (hx : x ≤ now) :
    within x now span = .ok (decide (0 < x ∧ now - x < span)) := by
  unfold within
  by_cases hpos : 0 < x
  · rw [if_pos hpos, fitI64_sub hnow h0 hx, checked_bind]
    simp [hpos]
  · rw [if_neg hpos]
    simp [hpos]

/-- A count that is below its limit has a next one. -/
theorem fitI32_succ {n : Int} (h0 : 0 ≤ n) (h : n ≤ 1000) : fitI32 (n + 1) = .ok (n + 1) :=
  if_pos (by omega)

/-- The level of the next block is its place in the chain, up to 30. -/
theorem nextLevel_eq (hnow : ClockOk now) (hblock : 0 ≤ e.lastBlock ∧ e.lastBlock ≤ now)
    (hmem : Remembers last e hist) :
    nextLevel e now = .ok (min (chainBefore now hist) 30 : Nat) := by
  unfold nextLevel
  rw [within_ok hnow hblock.1 hblock.2, checked_bind]
  cases hist with
  | nil =>
    rw [(hmem.fresh rfl).1]
    rfl
  | cons b rest =>
    obtain ⟨hb, -, hlevel⟩ := hmem.newest b rfl
    have hbefore : chainBefore now (b :: rest)
        = if 0 < b.1 ∧ now - b.1 < sshBlockMemory then levelOf (b :: rest) + 1 else 0 := rfl
    rw [hb, hbefore]
    by_cases hin : 0 < b.1 ∧ now - b.1 < sshBlockMemory
    · rw [decide_eq_true hin, if_pos hin, if_pos rfl]
      by_cases hless : levelOf (b :: rest) < 30
      · have hfit : fitI32 (e.level + 1) = .ok (e.level + 1) := if_pos (by omega)
        rw [if_pos (by omega), hfit]
        congr 1
        omega
      · rw [if_neg (by omega)]
        congr 1
        omega
    · rw [decide_eq_false hin, if_neg hin]
      rfl

/-- A row that is sound stays so as time goes on. -/
theorem RowOk.later (h : RowOk cfg last e) (hlast : last ≤ now) : RowOk cfg now e where
  winStart := ⟨h.winStart.1, h.winStart.2.trans hlast⟩
  failLast := ⟨h.failLast.1, h.failLast.2.trans hlast⟩
  lastBlock := ⟨h.lastBlock.1, h.lastBlock.2.trans hlast⟩
  lastSuccess := ⟨h.lastSuccess.1, h.lastSuccess.2.trans hlast⟩
  connN := h.connN
  failN := h.failN

/-- What is remembered of blocks is in three fields. -/
theorem Remembers.congr (h : Remembers last e hist) (hlast : last ≤ now) {e' : SshIp}
    (hblock : e'.lastBlock = e.lastBlock) (huntil : e'.blockedUntil = e.blockedUntil)
    (hlevel : e'.level = e.level) : Remembers now e' hist := by
  constructor
  · intro hnil
    rw [hblock, huntil]
    exact h.fresh hnil
  · intro b hb
    obtain ⟨h1, h2, h3⟩ := h.newest b hb
    rw [hblock, huntil, hlevel]
    exact ⟨h1, h2.imp_right fun hout => ⟨hout.1, by omega⟩, h3⟩

/-- Where no block is in force, a row whose block has run out starts afresh. -/
theorem unblocked_spec (hlast : last ≤ now) (hrow : RowOk cfg last e)
    (hmem : Remembers last e hist) (hfree : ¬now < e.blockedUntil) :
    RowOk cfg now e.unblocked ∧ Remembers now e.unblocked hist
      ∧ ∀ b ∈ hist.head?, ¬now < b.1 + b.2 := by
  have hrow' := hrow.later hlast
  have hnone : ∀ b ∈ hist.head?, ¬now < b.1 + b.2 := by
    intro b hb
    rcases (hmem.newest b hb).2.1 with huntil | hout
    · omega
    · omega
  unfold SshIp.unblocked
  by_cases hpos : 0 < e.blockedUntil
  · rw [if_pos hpos]
    have hzero := hrow.connN.1.trans hrow.connN.2
    have hzero' := hrow.failN.1.trans hrow.failN.2
    refine ⟨{ hrow' with connN := ⟨Int.le_refl 0, hzero⟩, failN := ⟨Int.le_refl 0, hzero'⟩ },
      ⟨fun hnil => ?_, fun b hb => ?_⟩, hnone⟩
    · exact ⟨(hmem.fresh hnil).1, rfl⟩
    · obtain ⟨h1, -, h3⟩ := hmem.newest b hb
      have := hnone b hb
      exact ⟨h1, .inr ⟨rfl, by omega⟩, h3⟩
  · rw [if_neg hpos]
    exact ⟨hrow', hmem.congr hlast rfl rfl rfl, hnone⟩

/-- An event that starts no block, with none in force. -/
theorem EventSound.quiet {base : Int} {op : Op} {out : Out}
    (hnone : ∀ b ∈ hist.head?, ¬now < b.1 + b.2) (hout : out.started = 0) :
    EventSound base hist now op out :=
  ⟨fun b hb hin => absurd hin (hnone b hb), fun hpos => by omega, by omega⟩

/-- An event that starts no block is not in the history. -/
theorem pushed_quiet {out : Out} (hout : out.started = 0) : pushed hist now out = hist :=
  if_neg (by omega)

/-- A block that starts: its seconds, and the row that remembers it. -/
theorem startBlock_spec (hcfg : CfgOk cfg) (hnow : ClockOk now)
    (hwin : 0 ≤ e.winStart ∧ e.winStart ≤ now) (hfail : 0 ≤ e.failLast ∧ e.failLast ≤ now)
    (hblock : 0 ≤ e.lastBlock ∧ e.lastBlock ≤ now)
    (hsuccess : 0 ≤ e.lastSuccess ∧ e.lastSuccess ≤ now) (hmem : Remembers last e hist) :
    ∃ e' secs, Ssh.startBlock e cfg now = .ok (e', secs) ∧ 0 < secs
      ∧ secs = chainSecs (cfg .block) (chainBefore now hist)
      ∧ e'.ip = e.ip ∧ RowOk cfg now e' ∧ Remembers now e' ((now, secs) :: hist) := by
  obtain ⟨secs, hsecs, hmin, -, -⟩ :=
    doubleSecs_spec hcfg.block.1 (by have := hcfg.block.2; omega)
    (min (chainBefore now hist) 30)
  have hlen : min secs sshBlockMax = chainSecs (cfg .block) (chainBefore now hist) := by
    rw [hmin, ← chainSecs_min hcfg.block.1]
    rfl
  have hpos := chainSecs_pos hcfg.block.1 (chainBefore now hist)
  have hmax : chainSecs (cfg .block) (chainBefore now hist) ≤ 86400 := min_le_right _ _
  have hfit : fitI64 (now + chainSecs (cfg .block) (chainBefore now hist))
      = .ok (now + chainSecs (cfg .block) (chainBefore now hist)) := by
    have h0 := hnow.1
    have hend : now ≤ 9223372036854689407 := hnow.2
    refine if_pos ⟨?_, ?_⟩
    · show -9223372036854775808 ≤ _
      omega
    · show _ ≤ 9223372036854775807
      omega
  unfold Ssh.startBlock
  rw [nextLevel_eq hnow hblock hmem, checked_bind, Int.toNat_natCast, hsecs, checked_bind, hlen,
    hfit, checked_bind]
  refine ⟨_, _, rfl, by omega, rfl, rfl,
    ⟨hwin, hfail, ⟨hnow.1, Int.le_refl now⟩, hsuccess, ⟨Int.le_refl 0, hcfg.connectN.1⟩,
    ⟨Int.le_refl 0, hcfg.authfailN.1⟩⟩, ⟨fun hnil => (nomatch hnil), fun b hb => ?_⟩⟩
  rw [← Option.some.inj hb]
  exact ⟨rfl, .inl rfl, by push_cast; rfl⟩

/-- What one event of a row comes to. -/
structure RowEvent (cfg : ConnCfg) (e : SshIp) (hist : History) (now : Int) (op : Op) (e' : SshIp)
    (out : Out) : Prop where
  ip : e'.ip = e.ip
  row : RowOk cfg now e'
  memory : Remembers now e' (pushed hist now out)
  sound : EventSound (cfg .block) hist now op out

/-- A block started where none was in force. -/
theorem RowEvent.block {op : Op} {e' : SshIp} {secs : Int}
    (hnone : ∀ b ∈ hist.head?, ¬now < b.1 + b.2) (hpos : 0 < secs)
    (hsecs : secs = chainSecs (cfg .block) (chainBefore now hist)) (hip : e'.ip = e.ip)
    (hrow : RowOk cfg now e') (hmem : Remembers now e' ((now, secs) :: hist)) :
    RowEvent cfg e hist now op e' { admitted := false, started := secs } where
  ip := hip
  row := hrow
  memory := by rwa [pushed, if_pos hpos]
  sound := ⟨fun b hb hin => absurd hin (hnone b hb), fun _ => hsecs, hpos.le⟩

/-- A connection that counts: it starts a block past the limit, and no number leaves its type. -/
theorem countConnect_spec (hcfg : CfgOk cfg) (hnow : ClockOk now) (hrow : RowOk cfg now e)
    (hmem : Remembers now e hist) (hnone : ∀ b ∈ hist.head?, ¬now < b.1 + b.2) :
    ∃ e' out, countConnect cfg now e = .ok (e', out)
      ∧ RowEvent cfg e hist now .connect e' out := by
  unfold countConnect
  rw [fitI64_sub hnow hrow.winStart.1 hrow.winStart.2, checked_bind]
  generalize hwindow :
    (if cfg .connectS ≤ now - e.winStart then { e with winStart := now, connN := 0 } else e) = w
  have hw : w.ip = e.ip ∧ w.lastBlock = e.lastBlock ∧ w.blockedUntil = e.blockedUntil
    ∧ w.level = e.level
      ∧ RowOk cfg now w := by
    rw [← hwindow]
    split
    · exact ⟨rfl, rfl, rfl, rfl, { hrow with
        winStart := ⟨hnow.1, Int.le_refl now⟩, connN := ⟨Int.le_refl 0, hcfg.connectN.1⟩ }⟩
    · exact ⟨rfl, rfl, rfl, rfl, hrow⟩
  obtain ⟨hip, hblock, huntil, hlevel, hwrow⟩ := hw
  have hconn := hwrow.connN
  have hcap := hcfg.connectN.2
  simp only
  rw [fitI32_succ hconn.1 (by omega), checked_bind]
  have hwmem : Remembers now { w with connN := w.connN + 1 } hist :=
    hmem.congr (Int.le_refl now) hblock huntil hlevel
  split
  · obtain ⟨e', secs, hstart, hpos, hsecs, hip', hrow', hmem'⟩ :=
      startBlock_spec (e := { w with connN := w.connN + 1 }) hcfg hnow hwrow.winStart
      hwrow.failLast hwrow.lastBlock hwrow.lastSuccess hwmem
    rw [hstart]
    exact ⟨e', _, rfl, RowEvent.block hnone hpos hsecs (hip'.trans hip) hrow' hmem'⟩
  · rename_i hless
    refine ⟨_, _, rfl, hip, { hwrow with connN := ⟨?_, ?_⟩ }, by rwa [pushed_quiet rfl],
      EventSound.quiet hnone rfl⟩
    · show 0 ≤ w.connN + 1
      omega
    · show w.connN + 1 ≤ cfg .connectN
      omega

/-- A refused login that counts, against a limit and a window of its own. -/
theorem countFail_spec (hcfg : CfgOk cfg) (hnow : ClockOk now) (hrow : RowOk cfg now e)
    (hmem : Remembers now e hist) (hnone : ∀ b ∈ hist.head?, ¬now < b.1 + b.2) :
    ∃ e' out, countFail cfg now e = .ok (e', out) ∧ RowEvent cfg e hist now .failed e' out := by
  obtain ⟨expired, hexpired⟩ : ∃ expired, failsExpired cfg now e = .ok expired := by
    unfold failsExpired
    split
    · rw [fitI64_sub hnow hrow.failLast.1 hrow.failLast.2, checked_bind]
      exact ⟨_, rfl⟩
    · exact ⟨_, rfl⟩
  unfold countFail
  rw [hexpired, checked_bind]
  generalize hwindow : (if expired = true then { e with failN := 0 } else e) = w
  have hw : w.ip = e.ip ∧ w.lastBlock = e.lastBlock ∧ w.blockedUntil = e.blockedUntil
    ∧ w.level = e.level
      ∧ RowOk cfg now w := by
    rw [← hwindow]
    split
    · exact ⟨rfl, rfl, rfl, rfl, { hrow with failN := ⟨Int.le_refl 0, hcfg.authfailN.1⟩ }⟩
    · exact ⟨rfl, rfl, rfl, rfl, hrow⟩
  obtain ⟨hip, hblock, huntil, hlevel, hwrow⟩ := hw
  have hfail := hwrow.failN
  have hcap := hcfg.authfailN.2
  simp only
  rw [fitI32_succ hfail.1 (by omega), checked_bind]
  have hwmem : Remembers now { w with failN := w.failN + 1, failLast := now } hist :=
    hmem.congr (Int.le_refl now) hblock huntil hlevel
  split
  · obtain ⟨e', secs, hstart, hpos, hsecs, hip', hrow', hmem'⟩ :=
      startBlock_spec (e := { w with failN := w.failN + 1, failLast := now }) hcfg hnow
        hwrow.winStart ⟨hnow.1, Int.le_refl now⟩ hwrow.lastBlock hwrow.lastSuccess hwmem
    rw [hstart]
    exact ⟨e', _, rfl, RowEvent.block hnone hpos hsecs (hip'.trans hip) hrow' hmem'⟩
  · rename_i hless
    refine ⟨_, _, rfl, hip,
      { hwrow with failN := ⟨?_, ?_⟩, failLast := ⟨hnow.1, Int.le_refl now⟩ },
      by rwa [pushed_quiet rfl], EventSound.quiet hnone rfl⟩
    · show 0 ≤ w.failN + 1
      omega
    · show w.failN + 1 ≤ cfg .authfailN
      omega

/-- An event of a row under a block. -/
theorem RowEvent.refused {op : Op} (hlast : last ≤ now) (hrow : RowOk cfg last e)
    (hmem : Remembers last e hist) :
    RowEvent cfg e hist now op e { admitted := false } where
  ip := rfl
  row := hrow.later hlast
  memory := by
    rw [pushed_quiet rfl]
    exact hmem.congr hlast rfl rfl rfl
  sound := ⟨fun _ _ _ => ⟨fun _ => rfl, rfl⟩, fun hpos => absurd hpos (Int.lt_irrefl 0),
    Int.le_refl 0⟩

/-- No event of a row is stopped by its arithmetic, and each does what the history allows. The
cases are the events, and for each whether a block is in force. -/
theorem rowStep_spec (hcfg : CfgOk cfg) (hnow : ClockOk now) (hlast : last ≤ now)
    (hrow : RowOk cfg last e) (hmem : Remembers last e hist) (op : Op) :
    ∃ e' out, rowStep cfg now op e = .ok (e', out) ∧ RowEvent cfg e hist now op e' out := by
  cases op with
  | connect =>
    unfold rowStep connectRow
    by_cases hblocked : now < e.blockedUntil
    · exact ⟨e, _, if_pos hblocked, RowEvent.refused hlast hrow hmem⟩
    · obtain ⟨hrow', hmem', hnone⟩ := unblocked_spec hlast hrow hmem hblocked
      have hip : e.unblocked.ip = e.ip := by
        unfold SshIp.unblocked
        split <;> rfl
      simp only
      rw [if_neg hblocked, within_ok hnow hrow.lastSuccess.1 (hrow.lastSuccess.2.trans hlast),
        checked_bind]
      split
      · exact ⟨_, _, rfl, hip, hrow', by rwa [pushed_quiet rfl], EventSound.quiet hnone rfl⟩
      · obtain ⟨e', out, hrun, hevent⟩ := countConnect_spec hcfg hnow hrow' hmem' hnone
        exact ⟨e', out, hrun, hevent.ip.trans hip, hevent.row, hevent.memory, hevent.sound⟩
  | failed =>
    unfold rowStep failedRow
    by_cases hblocked : now < e.blockedUntil
    · exact ⟨e, _, if_pos hblocked, RowEvent.refused hlast hrow hmem⟩
    · obtain ⟨hrow', hmem', hnone⟩ := unblocked_spec hlast hrow hmem hblocked
      have hip : e.unblocked.ip = e.ip := by
        unfold SshIp.unblocked
        split <;> rfl
      simp only
      rw [if_neg hblocked]
      obtain ⟨e', out, hrun, hevent⟩ := countFail_spec hcfg hnow hrow' hmem' hnone
      exact ⟨e', out, hrun, hevent.ip.trans hip, hevent.row, hevent.memory, hevent.sound⟩
  | success =>
    refine ⟨_, _, rfl, rfl, { hrow.later hlast with lastSuccess := ⟨hnow.1, Int.le_refl now⟩ },
      ?_, ?_⟩
    · rw [pushed_quiet rfl]
      exact hmem.congr hlast rfl rfl rfl
    · exact ⟨fun _ _ _ => ⟨fun hop => (nomatch hop), rfl⟩, fun hpos =>
        absurd hpos (Int.lt_irrefl 0), Int.le_refl 0⟩

end Row

/-! ### The events of one address -/

/-- The row an event meets: the one the address has, or a fresh one. -/
def met (row : Option SshIp) (ev : Event) : SshIp :=
  match row with
  | some e => { e with lastSeen := ev.now }
  | none => { ip := trunc ev.ip 64, lastSeen := ev.now, winStart := ev.now }

/-- The events of one address, on its own row. -/
def rowRun (cfg : ConnCfg) : Option SshIp → List Event → Except Fault (List Out)
  | _, [] => .ok []
  | row, ev :: evs => do
    let (e, out) ← rowStep cfg ev.now ev.op (met row ev)
    let outs ← rowRun cfg (some e) evs
    .ok (out :: outs)

/-- Every event of an address is sound for the blocks before it. -/
def Sound (base : Int) : History → List (Event × Out) → Prop
  | _, [] => True
  | hist, (ev, out) :: tr =>
      EventSound base hist ev.now ev.op out ∧ Sound base (pushed hist ev.now out) tr

/-- What the row of an address holds, if it has one. -/
structure Kept (cfg : ConnCfg) (last : Int) (row : Option SshIp) (hist : History) : Prop where
  fresh : row = none → hist = []
  row : ∀ e ∈ row, RowOk cfg last e ∧ Remembers last e hist

section Runs

variable {cfg : ConnCfg}

/-- The row of an event, made when there is none, is sound and remembers the history. -/
theorem Kept.met {last : Int} {row : Option SshIp} {hist : History} {ev : Event}
    (hcfg : CfgOk cfg) (hnow : ClockOk ev.now) (hlast : last ≤ ev.now)
    (h : Kept cfg last row hist) :
    RowOk cfg ev.now (met row ev) ∧ Remembers ev.now (met row ev) hist := by
  cases row with
  | some e =>
    obtain ⟨hrow, hmem⟩ := h.row e rfl
    exact ⟨{ hrow.later hlast with }, hmem.congr hlast rfl rfl rfl⟩
  | none =>
    rw [h.fresh rfl]
    have hzero : (0 : Int) ≤ 0 ∧ (0 : Int) ≤ ev.now := ⟨Int.le_refl 0, hnow.1⟩
    exact ⟨⟨⟨hnow.1, Int.le_refl _⟩, hzero, hzero, hzero, ⟨Int.le_refl 0, hcfg.connectN.1⟩,
      ⟨Int.le_refl 0, hcfg.authfailN.1⟩⟩, ⟨fun _ => ⟨rfl, rfl⟩, fun b hb => (nomatch hb)⟩⟩

/-- The events of an address run through, each sound for the blocks before it. By induction on the
events, with the row and the history of the ones before. -/
theorem rowRun_sound (hcfg : CfgOk cfg) {evs : List Event} (hclock : ∀ ev ∈ evs, ClockOk ev.now)
    {last : Int} (htimes : (last :: evs.map (·.now)).Pairwise (· ≤ ·)) {row : Option SshIp}
    {hist : History} (hkept : Kept cfg last row hist) :
    ∃ outs, rowRun cfg row evs = .ok outs ∧ outs.length = evs.length
      ∧ Sound (cfg .block) hist (evs.zip outs) := by
  induction evs generalizing last row hist with
  | nil => exact ⟨[], rfl, rfl, trivial⟩
  | cons ev evs ih =>
    rw [List.map_cons] at htimes
    have hnow := hclock ev (.head _)
    have hlast : last ≤ ev.now := (List.pairwise_cons.mp htimes).1 _ (.head _)
    obtain ⟨hrow, hmem⟩ := hkept.met hcfg hnow hlast
    obtain ⟨e, out, hstep, hevent⟩ := rowStep_spec hcfg hnow (Int.le_refl _) hrow hmem ev.op
    have hnext : Kept cfg ev.now (some e) (pushed hist ev.now out) :=
      ⟨fun hnone => (nomatch hnone), fun e' he' =>
       Option.some.inj he' ▸ ⟨hevent.row, hevent.memory⟩⟩
    obtain ⟨outs, hrun, hlen, hsound⟩ :=
      ih (fun ev' hev' => hclock ev' (.tail _ hev')) (List.pairwise_cons.mp htimes).2 hnext
    refine ⟨out :: outs, ?_, ?_, hevent.sound, hsound⟩
    · rw [rowRun, hstep, checked_bind]
      simp only
      rw [hrun, checked_bind]
    · rw [List.length_cons, List.length_cons, hlen]

/-! ### The table -/

/-- The row of an address. -/
def rowOf (tab : List SshIp) (ip : Str) : Option SshIp := tab.find? fun e => decide (e.ip = ip)

/-- A table of some addresses, each at most once. -/
structure TabOk (addrs : List Str) (tab : List SshIp) : Prop where
  nodup : (tab.map (·.ip)).Nodup
  known : ∀ e ∈ tab, e.ip ∈ addrs

variable {addrs : List Str} {tab : List SshIp}

/-- A row that changes is seen under its address and under no other. -/
theorem rowOf_set {i : Nat} {e e' : SshIp} (hnodup : (tab.map (·.ip)).Nodup)
    (hi : tab[i]? = some e) (hip : e'.ip = e.ip) (ip : Str) :
    rowOf (tab.set i e') ip = if e.ip = ip then some e' else rowOf tab ip := by
  induction tab generalizing i with
  | nil => exact nomatch hi
  | cons a tab ih =>
    rw [List.map_cons, List.nodup_cons] at hnodup
    cases i with
    | zero =>
      have ha : a = e := Option.some.inj hi
      rw [List.set_cons_zero, rowOf, rowOf, List.find?_cons, List.find?_cons, ha, hip]
      by_cases hsame : e.ip = ip
      · rw [if_pos hsame, decide_eq_true hsame]
      · rw [if_neg hsame, decide_eq_false hsame]
    | succ i =>
      have hi' : tab[i]? = some e := hi
      rw [List.set_cons_succ, rowOf, rowOf, List.find?_cons, List.find?_cons]
      by_cases hsame : a.ip = ip
      · have hother : e.ip ≠ ip := by
          intro he
          exact hnodup.1 (List.mem_map.mpr ⟨e, List.mem_of_getElem? hi', he.trans hsame.symm⟩)
        rw [decide_eq_true hsame, if_neg hother]
      · rw [decide_eq_false hsame]
        exact ih hnodup.2 hi'

/-- So is a row that is added. -/
theorem rowOf_append (e : SshIp) {ip : Str} (hnone : rowOf tab e.ip = none) :
    rowOf (tab ++ [e]) ip = if e.ip = ip then some e else rowOf tab ip := by
  rw [rowOf, List.find?_append]
  by_cases hsame : e.ip = ip
  · rw [if_pos hsame, ← hsame]
    rw [rowOf] at hnone
    simp [hnone]
  · rw [if_neg hsame]
    simp [hsame, rowOf]

/-- With fewer addresses than rows there is always room. -/
theorem TabOk.room (h : TabOk addrs tab) (hfew : addrs.length < maxSshIps) :
    tab.length < maxSshIps := by
  have hsub : tab.map (·.ip) ⊆ addrs := by
    intro ip hip
    obtain ⟨e, he, rfl⟩ := List.mem_map.mp hip
    exact h.known e he
  have hlen := (List.Nodup.subperm h.nodup hsub).length_le
  rw [List.length_map] at hlen
  omega

/-- A row changes. -/
theorem TabOk.set {i : Nat} {e e' : SshIp} (h : TabOk addrs tab) (hi : tab[i]? = some e)
    (hip : e'.ip = e.ip) :
    TabOk addrs (tab.set i e') where
  nodup := by
    have hmap : (tab.set i e').map (·.ip) = tab.map (·.ip) := by
      obtain ⟨hlt, rfl⟩ := List.getElem?_eq_some_iff.mp hi
      have hself : (tab.set i tab[i]).map (·.ip) = tab.map (·.ip) := by rw [List.set_getElem_self]
      rw [List.map_set] at hself
      rw [List.map_set, hip, hself]
    rw [hmap]
    exact h.nodup
  known := by
    intro e'' hmem
    rcases List.mem_or_eq_of_mem_set hmem with hold | hnew
    · exact h.known e'' hold
    · rw [hnew, hip]
      exact h.known e (List.mem_of_getElem? hi)

/-- A row of a new address is added. -/
theorem TabOk.append (e : SshIp) (h : TabOk addrs tab) (hnone : rowOf tab e.ip = none)
    (hip : e.ip ∈ addrs) :
    TabOk addrs (tab ++ [e]) where
  nodup := by
    rw [List.map_append, List.nodup_append]
    refine ⟨h.nodup, by simp, fun a ha b hb => ?_⟩
    obtain ⟨e', he', rfl⟩ := List.mem_map.mp ha
    have hb' : b = e.ip := by simpa using hb
    rw [hb']
    simpa using List.find?_eq_none.mp hnone e' he'
  known := by
    intro e' hmem
    rcases List.mem_append.mp hmem with hold | hnew
    · exact h.known e' hold
    · rw [List.mem_singleton.mp hnew]
      exact hip

/-- An event is served by the row of its address; the other rows are as before. -/
theorem step_spec (hcfg : CfgOk cfg) (hfew : addrs.length < maxSshIps) (htab : TabOk addrs tab)
    {ev : Event} (hip : ev.ip ∈ addrs) (hshort : utf8Len ev.ip < 64) (hnow : ClockOk ev.now)
    {last : Int} (hlast : last ≤ ev.now) {hist : History}
    (hkept : Kept cfg last (rowOf tab ev.ip) hist) :
    ∃ tab' e out, step cfg tab ev = .ok (tab', out)
      ∧ rowStep cfg ev.now ev.op (met (rowOf tab ev.ip) ev) = .ok (e, out)
      ∧ TabOk addrs tab' ∧ (∀ ip, rowOf tab' ip = if ev.ip = ip then some e else rowOf tab ip)
      ∧ Kept cfg ev.now (some e) (pushed hist ev.now out) := by
  obtain ⟨hrow, hmem⟩ := hkept.met hcfg hnow hlast
  obtain ⟨e, out, hstep, hevent⟩ := rowStep_spec hcfg hnow (Int.le_refl _) hrow hmem ev.op
  have hnext : Kept cfg ev.now (some e) (pushed hist ev.now out) :=
    ⟨fun hnone => (nomatch hnone), fun e' he' =>
     Option.some.inj he' ▸ ⟨hevent.row, hevent.memory⟩⟩
  have hipOf := hevent.ip
  unfold step sshFind
  cases hfind : tab.findIdx? (fun e => decide (e.ip = ev.ip)) with
  -- the address has a row
  | some i =>
    obtain ⟨hi, hat, -⟩ := List.findIdx?_eq_some_iff_getElem.mp hfind
    have hget : tab[i]? = some tab[i] := List.getElem?_eq_getElem hi
    have hat' : (tab[i]).ip = ev.ip := of_decide_eq_true hat
    have hrowOf : rowOf tab ev.ip = some tab[i] := by
      have := rowOf_set htab.nodup hget rfl ev.ip
      rwa [List.set_getElem_self, if_pos hat'] at this
    rw [hrowOf] at hstep hipOf ⊢
    have hget' : (tab.modify i fun e => { e with lastSeen := ev.now })[i]? = some
      (met (some tab[i]) ev) := by
      rw [List.getElem?_modify_eq, hget]
      rfl
    have hset : (tab.modify i fun e => { e with lastSeen := ev.now }).set i e = tab.set i e := by
      rw [List.modify_eq_set_getElem?, hget]
      exact List.set_set ..
    have hsame : e.ip = (tab[i]).ip := hipOf
    refine ⟨tab.set i e, e, out, ?_, hstep, htab.set hget hsame, fun ip => ?_, hnext⟩
    · simp only [hget', hstep, checked_bind, hset]
    · rw [rowOf_set htab.nodup hget hsame, hat']
  -- it has none, and there is room for one
  | none =>
    have hnone : rowOf tab ev.ip = none := by
      rw [rowOf, List.find?_eq_none]
      intro e' he'
      have := List.findIdx?_eq_none_iff.mp hfind e' he'
      simpa using this
    rw [hnone] at hstep hipOf ⊢
    have hget : (tab ++ [met none ev])[tab.length]? = some (met none ev) :=
      List.getElem?_concat_length ..
    have hsame : e.ip = ev.ip := hipOf.trans (trunc_of_lt hshort)
    refine ⟨tab ++ [e], e, out, ?_, hstep, htab.append e (by rwa [hsame]) (by rwa [hsame]),
      fun ip => ?_, hnext⟩
    · have hset : (tab ++ [met none ev]).set tab.length e = tab ++ [e] := by
        rw [List.set_append_right _ _ (Nat.le_refl _), Nat.sub_self]
        rfl
      rw [met] at hget hset
      simp only [if_pos (htab.room hfew), hget]
      rw [met] at hstep
      simp only [hstep, checked_bind, hset]
    · rw [rowOf_append e (by rwa [hsame]), hsame]

/-- What the events of an address were told. -/
def decisions (ip : Str) (evs : List Event) (outs : List Out) : List Out :=
  ((evs.zip outs).filter fun p => decide (p.1.ip = ip)).map (·.2)

/-- In a run with room for its addresses, each is served by its own row. -/
theorem run_projects (hcfg : CfgOk cfg) (hfew : addrs.length < maxSshIps) {evs : List Event}
    (hips : ∀ ev ∈ evs, ev.ip ∈ addrs ∧ utf8Len ev.ip < 64) (hclock : ∀ ev ∈ evs, ClockOk ev.now)
    {last : Int} (htimes : (last :: evs.map (·.now)).Pairwise (· ≤ ·)) (htab : TabOk addrs tab)
    (hkept : ∀ ip, ∃ hist, Kept cfg last (rowOf tab ip) hist) :
    ∃ outs, run cfg tab evs = .ok outs ∧ outs.length = evs.length
      ∧ ∀ ip, rowRun cfg (rowOf tab ip) (evs.filter fun ev => decide (ev.ip = ip))
        = .ok (decisions ip evs outs) := by
  induction evs generalizing last tab with
  | nil => exact ⟨[], rfl, rfl, fun _ => rfl⟩
  | cons ev evs ih =>
    rw [List.map_cons] at htimes
    have hnow := hclock ev (.head _)
    have hlast : last ≤ ev.now := (List.pairwise_cons.mp htimes).1 _ (.head _)
    obtain ⟨hist, hkeptOf⟩ := hkept ev.ip
    obtain ⟨hip, hshort⟩ := hips ev (.head _)
    obtain ⟨tab', e, out, hstep, hrowStep, htab', hrows, hnext⟩ :=
      step_spec hcfg hfew htab hip hshort hnow hlast hkeptOf
    have hkept' : ∀ ip, ∃ hist, Kept cfg ev.now (rowOf tab' ip) hist := by
      intro ip
      rw [hrows]
      split
      · exact ⟨_, hnext⟩
      · obtain ⟨hist', hold⟩ := hkept ip
        exact ⟨hist', hold.fresh, fun e' he' => ⟨(hold.row e' he').1.later hlast,
          (hold.row e' he').2.congr hlast rfl rfl rfl⟩⟩
    obtain ⟨outs, hrun, hlen, hproj⟩ :=
      ih (fun ev' hev' => hips ev' (.tail _ hev')) (fun ev' hev' => hclock ev' (.tail _ hev'))
      (List.pairwise_cons.mp htimes).2 htab' hkept'
    refine ⟨out :: outs, ?_, ?_, fun ip => ?_⟩
    · rw [run, hstep, checked_bind]
      simp only
      rw [hrun, checked_bind]
    · rw [List.length_cons, List.length_cons, hlen]
    · have hrest := hproj ip
      rw [hrows] at hrest
      unfold decisions at hrest ⊢
      rw [List.zip_cons_cons]
      by_cases hsame : ev.ip = ip
      · rw [if_pos hsame] at hrest
        rw [← hsame, List.filter_cons_of_pos (by simp), List.filter_cons_of_pos (by simp), rowRun,
          hrowStep, checked_bind]
        simp only
        rw [hsame, hrest, checked_bind, List.map_cons]
      · rw [if_neg hsame] at hrest
        rw [List.filter_cons_of_neg (by simpa using hsame),
          List.filter_cons_of_neg (by simpa using hsame), hrest]

/-! ### Histories of runs -/

/-- The blocks of a trace, one after the other: start and seconds. -/
def blocksOf (tr : List (Event × Out)) : List (Int × Int) :=
  (tr.filter fun p => decide (0 < p.2.started)).map fun p => (p.1.now, p.2.started)

/-- Blocks one after the other, newest first, none before the end of the one before it and none
after `last`. -/
structure Apart (last : Int) (hist : History) : Prop where
  ends : hist.Pairwise fun b a => a.1 + a.2 ≤ b.1
  past : ∀ b ∈ hist, b.1 ≤ last

/-- A block starts only when the one before it has ended. -/
theorem Apart.pushed {base : Int} {hist : History} {last now : Int} {op : Op} {out : Out}
    (h : Apart last hist) (hlast : last ≤ now) (hsound : EventSound base hist now op out) :
    Apart now (pushed hist now out) := by
  have hpast : ∀ b ∈ hist, b.1 ≤ now := fun b hb => (h.past b hb).trans hlast
  unfold Ssh.pushed
  split
  · rename_i hpos
    refine ⟨List.pairwise_cons.mpr ⟨fun b hb => ?_, h.ends⟩, fun b hb => ?_⟩
    · cases hist with
      | nil => exact nomatch hb
      | cons a rest =>
        -- no block starts while the newest is in force
        have hnewest : a.1 + a.2 ≤ now := by
          by_contra hin
          have := (hsound.held a rfl (not_le.mp hin)).2
          omega
        rcases List.mem_cons.mp hb with rfl | hrest
        · exact hnewest
        · have hend := (List.pairwise_cons.mp h.ends).1 b hrest
          have := hpast a (.head _)
          exact hend.trans this
    · rcases List.mem_cons.mp hb with rfl | hold
      · exact Int.le_refl now
      · exact hpast b hold
  · exact ⟨h.ends, hpast⟩

/-- A block that is in force is the newest one. -/
theorem Apart.newest {hist : History} {last now : Int} (h : Apart last hist) (hlast : last ≤ now)
    {b : Int × Int} (hb : b ∈ hist) (hin : now < b.1 + b.2) : b ∈ hist.head? := by
  cases hist with
  | nil => exact nomatch hb
  | cons a rest =>
    rcases List.mem_cons.mp hb with rfl | hrest
    · rfl
    · have hend := (List.pairwise_cons.mp h.ends).1 b hrest
      have hpast := h.past a (.head _)
      omega

/-- An event under a block: a connection is refused, and no block starts. -/
def Held (p : Event × Out) : Prop := (p.1.op = .connect → p.2.admitted = false) ∧ p.2.started = 0

/-- What was in the history stays there. -/
theorem mem_pushed {hist : History} {now : Int} {out : Out} {b : Int × Int} (hb : b ∈ hist) :
    b ∈ pushed hist now out := by
  unfold pushed
  split
  · exact List.mem_cons_of_mem _ hb
  · exact hb

/-- The blocks before a trace hold in it to their ends. -/
theorem Sound.held {base : Int} {tr : List (Event × Out)} {hist : History} {last : Int}
    (h : Sound base hist tr) (happart : Apart last hist)
    (htimes : (last :: tr.map (·.1.now)).Pairwise (· ≤ ·)) {b : Int × Int} (hb : b ∈ hist) :
    ∀ q ∈ tr, q.1.now < b.1 + b.2 → Held q := by
  induction tr generalizing hist last with
  | nil => exact fun q hq => nomatch hq
  | cons p tr ih =>
    obtain ⟨ev, out⟩ := p
    obtain ⟨hevent, hrest⟩ := h
    have hlast : last ≤ ev.now := (List.pairwise_cons.mp htimes).1 _ (.head _)
    intro q hq hin
    rcases List.mem_cons.mp hq with rfl | hlater
    · exact hevent.held b (happart.newest hlast hb hin) hin
    · exact ih hrest (happart.pushed hlast hevent) (List.pairwise_cons.mp htimes).2
        (mem_pushed hb) q hlater hin

/-- A block of a trace holds in it to its end. Time does not go back (`htimes`), so what comes
after a block in the trace is at its start or later. -/
theorem Sound.pairwise {base : Int} {tr : List (Event × Out)} {hist : History} {last : Int}
    (h : Sound base hist tr) (happart : Apart last hist)
    (htimes : (last :: tr.map (·.1.now)).Pairwise (· ≤ ·)) :
    tr.Pairwise fun p q => 0 < p.2.started → q.1.now < p.1.now + p.2.started → Held q := by
  induction tr generalizing hist last with
  | nil => exact .nil
  | cons p tr ih =>
    obtain ⟨ev, out⟩ := p
    obtain ⟨hevent, hrest⟩ := h
    have hlast : last ≤ ev.now := (List.pairwise_cons.mp htimes).1 _ (.head _)
    have hnext := happart.pushed hlast hevent
    have hlater := (List.pairwise_cons.mp htimes).2
    refine List.pairwise_cons.mpr ⟨fun q hq hpos hin => ?_, ih hrest hnext hlater⟩
    have hmem : (ev.now, out.started) ∈ pushed hist ev.now out := by
      rw [pushed, if_pos hpos]
      exact .head _
    exact hrest.held hnext hlater hmem q hq hin

/-- The lengths of blocks, newest first, are those of their places in the chains. -/
def Lengths (base : Int) : History → Prop
  | [] => True
  | (t, secs) :: rest => secs = chainSecs base (chainBefore t rest) ∧ Lengths base rest

/-- Lengths of a history are those of each part of it. -/
theorem Lengths.suffix {base : Int} {newer hist : History} (h : Lengths base (newer ++ hist)) :
    Lengths base hist := by
  induction newer with
  | nil => exact h
  | cons b newer ih => exact ih h.2

/-- In a sound trace each block lasts as long as its place in the chain asks. -/
theorem Sound.lengths {base : Int} {tr : List (Event × Out)} {hist : History}
    (h : Sound base hist tr) (hlen : Lengths base hist) :
    Lengths base ((blocksOf tr).reverse ++ hist) := by
  induction tr generalizing hist with
  | nil => exact hlen
  | cons p tr ih =>
    obtain ⟨ev, out⟩ := p
    obtain ⟨hevent, hrest⟩ := h
    by_cases hpos : 0 < out.started
    · have hpushed : pushed hist ev.now out = (ev.now, out.started) :: hist := if_pos hpos
      have hblocks : blocksOf ((ev, out) :: tr) = (ev.now, out.started) :: blocksOf tr := by
        rw [blocksOf, List.filter_cons_of_pos (by simpa using hpos)]
        rfl
      rw [hpushed] at hrest
      rw [hblocks, List.reverse_cons, List.append_assoc]
      exact ih hrest ⟨hevent.length hpos, hlen⟩
    · have hblocks : blocksOf ((ev, out) :: tr) = blocksOf tr := by
        rw [blocksOf, List.filter_cons_of_neg (by simpa using hpos)]
        rfl
      rw [pushed, if_neg hpos] at hrest
      rw [hblocks]
      exact ih hrest hlen

/-- The place of a block in its chain. `hclose` and `hfirst` say that the blocks are one chain and
that the one before them does not belong to it. -/
theorem chainBefore_chain {older chain : List (Int × Int)}
    (hclose : chain.IsChain fun a b => b.1 - a.1 < sshBlockMemory) (hpos : ∀ b ∈ chain, 0 < b.1)
    (hfirst : ∀ a ∈ older.getLast?, ∀ b ∈ chain.head?, sshBlockMemory ≤ b.1 - a.1) {k : Nat}
    (hk : k < chain.length) :
    chainBefore (chain[k]).1 ((chain.take k).reverse ++ older.reverse) = k := by
  induction k with
  | zero =>
    rw [List.take_zero, List.reverse_nil, List.nil_append]
    cases hlast : older.getLast? with
    | none => rw [List.getLast?_eq_none_iff.mp hlast, List.reverse_nil, chainBefore]
    | some a =>
      obtain ⟨init, rfl⟩ := List.getLast?_eq_some_iff.mp hlast
      have hfar := hfirst a hlast (chain[0])
        (List.head?_eq_getElem?.trans (List.getElem?_eq_getElem hk))
      rw [List.reverse_append, List.reverse_singleton, List.singleton_append, chainBefore,
        if_neg (by omega)]
  | succ k ih =>
    have hk' : k < chain.length := by omega
    have hgap := List.isChain_iff_getElem.mp hclose k hk
    have hpos' := hpos _ (List.getElem_mem hk')
    rw [← List.take_concat_get hk', List.concat_eq_append, List.reverse_append,
      List.reverse_singleton, List.singleton_append, List.cons_append, chainBefore,
      if_pos ⟨hpos', hgap⟩, ih hk']

/-- The lengths of a chain double from the base, up to the longest block. -/
theorem Lengths.chain {base : Int} {older chain later : List (Int × Int)}
    (h : Lengths base (older ++ chain ++ later).reverse)
    (hclose : chain.IsChain fun a b => b.1 - a.1 < sshBlockMemory) (hpos : ∀ b ∈ chain, 0 < b.1)
    (hfirst : ∀ a ∈ older.getLast?, ∀ b ∈ chain.head?, sshBlockMemory ≤ b.1 - a.1) {k : Nat}
    (hk : k < chain.length) : (chain[k]).2 = chainSecs base k := by
  rw [List.reverse_append, List.reverse_append] at h
  have hchain := h.suffix
  have hsplit : chain = chain.take k ++ chain[k] :: chain.drop (k + 1) := by
    rw [← List.drop_eq_getElem_cons hk, List.take_append_drop]
  have hplace := chainBefore_chain hclose hpos hfirst hk
  have hrev : chain.reverse ++ older.reverse
      = (chain.drop (k + 1)).reverse
        ++ (chain[k] :: ((chain.take k).reverse ++ older.reverse)) := by
    have hparts := congrArg List.reverse hsplit
    rw [List.reverse_append, List.reverse_cons] at hparts
    rw [hparts, List.append_assoc, List.append_assoc, List.singleton_append]
  rw [hrev] at hchain
  have hat : (chain[k]).2 = chainSecs base
    (chainBefore (chain[k]).1 ((chain.take k).reverse ++ older.reverse)) :=
    hchain.suffix.1
  rwa [hplace] at hat

/-! ### Blocks hold, escalate and are each address's own -/

/-- What an address was told, out of what all were. -/
theorem filter_zip {ip : Str} {evs : List Event} {outs : List Out}
    (hlen : outs.length = evs.length) :
    (evs.filter fun ev => decide (ev.ip = ip)).zip (decisions ip evs outs)
      = (evs.zip outs).filter fun p => decide (p.1.ip = ip) := by
  unfold decisions
  induction evs generalizing outs with
  | nil => rfl
  | cons ev evs ih =>
    cases outs with
    | nil => exact nomatch hlen
    | cons out outs =>
      have hrest := @ih outs (Nat.succ.inj hlen)
      rw [List.zip_cons_cons]
      by_cases hsame : ev.ip = ip
      · rw [List.filter_cons_of_pos (by simpa using hsame),
          List.filter_cons_of_pos (by simpa using hsame), List.map_cons,
          List.zip_cons_cons, hrest]
      · rw [List.filter_cons_of_neg (by simpa using hsame),
          List.filter_cons_of_neg (by simpa using hsame), hrest]

/-- What holds of the events of each address alone holds of any two events of one address. -/
theorem pairwise_sameIp {R : Event × Out → Event × Out → Prop} {tr : List (Event × Out)}
    (h : ∀ ip, (tr.filter fun p => decide (p.1.ip = ip)).Pairwise R) :
    tr.Pairwise fun p q => q.1.ip = p.1.ip → R p q := by
  rw [List.pairwise_iff_forall_sublist]
  intro p q hsub hsame
  have hall := List.pairwise_filter.mp (h p.1.ip)
  exact List.pairwise_iff_forall_sublist.mp hall hsub (by simp) (by simpa using hsame)

/-- A chain whose first block started after time 0. -/
theorem chain_pos {older chain later : List (Int × Int)}
    (htimes : ((older ++ chain ++ later).map (·.1)).Pairwise (· ≤ ·))
    (hfirst : ∀ b ∈ chain.head?, 0 < b.1) : ∀ b ∈ chain, 0 < b.1 := by
  cases chain with
  | nil => exact fun b hb => nomatch hb
  | cons c rest =>
    intro b hb
    have hc := hfirst c rfl
    rcases List.mem_cons.mp hb with rfl | hrest
    · exact hc
    · have hsub : ((c :: rest).map (·.1)).Sublist ((older ++ (c :: rest) ++ later).map (·.1)) :=
        ((List.sublist_append_right older _).trans (List.sublist_append_left _ later)).map _
      have hle : c.1 ≤ b.1 :=
        (List.pairwise_cons.mp (htimes.sublist hsub)).1 b.1 (List.mem_map_of_mem hrest)
      omega

/-- The events of one address, sound, in the trace of a run. -/
theorem run_sound (hcfg : CfgOk cfg) (hfew : addrs.length < maxSshIps) {evs : List Event}
    (hips : ∀ ev ∈ evs, ev.ip ∈ addrs ∧ utf8Len ev.ip < 64) (hclock : ∀ ev ∈ evs, ClockOk ev.now)
    (htimes : (evs.map (·.now)).Pairwise (· ≤ ·)) :
    ∃ outs, run cfg [] evs = .ok outs ∧ outs.length = evs.length
      ∧ (∀ ip, rowRun cfg none (evs.filter fun ev => decide (ev.ip = ip))
        = .ok (decisions ip evs outs))
      ∧ ∀ ip, Sound (cfg .block) [] ((evs.zip outs).filter fun p => decide (p.1.ip = ip)) := by
  have hstart : ((0 : Int) :: evs.map (·.now)).Pairwise (· ≤ ·) := by
    refine List.pairwise_cons.mpr ⟨fun t ht => ?_, htimes⟩
    obtain ⟨ev, hev, rfl⟩ := List.mem_map.mp ht
    exact (hclock ev hev).1
  have hempty : ∀ ip, ∃ hist, Kept cfg 0 (rowOf [] ip) hist :=
    fun ip => ⟨[], fun _ => rfl, fun e he => (nomatch he)⟩
  have htab : TabOk addrs [] := ⟨List.nodup_nil, fun e he => (nomatch he)⟩
  obtain ⟨outs, hrun, hlen, hproj⟩ := run_projects hcfg hfew hips hclock hstart htab hempty
  refine ⟨outs, hrun, hlen, hproj, fun ip => ?_⟩
  have hclock' : ∀ ev ∈ evs.filter (fun ev => decide (ev.ip = ip)), ClockOk ev.now :=
    fun ev hev => hclock ev (List.mem_of_mem_filter hev)
  have htimes' : ((0 : Int) :: (evs.filter fun ev => decide (ev.ip = ip)).map (·.now)).Pairwise
    (· ≤ ·) :=
    hstart.sublist ((List.filter_sublist.map _).cons_cons 0)
  have hkept : Kept cfg 0 none [] := ⟨fun _ => rfl, fun e he => (nomatch he)⟩
  obtain ⟨outs', hrow, -, hsound⟩ := rowRun_sound hcfg hclock' htimes' hkept
  have hsame : outs' = decisions ip evs outs := Except.ok.inj (hrow.symm.trans (hproj ip))
  rwa [hsame, filter_zip hlen] at hsound

end Runs

/-- Blocks of SSH addresses hold and escalate: with fewer addresses than rows and a clock that
does not go back, no arithmetic overflows; until a block ends its address is refused and starts no
other; the `k`-th block of a chain has the base doubled `k` times, up to the longest; and what an
address is told is what it would be told alone. -/
theorem ssh_blocks {cfg : ConnCfg} (hcfg : InRange cfg) {addrs : List Str}
    (hfew : addrs.length < maxSshIps) {evs : List Event}
    (hips : ∀ ev ∈ evs, ev.ip ∈ addrs ∧ utf8Len ev.ip < 64) (hclock : ∀ ev ∈ evs, ClockOk ev.now)
    (htimes : (evs.map (·.now)).Pairwise (· ≤ ·)) :
    ∃ outs, run cfg [] evs = .ok outs ∧ outs.length = evs.length
      ∧ ((evs.zip outs).Pairwise fun p q => q.1.ip = p.1.ip → 0 < p.2.started →
        q.1.now < p.1.now + p.2.started → Held q)
      ∧ (∀ ip older chain later,
          blocksOf ((evs.zip outs).filter fun p => decide (p.1.ip = ip))
            = older ++ chain ++ later →
          (chain.IsChain fun a b => b.1 - a.1 < sshBlockMemory) → (∀ b ∈ chain.head?, 0 < b.1) →
          (∀ a ∈ older.getLast?, ∀ b ∈ chain.head?, sshBlockMemory ≤ b.1 - a.1) →
          ∀ k (hk : k < chain.length), (chain[k]).2 = chainSecs (cfg .block) k)
      ∧ ∀ ip, run cfg [] (evs.filter fun ev => decide (ev.ip = ip))
        = .ok (decisions ip evs outs) := by
  have hok := cfgOk_of_inRange hcfg
  obtain ⟨outs, hrun, hlen, hproj, hsound⟩ := run_sound hok hfew hips hclock htimes
  have htrace : (evs.zip outs).map (·.1.now) = evs.map (·.now) := by
    have hfst : (evs.zip outs).map Prod.fst = evs := List.map_fst_zip (by omega)
    calc
      (evs.zip outs).map (·.1.now) = ((evs.zip outs).map Prod.fst).map (·.now) := by
        rw [List.map_map]; rfl
      _ = evs.map (·.now) := by rw [hfst]
  -- the times of one address go forward as well
  have hsorted : ∀ ip, ((0 : Int) :: ((evs.zip outs).filter fun p => decide (p.1.ip = ip)).map
    (·.1.now)).Pairwise (· ≤ ·) := by
    intro ip
    have hsub : (((evs.zip outs).filter fun p => decide (p.1.ip = ip)).map (·.1.now)).Sublist
      (evs.map (·.now)) := by
      rw [← htrace]
      exact List.filter_sublist.map _
    refine List.pairwise_cons.mpr ⟨fun t ht => ?_, htimes.sublist hsub⟩
    obtain ⟨ev, hev, rfl⟩ := List.mem_map.mp (hsub.subset ht)
    exact (hclock ev hev).1
  refine ⟨outs, hrun, hlen, ?_, ?_, fun ip => ?_⟩
  -- until a block ends its address is refused
  · exact pairwise_sameIp fun ip => (hsound ip).pairwise ⟨.nil, fun b hb => (nomatch hb)⟩
      (hsorted ip)
  -- the blocks of a chain double
  · intro ip older chain later hblocks hclose hfirstPos hfar k hk
    have hlengths := (hsound ip).lengths trivial
    rw [List.append_nil, hblocks] at hlengths
    have hsub : ((blocksOf ((evs.zip outs).filter fun p => decide (p.1.ip = ip))).map
      (·.1)).Sublist
        (((evs.zip outs).filter fun p => decide (p.1.ip = ip)).map (·.1.now)) := by
      rw [blocksOf, List.map_map]
      exact List.filter_sublist.map _
    have hblockTimes := (List.pairwise_cons.mp (hsorted ip)).2.sublist hsub
    rw [hblocks] at hblockTimes
    exact hlengths.chain hclose (chain_pos hblockTimes hfirstPos) hfar hk
  -- an address alone is told the same
  · have hown : ∀ ev ∈ evs.filter (fun ev => decide (ev.ip = ip)), ev.ip ∈ addrs
      ∧ utf8Len ev.ip < 64 :=
      fun ev hev => hips ev (List.mem_of_mem_filter hev)
    obtain ⟨outs', hrun', hlen', hproj', -⟩ := run_sound hok hfew hown
      (fun ev hev => hclock ev (List.mem_of_mem_filter hev))
      (htimes.sublist (List.filter_sublist.map _))
    have hall : ∀ p ∈ (evs.filter fun ev => decide (ev.ip = ip)).zip outs', decide
      (p.1.ip = ip) = true :=
      fun p hp => (List.mem_filter.mp (List.of_mem_zip hp).1).2
    have hall' : decisions ip (evs.filter fun ev => decide (ev.ip = ip)) outs' = outs' := by
      rw [decisions, List.filter_eq_self.mpr hall]
      exact List.map_snd_zip (by omega)
    have hsame := (hproj' ip).symm.trans
      ((congrArg (rowRun cfg none) (by rw [List.filter_filter]; simp)).trans (hproj ip))
    rw [hall'] at hsame
    rw [hrun', hsame]

/-- Refused logins of one address. -/
def fails (ip : Str) (times : List Int) : List Event := times.map fun now =>
  { op := .failed, ip, now }

/-- Three refused logins, and three more after the block: the second block is twice as long. -/
theorem ssh_blocks_twice :
    run connDefaults [] (fails "10.0.0.7".toList [1, 1, 1, 302, 302, 302])
      = .ok [{ admitted := false }, { admitted := false }, { admitted := false, started := 300 },
      { admitted := false }, { admitted := false }, { admitted := false, started := 600 }]
      ∧ (600 : Int) = chainSecs (connDefaults .block) 1 := by
  have hips : ∀ ev ∈ fails "10.0.0.7".toList [1, 1, 1, 302, 302, 302],
      ev.ip ∈ ["10.0.0.7".toList] ∧ utf8Len ev.ip < 64 := by decide
  have hclock : ∀ ev ∈ fails "10.0.0.7".toList [1, 1, 1, 302, 302, 302], ClockOk ev.now := by
    intro ev hev
    have hnow : ev.now = 1 ∨ ev.now = 302 := by
      obtain ⟨now, hnow, rfl⟩ := List.mem_map.mp hev
      simpa using hnow
    have hmax : i64Max - sshBlockMax = 9223372036854689407 := rfl
    exact ⟨by omega, by omega⟩
  obtain ⟨outs, hrun, -, -, hchain, -⟩ :=
    ssh_blocks inRange_defaults (by decide) hips hclock (by decide)
  have hruns : run connDefaults [] (fails "10.0.0.7".toList [1, 1, 1, 302, 302, 302])
    = .ok [{ admitted := false },
      { admitted := false }, { admitted := false, started := 300 }, { admitted := false },
      { admitted := false }, { admitted := false, started := 600 }] := by decide +kernel
  rw [← Except.ok.inj (hruns.symm.trans hrun)] at hchain
  exact ⟨hruns, hchain "10.0.0.7".toList [] [(1, 300), (302, 600)] [] (by decide +kernel)
    (by decide) (by decide) (by decide) 1
    (by decide)⟩

/-- The clock at its ends: a block that starts at time 0 is not remembered, so the next of its
chain is as short; and at the last second there is no end of a block. -/
theorem ssh_blocks_clock_ends :
    (run connDefaults [] (fails "10.0.0.7".toList [0, 0, 0, 301, 301, 301])).map
        (fun outs => blocksOf ((fails "10.0.0.7".toList [0, 0, 0, 301, 301, 301]).zip outs))
        = .ok [(0, 300), (301, 300)]
      ∧ (301 : Int) - 0 < sshBlockMemory ∧ chainSecs (connDefaults .block) 1 = 600
      ∧ run connDefaults [] (fails "10.0.0.7".toList [i64Max, i64Max, i64Max])
        = .error .overflow := by
  decide +kernel

end IrcHub.Proofs.Ssh
