import IrcHub.Proofs.RateLimit
import IrcHub.Proofs.SshTable

/-!
# `IrcHub.Proofs.SshTable.Plain`: the two models of the SSH address table agree

`sshTableConnect` and its siblings in `IrcHub.Hub.RateLimit` are what the connections of a hub go
through. They work on whole numbers and leave out how long a block lasts. `IrcHub.Hub.SshTable`
has the same functions with those lengths and with checked arithmetic, and it is the one the
results on blocks are about. Each function of the one is here matched with its sibling of the
other, wherever the checked one gives a result; `ssh_blocks` says that it does in every run with a
clock in range.

## Main results

`step_eq` is one event: both leave the same table and admit the same. `run_eq` is a whole run.
-/

set_option autoImplicit false

namespace IrcHub.Proofs.Ssh

open IrcHub.Hub
open IrcHub.Hub.Ssh
open Str

variable {cfg : ConnCfg} {now : Int} {e e' : SshIp} {out : Out}

/-- A value that a computation goes on from. -/
private theorem bind_eq_ok {α β : Type} {x : Except Fault α} {f : α → Except Fault β} {b : β}
    (h : (x >>= f) = .ok b) : ∃ a, x = .ok a ∧ f a = .ok b := by
  cases x with
  | error => cases h
  | ok a => exact ⟨a, rfl, h⟩

/-- A number that fits is the number. -/
private theorem fitI64_eq {x y : Int} (h : fitI64 x = .ok y) : y = x := by
  unfold fitI64 at h
  split at h
  · exact (Except.ok.inj h).symm
  · cases h

/-- So is a short one. -/
private theorem fitI32_eq {x y : Int} (h : fitI32 x = .ok y) : y = x := by
  unfold fitI32 at h
  split at h
  · exact (Except.ok.inj h).symm
  · cases h

/-- How long ago something was, computed. -/
private theorem within_eq {last span : Int} {b : Bool} (h : within last now span = .ok b) :
    b = decide (0 < last ∧ now - last < span) := by
  unfold within at h
  split at h
  · rename_i hpos
    obtain ⟨d, hd, h⟩ := bind_eq_ok h
    rw [← Except.ok.inj h, fitI64_eq hd]
    simp [hpos]
  · rename_i hpos
    rw [← Except.ok.inj h]
    simp [hpos]

/-- Doubling, computed. -/
private theorem doubleSecs_eq {n : Nat} {secs r : Int} (h : doubleSecs n secs = .ok r) :
    r = blockSecs secs n := by
  induction n generalizing secs with
  | zero => exact (Except.ok.inj h).symm
  | succ n ih =>
    unfold doubleSecs at h
    unfold blockSecs
    split at h
    · rename_i hbelow
      obtain ⟨d, hd, h⟩ := bind_eq_ok h
      rw [if_pos hbelow, ← fitI64_eq hd]
      exact ih h
    · rename_i hbelow
      rw [if_neg hbelow]
      exact (Except.ok.inj h).symm

/-- The block that starts is the same, on the same row. -/
private theorem startBlock_eq {p : SshIp × Int} (h : Ssh.startBlock e cfg now = .ok p) :
    p = Hub.startBlock e cfg now := by
  unfold Ssh.startBlock nextLevel at h
  obtain ⟨level, hlevel, h⟩ := bind_eq_ok h
  obtain ⟨secs, hsecs, h⟩ := bind_eq_ok h
  obtain ⟨until_, huntil, h⟩ := bind_eq_ok h
  obtain ⟨recent, hrecent, hlevel⟩ := bind_eq_ok hlevel
  have hlevel : level = if 0 < e.lastBlock ∧ now - e.lastBlock < sshBlockMemory then
      if e.level < 30 then e.level + 1 else e.level else 0 := by
    rw [within_eq hrecent] at hlevel
    by_cases hr : 0 < e.lastBlock ∧ now - e.lastBlock < sshBlockMemory
    · rw [decide_eq_true hr, if_pos rfl] at hlevel
      rw [if_pos hr]
      split at hlevel
      · rename_i hlt
        rw [if_pos hlt]
        exact fitI32_eq hlevel
      · rename_i hlt
        rw [if_neg hlt]
        exact (Except.ok.inj hlevel).symm
    · rw [decide_eq_false hr, if_neg Bool.false_ne_true] at hlevel
      rw [if_neg hr]
      exact (Except.ok.inj hlevel).symm
  rw [← Except.ok.inj h, fitI64_eq huntil, doubleSecs_eq hsecs, hlevel]
  rfl

/-- So is what a connection that counts comes to. -/
private theorem countConnect_eq (h : countConnect cfg now e = .ok (e', out)) :
    (let e := if cfg .connectS ≤ now - e.winStart then { e with winStart := now, connN := 0 }
    else e
     let e := { e with connN := e.connN + 1 }
     if cfg .connectN < e.connN then ((Hub.startBlock e cfg now).1, false) else (e, true))
      = (e', out.admitted) := by
  unfold countConnect at h
  obtain ⟨d, hd, h⟩ := bind_eq_ok h
  obtain ⟨n, hn, h⟩ := bind_eq_ok h
  rw [fitI64_eq hd] at hn h
  have hn := fitI32_eq hn
  subst hn
  dsimp only at h ⊢
  -- the row once its window may have started anew, whichever way that went
  generalize (if cfg .connectS ≤ now - e.winStart then { e with winStart := now, connN := 0 }
    else e) = e₁ at h ⊢
  by_cases hover : cfg .connectN < e₁.connN + 1
  · rw [if_pos hover] at h ⊢
    obtain ⟨p, hp, h⟩ := bind_eq_ok h
    rw [startBlock_eq hp] at h
    cases Except.ok.inj h
    rfl
  · rw [if_neg hover] at h ⊢
    cases Except.ok.inj h
    rfl

/-- A connection, on the row of its address. -/
theorem connectRow_eq (h : connectRow cfg now e = .ok (e', out)) :
    sshConnectRow cfg now e = (e', out.admitted) := by
  unfold connectRow at h
  unfold sshConnectRow
  split at h
  · rename_i hblocked
    rw [if_pos hblocked]
    cases Except.ok.inj h
    rfl
  · rename_i hblocked
    obtain ⟨exempt, hexempt, h⟩ := bind_eq_ok h
    rw [if_neg hblocked]
    have hlast : e.unblocked.lastSuccess = e.lastSuccess := by
      unfold SshIp.unblocked
      split <;> rfl
    rw [within_eq hexempt, ← hlast] at h
    dsimp only
    by_cases hr : 0 < e.unblocked.lastSuccess
        ∧ now - e.unblocked.lastSuccess < sshSuccessMemory
    · rw [decide_eq_true hr, if_pos rfl] at h
      rw [if_pos hr]
      cases Except.ok.inj h
      rfl
    · rw [decide_eq_false hr, if_neg Bool.false_ne_true] at h
      rw [if_neg hr]
      exact countConnect_eq h

/-- A refused login, on the row of its address: it is never admitted. -/
theorem failedRow_eq (h : failedRow cfg now e = .ok (e', out)) :
    sshFailedRow cfg now e = e' ∧ out.admitted = false := by
  unfold failedRow at h
  unfold sshFailedRow
  split at h
  · rename_i hblocked
    rw [if_pos hblocked]
    cases Except.ok.inj h
    exact ⟨rfl, rfl⟩
  rename_i hblocked
  rw [if_neg hblocked]
  unfold countFail failsExpired at h
  obtain ⟨expired, hexpired, h⟩ := bind_eq_ok h
  obtain ⟨n, hn, h⟩ := bind_eq_ok h
  have hexp : expired = decide (0 < e.unblocked.failLast
      ∧ cfg .authfailS < now - e.unblocked.failLast) := by
    split at hexpired
    · rename_i hpos
      obtain ⟨d, hd, hexpired⟩ := bind_eq_ok hexpired
      rw [← Except.ok.inj hexpired, fitI64_eq hd]
      simp [hpos]
    · rename_i hpos
      rw [← Except.ok.inj hexpired]
      simp [hpos]
  have hn := fitI32_eq hn
  subst hn hexp
  simp only [decide_eq_true_eq] at h
  dsimp only
  -- the row once its refused logins may have grown too old
  generalize (if 0 < e.unblocked.failLast ∧ cfg .authfailS < now - e.unblocked.failLast
    then { e.unblocked with failN := 0 } else e.unblocked) = e₁ at h ⊢
  by_cases hover : cfg .authfailN ≤ e₁.failN + 1
  · rw [if_pos hover] at h ⊢
    obtain ⟨p, hp, h⟩ := bind_eq_ok h
    rw [startBlock_eq hp] at h
    cases Except.ok.inj h
    exact ⟨rfl, rfl⟩
  · rw [if_neg hover] at h ⊢
    cases Except.ok.inj h
    exact ⟨rfl, rfl⟩

/-- What an event does to the table where no block has a length, and whether it is admitted: a
refused login never is, one that held always. -/
def plainStep (cfg : ConnCfg) (tab : List SshIp) (ev : Event) : List SshIp × Bool :=
  match ev.op with
  | .connect => sshTableConnect tab cfg ev.ip ev.now
  | .failed => (sshTableFailed tab cfg ev.ip ev.now, false)
  | .success => (sshTableSuccess tab ev.ip ev.now, true)

/-- What the events of a run are told, one after the other, where no block has a length. -/
def plainRun (cfg : ConnCfg) : List SshIp → List Event → List Bool
  | _, [] => []
  | tab, ev :: evs => (plainStep cfg tab ev).2 :: plainRun cfg (plainStep cfg tab ev).1 evs

/-- The row of an address is there once it has been looked up, the one it had or a new one. -/
theorem sshFind_row (tab : List SshIp) (ip : Str) (now : Int) :
    ∃ e, (sshFind tab ip now).1[(sshFind tab ip now).2]? = some e := by
  unfold sshFind
  cases hfind : tab.findIdx? (fun e => decide (e.ip = ip)) with
  | some i =>
    obtain ⟨hi, -⟩ := List.findIdx?_eq_some_iff_getElem.mp hfind
    exact ⟨_, List.getElem?_eq_getElem (by simpa using hi)⟩
  | none =>
    by_cases hroom : tab.length < maxSshIps
    · simp only [if_pos hroom]
      exact ⟨_, List.getElem?_concat_length ..⟩
    · simp only [if_neg hroom]
      have hvalid : ∀ i, i < tab.length → ∀ fresh : SshIp, ∃ e, (tab.set i fresh)[i]? = some e :=
        fun i hi fresh => ⟨_, List.getElem?_eq_getElem (by simpa using hi)⟩
      have hbelow : ∀ {skip : SshIp → Bool} {key : SshIp → Int} {p : Nat × Int},
          oldestSlot skip key tab = some p → p.1 < tab.length := fun hp => by
        obtain ⟨_, hget, -⟩ := oldestSlot_spec hp
        exact (List.getElem?_eq_some_iff.mp hget).1
      refine hvalid _ ?_ _
      split
      · exact hbelow ‹_›
      · cases hslot : oldestSlot (fun _ => false) (·.blockedUntil) tab with
        | some p => exact hbelow hslot
        | none => exact Nat.lt_of_lt_of_le (by decide) (Nat.le_of_not_lt hroom)

/-- A change of a row is an overwrite by the changed row. -/
private theorem modify_eq {tab : List SshIp} {i : Nat} {f : SshIp → SshIp}
    (hrow : tab[i]? = some e) :
    tab.modify i f = tab.set i (f e) := by
  rw [List.modify_eq_set_getElem?, hrow]
  rfl

/-- An event leaves the same table in both models and is admitted by both or by neither. The
checked one has to give a result: it gives none where a number leaves its type. -/
theorem step_eq {tab tab' : List SshIp} {ev : Event} (h : Ssh.step cfg tab ev = .ok (tab', out)) :
    plainStep cfg tab ev = (tab', out.admitted) := by
  obtain ⟨op, ip, now⟩ := ev
  obtain ⟨e, hrow⟩ := sshFind_row tab ip now
  unfold Ssh.step at h
  simp only [hrow] at h
  obtain ⟨⟨e', out'⟩, hstep, h⟩ := bind_eq_ok h
  cases Except.ok.inj h
  cases op with
  | connect =>
    have hrow' := connectRow_eq hstep
    simp only [plainStep, sshTableConnect, hrow, hrow']
  | failed =>
    obtain ⟨hrow', hout⟩ := failedRow_eq hstep
    simp only [plainStep, sshTableFailed]
    rw [modify_eq hrow, hrow', hout]
  | success =>
    cases Except.ok.inj hstep
    simp only [plainStep, sshTableSuccess]
    rw [modify_eq hrow]

/-- In a whole run both models admit the same events. -/
theorem run_eq {tab : List SshIp} {evs : List Event} {outs : List Out}
    (h : Ssh.run cfg tab evs = .ok outs) : plainRun cfg tab evs = outs.map (·.admitted) := by
  induction evs generalizing tab outs with
  | nil =>
    cases Except.ok.inj h
    rfl
  | cons ev evs ih =>
    obtain ⟨⟨tab', out⟩, hstep, h⟩ := bind_eq_ok h
    obtain ⟨outs', hrun, h⟩ := bind_eq_ok h
    cases Except.ok.inj h
    rw [plainRun, step_eq hstep, List.map_cons]
    exact congrArg _ (ih hrun)

end IrcHub.Proofs.Ssh
