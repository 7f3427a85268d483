import Mathlib.Algebra.Order.BigOperators.Group.List
import Mathlib.Data.List.TakeWhile
import IrcHub.Proofs.Sync.Lines
import IrcHub.Proofs.Sync.Runs

/-!
# `IrcHub.Proofs.Sync.Packet`: a full sync is complete

The lines of all records together stay below `maxSyncPayload`, so no length check of the generator
stops or skips anything, in every state a run reaches.

* `globals_len`, `bot_len`: the lines of the global table, counted by class, and those of one bot
* `Fits.syncRecords_len`: all lines together
* `generateSyncPacket_eq`: below the ceiling nothing is left out
* `syncPacket_complete`: so a full sync holds the line of every record

A receiver gets the lines back if no record has a NUL or a line end in it. Three steps of a run
store such a record: a user line stamped zero or less for an unknown user, a `user add` and a
`channel del` with a line end in what was typed. In a run without these the receiver reads one
line per record (`syncPacket_lines`).
-/

set_option autoImplicit false

namespace IrcHub.Proofs

open IrcHub.Hub Str Table
open String (utf8Len)

variable {ok : Char → Prop} {s : HubState}

/-! ### The generator -/

/-- Lines that all fit below the limit are all put out. -/
theorem emitUntil_eq (out : Str) (lines : List Str)
    (h : utf8Len out + utf8Len lines.flatten < maxSyncPayload) :
    emitUntil out lines = out ++ lines.flatten := by
  induction lines generalizing out with
  | nil => simp [emitUntil]
  | cons line lines ih =>
    rw [List.flatten_cons, String.utf8Len_append] at h
    unfold emitUntil
    rw [if_neg (by omega), ih _ (by rw [String.utf8Len_append]; omega), List.flatten_cons,
      List.append_assoc]

/-- So is a block that fits. -/
theorem emitBlock_eq (out block : Str) (h : utf8Len out + utf8Len block < maxSyncPayload) :
    emitBlock out block = out ++ block := if_pos h

/-- The opt line goes out when the flags were ever set. -/
private theorem emitOpt_eq (out : Str)
    (h : utf8Len out + utf8Len (if s.optFlagsTs > 0 then [optFormat s] else []).flatten
    < maxSyncPayload) :
    (if s.optFlagsTs > 0 then emitBlock out (optFormat s) else out)
      = out ++ (if s.optFlagsTs > 0 then [optFormat s] else []).flatten := by
  split at h
  · rename_i hset
    rw [if_pos hset, if_pos hset, List.flatten_singleton]
    rw [List.flatten_singleton] at h
    exact emitBlock_eq out _ h
  · rename_i hset
    rw [if_neg hset, if_neg hset, List.flatten_nil, List.append_nil]

/-- The block of rights is the lines of flags and of bindings. -/
private theorem accessAppend_eq :
    accessAppend s (fun _ => true)
      = (s.uflagRecords.map formatUflag ++ s.uchanRecords.map formatUchan).flatten := by
  simp [accessAppend, List.flatMap_def]

/-- The block after it is the purge setting, if it was ever set, and the revocations. -/
private theorem settingsAppend_eq :
    gsettingAppend s ++ revokeAppend s
      = ((if s.purgeDaysTs > 0 then [gsettingFormat s] else [])
        ++ s.revoked.map revokeFormat).flatten := by
  unfold gsettingAppend revokeAppend
  rw [List.flatten_append, ← List.flatMap_def]
  split
  · rw [List.flatten_singleton]
  · rfl

/-- Below the ceiling nothing is left out. Each part of the generator stops at the ceiling by a
check of its own. -/
theorem generateSyncPacket_eq (h : utf8Len (syncRecords s).flatten < maxSyncPayload) :
    generateSyncPacket s = (syncRecords s).flatten := by
  unfold syncRecords at h ⊢
  unfold generateSyncPacket
  simp only []
  rw [accessAppend_eq, settingsAppend_eq, List.flatMap_def]
  -- one section after the other, each with what is already out
  generalize (s.globalEntries.filter fun e => syncedKey e.key).map formatGlobal = globals at h ⊢
  generalize s.chanLearned.map learnedFormat = learned at h ⊢
  generalize s.userRecords.map formatUserRecord = users at h ⊢
  generalize s.maskRecords.map formatMaskRecord = masks at h ⊢
  generalize s.uflagRecords.map formatUflag ++ s.uchanRecords.map formatUchan = access at h ⊢
  generalize (if s.purgeDaysTs > 0 then [gsettingFormat s] else []) ++ s.revoked.map revokeFormat
    = settings at h ⊢
  simp only [List.flatten_append, String.utf8Len_append] at h ⊢
  have hnil : utf8Len ([] : Str) = 0 := rfl
  have hglobals := emitUntil_eq [] globals (by omega)
  have husers := emitUntil_eq (globals.flatten ++ learned.flatten) users
    (by simp only [String.utf8Len_append]; omega)
  have hmasks := emitUntil_eq (globals.flatten ++ learned.flatten ++ users.flatten) masks
    (by simp only [String.utf8Len_append]; omega)
  rw [hglobals, List.nil_append, husers, hmasks]
  have haccess := emitBlock_eq
    (globals.flatten ++ learned.flatten ++ users.flatten ++ masks.flatten)
    access.flatten (by simp only [String.utf8Len_append]; omega)
  have hopt := emitOpt_eq (s := s)
    (globals.flatten ++ learned.flatten ++ users.flatten ++ masks.flatten ++ access.flatten)
    (by simp only [String.utf8Len_append]; omega)
  rw [haccess, hopt]
  generalize (if s.optFlagsTs > 0 then [optFormat s] else []) = opt at h ⊢
  have hsettings := emitBlock_eq
    (globals.flatten ++ learned.flatten ++ users.flatten ++ masks.flatten
    ++ access.flatten ++ opt.flatten) settings.flatten
      (by simp only [String.utf8Len_append]; omega)
  rw [hsettings]
  exact emitUntil_eq _ _ (by simp only [String.utf8Len_append]; omega)

/-! ### The size of a full sync -/

/-- The text of the lines of a table. -/
private theorem table_len {α : Type} {n k : Nat} {P : α → Prop} {l : List α} {f : α → Str}
    (h : TableFit n P l) (hf : ∀ x, P x → LineFit ok k (f x)) :
    utf8Len (l.map f).flatten ≤ n * (k + 1) := by
  have hlines : ∀ line ∈ l.map f, utf8Len line ≤ k + 1 := by
    intro line hline
    obtain ⟨x, hx, rfl⟩ := List.mem_map.mp hline
    exact (hf x (h.all x hx)).len
  calc utf8Len (l.map f).flatten
      ≤ (l.map f).length * (k + 1) := utf8Len_flatten_le hlines
    _ ≤ n * (k + 1) := Nat.mul_le_mul_right _ (by rw [List.length_map]; exact h.len)

/-- A line of the global table costs what its class does. -/
private theorem lineCost_le (k : GlobalKey) :
    (if syncedKey k = true then valueMax k + 24 else 0)
      ≤ (if (!keyIsModes k) = true then 1 else 0) * 1047
        + (if decide (k = .C) = true then 1 else 0) * 670
        + (if decide (k = .D) = true then 1 else 0) * 601
        + (if decide (k = .B) = true then 1 else 0) * 415 := by
  cases k
  all_goals decide

/-- The text of the lines of the global table, counted by class. -/
private theorem globals_len {es : List GlobalEntry}
    (h : ∀ e ∈ es, utf8Len (formatGlobal e) ≤ valueMax e.key + 24) :
    utf8Len ((es.filter fun e => syncedKey e.key).map formatGlobal).flatten
      ≤ es.countP (fun e => !keyIsModes e.key) * 1047 + es.countP (fun e => e.key = .C) * 670
        + es.countP (fun e => e.key = .D) * 601 + es.countP (fun e => e.key = .B) * 415 := by
  induction es with
  | nil => exact Nat.zero_le _
  | cons e es ih =>
    have hrest := ih fun e he => h e (List.mem_cons_of_mem _ he)
    have he := h e List.mem_cons_self
    have hcost := lineCost_le e.key
    simp only [List.countP_cons, List.filter_cons]
    split
    · rename_i hsync
      rw [if_pos hsync] at hcost
      rw [List.map_cons, List.flatten_cons, String.utf8Len_append]
      generalize (if (!keyIsModes e.key) = true then 1 else 0) = old at hcost ⊢
      generalize (if decide (e.key = .C) = true then 1 else 0) = chansets at hcost ⊢
      generalize (if decide (e.key = .D) = true then 1 else 0) = netsets at hcost ⊢
      generalize (if decide (e.key = .B) = true then 1 else 0) = bans at hcost ⊢
      omega
    · refine hrest.trans ?_
      gcongr
      all_goals exact Nat.le_add_right _ _

/-- The lines of one bot: one per key, and the sync time is not among them. -/
private theorem bot_len (hok : WireOk ok) {b : BotConfig} (h : BotFits ok b) :
    utf8Len (b.entries.map (formatBotEntry b)).flatten ≤ 1930 := by
  have hline : ∀ es : List (ConfigEntry BotKey), (∀ e ∈ es, e ∈ b.entries) →
      utf8Len (es.map (formatBotEntry b)).flatten
        ≤ ((es.map (·.key)).map fun k => botLineMax k + 1).sum := by
    intro es
    induction es with
    | nil => exact fun _ => Nat.zero_le _
    | cons e es ih =>
      intro hes
      have hrest := ih fun e he => hes e (List.mem_cons_of_mem _ he)
      have he := (h.line hok (hes e List.mem_cons_self)).len
      simp only [List.map_cons, List.flatten_cons, String.utf8Len_append, List.sum_cons]
      omega
  have hkeys : ∀ k ∈ b.entries.map (·.key), k ∈ [BotKey.n, .h, .pub, .seen, .d, .hl] := by
    intro k hk
    obtain ⟨e, he, rfl⟩ := List.mem_map.mp hk
    have ht := (h.entries e he).key
    cases hkey : e.key
    all_goals simp_all
  -- distinct keys cost no more than all keys
  obtain ⟨ks, hperm, hsub⟩ := List.subperm_of_subset h.keys hkeys
  calc utf8Len (b.entries.map (formatBotEntry b)).flatten
      ≤ ((b.entries.map (·.key)).map fun k => botLineMax k + 1).sum := hline _ fun _ he => he
    _ = (ks.map fun k => botLineMax k + 1).sum := (hperm.map _).sum_eq.symm
    _ ≤ ([BotKey.n, .h, .pub, .seen, .d, .hl].map fun k => botLineMax k + 1).sum :=
        (hsub.map _).sum_le_sum fun _ _ => Nat.zero_le _
    _ = 1930 := rfl

/-- The lines of all bots. -/
private theorem bots_len (hok : WireOk ok) (h : TableFit maxBots (BotFits ok) s.bots) :
    utf8Len (botLines s).flatten ≤ maxBots * 1930 := by
  have hall : ∀ bs : List BotConfig, (∀ b ∈ bs, BotFits ok b) →
      utf8Len (bs.flatMap fun b => b.entries.map (formatBotEntry b)).flatten ≤ bs.length
        * 1930 := by
    intro bs
    induction bs with
    | nil => exact fun _ => Nat.zero_le _
    | cons b bs ih =>
      intro hbs
      have hb := bot_len hok (hbs b List.mem_cons_self)
      have hrest := ih fun b hb => hbs b (List.mem_cons_of_mem _ hb)
      rw [List.flatMap_cons, List.flatten_append, String.utf8Len_append, List.length_cons]
      omega
  exact (hall s.bots h.all).trans (Nat.mul_le_mul_right _ h.len)

/-- All lines together fit a full sync. The sum of ceilings times widths is below it. -/
theorem Fits.syncRecords_len (h : Fits ok s) (hok : WireOk ok) :
    utf8Len (syncRecords s).flatten < maxSyncPayload := by
  have hglobals : utf8Len
    ((s.globalEntries.filter fun e => syncedKey e.key).map formatGlobal).flatten
      ≤ s.globalEntries.countP (fun e => !keyIsModes e.key) * 1047
        + s.globalEntries.countP (fun e => e.key = .C) * 670
        + s.globalEntries.countP (fun e => e.key = .D) * 601
        + s.globalEntries.countP (fun e => e.key = .B) * 415 :=
    globals_len fun e he => (h.line_global hok he).len
  obtain ⟨hold, hchansets, hnetsets, hbans, -⟩ := h.store.capped
  have hold : s.globalEntries.countP (fun e => !keyIsModes e.key) ≤ 64 := hold
  have hchansets : s.globalEntries.countP (fun e => e.key = .C) ≤ 64 := hchansets
  have hnetsets : s.globalEntries.countP (fun e => e.key = .D) ≤ 1 := hnetsets
  have hbans : s.globalEntries.countP (fun e => e.key = .B) ≤ 6500 := hbans
  have hlearned : utf8Len (s.chanLearned.map learnedFormat).flatten ≤ 64 * 123 :=
    table_len h.learned fun l hl => hl.line hok
  have husers : utf8Len (s.userRecords.map formatUserRecord).flatten ≤ 40 * 239 :=
    table_len h.users fun u hu => hu.line hok
  have hmasks : utf8Len (s.maskRecords.map formatMaskRecord).flatten ≤ 200 * 341 :=
    table_len h.masks fun m hm => hm.line hok
  have hflags : utf8Len (s.uflagRecords.map formatUflag).flatten ≤ 40 * 68 :=
    table_len h.flags fun r hr => hr.line hok
  have hbinds : utf8Len (s.uchanRecords.map formatUchan).flatten ≤ 400 * 130 :=
    table_len h.binds fun r hr => hr.line hok
  have hrevoked : utf8Len (s.revoked.map revokeFormat).flatten ≤ 1024 * 224 :=
    table_len h.revoked fun r hr => hr.line hok
  have hbots : utf8Len (botLines s).flatten ≤ 100 * 1930 := bots_len hok h.bots
  have hopt : utf8Len (if s.optFlagsTs > 0 then [optFormat s] else []).flatten ≤ 58 := by
    split
    · rw [List.flatten_singleton]
      exact (h.line_opt hok).len
    · exact Nat.zero_le _
  have hdays : utf8Len (if s.purgeDaysTs > 0 then [gsettingFormat s] else []).flatten ≤ 55 := by
    split
    · rw [List.flatten_singleton]
      exact (h.line_gsetting hok).len
    · exact Nat.zero_le _
  have hmax : maxSyncPayload = 3823312 := rfl
  unfold syncRecords
  simp only [List.flatten_append, String.utf8Len_append]
  generalize (if s.optFlagsTs > 0 then [optFormat s] else []) = opt at hopt ⊢
  generalize (if s.purgeDaysTs > 0 then [gsettingFormat s] else []) = days at hdays ⊢
  omega

/-- Every text in a full sync is a line that fits. -/
theorem Fits.syncRecords_line (h : Fits ok s) (hok : WireOk ok) :
    ∀ line ∈ syncRecords s, ∃ n, LineFit ok n line := by
  intro line hline
  simp only [syncRecords, botLines, List.mem_append, List.mem_map, List.mem_flatMap,
    List.mem_filter] at hline
  rcases hline with ((((((⟨e, ⟨he, -⟩, rfl⟩ | ⟨l, hl, rfl⟩) | ⟨u, hu, rfl⟩) | ⟨m, hm, rfl⟩)
    | (⟨r, hr, rfl⟩ | ⟨r, hr, rfl⟩)) | hopt) | (hdays | ⟨r, hr, rfl⟩)) | ⟨b, hb, e, he, rfl⟩
  · exact ⟨_, h.line_global hok he⟩
  · exact ⟨_, (h.learned.all l hl).line hok⟩
  · exact ⟨_, (h.users.all u hu).line hok⟩
  · exact ⟨_, (h.masks.all m hm).line hok⟩
  · exact ⟨_, (h.flags.all r hr).line hok⟩
  · exact ⟨_, (h.binds.all r hr).line hok⟩
  · split at hopt
    · rw [List.mem_singleton.mp hopt]
      exact ⟨_, h.line_opt hok⟩
    · exact (List.not_mem_nil hopt).elim
  · split at hdays
    · rw [List.mem_singleton.mp hdays]
      exact ⟨_, h.line_gsetting hok⟩
    · exact (List.not_mem_nil hdays).elim
  · exact ⟨_, (h.revoked.all r hr).line hok⟩
  · exact ⟨_, (h.bots.all b hb).line hok he⟩

/-! ### Every state of a run -/

/-- In every state a hub reaches, a full sync holds the line of every record, and stays below its
ceiling. -/
theorem syncPacket_complete {es : List HubEvent} (h : runHub es = some s) :
    generateSyncPacket s = (syncRecords s).flatten
      ∧ utf8Len (generateSyncPacket s) < maxSyncPayload := by
  have hok : WireOk fun _ => True := fun _ _ _ => trivial
  have hfits := fits_runHub hok (.inl fun _ => trivial) h
  have hlen := hfits.syncRecords_len hok
  have heq := generateSyncPacket_eq hlen
  exact ⟨heq, by rwa [heq]⟩

/-- A user of a peer, with a stamp, and a usermask. -/
def userFrame : Str :=
  "a|0a0a0a0a-0000-4000-8000-000000000002|adam||add|0|1699999999|\n".toList
    ++ "m|0a0a0a0a-0000-4000-8000-000000000002|*!*@host|add|0|1699999999\n".toList

/-- Such a frame arrives. -/
def userFrameEvent : HubEvent where
  now := ⟨1700000000, inI64_runTime⟩
  op := .peerSync userFrame

/-- The hub then holds the user, the mask and the default rights of the user. -/
private theorem run_userFrame :
    ((runHub [userFrameEvent]).any fun s => decide ((syncRecords s).length = 3)) = true := by
  decide +kernel

/-- A user with flags and a binding in a full sync. -/
theorem syncPacket_complete_user :
    ∃ s, runHub [userFrameEvent] = some s ∧ (syncRecords s).length = 3
      ∧ generateSyncPacket s = (syncRecords s).flatten := by
  obtain ⟨s, hs, hlen⟩ := (Option.any_eq_true _ _).mp run_userFrame
  exact ⟨s, hs, of_decide_eq_true hlen, (syncPacket_complete hs).1⟩

/-- The characters of a line: neither a line end nor a NUL. -/
private theorem wireOk_line : WireOk fun c => c ≠ '\n' ∧ c ≠ '\x00' :=
  fun _ hend hnul => ⟨hend, hnul⟩

/-- In every state a safe run goes through, a full sync has no NUL in it, and a receiver that cuts
it at the first NUL and splits it into lines reads one line per record, in order. -/
theorem syncPacket_lines {es : List HubEvent} (hsafe : RunWireSafe es) (n : Nat)
    (h : runHub (es.take n) = some s) :
    '\x00' ∉ generateSyncPacket s
      ∧ frameLines (generateSyncPacket s) = (syncRecords s).map List.dropLast := by
  have hfits := fits_runHub wireOk_line (.inr (hsafe.take n)) h
  have hlen := hfits.syncRecords_len wireOk_line
  have heq := generateSyncPacket_eq hlen
  have hnul : '\x00' ∉ generateSyncPacket s := by
    rw [heq]
    intro hmem
    obtain ⟨line, hline, hc⟩ := List.mem_flatten.mp hmem
    obtain ⟨k, hfit⟩ := hfits.syncRecords_line wireOk_line line hline
    rcases hfit.chars _ hc with hc | hc
    · exact hc.2 rfl
    · exact absurd hc (by decide)
  refine ⟨hnul, ?_⟩
  have hcut : untilNul (generateSyncPacket s) = generateSyncPacket s := by
    refine List.takeWhile_eq_self_iff.mpr fun c hc => ?_
    rw [bne_iff_ne]
    rintro rfl
    exact hnul hc
  unfold frameLines
  rw [hcut, heq, trunc_of_lt hlen]
  refine filter_splitOn_flatten_lines fun line hline => ?_
  obtain ⟨k, hfit⟩ := hfits.syncRecords_line wireOk_line line hline
  exact hfit.isLine fun hc => hc.1 rfl

/-- The frame of `userFrameEvent` is safe. -/
private theorem runWireSafe_user : RunWireSafe [userFrameEvent] := by
  refine ⟨?_, ?_⟩
  · show FrameSafe userFrameEvent.clock {} userFrame
    decide +kernel
  · split
    · trivial
    · trivial

/-- The same sync is read back as those three lines. -/
theorem syncPacket_lines_user :
    ∃ s, runHub [userFrameEvent] = some s ∧ (syncRecords s).length = 3
      ∧ frameLines (generateSyncPacket s) = (syncRecords s).map List.dropLast := by
  obtain ⟨s, hs, hlen⟩ := (Option.any_eq_true _ _).mp run_userFrame
  exact ⟨s, hs, of_decide_eq_true hlen, (syncPacket_lines runWireSafe_user 1 hs).2⟩

/-- A user line stamped zero for a user the hub does not know, then the line of another user. -/
def typelessFrameEvent : HubEvent where
  now := ⟨1700000000, inI64_runTime⟩
  op := .peerSync ("a|0a0a0a0a-0000-4000-8000-000000000001|eve||add|0|0|\n".toList
    ++ "a|0a0a0a0a-0000-4000-8000-000000000002|adam||add|0|1699999999|\n".toList)

/-- The record the first line leaves has no type, and hides every record after it: the hub holds
three records and a receiver reads no line of them. -/
theorem syncPacket_hidden :
    ∃ s, runHub [typelessFrameEvent] = some s ∧ '\x00' ∈ generateSyncPacket s
      ∧ (syncRecords s).length = 3 ∧ frameLines (generateSyncPacket s) = [] := by
  have hrun : ((runHub [typelessFrameEvent]).any fun s =>
      decide ('\x00' ∈ generateSyncPacket s ∧ (syncRecords s).length = 3
        ∧ frameLines (generateSyncPacket s) = [])) = true := by
    decide +kernel
  obtain ⟨s, hs, hbad⟩ := (Option.any_eq_true _ _).mp hrun
  exact ⟨s, hs, of_decide_eq_true hbad⟩

end IrcHub.Proofs
