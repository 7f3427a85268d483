import IrcHub.Hub.Ops
import IrcHub.Lib.Fit
import IrcHub.Proofs.Global.Frame

/-!
# `IrcHub.Proofs.Sync.Fits`: what every stored record keeps to

`Fits ok s` is the invariant behind the full sync: every table of the hub is within its ceiling,
every text field within its cap and made of characters of `ok`, every stamp a 64-bit number. Which
characters are allowed is a parameter, so that one proof serves the length of a sync (any
character) and its lines (no line end, no NUL).

* `EntryFits`, `UserFits`, `BotFits` and the others: one predicate for each kind of record, with
  the caps of the buffers of the source
* `Fits`: the invariant
* `mem_sscanf`: what a scan converts is part of its input, or a 64-bit number
* `fit_uuidShape`, `fit_uchanNameOk`, `fit_uflagsCanon`: texts that passed a check of the source

The writers are the subject of the next modules: shared tables, bots, users, frames, commands.
-/

set_option autoImplicit false

namespace IrcHub.Proofs

open IrcHub.Hub Str Table
open String (utf8Len)

/-! ### Allowed characters -/

/-- Every character a line of a frame can hold is allowed. -/
def WireOk (ok : Char → Prop) : Prop := ∀ c, c ≠ '\n' → c ≠ '\x00' → ok c

/-- Printable characters are allowed. -/
theorem WireOk.print {ok : Char → Prop} (hok : WireOk ok) {c : Char}
    (h : 0x20 ≤ c.toNat) : ok c := by
  refine hok c ?_ ?_
  · rintro rfl
    exact absurd h (by decide)
  · rintro rfl
    exact absurd h (by decide)

/-! ### 64-bit numbers -/

/-- Zero is a 64-bit number. -/
theorem inI64_zero : InI64 0 := ⟨by decide, by decide⟩

/-- The later of two stamps is one of them. -/
theorem inI64_max {x y : Int} (hx : InI64 x) (hy : InI64 y) : InI64 (max x y) := by
  rcases max_choice x y with h | h
  · rwa [h]
  · rwa [h]

/-- So is the earlier. -/
theorem inI64_min {x y : Int} (hx : InI64 x) (hy : InI64 y) : InI64 (min x y) := by
  rcases min_choice x y with h | h
  · rwa [h]
  · rwa [h]

/-- The next stamp stays in range because it stops at the greatest one. -/
theorem inI64_satSucc {x : Int} (hx : InI64 x) : InI64 (satSucc x) := by
  obtain ⟨hlo, hhi⟩ := hx
  unfold Hub.satSucc InI64
  omega

/-- A stamp past another is a 64-bit number. -/
theorem inI64_lwwNextTs {clk : Clock} (hclk : InI64 clk.now) {prev : Int} (hprev : InI64 prev) :
    InI64 (lwwNextTs clk prev) := by
  unfold Hub.lwwNextTs
  split
  · exact hclk
  · exact inI64_satSucc hprev

/-- What passes the range check is in range. -/
theorem checkI64_inI64 {x y : Int} (h : checkI64 x = some y) : InI64 y := by
  unfold checkI64 at h
  split at h
  · cases h
    assumption
  · cases h

/-- One digit more leaves the number in range, or the range check has caught it. -/
private theorem strtollStep_inI64 {neg : Bool} {acc : Option Int} {c : Char} {v : Int}
    (h : strtollStep neg acc c = some v) : InI64 v := by
  simp only [strtollStep, Option.bind_eq_bind, Option.bind_eq_some_iff] at h
  obtain ⟨w, -, x, -, hx⟩ := h
  exact checkI64_inI64 hx

/-- So does a text of digits, by induction on it. -/
private theorem foldl_strtollStep_inI64 (neg : Bool) (digits : Str) (acc : Option Int)
    (hacc : ∀ v, acc = some v → InI64 v) (v : Int)
    (h : digits.foldl (strtollStep neg) acc = some v) : InI64 v := by
  induction digits generalizing acc with
  | nil => exact hacc v h
  | cons c digits ih => exact ih _ (fun _ hv => strtollStep_inI64 hv) h

/-- Whatever text is read, the number is a 64-bit one: past the range it is the nearest end. -/
theorem inI64_strtoll (s : Str) : InI64 (strtoll s).1 := by
  unfold strtoll
  simp only []
  split
  · exact inI64_zero
  · simp only []
    split
    · rename_i v hv
      refine foldl_strtollStep_inI64 _ _ _ ?_ v hv
      rintro w ⟨⟩
      exact inI64_zero
    · split
      · exact ⟨by decide, by decide⟩
      · exact ⟨by decide, by decide⟩

/-- The same where the end of the number is not asked for. -/
theorem inI64_atoll (s : Str) : InI64 (atoll s) := inI64_strtoll s

/-- What a scan converts is part of its input, or a 64-bit number. By induction on the format. -/
theorem mem_sscanf {input : Str} {fmt : List Fmt} {v : Conv} (h : v ∈ sscanf input fmt) :
    v.text.Sublist input ∧ InI64 v.num := by
  induction fmt generalizing input with
  | nil => exact (List.not_mem_nil h).elim
  | cons f fmt ih =>
    cases f with
    | set n =>
      simp only [sscanf] at h
      split at h
      · exact (List.not_mem_nil h).elim
      · rcases List.mem_cons.mp h with rfl | h
        · exact ⟨(takeBytes_isPrefix _ _).sublist.trans (List.takeWhile_sublist _), inI64_zero⟩
        · obtain ⟨hsub, hnum⟩ := ih h
          exact ⟨hsub.trans (List.drop_sublist _ _), hnum⟩
    | lit c =>
      simp only [sscanf] at h
      split at h
      · obtain ⟨hsub, hnum⟩ := ih h
        exact ⟨hsub.trans (List.tail_sublist _), hnum⟩
      · exact (List.not_mem_nil h).elim
    | int =>
      simp only [sscanf] at h
      split at h
      · exact (List.not_mem_nil h).elim
      · rcases List.mem_cons.mp h with rfl | h
        · exact ⟨List.nil_sublist _, inI64_strtoll input⟩
        · obtain ⟨hsub, hnum⟩ := ih h
          exact ⟨hsub.trans (List.drop_sublist _ _), hnum⟩

/-! ### Records -/

section Records

variable (ok : Char → Prop)

/-- An entry of the global table. Of settings, defaults and bans the store knows the rest. -/
structure EntryFits (e : GlobalEntry) : Prop where
  chars : keyIsModes e.key = false → ∀ c ∈ e.value, ok c
  stamp : InI64 e.timestamp

/-- What was learned of a channel: a name, a key and modes. -/
structure LearnedFits (l : ChanLearned) : Prop where
  chan : Fit ok 64 l.chan
  key : Fit ok 30 l.key
  modes : 0 ≤ l.modes ∧ l.modes < 1000
  stamp : InI64 l.ts

/-- A user, an admin or an oper. The type is one letter, or NUL while a record is blank. -/
structure UserFits (u : UserRecord) : Prop where
  uuid : Fit ok 36 u.uuid
  name : Fit ok 63 u.name
  key : Fit ok combinedKeyB64 u.pubkeyB64
  typ : Fit ok 1 [u.typ]
  seen : InI64 u.lastSeen
  stamp : InI64 u.timestamp

/-- A usermask. -/
structure MaskFits (m : MaskRecord) : Prop where
  uuid : Fit ok 36 m.uuid
  mask : Fit ok 255 m.mask
  used : InI64 m.lastUsed
  stamp : InI64 m.timestamp

/-- The flags of a user. -/
structure FlagFits (r : UflagRecord) : Prop where
  uuid : Fit ok 36 r.uuid
  flags : Fit ok 6 r.flags
  stamp : InI64 r.timestamp

/-- A binding of a user to a channel. -/
structure BindFits (r : UchanRecord) : Prop where
  uuid : Fit ok 36 r.uuid
  chan : Fit ok 64 r.chan
  stamp : InI64 r.timestamp

/-- An entry of the revoke list. -/
structure RevokedFits (r : Revoked) : Prop where
  uuid : Fit ok 36 r.uuid
  key : Fit ok combinedKeyB64 r.pubKey
  nick : Fit ok 31 r.nick
  keyTs : InI64 r.pubTs
  wiped : InI64 r.wipedTs
  deleted : InI64 r.delTs

/-- An entry of a bot. The sync time is none. -/
structure ValueFits (e : ConfigEntry BotKey) : Prop where
  key : e.key ≠ .t
  value : Fit ok (botValueMax e.key) e.value
  stamp : InI64 e.timestamp

/-- A bot has one entry per key. -/
structure BotFits (b : BotConfig) : Prop where
  uuid : Fit ok 63 b.uuid
  keys : (b.entries.map (·.key)).Nodup
  entries : ∀ e ∈ b.entries, ValueFits ok e

/-- Every table within its ceiling, every record within its caps. The first part is the invariant
of the global store, which bounds its classes. -/
structure Fits (s : HubState) : Prop where
  store : StoreInv s
  entries : ∀ e ∈ s.globalEntries, EntryFits ok e
  learned : TableFit maxChannels (LearnedFits ok) s.chanLearned
  users : TableFit maxHubUserRecords (UserFits ok) s.userRecords
  masks : TableFit maxHubUserMasks (MaskFits ok) s.maskRecords
  flags : TableFit maxHubUserFlags (FlagFits ok) s.uflagRecords
  binds : TableFit maxHubChanBinds (BindFits ok) s.uchanRecords
  bots : TableFit maxBots (BotFits ok) s.bots
  revoked : TableFit maxRevoked (RevokedFits ok) s.revoked
  opt : Fit ok maxOptFlags s.optFlags
  optTs : InI64 s.optFlagsTs
  days : 0 ≤ s.purgeDaysSetting ∧ s.purgeDaysSetting ≤ autopurgeMax
  daysTs : InI64 s.purgeDaysTs

/-- The empty hub. -/
theorem fits_empty : Fits ok {} where
  store := storeInv_empty
  entries := fun _ he => (List.not_mem_nil he).elim
  learned := .nil
  users := .nil
  masks := .nil
  flags := .nil
  binds := .nil
  bots := .nil
  revoked := .nil
  opt := .nil
  optTs := inI64_zero
  days := ⟨by decide, by decide⟩
  daysTs := inI64_zero

end Records

variable {ok : Char → Prop} {s : HubState}

/-- What is sent to the peers does not matter. -/
theorem Fits.broadcast (h : Fits ok s) (payload : Str) :
    Fits ok (broadcastSyncToPeers s payload) :=
  { h with store := h.store }

/-! ### Fields -/

/-- Letters and digits are printable ASCII. -/
theorem toNat_of_alphanum {c : Char} (h : c.isAlphanum = true) : 0x20 ≤ c.toNat
    ∧ c.toNat < 128 := by
  change ((decide (c.val ≥ 'A'.val ∧ c.val ≤ 'Z'.val)
    || (decide (c.val ≥ 'a'.val) && decide (c.val ≤ 'z'.val)))
    || (decide (c.val ≥ '0'.val) && decide (c.val ≤ '9'.val))) = true at h
  simp only [Bool.or_eq_true, Bool.and_eq_true, decide_eq_true_eq, UInt32.le_iff_toNat_le,
    ge_iff_le] at h
  have hn : c.toNat = c.val.toNat := rfl
  have hZ : 'Z'.val.toNat = 90 := rfl
  have hA : 'A'.val.toNat = 65 := rfl
  have hz : 'z'.val.toNat = 122 := rfl
  have ha : 'a'.val.toNat = 97 := rfl
  have h9 : '9'.val.toNat = 57 := rfl
  have h0 : '0'.val.toNat = 48 := rfl
  omega

/-- Only printable ASCII characters. -/
def printText (t : Str) : Bool := t.all fun c => decide (0x20 ≤ c.toNat) && decide (c.toNat < 128)

/-- Text that passes the check is printable ASCII. -/
theorem toNat_of_printText {t : Str} (h : printText t = true) :
    ∀ c ∈ t, 0x20 ≤ c.toNat ∧ c.toNat < 128 := by
  simpa only [printText, List.all_eq_true, Bool.and_eq_true, decide_eq_true_eq] using h

/-- A fixed text. -/
theorem fit_text (hok : WireOk ok) {t : Str} {n : Nat} (hlen : t.length ≤ n)
    (h : printText t = true) :
    Fit ok n t := by
  refine fit_of_ascii hlen ?_
  intro c hc
  have hrange := toNat_of_printText h c hc
  exact ⟨hrange.2, hok.print hrange.1⟩

/-- The characters of a fixed text. -/
theorem chars_text (hok : WireOk ok) {t : Str} (h : printText t = true) : ∀ c ∈ t, ok c :=
  (fit_text hok (Nat.le_refl _) h).chars

/-- A uuid of the right shape. -/
theorem fit_uuidShape (hok : WireOk ok) {u : Str} (h : uuidShape u = true) : Fit ok 36 u := by
  simp only [uuidShape, Bool.and_eq_true, beq_iff_eq, List.all_eq_true] at h
  refine fit_of_ascii (by omega) ?_
  intro c hc
  obtain ⟨i, hi, rfl⟩ := List.mem_iff_getElem.mp hc
  have hp := h.2 (u[i], i) (List.mk_mem_zipIdx_iff_getElem?.mpr (List.getElem?_eq_getElem hi))
  have hrange : 0x20 ≤ u[i].toNat ∧ u[i].toNat < 128 := by
    simp only [] at hp
    split at hp
    · rw [eq_of_beq hp]
      decide
    · simp only [isHexDigit, Char.isDigit, Bool.or_eq_true, Bool.and_eq_true, decide_eq_true_eq,
        UInt32.le_iff_toNat_le, ge_iff_le, Char.le_def] at hp
      have hn : u[i].toNat = u[i].val.toNat := rfl
      have h9 : '9'.val.toNat = 57 := rfl
      have h0 : '0'.val.toNat = 48 := rfl
      have ha : 'a'.val.toNat = 97 := rfl
      have hf : 'f'.val.toNat = 102 := rfl
      have hA : 'A'.val.toNat = 65 := rfl
      have hF : 'F'.val.toNat = 70 := rfl
      omega
  exact ⟨hrange.2, hok.print hrange.1⟩

/-- A name of a channel to bind to. -/
theorem fit_uchanNameOk (hok : WireOk ok) {c : Str} (h : uchanNameOk c = true) : Fit ok 64 c := by
  simp only [uchanNameOk, Bool.or_eq_true, Bool.and_eq_true, decide_eq_true_eq, beq_iff_eq,
    List.all_eq_true] at h
  rcases h with rfl | ⟨⟨⟨-, hlen⟩, -⟩, hall⟩
  · refine fit_of_ascii (by decide) ?_
    intro c hc
    rw [List.mem_singleton.mp hc]
    exact ⟨by decide, hok.print (by decide)⟩
  · refine ⟨Nat.le_of_lt_succ hlen, ?_⟩
    intro c hc
    exact hok.print (Nat.le_of_lt (hall c hc).1.1.1.1)

/-- The flags of an admin in canonical order. -/
theorem fit_uflagsCanon (hok : WireOk ok) {input canon : Str}
    (h : uflagsCanon input = some canon) :
    Fit ok 6 canon := by
  unfold uflagsCanon at h
  split at h
  · cases h
    have hall : Fit ok 6 userFlagLetters := fit_text hok (by decide) (by decide)
    exact hall.sublist List.filter_sublist
  · cases h

/-- A field that passed the check of a per-bot value has allowed characters. -/
theorem chars_of_fieldOk (hok : WireOk ok) {t : Str} {bar : Bool} (h : fieldOk t bar = true) :
    ∀ c ∈ t, ok c := by
  intro c hc
  simp only [fieldOk, List.all_eq_true, Bool.and_eq_true, decide_eq_true_eq] at h
  exact hok.print (h c hc).1.1

end IrcHub.Proofs
